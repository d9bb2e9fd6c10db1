/-
What an accepted response answers.

The claimant supplies the challenge bytes it signs, and the store remembers the nonce
and an expiry of its own.  So an accepted response has the nonce of an issued
challenge, but nothing ties its bytes to that challenge: not the expiry in the store, not
the audience and lifetime of the issuer, and not the number of keys (`Tied`).
-/
import Identikey.Auth.WireForm
import Identikey.Auth.VerifierRun

namespace Identikey.Auth

open Lib

namespace Ledger

section Binding

variable (bk : Backend) (build : Build)

/-- The challenge bytes are those of an issued challenge. -/
def AnswersIssued (l : Ledger) (bytes : Bytes) : Prop := ∃ i ∈ l.issued, bytes = i.toBytes

/-- The embedded challenge `c` is tied to what the verifier has and is: its map has no further
keys, its expiry is the one in the store, and the issuers that drew its nonce are for the expected
audience and for the lifetime that it claims. -/
structure Tied (pre : List Op) (store : InMemoryNonceStore) (a : Attempt) (c : Challenge) :
    Prop where
  known_keys : decodesWithin Challenge.knownKeysOnly a.response.challengeBytes = true
  expiry : (store.issued c.nonce).map Prod.fst = some c.expiresAt
  issuer : ∀ issuer now nonce, Op.issue issuer now nonce ∈ pre → nonce.val = c.nonce →
    issuer.audience = a.expectedAudience ∧ c.issuedAt + issuer.ttlSecs = c.expiresAt

/-- What the ledger has of the calls that were made: entries of issued challenges, and challenges
that calls of `issue` have made. -/
structure Traced (ops : List Op) (l : Ledger) : Prop where
  entry : ∀ n expiresAt used, l.store.issued n = some (expiresAt, used) →
    ∃ c ∈ l.issued, c.nonce = n ∧ c.expiresAt = expiresAt
  call : ∀ c ∈ l.issued, ∃ issuer now nonce, Op.issue issuer now nonce ∈ ops ∧
    c.expiresAt = now + issuer.ttlSecs ∧
    c = { version := VERSION, audience := issuer.audience, nonce := nonce.val, issuedAt := now,
          expiresAt := c.expiresAt }

variable {bk build}

/-- An accepted attempt: its challenge has the current version and the expected audience. -/
lemma embedded_of_accepted {l : Ledger} {a : Attempt} {v : Verified}
    (h : (verifyResponse bk build a l.store).1 = .ok v) :
    ∃ c, Challenge.fromBytes a.response.challengeBytes = .ok c ∧ c.version = VERSION ∧
      c.audience = a.expectedAudience := by
  obtain ⟨c, expiresAt, hcheck, -⟩ := verifyResponse_eq_ok.mp (Prod.ext h rfl)
  obtain ⟨hread, hversion, haud, -⟩ := checkResponse_eq_ok.mp hcheck
  exact ⟨c, hread, hversion, haud⟩

lemma Traced.mono {ops : List Op} {l : Ledger} (h : Traced ops l) (op : Op) :
    Traced (ops ++ [op]) l :=
  { h with
    call := fun c hc => by
      obtain ⟨issuer, now, nonce, hmem, hc⟩ := h.call c hc
      exact ⟨issuer, now, nonce, List.mem_append_left _ hmem, hc⟩ }

/-- Every operation keeps the ledger traced. -/
lemma Traced.step {ops : List Op} {l : Ledger} (h : Traced ops l) (op : Op) :
    Traced (ops ++ [op]) (step bk build l op) := by
  cases op with
  | issue issuer now nonce =>
    rcases hissue : issuer.issue build l.store now nonce with ⟨e | c, store⟩
    · have hstay : Ledger.step bk build l (.issue issuer now nonce) = l := by
        simp only [Ledger.step, hissue, ChallengeIssuer.issue_error hissue]
      rw [hstay]
      exact h.mono _
    · obtain ⟨expiresAt, hsum, rfl, rfl⟩ := ChallengeIssuer.issue_eq_ok.mp hissue
      simp only [Ledger.step, hissue]
      constructor
      · intro n expiresAt' used hentry
        by_cases hn : n = nonce.val
        · rw [hn, InMemoryNonceStore.insert_self] at hentry
          obtain ⟨rfl, -⟩ := Prod.mk.inj (Option.some.inj hentry)
          exact ⟨_, List.mem_cons_self, hn.symm, rfl⟩
        · rw [InMemoryNonceStore.insert_of_ne _ _ hn] at hentry
          obtain ⟨c, hc, hnonce, hexp⟩ := h.entry n expiresAt' used hentry
          exact ⟨c, List.mem_cons_of_mem _ hc, hnonce, hexp⟩
      · intro c hc
        rcases List.mem_cons.mp hc with rfl | hc
        · exact ⟨issuer, now, nonce, List.mem_append_right _ List.mem_cons_self,
            (addU64_eq_ok.mp hsum).2, rfl⟩
        · exact (h.mono _).call c hc
  | verify a =>
    rcases step_verify a with hstay | ⟨c, v, expiresAt, -, hentry, -, hstep⟩
    · rw [hstay]
      exact h.mono _
    · rw [hstep]
      refine ⟨fun n expiresAt' used he => ?_, (h.mono _).call⟩
      -- the entry of the nonce is marked as used and keeps its expiry
      by_cases hn : n = c.nonce
      · rw [hn, InMemoryNonceStore.insert_self] at he
        obtain ⟨rfl, -⟩ := Prod.mk.inj (Option.some.inj he)
        exact h.entry n _ _ (hn ▸ hentry)
      · rw [InMemoryNonceStore.insert_of_ne _ _ hn] at he
        exact h.entry n expiresAt' used he
  | gc now =>
    refine ⟨fun n expiresAt used he => ?_, (h.mono _).call⟩
    exact h.entry n expiresAt used (Option.filter_eq_some_iff.mp he).1

lemma traced_run (ops : List Op) : Traced ops (run bk build (start .new) ops) := by
  refine run_induction (P := fun ops (l : Ledger) => Traced ops l) ?_
    (fun ops op ih => ih.step op) ops
  constructor
  · rintro _ _ _ ⟨⟩
  · rintro _ ⟨⟩

/-- Calls that drew the same nonce are one call, if no nonce is drawn twice. -/
lemma eq_of_drawn {ops : List Op} (hfresh : (drawnNonces ops).Nodup) {op op' : Op} {n : Bytes}
    (h : op ∈ ops) (h' : op' ∈ ops) (hn : op.drawn = some n) (hn' : op'.drawn = some n) :
    op = op' := by
  have hpairs := List.pairwise_filterMap.mp hfresh
  have hall := List.Pairwise.forall_of_forall_of_flip
    (R := fun a a' : Op => a.drawn = some n → a'.drawn = some n → a = a') (fun _ _ _ _ => rfl)
    (hpairs.imp fun hne hb hb' => absurd rfl (hne n hb n hb'))
    (hpairs.imp fun hne hb hb' => absurd rfl (hne n hb' n hb))
  exact hall h h' hn hn'

section Acceptance

variable {pre : List Op} {a : Attempt} {c : Challenge} {v : Verified}
  (haccepted : (verifyResponse bk build a (run bk build (start .new) pre).store).1 = .ok v)
  (hread : Challenge.fromBytes a.response.challengeBytes = .ok c)

include haccepted hread

/-- An accepted attempt that is tied answers an issued challenge. -/
lemma Tied.answersIssued (h : Tied pre (run bk build (start .new) pre).store a c) :
    AnswersIssued (run bk build (start .new) pre) a.response.challengeBytes := by
  obtain ⟨c', hread', hversion, haud⟩ := embedded_of_accepted haccepted
  obtain rfl := Except.ok.inj (hread'.symm.trans hread)
  obtain ⟨entry, hentry, hexp⟩ := Option.map_eq_some_iff.mp h.expiry
  obtain ⟨i, hi, hnonce, hiexp⟩ := (traced_run pre).entry _ _ _ hentry
  obtain ⟨issuer, now, nonce, hop, hsum, hcall⟩ := (traced_run pre).call i hi
  have hinonce : nonce.val = c'.nonce := by rw [← hnonce, hcall]
  obtain ⟨haudience, hlife⟩ := h.issuer issuer now nonce hop hinonce
  -- the expiry is that of the store, so the time of issue is the one before the same lifetime
  have htime : now = c'.issuedAt := by
    have hsums : now + issuer.ttlSecs = c'.issuedAt + issuer.ttlSecs := by
      rw [hlife, ← hexp, ← hiexp, hsum]
    exact (UInt64.add_left_inj _).mp hsums
  have hi' : i = c' := by
    rw [hcall]
    ext1
    · exact hversion.symm
    · exact haudience.trans haud.symm
    · exact hinonce
    · exact htime
    · exact hiexp.trans hexp
  refine ⟨i, hi, ?_⟩
  rw [hi']
  exact ((toBytes_eq_iff_decodesWithin Challenge.toValue_distinctKeys
    Challenge.toValue_canon_eq_iff hread).mpr h.known_keys).symm

/-- If no nonce is drawn twice, an accepted attempt that answers an issued challenge is tied. -/
lemma tied_of_answersIssued (hfresh : (drawnNonces pre).Nodup)
    (h : AnswersIssued (run bk build (start .new) pre) a.response.challengeBytes) :
    Tied pre (run bk build (start .new) pre).store a c := by
  obtain ⟨c', expiresAt, hcheck, hentry, -⟩ := verifyResponse_eq_ok.mp (Prod.ext haccepted rfl)
  obtain ⟨hread', -, haud, -⟩ := checkResponse_eq_ok.mp hcheck
  obtain rfl := Except.ok.inj (hread'.symm.trans hread)
  obtain ⟨i, hi, hbytes⟩ := h
  have hexact := toBytes_eq_iff_decodesWithin Challenge.toValue_distinctKeys
    Challenge.toValue_canon_eq_iff hread
  obtain rfl : i = c' := by
    have hfit : i.toBytes.length < 2 ^ 64 := by
      obtain ⟨w, hw, -⟩ := Lib.Fallible.bind_eq_ok.mp hread
      rw [← hbytes]
      exact (Value.fromBytes_sound hw).2.2
    rw [hbytes, Challenge.fromBytes_toBytes hfit] at hread
    exact Except.ok.inj hread
  obtain ⟨issuer, now, nonce, hop, hsum, hcall⟩ := (traced_run pre).call i hi
  have hnonce : i.nonce = nonce.val := by rw [hcall]
  -- any call that drew the nonce is the one that made the challenge
  have hunique : ∀ issuer' now' nonce', Op.issue issuer' now' nonce' ∈ pre →
      nonce'.val = i.nonce → issuer' = issuer ∧ now' = now := by
    intro issuer' now' nonce' hop' hnonce'
    have hsame := eq_of_drawn hfresh hop' hop (congrArg some (hnonce'.trans hnonce)) rfl
    exact ⟨(Op.issue.inj hsame).1, (Op.issue.inj hsame).2.1⟩
  constructor
  · exact hexact.mp hbytes.symm
  · obtain ⟨i', hi', hnonce', hexp'⟩ := (traced_run pre).entry _ _ _ hentry
    obtain ⟨issuer', now', nonce', hop', hsum', hcall'⟩ := (traced_run pre).call i' hi'
    obtain ⟨rfl, rfl⟩ := hunique issuer' now' nonce' hop' (by rw [← hnonce', hcall'])
    rw [hentry, Option.map_some, ← hexp', hsum', hsum]
  · intro issuer' now' nonce' hop' hnonce'
    obtain ⟨rfl, rfl⟩ := hunique issuer' now' nonce' hop' hnonce'
    have haudience : i.audience = issuer'.audience := by rw [hcall]
    have htime : i.issuedAt = now' := by rw [hcall]
    exact ⟨haudience.symm.trans haud, by rw [htime, hsum]⟩

end Acceptance

/-- An accepted attempt was accepted after some part of the run. -/
lemma exists_verify {store : InMemoryNonceStore} {ops : List Op} {a : Attempt}
    (ha : a ∈ (run bk build (start store) ops).accepted) :
    ∃ pre post, ops = pre ++ .verify a :: post ∧
      ∃ v, (verifyResponse bk build a (run bk build (start store) pre).store).1 = .ok v := by
  obtain ⟨pre, op, post, rfl, hbefore, hafter⟩ :=
    exists_step (Q := fun l : Ledger => a ∈ l.accepted) (fun h => by cases h) ha
  change a ∉ (run bk build (start store) pre).accepted at hbefore
  change a ∈ (step bk build (run bk build (start store) pre) op).accepted at hafter
  cases op with
  | gc now => exact absurd hafter hbefore
  | issue issuer now nonce =>
    rcases step_issue issuer now nonce with hstay | ⟨c, -, -, hstep⟩
    · rw [hstay] at hafter
      exact absurd hafter hbefore
    · rw [hstep] at hafter
      exact absurd hafter hbefore
  | verify a' =>
    rcases step_verify a' with hstay | ⟨c, v, expiresAt, hcheck, hentry, hnow, hstep⟩
    · rw [hstay] at hafter
      exact absurd hafter hbefore
    · rw [hstep] at hafter
      obtain rfl : a = a' := (List.mem_cons.mp hafter).resolve_right hbefore
      have hok := verifyResponse_eq_ok.mpr ⟨c, expiresAt, hcheck, hentry, hnow, rfl⟩
      exact ⟨pre, post, rfl, v, congrArg Prod.fst hok⟩

/-- Issued challenges stay issued. -/
lemma issued_subset {l : Ledger} (ops : List Op) :
    l.issued ⊆ (run bk build l ops).issued := by
  refine run_keeps (Q := fun l' : Ledger => l.issued ⊆ l'.issued) (fun l' op hsub => ?_)
    (List.Subset.refl _) ops
  cases op with
  | gc now => exact hsub
  | issue issuer now nonce =>
    rcases step_issue issuer now nonce with hstay | ⟨c, -, -, hstep⟩
    · rwa [hstay]
    · rw [hstep]
      exact List.subset_cons_of_subset _ hsub
  | verify a =>
    rcases step_verify a with hstay | ⟨c, v, e, -, -, -, hstep⟩
    · rwa [hstay]
    · rwa [hstep]

/-- **What a proof answers.**  In every run, an accepted response whose challenge is tied to the
store and to the issuers of its nonce carries the bytes of a challenge issued before it; where no
nonce was drawn twice, only such a response does.  So in a run whose acceptances are all tied, every
accepted response answers an issued challenge. -/
theorem answers_issued_iff (ops : List Op) :
    (∀ pre a post c, ops = pre ++ .verify a :: post →
      (∃ v, (verifyResponse bk build a (run bk build (start .new) pre).store).1 = .ok v) →
      Challenge.fromBytes a.response.challengeBytes = .ok c →
      (Tied pre (run bk build (start .new) pre).store a c →
        AnswersIssued (run bk build (start .new) pre) a.response.challengeBytes) ∧
      ((drawnNonces pre).Nodup →
        AnswersIssued (run bk build (start .new) pre) a.response.challengeBytes →
        Tied pre (run bk build (start .new) pre).store a c)) ∧
    ((∀ pre a post c, ops = pre ++ .verify a :: post →
      (∃ v, (verifyResponse bk build a (run bk build (start .new) pre).store).1 = .ok v) →
      Challenge.fromBytes a.response.challengeBytes = .ok c →
      Tied pre (run bk build (start .new) pre).store a c) →
      ∀ a ∈ (run bk build (start .new) ops).accepted,
        AnswersIssued (run bk build (start .new) ops) a.response.challengeBytes) := by
  refine ⟨?_, ?_⟩
  · rintro pre a post c - ⟨v, hv⟩ hread
    exact ⟨Tied.answersIssued hv hread, tied_of_answersIssued hv hread⟩
  · intro htied a ha
    obtain ⟨pre, post, rfl, v, hv⟩ := exists_verify ha
    obtain ⟨c, hread, -⟩ := embedded_of_accepted hv
    obtain ⟨i, hi, hbytes⟩ :=
      Tied.answersIssued hv hread (htied pre a post c rfl ⟨v, hv⟩ hread)
    refine ⟨i, ?_, hbytes⟩
    rw [run, List.foldl_append]
    exact issued_subset (.verify a :: post) hi

end Binding

/-- The run that issues `sampleChallenge` and is shown an answer with these challenge bytes. -/
def answeredWith (chalBytes : Bytes) : Ledger :=
  run sampleBackend .debug (start .new) [sampleIssue, .verify (sampleAttempt chalBytes 1010 0)]

/-- The challenge answered is one that was not issued: its expiry was put off, or it has a sixth
key. -/
theorem unissued_accepted :
    let later := { sampleChallenge with expiresAt := 9000 }.toBytes
    let longer := (padded sampleChallenge.entries).toBytes
    ((answeredWith later).accepted = [sampleAttempt later 1010 0] ∧
      ¬ AnswersIssued (answeredWith later) later) ∧
    (answeredWith longer).accepted = [sampleAttempt longer 1010 0] ∧
      ¬ AnswersIssued (answeredWith longer) longer := by
  intro later longer
  have hissued : (answeredWith later).issued = [sampleChallenge] ∧
      (answeredWith longer).issued = [sampleChallenge] := by decide +kernel
  refine ⟨⟨by decide +kernel, ?_⟩, by decide +kernel, ?_⟩
  · rintro ⟨i, hi, hbytes⟩
    rw [hissued.1, List.mem_singleton] at hi
    rw [hi] at hbytes
    exact absurd hbytes (by decide +kernel)
  · rintro ⟨i, hi, hbytes⟩
    rw [hissued.2, List.mem_singleton] at hi
    rw [hi] at hbytes
    exact absurd hbytes (by decide +kernel)

/-- An answer with the bytes that were issued: it is tied, and it answers what was issued. -/
theorem answers_issued_sampleChallenge :
    (∀ a ∈ (answeredWith sampleChallenge.toBytes).accepted,
      AnswersIssued (answeredWith sampleChallenge.toBytes) a.response.challengeBytes) ∧
    Tied [sampleIssue] (run sampleBackend .debug (start .new) [sampleIssue]).store
      (sampleAttempt sampleChallenge.toBytes 1010 0) sampleChallenge := by
  have hread : Challenge.fromBytes sampleChallenge.toBytes = .ok sampleChallenge := by
    decide +kernel
  have haccepted : ∃ v, (verifyResponse sampleBackend .debug
      (sampleAttempt sampleChallenge.toBytes 1010 0)
      (run sampleBackend .debug (start .new) [sampleIssue]).store).1 = .ok v :=
    ⟨{ fingerprint := sampleKey.fingerprint sampleBackend, publicKey := sampleKey,
       pqPublicKey := none }, by decide +kernel⟩
  have hruns := @answers_issued_iff sampleBackend .debug
    [sampleIssue, .verify (sampleAttempt sampleChallenge.toBytes 1010 0)]
  have htied := (hruns.1 [sampleIssue] _ [] _ rfl haccepted hread).2 (by decide)
    ⟨sampleChallenge, by decide +kernel, rfl⟩
  refine ⟨hruns.2 ?_, htied⟩
  rintro pre a post c hops - hread'
  -- the attempt stands second
  obtain ⟨rfl, rfl⟩ : pre = [sampleIssue] ∧ a = sampleAttempt sampleChallenge.toBytes 1010 0 := by
    rcases pre with _ | ⟨op, _ | ⟨op', pre⟩⟩
    · simp [sampleIssue] at hops
    · simp at hops
      exact ⟨by rw [hops.1], hops.2.1.symm⟩
    · simp at hops
  obtain rfl := Except.ok.inj (hread.symm.trans hread')
  exact htied

end Ledger

end Identikey.Auth
