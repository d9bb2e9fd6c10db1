/-
Who can open a share with capsules.

A capsule holds the DEK of a share for a recipient of a proxy re-encryption backend, and can
be handed on to another recipient without being opened.  What such a backend promises is
that its decryption inverts its encryption, also behind any number of transformations.

Seen from outside a share is the list of those it is for.  Every operation changes that
list as its name says, whoever is on it opens the share, and nobody else finds an entry.
Nothing but a transformation that names a recipient of a capsule takes it off the list; and
while there is a capsule nothing takes off a direct recipient either.
-/
import Identikey.Lib.Run
import Identikey.Lib.Trace
import Identikey.Share.Holders
import Identikey.Share.Unique

set_option linter.dupNamespace false

namespace Identikey.Share

open Lib Lib.Fallible Auth Dcbor

/-! ### Backends -/

/-- The keys of the backends. -/
structure PreKeys where
  /-- the secret and the public key are a pair of the backend -/
  pair : String → Bytes → Bytes → Prop
  /-- the key transforms capsules for the one public key to capsules for the other -/
  transforms : String → Bytes → Bytes → Bytes → Prop

/-- What a backend promises: the holder of the secret finds the DEK that was encapsulated, and finds
the DEK of a capsule that was transformed for it if the recipient before found it. -/
structure RecryptKem.Lawful (kem : RecryptKem) (keys : PreKeys) : Prop where
  encapsulate : ∀ backend secret recipient dek ct, keys.pair backend secret recipient →
    kem.encapsulate backend recipient dek = .ok ct → kem.decapsulate backend secret ct = .ok dek
  transform : ∀ backend secret secret' source target key dek ct ct',
    keys.pair backend secret source → keys.pair backend secret' target →
    keys.transforms backend key source target → kem.decapsulate backend secret ct = .ok dek →
    kem.transform backend key ct = .ok ct' → kem.decapsulate backend secret' ct' = .ok dek

/-- The ciphertext was made of the DEK for the recipient: encapsulated to it, or transformed for it
from one that was made for another.  Each of these has a secret. -/
inductive RecryptKem.MadeFor (kem : RecryptKem) (keys : PreKeys) (dek : Key) :
    String → Bytes → Bytes → Prop where
  | encapsulate {backend : String} {secret recipient ct : Bytes}
      (hpair : keys.pair backend secret recipient)
      (h : kem.encapsulate backend recipient dek = .ok ct) :
      MadeFor kem keys dek backend recipient ct
  | transform {backend : String} {secret source target key ct ct' : Bytes}
      (hmade : MadeFor kem keys dek backend source ct) (hpair : keys.pair backend secret target)
      (hkey : keys.transforms backend key source target)
      (h : kem.transform backend key ct = .ok ct') : MadeFor kem keys dek backend target ct'

namespace RecryptKem.MadeFor

variable {kem : RecryptKem} {keys : PreKeys} {dek : Key} {backend : String} {recipient ct : Bytes}

lemma held (h : kem.MadeFor keys dek backend recipient ct) :
    ∃ secret, keys.pair backend secret recipient := by
  cases h with
  | encapsulate hpair _ => exact ⟨_, hpair⟩
  | transform _ hpair _ _ => exact ⟨_, hpair⟩

/-- Whoever has the secret of the recipient finds the DEK. -/
lemma opens (h : kem.MadeFor keys dek backend recipient ct) (hkem : kem.Lawful keys)
    {secret : Bytes} (hpair : keys.pair backend secret recipient) :
    kem.decapsulate backend secret ct = .ok dek := by
  induction h generalizing secret with
  | encapsulate _ h => exact hkem.encapsulate _ _ _ _ _ hpair h
  | transform hmade _ hkey h ih =>
    obtain ⟨source, hsource⟩ := hmade.held
    exact hkem.transform _ _ _ _ _ _ _ _ _ hsource hpair hkey (ih hsource) h

end RecryptKem.MadeFor

/-- Nobody else finds the DEK. -/
def RecryptKem.Exclusive (kem : RecryptKem) (keys : PreKeys) : Prop :=
  ∀ dek backend recipient ct secret, kem.MadeFor keys dek backend recipient ct →
    kem.decapsulate backend secret ct = .ok dek → keys.pair backend secret recipient

/-- A recipient that its constructor made, and that somebody has the secret of.  The name of its
backend is in normalisation form C. -/
structure RecryptPublic.Proper (host : Host) (keys : PreKeys) (r : RecryptPublic) : Prop where
  made : RecryptPublic.new r.backend r.key = .ok r
  held : ∃ secret, keys.pair r.backend secret r.key
  normal : host.nfc r.backend = r.backend

/-! ### Lists of recipients -/

/-- Who a share is for. -/
structure Access where
  direct : List WrapPublic
  delegated : List (String × Bytes)

/-- A change to who a share is for. -/
inductive Change where
  | add (target : WrapPublic)
  | replace (targets : List WrapPublic)
  | handOn (backend : String) (source target : Bytes)
  | pass

/-- The list after a change. -/
def Access.after (a : Access) : Change → Access
  | .add target => { a with direct := a.direct ++ [target] }
  | .replace targets => { direct := targets, delegated := [] }
  | .handOn backend source target =>
    { a with delegated := a.delegated.map fun r =>
        if r = (backend, source) then (backend, target) else r }
  | .pass => a

/-- The list of a share. -/
def Share.access (s : Share) : Access :=
  { direct := s.targets, delegated := s.recrypt.map fun c => (c.backend, c.recipient) }

/-- Every direct recipient of the one list is on the other, and every other recipient that no change
handed on. -/
lemma Access.kept {a : Access} (hsome : a.delegated ≠ []) {changes : List Change}
    (hnever : ∀ targets, .replace targets ∉ changes) :
    a.direct <+: (changes.foldl Access.after a).direct ∧
      (changes.foldl Access.after a).delegated.length = a.delegated.length ∧
      ∀ r ∈ a.delegated, (∀ target, .handOn r.1 r.2 target ∉ changes) →
        r ∈ (changes.foldl Access.after a).delegated := by
  refine @run_induction _ _ Access.after a
    (fun changes b => (∀ targets, .replace targets ∉ changes) →
      a.direct <+: b.direct ∧ b.delegated.length = a.delegated.length ∧
      ∀ r ∈ a.delegated, (∀ target, .handOn r.1 r.2 target ∉ changes) → r ∈ b.delegated)
    (fun _ => ⟨List.prefix_rfl, rfl, fun r hr _ => hr⟩) ?_ changes hnever
  intro changes change ih hnever
  have hbefore : ∀ x, x ∉ changes ++ [change] → x ∉ changes :=
    fun x hx hmem => hx (List.mem_append_left _ hmem)
  obtain ⟨hinit, hlen, hkept⟩ := ih fun targets => hbefore _ (hnever targets)
  have hlast : change ∈ changes ++ [change] := List.mem_append_right _ (List.mem_singleton_self _)
  cases change with
  | add target =>
    exact ⟨hinit.trans (List.prefix_append _ _), hlen,
      fun r hr hfree => hkept r hr fun target => hbefore _ (hfree target)⟩
  | replace targets => exact absurd hlast (hnever targets)
  | handOn backend source target =>
    refine ⟨hinit, (List.length_map _).trans hlen, fun r hr hfree => ?_⟩
    have hmem := hkept r hr fun target => hbefore _ (hfree target)
    have hother : r ≠ (backend, source) := by
      rintro rfl
      exact hfree target hlast
    exact List.mem_map.mpr ⟨r, hmem, if_neg hother⟩
  | pass =>
    exact ⟨hinit, hlen, fun r hr hfree => hkept r hr fun target => hbefore _ (hfree target)⟩

/-! ### Steps and their invariant -/

variable (curves : Curves) (aead : Aead) (blake3 : Bytes → Digest32) (host : Host)
  (kem : RecryptKem) (keys : PreKeys)

/-- What can be done with a share: a direct recipient is added or all are replaced, by public keys
of secrets; a capsule is handed on to a proper recipient, with a key for it; or the share is
written and parsed again. -/
inductive MixedStep : Share → Change → Share → Prop where
  | addRecipient {s s' : Share} {opener secret : WrapSecret} {t : WrapPublic}
      {coins : WrapCoins curves} (hpublic : secret.publicKey curves = .ok t)
      (h : s.addRecipient curves aead blake3 opener t coins = .ok s') :
      MixedStep s (.add t) s'
  | rotate {s s' : Share} {opener : WrapSecret} {secrets : List WrapSecret}
      {recipients : List WrapPublic} {epoch : UInt64} {coins : WrapPublic → WrapCoins curves}
      (hpublic : secrets.mapM (WrapSecret.publicKey curves) = .ok recipients)
      (h : s.rotate curves aead blake3 opener recipients epoch coins = .ok s') :
      MixedStep s (.replace recipients) s'
  | transformRecrypt {s s' : Share} {backend : String} {source transformKey : Bytes}
      {target : RecryptPublic} (hproper : target.Proper host keys)
      (hkey : keys.transforms backend transformKey source target.key)
      (h : s.transformRecrypt backend source target transformKey kem = .ok s') :
      MixedStep s (.handOn backend source target.key) s'
  | pass {s s' : Share} {b : Bytes} (hfit : s.Fits host) (hto : s.toCbor host = .ok b)
      (hfrom : Share.fromCbor curves host b = .ok s') : MixedStep s .pass s'

/-- The capsule was made of the DEK for its recipient. -/
def RecryptCapsule.Holds (dek : Key) (c : RecryptCapsule) : Prop :=
  kem.MadeFor keys dek c.backend c.recipient c.ciphertext

/-- All wraps and capsules hold the DEK, each recipient has one entry, and the DEK opens the
payload. -/
structure Mixed (dek : Key) (plaintext : Bytes) (s : Share) : Prop where
  wellFormed : s.WellFormed curves
  inStep : s.InStep curves
  unique : s.Unique curves
  wraps : ∀ w ∈ s.wraps, Holds curves aead blake3 dek w
  capsules : ∀ c ∈ s.recrypt, c.Holds kem keys dek
  normal : ∀ c ∈ s.recrypt, host.nfc c.backend = c.backend
  payload : aead.decrypt dek s.nonce PAYLOAD_AAD s.ciphertext = some plaintext

variable {curves aead blake3 host kem keys} {dek : Key} {plaintext : Bytes} {s s' : Share}

lemma mixed_of_sealMixed {secrets : List WrapSecret} {recipients : List WrapPublic}
    (hpublic : secrets.mapM (WrapSecret.publicKey curves) = .ok recipients)
    {recrypt : List RecryptPublic} (hproper : ∀ r ∈ recrypt, r.Proper host keys) {epoch : UInt64}
    {coins : SealCoins curves}
    (h : Share.sealMixed curves aead blake3 plaintext recipients recrypt kem epoch coins = .ok s) :
    Mixed curves aead blake3 host kem keys coins.dek plaintext s ∧
      s.access =
        { direct := recipients, delegated := recrypt.map fun r => (r.backend, r.key) } := by
  have hwf := wellFormed_of_sealMixed (made_of_publicKeys hpublic)
    (fun r hr => (hproper r hr).made) h
  have hstep := inStep_of_sealMixed h
  have hunique := unique_of_sealMixed h
  obtain ⟨-, -, -, c, ws, cs, hc, hws, hcs, rfl⟩ := sealMixed_eq_ok.mp h
  rw [mapM_eq_ok] at hcs
  refine ⟨⟨hwf, hstep, hunique, holds_of_sealAll hws, fun x hx => ?_, fun x hx => ?_,
    aead.decrypt_encrypt _ _ _ _ _ hc⟩, ?_⟩
  · obtain ⟨r, hr, hread⟩ := (mem_of_forall₂ hcs).mp hx
    obtain ⟨hencapsulate, -, hbackend, hrecipient⟩ := encapsulateTo_eq_ok.mp hread
    obtain ⟨secret, hpair⟩ := (hproper r hr).held
    rw [RecryptCapsule.Holds, hbackend, hrecipient]
    exact .encapsulate hpair hencapsulate
  · obtain ⟨r, hr, hread⟩ := (mem_of_forall₂ hcs).mp hx
    rw [(encapsulateTo_eq_ok.mp hread).2.2.1]
    exact (hproper r hr).normal
  · have hpairs : recrypt.map (fun r => (r.backend, r.key)) =
        cs.map fun c => (c.backend, c.recipient) := by
      refine map_eq_of_forall₂ hcs fun r c hread => ?_
      obtain ⟨-, -, hbackend, hrecipient⟩ := encapsulateTo_eq_ok.mp hread
      rw [hbackend, hrecipient]
    rw [Share.access, hpairs]

/-- Where no two capsules are for one recipient, the first for a recipient is replaced as all of
them would be. -/
lemma map_handOn {before after : List (String × Bytes)} {r r' : String × Bytes}
    (h : (before ++ r :: after).Nodup) :
    (before ++ r :: after).map (fun x => if x = r then r' else x) = before ++ r' :: after := by
  rw [List.nodup_middle, List.nodup_cons, List.mem_append, not_or] at h
  obtain ⟨⟨hbefore, hafter⟩, -⟩ := h
  have hkeep : ∀ l : List (String × Bytes), r ∉ l →
      l.map (fun x => if x = r then r' else x) = l := by
    intro l hl
    have hother : ∀ x ∈ l, (if x = r then r' else x) = x := by
      intro x hx
      refine if_neg ?_
      rintro rfl
      exact hl hx
    rw [List.map_congr_left hother, List.map_id']
  rw [List.map_append, List.map_cons, hkeep _ hbefore, hkeep _ hafter, if_pos rfl]

/-- **A step keeps the invariant, and changes the list of the share as its label says.** -/
lemma mixed_step {change : Change}
    (hs : Mixed curves aead blake3 host kem keys dek plaintext s)
    (hstep : MixedStep curves aead blake3 host kem keys s change s') :
    Mixed curves aead blake3 host kem keys dek plaintext s' ∧
      s'.access = s.access.after change ∧ s'.nonce = s.nonce ∧ s'.ciphertext = s.ciphertext := by
  cases hstep with
  | @addRecipient _ opener _ t coins hpublic h =>
    have hop : (Rewrap.addRecipient opener t coins).apply aead blake3 s = .ok s' := h
    have hwf := wellFormed_of_addRecipient hs.wellFormed (made_of_publicKey hpublic) h
    have hstep := inStep_of_rewrap hs.inStep hop
    have hunique := unique_of_rewrap hs.inStep hs.unique hop
    obtain ⟨-, enc, dek', w, -, -, hdek, hw, rfl⟩ := addRecipient_eq_ok.mp h
    obtain rfl := eq_of_openDek hs.wraps hdek
    refine
      ⟨⟨hwf, hstep, hunique, fun x hx => ?_, hs.capsules, hs.normal, hs.payload⟩, rfl, rfl, rfl⟩
    rcases List.mem_append.mp hx with hx | hx
    · exact hs.wraps x hx
    · rw [List.mem_singleton.mp hx]
      exact (seal_holds hw).1
  | @rotate _ opener _ recipients epoch coins hpublic h =>
    have hop : (Rewrap.rotate opener recipients epoch coins).apply aead blake3 s = .ok s' := h
    have hwf := wellFormed_of_rotate (made_of_publicKeys hpublic) h
    have hstep := inStep_of_rewrap hs.inStep hop
    have hunique := unique_of_rewrap hs.inStep hs.unique hop
    obtain ⟨-, -, -, dek', ws, hdek, hws, rfl⟩ := rotate_eq_ok.mp h
    obtain rfl := eq_of_openDek hs.wraps hdek
    exact ⟨⟨hwf, hstep, hunique, holds_of_sealAll hws, by simp, by simp, hs.payload⟩, rfl, rfl, rfl⟩
  | @transformRecrypt _ backend source transformKey target hproper hkey h =>
    have hop : (Rewrap.transformRecrypt backend source target transformKey kem :
      Rewrap curves).apply aead blake3 s = .ok s' := h
    have hwf := wellFormed_of_transformRecrypt hs.wellFormed hproper.made h
    have hstep := inStep_of_rewrap hs.inStep hop
    have hunique := unique_of_rewrap hs.inStep hs.unique hop
    obtain ⟨hbackend, -, before, c, after, ct, heq, -, rfl, rfl, hct, -, rfl⟩ :=
      transformRecrypt_eq_ok.mp h
    have hcapsules := hs.capsules
    have hnormal := hs.normal
    have hnodup := hs.unique.capsules
    rw [heq, List.forall_mem_append, List.forall_mem_cons] at hcapsules hnormal
    rw [heq, List.map_append, List.map_cons] at hnodup
    obtain ⟨hbefore, hc, hafter⟩ := hcapsules
    obtain ⟨secret, hpair⟩ := hproper.held
    rw [hbackend] at hpair
    have hnew : kem.MadeFor keys dek c.backend target.key ct := .transform hc hpair hkey hct
    refine ⟨⟨hwf, hstep, hunique, hs.wraps, ?_, ?_, hs.payload⟩, ?_, rfl, rfl⟩
    · exact List.forall_mem_append.mpr ⟨hbefore, List.forall_mem_cons.mpr ⟨hnew, hafter⟩⟩
    · exact List.forall_mem_append.mpr ⟨hnormal.1, List.forall_mem_cons.mpr hnormal.2⟩
    · have hmap := @map_handOn _ _ _ (c.backend, target.key) hnodup
      rw [← List.map_cons (f := fun c : RecryptCapsule => (c.backend, c.recipient)),
        ← List.map_append, ← heq] at hmap
      simp only [Share.access, Access.after, hmap, List.map_append, List.map_cons]
  | pass hfit hto hfrom =>
    rw [Share.toCbor_eq hs.wellFormed hfit.parts, Except.ok.injEq] at hto
    rw [← hto, Share.fromCbor_toCborData hs.wellFormed hfit, Except.ok.injEq,
      Share.normal_eq_iff.mpr hs.normal] at hfrom
    subst hfrom
    exact ⟨hs, rfl, rfl, rfl⟩

/-! ### Opening -/

/-- Without an entry nobody finds a capsule. -/
lemma openRecrypt_unlisted {backend : String} {recipient : Bytes}
    (hnot : (backend, recipient) ∉ s.access.delegated) (secret : Bytes) :
    s.openRecrypt aead backend recipient secret kem = .error .noMatchingWrap := by
  have hnone : (s.recrypt.find? fun c => c.backend == backend && c.recipient == recipient) =
      none := by
    refine List.find?_eq_none.mpr fun c hc htest => hnot ?_
    obtain ⟨hbackend, hrecipient⟩ := Bool.and_eq_true_iff.mp htest
    refine List.mem_map.mpr ⟨c, hc, ?_⟩
    rw [eq_of_beq hbackend, eq_of_beq hrecipient]
  rw [Share.openRecrypt, hnone]
  rfl

/-- The holder of the secret for an entry opens the share. -/
lemma openRecrypt_listed (hkem : kem.Lawful keys)
    (hs : Mixed curves aead blake3 host kem keys dek plaintext s) {backend : String}
    {recipient secret : Bytes} (hpair : keys.pair backend secret recipient)
    (hmem : (backend, recipient) ∈ s.access.delegated) :
    s.openRecrypt aead backend recipient secret kem = .ok plaintext := by
  obtain ⟨c, hc, heq⟩ := List.mem_map.mp hmem
  obtain ⟨rfl, rfl⟩ := Prod.mk.inj heq
  have hfirst : s.FirstIsOnly curves aead blake3 := firstIsOnly_of_unique hs.inStep hs.unique
  obtain ⟨-, hopen⟩ := hfirst.capsule c.backend c.recipient secret kem c hc rfl rfl
  rw [hopen, (hs.capsules c hc).opens hkem hpair, ok_bind, decryptPayload, hs.payload]
  rfl

/-- At most one key decrypts the payload. -/
def Share.OneKey (aead : Aead) (s : Share) : Prop :=
  ∀ key key', (aead.decrypt key s.nonce PAYLOAD_AAD s.ciphertext).isSome →
    (aead.decrypt key' s.nonce PAYLOAD_AAD s.ciphertext).isSome → key = key'

/-- Another secret than that for the entry opens nothing. -/
lemma openRecrypt_foreign (hexclusive : kem.Exclusive keys) (hone : s.OneKey aead)
    (hs : Mixed curves aead blake3 host kem keys dek plaintext s) {backend : String}
    {recipient secret : Bytes} (hforeign : ¬ keys.pair backend secret recipient) :
    ∃ e, s.openRecrypt aead backend recipient secret kem = .error e := by
  cases h : s.openRecrypt aead backend recipient secret kem with
  | error e => exact ⟨e, rfl⟩
  | ok plain =>
    obtain ⟨c, hfind, h'⟩ := bind_eq_ok.mp h
    obtain ⟨dek', hdek, hopen⟩ := bind_eq_ok.mp h'
    rw [okOr_eq_ok] at hfind
    rw [decryptPayload, okOr_eq_ok] at hopen
    have htest : (c.backend == backend && c.recipient == recipient) = true := by
      simpa only using List.find?_some hfind
    obtain ⟨hbackend, hrecipient⟩ := Bool.and_eq_true_iff.mp htest
    obtain rfl := eq_of_beq hbackend
    obtain rfl := eq_of_beq hrecipient
    -- what was found decrypts the payload, so that it is the DEK
    obtain rfl : dek' = dek := hone _ _ (Option.isSome_of_eq_some hopen)
      (Option.isSome_of_eq_some hs.payload)
    exact absurd (hexclusive _ _ _ _ _ (hs.capsules c (List.mem_of_find?_eq_some hfind)) hdek)
      hforeign

/-- What `open` gives to the holder of a secret with an encapsulation key. -/
lemma open_of_mixed (hs : Mixed curves aead blake3 host kem keys dek plaintext s)
    {secret : WrapSecret} {r : Bytes} (hr : secret.encapsulationPublic curves = .ok r) :
    s.open curves aead blake3 secret =
      if r ∈ s.wraps.map Wrap.recipient then .ok plaintext else .error .noMatchingWrap := by
  rw [Share.open, openDek_of_holds hs.wraps hr]
  split
  · rw [ok_bind, decryptPayload, hs.payload]
    rfl
  · rfl

/-- A share opens for those on its list, and for nobody else. -/
structure Share.OpensFor (curves : Curves) (aead : Aead) (blake3 : Bytes → Digest32)
    (kem : RecryptKem) (keys : PreKeys) (plaintext : Bytes) (s : Share) : Prop where
  /-- a secret with the encapsulation key of somebody on the list opens the share -/
  direct : ∀ secret t enc, t ∈ s.access.direct → t.encapsulation curves = .ok enc →
    secret.encapsulationPublic curves = .ok enc.recipient →
    s.open curves aead blake3 secret = .ok plaintext
  /-- a secret whose encapsulation key is that of nobody on the list finds no wrap -/
  stranger : ∀ secret r, secret.encapsulationPublic curves = .ok r →
    (∀ t ∈ s.access.direct, ∀ enc, t.encapsulation curves = .ok enc → enc.recipient ≠ r) →
    s.open curves aead blake3 secret = .error .noMatchingWrap
  /-- a secret that has no encapsulation key opens nothing -/
  keyless : ∀ secret e, secret.encapsulationPublic curves = .error e →
    s.open curves aead blake3 secret = .error e
  /-- the holder of the secret for an entry finds the capsule and opens it -/
  delegated : ∀ backend recipient secret, keys.pair backend secret recipient →
    (backend, recipient) ∈ s.access.delegated →
    s.openRecrypt aead backend recipient secret kem = .ok plaintext
  /-- without an entry nobody finds a capsule -/
  unlisted : ∀ backend recipient secret, (backend, recipient) ∉ s.access.delegated →
    s.openRecrypt aead backend recipient secret kem = .error .noMatchingWrap
  /-- and another secret opens nothing, if it does not find the DEK and the payload has one key -/
  foreign : kem.Exclusive keys → s.OneKey aead → ∀ backend recipient secret,
    ¬ keys.pair backend secret recipient →
    ∃ e, s.openRecrypt aead backend recipient secret kem = .error e

lemma opensFor_of_mixed (hkem : kem.Lawful keys)
    (hs : Mixed curves aead blake3 host kem keys dek plaintext s) :
    s.OpensFor curves aead blake3 kem keys plaintext where
  direct secret t enc hmem henc hr := by
    rw [open_of_mixed hs hr, if_pos]
    exact (mem_recipients_iff hs.wellFormed).mpr ⟨t, hmem, enc, henc, rfl⟩
  stranger secret r hr hnone := by
    rw [open_of_mixed hs hr, if_neg]
    rw [mem_recipients_iff hs.wellFormed]
    rintro ⟨t, ht, enc, henc, hsame⟩
    exact hnone t ht enc henc hsame
  keyless secret e he := by
    rw [Share.open, Share.openDek, he]
    rfl
  delegated backend recipient secret hpair hmem := openRecrypt_listed hkem hs hpair hmem
  unlisted backend recipient secret hnot := openRecrypt_unlisted hnot secret
  foreign hexclusive hone backend recipient secret hforeign :=
    openRecrypt_foreign hexclusive hone hs hforeign

/-- In particular, a secret whose public key is on the list opens the share. -/
lemma Share.OpensFor.open_of_publicKey (h : s.OpensFor curves aead blake3 kem keys plaintext)
    {secret : WrapSecret} {t : WrapPublic} (ht : secret.publicKey curves = .ok t)
    (hmem : t ∈ s.access.direct) : s.open curves aead blake3 secret = .ok plaintext := by
  obtain ⟨enc, henc⟩ := encapsulation_of_publicKey ht
  exact h.direct secret t enc hmem henc (encapsulationPublic_eq_ok.mpr ⟨t, enc, ht, henc, rfl⟩)

/-! ### Runs -/

variable {secrets : List WrapSecret} {recipients : List WrapPublic} {recrypt : List RecryptPublic}
  {epoch : UInt64} {coins : SealCoins curves} {s₀ : Share} {changes : List Change}

/-- What the changes of a run make of the list that a share was sealed for. -/
lemma run_mixed
    (hpublic : secrets.mapM (WrapSecret.publicKey curves) = .ok recipients)
    (hproper : ∀ r ∈ recrypt, r.Proper host keys)
    (hseal : Share.sealMixed curves aead blake3 plaintext recipients recrypt kem epoch coins =
      .ok s₀)
    (hrun : Trace (MixedStep curves aead blake3 host kem keys) s₀ changes s) :
    Mixed curves aead blake3 host kem keys coins.dek plaintext s ∧
      s.access = changes.foldl Access.after
        { direct := recipients, delegated := recrypt.map fun r => (r.backend, r.key) } ∧
      s.nonce = s₀.nonce ∧ s.ciphertext = s₀.ciphertext := by
  obtain ⟨hsealed, haccess⟩ := mixed_of_sealMixed hpublic hproper hseal
  rw [← haccess]
  obtain ⟨⟨hmixed, hpayload⟩, hview⟩ := hrun.refine (f := Share.access) (g := Access.after)
    (I := fun s => Mixed curves aead blake3 host kem keys coins.dek plaintext s ∧
      s.nonce = s₀.nonce ∧ s.ciphertext = s₀.ciphertext)
    (fun s change s' hs hstep => by
      obtain ⟨hmixed, haccess, hnonce, hciphertext⟩ := mixed_step hs.1 hstep
      exact ⟨⟨hmixed, hnonce.trans hs.2.1, hciphertext.trans hs.2.2⟩, haccess⟩)
    ⟨hsealed, rfl, rfl⟩
  exact ⟨hmixed, hview, hpayload⟩

/-- **A share is for whom the changes say.**  However a share that was sealed to direct recipients
and to recipients of a backend was changed and sent: its content id is that of the sealed
share, its list is what the changes make of the list it was sealed for, and it opens for those
on this list and for nobody else. -/
theorem share_refines_access (hkem : kem.Lawful keys)
    (hpublic : secrets.mapM (WrapSecret.publicKey curves) = .ok recipients)
    (hproper : ∀ r ∈ recrypt, r.Proper host keys)
    (hseal : Share.sealMixed curves aead blake3 plaintext recipients recrypt kem epoch coins =
      .ok s₀)
    (hrun : Trace (MixedStep curves aead blake3 host kem keys) s₀ changes s) :
    s.contentId blake3 = s₀.contentId blake3 ∧
    s.access = changes.foldl Access.after
      { direct := recipients, delegated := recrypt.map fun r => (r.backend, r.key) } ∧
    s.OpensFor curves aead blake3 kem keys plaintext := by
  obtain ⟨hmixed, haccess, hnonce, hciphertext⟩ := run_mixed hpublic hproper hseal hrun
  refine ⟨?_, haccess, opensFor_of_mixed hkem hmixed⟩
  rw [Share.contentId, Share.contentId, Share.contentMaterial, Share.contentMaterial, hnonce,
    hciphertext]

/-- A backend whose ciphertexts name their recipient and hide nothing. -/
def namingKem : RecryptKem where
  encapsulate _ recipient dek := .ok (recipient ++ dek.val)
  decapsulate _ secret ct :=
    if ct.take secret.length = secret then okOr .recrypt (toArray 32 (ct.drop secret.length))
    else .error .recrypt
  transform _ key ct :=
    match key, ct with
    | [source, target], recipient :: dek =>
      if recipient = source then .ok (target :: dek) else .error .recrypt
    | _, _ => .error .recrypt

/-- Its keys: a secret is its own public key, and a transformation key is two of them. -/
def namingKeys : PreKeys where
  pair _ secret recipient := ∃ k, secret = [k] ∧ recipient = [k]
  transforms _ key source target := ∃ k k', key = [k, k'] ∧ source = [k] ∧ target = [k']

lemma decapsulate_namingKem (backend : String) (k : UInt8) (dek : Bytes) :
    namingKem.decapsulate backend [k] (k :: dek) = okOr .recrypt (toArray 32 dek) := if_pos rfl

lemma namingKem_lawful : namingKem.Lawful namingKeys := by
  constructor
  · rintro backend secret recipient dek ct ⟨k, rfl, rfl⟩ h
    obtain rfl := Except.ok.inj h
    rw [List.singleton_append, decapsulate_namingKem, toArray, dif_pos dek.2]
    rfl
  · rintro backend secret secret' source target key dek ct ct' ⟨k, rfl, rfl⟩ ⟨k', rfl, rfl⟩
      ⟨_, _, rfl, hk, hk'⟩ hopen h
    obtain rfl := List.singleton_inj.mp hk
    obtain rfl := List.singleton_inj.mp hk'
    cases ct with
    | nil => cases h
    | cons recipient rest =>
      have h' : (if recipient = k then Except.ok (k' :: rest) else .error .recrypt) =
        Except.ok (ε := ShareError) ct' := h
      split_ifs at h' with hsame
      obtain rfl := Except.ok.inj h'
      subst hsame
      rw [decapsulate_namingKem] at hopen ⊢
      exact hopen

/-- A ciphertext of the backend is the recipient and the DEK, which only that recipient takes
apart. -/
lemma namingKem_exclusive : namingKem.Exclusive namingKeys := by
  intro dek backend recipient ct secret hmade hopen
  have hshape : ∃ k, recipient = [k] ∧ ct = k :: dek.val := by
    clear hopen
    induction hmade with
    | encapsulate hpair h =>
      obtain ⟨k, -, rfl⟩ := hpair
      obtain rfl := Except.ok.inj h
      exact ⟨k, rfl, rfl⟩
    | transform _ _ hkey h ih =>
      obtain ⟨k, k', rfl, -, rfl⟩ := hkey
      obtain ⟨recipient, -, rfl⟩ := ih
      have h' : (if recipient = k then Except.ok (k' :: dek.val) else .error .recrypt) =
        Except.ok (ε := ShareError) _ := h
      split_ifs at h'
      exact ⟨k', rfl, (Except.ok.inj h').symm⟩
  obtain ⟨k, rfl, rfl⟩ := hshape
  have hopen' : (if (k :: dek.val).take secret.length = secret then
      okOr ShareError.recrypt (toArray 32 ((k :: dek.val).drop secret.length))
    else .error .recrypt) = Except.ok dek := hopen
  split_ifs at hopen' with hprefix
  rw [okOr_eq_ok, toArray_eq_some] at hopen'
  -- the DEK is one byte shorter than the ciphertext
  have hlen := congrArg List.length hopen'
  rw [List.length_drop, List.length_cons, dek.2] at hlen
  have hone : secret.length = 1 := by omega
  rw [hone] at hprefix
  exact ⟨k, hprefix.symm, rfl⟩

/-- A share for Alice, and for one recipient of a backend. -/
def mixedShare (recipient : UInt8) : Share :=
  { sampleShare 0 with
    recrypt := [{ backend := "lattice-bfv", recipient := [recipient],
                  ciphertext := recipient :: List.replicate 32 7 }] }

/-- The ideal cipher after the share was sealed. -/
def mixedCipher : Aead :=
  .used [(wrapKdf sampleHash sharedSecret bobPublic.val alicePublic.val, fill 24 1, [],
      (fill 32 7).val), (fill 32 7, fill 24 2, PAYLOAD_AAD, [1, 2, 3])] (by decide)

lemma oneKey_mixedShare (recipient : UInt8) : (mixedShare recipient).OneKey mixedCipher := by
  have hkey : ∀ key, (mixedCipher.decrypt key (mixedShare recipient).nonce PAYLOAD_AAD
      (mixedShare recipient).ciphertext).isSome → key = fill 32 7 := by
    intro key h
    obtain ⟨msg, hmem, -⟩ := Aead.mem_of_decrypt_used h
    rcases List.mem_pair.mp hmem with heq | heq
    · have haad : PAYLOAD_AAD = [] := congrArg (fun e => e.2.2.1) heq
      exact absurd haad (by decide)
    · exact congrArg Prod.fst heq
  exact fun key key' h h' => (hkey key h).trans (hkey key' h').symm

lemma mixedShare_sealed : Share.sealMixed sampleCurves mixedCipher sampleHash [1, 2, 3]
    [.X25519 alicePublic] [{ backend := "lattice-bfv", key := [2] }] namingKem 0 sampleSealCoins =
      .ok (mixedShare 2) := by
  decide +kernel

lemma alice_publicKeys : [WrapSecret.X25519 aliceSeed].mapM (WrapSecret.publicKey sampleCurves) =
    .ok [.X25519 alicePublic] := by
  decide +kernel

lemma lattice_proper (k : UInt8) :
    RecryptPublic.Proper Host.plain namingKeys { backend := "lattice-bfv", key := [k] } where
  made := rfl
  held := ⟨[k], k, rfl, rfl⟩
  normal := rfl

/-- The capsule is handed on, and the share is sent. -/
lemma mixedShare_run : Trace (MixedStep sampleCurves mixedCipher sampleHash Host.plain
    namingKem namingKeys) (mixedShare 2) [.handOn "lattice-bfv" [2] [3], .pass] (mixedShare 3) := by
  have hhanded : (mixedShare 2).transformRecrypt "lattice-bfv" [2]
      { backend := "lattice-bfv", key := [3] } [2, 3] namingKem = .ok (mixedShare 3) := by
    decide +kernel
  have hsent : ((mixedShare 3).toCbor Host.plain >>= Share.fromCbor sampleCurves Host.plain) =
      .ok (mixedShare 3) := by decide +kernel
  obtain ⟨b, hto, hfrom⟩ := bind_eq_ok.mp hsent
  have hhand : Trace (MixedStep sampleCurves mixedCipher sampleHash Host.plain namingKem
      namingKeys) (mixedShare 2) [.handOn "lattice-bfv" [2] [3]] (mixedShare 3) :=
    .single (.transformRecrypt (lattice_proper 3) ⟨2, 3, rfl, rfl, rfl⟩ hhanded)
  exact .snoc hhand (.pass (by decide +kernel) hto hfrom)

/-- The capsule of the first recipient is the second's; Alice's wrap is still hers, and nobody else
has either. -/
theorem share_refines_access_lattice :
    (mixedShare 3).access =
        { direct := [.X25519 alicePublic], delegated := [("lattice-bfv", [3])] } ∧
      (mixedShare 3).openRecrypt mixedCipher "lattice-bfv" [3] [3] namingKem = .ok [1, 2, 3] ∧
      (mixedShare 3).openRecrypt mixedCipher "lattice-bfv" [2] [2] namingKem =
        .error .noMatchingWrap ∧
      (∃ e, (mixedShare 3).openRecrypt mixedCipher "lattice-bfv" [3] [2] namingKem = .error e) ∧
      (mixedShare 3).open sampleCurves mixedCipher sampleHash (.X25519 aliceSeed) =
        .ok [1, 2, 3] ∧
      (mixedShare 3).open sampleCurves mixedCipher sampleHash (.X25519 bobSeed) =
        .error .noMatchingWrap := by
  obtain ⟨-, haccess, hopens⟩ := share_refines_access namingKem_lawful alice_publicKeys
    (fun r hr => List.mem_singleton.mp hr ▸ lattice_proper 2) mixedShare_sealed mixedShare_run
  refine ⟨haccess, ?_, ?_, ?_, ?_, ?_⟩
  · exact hopens.delegated _ _ _ ⟨3, rfl, rfl⟩ (List.mem_singleton_self _)
  · exact hopens.unlisted _ _ _ (by decide)
  · refine hopens.foreign namingKem_exclusive (oneKey_mixedShare 3) _ _ _ ?_
    rintro ⟨k, h, h'⟩
    exact absurd (h.trans h'.symm) (by decide)
  · exact hopens.direct _ _ _ (List.mem_singleton_self _) rfl (by decide +kernel)
  · refine hopens.stranger _ bobPublic.val (by decide +kernel) fun t ht enc henc => ?_
    obtain rfl := List.mem_singleton.mp ht
    obtain rfl := Except.ok.inj henc
    decide +kernel

/-- While there is a capsule, the direct recipients are not replaced. -/
lemma ne_replace (hsome : s.access.delegated ≠ []) {change : Change}
    (hstep : MixedStep curves aead blake3 host kem keys s change s') (targets : List WrapPublic) :
    change ≠ .replace targets := by
  cases hstep with
  | rotate _ h =>
    obtain ⟨hnil, -⟩ := rotate_eq_ok.mp h
    rw [Share.access, hnil] at hsome
    exact absurd rfl hsome
  | addRecipient _ h => exact Change.noConfusion
  | transformRecrypt _ _ h => exact Change.noConfusion
  | pass _ _ h => exact Change.noConfusion

/-- Every other change leaves a capsule. -/
lemma delegated_after {a : Access} {change : Change} (hsome : a.delegated ≠ [])
    (h : ∀ targets, change ≠ .replace targets) : (a.after change).delegated ≠ [] := by
  cases change with
  | add target => exact hsome
  | replace targets => exact absurd rfl (h targets)
  | handOn backend source target => exact fun hnil => hsome (List.map_eq_nil_iff.mp hnil)
  | pass => exact hsome

lemma not_mem_replace
    (hs : Mixed curves aead blake3 host kem keys dek plaintext s₀)
    (hsome : s₀.access.delegated ≠ [])
    (hrun : Trace (MixedStep curves aead blake3 host kem keys) s₀ changes s) :
    Mixed curves aead blake3 host kem keys dek plaintext s ∧ s.access.delegated ≠ [] ∧
      ∀ targets, .replace targets ∉ changes := by
  induction hrun with
  | nil => exact ⟨hs, hsome, fun _ => List.not_mem_nil⟩
  | snoc _ hstep ih =>
    obtain ⟨hmixed, hdelegated, hnever⟩ := ih
    obtain ⟨hmixed', haccess, -⟩ := mixed_step hmixed hstep
    have hlast := ne_replace hdelegated hstep
    refine ⟨hmixed', haccess ▸ delegated_after hdelegated hlast, fun targets hmem => ?_⟩
    rcases List.mem_append.mp hmem with hmem | hmem
    · exact hnever targets hmem
    · exact hlast targets (List.mem_singleton.mp hmem).symm

/-- **A share with a capsule loses nobody by accident.**  However such a share was changed and sent:
it has as many capsules as it was sealed with; everybody it was sealed to directly opens it;
and so does every recipient of a capsule it was sealed with that no change has handed on. -/
theorem sealed_recipients_kept (hkem : kem.Lawful keys)
    (hpublic : secrets.mapM (WrapSecret.publicKey curves) = .ok recipients)
    (hproper : ∀ r ∈ recrypt, r.Proper host keys) (hsome : recrypt ≠ [])
    (hseal : Share.sealMixed curves aead blake3 plaintext recipients recrypt kem epoch coins =
      .ok s₀)
    (hrun : Trace (MixedStep curves aead blake3 host kem keys) s₀ changes s) :
    s.recrypt.length = recrypt.length ∧
    (∀ secret t, secret.publicKey curves = .ok t → t ∈ recipients →
      s.open curves aead blake3 secret = .ok plaintext) ∧
    ∀ r ∈ recrypt, (∀ target, .handOn r.backend r.key target ∉ changes) →
      ∀ secret, keys.pair r.backend secret r.key →
        s.openRecrypt aead r.backend r.key secret kem = .ok plaintext := by
  obtain ⟨hmixed, haccess, -⟩ := run_mixed hpublic hproper hseal hrun
  obtain ⟨hsealed, hlist⟩ := mixed_of_sealMixed hpublic hproper hseal
  have hdelegated : s₀.access.delegated ≠ [] := by
    rw [hlist]
    exact fun hnil => hsome (List.map_eq_nil_iff.mp hnil)
  obtain ⟨-, -, hnever⟩ := not_mem_replace hsealed hdelegated hrun
  rw [hlist] at hdelegated
  obtain ⟨hinit, hlen, hkept⟩ := Access.kept hdelegated hnever
  rw [← haccess] at hinit hlen hkept
  have hopen := opensFor_of_mixed hkem hmixed
  refine ⟨?_, fun secret t ht hmem => hopen.open_of_publicKey ht (hinit.subset hmem), ?_⟩
  · rwa [Share.access, List.length_map, List.length_map] at hlen
  · intro r hr hfree secret hpair
    exact hopen.delegated _ _ _ hpair (hkept _ (List.mem_map_of_mem hr) hfree)

/-- Alice opens the share after its capsule was handed on, and there is still one capsule. -/
theorem sealed_recipients_kept_alice :
    (mixedShare 3).recrypt.length = 1 ∧
      (mixedShare 3).open sampleCurves mixedCipher sampleHash (.X25519 aliceSeed) =
        .ok [1, 2, 3] := by
  obtain ⟨hlen, hdirect, -⟩ := sealed_recipients_kept namingKem_lawful alice_publicKeys
    (fun r hr => List.mem_singleton.mp hr ▸ lattice_proper 2) (List.cons_ne_nil _ _)
    mixedShare_sealed mixedShare_run
  exact ⟨hlen, hdirect _ _ (publicKey_x25519 aliceSeed) (List.mem_singleton_self _)⟩

end Identikey.Share
