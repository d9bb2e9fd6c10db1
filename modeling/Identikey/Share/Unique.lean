/-
Which shares have one entry for each recipient.

Sealing, adding, rotating and transforming look for duplicates, and parsing does not.  A share
has one wrap for each key and one capsule for each pair of a backend and a key if no share it
comes from was parsed from bytes that name one of them twice.
-/
import Identikey.Share.Reachable

set_option linter.dupNamespace false

namespace Identikey.Share

open Lib Lib.Fallible Auth Dcbor

variable {curves : Curves} {aead : Aead} {blake3 : Bytes → Digest32} {host : Host}
  {source : Bytes → Prop} {s s' : Share}

/-! ### Unique recipients -/

/-- The encapsulation keys of the targets are distinct, and so are the backends and keys that the
capsules are for. -/
structure Share.Unique (curves : Curves) (s : Share) : Prop where
  targets : ∃ encs, s.targets.mapM (WrapPublic.encapsulation curves) = .ok encs ∧
    (encs.map Encapsulation.recipient).Nodup
  capsules : (s.recrypt.map fun c => (c.backend, c.recipient)).Nodup

/-- In a share in step, the keys of the targets are the recipients of the wraps. -/
lemma unique_iff (hs : s.InStep curves) :
    s.Unique curves ↔ (s.wraps.map Wrap.recipient).Nodup ∧
      (s.recrypt.map fun c => (c.backend, c.recipient)).Nodup := by
  have hencs := encapsulations_of_inStep hs
  have hkeys : (s.wraps.map Wrap.encapsulation).map Encapsulation.recipient =
      s.wraps.map Wrap.recipient := by
    rw [List.map_map]
    rfl
  constructor
  · rintro ⟨⟨encs, hread, hencsNodup⟩, hcapsules⟩
    rw [hencs, Except.ok.injEq] at hread
    rw [← hread, hkeys] at hencsNodup
    exact ⟨hencsNodup, hcapsules⟩
  · rintro ⟨hwraps, hcapsules⟩
    exact ⟨⟨_, hencs, hkeys ▸ hwraps⟩, hcapsules⟩

/-! ### The checks for duplicates -/

/-- The loop lets recipients through whose keys are new and distinct. -/
lemma nodup_of_rejectSeen {all recipients : List WrapPublic} {seen : List Bytes}
    (h : rejectSeen curves all seen recipients = .ok ()) {encs : List Encapsulation}
    (hencs : recipients.mapM (WrapPublic.encapsulation curves) = .ok encs) :
    (encs.map Encapsulation.recipient).Nodup ∧ ∀ enc ∈ encs, enc.recipient ∉ seen := by
  rw [mapM_eq_ok] at hencs
  induction hencs generalizing seen with
  | nil => simp
  | @cons t enc ts encs henc _ ih =>
    unfold rejectSeen at h
    simp only [henc, ok_bind, bind_eq_ok, ensure_eq_ok, not_or] at h
    obtain ⟨_, ⟨hnew, -⟩, hrest⟩ := h
    obtain ⟨hnodup, hseen⟩ := ih hrest
    constructor
    · rw [List.map_cons, List.nodup_cons]
      refine ⟨fun hmem => ?_, hnodup⟩
      obtain ⟨enc', henc', hsame⟩ := List.mem_map.mp hmem
      exact hseen enc' henc' (by simp [hsame])
    · refine List.forall_mem_cons.mpr ⟨hnew, fun enc' henc' hmem => ?_⟩
      exact hseen enc' henc' (List.mem_append_left _ hmem)

lemma rejectDuplicateRecrypt_eq_ok {recipients : List RecryptPublic} :
    rejectDuplicateRecrypt recipients = .ok () ↔
      (recipients.map fun r => (r.backend, r.key)).Nodup := by
  induction recipients with
  | nil => simp [rejectDuplicateRecrypt]
  | cons r rs ih =>
    rw [rejectDuplicateRecrypt, List.map_cons, List.nodup_cons, ← ih]
    simp [bind_eq_ok, ensure_eq_ok]

/-! ### What the bytes of a share name -/

/-- A field of a map. -/
def fieldIn {α : Type} (host : Host) (key : String) (read : CBOR → Option α) : CBOR → Option α
  | .map entries => getAs host entries key read
  | _ => none

/-- The recipient that a wrap in a share names.  The parser encodes the wrap and decodes it
again. -/
def recipientIn (host : Host) (wrap : CBOR) : Option Bytes :=
  (decodeCbor host (wrap.toCborData host)).toOption.bind
    (fieldIn host "recipient" CBOR.toByteString)

/-- The backend and the recipient that a capsule in a share names. -/
def backendIn (host : Host) (capsule : CBOR) : Option String × Option Bytes :=
  (fieldIn host "backend" CBOR.toText capsule, fieldIn host "recipient" CBOR.toByteString capsule)

/-- No two wraps in the bytes name one recipient, and no two capsules one backend and recipient. -/
def NoRepeats (host : Host) (bytes : Bytes) : Prop :=
  ∀ entries wraps capsules, decodeCbor host bytes = .ok (.map entries) →
    mapCbor entries "wraps" = .ok (.array wraps) →
    mapCbor entries "recrypt" = .ok (.array capsules) →
    (wraps.map (recipientIn host)).Nodup ∧ (capsules.map (backendIn host)).Nodup

lemma recipientIn_of_parseWrap {x : CBOR} {w : Wrap}
    (h : parseWrap curves host (x.toCborData host) = .ok w) :
    recipientIn host x = some w.recipient := by
  obtain ⟨entries, hdecode, -, hread⟩ := parseMap_eq_ok.mp h
  rw [recipientIn, hdecode]
  exact (of_readWrap hread).1

lemma backendIn_of_parseCapsule {x : CBOR} {c : RecryptCapsule}
    (h : parseCapsule host x = .ok c) : backendIn host x = (some c.backend, some c.recipient) := by
  cases x with
  | map entries =>
    unfold parseCapsule readCapsule at h
    simp only [bind_eq_ok, ensure_eq_ok, okOr_eq_ok, pure_eq_ok] at h
    obtain ⟨_, -, _, -, _, -, backend, hbackend, recipient, hrecipient, _, -, _, -, rfl⟩ := h
    exact Prod.ext hbackend hrecipient
  | _ => cases h

/-- What the wraps and capsules of a parsed share name. -/
lemma names_of_readShare {entries : List (CBOR × CBOR)}
    (h : readShare curves host entries = .ok s) :
    ∃ wraps capsules, mapCbor entries "wraps" = .ok (.array wraps) ∧
      mapCbor entries "recrypt" = .ok (.array capsules) ∧
      wraps.map (recipientIn host) = s.wraps.map (fun w => some w.recipient) ∧
      capsules.map (backendIn host) =
        s.recrypt.map fun c => (some c.backend, some c.recipient) := by
  obtain ⟨wraps, targets, capsules, recipients, hws, hcs, hlen, hrecipients, hwraps, -, hcapsules,
    -⟩ := of_readShare h
  refine ⟨wraps, capsules, hws, hcs, ?_, ?_⟩
  · have hnames : (wraps.zip targets).map (fun values => recipientIn host values.1) =
        recipients.map fun r => some r.1.recipient :=
      map_eq_of_forall₂ (mapM_eq_ok.mp hrecipients) fun values r hr =>
        recipientIn_of_parseWrap (of_readRecipient hr).1
    rw [hwraps, ← List.map_fst_zip hlen.le, List.map_map, List.map_map]
    exact hnames
  · exact map_eq_of_forall₂ (mapM_eq_ok.mp hcapsules) fun x c => backendIn_of_parseCapsule

/-- **A parsed share has distinct recipients exactly when its bytes name distinct ones.** -/
lemma unique_iff_noRepeats {bytes : Bytes} (h : Share.fromCbor curves host bytes = .ok s) :
    s.Unique curves ↔ NoRepeats host bytes := by
  rw [unique_iff (inStep_of_fromCbor h)]
  obtain ⟨entries, hdecode, -, hread⟩ := parseMap_eq_ok.mp h
  obtain ⟨wraps, capsules, hwraps, hcapsules, hrecipients, hbackends⟩ := names_of_readShare hread
  have hnodup : (wraps.map (recipientIn host)).Nodup ↔ (s.wraps.map Wrap.recipient).Nodup := by
    have hsome :
        s.wraps.map (fun w => some w.recipient) = (s.wraps.map Wrap.recipient).map some := by
      rw [List.map_map]
      rfl
    rw [hrecipients, hsome, List.nodup_map_iff (Option.some_injective _)]
  have hnodup' : (capsules.map (backendIn host)).Nodup ↔
      (s.recrypt.map fun c => (c.backend, c.recipient)).Nodup := by
    have hinj : Function.Injective (Prod.map (some : String → _) (some : Bytes → _)) :=
      (Option.some_injective _).prodMap (Option.some_injective _)
    have hsome : s.recrypt.map (fun c => (some c.backend, some c.recipient)) =
        (s.recrypt.map fun c => (c.backend, c.recipient)).map (Prod.map some some) := by
      rw [List.map_map]
      rfl
    rw [hbackends, hsome, List.nodup_map_iff hinj]
  rw [← hnodup, ← hnodup']
  constructor
  · intro hsame entries' wraps' capsules' hdecode' hwraps' hcapsules'
    rw [hdecode, Except.ok.injEq, CBOR.map.injEq] at hdecode'
    subst hdecode'
    rw [hwraps, Except.ok.injEq, CBOR.array.injEq] at hwraps'
    rw [hcapsules, Except.ok.injEq, CBOR.array.injEq] at hcapsules'
    rw [← hwraps', ← hcapsules']
    exact hsame
  · exact fun hall => hall _ _ _ hdecode hwraps hcapsules

/-! ### Operations -/

lemma unique_of_sealMixed {plaintext : Bytes} {recipients : List WrapPublic}
    {recrypt : List RecryptPublic} {kem : RecryptKem} {epoch : UInt64} {coins : SealCoins curves}
    (h : Share.sealMixed curves aead blake3 plaintext recipients recrypt kem epoch coins = .ok s) :
    s.Unique curves := by
  have hencs := encapsulations_of_inStep (inStep_of_sealMixed h)
  obtain ⟨-, hdirect, hrecrypt, c, ws, cs, -, hws, hcs, rfl⟩ := sealMixed_eq_ok.mp h
  refine ⟨⟨_, hencs, (nodup_of_rejectSeen hdirect hencs).1⟩, ?_⟩
  have hpairs : recrypt.map (fun r => (r.backend, r.key)) =
      cs.map fun c => (c.backend, c.recipient) := by
    refine map_eq_of_forall₂ (mapM_eq_ok.mp hcs) fun r c hc => ?_
    obtain ⟨-, -, hbackend, hrecipient⟩ := encapsulateTo_eq_ok.mp hc
    rw [hbackend, hrecipient]
  rw [rejectDuplicateRecrypt_eq_ok, hpairs] at hrecrypt
  exact hrecrypt

/-- **A rewrap keeps the recipients distinct.** -/
lemma unique_of_rewrap (hstep : s.InStep curves) (hs : s.Unique curves) {op : Rewrap curves}
    (h : op.apply aead blake3 s = .ok s') : s'.Unique curves := by
  have hstep' := inStep_of_rewrap hstep h
  obtain ⟨hwraps, hcapsules⟩ := (unique_iff hstep).mp hs
  cases op with
  | addRecipient opener t coins =>
    rw [unique_iff hstep']
    obtain ⟨-, enc, dek, w, henc, hnew, -, hw, rfl⟩ := addRecipient_eq_ok.mp h
    refine ⟨?_, hcapsules⟩
    obtain ⟨-, hencapsulation, -⟩ := seal_holds hw
    rw [henc, Except.ok.injEq] at hencapsulation
    subst hencapsulation
    rw [List.map_append, List.map_singleton, List.nodup_append_comm, List.singleton_append,
      List.nodup_cons]
    refine ⟨fun hmem => ?_, hwraps⟩
    obtain ⟨w', hw', hsame⟩ := List.mem_map.mp hmem
    exact hnew w' hw' hsame
  | rotate opener recipients epoch coins =>
    have hencs := encapsulations_of_inStep hstep'
    obtain ⟨-, -, hdirect, dek, ws, -, -, rfl⟩ := rotate_eq_ok.mp h
    exact ⟨⟨_, hencs, (nodup_of_rejectSeen hdirect hencs).1⟩, List.nodup_nil⟩
  | transformRecrypt backend source target transformKey kem =>
    rw [unique_iff hstep']
    obtain ⟨-, hfree, before, c, after, ct, heq, -, -, -, -, -, rfl⟩ :=
      transformRecrypt_eq_ok.mp h
    refine ⟨hwraps, ?_⟩
    rw [heq, List.map_append, List.map_cons, List.nodup_middle, List.nodup_cons] at hcapsules
    rw [List.map_append, List.map_cons, List.nodup_middle, List.nodup_cons]
    refine ⟨fun hmem => ?_, hcapsules.2⟩
    rw [← List.map_append] at hmem
    obtain ⟨c', hc', hsame⟩ := List.mem_map.mp hmem
    have hc'' : c' ∈ s.recrypt := by
      rw [heq]
      exact List.perm_middle.symm.subset (List.mem_cons_of_mem _ hc')
    exact hfree c' hc'' (Prod.mk.inj hsame)

/-! ### Runs -/

/-- Where the bytes of the parsed shares name distinct recipients, so does every share. -/
lemma unique_of_reachable (h : Reachable curves aead blake3 host (NoRepeats host) s) :
    s.Unique curves := by
  induction h with
  | sealMixed h => exact unique_of_sealMixed h
  | fromCbor hsource h => exact (unique_iff_noRepeats h).mpr hsource
  | rewrap hs h ih => exact unique_of_rewrap (inStep_of_reachable hs) ih h

/-- `open` and `open_recrypt` reach the only wrap or capsule that is for the caller. -/
structure Share.FirstIsOnly (curves : Curves) (aead : Aead) (blake3 : Bytes → Digest32)
    (s : Share) : Prop where
  wrap : ∀ secret r w, secret.encapsulationPublic curves = .ok r → w ∈ s.wraps → w.recipient = r →
    s.wraps.filter (fun w' => w'.recipient == r) = [w] ∧
      s.open curves aead blake3 secret = (do
        let dek ← openWith curves aead blake3 secret w
        decryptPayload aead dek s.nonce s.ciphertext)
  capsule : ∀ backend recipient secret kem c, c ∈ s.recrypt → c.backend = backend →
    c.recipient = recipient →
    s.recrypt.filter (fun c' => c'.backend == backend && c'.recipient == recipient) = [c] ∧
      s.openRecrypt aead backend recipient secret kem = (do
        let dek ← RecryptKem.decapsulate kem backend secret c.ciphertext
        decryptPayload aead dek s.nonce s.ciphertext)

lemma firstIsOnly_of_unique (hs : s.InStep curves) (h : s.Unique curves) :
    s.FirstIsOnly curves aead blake3 := by
  obtain ⟨hwraps, hcapsules⟩ := (unique_iff hs).mp h
  constructor
  · rintro secret r w hr hw rfl
    have honly : s.wraps.filter (fun w' => w'.recipient == w.recipient) = [w] :=
      filter_eq_singleton hwraps hw fun x => beq_iff_eq
    refine ⟨honly, ?_⟩
    rw [Share.open, Share.openDek, hr, ok_bind, ← List.head?_filter, honly]
    rfl
  · rintro backend recipient secret kem c hc rfl rfl
    have honly : s.recrypt.filter
        (fun c' => c'.backend == c.backend && c'.recipient == c.recipient) = [c] :=
      filter_eq_singleton hcapsules hc fun x => by simp
    refine ⟨honly, ?_⟩
    rw [Share.openRecrypt, ← List.head?_filter, honly]
    rfl

/-- **Recipients are unique exactly as far as parsed bytes name distinct ones.**  In every run that
parses only such bytes, each share has distinct recipients, so that the first match of `open`
and of `open_recrypt` is the only one; and a share parsed from other bytes has a recipient
twice. -/
theorem recipients_unique :
    (∀ s, Reachable curves aead blake3 host (NoRepeats host) s →
      s.Unique curves ∧ s.FirstIsOnly curves aead blake3) ∧
    ∀ bytes s, Share.fromCbor curves host bytes = .ok s →
      (s.Unique curves ↔ NoRepeats host bytes) := by
  refine ⟨fun s hs => ?_, fun bytes s => unique_iff_noRepeats⟩
  have hunique := unique_of_reachable hs
  exact ⟨hunique, firstIsOnly_of_unique (inStep_of_reachable hs) hunique⟩

/-- The rotated share has one wrap for its recipient. -/
theorem recipients_unique_alice :
    (sampleShare 1).wraps.filter (fun w => w.recipient == alicePublic.val) = [sampleWrap 1] :=
  ((recipients_unique.1 _ (sampleShare_reachable _)).2.wrap (.X25519 aliceSeed) _ (sampleWrap 1)
    (by decide +kernel) (List.mem_singleton_self _) rfl).1

/-- A share with two wraps for one target, the first of which nobody can open. -/
def lockedShare : Share :=
  { sampleShare 0 with
    wraps := [{ sampleWrap 0 with ciphertext := [] }, sampleWrap 0],
    targets := [.X25519 alicePublic, .X25519 alicePublic] }

/-- The recipient is locked out, although the second wrap is good. -/
example : lockedShare.open sampleCurves Aead.clear sampleHash (.X25519 aliceSeed) =
    .error .wrap := by
  decide +kernel

lemma lockedShare_parses :
    Share.fromCbor sampleCurves Host.plain ((shareValue lockedShare).toCborData Host.plain) =
      .ok lockedShare := by
  have hmatches : ∀ w : Wrap, w.alg = ALG_X25519 → w.recipient = alicePublic.val →
      w.ephemeral = bobPublic.val → w.epoch = 0 →
      Matches sampleCurves 0 w (.X25519 alicePublic) := by
    intro w halg hrecipient hephemeral hepoch
    refine ⟨.x25519 (x25519_eq_ok.mpr ⟨by decide +kernel, rfl⟩), ?_, ?_, hepoch⟩
    · rw [halg, hrecipient, hephemeral]
      exact checkWrapKeys_sampleWrap
    · rw [halg, hrecipient]
      rfl
  have hwf : lockedShare.WellFormed sampleCurves := by
    refine ⟨.cons (hmatches _ rfl rfl rfl rfl) (.cons (hmatches _ rfl rfl rfl rfl) .nil), ?_, ?_⟩
    · intro c hc
      cases hc
    · intro hnil
      cases hnil.1
  have hfit : lockedShare.Fits Host.plain := by decide +kernel
  exact Share.fromCbor_toCborData hwf hfit

theorem recipients_not_unique :
    ¬ ∀ (curves : Curves) (aead : Aead) (blake3 : Bytes → Digest32) (host : Host) (s : Share),
      Reachable curves aead blake3 host (fun _ => True) s →
        s.Unique curves ∧ s.FirstIsOnly curves aead blake3 := by
  intro hall
  have hreachable : Reachable sampleCurves Aead.clear sampleHash Host.plain
      (fun _ => True) lockedShare := .fromCbor trivial lockedShare_parses
  have hunique := (hall _ _ _ _ _ hreachable).1
  rw [unique_iff (inStep_of_reachable hreachable)] at hunique
  exact absurd hunique.1 (by decide +kernel)

end Identikey.Share
