/-
What each operation on a share does.

A share that was sealed, extended, rotated or transformed is well formed if the keys it
was given passed the checks of their constructors.
-/
import Identikey.Share.RoundTrip
import Identikey.Share.Wrapping

set_option linter.dupNamespace false

namespace Identikey.Share

open Lib Lib.Fallible Auth Dcbor

variable {curves : Curves} {aead : Aead} {blake3 : Bytes → Digest32} {s s' : Share}

/-! ### Sealing to a list of recipients -/

lemma sealAll_eq_ok {recipients : List WrapPublic} {dek : Key} {epoch : UInt64}
    {coins : WrapPublic → WrapCoins curves} {wraps : List Wrap} :
    sealAll curves aead blake3 recipients dek epoch coins = .ok wraps ↔
      List.Forall₂ (fun t w => Wrap.seal curves aead blake3 t dek epoch (coins t) = .ok w)
        recipients wraps := mapM_eq_ok

/-- Every wrap of the list matches its recipient. -/
lemma matches_of_sealAll {recipients : List WrapPublic} (hmade : ∀ t ∈ recipients, t.Made curves)
    {dek : Key} {epoch : UInt64} {coins : WrapPublic → WrapCoins curves} {wraps : List Wrap}
    (h : sealAll curves aead blake3 recipients dek epoch coins = .ok wraps) :
    List.Forall₂ (Matches curves epoch) wraps recipients := by
  rw [sealAll_eq_ok] at h
  induction h with
  | nil => exact .nil
  | @cons t w ts ws hw _ ih =>
    obtain ⟨ht, hts⟩ := List.forall_mem_cons.mp hmade
    exact .cons (matches_of_seal ht hw) (ih hts)

/-- Every wrap of the list holds the key. -/
lemma holds_of_sealAll {recipients : List WrapPublic} {dek : Key} {epoch : UInt64}
    {coins : WrapPublic → WrapCoins curves} {wraps : List Wrap}
    (h : sealAll curves aead blake3 recipients dek epoch coins = .ok wraps) :
    ∀ w ∈ wraps, Holds curves aead blake3 dek w := by
  rw [sealAll_eq_ok] at h
  induction h with
  | nil => simp
  | @cons t w ts ws hw _ ih => exact List.forall_mem_cons.mpr ⟨(seal_holds hw).1, ih⟩

/-! ### The operations, by their results -/

lemma encapsulateTo_eq_ok {kem : RecryptKem} {dek : Key} {r : RecryptPublic} {c : RecryptCapsule} :
    encapsulateTo kem dek r = .ok c ↔
      kem.encapsulate r.backend r.key dek = .ok c.ciphertext ∧ c.ciphertext ≠ [] ∧
        c.backend = r.backend ∧ c.recipient = r.key := by
  unfold encapsulateTo
  simp only [bind_eq_ok, ensure_eq_ok, pure_eq_ok]
  constructor
  · rintro ⟨ct, hct, _, hne, rfl⟩
    exact ⟨hct, hne, rfl, rfl⟩
  · rintro ⟨hct, hne, hb, hr⟩
    exact ⟨_, hct, (), hne, by rw [← hb, ← hr]⟩

lemma sealMixed_eq_ok {plaintext : Bytes} {recipients : List WrapPublic}
    {recrypt : List RecryptPublic} {kem : RecryptKem} {epoch : UInt64} {coins : SealCoins curves} :
    Share.sealMixed curves aead blake3 plaintext recipients recrypt kem epoch coins = .ok s ↔
      ¬ (recipients = [] ∧ recrypt = []) ∧ rejectDuplicateDirect curves recipients = .ok () ∧
      rejectDuplicateRecrypt recrypt = .ok () ∧ ∃ ciphertext wraps capsules,
        aead.encrypt coins.dek coins.nonce PAYLOAD_AAD plaintext = some ciphertext ∧
        sealAll curves aead blake3 recipients coins.dek epoch coins.wraps = .ok wraps ∧
        recrypt.mapM (encapsulateTo kem coins.dek) = .ok capsules ∧
        s = { epoch, nonce := coins.nonce, ciphertext, wraps, targets := recipients,
              recrypt := capsules } := by
  unfold Share.sealMixed encryptPayload
  simp only [bind_eq_ok, ensure_eq_ok, okOr_eq_ok, pure_eq_ok]
  constructor
  · rintro ⟨_, hne, _, hdirect, _, hrecrypt, c, hc, ws, hws, cs, hcs, rfl⟩
    exact ⟨hne, hdirect, hrecrypt, c, ws, cs, hc, hws, hcs, rfl⟩
  · rintro ⟨hne, hdirect, hrecrypt, c, ws, cs, hc, hws, hcs, rfl⟩
    exact ⟨(), hne, (), hdirect, (), hrecrypt, c, hc, ws, hws, cs, hcs, rfl⟩

lemma addRecipient_eq_ok {opener : WrapSecret} {t : WrapPublic} {coins : WrapCoins curves} :
    s.addRecipient curves aead blake3 opener t coins = .ok s' ↔
      t ∉ s.targets ∧ ∃ enc dek w, t.encapsulation curves = .ok enc ∧
        (∀ w ∈ s.wraps, w.recipient ≠ enc.recipient) ∧
        s.openDek curves aead blake3 opener = .ok dek ∧
        Wrap.seal curves aead blake3 t dek s.epoch coins = .ok w ∧
        s' = { s with wraps := s.wraps ++ [w], targets := s.targets ++ [t] } := by
  unfold Share.addRecipient
  simp only [bind_eq_ok, ensure_eq_ok, pure_eq_ok, not_exists, not_and]
  constructor
  · rintro ⟨_, hnew, enc, henc, _, hne, dek, hdek, w, hw, rfl⟩
    exact ⟨hnew, enc, dek, w, henc, hne, hdek, hw, rfl⟩
  · rintro ⟨hnew, enc, dek, w, henc, hne, hdek, hw, rfl⟩
    exact ⟨(), hnew, enc, henc, (), hne, dek, hdek, w, hw, rfl⟩

lemma rotate_eq_ok {opener : WrapSecret} {recipients : List WrapPublic} {epoch : UInt64}
    {coins : WrapPublic → WrapCoins curves} :
    s.rotate curves aead blake3 opener recipients epoch coins = .ok s' ↔
      s.recrypt = [] ∧ recipients ≠ [] ∧ rejectDuplicateDirect curves recipients = .ok () ∧
      ∃ dek wraps, s.openDek curves aead blake3 opener = .ok dek ∧
        sealAll curves aead blake3 recipients dek epoch coins = .ok wraps ∧
        s' = { epoch, nonce := s.nonce, ciphertext := s.ciphertext, wraps, targets := recipients,
               recrypt := [] } := by
  unfold Share.rotate
  simp only [bind_eq_ok, ensure_eq_ok, pure_eq_ok]
  constructor
  · rintro ⟨_, hnil, _, hne, _, hdirect, dek, hdek, ws, hws, rfl⟩
    exact ⟨hnil, hne, hdirect, dek, ws, hdek, hws, rfl⟩
  · rintro ⟨hnil, hne, hdirect, dek, ws, hdek, hws, rfl⟩
    exact ⟨(), hnil, (), hne, (), hdirect, dek, hdek, ws, hws, rfl⟩

/-- The first element that a test accepts, with what stands before and behind it. -/
lemma findIdx?_eq_some {α : Type} {p : α → Bool} {l : List α} {i : ℕ} :
    l.findIdx? p = some i ↔ ∃ before a after, l = before ++ a :: after ∧ before.length = i ∧
      p a = true ∧ ∀ x ∈ before, p x = false := by
  rw [List.findIdx?_eq_some_iff_getElem]
  constructor
  · rintro ⟨hi, ha, hbefore⟩
    refine ⟨l.take i, l[i], l.drop (i + 1), ?_, List.length_take_of_le hi.le, ha, fun x hx => ?_⟩
    · rw [List.getElem_cons_drop, List.take_append_drop]
    · obtain ⟨j, hj, rfl⟩ := List.mem_take_iff_getElem.mp hx
      simpa using hbefore j (by omega)
  · rintro ⟨before, a, after, rfl, rfl, ha, hbefore⟩
    refine ⟨by simp, by simpa using ha, fun j hj => ?_⟩
    rw [List.getElem_append_left hj, hbefore _ (List.getElem_mem hj)]
    exact Bool.false_ne_true

/-- One capsule is replaced, the first for its backend and recipient. -/
lemma transformRecrypt_eq_ok {backend : String} {source transformKey : Bytes}
    {target : RecryptPublic} {kem : RecryptKem} :
    s.transformRecrypt backend source target transformKey kem = .ok s' ↔
      target.backend = backend ∧
      (∀ c ∈ s.recrypt, ¬ (c.backend = backend ∧ c.recipient = target.key)) ∧
      ∃ before c after ct, s.recrypt = before ++ c :: after ∧
        (∀ c ∈ before, ¬ (c.backend = backend ∧ c.recipient = source)) ∧
        c.backend = backend ∧ c.recipient = source ∧
        kem.transform backend transformKey c.ciphertext = .ok ct ∧ ct ≠ [] ∧
        s' = { s with recrypt :=
          before ++ { backend, recipient := target.key, ciphertext := ct } :: after } := by
  have htest : ∀ c : RecryptCapsule, (c.backend == backend && c.recipient == source) = true ↔
      c.backend = backend ∧ c.recipient = source := by simp
  have hnot : ∀ c : RecryptCapsule, (c.backend == backend && c.recipient == source) = false ↔
      ¬ (c.backend = backend ∧ c.recipient = source) := by
    intro c
    rw [← htest, Bool.not_eq_true]
  unfold Share.transformRecrypt
  simp only [bind_eq_ok, ensure_eq_ok, okOr_eq_ok, pure_eq_ok, findIdx?_eq_some, htest, hnot]
  constructor
  · rintro ⟨_, rfl, _, hfree, _, ⟨before, c, after, heq, rfl, ⟨hb, hr⟩, hbefore⟩, c', hc', ct, hct,
      _, hne, rfl⟩
    rw [heq, List.getElem?_append_right le_rfl, Nat.sub_self, List.getElem?_cons_zero] at hc'
    obtain rfl := Option.some.inj hc'
    refine ⟨rfl, fun x hx hsame => hfree ⟨x, hx, hsame⟩, before, c, after, ct, heq, hbefore, hb, hr,
      hct, hne, ?_⟩
    rw [heq, List.set_append_right _ _ le_rfl, Nat.sub_self, List.set_cons_zero]
  · rintro ⟨rfl, hfree, before, c, after, ct, heq, hbefore, hb, hr, hct, hne, rfl⟩
    refine ⟨(), rfl, (), ?_, before.length, ⟨before, c, after, heq, rfl, ⟨hb, hr⟩, hbefore⟩, c, ?_,
      ct, hct, (), hne, ?_⟩
    · rintro ⟨x, hx, hsame⟩
      exact hfree x hx hsame
    · rw [heq, List.getElem?_append_right le_rfl, Nat.sub_self, List.getElem?_cons_zero]
    · rw [heq, List.set_append_right _ _ le_rfl, Nat.sub_self, List.set_cons_zero]

/-! ### Well-formed shares stay so -/

lemma wellFormed_of_sealMixed {plaintext : Bytes} {recipients : List WrapPublic}
    {recrypt : List RecryptPublic} {kem : RecryptKem} {epoch : UInt64} {coins : SealCoins curves}
    (hmade : ∀ t ∈ recipients, t.Made curves)
    (hnew : ∀ r ∈ recrypt, RecryptPublic.new r.backend r.key = .ok r)
    (h : Share.sealMixed curves aead blake3 plaintext recipients recrypt kem epoch coins = .ok s) :
    s.WellFormed curves := by
  obtain ⟨hne, -, -, c, ws, cs, -, hws, hcs, rfl⟩ := sealMixed_eq_ok.mp h
  have hmatches := matches_of_sealAll hmade hws
  refine ⟨hmatches, fun c hc => ?_, fun hnil => ?_⟩
  · obtain ⟨r, hr, hread⟩ := (mem_of_forall₂ (mapM_eq_ok.mp hcs)).mp hc
    obtain ⟨-, hct, hbackend, hkey⟩ := encapsulateTo_eq_ok.mp hread
    obtain ⟨_, hfilled, -⟩ := bind_eq_ok.mp (hnew r hr)
    rw [ensure_eq_ok, not_or] at hfilled
    exact ⟨hbackend ▸ hfilled.1, hkey ▸ hfilled.2, hct⟩
  · have hlen := hmatches.length_eq
    have hlen' := (mapM_eq_ok.mp hcs).length_eq
    simp only at hnil
    rw [hnil.1] at hlen
    rw [hnil.2] at hlen'
    exact hne ⟨List.length_eq_zero_iff.mp hlen.symm, List.length_eq_zero_iff.mp hlen'⟩

lemma wellFormed_of_addRecipient (hs : s.WellFormed curves) {opener : WrapSecret} {t : WrapPublic}
    (ht : t.Made curves) {coins : WrapCoins curves}
    (h : s.addRecipient curves aead blake3 opener t coins = .ok s') : s'.WellFormed curves := by
  obtain ⟨-, enc, dek, w, -, -, -, hw, rfl⟩ := addRecipient_eq_ok.mp h
  refine ⟨?_, hs.capsules, fun hnil => List.append_ne_nil_of_right_ne_nil _ (by simp) hnil.1⟩
  exact List.rel_append hs.recipients (.cons (matches_of_seal ht hw) .nil)

lemma wellFormed_of_rotate {opener : WrapSecret} {recipients : List WrapPublic}
    (hmade : ∀ t ∈ recipients, t.Made curves) {epoch : UInt64}
    {coins : WrapPublic → WrapCoins curves}
    (h : s.rotate curves aead blake3 opener recipients epoch coins = .ok s') :
    s'.WellFormed curves := by
  obtain ⟨-, hne, -, dek, ws, -, hws, rfl⟩ := rotate_eq_ok.mp h
  have hmatches := matches_of_sealAll hmade hws
  refine ⟨hmatches, by simp, fun hnil => hne ?_⟩
  have hlen := hmatches.length_eq
  simp only at hnil
  rw [hnil.1] at hlen
  exact List.length_eq_zero_iff.mp hlen.symm

lemma wellFormed_of_transformRecrypt (hs : s.WellFormed curves) {backend : String}
    {source transformKey : Bytes} {target : RecryptPublic}
    (hnew : RecryptPublic.new target.backend target.key = .ok target) {kem : RecryptKem}
    (h : s.transformRecrypt backend source target transformKey kem = .ok s') :
    s'.WellFormed curves := by
  obtain ⟨rfl, -, before, c, after, ct, heq, -, -, -, -, hct, rfl⟩ := transformRecrypt_eq_ok.mp h
  obtain ⟨_, hfilled, -⟩ := bind_eq_ok.mp hnew
  rw [ensure_eq_ok, not_or] at hfilled
  have hcapsules := hs.capsules
  rw [heq] at hcapsules
  refine ⟨hs.recipients, fun x hx => ?_, fun hnil => by simp at hnil⟩
  rcases List.mem_append.mp hx with hx | hx
  · exact hcapsules x (List.mem_append_left _ hx)
  · rcases List.mem_cons.mp hx with rfl | hx
    · exact ⟨hfilled.1, hfilled.2, hct⟩
    · exact hcapsules x (List.mem_append_right _ (List.mem_cons_of_mem _ hx))

/-- The draws for a share to run the model with. -/
def sampleCoins : WrapCoins sampleCurves :=
  { nonce := fill 24 1, seed := bobSeed, scalar := ⟨basePoint, by decide⟩ }

def sampleSealCoins : SealCoins sampleCurves :=
  { dek := fill 32 7, nonce := fill 24 2,
    wraps := fun _ => sampleCoins }

end Identikey.Share
