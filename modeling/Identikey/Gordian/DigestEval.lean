/-
Digests of concrete envelopes.

The digests and images of an envelope, computed on numbers as in `Auth.Sha256Eval`, and
a test that finitely many messages have no collision among them.
-/
import Identikey.Auth.Sha256Eval
import Identikey.Gordian.Digest

namespace Identikey.Gordian

open Lib Auth Dcbor

namespace Envelope

variable (host : Host)

mutual

/-- `digest` on numbers. -/
def digestN : Envelope → Bytes
  | .leaf cbor => sha256N (cbor.toCborData host)
  | .knownValue value => sha256N ((CBOR.tagged TAG_KNOWN_VALUE (.unsigned value)).toCborData host)
  | .assertion predicate object => sha256N (predicate.digestN ++ object.digestN)
  | .wrapped e => sha256N e.digestN
  | .elided d => d.val
  | .closed _ _ d => d.val
  | .node subject assertions => sha256N (subject.digestN ++ digestsN assertions)

/-- `digests` on numbers, one after the other. -/
def digestsN : List Envelope → Bytes
  | [] => []
  | e :: es => e.digestN ++ digestsN es

end

mutual

/-- `images` on numbers. -/
def imagesN : Envelope → List Bytes
  | .leaf cbor => [cbor.toCborData host]
  | .knownValue value => [(CBOR.tagged TAG_KNOWN_VALUE (.unsigned value)).toCborData host]
  | .assertion predicate object =>
    (predicate.digestN host ++ object.digestN host) :: (predicate.imagesN ++ object.imagesN)
  | .wrapped e => e.digestN host :: e.imagesN
  | .elided _ => []
  | .closed _ _ _ => []
  | .node subject assertions =>
    (subject.digestN host ++ digestsN host assertions) :: (subject.imagesN ++ imagesOfN assertions)

/-- `imagesOf` on numbers. -/
def imagesOfN : List Envelope → List Bytes
  | [] => []
  | e :: es => e.imagesN ++ imagesOfN es

end

variable {host}

lemma digestsN_eq {es : List Envelope} (h : ∀ e ∈ es, (e.digest host).val = e.digestN host) :
    digestsN host es = digestsData (es.map (digest host)) := by
  induction es with
  | nil => rfl
  | cons e es ih =>
    obtain ⟨he, hes⟩ := List.forall_mem_cons.mp h
    rw [digestsN, ih hes, List.map_cons, digestsData_cons, he]

lemma digest_eq_nat (e : Envelope) : (e.digest host).val = e.digestN host := by
  induction e using parts_induction with
  | leaf cbor => exact sha256_eq_nat _
  | knownValue value => exact sha256_eq_nat _
  | assertion predicate object hp ho =>
    rw [digest, sha256_eq_nat, digestN, digestsData_cons, digestsData_cons, hp, ho]
    exact congrArg _ (congrArg _ (List.append_nil _))
  | wrapped e he =>
    rw [digest, sha256_eq_nat, digestN, digestsData_cons, he]
    exact congrArg _ (List.append_nil _)
  | elided d => rfl
  | closed how contents d => rfl
  | node subject assertions hs has =>
    rw [digest, sha256_eq_nat, digestN, digestsN_eq has, digestsData_cons, hs, digests_eq]

lemma images_eq_nat (e : Envelope) : e.images host = e.imagesN host := by
  have hd : ∀ e : Envelope, (e.digest host).val = e.digestN host := digest_eq_nat
  induction e using parts_induction with
  | leaf cbor => rfl
  | knownValue value => rfl
  | assertion predicate object hp ho =>
    rw [images, imagesN, hp, ho, image, digestsData_cons, digestsData_cons, hd, hd]
    exact congrArg (· :: _) (congrArg _ (List.append_nil _))
  | wrapped e he =>
    rw [images, imagesN, he, image, digestsData_cons, hd]
    exact congrArg (· :: _) (List.append_nil _)
  | elided d => rfl
  | closed how contents d => rfl
  | node subject assertions hs has =>
    have hof : imagesOf host assertions = imagesOfN host assertions := by
      clear hs
      induction assertions with
      | nil => rfl
      | cons a as ih =>
        obtain ⟨ha, has⟩ := List.forall_mem_cons.mp has
        rw [imagesOf, imagesOfN, ha, ih has]
    rw [images, imagesN, hs, hof, image, digestsData_cons, hd, ← digestsN_eq fun e _ => hd e]
    rfl

end Envelope

/-- Every digest is computed once and compared with all others. -/
def collisionFreeN (messages : List Bytes) : Bool :=
  Sha256.forceAll (messages.map fun x => ofBeBytes (sha256N x)) fun ds =>
    (messages.zip ds).all fun x => (messages.zip ds).all fun y => x.2 ≠ y.2 || x.1 = y.1

lemma collisionFree_of_nat {messages : List Bytes} (h : collisionFreeN messages = true) :
    CollisionFree messages := by
  rw [collisionFreeN, Sha256.forceAll_eq, List.all_eq_true] at h
  have hzip : ∀ x ∈ messages,
      (x, ofBeBytes (sha256N x)) ∈ messages.zip (messages.map fun x => ofBeBytes (sha256N x)) := by
    intro x hx
    rw [← List.map_prod_left_eq_zip]
    exact List.mem_map_of_mem (f := fun x => (x, ofBeBytes (sha256N x))) hx
  intro x hx y hy hxy
  have hpair := List.all_eq_true.mp (h _ (hzip x hx)) _ (hzip y hy)
  rw [Bool.or_eq_true, decide_eq_true_eq, decide_eq_true_eq] at hpair
  refine hpair.resolve_left fun hne => hne ?_
  rw [← sha256_eq_nat, ← sha256_eq_nat, hxy]

end Identikey.Gordian
