/-
What a digest tells about an envelope.

Every element but an elided one hashes an image: a leaf the bytes of its value, all
others the digests of their parts.  Where SHA-256 has no collision among the images
at hand, equal digests mean equal images; the image of a leaf then tells its value,
and the image of any other element the digests below it.  Nothing in an image says
of which kind the element is.

Eliding parts of an envelope leaves every digest above them as it was.
-/
import Mathlib.Data.Finset.Card
import Identikey.Gordian.Envelope

namespace Identikey.Gordian

open Lib Auth Dcbor

namespace Envelope

/-- Induction on an envelope, through all its parts. -/
@[elab_as_elim]
lemma parts_induction {P : Envelope → Prop} (leaf : ∀ cbor, P (.leaf cbor))
    (knownValue : ∀ value, P (.knownValue value))
    (assertion : ∀ predicate object, P predicate → P object → P (.assertion predicate object))
    (wrapped : ∀ e, P e → P (.wrapped e)) (elided : ∀ d, P (.elided d))
    (closed : ∀ how contents d, P (.closed how contents d))
    (node : ∀ subject assertions, P subject → (∀ a ∈ assertions, P a) →
      P (.node subject assertions)) (e : Envelope) : P e :=
  @Envelope.rec P (fun as => ∀ a ∈ as, P a) leaf knownValue assertion wrapped elided closed node
    (fun _ h => absurd h List.not_mem_nil)
    (fun _ _ ha has => List.forall_mem_cons.mpr ⟨ha, has⟩) e

/-! ### Images -/

lemma digestsData_cons (d : Digest32) (ds : List Digest32) :
    digestsData (d :: ds) = d.val ++ digestsData ds := List.flatMap_cons

lemma length_digestsData (ds : List Digest32) : (digestsData ds).length = 32 * ds.length := by
  induction ds with
  | nil => rfl
  | cons d ds ih =>
    rw [digestsData_cons, List.length_append, d.2, ih, List.length_cons]
    omega

/-- Digests are all of one length, so they can be told apart. -/
lemma digestsData_injective : Function.Injective digestsData := by
  intro ds ds' h
  induction ds generalizing ds' with
  | nil =>
    have hlen := congrArg List.length h
    rw [length_digestsData, length_digestsData, List.length_nil] at hlen
    exact (List.length_eq_zero_iff.mp (by omega)).symm
  | cons d ds ih =>
    cases ds' with
    | nil =>
      have hlen := congrArg List.length h
      rw [length_digestsData, length_digestsData, List.length_nil, List.length_cons] at hlen
      omega
    | cons d' ds' =>
      rw [digestsData_cons, digestsData_cons] at h
      obtain ⟨hd, hds⟩ := List.append_inj h (d.2.trans d'.2.symm)
      rw [Subtype.ext hd, ih hds]

variable (host : Host)

lemma digests_eq (es : List Envelope) : digests host es = es.map (digest host) := by
  induction es with
  | nil => rfl
  | cons e es ih => rw [digests, List.map_cons, ih]

/-- The bytes that are hashed for an element; of an elided one only the digest is known. -/
def image : Envelope → Option Bytes
  | .leaf cbor => some (cbor.toCborData host)
  | .knownValue value => some ((CBOR.tagged TAG_KNOWN_VALUE (.unsigned value)).toCborData host)
  | .assertion predicate object =>
    some (digestsData [predicate.digest host, object.digest host])
  | .wrapped e => some (digestsData [e.digest host])
  | .elided _ => none
  | .closed _ _ _ => none
  | .node subject assertions =>
    some (digestsData (subject.digest host :: assertions.map (digest host)))

variable {host}

lemma digest_of_image {e : Envelope} {b : Bytes} (h : e.image host = some b) :
    e.digest host = sha256 b := by
  cases e with
  | node subject assertions =>
    cases h
    rw [digest, digests_eq]
  | elided d => cases h
  | closed how contents d => cases h
  | _ => cases h; rfl

variable (host)

mutual

/-- The images of an envelope and of all its parts. -/
def images : Envelope → List Bytes
  | .leaf cbor => (image host (.leaf cbor)).toList
  | .knownValue value => (image host (.knownValue value)).toList
  | .assertion predicate object =>
    (image host (.assertion predicate object)).toList ++ (predicate.images ++ object.images)
  | .wrapped e => (image host (.wrapped e)).toList ++ e.images
  | .elided _ => []
  | .closed _ _ _ => []
  | .node subject assertions =>
    (image host (.node subject assertions)).toList ++ (subject.images ++ imagesOf assertions)

/-- The images of a list of envelopes. -/
def imagesOf : List Envelope → List Bytes
  | [] => []
  | e :: es => e.images ++ imagesOf es

end

lemma imagesOf_eq (es : List Envelope) : imagesOf host es = es.flatMap (images host) := by
  induction es with
  | nil => rfl
  | cons e es ih => rw [imagesOf, List.flatMap_cons, ih]

variable {host}

lemma mem_images_self {e : Envelope} {b : Bytes} (h : e.image host = some b) :
    b ∈ e.images host := by
  cases e with
  | elided d => cases h
  | closed how contents d => cases h
  | _ => simp [images, h]

lemma images_wrapped {e : Envelope} {b : Bytes} (h : b ∈ e.images host) :
    b ∈ (wrapped e).images host := by
  rw [images]
  exact List.mem_append_right _ h

lemma images_predicate {p o : Envelope} {b : Bytes} (h : b ∈ p.images host) :
    b ∈ (assertion p o).images host := by
  rw [images]
  exact List.mem_append_right _ (List.mem_append_left _ h)

lemma images_object {p o : Envelope} {b : Bytes} (h : b ∈ o.images host) :
    b ∈ (assertion p o).images host := by
  rw [images]
  exact List.mem_append_right _ (List.mem_append_right _ h)

lemma images_nodeSubject {s : Envelope} {as : List Envelope} {b : Bytes}
    (h : b ∈ s.images host) : b ∈ (node s as).images host := by
  rw [images]
  exact List.mem_append_right _ (List.mem_append_left _ h)

lemma images_nodeAssertion {s a : Envelope} {as : List Envelope} {b : Bytes} (ha : a ∈ as)
    (h : b ∈ a.images host) : b ∈ (node s as).images host := by
  rw [images, imagesOf_eq]
  exact List.mem_append_right _
    (List.mem_append_right _ (List.mem_flatMap.mpr ⟨a, ha, h⟩))

lemma images_subject {e : Envelope} {b : Bytes} (h : b ∈ e.subject.images host) :
    b ∈ e.images host := by
  cases e with
  | node s as => exact images_nodeSubject h
  | _ => exact h

lemma images_assertions {e a : Envelope} {b : Bytes} (ha : a ∈ e.assertions)
    (h : b ∈ a.images host) : b ∈ e.images host := by
  cases e with
  | node s as => exact images_nodeAssertion ha h
  | _ => exact absurd ha List.not_mem_nil

/-! ### Digests without collisions -/

end Envelope

/-- No two of these messages have one digest. -/
def CollisionFree (messages : List Bytes) : Prop :=
  ∀ x ∈ messages, ∀ y ∈ messages, sha256 x = sha256 y → x = y

lemma CollisionFree.mono {l l' : List Bytes} (h : CollisionFree l) (hsub : ∀ x ∈ l', x ∈ l) :
    CollisionFree l' := fun x hx y hy => h x (hsub x hx) y (hsub y hy)

namespace Envelope

variable {host : Host} {l : List Bytes}

/-- All images in the envelope are among the messages. -/
def Covered (host : Host) (l : List Bytes) (e : Envelope) : Prop := ∀ b ∈ e.images host, b ∈ l

section Covered

variable {e p o s a : Envelope} {as : List Envelope}

lemma Covered.image (h : e.Covered host l) {b : Bytes} (hb : e.image host = some b) : b ∈ l :=
  h b (mem_images_self hb)

lemma Covered.predicate (h : (assertion p o).Covered host l) : p.Covered host l := fun b hb =>
  h b (images_predicate hb)

lemma Covered.object (h : (assertion p o).Covered host l) : o.Covered host l := fun b hb =>
  h b (images_object hb)

lemma Covered.unwrapped (h : (wrapped e).Covered host l) : e.Covered host l := fun b hb =>
  h b (images_wrapped hb)

lemma Covered.subject (h : e.Covered host l) : e.subject.Covered host l := fun b hb =>
  h b (images_subject hb)

lemma Covered.of_mem_assertions (h : e.Covered host l) (ha : a ∈ e.assertions) :
    a.Covered host l := fun b hb => h b (images_assertions ha hb)

end Covered

section CollisionFree

variable (hfree : CollisionFree l) {e e' p o p' o' s s' : Envelope} {as as' : List Envelope}

include hfree

/-- Elements with one digest have one image. -/
lemma image_eq_of_digest {b b' : Bytes} (he : e.Covered host l) (he' : e'.Covered host l)
    (hb : e.image host = some b) (hb' : e'.image host = some b')
    (h : e.digest host = e'.digest host) : b = b' := by
  rw [digest_of_image hb, digest_of_image hb'] at h
  exact hfree b (he.image hb) b' (he'.image hb') h

lemma leaf_data {c c' : CBOR} (he : (leaf c).Covered host l) (he' : (leaf c').Covered host l)
    (h : (leaf c).digest host = (leaf c').digest host) :
    c.toCborData host = c'.toCborData host :=
  image_eq_of_digest hfree he he' rfl rfl h

lemma assertion_parts (he : (assertion p o).Covered host l)
    (he' : (assertion p' o').Covered host l)
    (h : (assertion p o).digest host = (assertion p' o').digest host) :
    p.digest host = p'.digest host ∧ o.digest host = o'.digest host := by
  have himage := digestsData_injective (image_eq_of_digest hfree he he' rfl rfl h)
  simp only [List.cons.injEq, and_true] at himage
  exact himage

lemma wrapped_part (he : (wrapped e).Covered host l) (he' : (wrapped e').Covered host l)
    (h : (wrapped e).digest host = (wrapped e').digest host) :
    e.digest host = e'.digest host := by
  have himage := digestsData_injective (image_eq_of_digest hfree he he' rfl rfl h)
  simp only [List.cons.injEq, and_true] at himage
  exact himage

lemma node_parts (he : (node s as).Covered host l) (he' : (node s' as').Covered host l)
    (h : (node s as).digest host = (node s' as').digest host) :
    s.digest host = s'.digest host ∧ as.map (digest host) = as'.map (digest host) := by
  have himage := digestsData_injective (image_eq_of_digest hfree he he' rfl rfl h)
  exact ⟨(List.cons.inj himage).1, (List.cons.inj himage).2⟩

end CollisionFree

/-! ### Adding assertions -/

variable (host)

/-- Assertions in the order of their digests, of equal ones the first. -/
def sorted (as : List Envelope) : List Envelope :=
  as.foldl (fun l a => addKeyed (digestKey host) a l) []

/-- Assertions added one after the other. -/
def addAll (e : Envelope) (as : List Envelope) : Envelope :=
  as.foldl (addAssertionEnvelope host) e

variable {host}

lemma sorted_keyed (as : List Envelope) : Keyed (digestKey host) (sorted host as) :=
  Keyed.foldl_addKeyed as List.Pairwise.nil

lemma addAll_node (s : Envelope) (as bs : List Envelope) :
    (node s as).addAll host bs =
      node s (bs.foldl (fun l a => addKeyed (digestKey host) a l) as) := by
  induction bs generalizing as with
  | nil => rfl
  | cons b bs ih =>
    rw [addAll, List.foldl_cons]
    exact ih _

/-- No assertion is added or the result is a node. -/
lemma addAll_eq {e : Envelope} (he : e.assertions = [] ∧ e.subject = e) (as : List Envelope) :
    e.addAll host as = if as = [] then e else node e (sorted host as) := by
  cases as with
  | nil => rfl
  | cons a as =>
    have hfirst : addAssertionEnvelope host e a = node e [a] := by
      cases e with
      | node s bs =>
        have hsize := congrArg sizeOf he.2
        simp only [subject, node.sizeOf_spec] at hsize
        omega
      | _ => rfl
    rw [addAll, List.foldl_cons, hfirst, if_neg (List.cons_ne_nil a as)]
    exact addAll_node e [a] as

lemma subject_addAll {e : Envelope} (he : e.assertions = [] ∧ e.subject = e)
    (as : List Envelope) : (e.addAll host as).subject = e := by
  rw [addAll_eq he]
  split_ifs
  · exact he.2
  · rfl

lemma assertions_addAll {e : Envelope} (he : e.assertions = [] ∧ e.subject = e)
    (as : List Envelope) : (e.addAll host as).assertions = sorted host as := by
  rw [addAll_eq he]
  split_ifs with h
  · rw [h]
    exact he.1
  · rfl

/-- Assertions that their digests tell apart are all there. -/
lemma mem_sorted {as : List Envelope}
    (h : ∀ a ∈ as, ∀ b ∈ as, digest host a = digest host b → a = b) {a : Envelope} :
    a ∈ sorted host as ↔ a ∈ as := by
  have hinj : ∀ a ∈ as ++ [], ∀ b ∈ as ++ [], digestKey host a = digestKey host b → a = b := by
    intro a ha b hb hab
    rw [List.append_nil] at ha hb
    exact h a ha b hb (Subtype.ext hab)
  rw [sorted, mem_foldl_addKeyed List.Pairwise.nil hinj]
  simp

/-- What is sorted is one of the assertions. -/
lemma mem_of_mem_sorted {as : List Envelope} {a : Envelope} (h : a ∈ sorted host as) : a ∈ as := by
  suffices ∀ l : List Envelope, a ∈ as.foldl (fun l a => addKeyed (digestKey host) a l) l →
      a ∈ as ∨ a ∈ l by
    rcases this [] h with h | h
    · exact h
    · exact absurd h List.not_mem_nil
  clear h
  induction as with
  | nil => exact fun l h => .inr h
  | cons b as ih =>
    intro l h
    rcases ih _ h with h | h
    · exact .inl (List.mem_cons_of_mem _ h)
    · rcases mem_of_mem_addKeyed h with rfl | h
      · exact .inl List.mem_cons_self
      · exact .inr h

/-- Assertions of one shape, sorted: some of them, no two with the same digest. -/
lemma sorted_map_subset {β : Type} (f : β → Envelope) (bs : List β) :
    ∃ l : List β, sorted host (bs.map f) = l.map f ∧ l.Nodup ∧ ∀ b ∈ l, b ∈ bs := by
  have hpre : ∀ as : List Envelope, (∀ a ∈ as, a ∈ bs.map f) →
      ∃ l : List β, as = l.map f ∧ ∀ b ∈ l, b ∈ bs := by
    intro as
    induction as with
    | nil => exact fun _ => ⟨[], rfl, fun b hb => absurd hb List.not_mem_nil⟩
    | cons a as ih =>
      intro h
      obtain ⟨ha, has⟩ := List.forall_mem_cons.mp h
      obtain ⟨b, hb, rfl⟩ := List.mem_map.mp ha
      obtain ⟨l, rfl, hl⟩ := ih has
      exact ⟨b :: l, rfl, List.forall_mem_cons.mpr ⟨hb, hl⟩⟩
  obtain ⟨l, hl, hsub⟩ := hpre _ fun a ha => @mem_of_mem_sorted host (bs.map f) a ha
  have hnodup : (l.map f).Nodup := hl ▸ (@sorted_keyed host (bs.map f)).nodup
  exact ⟨l, hl, hnodup.of_map f, hsub⟩

/-- Assertions of one shape that their digests tell apart, sorted. -/
lemma sorted_map {β : Type} {f : β → Envelope} {bs : List β}
    (hinj : ∀ b ∈ bs, ∀ b' ∈ bs, (f b).digest host = (f b').digest host → b = b') :
    ∃ l : List β, sorted host (bs.map f) = l.map f ∧ l.Nodup ∧ ∀ b, b ∈ l ↔ b ∈ bs := by
  have hmem : ∀ a, a ∈ sorted host (bs.map f) ↔ a ∈ bs.map f := by
    refine fun a => mem_sorted ?_
    intro a ha a' ha' h
    obtain ⟨b, hb, rfl⟩ := List.mem_map.mp ha
    obtain ⟨b', hb', rfl⟩ := List.mem_map.mp ha'
    rw [hinj b hb b' hb' h]
  obtain ⟨l, hl, hnodup, hsub⟩ := @sorted_map_subset host β f bs
  refine ⟨l, hl, hnodup, fun b => ⟨hsub b, fun hb => ?_⟩⟩
  have hb' : f b ∈ l.map f := hl ▸ (hmem (f b)).mpr (List.mem_map_of_mem hb)
  obtain ⟨b', hb', heq⟩ := List.mem_map.mp hb'
  rwa [← hinj b' (hsub b' hb') b hb (congrArg _ heq)]

lemma sorted_eq_nil {as : List Envelope} : sorted host as = [] ↔ as = [] := by
  constructor
  · intro h
    cases as with
    | nil => rfl
    | cons a as =>
      have hne : ∀ (bs l : List Envelope), l ≠ [] →
          bs.foldl (fun l a => addKeyed (digestKey host) a l) l ≠ [] := by
        intro bs
        induction bs with
        | nil => exact fun l hl => hl
        | cons b bs ih => exact fun l hl => ih _ (addKeyed_ne_nil hl)
      exact absurd h (hne as [a] (List.cons_ne_nil a []))
  · rintro rfl
    rfl

/-! ### Elision -/

lemma elideAll_eq (target : Finset Digest32) (es : List Envelope) :
    elideAll host target es = es.map (elideRemovingSet host target) := by
  induction es with
  | nil => rfl
  | cons e es ih => rw [elideAll, List.map_cons, ih]

/-- An element whose digest is asked for is replaced by it. -/
lemma elideRemovingSet_of_mem {target : Finset Digest32} {e : Envelope}
    (h : e.digest host ∈ target) :
    elideRemovingSet host target e = .elided (e.digest host) := by
  cases e with
  | elided d => rfl
  | _ => exact if_pos h

/-- A node whose digest is not asked for is elided part by part. -/
lemma elide_node {target : Finset Digest32} {s : Envelope} {as : List Envelope}
    (h : (node s as).digest host ∉ target) :
    elideRemovingSet host target (node s as) =
      node (elideRemovingSet host target s) (as.map (elideRemovingSet host target)) := by
  rw [elideRemovingSet, if_neg h, elideAll_eq]

lemma elide_wrapped {target : Finset Digest32} {e : Envelope}
    (h : (wrapped e).digest host ∉ target) :
    elideRemovingSet host target (wrapped e) = wrapped (elideRemovingSet host target e) := by
  rw [elideRemovingSet, if_neg h]

lemma elide_leaf {target : Finset Digest32} {c : CBOR} (h : (leaf c).digest host ∉ target) :
    elideRemovingSet host target (leaf c) = leaf c := by
  rw [elideRemovingSet, if_neg h]

lemma elide_assertion {target : Finset Digest32} {p o : Envelope}
    (h : (assertion p o).digest host ∉ target) :
    elideRemovingSet host target (assertion p o) =
      assertion (elideRemovingSet host target p) (elideRemovingSet host target o) := by
  rw [elideRemovingSet, if_neg h]

/-- **Elision leaves the digest as it was.** -/
theorem digest_elideRemovingSet (target : Finset Digest32) (e : Envelope) :
    (elideRemovingSet host target e).digest host = e.digest host := by
  induction e using parts_induction with
  | leaf cbor =>
    rw [elideRemovingSet]
    split_ifs <;> rfl
  | knownValue value =>
    rw [elideRemovingSet]
    split_ifs <;> rfl
  | elided d => rfl
  | closed how contents d =>
    rw [elideRemovingSet]
    split_ifs <;> rfl
  | assertion predicate object hp ho =>
    rw [elideRemovingSet]
    split_ifs
    · rfl
    · rw [digest, hp, ho, digest]
  | wrapped e he =>
    rw [elideRemovingSet]
    split_ifs
    · rfl
    · rw [digest, he, digest]
  | node subject assertions hs has =>
    rw [elideRemovingSet]
    split_ifs
    · rfl
    · have hmap : assertions.map (digest host ∘ elideRemovingSet host target) =
          assertions.map (digest host) := List.map_congr_left has
      rw [digest, digest, hs, digests_eq, digests_eq, elideAll_eq, List.map_map, hmap]

end Envelope

end Identikey.Gordian
