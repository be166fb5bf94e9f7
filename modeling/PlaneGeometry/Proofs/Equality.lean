import PlaneGeometry.Binary64
import PlaneGeometry.Proofs.Bags
import PlaneGeometry.Scalar.Equality
import Mathlib.Algebra.Group.Nat.Defs
import Mathlib.Data.List.Forall2

/-!
# Structural equality is an equivalence and a congruence

Symmetry and transitivity at a node rest on both at its parts, since the greedy comparison of
operands is complete only where equality behaves as an equivalence. So both are proved together, by
induction on the parts.
-/
namespace PlaneGeometry

/-- Comparison of elements is symmetric and transitive, and equal elements share a key. It need not
be reflexive. -/
class Element.Lawful (α : Type) [Element α] : Prop where
  symm {x y : α} : Element.eqv x y = true → Element.eqv y x = true
  trans {x y z : α} : Element.eqv x y = true → Element.eqv y z = true → Element.eqv x z = true
  key {x y : α} : Element.eqv x y = true → Element.key x = Element.key y

instance : Element.Lawful UInt64 where
  symm h := beq_iff_eq.2 (beq_iff_eq.1 h).symm
  trans h h' := beq_iff_eq.2 ((beq_iff_eq.1 h).trans (beq_iff_eq.1 h'))
  key h := beq_iff_eq.1 h

namespace Binary64

/-- Equal numbers have one place in the order; NaN has none. -/
theorem eqv_iff {x y : Binary64} :
    x.eqv y = true ↔ ∃ r, x.rank? = some r ∧ y.rank? = some r := by
  rw [eqv, compare?]
  cases x.rank? with
  | none => simp
  | some r =>
    cases y.rank? with
    | none => simp
    | some s => simpa [compare_eq_iff_eq] using eq_comm

private theorem magnitude_toNat (x : Binary64) : x.magnitude.toNat = x.bits.toNat % 2 ^ 63 :=
  Nat.and_two_pow_sub_one_eq_mod x.bits.toNat 63

private theorem isNegative_iff (x : Binary64) : x.isNegative = true ↔ 2 ^ 63 ≤ x.bits.toNat := by
  have hlt := x.bits.toNat_lt
  rw [isNegative, beq_iff_eq, ← UInt64.toNat_inj, UInt64.toNat_shiftRight,
    Nat.shiftRight_eq_div_pow]
  change x.bits.toNat / 2 ^ 63 = 1 ↔ _
  omega

private theorem rank?_eq_some {x : Binary64} {r : Int} (h : x.rank? = some r) :
    r = if 2 ^ 63 ≤ x.bits.toNat then -((x.bits.toNat % 2 ^ 63 : Nat) : Int) else
      (x.bits.toNat % 2 ^ 63 : Nat) := by
  simp only [rank?, isNegative_iff, magnitude_toNat] at h
  split at h
  · cases h
  · exact (Option.some.inj h).symm

private theorem key_toNat (x : Binary64) :
    x.key.toNat = if x.bits.toNat % 2 ^ 63 = 0 then 0 else x.bits.toNat := by
  simp only [key, beq_iff_eq, ← UInt64.toNat_inj, magnitude_toNat, UInt64.toNat_zero]
  split <;> rfl

instance : Element.Lawful Binary64 where
  symm h := by
    obtain ⟨r, hx, hy⟩ := eqv_iff.1 h
    exact eqv_iff.2 ⟨r, hy, hx⟩
  trans h h' := by
    obtain ⟨r, hx, hy⟩ := eqv_iff.1 h
    obtain ⟨s, hy', hz⟩ := eqv_iff.1 h'
    obtain rfl := Option.some.inj (hy.symm.trans hy')
    exact eqv_iff.2 ⟨r, hx, hz⟩
  key {x y} h := by
    -- The place tells the bits, but for the sign of zero.
    obtain ⟨r, hx, hy⟩ := eqv_iff.1 h
    have hrx := rank?_eq_some hx
    have hry := rank?_eq_some hy
    change x.key = y.key
    rw [← UInt64.toNat_inj, key_toNat, key_toNat]
    have hxlt := x.bits.toNat_lt
    have hylt := y.bits.toNat_lt
    split at hrx <;> split at hry <;> split <;> split <;> omega

end Binary64

private theorem Digest.unordered_eq_of_perm {xs ys : List UInt64} (h : xs.Perm ys) (s : Digest) :
    s.unordered xs = s.unordered ys := by
  have hsorted (zs : List UInt64) : (zs.mergeSort (· ≤ ·)).Pairwise (· ≤ ·) :=
    (@Bag.arranged_sorted UInt64 id zs).pairwise
  have hperm : (xs.mergeSort (· ≤ ·)).Perm (ys.mergeSort (· ≤ ·)) :=
    (List.mergeSort_perm xs _).trans (h.trans (List.mergeSort_perm ys _).symm)
  have he := List.Perm.eq_of_pairwise (fun x y _ _ => UInt64.le_antisymm) (hsorted xs) (hsorted ys)
    hperm
  rw [unordered, unordered, he]

namespace Scalar

variable {α : Type} [Element α]

inductive Kind where
  | leaf | sum | product | diff | division | opposite | inverse | zero | one | random | different
  | between | greater | lower | throwing | norm | angle | signedAngle | live
  deriving DecidableEq

def kind : Scalar α → Kind
  | leaf .. => .leaf
  | sum .. => .sum
  | product .. => .product
  | diff .. => .diff
  | division .. => .division
  | opposite .. => .opposite
  | inverse .. => .inverse
  | zero _ => .zero
  | one _ => .one
  | random _ => .random
  | different .. => .different
  | between .. => .between
  | greater .. => .greater
  | lower .. => .lower
  | throwing .. => .throwing
  | norm .. => .norm
  | angle .. => .angle
  | signedAngle .. => .signedAngle
  | live .. => .live

def parts : Scalar α → List (Scalar α)
  | leaf .. | zero _ | one _ | random _ | throwing .. | live .. => []
  | sum _ xs | product _ xs | norm _ xs => xs
  | diff _ a b | division _ a b | between _ a b => [a, b]
  | opposite _ x | inverse _ x | different _ x | greater _ x | lower _ x => [x]
  | angle _ v w | signedAngle _ v w => v ++ w

/-- What passes from the parts of every node to the node holds of all scalars. -/
theorem induction_parts {P : Scalar α → Prop} (h : ∀ a : Scalar α, (∀ x ∈ a.parts, P x) → P a)
    (a : Scalar α) : P a := by
  apply h
  intro x hx
  have hlt : sizeOf x < sizeOf a := by
    cases a <;> simp only [parts, List.mem_cons, List.mem_append, List.not_mem_nil, or_false] at hx
    case sum | product | norm =>
      have := List.sizeOf_lt_of_mem hx
      simp only [sum.sizeOf_spec, product.sizeOf_spec, norm.sizeOf_spec]
      omega
    case angle | signedAngle =>
      simp only [angle.sizeOf_spec, signedAngle.sizeOf_spec]
      rcases hx with hx | hx <;> have := List.sizeOf_lt_of_mem hx <;> omega
    case diff | division | between =>
      simp only [diff.sizeOf_spec, division.sizeOf_spec, between.sizeOf_spec]
      rcases hx with rfl | rfl <;> omega
    case opposite | inverse | different | greater | lower =>
      subst hx
      simp only [opposite.sizeOf_spec, inverse.sizeOf_spec, different.sizeOf_spec,
        greater.sizeOf_spec, lower.sizeOf_spec]
      omega
  exact induction_parts h x
termination_by sizeOf a

/-- Nodes of one kind with related parts: operands of sums and products in some order, all others
place by place. Values of leaves are compared as elements, random nodes are known by their origin
and live nodes by source and index. -/
inductive Matches (R : Scalar α → Scalar α → Prop) : Scalar α → Scalar α → Prop where
  | leaf {o o' v v'} : Element.eqv v v' = true → Matches R (leaf o v) (leaf o' v')
  | sum {o o'} {xs ys : List (Scalar α)} :
    Multiset.Rel R (xs : Multiset _) (ys : Multiset _) → Matches R (sum o xs) (sum o' ys)
  | product {o o'} {xs ys : List (Scalar α)} :
    Multiset.Rel R (xs : Multiset _) (ys : Multiset _) → Matches R (product o xs) (product o' ys)
  | diff {o o' a a' b b'} : R a a' → R b b' → Matches R (diff o a b) (diff o' a' b')
  | division {o o' a a' b b'} : R a a' → R b b' → Matches R (division o a b) (division o' a' b')
  | opposite {o o' x x'} : R x x' → Matches R (opposite o x) (opposite o' x')
  | inverse {o o' x x'} : R x x' → Matches R (inverse o x) (inverse o' x')
  | zero {o o'} : Matches R (zero o) (zero o')
  | one {o o'} : Matches R (one o) (one o')
  | random {o} : Matches R (random o) (random o)
  | different {o o' x x'} : R x x' → Matches R (different o x) (different o' x')
  | between {o o' a a' b b'} : R a a' → R b b' → Matches R (between o a b) (between o' a' b')
  | greater {o o' x x'} : R x x' → Matches R (greater o x) (greater o' x')
  | lower {o o' x x'} : R x x' → Matches R (lower o x) (lower o' x')
  | throwing {o o' e} : Matches R (throwing o e) (throwing o' e)
  | norm {o o' v v'} : List.Forall₂ R v v' → Matches R (norm o v) (norm o' v')
  | angle {o o' v v' w w'} : List.Forall₂ R v v' → List.Forall₂ R w w' →
    Matches R (angle o v w) (angle o' v' w')
  | signedAngle {o o' v v' w w'} : List.Forall₂ R v v' → List.Forall₂ R w w' →
    Matches R (signedAngle o v w) (signedAngle o' v' w')
  | live {o o' i l l' k} : Matches R (live o i l k) (live o' i l' k)

private theorem forall₂_mono {R S : Scalar α → Scalar α → Prop} {v w : List (Scalar α)}
    (hRS : ∀ x ∈ v, ∀ y ∈ w, R x y → S x y) (h : List.Forall₂ R v w) : List.Forall₂ S v w := by
  induction h with
  | nil => exact .nil
  | cons hxy _ ih =>
    refine .cons (hRS _ List.mem_cons_self _ List.mem_cons_self hxy) (ih ?_)
    exact fun x hx y hy => hRS x (List.mem_cons_of_mem _ hx) y (List.mem_cons_of_mem _ hy)

theorem Matches.mono {R S : Scalar α → Scalar α → Prop} {a b : Scalar α}
    (hRS : ∀ x ∈ a.parts, ∀ y ∈ b.parts, R x y → S x y) (h : Matches R a b) : Matches S a b := by
  cases h with
  | leaf h => exact .leaf h
  | sum h | product h =>
    constructor
    exact h.mono hRS
  | diff hx hy | division hx hy | between hx hy =>
    simp only [parts, List.forall_mem_cons] at hRS
    constructor
    · exact hRS.1.1 hx
    · exact hRS.2.1.2.1 hy
  | opposite h | inverse h | different h | greater h | lower h =>
    constructor
    exact hRS _ List.mem_cons_self _ List.mem_cons_self h
  | zero | one | random | throwing | live => constructor
  | norm h => exact .norm (forall₂_mono hRS h)
  | angle hv hw | signedAngle hv hw =>
    constructor
    · exact forall₂_mono (fun x hx y hy => hRS x (List.mem_append_left _ hx) y
        (List.mem_append_left _ hy)) hv
    · exact forall₂_mono (fun x hx y hy => hRS x (List.mem_append_right _ hx) y
        (List.mem_append_right _ hy)) hw

private theorem matchAll_eq (xs pool : List (Scalar α)) :
    eqv.matchAll xs pool = Bag.matchAll (·.digest) eqv xs pool := by
  induction xs generalizing pool with
  | nil => rfl
  | cons x xs ih =>
    rw [eqv.matchAll, Bag.matchAll]
    split <;> simp_all

private theorem pairwise_iff (v w : List (Scalar α)) :
    eqv.pairwise v w = true ↔ List.Forall₂ (eqv · ·) v w := by
  induction v generalizing w with
  | nil => cases w <;> simp [eqv.pairwise]
  | cons x v ih => cases w <;> simp [eqv.pairwise, ih]

/-- Equal scalars are one scalar, or they match in parts that are equal. -/
theorem matches_of_eqv {a b : Scalar α} (h : a.eqv b = true) : a = b ∨ Matches (eqv · ·) a b := by
  rw [eqv.eq_def, Bool.or_eq_true, decide_eq_true_eq, Bool.and_eq_true] at h
  refine h.imp_right fun h => ?_
  obtain ⟨-, h⟩ := h
  have bag {xs ys : List (Scalar α)}
      (h : xs.length = ys.length ∧ eqv.matchAll xs (Bag.sorted (·.digest) ys) = true) :
      Multiset.Rel (eqv · ·) (xs : Multiset (Scalar α)) (ys : Multiset (Scalar α)) := by
    rw [matchAll_eq] at h
    have hbag : Bag.eqv (·.digest) eqv xs ys = true := by simpa [Bag.eqv] using h
    exact Bag.rel_of_eqv hbag
  split at h <;> try simp only [Bool.and_eq_true, beq_iff_eq, pairwise_iff] at h
  case h_1 => exact .leaf h
  case h_2 => exact .sum (bag h)
  case h_3 => exact .product (bag h)
  case h_4 => exact .diff h.1 h.2
  case h_5 => exact .division h.1 h.2
  case h_6 => exact .between h.1 h.2
  case h_7 => exact .opposite h
  case h_8 => exact .inverse h
  case h_9 => exact .different h
  case h_10 => exact .greater h
  case h_11 => exact .lower h
  case h_12 => exact .zero
  case h_13 => exact .one
  case h_14 => subst h; exact .random
  case h_15 => subst h; exact .throwing
  case h_16 => exact .norm h
  case h_17 => exact .angle h.1 h.2
  case h_18 => exact .signedAngle h.1 h.2
  case h_19 => obtain ⟨rfl, rfl⟩ := h; exact .live
  case h_20 => cases h

theorem digest_eq_of_eqv {a b : Scalar α} (h : a.eqv b = true) : a.digest = b.digest := by
  rw [eqv.eq_def, Bool.or_eq_true, decide_eq_true_eq, Bool.and_eq_true, beq_iff_eq] at h
  rcases h with rfl | h
  · rfl
  · exact h.1

theorem eqv_refl (a : Scalar α) : a.eqv a = true := by
  rw [eqv.eq_def, decide_eq_true rfl, Bool.true_or]

/-- The laws of an equivalence as far as they concern one scalar. -/
structure LawfulAt (a : Scalar α) : Prop where
  comm {b : Scalar α} : a.eqv b = true ↔ b.eqv a = true
  trans {b c : Scalar α} : a.eqv b = true → b.eqv c = true → a.eqv c = true

/-- Where one of the lists is lawful, members may exchange their partners. -/
theorem exchanging_of_lawful {xs ys : List (Scalar α)}
    (h : (∀ x ∈ xs, LawfulAt x) ∨ ∀ y ∈ ys, LawfulAt y) :
    Bag.Exchanging (·.digest) eqv xs ys where
  key _ _ hxy := digest_eq_of_eqv hxy
  swap {x x' y y'} hx hx' hy hy' hxy hx'y hxy' := by
    rcases h with h | h
    · have hyx := (h x hx).comm.1 hxy
      exact (h x' hx').trans ((h x' hx').trans hx'y hyx) hxy'
    · have hyx := (h y hy).comm.2 hxy
      have hyx' := (h y hy).comm.2 hx'y
      have hy'y := (h y' hy').trans ((h y' hy').comm.2 hxy') hxy
      exact (h y' hy').comm.1 ((h y' hy').trans hy'y hyx')

private theorem bag_eqv_of_rel {xs ys : List (Scalar α)}
    (h : (∀ x ∈ xs, LawfulAt x) ∨ ∀ y ∈ ys, LawfulAt y)
    (hrel : Multiset.Rel (eqv · ·) (xs : Multiset (Scalar α)) (ys : Multiset (Scalar α))) :
    (xs.length == ys.length && eqv.matchAll xs (Bag.sorted (·.digest) ys)) = true := by
  rw [matchAll_eq]
  exact (Bag.eqv_iff_rel (exchanging_of_lawful h)).2 hrel

private theorem map_digest_perm {xs ys : List (Scalar α)}
    (h : Multiset.Rel (eqv · ·) (xs : Multiset (Scalar α)) (ys : Multiset (Scalar α))) :
    (xs.map (·.digest)).Perm (ys.map (·.digest)) :=
  Bag.map_perm_of_rel (h.mono fun _ _ _ _ hxy => digest_eq_of_eqv hxy)

private theorem map_digest_eq {v w : List (Scalar α)} (h : List.Forall₂ (eqv · ·) v w) :
    v.map (·.digest) = w.map (·.digest) := by
  induction h with
  | nil => rfl
  | cons hxy _ ih => rw [List.map_cons, List.map_cons, ih, digest_eq_of_eqv hxy]

variable [Element.Lawful α]

private theorem digest_eq_of_matches {a b : Scalar α} (h : Matches (eqv · ·) a b) :
    a.digest = b.digest := by
  cases h with
  | leaf h => simp [digest, Element.Lawful.key h]
  | sum h | product h => simp [digest, Digest.unordered_eq_of_perm (map_digest_perm h)]
  | diff ha hb | division ha hb | between ha hb =>
    simp [digest, digest_eq_of_eqv ha, digest_eq_of_eqv hb]
  | opposite h | inverse h | different h | greater h | lower h =>
    simp [digest, digest_eq_of_eqv h]
  | zero | one | random | throwing | live => simp [digest]
  | norm h => simp [digest, map_digest_eq h]
  | angle hv hw | signedAngle hv hw => simp [digest, map_digest_eq hv, map_digest_eq hw]

private theorem eqv_of_matches {a b : Scalar α} (h : Matches (eqv · ·) a b)
    (hl : (∀ x ∈ a.parts, LawfulAt x) ∨ ∀ y ∈ b.parts, LawfulAt y) : a.eqv b = true := by
  rw [eqv.eq_def, Bool.or_eq_true, Bool.and_eq_true, beq_iff_eq]
  refine .inr ⟨digest_eq_of_matches h, ?_⟩
  cases h with
  | leaf h => exact h
  | sum h | product h => exact bag_eqv_of_rel hl h
  | _ => simp [pairwise_iff, *]

theorem Matches.symm {a b : Scalar α}
    (hcomm : ∀ x ∈ a.parts, ∀ y ∈ b.parts, x.eqv y = true → y.eqv x = true)
    (h : Matches (eqv · ·) a b) : Matches (eqv · ·) b a := by
  replace h := h.mono (S := fun x y => y.eqv x = true) hcomm
  cases h with
  | leaf h => exact .leaf (Element.Lawful.symm h)
  | sum h | product h =>
    constructor
    exact Multiset.rel_flip.1 h
  | norm h => exact .norm h.flip
  | angle hv hw | signedAngle hv hw =>
    constructor
    · exact hv.flip
    · exact hw.flip
  | _ => constructor <;> assumption

omit [Element.Lawful α] in
theorem rel_trans {v w z : Multiset (Scalar α)} (hv : ∀ x ∈ v, LawfulAt x)
    (h : Multiset.Rel (eqv · ·) v w) (h' : Multiset.Rel (eqv · ·) w z) :
    Multiset.Rel (eqv · ·) v z := by
  induction h generalizing z with
  | zero => exact h'
  | cons hxy _ ih =>
    obtain ⟨hx, hv⟩ := Multiset.forall_mem_cons.1 hv
    obtain ⟨c, cs, hyz, hcs, rfl⟩ := Multiset.rel_cons_left.1 h'
    exact .cons (hx.trans hxy hyz) (ih hv hcs)

omit [Element.Lawful α] in
theorem forall₂_trans {v w z : List (Scalar α)} (hv : ∀ x ∈ v, LawfulAt x)
    (h : List.Forall₂ (eqv · ·) v w) (h' : List.Forall₂ (eqv · ·) w z) :
    List.Forall₂ (eqv · ·) v z := by
  induction h generalizing z with
  | nil => exact h'
  | cons hxy _ ih =>
    obtain ⟨hx, hv⟩ := List.forall_mem_cons.1 hv
    cases h' with
    | cons hyz h' => exact .cons (hx.trans hxy hyz) (ih hv h')

theorem Matches.trans {a b c : Scalar α} (ha : ∀ x ∈ a.parts, LawfulAt x)
    (h : Matches (eqv · ·) a b) (h' : Matches (eqv · ·) b c) : Matches (eqv · ·) a c := by
  cases h with
  | leaf h =>
    cases h' with
    | leaf h' => exact .leaf (Element.Lawful.trans h h')
  | sum h | product h =>
    cases h'
    next h' => constructor; exact rel_trans ha h h'
  | diff hx hy | division hx hy | between hx hy =>
    simp only [parts, List.forall_mem_cons] at ha
    cases h'
    next hx' hy' =>
      constructor
      · exact ha.1.trans hx hx'
      · exact ha.2.1.trans hy hy'
  | opposite h | inverse h | different h | greater h | lower h =>
    cases h'
    next h' =>
      constructor
      exact (ha _ List.mem_cons_self).trans h h'
  | zero | one | random | throwing | live => cases h'; constructor
  | norm h =>
    cases h' with
    | norm h' => exact .norm (forall₂_trans ha h h')
  | angle hv hw | signedAngle hv hw =>
    obtain ⟨hav, haw⟩ := List.forall_mem_append.1 ha
    cases h'
    next hv' hw' =>
      constructor
      · exact forall₂_trans hav hv hv'
      · exact forall₂_trans haw hw hw'

private theorem lawfulAt (a : Scalar α) : LawfulAt a := by
  induction a using induction_parts with
  | h a ha =>
    have hcomm {b : Scalar α} : a.eqv b = true ↔ b.eqv a = true := by
      constructor <;> intro h
      · rcases matches_of_eqv h with rfl | h
        · exact eqv_refl a
        · exact eqv_of_matches (h.symm fun x hx _ _ => (ha x hx).comm.1) (.inr ha)
      · rcases matches_of_eqv h with rfl | h
        · exact eqv_refl b
        · exact eqv_of_matches (h.symm fun _ _ y hy => (ha y hy).comm.2) (.inl ha)
    refine ⟨hcomm, ?_⟩
    intro b c hab hbc
    rcases matches_of_eqv hab with rfl | hmab
    · exact hbc
    rcases matches_of_eqv hbc with rfl | hmbc
    · exact hab
    exact eqv_of_matches (hmab.trans ha hmbc) (.inl ha)

/-- Structural equality is an equivalence that digests respect. Nodes that match in equal parts are
equal; nodes of different kinds, random nodes of different origins and live nodes on different
sources or coordinates are not. -/
structure LawfulEquality (α : Type) [Element α] : Prop where
  refl (a : Scalar α) : a.eqv a = true
  symm {a b : Scalar α} : a.eqv b = true → b.eqv a = true
  trans {a b c : Scalar α} : a.eqv b = true → b.eqv c = true → a.eqv c = true
  digest {a b : Scalar α} : a.eqv b = true → a.digest = b.digest
  congr {a b : Scalar α} : Matches (eqv · ·) a b → a.eqv b = true
  kinds {a b : Scalar α} : a.kind ≠ b.kind → a.eqv b = false
  randoms {o o' : Origin} : o ≠ o' → (random o : Scalar α).eqv (random o') = false
  lives {o o' : Origin} {i j : SourceId} {label label' : String} {k l : Nat} :
    i ≠ j ∨ k ≠ l → (live o i label k : Scalar α).eqv (live o' j label' l) = false

omit [Element.Lawful α] in
theorem Matches.kind_eq {R : Scalar α → Scalar α → Prop} {a b : Scalar α} (h : Matches R a b) :
    a.kind = b.kind := by cases h <;> rfl

theorem lawfulEquality : LawfulEquality α where
  refl := eqv_refl
  symm h := (lawfulAt _).comm.1 h
  trans h h' := (lawfulAt _).trans h h'
  digest := digest_eq_of_eqv
  congr h := eqv_of_matches h (.inl fun x _ => lawfulAt x)
  kinds {a b} hne := by
    refine Bool.eq_false_iff.2 fun h => ?_
    rcases matches_of_eqv h with rfl | h
    · exact hne rfl
    · exact hne h.kind_eq
  randoms hne := by
    refine Bool.eq_false_iff.2 fun h => ?_
    rcases matches_of_eqv h with he | h
    · cases he; exact hne rfl
    · cases h; exact hne rfl
  lives hne := by
    refine Bool.eq_false_iff.2 fun h => ?_
    rcases matches_of_eqv h with he | h
    · cases he; simp at hne
    · cases h; simp at hne

/-- The laws hold over machine words and over binary64 numbers, NaN and both zeros included. -/
theorem equality_lawful : LawfulEquality UInt64 ∧ LawfulEquality Binary64 :=
  ⟨lawfulEquality, lawfulEquality⟩

end Scalar
end PlaneGeometry
