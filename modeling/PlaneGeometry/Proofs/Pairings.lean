import PlaneGeometry.Proofs.Equality
import Mathlib.Data.List.FinRange
import Mathlib.Data.List.NodupEquivFin
import Mathlib.Data.Multiset.Count

/-!
# Bags and multisets

The comparison of bags is equality of multisets up to the given equivalence: a permutation of the
positions takes every member to an equal one, and every member occurs as often in one list as in the
other. Keys do not matter for the answer, however many members share one, nor does the way in which
these are sorted.
-/
namespace PlaneGeometry

namespace Bag

variable {α β : Type} {key : α → UInt64} {R : α → α → Bool} {P : α → Prop}

private theorem exists_forall₂_of_rel {Q : α → β → Prop} {xs : List α} {ys : List β}
    (h : Multiset.Rel Q (xs : Multiset α) (ys : Multiset β)) :
    ∃ zs, List.Forall₂ Q xs zs ∧ zs.Perm ys := by
  induction xs generalizing ys with
  | nil =>
    rw [Multiset.coe_nil, Multiset.rel_zero_left, Multiset.coe_eq_zero] at h
    exact ⟨[], .nil, h ▸ .nil⟩
  | cons x xs ih =>
    rw [← Multiset.cons_coe, Multiset.rel_cons_left] at h
    obtain ⟨y, ys', hxy, hxs, hys⟩ := h
    obtain ⟨ys', rfl⟩ := Quot.exists_rep ys'
    obtain ⟨zs, hzs, hperm⟩ := ih hxs
    exact ⟨y :: zs, .cons hxy hzs, (hperm.cons y).trans (Multiset.coe_eq_coe.1 hys).symm⟩

private theorem rel_finRange_iff {n : Nat} {Q : Fin n → Fin n → Prop} :
    Multiset.Rel Q (List.finRange n : Multiset (Fin n)) (List.finRange n : Multiset (Fin n)) ↔
      ∃ s : Equiv.Perm (Fin n), ∀ i, Q i (s i) := by
  constructor
  · intro h
    obtain ⟨zs, hzs, hperm⟩ := exists_forall₂_of_rel h
    have hlength : n = zs.length := by rw [hperm.length_eq, List.length_finRange]
    have hnodup : zs.Nodup := hperm.nodup_iff.2 (List.nodup_finRange n)
    have hall (i : Fin n) : i ∈ zs := hperm.mem_iff.2 (List.mem_finRange i)
    refine ⟨(finCongr hlength).trans (hnodup.getEquivOfForallMemList zs hall), fun i => ?_⟩
    have hi := hzs.get (i := i) (by simp) (i.isLt.trans_eq hlength)
    rwa [List.get_finRange] at hi
  · rintro ⟨s, hs⟩
    have hperm : ((List.finRange n : List (Fin n)) : Multiset (Fin n)) =
        Multiset.map s (List.finRange n) :=
      (Multiset.coe_eq_coe.2 (s.map_finRange_perm)).symm
    rw [hperm, Multiset.rel_map_right, ← hperm]
    exact Multiset.rel_refl_of_refl_on fun i _ => hs i

private theorem rel_iff_exists_perm {xs ys : List α} :
    Multiset.Rel (R · ·) (xs : Multiset α) (ys : Multiset α) ↔
      ∃ (h : xs.length = ys.length) (s : Equiv.Perm (Fin xs.length)),
        ∀ i, R (xs.get i) (ys.get ((s i).cast h)) = true := by
  have hiff (h : xs.length = ys.length) :
      Multiset.Rel (R · ·) (xs : Multiset α) (ys : Multiset α) ↔
        ∃ s : Equiv.Perm (Fin xs.length), ∀ i, R (xs.get i) (ys.get ((s i).cast h)) = true := by
    have hxs : xs = (List.finRange xs.length).map xs.get := by
      rw [← List.ofFn_eq_map, List.ofFn_get]
    have hys : ys = (List.finRange xs.length).map fun i => ys.get (i.cast h) := by
      rw [← List.ofFn_eq_map, ← List.ofFn_congr h.symm, List.ofFn_get]
    conv_lhs => rw [hxs, hys]
    rw [← Multiset.map_coe, ← Multiset.map_coe, Multiset.rel_map]
    exact rel_finRange_iff
  constructor
  · intro h
    exact ⟨Multiset.card_eq_card_of_rel h, (hiff _).1 h⟩
  · rintro ⟨h, hs⟩
    exact (hiff h).2 hs

/-- On the members of `P` the test is an equivalence, and equal members share a key. Members that
are not equal may share one, too. -/
structure Equating (key : α → UInt64) (R : α → α → Bool) (P : α → Prop) : Prop where
  refl {x : α} : P x → R x x = true
  symm {x y : α} : P x → P y → R x y = true → R y x = true
  trans {x y z : α} : P x → P y → P z → R x y = true → R y z = true → R x z = true
  key {x y : α} : P x → P y → R x y = true → key x = key y

namespace Equating

variable (h : Equating key R P)

include h

private theorem exchanging {xs ys : List α} (hx : ∀ x ∈ xs, P x) (hy : ∀ y ∈ ys, P y) :
    Exchanging key R xs ys where
  key hxs hys := h.key (hx _ hxs) (hy _ hys)
  swap {x x' y y'} hxs hxs' hys hys' hxy hx'y hxy' := by
    have hyx : R y x = true := h.symm (hx x hxs) (hy y hys) hxy
    have hx'x : R x' x = true := h.trans (hx x' hxs') (hy y hys) (hx x hxs) hx'y hyx
    exact h.trans (hx x' hxs') (hx x hxs) (hy y' hys') hx'x hxy'

theorem congr {x y z : α} (hx : P x) (hy : P y) (hz : P z) (hxy : R x y = true) :
    R z x = true ↔ R z y = true :=
  ⟨fun hzx => h.trans hz hx hy hzx hxy, fun hzy => h.trans hz hy hx hzy (h.symm hx hy hxy)⟩

private theorem countP_eq_of_rel {s t : Multiset α} (hst : Multiset.Rel (R · ·) s t)
    (hs : ∀ x ∈ s, P x) (ht : ∀ y ∈ t, P y) {z : α} (hz : P z) :
    s.countP (R z · = true) = t.countP (R z · = true) := by
  induction hst with
  | zero => rfl
  | @cons x y s t hxy _ ih =>
    rw [Multiset.forall_mem_cons] at hs ht
    rw [Multiset.countP_cons, Multiset.countP_cons, ih hs.2 ht.2]
    simp only [h.congr hs.1 ht.1 hz hxy]

/-- Members that are counted alike can be paired. Each finds a partner because it counts itself. -/
theorem rel_of_countP_eq {s t : Multiset α} (hs : ∀ x ∈ s, P x) (ht : ∀ y ∈ t, P y)
    (hcount : ∀ z, P z → s.countP (R z · = true) = t.countP (R z · = true)) :
    Multiset.Rel (R · ·) s t := by
  induction s using Multiset.induction_on generalizing t with
  | empty =>
    refine Multiset.rel_zero_left.2 (Multiset.eq_zero_of_forall_notMem fun y hy => ?_)
    have hnone := hcount y (ht y hy)
    rw [Multiset.countP_zero, eq_comm, Multiset.countP_eq_zero] at hnone
    exact hnone y hy (h.refl (ht y hy))
  | cons x s ih =>
    rw [Multiset.forall_mem_cons] at hs
    have hpos : 0 < t.countP (R x · = true) := by
      rw [← hcount x hs.1]
      exact Multiset.countP_pos_of_mem (Multiset.mem_cons_self x s) (h.refl hs.1)
    obtain ⟨y, hy, hxy⟩ := Multiset.countP_pos.1 hpos
    obtain ⟨t, rfl⟩ := Multiset.exists_cons_of_mem hy
    rw [Multiset.forall_mem_cons] at ht
    refine .cons hxy (ih hs.2 ht.2 fun z hz => ?_)
    have hz' := hcount z hz
    simp only [Multiset.countP_cons, h.congr hs.1 ht.1 hz hxy] at hz'
    exact Nat.add_right_cancel hz'

end Equating

/-- The comparison of lists of members of `P` is equality of multisets. -/
structure ComparesMultisets (key : α → UInt64) (R : α → α → Bool) (P : α → Prop) : Prop where
  arranged {xs ys pool : List α} : (∀ x ∈ xs, P x) → (∀ y ∈ ys, P y) → Arranged key ys pool →
    (xs.length == ys.length && matchAll key R xs pool) = eqv key R xs ys
  paired {xs ys : List α} : (∀ x ∈ xs, P x) → (∀ y ∈ ys, P y) →
    (eqv key R xs ys = true ↔
      ∃ (h : xs.length = ys.length) (s : Equiv.Perm (Fin xs.length)),
        ∀ i, R (xs.get i) (ys.get ((s i).cast h)) = true)
  permuted {xs xs' ys ys' : List α} : (∀ x ∈ xs, P x) → (∀ y ∈ ys, P y) → xs.Perm xs' →
    ys.Perm ys' → eqv key R xs' ys' = eqv key R xs ys
  counted {xs ys : List α} : (∀ x ∈ xs, P x) → (∀ y ∈ ys, P y) →
    (eqv key R xs ys = true ↔ ∀ z, P z → xs.countP (R z) = ys.countP (R z))
  recounted {xs ys ys' : List α} {z : α} : (∀ x ∈ xs, P x) → (∀ y ∈ ys, P y) →
    (∀ y ∈ ys', P y) → eqv key R xs ys = true → P z → ys'.countP (R z) ≠ ys.countP (R z) →
      eqv key R xs ys' = false ∧ eqv key R ys' xs = false

/-- Where the test is an equivalence and equal members share a key, the comparison of bags is
equality of multisets. -/
theorem comparesMultisets_of_equating (h : Equating key R P) : ComparesMultisets key R P := by
  have hrel {xs ys : List α} (hx : ∀ x ∈ xs, P x) (hy : ∀ y ∈ ys, P y) :
      eqv key R xs ys = true ↔ Multiset.Rel (R · ·) (xs : Multiset α) (ys : Multiset α) :=
    eqv_iff_rel (h.exchanging hx hy)
  have hcounted {xs ys : List α} (hx : ∀ x ∈ xs, P x) (hy : ∀ y ∈ ys, P y) :
      eqv key R xs ys = true ↔ ∀ z, P z → xs.countP (R z) = ys.countP (R z) := by
    have hcoe (z : α) (zs : List α) :
        (zs : Multiset α).countP (R z · = true) = zs.countP (R z) := by
      simp [Multiset.coe_countP]
    rw [hrel hx hy]
    constructor
    · intro hxy z hz
      rw [← hcoe, ← hcoe]
      exact h.countP_eq_of_rel hxy hx hy hz
    · intro hcount
      refine h.rel_of_countP_eq hx hy fun z hz => ?_
      rw [hcoe, hcoe]
      exact hcount z hz
  constructor
  case arranged =>
    intro xs ys pool hx hy hpool
    rw [Bool.eq_iff_iff, hrel hx hy]
    exact matched_iff_rel (h.exchanging hx hy) hpool
  case paired =>
    intro xs ys hx hy
    rw [hrel hx hy, rel_iff_exists_perm]
  case permuted =>
    intro xs xs' ys ys' hx hy hxs hys
    have hx' : ∀ x ∈ xs', P x := fun x hx' => hx x (hxs.mem_iff.2 hx')
    have hy' : ∀ y ∈ ys', P y := fun y hy' => hy y (hys.mem_iff.2 hy')
    rw [Bool.eq_iff_iff, hrel hx hy, hrel hx' hy', Multiset.coe_eq_coe.2 hxs,
      Multiset.coe_eq_coe.2 hys]
  case counted =>
    intro xs ys hx hy
    exact hcounted hx hy
  case recounted =>
    intro xs ys ys' z hx hy hy' hxy hz hne
    have hcount := (hcounted hx hy).1 hxy z hz
    constructor <;> refine Bool.eq_false_iff.2 fun hxy' => hne ?_
    · exact ((hcounted hx hy').1 hxy' z hz).symm.trans hcount
    · exact ((hcounted hy' hx).1 hxy' z hz).trans hcount

end Bag

namespace Scalar

variable {α : Type} [Element α] [Element.Lawful α]

private theorem equating : Bag.Equating (fun a : Scalar α => a.digest) eqv fun _ => True where
  refl _ := lawfulEquality.refl _
  symm _ _ := lawfulEquality.symm
  trans _ _ _ := lawfulEquality.trans
  key _ _ := lawfulEquality.digest

private theorem bag_eqv_iff {xs ys : List (Scalar α)} :
    Bag.eqv (fun a => a.digest) eqv xs ys = true ↔
    Multiset.Rel (eqv · ·) (xs : Multiset (Scalar α)) (ys : Multiset (Scalar α)) :=
  Bag.eqv_iff_rel (equating.exchanging (fun _ _ => trivial) fun _ _ => trivial)

/-- Sums and products are equal just if their operands are equal as bags. -/
theorem operands_eqv (o o' : Origin) (xs ys : List (Scalar α)) :
    (sum o xs).eqv (sum o' ys) = Bag.eqv (fun a => a.digest) eqv xs ys ∧
      (product o xs).eqv (product o' ys) = Bag.eqv (fun a => a.digest) eqv xs ys := by
  have hself : Multiset.Rel (eqv · ·) (xs : Multiset (Scalar α)) (xs : Multiset (Scalar α)) :=
    Multiset.rel_refl_of_refl_on fun x _ => lawfulEquality.refl x
  constructor <;> rw [Bool.eq_iff_iff, bag_eqv_iff]
  · refine ⟨fun h => ?_, fun h => lawfulEquality.congr (.sum h)⟩
    rcases matches_of_eqv h with h | h
    · cases h
      exact hself
    · cases h with
      | sum h => exact h
  · refine ⟨fun h => ?_, fun h => lawfulEquality.congr (.product h)⟩
    rcases matches_of_eqv h with h | h
    · cases h
      exact hself
    · cases h with
      | product h => exact h

end Scalar

namespace Specimen

/-- Equal scalars of different origins, and another one. -/
def leafOne : Scalar UInt64 := .leaf ⟨1, []⟩ 1
def otherLeafOne : Scalar UInt64 := .leaf ⟨2, []⟩ 1
def leafTwo : Scalar UInt64 := .leaf ⟨3, []⟩ 2

private theorem leafOne_eqv_otherLeafOne : leafOne.eqv otherLeafOne = true :=
  Scalar.lawfulEquality.congr (.leaf rfl)

private theorem leafOne_not_eqv_leafTwo : leafOne.eqv leafTwo = false := by
  refine Bool.eq_false_iff.2 fun h => ?_
  rcases Scalar.matches_of_eqv h with h | h
  · cases h
  · cases h with
    | leaf h => exact absurd h (by decide)

/-- All members share a key. They are compared in any order, and one too many of them is noticed. -/
theorem comparesMultisets_leafOne :
    Bag.eqv (fun _ => 0) Scalar.eqv [leafOne, leafTwo, leafOne] [otherLeafOne, leafOne, leafTwo] =
        true ∧
      Bag.eqv (fun _ => 0) Scalar.eqv [leafOne, leafTwo, leafOne] [otherLeafOne, leafTwo, leafTwo] =
        false := by
  have hlaws := Scalar.lawfulEquality (α := UInt64)
  have hequating : Bag.Equating (fun _ => 0) Scalar.eqv fun _ : Scalar UInt64 => True :=
    ⟨fun _ => hlaws.refl _, fun _ _ => hlaws.symm, fun _ _ _ => hlaws.trans, fun _ _ _ => rfl⟩
  have hcompares := Bag.comparesMultisets_of_equating hequating
  have hall (xs : List (Scalar UInt64)) : ∀ x ∈ xs, True := fun _ _ => trivial
  have hpaired : Bag.eqv (fun _ => 0) Scalar.eqv [leafOne, leafTwo, leafOne]
      [otherLeafOne, leafOne, leafTwo] = true := by
    refine (hcompares.paired (hall _) (hall _)).2 ⟨rfl, Equiv.swap 1 2, fun i => ?_⟩
    match i with
    | 0 => exact leafOne_eqv_otherLeafOne
    | 1 => exact hlaws.refl leafTwo
    | 2 => exact hlaws.refl leafOne
  have hcount : [otherLeafOne, leafTwo, leafTwo].countP (Scalar.eqv leafOne) ≠
      [otherLeafOne, leafOne, leafTwo].countP (Scalar.eqv leafOne) := by
    simp [leafOne_eqv_otherLeafOne, leafOne_not_eqv_leafTwo, hlaws.refl]
  exact ⟨hpaired,
    (hcompares.recounted (hall _) (hall _) (hall _) hpaired trivial hcount).1⟩

end Specimen
end PlaneGeometry
