import PlaneGeometry.Bag
import Mathlib.Data.Multiset.AddSub
import Mathlib.Data.Multiset.MapFold

/-!
# Greedy matching of bags

Each member takes out the first equal one of the pool. Where equality behaves as an equivalence on
the members, an earlier choice never spoils a later one: the partner that was taken away leaves
behind an equal one. Main statement: the comparison succeeds exactly if the members can be paired.
-/
namespace PlaneGeometry.Bag

variable {α : Type} {key : α → UInt64}

private theorem take_eq_some {k : UInt64} {test : α → Bool} {pool rest : List α}
    (h : take key k test pool = some rest) : rest.Sublist pool ∧
      ∃ y, test y = true ∧ (pool : Multiset α) = y ::ₘ rest := by
  induction pool generalizing rest with
  | nil => cases h
  | cons z pool ih =>
    -- The head stays in the pool unless it has the key and passes the test.
    have later (h : (take key k test pool).map (z :: ·) = some rest) :
        rest.Sublist (z :: pool) ∧ ∃ y, test y = true ∧ ((z :: pool : List α) : Multiset α) =
          y ::ₘ rest := by
      obtain ⟨rest', hrest, rfl⟩ := Option.map_eq_some_iff.1 h
      obtain ⟨hsub, y, hy, hpool⟩ := ih hrest
      refine ⟨hsub.cons_cons z, y, hy, ?_⟩
      rw [← Multiset.cons_coe, ← Multiset.cons_coe, hpool, Multiset.cons_swap]
    rw [take] at h
    split at h
    · exact later h
    split at h
    · split at h
      · next hz =>
        cases h
        exact ⟨List.sublist_cons_self z pool, z, hz, rfl⟩
      · exact later h
    · cases h

private theorem take_eq_none {k : UInt64} {test : α → Bool} {pool : List α}
    (hsorted : pool.Pairwise fun x y => key x ≤ key y) (h : take key k test pool = none) {y : α}
    (hy : y ∈ pool) (hk : key y = k) : test y = false := by
  induction pool with
  | nil => cases hy
  | cons z pool ih =>
    obtain ⟨hz, hpool⟩ := List.pairwise_cons.1 hsorted
    rw [take] at h
    rcases List.mem_cons.1 hy with rfl | hy
    · rw [if_neg (by simp [hk]), if_pos hk] at h
      split at h
      · cases h
      · next hty => exact Bool.eq_false_iff.2 hty
    · split at h
      · exact ih hpool (Option.map_eq_none_iff.1 h) hy
      split at h
      · split at h
        · cases h
        · exact ih hpool (Option.map_eq_none_iff.1 h) hy
      · -- The run is over, so the key of `y` lies above `k`.
        next hlt hne =>
        have hzy := hz y hy
        rw [hk] at hzy
        exact absurd (UInt64.le_antisymm hzy (UInt64.not_lt.1 hlt)) hne

/-- A list sorted by key. Members that share a key are left in any order. -/
structure Arranged (key : α → UInt64) (ys pool : List α) : Prop where
  perm : pool.Perm ys
  pairwise : pool.Pairwise fun x y => key x ≤ key y

theorem arranged_sorted (ys : List α) : Arranged key ys (sorted key ys) where
  perm := List.mergeSort_perm ys _
  pairwise := by
    have h := @List.pairwise_mergeSort α (fun x y => decide (key x ≤ key y))
      (by simpa using fun a b c => UInt64.le_trans (a := key a) (b := key b) (c := key c))
      (by simpa using fun a b => UInt64.le_total (key a) (key b)) ys
    simpa [sorted] using h

theorem map_perm_of_rel {β : Type} {f : α → β} {xs ys : List α}
    (h : Multiset.Rel (fun x y => f x = f y) (xs : Multiset α) (ys : Multiset α)) :
    (xs.map f).Perm (ys.map f) :=
  Multiset.coe_eq_coe.1 (Multiset.rel_eq.1 (Multiset.rel_map.2 h))

section

variable {R : α → α → Bool}

private theorem rel_of_matchAll {xs pool : List α} (h : matchAll key R xs pool = true) :
    ∃ ys rest : Multiset α, Multiset.Rel (R · ·) xs ys ∧ (pool : Multiset α) = ys + rest := by
  induction xs generalizing pool with
  | nil => exact ⟨0, pool, .zero, (Multiset.zero_add _).symm⟩
  | cons x xs ih =>
    rw [matchAll] at h
    split at h
    · cases h
    · next pool' htake =>
      obtain ⟨-, y, hy, hpool⟩ := take_eq_some htake
      obtain ⟨ys, rest, hys, hrest⟩ := ih h
      refine ⟨y ::ₘ ys, rest, ?_, ?_⟩
      · rw [← Multiset.cons_coe]
        exact .cons hy hys
      · rw [hpool, hrest, Multiset.cons_add]

private theorem rel_of_arranged {xs ys pool : List α} (hpool : Arranged key ys pool)
    (h : (xs.length == ys.length && matchAll key R xs pool) = true) :
    Multiset.Rel (R · ·) (xs : Multiset α) (ys : Multiset α) := by
  rw [Bool.and_eq_true, beq_iff_eq] at h
  obtain ⟨hlength, hmatch⟩ := h
  obtain ⟨zs, rest, hzs, hrest⟩ := rel_of_matchAll hmatch
  rw [Multiset.coe_eq_coe.2 hpool.perm] at hrest
  -- As many members are matched as the pool has, so nothing of it is left.
  have hcard : Multiset.card (ys : Multiset α) = Multiset.card zs := by
    rw [← Multiset.card_eq_card_of_rel hzs]
    exact hlength.symm
  rw [hrest, Multiset.card_add] at hcard
  obtain rfl : rest = 0 := Multiset.card_eq_zero.1 (by omega)
  rwa [hrest, Multiset.add_zero]

theorem rel_of_eqv {xs ys : List α} (h : eqv key R xs ys = true) :
    Multiset.Rel (R · ·) (xs : Multiset α) (ys : Multiset α) :=
  rel_of_arranged (arranged_sorted ys) h

/-- Equal members share a key. Of two members equal to one in the pool, each is equal to whatever
in the pool the other is equal to. -/
structure Exchanging (key : α → UInt64) (R : α → α → Bool) (xs pool : List α) : Prop where
  key {x y : α} : x ∈ xs → y ∈ pool → R x y = true → key x = key y
  swap {x x' y y' : α} : x ∈ xs → x' ∈ xs → y ∈ pool → y' ∈ pool → R x y = true →
    R x' y = true → R x y' = true → R x' y' = true

theorem Exchanging.mono {xs xs' pool pool' : List α} (h : Exchanging key R xs pool)
    (hxs : xs' ⊆ xs) (hpool : pool' ⊆ pool) : Exchanging key R xs' pool' where
  key hx hy := h.key (hxs hx) (hpool hy)
  swap hx hx' hy hy' := h.swap (hxs hx) (hxs hx') (hpool hy) (hpool hy')

private theorem mem_of_coe_eq_cons {x : α} {xs : List α} {s : Multiset α}
    (h : (xs : Multiset α) = x ::ₘ s) : x ∈ xs := by
  rw [← Multiset.mem_coe, h]
  exact Multiset.mem_cons_self x s

private theorem matchAll_of_rel {xs pool : List α} (hfits : Exchanging key R xs pool)
    (hsorted : pool.Pairwise fun x y => key x ≤ key y)
    (h : Multiset.Rel (R · ·) (xs : Multiset α) (pool : Multiset α)) :
    matchAll key R xs pool = true := by
  induction xs generalizing pool with
  | nil => rfl
  | cons x xs ih =>
    rw [← Multiset.cons_coe] at h
    obtain ⟨y', ys, hxy', hys, hpool⟩ := Multiset.rel_cons_left.1 h
    have hx := List.mem_cons_self (a := x) (l := xs)
    have hy' : y' ∈ pool := mem_of_coe_eq_cons hpool
    rw [matchAll]
    cases htake : take key (key x) (R x) pool with
    | none =>
      have hnot := take_eq_none hsorted htake hy' (hfits.key hx hy' hxy').symm
      simp [hxy'] at hnot
    | some pool' =>
      obtain ⟨hsub, y, hxy, hpool'⟩ := take_eq_some htake
      refine ih (hfits.mono (List.subset_cons_self x xs) hsub.subset) (hsorted.sublist hsub) ?_
      rcases Multiset.cons_eq_cons.1 (hpool.symm.trans hpool') with
        ⟨-, he⟩ | ⟨-, zs, rfl, hzs⟩
      · rwa [← he]
      · -- The partner of some `x'` has been taken, so `x'` gets the one meant for `x`.
        obtain ⟨x', xs', hx'y, hxs', he⟩ := Multiset.rel_cons_right.1 hys
        have hx' : x' ∈ x :: xs := List.mem_cons_of_mem x (mem_of_coe_eq_cons he)
        have hx'y' := hfits.swap hx hx' (mem_of_coe_eq_cons hpool') hy' hxy hx'y hxy'
        rw [he, hzs]
        exact .cons hx'y' hxs'

/-- In whichever way the pool has been sorted, all members are matched exactly if they can be
paired. -/
theorem matched_iff_rel {xs ys pool : List α} (hfits : Exchanging key R xs ys)
    (hpool : Arranged key ys pool) : (xs.length == ys.length && matchAll key R xs pool) = true ↔
      Multiset.Rel (R · ·) (xs : Multiset α) (ys : Multiset α) := by
  refine ⟨rel_of_arranged hpool, fun h => ?_⟩
  have hsorted : Exchanging key R xs pool :=
    hfits.mono (List.Subset.refl xs) fun y hy => hpool.perm.subset hy
  rw [Bool.and_eq_true, beq_iff_eq]
  refine ⟨Multiset.card_eq_card_of_rel h, matchAll_of_rel hsorted hpool.pairwise ?_⟩
  rwa [Multiset.coe_eq_coe.2 hpool.perm]

/-- Lists are equal as bags exactly if their members can be paired so that partners are equal. -/
theorem eqv_iff_rel {xs ys : List α} (hfits : Exchanging key R xs ys) :
    eqv key R xs ys = true ↔ Multiset.Rel (R · ·) (xs : Multiset α) (ys : Multiset α) :=
  matched_iff_rel hfits (arranged_sorted ys)

end
end PlaneGeometry.Bag
