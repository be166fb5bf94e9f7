import PlaneGeometry.Proofs.Pairings
import PlaneGeometry.Proofs.ShapeChecks

/-!
# Transposes of products

The product of two matrices, transposed, and the product of the transposes in the opposite order
have the same entries but for the order of factors. Structural equality does not see this order, and
compares the factors themselves by the identity of their nodes, so it does not matter what they
hold.
-/
namespace PlaneGeometry

variable {α : Type} [Element α]

private theorem Bag.rel_of_forall₂ {β γ : Type} {Q : β → γ → Prop} {xs : List β} {ys : List γ}
    (h : List.Forall₂ Q xs ys) : Multiset.Rel Q (xs : Multiset β) (ys : Multiset γ) := by
  induction h with
  | nil => exact .zero
  | cons hxy _ ih => exact .cons hxy ih

section

variable [Element.Lawful α] (o o' : Origin)

private theorem Scalar.times_eqv_times (a b : Scalar α) :
    (times o a b).eqv (times o' b a) = true := by
  have hperm : (([a, b] : List (Scalar α)) : Multiset (Scalar α)) = ([b, a] : List (Scalar α)) :=
    Multiset.coe_eq_coe.2 (.swap b a [])
  apply lawfulEquality.congr
  apply Matches.product
  rw [hperm]
  exact Multiset.rel_refl_of_refl_on fun x _ => lawfulEquality.refl x

private theorem Scalar.sum_eqv_sum {xs ys : List (Scalar α)} (h : List.Forall₂ (eqv · ·) xs ys) :
    (sum o xs).eqv (sum o' ys) = true :=
  lawfulEquality.congr (.sum (Bag.rel_of_forall₂ h))

/-- The dot product does not depend on the order of the vectors. -/
theorem Vect.dotSum_eqv_dotSum (v w : Vect α) : (dotSum o v w).eqv (dotSum o' w v) = true := by
  apply Scalar.sum_eqv_sum
  refine List.forall₂_iff_get.2 ⟨by simp [Nat.min_comm], fun i hv hw => ?_⟩
  simpa using Scalar.times_eqv_times _ _ _ _

end

namespace Mat

variable {m n mn : Mat α}

private theorem lineAt_transpose (m : Mat α) {j : Nat} (hj : j < m.transpose.lines)
    (hj' : j < m.columns) : m.transpose.lineAt j hj = m.columnAt j hj' :=
  ofFn_eq_ofFn m.columns_transpose fun _ _ hi => m.entry_transpose hi hj'

private theorem columnAt_transpose (m : Mat α) {i : Nat} (hi : i < m.transpose.columns)
    (hi' : i < m.lines) : m.transpose.columnAt i hi = m.lineAt i hi' :=
  ofFn_eq_ofFn m.lines_transpose fun _ _ hj => m.entry_transpose hi' hj

/-- The transposes can be multiplied in the opposite order just if the matrices can be multiplied,
whatever views the matrices are and whatever their entries are. Then both products need room for as
many entries. If a list can hold so many, the one product is the other transposed, and if not, both
panic. -/
theorem compose_transposes [Element.Lawful α] (m n : Mat α) (o o' : Origin) :
    (m.columns = n.lines →
      (m.lines * n.columns < capacity → ∃ mn nm, compose o m n = .ok mn ∧
        compose o' n.transpose m.transpose = .ok nm ∧ mn.transpose.eqv nm = true) ∧
      (capacity ≤ m.lines * n.columns → compose o m n = .error .overflow ∧
        compose o' n.transpose m.transpose = .error .overflow)) ∧
    (m.columns ≠ n.lines → Declined (compose o m n) ∧
      Declined (compose o' n.transpose m.transpose)) := by
  have hfits : n.transpose.columns = m.transpose.lines ↔ m.columns = n.lines := by
    rw [columns_transpose, lines_transpose, eq_comm]
  have hsize : n.transpose.lines * m.transpose.columns = m.lines * n.columns := by
    rw [lines_transpose, columns_transpose, Nat.mul_comm]
  constructor
  · intro h
    have hmn := allocates_compose o h
    have hnm := allocates_compose o' (hfits.2 h)
    rw [hsize] at hnm
    refine ⟨fun hn => ?_, fun hn => ⟨hmn.overflow hn, hnm.overflow hn⟩⟩
    obtain ⟨mn, hmn, hfits, rfl⟩ := hmn.ok hn
    obtain ⟨nm, hnm, hfits', rfl⟩ := hnm.ok hn
    refine ⟨_, _, hmn, hnm, eqv_iff.2 ⟨?_, fun j i _ _ (hj' : j < n.transpose.lines)
      (hi' : i < m.transpose.columns) => ?_⟩⟩
    · exact Prod.ext n.lines_transpose m.columns_transpose
    · have hj : j < n.columns := n.lines_transpose ▸ hj'
      have hi : i < m.lines := m.columns_transpose ▸ hi'
      rw [entry_transpose (tabulate hfits _) hi hj, entry_tabulate hfits _ hi hj,
        entry_tabulate hfits' _ hj' hi', lineAt_transpose n _ hj, columnAt_transpose m _ hi]
      exact Vect.dotSum_eqv_dotSum _ _ _ _
  · intro h
    exact ⟨(shapesChecked α).compose o h, (shapesChecked α).compose o' (mt hfits.1 h)⟩

end Mat

namespace Specimen

def nan : Binary64 := ⟨0x7FF8000000000000⟩

/-- A transposed view whose entries are not a number, a draw and an error. -/
def assorted : Mat Binary64 :=
  Mat.transpose <| Mat.tabulate (l := 1) (c := 3) (by decide) fun _ j _ _ =>
    match j with
    | 0 => .leaf ⟨1, []⟩ nan
    | 1 => .random ⟨2, []⟩
    | _ => .throwing ⟨3, []⟩ .noSlope

def nanPair : Mat Binary64 :=
  Mat.tabulate (l := 1) (c := 2) (by decide) fun _ j _ _ => .leaf ⟨4, [j]⟩ nan

/-- Leaves that are not numbers are equal as nodes only, and this is enough. Another product of the
two is refused. -/
theorem compose_transposes_assorted :
    (∃ mn nm, Mat.compose ⟨5, []⟩ assorted nanPair = .ok mn ∧
      Mat.compose ⟨6, []⟩ nanPair.transpose assorted.transpose = .ok nm ∧
        mn.transpose.eqv nm = true) ∧
      Declined (Mat.compose ⟨5, []⟩ nanPair assorted) ∧
        (Scalar.leaf ⟨1, []⟩ nan).eqv (.leaf ⟨4, []⟩ nan) = false := by
  refine ⟨((Mat.compose_transposes assorted nanPair ⟨5, []⟩ ⟨6, []⟩).1 rfl).1 (by decide),
    ((Mat.compose_transposes nanPair assorted ⟨5, []⟩ ⟨6, []⟩).2 (by decide)).1, ?_⟩
  refine Bool.eq_false_iff.2 fun h => ?_
  rcases Scalar.matches_of_eqv h with h | h
  · cases h
  · cases h with
    | leaf h => exact absurd h (by decide)

/-- Lines without columns, and columns without lines. -/
def columnless : Mat UInt64 := ⟨#[], 4294967296, 0, false, rfl, by decide⟩
def lineless : Mat UInt64 := ⟨#[], 0, 4294967296, false, rfl, by decide⟩

/-- Both can be built, and the one has as many columns as the other has lines. The number of entries
of their product is no word. -/
theorem not_composed_columnless :
    Mat.ofValues ⟨7, []⟩ 4294967296 0 [] = .ok columnless ∧
      Mat.ofValues ⟨8, []⟩ 0 4294967296 [] = .ok lineless ∧
        columnless.columns = lineless.lines ∧
          Mat.compose ⟨9, []⟩ columnless lineless = .error .overflow ∧
            Mat.compose ⟨10, []⟩ lineless.transpose columnless.transpose = .error .overflow := by
  refine ⟨rfl, rfl, rfl, ?_, ?_⟩
  · exact (Mat.allocates_compose _ rfl).overflow (by decide)
  · exact (Mat.allocates_compose _ rfl).overflow (by decide)

end Specimen
end PlaneGeometry
