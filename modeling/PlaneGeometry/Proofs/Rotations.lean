import PlaneGeometry.Proofs.Canonical
import PlaneGeometry.Proofs.LinearAlgebra
import PlaneGeometry.Proofs.Relations
import Mathlib.Tactic.FinCases
import Mathlib.Tactic.LinearCombination

/-!
# Rotations

The rotation by a cosine and a sine turns vectors of the plane. Two rotations one after the other
add their angles, and if the squares of the cosine and of the sine add up to one, the transpose
turns back and products of vectors keep their values.
-/
namespace PlaneGeometry

open Matrix

variable {α σ K : Type} [Element α]

section

variable [Field K]

/-- The turn of the plane that takes `(1, 0)` to `(x, y)`. -/
def turn (x y : K) : Matrix (Fin 2) (Fin 2) K := !![x, -y; y, x]

private theorem turn_one : turn (1 : K) 0 = 1 := by
  rw [turn, neg_zero, Matrix.one_fin_two]

private theorem turn_mul (x y x' y' : K) :
    turn x y * turn x' y' = turn (x * x' - y * y') (y * x' + x * y') := by
  simp only [turn, Matrix.mul_fin_two]
  congr 1
  ext i j
  fin_cases i <;> fin_cases j <;> simp <;> ring

private theorem transpose_turn (x y : K) : (turn x y)ᵀ = turn x (-y) := by
  ext i j
  fin_cases i <;> fin_cases j <;> simp [turn]

private theorem turn_mulVec (x y : K) (v : Fin 2 → K) :
    turn x y *ᵥ v = ![x * v 0 - y * v 1, y * v 0 + x * v 1] := by
  ext i
  fin_cases i
  · simp [turn, Matrix.mulVec, dotProduct, Fin.sum_univ_two, sub_eq_add_neg]
  · simp [turn, Matrix.mulVec, dotProduct, Fin.sum_univ_two]

variable {x y : K} (h : x ^ 2 + y ^ 2 = 1)

include h

private theorem turn_mul_transpose : turn x y * (turn x y)ᵀ = 1 := by
  rw [transpose_turn, turn_mul, ← turn_one]
  congr 1
  · linear_combination h
  · ring

private theorem transpose_turn_mul : (turn x y)ᵀ * turn x y = 1 := by
  rw [transpose_turn, turn_mul, ← turn_one]
  congr 1
  · linear_combination h
  · ring

private theorem turn_dotProduct (v v' : Fin 2 → K) :
    (turn x y *ᵥ v) ⬝ᵥ (turn x y *ᵥ v') = v ⬝ᵥ v' := by
  rw [Matrix.dotProduct_mulVec, Matrix.vecMul_mulVec, transpose_turn_mul h, Matrix.vecMul_one]

private theorem turn_cross (v v' : Fin 2 → K) :
    (turn x y *ᵥ v) 0 * (turn x y *ᵥ v') 1 - (turn x y *ᵥ v) 1 * (turn x y *ᵥ v') 0 =
      v 0 * v' 1 - v 1 * v' 0 := by
  simp only [turn_mulVec, Matrix.cons_val_zero, Matrix.cons_val_one]
  linear_combination (v 0 * v' 1 - v 1 * v' 0) * h

end

private theorem Interpretation.hasMatrix_rotation [Field K] {I : Interpretation α σ}
    {V : World α σ → Prop} {φ : α → K} (hF : I.field.Exact φ) (o : Origin) {c s : Scalar α}
    {x y : K} (hc : I.HasValue V φ c x) (hs : I.HasValue V φ s y) :
    I.HasMatrix V φ (Mat.rotation o c s) (turn x y) where
  lines := rfl
  columns := rfl
  entry i j := by
    have hopposite := hF.hasValue_opposite o hs
    fin_cases i <;> fin_cases j
    · exact hc
    · exact hopposite
    · exact hs
    · exact hc

namespace World

variable (F : NumericField α σ) (φ : α → K) (w : World α σ)

/-- Neither scalar is refused, and they have the same value. -/
def SameResult (r r' : Except Error (Scalar α)) : Prop :=
  ∃ a b, r = .ok a ∧ r' = .ok b ∧ w.SameValue F φ a b

/-- Both matrices evaluate, in one shape and entry by entry to values that stand for one member of
`K`. -/
def SameMatrix (m n : Mat α) : Prop :=
  m.shape = n.shape ∧ ∃ rows rows', F.interpretation.matrix m w = (.ok rows, w) ∧
    F.interpretation.matrix n w = (.ok rows', w) ∧
      rows.map (List.map φ) = rows'.map (List.map φ)

variable {F φ w}

private theorem sameResult {r r' : Except Error (Scalar α)} {k : K}
    (h : ∃ a, r = .ok a ∧ F.interpretation.HasValue w.SameSources φ a k)
    (h' : ∃ b, r' = .ok b ∧ F.interpretation.HasValue w.SameSources φ b k) :
    w.SameResult F φ r r' := by
  obtain ⟨a, ha, hk⟩ := h
  obtain ⟨b, hb, hk'⟩ := h'
  exact ⟨a, b, ha, hb, sameValue hk hk'⟩

private theorem sameMatrix {l c : Nat} {m n : Mat α} {A : Matrix (Fin l) (Fin c) K}
    (hm : F.interpretation.HasMatrix w.SameSources φ m A)
    (hn : F.interpretation.HasMatrix w.SameSources φ n A) : w.SameMatrix F φ m n := by
  obtain ⟨rows, hrows, hA⟩ := hm.matrix.apply_some (w := w) rfl
  obtain ⟨rows', hrows', hA'⟩ := hn.matrix.apply_some (w := w) rfl
  exact ⟨hm.shape.trans hn.shape.symm, rows, rows', hrows, hrows', hA.trans hA'.symm⟩

variable [Field K] (hF : F.Exact φ) (o : Nat → Origin) {c s c' s' : Scalar α}

include hF

private theorem compose_rotations (hc : w.Evaluates F c) (hs : w.Evaluates F s)
    (hc' : w.Evaluates F c') (hs' : w.Evaluates F s') :
    ∃ m, Mat.compose (o 0) (.rotation (o 1) c s) (.rotation (o 2) c' s') = .ok m ∧
      w.SameMatrix F φ m (.rotation (o 3) (.diff (o 4) (.times (o 5) c c') (.times (o 6) s s'))
        (.plus (o 7) (.times (o 8) s c') (.times (o 9) c s'))) := by
  have hI : F.interpretation.field.Exact φ := hF
  have hx := hc.hasValue φ
  have hy := hs.hasValue φ
  have hx' := hc'.hasValue φ
  have hy' := hs'.hasValue φ
  obtain ⟨m, hm, hproduct⟩ := (hI.matrixAlgebra.compose (o 0)
    (Interpretation.hasMatrix_rotation hI (o 1) hx hy)
    (Interpretation.hasMatrix_rotation hI (o 2) hx' hy')).ok (by decide)
  have hcosine := hI.hasValue_diff (o 4) (hI.hasValue_times (o 5) hx hx')
    (hI.hasValue_times (o 6) hy hy')
  have hsine := hI.hasValue_plus (o 7) (hI.hasValue_times (o 8) hy hx')
    (hI.hasValue_times (o 9) hx hy')
  rw [turn_mul] at hproduct
  exact ⟨m, hm, sameMatrix hproduct (Interpretation.hasMatrix_rotation hI (o 3) hcosine hsine)⟩

private theorem products_rotated (hc : w.Evaluates F c) (hs : w.Evaluates F s) {u v : Vect α}
    {x y : Fin 2 → K} (hu : F.interpretation.HasVector w.SameSources φ u x)
    (hv : F.interpretation.HasVector w.SameSources φ v y)
    (h : F.interpretation.valueAt φ w c ^ 2 + F.interpretation.valueAt φ w s ^ 2 = 1) :
    ∃ u' v', Mat.apply (o 0) (.rotation (o 1) c s) u = .ok u' ∧
      Mat.apply (o 2) (.rotation (o 3) c s) v = .ok v' ∧
        w.SameResult F φ (Vect.dot (o 4) u' v') (Vect.dot (o 5) u v) ∧
          w.SameResult F φ (Vect.cross (o 6) u' v') (Vect.cross (o 7) u v) ∧
            w.SameValue F φ (Vect.normSquared (o 8) u') (Vect.normSquared (o 9) u) ∧
              w.SameValue F φ (Vect.normSquared (o 10) v') (Vect.normSquared (o 11) v) := by
  have hI : F.interpretation.field.Exact φ := hF
  have hrotation (o : Origin) := Interpretation.hasMatrix_rotation hI o (hc.hasValue φ)
    (hs.hasValue φ)
  have halgebra := hI.vectorAlgebra (V := w.SameSources)
  obtain ⟨u', hu', hx⟩ := (hI.matrixAlgebra.apply (o 0) (hrotation (o 1)) hu).ok (by decide)
  obtain ⟨v', hv', hy⟩ := (hI.matrixAlgebra.apply (o 2) (hrotation (o 3)) hv).ok (by decide)
  have hdot := halgebra.dot (o 4) hx hy
  have hcross := halgebra.cross (o 6) hx hy
  have hnorm := halgebra.normSquared (o 8) hx
  have hnorm' := halgebra.normSquared (o 10) hy
  rw [turn_dotProduct h] at hdot hnorm hnorm'
  rw [turn_cross h] at hcross
  exact ⟨u', v', hu', hv', sameResult hdot (halgebra.dot (o 5) hu hv),
    sameResult hcross (halgebra.cross (o 7) hu hv),
    sameValue hnorm (halgebra.normSquared (o 9) hu),
    sameValue hnorm' (halgebra.normSquared (o 11) hv)⟩

end World

namespace Residues

open Interpretation

/-- The least word of a residue. -/
def word (p : UInt64) (k : ZMod p.toNat) : UInt64 := .ofNat k.val

private theorem Canonical.eq_word {p x : UInt64} {k : ZMod p.toNat} (h : Canonical p x k) :
    x = word p k := by
  rw [word, ← h.residue, Residues.residue, ZMod.val_natCast,
    Nat.mod_eq_of_lt (UInt64.lt_iff_toNat_lt.1 h.lt), UInt64.ofNat_toNat]

/-- Rotations compose by adding angles. Where the squares of the cosine and of the sine add up to
one, composing with the transpose gives the very words of the identity, and products of two rotated
vectors are those of the vectors. -/
structure Rotating (p : UInt64) (F : NumericField UInt64 σ) (w : World UInt64 σ) : Prop where
  compose (o : Nat → Origin) {c s c' s' : Scalar UInt64} :
    (∀ x ∈ [c, s, c', s'], w.Evaluates F x) →
      ∃ m, Mat.compose (o 0) (.rotation (o 1) c s) (.rotation (o 2) c' s') = .ok m ∧
        w.SameMatrix F (residue p) m (.rotation (o 3)
          (.diff (o 4) (.times (o 5) c c') (.times (o 6) s s'))
          (.plus (o 7) (.times (o 8) s c') (.times (o 9) c s')))
  orthogonal (o : Nat → Origin) {c s : Scalar UInt64} : (∀ x ∈ [c, s], w.Evaluates F x) →
    F.interpretation.valueAt (residue p) w c ^ 2 +
      F.interpretation.valueAt (residue p) w s ^ 2 = 1 →
    ∃ m n k, Mat.compose (o 0) (.rotation (o 1) c s) (Mat.rotation (o 2) c s).transpose = .ok m ∧
      Mat.compose (o 3) (Mat.rotation (o 4) c s).transpose (.rotation (o 5) c s) = .ok n ∧
        Mat.identity (o 6) 2 = .ok k ∧
          ∀ q ∈ [m, n, k], F.interpretation.matrix q w = (.ok [[1, 0], [0, 1]], w)
  products (o : Nat → Origin) {c s : Scalar UInt64} {u v : Vect UInt64} :
    (∀ x ∈ c :: s :: u ++ v, w.Evaluates F x) → u.length = 2 → v.length = 2 →
    F.interpretation.valueAt (residue p) w c ^ 2 +
      F.interpretation.valueAt (residue p) w s ^ 2 = 1 →
    ∃ u' v', Mat.apply (o 0) (.rotation (o 1) c s) u = .ok u' ∧
      Mat.apply (o 2) (.rotation (o 3) c s) v = .ok v' ∧
        w.SameResult F (residue p) (Vect.dot (o 4) u' v') (Vect.dot (o 5) u v) ∧
          w.SameResult F (residue p) (Vect.cross (o 6) u' v') (Vect.cross (o 7) u v) ∧
            w.SameValue F (residue p) (Vect.normSquared (o 8) u') (Vect.normSquared (o 9) u) ∧
              w.SameValue F (residue p) (Vect.normSquared (o 10) v') (Vect.normSquared (o 11) v)

section

variable {p : UInt64} [hprime : Fact p.toNat.Prime] (hlt : p.toNat < 2 ^ 32)
  {V : World UInt64 σ → Prop} {I : Interpretation UInt64 σ} (hF : Modular p I.field)

include hlt hF

private theorem hasWord_sum (o : Origin) {a b : Scalar UInt64} {x y : ZMod p.toNat}
    (ha : I.HasValue V (residue p) a x) (hb : I.HasValue V (residue p) b y) :
    I.HasValue V id (.sum o [a, b]) (word p (x + y)) := by
  intro w hw
  obtain ⟨m, hm, rfl⟩ := ha.apply_some hw
  obtain ⟨n, hn, rfl⟩ := hb.apply_some hw
  have htail : I.values [b] w = (.ok [n], w) := Eval.bind_ok hn _
  have hvalues : I.values [a, b] w = (.ok [m, n], w) :=
    (Eval.bind_ok hm _).trans (Eval.bind_ok htail _)
  have hsum : (Scalar.sum o [a, b]).value I w = (.ok (I.field.add m n), w) :=
    Eval.bind_ok hvalues _
  rw [hsum]
  exact ⟨rfl, congrArg some (hF.canonical_add hlt m n).eq_word⟩

private theorem hasWord_dotSum (o : Origin) {v u : Vect UInt64} {x y : Fin 2 → ZMod p.toNat}
    (hv : I.HasVector V (residue p) v x) (hu : I.HasVector V (residue p) u y) :
    I.HasValue V id (Vect.dotSum o v u) (word p (x ⬝ᵥ y)) := by
  have hI : I.field.Exact (residue p) := hF.exact hlt
  obtain ⟨a, b, rfl, ha, hb⟩ := hv.two
  obtain ⟨c, d, rfl, hc, hd⟩ := hu.two
  rw [dotProduct, Fin.sum_univ_two]
  exact hasWord_sum hlt hF o (hI.hasValue_times _ ha hc) (hI.hasValue_times _ hb hd)

private theorem compose_of_mul_eq_one (o : Origin) {m n : Mat UInt64}
    {A B : Matrix (Fin 2) (Fin 2) (ZMod p.toNat)} (hm : I.HasMatrix V (residue p) m A)
    (hn : I.HasMatrix V (residue p) n B) (h : A * B = 1) : ∃ k, Mat.compose o m n = .ok k ∧
      I.HasMatrix V id k (.of fun i j : Fin 2 => if i = j then 1 else 0) := by
  have hfact : Fact (1 < p.toNat) := ⟨hprime.out.one_lt⟩
  obtain ⟨k, hk, hwords⟩ := (NumericField.Exact.hasMatrix_compose o
    (g := fun x y => word p (x ⬝ᵥ y)) (fun o _ _ _ _ => hasWord_dotSum hlt hF o) hm hn).ok
      (by decide)
  have hone : word p 1 = 1 := by rw [word, ZMod.val_one]; rfl
  have hzero : word p 0 = 0 := by rw [word, ZMod.val_zero]; rfl
  have hidentity : (.of fun i j => word p (A.row i ⬝ᵥ B.col j)) =
      Matrix.of fun i j : Fin 2 => if i = j then 1 else 0 := by
    refine Matrix.ext fun i j => ?_
    change word p ((A * B) i j) = if i = j then 1 else 0
    rw [h, Matrix.one_apply, apply_ite (word p), hone, hzero]
  exact ⟨k, hk, hidentity ▸ hwords⟩

omit hlt in
theorem hasWords_identity (o : Origin) : ∃ k, Mat.identity o 2 = .ok k ∧
    I.HasMatrix V id k (.of fun i j : Fin 2 => if i = j then 1 else 0) := by
  have hone : I.field.one = 1 := by
    rw [hF.one]
    exact UInt64.toNat_inj.1 (Nat.mod_eq_of_lt hprime.out.one_lt)
  have hzero : I.field.zero = 0 := hF.zero
  refine (NumericField.Exact.hasMatrix_identity o 2 (fun o => ?_) fun o => ?_).ok (by decide)
  · rw [← hone]
    exact .pure I.field.one
  · rw [← hzero]
    exact .pure I.field.zero

omit hprime hlt hF in
theorem matrix_identity {m : Mat UInt64}
    (hm : I.HasMatrix V id m (.of fun i j : Fin 2 => if i = j then 1 else 0))
    {w : World UInt64 σ} (hw : V w) : I.matrix m w = (.ok [[1, 0], [0, 1]], w) := by
  obtain ⟨rows, hrows, hwords⟩ := hm.matrix.apply_some hw
  rw [List.map_id_fun, List.map_id] at hwords
  rw [hrows, hwords]
  rfl

end

/-- Over a prime field rotations compose by adding angles, their transposes turn back, and they keep
the products of vectors. -/
theorem rotations_orthogonal {p : UInt64} [Fact p.toNat.Prime] (hlt : p.toNat < 2 ^ 32)
    {F : NumericField UInt64 σ} (hF : Modular p F) (w : World UInt64 σ) :
    Rotating p F w := by
  have hexact : F.Exact (residue p) := hF.exact hlt
  constructor
  case compose =>
    intro o c s c' s' hvalues
    simp only [List.forall_mem_cons] at hvalues
    obtain ⟨hc, hs, hc', hs', -⟩ := hvalues
    exact World.compose_rotations hexact o hc hs hc' hs'
  case orthogonal =>
    intro o c s hvalues h
    simp only [List.forall_mem_cons] at hvalues
    obtain ⟨hc, hs, -⟩ := hvalues
    have hrotation (o : Origin) := hasMatrix_rotation (I := F.interpretation) hexact o
      (hc.hasValue (residue p)) (hs.hasValue (residue p))
    obtain ⟨m, hm, hforth⟩ := compose_of_mul_eq_one hlt hF (o 0) (hrotation (o 1))
      (hrotation (o 2)).transpose (turn_mul_transpose h)
    obtain ⟨n, hn, hback⟩ := compose_of_mul_eq_one hlt hF (o 3) (hrotation (o 4)).transpose
      (hrotation (o 5)) (transpose_turn_mul h)
    obtain ⟨k, hk, hidentity⟩ :=
      hasWords_identity (I := F.interpretation) (V := w.SameSources) hF (o 6)
    refine ⟨m, n, k, hm, hn, hk, ?_⟩
    simp only [List.forall_mem_cons]
    exact ⟨matrix_identity hforth rfl, matrix_identity hback rfl, matrix_identity hidentity rfl,
      List.forall_mem_nil _⟩
  case products =>
    intro o c s u v hvalues hu hv h
    simp only [List.cons_append, List.forall_mem_cons, List.forall_mem_append] at hvalues
    obtain ⟨hc, hs, hus, hvs⟩ := hvalues
    obtain ⟨x, hx⟩ := World.exists_hasVector (residue p) hus hu
    obtain ⟨y, hy⟩ := World.exists_hasVector (residue p) hvs hv
    exact World.products_rotated hexact o hc hs hx hy h

end Residues

namespace Specimen

open Residues

def cosine : Scalar UInt64 := .leaf ⟨91, []⟩ 16
def sine : Scalar UInt64 := .live ⟨92, []⟩ 0 "A" 1

/-- Modulo seven the cosine and the sine are `2`, and the sum of their squares is one. -/
theorem rotations_orthogonal_figureA :
    (∃ m, Mat.compose ⟨93, []⟩ (.rotation ⟨94, []⟩ cosine sine)
        (Mat.rotation ⟨95, []⟩ cosine sine).transpose = .ok m ∧
      moduloSeven.interpretation.matrix m figureA = (.ok [[1, 0], [0, 1]], figureA)) ∧
      ∃ u v, Mat.apply ⟨93, []⟩ (.rotation ⟨94, []⟩ cosine sine) [affineInA, sine] = .ok u ∧
        Mat.apply ⟨95, []⟩ (.rotation ⟨96, []⟩ cosine sine) [cosine, affineExchanged] = .ok v ∧
          figureA.SameResult moduloSeven (residue 7) (Vect.cross ⟨99, []⟩ u v)
            (Vect.cross ⟨100, []⟩ [affineInA, sine] [cosine, affineExchanged]) := by
  have hrotating := rotations_orthogonal (p := 7) (by decide) modular_moduloSeven figureA
  have hsquares : moduloSeven.interpretation.valueAt (residue 7) figureA cosine ^ 2 +
      moduloSeven.interpretation.valueAt (residue 7) figureA sine ^ 2 = 1 := by decide +kernel
  let o (i : Nat) : Origin := ⟨93 + i, []⟩
  obtain ⟨m, n, k, hm, -, -, hidentity⟩ := hrotating.orthogonal o (by decide +kernel) hsquares
  obtain ⟨u, v, hu, hv, -, hcross, -⟩ := hrotating.products o (u := [affineInA, sine])
    (v := [cosine, affineExchanged]) (by decide +kernel) rfl rfl hsquares
  exact ⟨⟨m, hm, hidentity m (.head _)⟩, u, v, hu, hv, hcross⟩

end Specimen
end PlaneGeometry
