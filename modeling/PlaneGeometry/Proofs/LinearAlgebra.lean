import PlaneGeometry.Proofs.Coordinates
import PlaneGeometry.Proofs.ShapeChecks
import Mathlib.Algebra.BigOperators.Fin
import Mathlib.Data.Fin.VecNotation
import Mathlib.Data.Matrix.Mul

/-!
# Linear algebra by evaluation

Where the entries of vectors and matrices evaluate over an exact field, the operations on them are
those of linear algebra over `K`, whatever the shapes and however the matrices are stored. Only a
result with more entries than can be allocated is not computed.
-/
namespace PlaneGeometry

open Matrix

variable {α σ K : Type} [Element α]

namespace Interpretation

variable (I : Interpretation α σ) (V : World α σ → Prop) (φ : α → K) [Field K]

/-- Operations on vectors succeed and give the values of linear algebra. -/
structure VectorAlgebra : Prop where
  sum (o : Origin) {n : Nat} {vs : List (Vect α)} {xs : List (Fin n → K)} : vs ≠ [] →
    I.HasVectors V φ vs xs → ∃ v, Vect.sum o vs = .ok v ∧ I.HasVector V φ v xs.sum
  times (o : Origin) {n : Nat} {vs : List (Vect α)} {xs : List (Fin n → K)} : vs ≠ [] →
    I.HasVectors V φ vs xs → ∃ v, Vect.times o vs = .ok v ∧ I.HasVector V φ v xs.prod
  plus (o : Origin) {n : Nat} {v w : Vect α} {x y : Fin n → K} : I.HasVector V φ v x →
    I.HasVector V φ w y → ∃ u, Vect.plus o v w = .ok u ∧ I.HasVector V φ u (x + y)
  minus (o : Origin) {n : Nat} {v w : Vect α} {x y : Fin n → K} : I.HasVector V φ v x →
    I.HasVector V φ w y → ∃ u, Vect.minus o v w = .ok u ∧ I.HasVector V φ u (x - y)
  scale (o : Origin) {n : Nat} {s : Scalar α} {k : K} {v : Vect α} {x : Fin n → K} :
    I.HasValue V φ s k → I.HasVector V φ v x → I.HasVector V φ (Vect.scale o s v) (k • x)
  opposite (o : Origin) {n : Nat} {v : Vect α} {x : Fin n → K} : I.HasVector V φ v x →
    I.HasVector V φ (Vect.opposite o v) (-x)
  dot (o : Origin) {n : Nat} {v w : Vect α} {x y : Fin n → K} : I.HasVector V φ v x →
    I.HasVector V φ w y → ∃ s, Vect.dot o v w = .ok s ∧ I.HasValue V φ s (x ⬝ᵥ y)
  normSquared (o : Origin) {n : Nat} {v : Vect α} {x : Fin n → K} : I.HasVector V φ v x →
    I.HasValue V φ (Vect.normSquared o v) (x ⬝ᵥ x)
  cross (o : Origin) {v w : Vect α} {x y : Fin 2 → K} : I.HasVector V φ v x →
    I.HasVector V φ w y → ∃ s, Vect.cross o v w = .ok s ∧ I.HasValue V φ s (x 0 * y 1 - x 1 * y 0)
  perp (o : Origin) {v : Vect α} {x : Fin 2 → K} : I.HasVector V φ v x →
    ∃ u, Vect.perp o v = .ok u ∧ I.HasVector V φ u ![-x 1, x 0]

/-- Operations on matrices give the values of linear algebra. They succeed, except that products and
identities panic where there is no room for the result. -/
structure MatrixAlgebra : Prop where
  sum (o : Origin) {l c : Nat} {ms : List (Mat α)} {As : List (Matrix (Fin l) (Fin c) K)} :
    ms ≠ [] → I.HasMatrices V φ ms As → ∃ m, Mat.sum o ms = .ok m ∧ I.HasMatrix V φ m As.sum
  times (o : Origin) {l c : Nat} {ms : List (Mat α)} {As : List (Matrix (Fin l) (Fin c) K)} :
    ms ≠ [] → I.HasMatrices V φ ms As → ∃ m, Mat.times o ms = .ok m ∧
      I.HasMatrix V φ m (.of fun i j => (As.map (· i j)).prod)
  minus (o : Origin) {l c : Nat} {m n : Mat α} {A B : Matrix (Fin l) (Fin c) K} :
    I.HasMatrix V φ m A → I.HasMatrix V φ n B →
      ∃ k, Mat.minus o m n = .ok k ∧ I.HasMatrix V φ k (A - B)
  scale (o : Origin) {l c : Nat} {s : Scalar α} {k : K} {m : Mat α}
    {A : Matrix (Fin l) (Fin c) K} : I.HasValue V φ s k → I.HasMatrix V φ m A →
      I.HasMatrix V φ (Mat.scale o s m) (k • A)
  transpose {l c : Nat} {m : Mat α} {A : Matrix (Fin l) (Fin c) K} : I.HasMatrix V φ m A →
    I.HasMatrix V φ m.transpose Aᵀ
  compose (o : Origin) {l k c : Nat} {m n : Mat α} {A : Matrix (Fin l) (Fin k) K}
    {B : Matrix (Fin k) (Fin c) K} : I.HasMatrix V φ m A → I.HasMatrix V φ n B →
      Allocates (l * c) (Mat.compose o m n) fun mn => I.HasMatrix V φ mn (A * B)
  apply (o : Origin) {l c : Nat} {m : Mat α} {v : Vect α} {A : Matrix (Fin l) (Fin c) K}
    {x : Fin c → K} : I.HasMatrix V φ m A → I.HasVector V φ v x →
      Allocates l (Mat.apply o m v) fun u => I.HasVector V φ u (A *ᵥ x)
  identity (o : Origin) (n : UInt64) : Allocates (n.toNat * n.toNat) (Mat.identity o n) fun m =>
    I.HasMatrix V φ m (1 : Matrix (Fin n.toNat) (Fin n.toNat) K)

/-- Products may be bracketed in either way, and applied one after the other, where there is room
for what is computed on the way. -/
structure CompositionLaws : Prop where
  assoc (o o' : Origin) {l k r c : Nat} {m n q : Mat α} {A : Matrix (Fin l) (Fin k) K}
    {B : Matrix (Fin k) (Fin r) K} {C : Matrix (Fin r) (Fin c) K} : I.HasMatrix V φ m A →
      I.HasMatrix V φ n B → I.HasMatrix V φ q C →
        Allocates (max (l * r) (l * c)) (Mat.compose o m n >>= fun mn => Mat.compose o' mn q)
          (I.HasMatrix V φ · (A * B * C)) ∧
        Allocates (max (k * c) (l * c)) (Mat.compose o n q >>= fun nq => Mat.compose o' m nq)
          (I.HasMatrix V φ · (A * B * C))
  apply (o o' : Origin) {l k r : Nat} {m n : Mat α} {v : Vect α} {A : Matrix (Fin l) (Fin k) K}
    {B : Matrix (Fin k) (Fin r) K} {x : Fin r → K} : I.HasMatrix V φ m A →
      I.HasMatrix V φ n B → I.HasVector V φ v x →
        Allocates (max (l * r) l) (Mat.compose o m n >>= fun mn => Mat.apply o' mn v)
          (I.HasVector V φ · (A *ᵥ (B *ᵥ x))) ∧
        Allocates (max k l) (Mat.apply o n v >>= fun u => Mat.apply o' m u)
          (I.HasVector V φ · (A *ᵥ (B *ᵥ x)))

variable {I V φ} in
theorem MatrixAlgebra.compositionLaws (h : I.MatrixAlgebra V φ) : I.CompositionLaws V φ where
  assoc o o' l k r c m n q A B C hm hn hq := by
    refine ⟨(h.compose o hm hn).bind fun mn hAB => h.compose o' hAB hq,
      (h.compose o hn hq).bind fun nq hBC => ?_⟩
    rw [Matrix.mul_assoc]
    exact h.compose o' hm hBC
  apply o o' l k r m n v A B x hm hn hv := by
    refine ⟨(h.compose o hm hn).bind fun mn hAB => ?_,
      (h.apply o hn hv).bind fun u hBx => h.apply o' hm hBx⟩
    rw [Matrix.mulVec_mulVec]
    exact h.apply o' hAB hv

end Interpretation

namespace NumericField.Exact

open Interpretation

variable [Field K] {I : Interpretation α σ} {V : World α σ → Prop} {φ : α → K}
  (hF : I.field.Exact φ) (o : Origin)

include hF

private theorem hasValue_sum {xs : List (Scalar α)} {ks : List K}
    (h : List.Forall₂ (I.HasValue V φ) xs ks) : I.HasValue V φ (.sum o xs) ks.sum := by
  have hsum := hF.stands_sum o (List.forall₂_map_right_iff.2 h)
  rwa [mapM_some] at hsum

private theorem hasValue_product {xs : List (Scalar α)} {ks : List K}
    (h : List.Forall₂ (I.HasValue V φ) xs ks) : I.HasValue V φ (.product o xs) ks.prod := by
  have hproduct := hF.stands_product o (List.forall₂_map_right_iff.2 h)
  rwa [mapM_some] at hproduct

private theorem hasValue_dotSum {n : Nat} {v w : Vect α} {x y : Fin n → K}
    (hv : I.HasVector V φ v x)
    (hw : I.HasVector V φ w y) : I.HasValue V φ (Vect.dotSum o v w) (x ⬝ᵥ y) := by
  have hproducts := hv.zipIdx (f := fun i p => .times (o.part i) p.1 p.2) (g := (· * ·)) hw
    fun i _ _ _ _ hx hy => hF.hasValue_times (o.part i) hx hy
  have hsum := hF.hasValue_sum o hproducts
  rwa [List.sum_ofFn] at hsum

omit hF [Field K] in
theorem hasVector_zip {f : Origin → Scalar α → Scalar α → Scalar α} {g : K → K → K}
    (hf : ∀ o s t k l, I.HasValue V φ s k → I.HasValue V φ t l → I.HasValue V φ (f o s t) (g k l))
    {n : Nat} {v w : Vect α} {x y : Fin n → K} (hv : I.HasVector V φ v x)
    (hw : I.HasVector V φ w y) :
    ∃ u, Vect.zip f o v w = .ok u ∧ I.HasVector V φ u fun i => g (x i) (y i) :=
  ⟨_, Vect.zip_eq_ok o f (hv.length.trans hw.length.symm),
    hv.zipIdx (f := fun i p => f (o.part i) p.1 p.2) hw fun i => hf (o.part i)⟩

omit hF [Field K] in
theorem hasVector_combine {f : Origin → List (Scalar α) → Scalar α} {g : List K → K}
    (hf : ∀ o xs ks, List.Forall₂ (I.HasValue V φ) xs ks → I.HasValue V φ (f o xs) (g ks))
    {n : Nat} {vs : List (Vect α)} {xs : List (Fin n → K)} (hne : vs ≠ [])
    (h : I.HasVectors V φ vs xs) :
    ∃ v, Vect.combine f o vs = .ok v ∧ I.HasVector V φ v fun i => g (xs.map (· i)) := by
  cases vs with
  | nil => exact absurd rfl hne
  | cons v vs =>
    have hn := HasVectors.length h
    rw [List.forall_mem_cons] at hn
    refine ⟨_, Vect.combine_eq_ok f o fun w hw => hn.1.trans (hn.2 w hw).symm, ?_⟩
    rw [hn.1]
    have hmap := forall₂_mapIdx (fun i xs ks => hf (o.part i) xs ks) (HasVectors.columns h)
    rwa [List.map_ofFn] at hmap

theorem vectorAlgebra : I.VectorAlgebra V φ where
  sum o n vs xs hne h := by
    have hsum : xs.sum = fun i => (xs.map (· i)).sum := funext fun i => Pi.list_sum_apply i xs
    rw [hsum]
    exact hasVector_combine o (fun o _ _ => hF.hasValue_sum o) hne h
  times o n vs xs hne h := by
    have hprod : xs.prod = fun i => (xs.map (· i)).prod := funext fun i => Pi.list_prod_apply i xs
    rw [hprod]
    exact hasVector_combine o (fun o _ _ => hF.hasValue_product o) hne h
  plus o n v w x y hv hw := hasVector_zip o (fun o _ _ _ _ => hF.hasValue_plus o) hv hw
  minus o n v w x y hv hw := hasVector_zip o (fun o _ _ _ _ => hF.hasValue_diff o) hv hw
  scale o n s k v x hs hv := hv.mapIdx fun i _ _ hx => hF.hasValue_times (o.part i) hs hx
  opposite o n v x hv := hv.mapIdx fun i _ _ hx => hF.hasValue_opposite (o.part i) hx
  dot o n v w x y hv hw := by
    refine ⟨Vect.dotSum o v w, ?_, hF.hasValue_dotSum o hv hw⟩
    rw [Vect.dot, Vect.checkLength_of_eq (hv.length.trans hw.length.symm)]
    rfl
  normSquared o n v x hv := hF.hasValue_dotSum o hv hv
  cross o v w x y hv hw := by
    obtain ⟨a, b, rfl, ha, hb⟩ := hv.two
    obtain ⟨c, d, rfl, hc, hd⟩ := hw.two
    exact ⟨_, rfl, hF.hasValue_diff o (hF.hasValue_times _ ha hd) (hF.hasValue_times _ hb hc)⟩
  perp o v x hv := by
    obtain ⟨a, b, rfl, ha, hb⟩ := hv.two
    exact ⟨_, rfl, .cons (hF.hasValue_opposite o hb) (.cons ha .nil)⟩

omit hF [Field K] in
theorem hasValues_pmap_entryIn {l c l' c' : Nat} {ms : List (Mat α)}
    {As : List (Matrix (Fin l) (Fin c) K)} (h : I.HasMatrices V φ ms As)
    (hms : ∀ m ∈ ms, m.shape = (l', c')) (hl : l' = l) (hc : c' = c) (i : Fin l) (j : Fin c) :
    List.Forall₂ (I.HasValue V φ)
      (ms.pmap (fun m hm => m.entryIn hm i j (i.isLt.trans_eq hl.symm) (j.isLt.trans_eq hc.symm))
        hms) (As.map (· i j)) := by
  induction h with
  | nil => exact .nil
  | cons hm _ ih => exact .cons (hm.entry i j) (ih _)

omit hF [Field K] in
theorem hasMatrix_combine {f : Origin → List (Scalar α) → Scalar α} {g : List K → K}
    (hf : ∀ o xs ks, List.Forall₂ (I.HasValue V φ) xs ks → I.HasValue V φ (f o xs) (g ks))
    {l c : Nat} {ms : List (Mat α)} {As : List (Matrix (Fin l) (Fin c) K)} (hne : ms ≠ [])
    (h : I.HasMatrices V φ ms As) : ∃ m, Mat.combine f o ms = .ok m ∧
      I.HasMatrix V φ m (.of fun i j => g (As.map (· i j))) := by
  cases ms with
  | nil => exact absurd rfl hne
  | cons m ms =>
    have hshape := HasMatrices.shape h
    obtain ⟨hm, hms⟩ := List.forall_mem_cons.1 hshape
    obtain ⟨hl, hc⟩ := Prod.mk.inj hm
    have hsame : ∀ n ∈ ms, n.shape = m.shape := fun n hn => (hms n hn).trans hm.symm
    refine ⟨_, Mat.combine_eq_ok f o hsame, .tabulate m.fits_view hl hc fun i j => hf _ _ _ ?_⟩
    cases h with
    | cons hm hms => exact .cons (hm.entry i j) (hasValues_pmap_entryIn hms hsame hl hc i j)

omit hF [Field K] in
theorem hasMatrix_compose {L : Type} {ψ : α → L} {k : Nat} {g : (Fin k → K) → (Fin k → K) → L}
    (hg : ∀ o v w x y, I.HasVector V φ v x → I.HasVector V φ w y →
      I.HasValue V ψ (Vect.dotSum o v w) (g x y))
    {l c : Nat} {m n : Mat α} {A : Matrix (Fin l) (Fin k) K} {B : Matrix (Fin k) (Fin c) K}
    (hm : I.HasMatrix V φ m A) (hn : I.HasMatrix V φ n B) :
    Allocates (l * c) (Mat.compose o m n) fun mn =>
      I.HasMatrix V ψ mn (.of fun i j => g (A.row i) (B.col j)) := by
  obtain rfl := hm.lines
  obtain rfl := hn.columns
  refine (Mat.allocates_compose o (hm.columns.trans hn.lines.symm)).mono ?_
  rintro _ ⟨hfits, rfl⟩
  exact .tabulate hfits rfl rfl fun i j => hg _ _ _ _ _ (hm.lineAt i) (hn.columnAt j)

omit hF [Field K] in
theorem hasMatrix_identity (n : UInt64) {a b : K} (hone : ∀ o, I.HasValue V φ (.one o) a)
    (hzero : ∀ o, I.HasValue V φ (.zero o) b) :
    Allocates (n.toNat * n.toNat) (Mat.identity o n) fun m =>
      I.HasMatrix V φ m (.of fun i j : Fin n.toNat => if i = j then a else b) := by
  refine (Mat.allocates_build n.toNat_lt n.toNat_lt _).mono ?_
  rintro _ ⟨hfits, rfl⟩
  refine .tabulate hfits rfl rfl fun i j => ?_
  simp only [Matrix.of_apply, Fin.val_inj]
  split
  · exact hone _
  · exact hzero _

theorem matrixAlgebra : I.MatrixAlgebra V φ where
  sum o l c ms As hne h := by
    have hsum : As.sum = .of fun i j => (As.map (· i j)).sum := by
      ext i j
      exact map_list_sum (Matrix.entryAddMonoidHom K i j) As
    rw [hsum]
    exact hasMatrix_combine o (fun o _ _ => hF.hasValue_sum o) hne h
  times o l c ms As hne h := hasMatrix_combine o (fun o _ _ => hF.hasValue_product o) hne h
  minus o l c m n A B hm hn := by
    refine ⟨_, Mat.minus_eq_ok o (hn.shape.trans hm.shape.symm), ?_⟩
    exact .tabulate m.fits_view hm.lines hm.columns fun i j =>
      hF.hasValue_diff _ (hm.entry i j) (hn.entry i j)
  scale o l c s k m A hs hm :=
    .tabulate m.fits_view hm.lines hm.columns fun i j => hF.hasValue_times _ hs (hm.entry i j)
  transpose hm := hm.transpose
  compose o l k c m n A B hm hn :=
    hasMatrix_compose o (fun o _ _ _ _ => hF.hasValue_dotSum o) hm hn
  apply o l c m v A x hm hv := by
    have hproduct := Mat.allocates_apply o (hv.length.trans hm.columns.symm)
    rw [hm.lines] at hproduct
    refine hproduct.mono ?_
    rintro _ rfl
    have hlines := forall₂_mapIdx (f := fun i line => Vect.dotSum (o.part i) line v)
      (g := (· ⬝ᵥ x)) (fun i _ _ hline => hF.hasValue_dotSum (o.part i) hline hv) hm.toLines
    rwa [List.map_ofFn] at hlines
  identity o n := by
    have hone : (1 : Matrix (Fin n.toNat) (Fin n.toNat) K) =
        .of fun i j => if i = j then 1 else 0 :=
      Matrix.ext fun i j => Matrix.one_apply
    rw [hone]
    refine hasMatrix_identity o n (fun o => hF.hasValue_one o) fun o => ?_
    rw [← hF.zero]
    exact .pure I.field.zero

end NumericField.Exact

/-- Over a prime field, vectors and matrices of scalars that evaluate are those of their residues,
and what is computed from them is computed modulo the prime: every operation on operands that fit
evaluates, to the result of linear algebra, and operands that do not fit are refused. So products of
matrices may be bracketed in either way, and applied one after the other. Where the result of an
operation has more entries than can be allocated, the operation panics. -/
theorem Residues.linear_algebra {p : UInt64} [Fact p.toNat.Prime] (hlt : p.toNat < 2 ^ 32)
    {F : NumericField UInt64 σ} (hF : Modular p F) (w : World UInt64 σ) :
    let I := F.interpretation
    let V := w.SameSources
    let φ := residue p
    (∀ v : Vect UInt64, (∀ s ∈ v, w.Evaluates F s) → I.HasVector V φ v (I.vectorAt φ w v)) ∧
      (∀ m : Mat UInt64, (∀ i hi j hj, w.Evaluates F (m.entry i j hi hj)) →
        I.HasMatrix V φ m (I.matrixAt φ w m)) ∧
      (∀ {n : Nat} {v : Vect UInt64} {x : Fin n → ZMod p.toNat}, I.HasVector V φ v x →
        ∃ xs, I.values v w = (.ok xs, w) ∧ xs.map φ = List.ofFn x) ∧
      (∀ {l c : Nat} {m : Mat UInt64} {A : Matrix (Fin l) (Fin c) (ZMod p.toNat)},
        I.HasMatrix V φ m A → ∃ rows, I.matrix m w = (.ok rows, w) ∧
          rows.map (List.map φ) = List.ofFn fun i => List.ofFn (A i)) ∧
      I.VectorAlgebra V φ ∧ I.MatrixAlgebra V φ ∧
      I.CompositionLaws V φ ∧ Vect.LengthsChecked UInt64 ∧ Mat.ShapesChecked UInt64 := by
  intro I V φ
  have hI : I.field.Exact φ := hF.exact hlt
  have hmatrices : I.MatrixAlgebra V φ := hI.matrixAlgebra
  exact ⟨fun v hv => World.hasVector_at φ hv, fun m hm => World.hasMatrix_at φ hm,
    fun hv => hv.values.apply_some rfl, fun hm => hm.matrix.apply_some rfl,
    hI.vectorAlgebra, hmatrices, hmatrices.compositionLaws, Vect.lengthsChecked _,
    Mat.shapesChecked _⟩

namespace Specimen

open Residues

/-- A transposed view, two by three, whose last column is the anchor. -/
def columnsSeen : Mat UInt64 :=
  (Mat.tabulate (l := 3) (c := 2) (by decide) fun i j _ _ => if i = 2 then .live ⟨21, [j]⟩ 0 "A" j
    else .leaf ⟨20, [i, j]⟩ (i + 3 * j + 5).toUInt64).transpose

/-- Modulo seven the lines are `5, 6, 3` and `1, 2, 2`. They can be multiplied by the columns of the
transpose, and not by one another. -/
theorem linear_algebra_columnsSeen :
    (∃ m rows, Mat.compose ⟨22, []⟩ columnsSeen columnsSeen.transpose = .ok m ∧
      moduloSeven.interpretation.matrix m figureA = (.ok rows, figureA) ∧
        rows.map (List.map (residue 7)) = [[0, 2], [2, 2]]) ∧
      Declined (Mat.compose ⟨22, []⟩ columnsSeen columnsSeen) := by
  obtain ⟨-, hseen, -, hrows, -, hops, -, -, hshapes⟩ :=
    Residues.linear_algebra (p := 7) (by decide) modular_moduloSeven figureA
  have hA := hseen columnsSeen (by decide +kernel)
  obtain ⟨m, hm, hproduct⟩ := (hops.compose ⟨22, []⟩ hA hA.transpose).ok (by decide)
  obtain ⟨rows, hr, hvalues⟩ := hrows hproduct
  refine ⟨⟨m, rows, hm, hr, hvalues.trans ?_⟩, hshapes.compose _ (by decide)⟩
  decide +kernel

/-- Matrices without entries, whose product would have `2 ^ 64`. The shapes fit, and all entries
evaluate as there are none. The product panics, as does the identity of its shape. -/
theorem not_computed_wide :
    ∃ m n : Mat UInt64, Mat.ofValues ⟨23, []⟩ 4294967296 0 [] = .ok m ∧
      Mat.ofValues ⟨24, []⟩ 0 4294967296 [] = .ok n ∧ m.columns = n.lines ∧
        m.entries = #[] ∧ n.entries = #[] ∧ Mat.compose ⟨25, []⟩ m n = .error .overflow ∧
          (Mat.identity ⟨26, []⟩ 4294967296 : Except Fault (Mat UInt64)) = .error .overflow := by
  refine ⟨⟨#[], 4294967296, 0, false, rfl, by decide⟩, ⟨#[], 0, 4294967296, false, rfl, by decide⟩,
    rfl, rfl, rfl, rfl, rfl, ?_, ?_⟩
  · exact (Mat.allocates_compose _ rfl).overflow (by decide)
  · rw [Mat.identity, Mat.ofFn]
    exact Mat.build_eq_overflow (by decide)

end Specimen
end PlaneGeometry
