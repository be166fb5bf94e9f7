import PlaneGeometry.Proofs.Figures
import PlaneGeometry.Proofs.Shortcuts
import PlaneGeometry.Proofs.Views
import Mathlib.Data.List.OfFn
import Mathlib.Data.Matrix.Basic

/-!
# Vectors and matrices with values

Vectors of scalars stand for vectors over `K`, and views of matrices for matrices over `K`, if their
entries evaluate to what stands for those over `K`.
-/
namespace PlaneGeometry

open Matrix

variable {α σ β γ κ μ K : Type} [Element α]

theorem forall₂_mapIdx {R : β → κ → Prop} {S : γ → μ → Prop} {f : Nat → β → γ} {g : κ → μ}
    (hf : ∀ i x k, R x k → S (f i x) (g k)) {xs : List β} {ks : List κ}
    (h : List.Forall₂ R xs ks) : List.Forall₂ S (xs.mapIdx f) (ks.map g) := by
  induction h generalizing f with
  | nil => exact .nil
  | cons hx _ ih =>
    rw [List.mapIdx_cons, List.map_cons]
    exact .cons (hf 0 _ _ hx) (ih fun i => hf (i + 1))

private theorem forall₂_zip {R : β → κ → Prop} {S : γ → μ → Prop} {xs : List β} {ks : List κ}
    (h : List.Forall₂ R xs ks) {ys : List γ} {ls : List μ} (h' : List.Forall₂ S ys ls) :
    List.Forall₂ (fun p q => R p.1 q.1 ∧ S p.2 q.2) (xs.zip ys) (ks.zip ls) := by
  induction h generalizing ys ls with
  | nil => exact .nil
  | cons hx _ ih =>
    cases h' with
    | nil => exact .nil
    | cons hy h' => exact .cons ⟨hx, hy⟩ (ih h')

private theorem zip_ofFn {n : Nat} (x : Fin n → κ) (y : Fin n → μ) :
    (List.ofFn x).zip (List.ofFn y) = List.ofFn fun i => (x i, y i) :=
  List.ext_getElem (by simp) (by simp)

private theorem forall₂_ofFn {n : Nat} {R : β → κ → Prop} {f : Fin n → β} {g : Fin n → κ} :
    List.Forall₂ R (List.ofFn f) (List.ofFn g) ↔ ∀ i, R (f i) (g i) := by
  rw [List.forall₂_iff_get]
  simp [Fin.forall_iff]

namespace Stands

variable {V : World α σ → Prop}

/-- What is done to one item after the other stands for the list of what it stands for. -/
theorem mapM {f : β → Eval α σ γ} {ψ : γ → μ} {xs : List β} {ks : List μ}
    (h : List.Forall₂ (fun x k => Stands V ψ (f x) (some k)) xs ks) :
    Stands V (List.map ψ) (xs.mapM f) (some ks) := by
  induction h with
  | nil => exact .pure []
  | @cons x k xs ks hx _ ih =>
    rw [List.mapM_cons]
    have htail : Stands V (List.map ψ)
        (do let y ← f x; let ys ← xs.mapM f; return y :: ys)
        (some k |>.bind fun k => some ks |>.bind fun ks => some (k :: ks)) :=
      hx.bind fun y _ => ih.bind fun ys _ => .pure (y :: ys)
    exact htail

end Stands

theorem mapM_some (ks : List κ) : (ks.map some).mapM id = some ks := by
  induction ks with
  | nil => rfl
  | cons k ks ih =>
    rw [List.map_cons, List.mapM_cons, ih]
    rfl

namespace Interpretation

variable (I : Interpretation α σ) (V : World α σ → Prop) (φ : α → K)

/-- From every world of the class the coordinates evaluate to what stands for those of `x`. -/
def HasVector {n : Nat} (v : Vect α) (x : Fin n → K) : Prop :=
  List.Forall₂ (I.HasValue V φ) v (List.ofFn x)

abbrev HasVectors {n : Nat} (vs : List (Vect α)) (xs : List (Fin n → K)) : Prop :=
  List.Forall₂ (I.HasVector V φ) vs xs

/-- The view has the shape of `A`, and from every world of the class its entries evaluate to what
stands for those of `A`. -/
structure HasMatrix {l c : Nat} (m : Mat α) (A : Matrix (Fin l) (Fin c) K) : Prop where
  lines : m.lines = l
  columns : m.columns = c
  entry (i : Fin l) (j : Fin c) :
    I.HasValue V φ (m.entry i j (i.isLt.trans_eq lines.symm) (j.isLt.trans_eq columns.symm)) (A i j)

abbrev HasMatrices {l c : Nat} (ms : List (Mat α)) (As : List (Matrix (Fin l) (Fin c) K)) : Prop :=
  List.Forall₂ (I.HasMatrix V φ) ms As

variable {I V φ}

theorem HasVector.length {n : Nat} {v : Vect α} {x : Fin n → K} (h : I.HasVector V φ v x) :
    v.length = n := by
  rw [List.Forall₂.length_eq h, List.length_ofFn]

private theorem hasVector_ofFn {n : Nat} {f : Fin n → Scalar α} {x : Fin n → K} :
    I.HasVector V φ (List.ofFn f) x ↔ ∀ i, I.HasValue V φ (f i) (x i) := forall₂_ofFn

theorem HasVector.values {n : Nat} {v : Vect α} {x : Fin n → K} (h : I.HasVector V φ v x) :
    Stands V (List.map φ) (I.values v) (some (List.ofFn x)) := by
  have hvalues : Stands V (List.map φ) (I.values v) (((List.ofFn x).map some).mapM id) :=
    Stands.values (List.forall₂_map_right_iff.2 h)
  rwa [mapM_some] at hvalues

theorem HasVector.two {v : Vect α} {x : Fin 2 → K} (h : I.HasVector V φ v x) :
    ∃ a b, v = [a, b] ∧ I.HasValue V φ a (x 0) ∧ I.HasValue V φ b (x 1) := by
  obtain ⟨a, _, ha, htail, rfl⟩ := List.forall₂_cons_right_iff.1 h
  obtain ⟨b, _, hb, hnil, rfl⟩ := List.forall₂_cons_right_iff.1 htail
  cases hnil
  exact ⟨a, b, rfl, ha, hb⟩

theorem HasVector.mapIdx {n : Nat} {v : Vect α} {x : Fin n → K} (h : I.HasVector V φ v x)
    {f : Nat → Scalar α → Scalar α} {g : K → K}
    (hf : ∀ i s k, I.HasValue V φ s k → I.HasValue V φ (f i s) (g k)) :
    I.HasVector V φ (v.mapIdx f) fun i => g (x i) := by
  have hmap := forall₂_mapIdx hf h
  rwa [List.map_ofFn] at hmap

theorem HasVector.zipIdx {n : Nat} {v w : Vect α} {x y : Fin n → K} (hv : I.HasVector V φ v x)
    (hw : I.HasVector V φ w y) {f : Nat → Scalar α × Scalar α → Scalar α} {g : K → K → K}
    (hf : ∀ i s t k l, I.HasValue V φ s k → I.HasValue V φ t l →
      I.HasValue V φ (f i (s, t)) (g k l)) :
    I.HasVector V φ ((List.zip v w).mapIdx f) fun i => g (x i) (y i) := by
  have hmap := forall₂_mapIdx (g := fun q => g q.1 q.2)
    (fun i p q hpq => hf i p.1 p.2 q.1 q.2 hpq.1 hpq.2) (forall₂_zip hv hw)
  rwa [zip_ofFn, List.map_ofFn] at hmap

theorem HasVectors.length {n : Nat} {vs : List (Vect α)} {xs : List (Fin n → K)}
    (h : I.HasVectors V φ vs xs) : ∀ v ∈ vs, v.length = n := by
  induction h with
  | nil => simp
  | cons hv _ ih => exact List.forall_mem_cons.2 ⟨hv.length, ih⟩

/-- Vectors of one length are lists of coordinates, one list for each place. -/
theorem HasVectors.columns {n : Nat} {vs : List (Vect α)} {xs : List (Fin n → K)}
    (h : I.HasVectors V φ vs xs) :
    List.Forall₂ (List.Forall₂ (I.HasValue V φ)) (Rows.columns n vs)
      (List.ofFn fun i => xs.map (· i)) := by
  -- Each step takes the first coordinates off, and the vectors behind them are shorter by one.
  induction n generalizing vs with
  | zero => exact .nil
  | succ n ih =>
    rw [Rows.columns, List.ofFn_succ]
    refine .cons ?_ ?_
    · induction h with
      | nil => exact .nil
      | @cons v x _ _ hv _ ih =>
        rw [HasVector, List.ofFn_succ] at hv
        cases hv with
        | cons h0 _ => exact .cons h0 ih
    · have htails : I.HasVectors V φ (vs.map List.tail) (xs.map fun x i => x i.succ) := by
        refine List.forall₂_map_left_iff.2 (List.forall₂_map_right_iff.2 (h.imp fun v x hv => ?_))
        rw [HasVector, List.ofFn_succ] at hv
        cases hv with
        | cons _ ht => exact ht
      have hcolumns := ih htails
      simpa only [List.map_map, Function.comp_def] using hcolumns

namespace HasMatrix

variable {l c : Nat} {m : Mat α} {A : Matrix (Fin l) (Fin c) K}

/-- The shape of the matrix may be given in another way. -/
theorem tabulate {l' c' : Nat} (hfits : Mat.Fits l' c') (hl : l' = l) (hc : c' = c)
    {f : (i j : Nat) → i < l' → j < c' → Scalar α}
    (h : ∀ i : Fin l, ∀ j : Fin c, I.HasValue V φ
      (f i j (i.isLt.trans_eq hl.symm) (j.isLt.trans_eq hc.symm)) (A i j)) :
    I.HasMatrix V φ (Mat.tabulate hfits f) A := by
  subst hl hc
  refine ⟨rfl, rfl, fun i j => ?_⟩
  rw [Mat.entry_tabulate hfits f i.isLt j.isLt]
  exact h i j

variable (h : I.HasMatrix V φ m A)

include h

theorem shape : m.shape = (l, c) := by rw [Mat.shape, h.lines, h.columns]

theorem transpose : I.HasMatrix V φ m.transpose Aᵀ where
  lines := m.lines_transpose.trans h.columns
  columns := m.columns_transpose.trans h.lines
  entry j i := by
    rw [Mat.entry_transpose]
    exact h.entry i j

theorem lineAt (i : Fin l) :
    I.HasVector V φ (m.lineAt i (i.isLt.trans_eq h.lines.symm)) (A.row i) := by
  obtain ⟨rfl, rfl, hentry⟩ := h
  exact hasVector_ofFn.2 (hentry i)

theorem columnAt (j : Fin c) :
    I.HasVector V φ (m.columnAt j (j.isLt.trans_eq h.columns.symm)) (A.col j) := by
  obtain ⟨rfl, rfl, hentry⟩ := h
  exact hasVector_ofFn.2 fun i => hentry i j

theorem toLines : I.HasVectors V φ m.toLines (List.ofFn A.row) := by
  obtain ⟨rfl, rfl, hentry⟩ := h
  exact forall₂_ofFn.2 fun i => hasVector_ofFn.2 (hentry i)

theorem matrix : Stands V (List.map (List.map φ)) (I.matrix m)
    (some (List.ofFn fun i => List.ofFn (A.row i))) := by
  have hlines : List.Forall₂ (fun v ks => Stands V (List.map φ) (I.values v) (some ks)) m.toLines
      ((List.ofFn A.row).map List.ofFn) :=
    List.forall₂_map_right_iff.2 (h.toLines.imp fun _ _ hv => hv.values)
  rw [List.map_ofFn] at hlines
  exact .mapM hlines

end HasMatrix

theorem HasMatrices.shape {l c : Nat} {ms : List (Mat α)} {As : List (Matrix (Fin l) (Fin c) K)}
    (h : I.HasMatrices V φ ms As) : ∀ m ∈ ms, m.shape = (l, c) := by
  induction h with
  | nil => simp
  | cons hm _ ih => exact List.forall_mem_cons.2 ⟨hm.shape, ih⟩

end Interpretation

namespace Interpretation

variable [Zero K] (I : Interpretation α σ) (φ : α → K) (w : World α σ)

/-- What the value of a scalar in the world stands for. The value of a scalar that has none is of no
account. -/
def valueAt (s : Scalar α) : K := ((I.outcome w s).map φ).getD 0

def vectorAt (v : Vect α) : Fin v.length → K := fun i => I.valueAt φ w (v.get i)

def matrixAt (m : Mat α) : Matrix (Fin m.lines) (Fin m.columns) K :=
  .of fun ⟨i, hi⟩ ⟨j, hj⟩ => I.valueAt φ w (m.entry i j hi hj)

end Interpretation

namespace World

/-- The scalar is settled in the world, and has a value there. -/
structure Evaluates (F : NumericField α σ) (w : World α σ) (s : Scalar α) : Prop where
  settled : w.Settled s
  value : (F.interpretation.outcome w s).isSome = true

instance (F : NumericField α σ) (w : World α σ) (s : Scalar α) : Decidable (w.Evaluates F s) :=
  decidable_of_iff (w.Settled s ∧ (F.interpretation.outcome w s).isSome = true)
    ⟨fun h => ⟨h.1, h.2⟩, fun h => ⟨h.settled, h.value⟩⟩

theorem evaluates_leaf (F : NumericField α σ) (w : World α σ) (o : Origin) (v : α) :
    w.Evaluates F (.leaf o v) := ⟨⟨rfl, by simp [Scalar.sources]⟩, rfl⟩

/-- Both scalars evaluate, to values that stand for one member of `K`. -/
def SameValue (F : NumericField α σ) (φ : α → K) (w : World α σ) (a b : Scalar α) : Prop :=
  ∃ x y, F.interpretation.value a w = (.ok x, w) ∧ F.interpretation.value b w = (.ok y, w) ∧
    φ x = φ y

theorem sameValue {F : NumericField α σ} {φ : α → K} {w : World α σ} {a b : Scalar α} {k : K}
    (ha : F.interpretation.HasValue w.SameSources φ a k)
    (hb : F.interpretation.HasValue w.SameSources φ b k) : w.SameValue F φ a b := by
  obtain ⟨x, hx, hk⟩ := ha.apply_some (w := w) rfl
  obtain ⟨y, hy, hl⟩ := hb.apply_some (w := w) rfl
  exact ⟨x, y, hx, hy, hk.trans hl.symm⟩

variable [Zero K] {F : NumericField α σ} {w : World α σ} (φ : α → K)

omit [Zero K] in
theorem Evaluates.apply {s : Scalar α} (h : w.Evaluates F s) :
    ∃ v, F.interpretation.value s w = (.ok v, w) := by
  obtain ⟨v, hv⟩ := Option.isSome_iff_exists.1 h.value
  exact ⟨v, Prod.ext (Interpretation.outcome_eq_some.1 hv) (h.settled.value_world F)⟩

theorem Evaluates.hasValue {s : Scalar α} (h : w.Evaluates F s) :
    F.interpretation.HasValue w.SameSources φ s (F.interpretation.valueAt φ w s) := by
  obtain ⟨v, hv⟩ := Option.isSome_iff_exists.1 h.value
  rw [Interpretation.valueAt, hv]
  exact (Interpretation.hasValue_of_settled φ h.settled (Eval.eq_ok_of_toOption hv)).2

theorem atPlace_at {p : Point α} (h : ∀ x ∈ p.vect, w.Evaluates F x) :
    F.interpretation.AtPlace w.SameSources φ p (F.interpretation.place φ w p) := by
  have hsettled (x : Scalar α) (hx : x ∈ p.vect) : w.Settled x := (h x hx).settled
  simp only [Point.vect, List.forall_mem_cons] at h
  obtain ⟨x, hx⟩ := h.1.apply
  obtain ⟨y, hy⟩ := h.2.1.apply
  have hpoint : F.interpretation.point p w = (.ok (x, y), w) :=
    (Eval.bind_ok hx _).trans (Eval.bind_ok hy _)
  exact Interpretation.atPlace_of_settled φ hsettled (congrArg Prod.fst hpoint)

theorem hasVector_at {v : Vect α} (h : ∀ s ∈ v, w.Evaluates F s) :
    F.interpretation.HasVector w.SameSources φ v (F.interpretation.vectorAt φ w v) := by
  have hget : F.interpretation.HasVector w.SameSources φ (List.ofFn v.get)
      (F.interpretation.vectorAt φ w v) :=
    Interpretation.hasVector_ofFn.2 fun i => (h _ (v.get_mem i)).hasValue φ
  rwa [List.ofFn_get] at hget

theorem exists_hasVector {n : Nat} {v : Vect α} (h : ∀ s ∈ v, w.Evaluates F s)
    (hn : v.length = n) : ∃ x : Fin n → K, F.interpretation.HasVector w.SameSources φ v x := by
  subst hn
  exact ⟨_, hasVector_at φ h⟩

theorem hasMatrix_at {m : Mat α} (h : ∀ i hi j hj, w.Evaluates F (m.entry i j hi hj)) :
    F.interpretation.HasMatrix w.SameSources φ m (F.interpretation.matrixAt φ w m) :=
  ⟨rfl, rfl, fun i j => (h i i.isLt j j.isLt).hasValue φ⟩

end World
end PlaneGeometry
