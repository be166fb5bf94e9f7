import PlaneGeometry.Proofs.Dependence
import Mathlib.Algebra.BigOperators.Group.List.Basic
import Mathlib.Algebra.Field.Basic

/-!
# Evaluation over exact fields

The elements of an exact field stand for members of a mathematical field, possibly several for one.
Where nothing is sampled, evaluation is arithmetic there: it succeeds exactly if no divisor stands
for zero and every part succeeds.
-/
namespace PlaneGeometry

variable {α σ β γ κ μ K : Type} [Element α]

/-- From the worlds of the class `V` the computation changes nothing. It succeeds exactly if there
is a value, and then with something that stands for it. -/
def Stands (V : World α σ → Prop) (φ : β → κ) (m : Eval α σ β) (d : Option κ) : Prop :=
  ∀ w, V w → (m w).2 = w ∧ (m w).1.toOption.map φ = d

namespace Stands

variable {V : World α σ → Prop} {φ : β → κ} {ψ : γ → μ} {m : Eval α σ β} {d : Option κ}

theorem pure (x : β) : Stands V φ (Pure.pure x) (some (φ x)) := fun _ _ => ⟨rfl, rfl⟩

theorem throw (e : Error) : Stands V φ (throw e : Eval α σ β) none := fun _ _ => ⟨rfl, rfl⟩

theorem lift (r : Except Error β) : Stands V φ (liftM r : Eval α σ β) (r.toOption.map φ) := by
  cases r with
  | ok x => exact pure x
  | error e => exact throw e

theorem lift_id (r : Except Error β) : Stands V id (liftM r : Eval α σ β) r.toOption := by
  simpa using lift (V := V) (φ := id) r

theorem apply_some {k : κ} (h : Stands V φ m (some k)) {w : World α σ} (hw : V w) :
    ∃ x, m w = (.ok x, w) ∧ φ x = k := by
  obtain ⟨hw', hd⟩ := h w hw
  obtain ⟨x, hx, hk⟩ := Option.map_eq_some_iff.1 hd
  refine ⟨x, ?_, hk⟩
  rw [Eval.eq_ok_of_toOption hx, hw']

theorem apply_none (h : Stands V φ m none) {w : World α σ} (hw : V w) :
    ∃ e, m w = (.error e, w) := by
  obtain ⟨hw', hd⟩ := h w hw
  rcases hm : m w with ⟨e | x, u⟩ <;> rw [hm] at hw' hd
  · cases hw'
    exact ⟨e, rfl⟩
  · cases hd

theorem bind {f : β → Eval α σ γ} {g : κ → Option μ} (hm : Stands V φ m d)
    (hf : ∀ x, d = some (φ x) → Stands V ψ (f x) (g (φ x))) : Stands V ψ (m >>= f) (d.bind g) := by
  intro w hw
  cases d with
  | none =>
    obtain ⟨e, he⟩ := hm.apply_none hw
    rw [Eval.bind_error he]
    exact ⟨rfl, rfl⟩
  | some k =>
    obtain ⟨x, hx, rfl⟩ := hm.apply_some hw
    rw [Eval.bind_ok hx]
    exact hf x rfl w hw

theorem map {f : β → γ} {g : κ → μ} (hm : Stands V φ m d) (hf : ∀ x, ψ (f x) = g (φ x)) :
    Stands V ψ (do return f (← m)) (do return g (← d)) := by
  refine hm.bind fun x _ => ?_
  rw [← hf]
  exact pure (f x)

private theorem metric_bind {I : Interpretation α σ} (hp : I.field.product = none)
    (f : InnerProduct α → Eval α σ β) :
    Stands V φ ((liftM I.field.metric : Eval α σ _) >>= f) none := by
  rw [NumericField.metric, hp]
  exact throw _

theorem values {V : World α σ → Prop} {φ : α → κ} {I : Interpretation α σ} {xs : List (Scalar α)}
    {ds : List (Option κ)} (h : List.Forall₂ (fun x d => Stands V φ (x.value I) d) xs ds) :
    Stands V (List.map φ) (Scalar.value.values I xs) (ds.mapM id) := by
  induction h with
  | nil => exact pure []
  | cons hx _ ih =>
    rw [List.mapM_cons]
    refine hx.bind fun x _ => ?_
    exact ih.bind fun ys _ => pure (x :: ys)

end Stands

namespace Scalar

variable {I : Interpretation α σ} {a b : Scalar α} {w u t : World α σ} {x y : α}

theorem value_inverse_apply (o : Origin) (ha : a.value I w = (.ok x, u)) :
    (inverse o a).value I w =
      (nonzero I.field x .inverseOfIdentity >>= fun x => I.field.inv x, u) := by
  rw [value, Eval.bind_ok ha]
  cases nonzero I.field x .inverseOfIdentity with
  | error e => rfl
  | ok x =>
    change (liftM (I.field.inv x) : Eval α σ α) u = (I.field.inv x, u)
    cases I.field.inv x <;> rfl

theorem value_division_apply (o : Origin) (ha : a.value I w = (.ok x, u))
    (hb : b.value I u = (.ok y, t)) : (division o a b).value I w =
      (nonzero I.field y .divisionByIdentity >>= fun y => I.field.mul x <$> I.field.inv y, t) := by
  rw [value, Eval.bind_ok ha, Eval.bind_ok hb]
  cases nonzero I.field y .divisionByIdentity with
  | error e => rfl
  | ok y =>
    change ((liftM (I.field.inv y) : Eval α σ α) >>= fun i => pure (I.field.mul x i)) t =
      (I.field.mul x <$> I.field.inv y, t)
    cases I.field.inv y <;> rfl

end Scalar

/-- Arithmetic and tests are those of `K`, where an element `x` stands for `φ x`. Elements that
compare as equal stand for one member. -/
structure NumericField.Exact [Field K] (F : NumericField α σ) (φ : α → K) : Prop where
  zero : φ F.zero = 0
  one : φ F.one = 1
  neg (x : α) : φ (F.neg x) = -φ x
  add (x y : α) : φ (F.add x y) = φ x + φ y
  mul (x y : α) : φ (F.mul x y) = φ x * φ y
  inv {x : α} : φ x ≠ 0 → ∃ y, F.inv x = .ok y ∧ φ y = (φ x)⁻¹
  inv_zero {x : α} : φ x = 0 → ∃ e, F.inv x = .error e
  eqv {x y : α} : Element.eqv x y = true → φ x = φ y
  same (x y : α) : F.same x y = true ↔ φ x = φ y
  negligible (x m : α) : F.negligible x m = true ↔ φ x = 0

omit [Element α] in
/-- What is joined from the left stands for what is joined from the right, where the operation is
associative. -/
theorem map_joined {φ : α → K} {f : α → α → α} {neutral : α} {g : K → K → K} {unit : K}
    (hunit : φ neutral = unit) (hf : ∀ x y, φ (f x y) = g (φ x) (φ y))
    (hassoc : ∀ a b c, g (g a b) c = g a (g b c)) (hright : ∀ a, g a unit = a) (xs : List α) :
    φ (joined f neutral xs) = (xs.map φ).foldr g unit := by
  have hfold (x : α) (xs : List α) : φ (xs.foldl f x) = g (φ x) ((xs.map φ).foldr g unit) := by
    induction xs generalizing x with
    | nil => exact (hright _).symm
    | cons y xs ih => rw [List.foldl_cons, ih, hf, hassoc, List.map_cons, List.foldr_cons]
  cases xs with
  | nil => exact hunit
  | cons x xs => exact hfold x xs

namespace NumericField.Exact

variable [Field K] {F : NumericField α σ} {φ : α → K} (hF : F.Exact φ)

include hF

theorem sub (x y : α) : φ (F.sub x y) = φ x - φ y := by
  rw [NumericField.sub, hF.add, hF.neg, sub_eq_add_neg]

private theorem joined_add (xs : List α) : φ (joined F.add F.zero xs) = (xs.map φ).sum :=
  (map_joined hF.zero hF.add add_assoc add_zero xs).trans List.sum_eq_foldr.symm

private theorem joined_mul (xs : List α) : φ (joined F.mul F.one xs) = (xs.map φ).prod :=
  (map_joined hF.one hF.mul mul_assoc mul_one xs).trans List.prod_eq_foldr.symm

end NumericField.Exact

section

variable [Field K]

def reciprocal? [DecidableEq K] (x : K) : Option K := if x = 0 then none else some x⁻¹

def coordinate? (p : κ × κ) : Nat → Option κ
  | 0 => some p.1
  | 1 => some p.2
  | _ => none

namespace NumericField.Exact

variable {V : World α σ → Prop} {I : Interpretation α σ} {φ : α → K} (hF : I.field.Exact φ)
  {a b : Scalar α} {d e : Option K}

include hF

theorem stands_sum (o : Origin) {xs : List (Scalar α)} {ds : List (Option K)}
    (h : List.Forall₂ (fun x d => Stands V φ (x.value I) d) xs ds) :
    Stands V φ ((Scalar.sum o xs).value I) (do return (← ds.mapM id).sum) :=
  (Stands.values h).map hF.joined_add

theorem stands_product (o : Origin) {xs : List (Scalar α)} {ds : List (Option K)}
    (h : List.Forall₂ (fun x d => Stands V φ (x.value I) d) xs ds) :
    Stands V φ ((Scalar.product o xs).value I) (do return (← ds.mapM id).prod) :=
  (Stands.values h).map hF.joined_mul

theorem stands_diff (o : Origin) (ha : Stands V φ (a.value I) d) (hb : Stands V φ (b.value I) e) :
    Stands V φ ((Scalar.diff o a b).value I) (do return (← d) - (← e)) :=
  ha.bind fun x _ => hb.map fun y => hF.sub x y

theorem stands_opposite (o : Origin) (ha : Stands V φ (a.value I) d) :
    Stands V φ ((Scalar.opposite o a).value I) (do return -(← d)) :=
  ha.map hF.neg

section

variable [DecidableEq K]

/-- The exact test refuses only what stands for zero, and what it lets pass is inverted only if it
does not. -/
theorem stands_inv (x : α) (err : Error) : Stands V φ
    ((liftM (Scalar.nonzero I.field x err) : Eval α σ α) >>= fun y => liftM (I.field.inv y))
    (reciprocal? (φ x)) := by
  rw [reciprocal?, Scalar.nonzero]
  split
  · next h =>
    rw [if_pos (by rw [hF.eqv h, hF.zero])]
    exact .throw err
  · split
    · next h =>
      obtain ⟨e, he⟩ := hF.inv_zero h
      change Stands V φ (liftM (I.field.inv x)) none
      rw [he]
      exact .throw e
    · next h =>
      obtain ⟨y, hy, hφ⟩ := hF.inv h
      change Stands V φ (liftM (I.field.inv x)) _
      rw [hy, ← hφ]
      exact .pure y

theorem stands_inverse (o : Origin) (ha : Stands V φ (a.value I) d) :
    Stands V φ ((Scalar.inverse o a).value I) (do reciprocal? (← d)) :=
  ha.bind fun x _ => hF.stands_inv x .inverseOfIdentity

theorem stands_division (o : Origin) (ha : Stands V φ (a.value I) d)
    (hb : Stands V φ (b.value I) e) : Stands V φ ((Scalar.division o a b).value I)
      (do return (← d) * (← reciprocal? (← e))) := by
  refine ha.bind fun x _ => hb.bind fun y _ => ?_
  have h := (hF.stands_inv (V := V) y .divisionByIdentity).map (f := I.field.mul x) (hF.mul x)
  rw [bind_assoc] at h
  exact h

end

omit hF [Field K] in
theorem stands_live (o : Origin) {i : SourceId} {p : Option (K × K)}
    (h : Stands V (Prod.map φ φ) (I.read i) p) (label : String) (k : Nat) :
    Stands V φ ((Scalar.live o i label k).value I) (do coordinate? (← p) k) := by
  refine h.bind fun q _ => ?_
  match k with
  | 0 | 1 => exact .pure _
  | k + 2 => exact .throw _

end NumericField.Exact
end

namespace Scalar

variable [Field K] [DecidableEq K]

/-- The member of `K` that a scalar denotes, where leaves stand for `φ` of their values and sources
for `ρ`. Nothing is denoted by nodes that sample, throw or measure, by the reciprocal of zero, and
by a node with a part that denotes nothing. -/
def denote (φ : α → K) (ρ : SourceId → Option (K × K)) : Scalar α → Option K
  | leaf _ v => some (φ v)
  | sum _ xs => do return (← all xs).sum
  | product _ xs => do return (← all xs).prod
  | diff _ a b => do return (← a.denote φ ρ) - (← b.denote φ ρ)
  | division _ a b => do return (← a.denote φ ρ) * (← reciprocal? (← b.denote φ ρ))
  | opposite _ x => do return -(← x.denote φ ρ)
  | inverse _ x => do reciprocal? (← x.denote φ ρ)
  | zero _ => some 0
  | one _ => some 1
  | live _ i _ k => do coordinate? (← ρ i) k
  | random _ | different _ _ | between _ _ _ | greater _ _ | lower _ _ | throwing _ _ | norm _ _
  | angle _ _ _ | signedAngle _ _ _ => none
where
  all : List (Scalar α) → Option (List K)
    | [] => some []
    | x :: xs => do
      let k ← x.denote φ ρ
      return k :: (← all xs)

private theorem denote_all (φ : α → K) (ρ : SourceId → Option (K × K)) (xs : List (Scalar α)) :
    denote.all φ ρ xs = (xs.map (denote φ ρ)).mapM id := by
  induction xs with
  | nil => rfl
  | cons x xs ih =>
    rw [denote.all, List.map_cons, List.mapM_cons, ih]
    rfl

end Scalar

namespace NumericField.Exact

variable [Field K] [DecidableEq K] {V : World α σ → Prop} {I : Interpretation α σ} {φ : α → K}
  (hF : I.field.Exact φ) (hp : I.field.product = none)

include hF hp

/-- Over an exact field without inner product, the scalars whose values stand for what they denote
form a closed class. -/
theorem closed_stands (ρ : SourceId → Option (K × K)) :
    Scalar.Closed fun s => Stands V φ (s.value I) (s.denote φ ρ) where
  leaf _ v := .pure v
  zero _ := by
    rw [Scalar.denote, ← hF.zero]
    exact .pure I.field.zero
  one _ := by
    rw [Scalar.denote, ← hF.one]
    exact .pure I.field.one
  throwing _ e := .throw _
  sum o xs hx := by
    rw [Scalar.denote, Scalar.denote_all]
    exact hF.stands_sum o (List.forall₂_map_right_iff.2 (List.forall₂_same.2 hx))
  product o xs hx := by
    rw [Scalar.denote, Scalar.denote_all]
    exact hF.stands_product o (List.forall₂_map_right_iff.2 (List.forall₂_same.2 hx))
  diff o a b ha hb := hF.stands_diff o ha hb
  division o a b ha hb := hF.stands_division o ha hb
  opposite o x hx := hF.stands_opposite o hx
  inverse o x hx := hF.stands_inverse o hx
  norm _ _ _ := .metric_bind hp _
  angle _ _ _ _ _ := .metric_bind hp _
  signedAngle _ _ _ _ _ := .metric_bind hp _

/-- A scalar that does not sample stands for what it denotes, if its sources do. -/
theorem stands_denote {s : Scalar α} (hs : s.isDeterministic = true)
    {ρ : SourceId → Option (K × K)}
    (hr : ∀ i ∈ s.sources, Stands V (Prod.map φ φ) (I.read i) (ρ i)) :
    Stands V φ (s.value I) (s.denote φ ρ) :=
  (hF.closed_stands hp ρ).mem s (.inl hs) fun i hi o label k => stands_live o (hr i hi) label k

end NumericField.Exact

namespace World

def place? (w : World α σ) (i : SourceId) : Option (α × α) :=
  match w.source? i with
  | some (.anchor _ ⟨.leaf _ x, .leaf _ y⟩) => some (x, y)
  | _ => none

/-- The scalar does not sample, and its live nodes read anchors with leaf coordinates. -/
structure Settled (w : World α σ) (s : Scalar α) : Prop where
  deterministic : s.isDeterministic = true
  placed (i : SourceId) : i ∈ s.sources → (w.place? i).isSome = true

instance (w : World α σ) (s : Scalar α) : Decidable (w.Settled s) :=
  decidable_of_iff (s.isDeterministic = true ∧ ∀ i ∈ s.sources, (w.place? i).isSome = true)
    ⟨fun h => ⟨h.1, h.2⟩, fun h => ⟨h.deterministic, h.placed⟩⟩

theorem source?_of_place? {w : World α σ} {i : SourceId} {p : α × α} (h : w.place? i = some p) :
    ∃ name o o', w.source? i = some (.anchor name ⟨.leaf o p.1, .leaf o' p.2⟩) := by
  rw [place?] at h
  split at h
  · next name o x o' y hs =>
    cases h
    exact ⟨name, o, o', hs⟩
  · cases h

theorem read_place? (F : NumericField α σ) {w : World α σ} {i : SourceId} {p : α × α}
    (h : w.place? i = some p) : F.read i w = (.ok p, w) := by
  obtain ⟨name, o, o', hs⟩ := source?_of_place? h
  rw [NumericField.read, NumericField.readBelow_succ, hs]
  rfl

/-- Worlds with the sources of the given one; the state of the samplers may be any. -/
def SameSources (w u : World α σ) : Prop := u.sources = w.sources

theorem SameSources.place? {w u : World α σ} (h : w.SameSources u) (i : SourceId) :
    u.place? i = w.place? i := by
  have hs : u.source? i = w.source? i := congrArg (·[i]?) h
  rw [World.place?, World.place?, hs]

/-- The value of a settled scalar depends on the sources only, and leaves the world as it is. -/
theorem Settled.value_same (F : NumericField α σ) {w : World α σ} {s : Scalar α}
    (h : w.Settled s) :
    ∃ r, ∀ u, w.SameSources u → F.interpretation.value s u = (r, u) := by
  refine Inert.value h.deterministic fun i hi => ?_
  obtain ⟨p, hp⟩ := Option.isSome_iff_exists.1 (h.placed i hi)
  exact ⟨.ok p, fun u hu => read_place? F ((hu.place? i).trans hp)⟩

end World

end PlaneGeometry
