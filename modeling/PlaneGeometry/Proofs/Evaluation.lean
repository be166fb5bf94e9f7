import PlaneGeometry.World.Read

/-!
# Two evaluations side by side

Evaluation is made of three things: a result, a failure, and one step after another. A relation
between computations that these keep holds between the values of one expression under two
interpretations as soon as it holds between what the live nodes read and what the samplers draw.
-/
namespace PlaneGeometry

variable {α σ τ β γ : Type} [Element α]

theorem Act.bind_apply (m : Act α σ β) (f : β → Act α σ γ) (w : World α σ) :
    (m >>= f) w = f (m w).1 (m w).2 := rfl

theorem Eval.bind_apply (m : Eval α σ β) (f : β → Eval α σ γ) (w : World α σ) :
    (m >>= f) w = match m w with
      | (.ok x, u) => f x u
      | (.error e, u) => (.error e, u) := by
  change ExceptT.bindCont f (m w).1 (m w).2 = _
  rcases m w with ⟨x | x, u⟩ <;> rfl

theorem Eval.bind_ok {m : Eval α σ β} {w u : World α σ} {x : β} (h : m w = (.ok x, u))
    (f : β → Eval α σ γ) : (m >>= f) w = f x u := by
  rw [Eval.bind_apply, h]

theorem Eval.bind_error {m : Eval α σ β} {w u : World α σ} {e : Error} (h : m w = (.error e, u))
    (f : β → Eval α σ γ) : (m >>= f) w = (.error e, u) := by
  rw [Eval.bind_apply, h]

theorem Eval.eq_ok_of_toOption {m : Eval α σ β} {w : World α σ} {x : β}
    (h : (m w).1.toOption = some x) : m w = (.ok x, (m w).2) := by
  rcases hm : m w with ⟨e | y, u⟩ <;> rw [hm] at h <;> cases h
  rfl

theorem Eval.ok_unique {m : Eval α σ β} {w u v : World α σ} {x y : β} (h : m w = (.ok x, u))
    (h' : m w = (.ok y, v)) : x = y :=
  Except.ok.inj (congrArg Prod.fst (h.symm.trans h'))

/-- What is known of the result alone, where it is known that the computation ends in `u`. -/
theorem Eval.ok_of_toOption {m : Eval α σ β} {w u : World α σ} {x y : β} (h : m w = (.ok x, u))
    (hy : (m w).1.toOption = some y) : m w = (.ok y, u) := by
  rwa [← Eval.ok_unique h (Eval.eq_ok_of_toOption hy)]

theorem Eval.bind_eq_ok {m : Eval α σ β} {f : β → Eval α σ γ} {w u : World α σ} {y : γ}
    (h : (m >>= f) w = (.ok y, u)) : ∃ x v, m w = (.ok x, v) ∧ f x v = (.ok y, u) := by
  rw [Eval.bind_apply] at h
  rcases hm : m w with ⟨e | x, v⟩ <;> rw [hm] at h
  · cases h
  · exact ⟨x, v, rfl, h⟩

namespace Scalar

def sources : Scalar α → List SourceId
  | leaf _ _ | zero _ | one _ | random _ | throwing _ _ => []
  | sum _ xs | product _ xs | norm _ xs => all xs
  | diff _ a b | division _ a b | between _ a b => a.sources ++ b.sources
  | opposite _ x | inverse _ x | different _ x | greater _ x | lower _ x => x.sources
  | angle _ v w | signedAngle _ v w => all v ++ all w
  | live _ i _ _ => [i]
where
  all : List (Scalar α) → List SourceId
    | [] => []
    | x :: xs => x.sources ++ all xs

theorem mem_all_sources {i : SourceId} {xs : List (Scalar α)} :
    i ∈ sources.all xs ↔ ∃ x ∈ xs, i ∈ x.sources := by
  induction xs with
  | nil => simp [sources.all]
  | cons x xs ih => simp [sources.all, ih]

/-- A class of scalars that has every leaf and is kept by every node that neither samples nor
reads a source. -/
structure Closed (P : Scalar α → Prop) : Prop where
  leaf (o : Origin) (v : α) : P (leaf o v)
  zero (o : Origin) : P (zero o)
  one (o : Origin) : P (one o)
  throwing (o : Origin) (e : Error) : P (throwing o e)
  sum (o : Origin) {xs : List (Scalar α)} : (∀ x ∈ xs, P x) → P (sum o xs)
  product (o : Origin) {xs : List (Scalar α)} : (∀ x ∈ xs, P x) → P (product o xs)
  diff (o : Origin) {a b : Scalar α} : P a → P b → P (diff o a b)
  division (o : Origin) {a b : Scalar α} : P a → P b → P (division o a b)
  opposite (o : Origin) {x : Scalar α} : P x → P (opposite o x)
  inverse (o : Origin) {x : Scalar α} : P x → P (inverse o x)
  norm (o : Origin) {v : List (Scalar α)} : (∀ x ∈ v, P x) → P (norm o v)
  angle (o : Origin) {v w : List (Scalar α)} :
    (∀ x ∈ v, P x) → (∀ x ∈ w, P x) → P (angle o v w)
  signedAngle (o : Origin) {v w : List (Scalar α)} :
    (∀ x ∈ v, P x) → (∀ x ∈ w, P x) → P (signedAngle o v w)

theorem Closed.and {P Q : Scalar α → Prop} (hP : Closed P) (hQ : Closed Q) :
    Closed fun x => P x ∧ Q x := by
  constructor <;> grind [Closed]

/-- The class is kept by the nodes that sample as well. -/
structure Sampling (P : Scalar α → Prop) : Prop where
  random (o : Origin) : P (random o)
  different (o : Origin) {x : Scalar α} : P x → P (different o x)
  between (o : Origin) {a b : Scalar α} : P a → P b → P (between o a b)
  greater (o : Origin) {x : Scalar α} : P x → P (greater o x)
  lower (o : Origin) {x : Scalar α} : P x → P (lower o x)

/-- A closed class that has the live nodes of a scalar has the scalar, if it does not sample or the
class does not mind. -/
theorem Closed.mem {P : Scalar α → Prop} (h : Closed P) :
    (s : Scalar α) → (s.isDeterministic = true ∨ Sampling P) →
      (∀ i ∈ s.sources, ∀ o label k, P (.live o i label k)) → P s
  | .leaf o v, _, _ => h.leaf o v
  | .zero o, _, _ => h.zero o
  | .one o, _, _ => h.one o
  | .throwing o e, _, _ => h.throwing o e
  | .sum o xs, hd, hl => h.sum o (list xs hd hl)
  | .product o xs, hd, hl => h.product o (list xs hd hl)
  | .diff o a b, hd, hl => by
    simp only [isDeterministic, Bool.and_eq_true, sources, List.mem_append] at hd hl
    exact h.diff o (h.mem a (hd.imp_left And.left) fun i hi => hl i (.inl hi))
      (h.mem b (hd.imp_left And.right) fun i hi => hl i (.inr hi))
  | .division o a b, hd, hl => by
    simp only [isDeterministic, Bool.and_eq_true, sources, List.mem_append] at hd hl
    exact h.division o (h.mem a (hd.imp_left And.left) fun i hi => hl i (.inl hi))
      (h.mem b (hd.imp_left And.right) fun i hi => hl i (.inr hi))
  | .opposite o x, hd, hl => h.opposite o (h.mem x hd hl)
  | .inverse o x, hd, hl => h.inverse o (h.mem x hd hl)
  | .random o, hd, _ => (hd.resolve_left (by simp [isDeterministic])).random o
  | .different o x, hd, hl =>
    have hs : Sampling P := hd.resolve_left (by simp [isDeterministic])
    hs.different o (h.mem x (.inr hs) hl)
  | .between o a b, hd, hl => by
    have hs : Sampling P := hd.resolve_left (by simp [isDeterministic])
    simp only [sources, List.mem_append] at hl
    exact hs.between o (h.mem a (.inr hs) fun i hi => hl i (.inl hi))
      (h.mem b (.inr hs) fun i hi => hl i (.inr hi))
  | .greater o x, hd, hl =>
    have hs : Sampling P := hd.resolve_left (by simp [isDeterministic])
    hs.greater o (h.mem x (.inr hs) hl)
  | .lower o x, hd, hl =>
    have hs : Sampling P := hd.resolve_left (by simp [isDeterministic])
    hs.lower o (h.mem x (.inr hs) hl)
  | .norm o v, hd, hl => h.norm o (list v hd hl)
  | .angle o v w, hd, hl => by
    simp only [isDeterministic, Bool.and_eq_true, sources, List.mem_append] at hd hl
    exact h.angle o (list v (hd.imp_left And.left) fun i hi => hl i (.inl hi))
      (list w (hd.imp_left And.right) fun i hi => hl i (.inr hi))
  | .signedAngle o v w, hd, hl => by
    simp only [isDeterministic, Bool.and_eq_true, sources, List.mem_append] at hd hl
    exact h.signedAngle o (list v (hd.imp_left And.left) fun i hi => hl i (.inl hi))
      (list w (hd.imp_left And.right) fun i hi => hl i (.inr hi))
  | .live o i label k, _, hl => hl i (by simp [sources]) o label k
where
  list : (xs : List (Scalar α)) → (isDeterministic.all xs = true ∨ Sampling P) →
      (∀ i ∈ sources.all xs, ∀ o label k, P (.live o i label k)) → ∀ x ∈ xs, P x
    | [], _, _ => by simp
    | x :: xs, hd, hl => by
      simp only [isDeterministic.all, Bool.and_eq_true, sources.all, List.mem_append] at hd hl
      have hx := h.mem x (hd.imp_left And.left) fun i hi => hl i (.inl hi)
      have hxs := list xs (hd.imp_left And.right) fun i hi => hl i (.inr hi)
      exact List.forall_mem_cons.2 ⟨hx, hxs⟩

end Scalar

/-- The second field computes, tests and compares as the first does. Its samplers, and the state
that they use up, may be any. -/
structure NumericField.Agrees (F : NumericField α σ) (G : NumericField α τ) : Prop where
  name : G.name = F.name
  zero : G.zero = F.zero
  neg : G.neg = F.neg
  add : G.add = F.add
  one : G.one = F.one
  inv : G.inv = F.inv
  mul : G.mul = F.mul
  same : G.same = F.same
  negligible : G.negligible = F.negligible
  product : G.product = F.product
  compare : G.order.map FieldOrder.compare = F.order.map FieldOrder.compare

namespace NumericField.Agrees

variable {F : NumericField α σ} {G : NumericField α τ}

omit [Element α] in
theorem refl (F : NumericField α σ) : F.Agrees F := by
  constructor <;> rfl

omit [Element α] in
theorem sub (h : F.Agrees G) : G.sub = F.sub := by
  funext x y
  simp [NumericField.sub, h.add, h.neg]

omit [Element α] in
theorem metric (h : F.Agrees G) : G.metric = F.metric := by
  simp [NumericField.metric, h.product, h.name]

omit [Element α] in
/-- Either both fields lack an ordering, or both have one and compare alike. -/
theorem ordered (h : F.Agrees G) :
    (∃ e, F.ordered = .error e ∧ G.ordered = .error e) ∨
      ∃ o o', F.order = some o ∧ G.order = some o' ∧ o'.compare = o.compare ∧
        F.ordered = .ok o ∧ G.ordered = .ok o' := by
  have hc := h.compare
  cases hF : F.order with
  | none =>
    have hG : G.order = none := by simpa [hF] using hc
    exact .inl ⟨.unsupported .ordering F.name, by simp [NumericField.ordered, hF],
      by simp [NumericField.ordered, hG, h.name]⟩
  | some o =>
    obtain ⟨o', hG, hoo⟩ : ∃ o', G.order = some o' ∧ o'.compare = o.compare := by
      simpa [hF] using hc
    exact .inr ⟨o, o', rfl, hG, hoo, by simp [NumericField.ordered, hF],
      by simp [NumericField.ordered, hG]⟩

end NumericField.Agrees

/-- A relation between computations that results, failures and sequences keep. -/
structure Simulation (R : ∀ {β : Type}, Eval α σ β → Eval α τ β → Prop) : Prop where
  pure {β : Type} (x : β) : R (pure x) (pure x)
  throw {β : Type} (e : Error) : R (throw e : Eval α σ β) (throw e : Eval α τ β)
  bind {β γ : Type} {m : Eval α σ β} {m' : Eval α τ β} {f : β → Eval α σ γ}
    {f' : β → Eval α τ γ} : R m m' → (∀ x, R (f x) (f' x)) → R (m >>= f) (m' >>= f')

/-- The samplers of two fields, run on the worlds, are related. -/
structure SamplersRelated (R : ∀ {β : Type}, Eval α σ β → Eval α τ β → Prop)
    (F : NumericField α σ) (G : NumericField α τ) : Prop where
  draw : R (World.sampling F.draw) (World.sampling G.draw)
  drawOther (x : α) : R (World.sampling (F.drawOther x)) (World.sampling (G.drawOther x))
  greater {o : FieldOrder α σ} {o' : FieldOrder α τ} (x : α) : F.order = some o →
    G.order = some o' → R (World.sampling (o.greater x)) (World.sampling (o'.greater x))
  lower {o : FieldOrder α σ} {o' : FieldOrder α τ} (x : α) : F.order = some o →
    G.order = some o' → R (World.sampling (o.lower x)) (World.sampling (o'.lower x))
  between {o : FieldOrder α σ} {o' : FieldOrder α τ} (x y : α) : F.order = some o →
    G.order = some o' → R (World.trying (o.between x y)) (World.trying (o'.between x y))

namespace Simulation

variable {R : ∀ {β : Type}, Eval α σ β → Eval α τ β → Prop} (h : Simulation R)
variable {I : Interpretation α σ} {J : Interpretation α τ}

include h

theorem lift (r : Except Error β) : R (liftM r : Eval α σ β) (liftM r : Eval α τ β) := by
  cases r with
  | ok x => exact h.pure x
  | error e => exact h.throw e

theorem values {xs : List (Scalar α)} (hx : ∀ x ∈ xs, R (x.value I) (x.value J)) :
    R (Scalar.value.values I xs) (Scalar.value.values J xs) := by
  induction xs with
  | nil => exact h.pure []
  | cons x xs ih =>
    have hxs := ih fun y hy => hx y (List.mem_cons_of_mem x hy)
    exact h.bind (hx x List.mem_cons_self) fun y => h.bind hxs fun ys => h.pure (y :: ys)

/-- The scalars whose values are related form a closed class. -/
theorem closed (hF : I.field.Agrees J.field) :
    Scalar.Closed fun s => R (s.value I) (s.value J) where
  leaf _ v := h.pure v
  zero _ := by
    change R (Pure.pure I.field.zero) (Pure.pure J.field.zero)
    rw [hF.zero]
    exact h.pure _
  one _ := by
    change R (Pure.pure I.field.one) (Pure.pure J.field.one)
    rw [hF.one]
    exact h.pure _
  throwing _ e := h.throw _
  sum _ _ hx := by
    apply h.bind (h.values hx)
    intro vs
    rw [hF.add, hF.zero]
    exact h.pure _
  product _ _ hx := by
    apply h.bind (h.values hx)
    intro vs
    rw [hF.mul, hF.one]
    exact h.pure _
  diff _ _ _ ha hb := by
    apply h.bind ha
    intro x
    apply h.bind hb
    intro y
    rw [hF.sub]
    exact h.pure _
  division _ _ _ ha hb := by
    apply h.bind ha
    intro x
    apply h.bind hb
    intro y
    simp only [Scalar.nonzero, hF.zero, hF.inv, hF.mul]
    exact h.bind (h.lift _) fun y => h.bind (h.lift _) fun z => h.pure _
  opposite _ _ hx := by
    apply h.bind hx
    intro x
    rw [hF.neg]
    exact h.pure _
  inverse _ _ hx := by
    apply h.bind hx
    intro x
    simp only [Scalar.nonzero, hF.zero, hF.inv]
    exact h.bind (h.lift _) fun y => h.lift _
  norm _ _ hv := by
    simp only [Scalar.value, hF.metric]
    exact h.bind (h.lift _) fun p => h.bind (h.values hv) fun x => h.lift _
  angle _ _ _ hv hw := by
    simp only [Scalar.value, hF.metric]
    exact h.bind (h.lift _) fun p => h.bind (h.values hv) fun x =>
      h.bind (h.values hw) fun y => h.lift _
  signedAngle _ _ _ hv hw := by
    simp only [Scalar.value, hF.metric]
    exact h.bind (h.lift _) fun p => h.bind (h.values hv) fun x =>
      h.bind (h.values hw) fun y => h.lift _

theorem ordered (hF : I.field.Agrees J.field) {f : FieldOrder α σ → Eval α σ β}
    {f' : FieldOrder α τ → Eval α τ β}
    (hf : ∀ o o', I.field.order = some o → J.field.order = some o' → o'.compare = o.compare →
      R (f o) (f' o')) :
    R ((liftM I.field.ordered : Eval α σ _) >>= f)
      ((liftM J.field.ordered : Eval α τ _) >>= f') := by
  rcases hF.ordered with ⟨e, he, he'⟩ | ⟨o, o', ho, ho', hoo, he, he'⟩
  · rw [he, he']
    exact h.throw e
  · rw [he, he']
    exact hf o o' ho ho' hoo

theorem sampling (hF : I.field.Agrees J.field) (hs : SamplersRelated R I.field J.field) :
    Scalar.Sampling fun s => R (s.value I) (s.value J) where
  random _ := hs.draw
  different _ _ hx := h.bind hx fun x => hs.drawOther x
  between _ _ _ ha hb := h.ordered hF fun _ _ ho ho' _ =>
    h.bind ha fun x => h.bind hb fun y => hs.between x y ho ho'
  greater _ _ hx := h.ordered hF fun _ _ ho ho' _ => h.bind hx fun x => hs.greater x ho ho'
  lower _ _ hx := h.ordered hF fun _ _ ho ho' _ => h.bind hx fun x => hs.lower x ho ho'

/-- The values of a scalar are related if what its sources answer is, and the scalar does not
sample or the samplers are related too. -/
theorem value (hF : I.field.Agrees J.field) {s : Scalar α}
    (hs : s.isDeterministic = true ∨ SamplersRelated R I.field J.field)
    (hr : ∀ i ∈ s.sources, R (I.read i) (J.read i)) : R (s.value I) (s.value J) :=
  (h.closed hF).mem s (hs.imp_right (h.sampling hF)) fun i hi _ label k =>
    h.bind (hr i hi) fun p => h.lift (liveCoordinate label p k)

end Simulation

/-- In all worlds of the class `V` the computation has one result, and it changes nothing. -/
def Inert (V : World α σ → Prop) (m : Eval α σ β) : Prop := ∃ r, ∀ w, V w → m w = (r, w)

namespace Inert

variable {V : World α σ → Prop}

theorem simulation (V : World α σ → Prop) :
    Simulation fun {β : Type} (m _ : Eval α σ β) => Inert V m where
  pure x := ⟨.ok x, fun _ _ => rfl⟩
  throw e := ⟨.error e, fun _ _ => rfl⟩
  bind {_ _ m _ f _} hm hf := by
    obtain ⟨r, hr⟩ := hm
    cases r with
    | error e => exact ⟨.error e, fun w hw => Eval.bind_error (hr w hw) f⟩
    | ok x =>
      obtain ⟨r, hfr⟩ := hf x
      exact ⟨r, fun w hw => by rw [Eval.bind_ok (hr w hw), hfr w hw]⟩

/-- Without samples, evaluation does what reading does. -/
theorem value {I : Interpretation α σ} {s : Scalar α} (hd : s.isDeterministic = true)
    (hr : ∀ i ∈ s.sources, Inert V (I.read i)) : Inert V (s.value I) :=
  (simulation V).value (J := I) (.refl I.field) (.inl hd) hr

end Inert
end PlaneGeometry
