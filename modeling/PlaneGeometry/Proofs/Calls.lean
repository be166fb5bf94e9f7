import PlaneGeometry.Proofs.Nodes
import PlaneGeometry.Proofs.Reachable

/-!
# Calls of the samplers

A field that keeps a record of the calls of its samplers computes and draws as before, and the
record tells what an evaluation has asked for. Main statement: a successful evaluation passes every
node of the tree and calls the sampler of each node that has one, as often as the node occurs.
-/
namespace PlaneGeometry

/-- What was called, and with which arguments. -/
structure Call (α : Type) where
  sampler : Sampler
  arguments : List α
  deriving DecidableEq, Repr

/-- The calls in the order in which they were made, beside the state of the field underneath. -/
abbrev Recorded (α σ : Type) := List (Call α) × σ

variable {α σ β γ : Type}

def Call.noting (c : Call α) (d : StateM σ β) : StateM (Recorded α σ) β := fun (calls, t) =>
  let (x, t) := d t
  (x, (calls ++ [c], t))

def FieldOrder.recorded (o : FieldOrder α σ) : FieldOrder α (Recorded α σ) where
  greater x := Call.noting ⟨.greater, [x]⟩ (o.greater x)
  lower x := Call.noting ⟨.lower, [x]⟩ (o.lower x)
  between x y := .mk (Call.noting ⟨.between, [x, y]⟩ (o.between x y).run)
  compare := o.compare

/-- The field with a record of the calls. -/
def NumericField.recorded (F : NumericField α σ) : NumericField α (Recorded α σ) where
  name := F.name
  zero := F.zero
  neg := F.neg
  add := F.add
  one := F.one
  inv := F.inv
  mul := F.mul
  same := F.same
  negligible := F.negligible
  draw := Call.noting ⟨.draw, []⟩ F.draw
  drawOther x := Call.noting ⟨.drawOther, [x]⟩ (F.drawOther x)
  order := F.order.map FieldOrder.recorded
  product := F.product

private theorem NumericField.recorded_agrees (F : NumericField α σ) : F.recorded.Agrees F := by
  constructor <;> try rfl
  change F.order.map FieldOrder.compare = (F.order.map FieldOrder.recorded).map FieldOrder.compare
  rw [Option.map_map]
  rfl

private theorem NumericField.order_recorded {F : NumericField α σ} {o : FieldOrder α σ}
    {o' : FieldOrder α (Recorded α σ)} (h' : F.recorded.order = some o') (h : F.order = some o) :
    o' = o.recorded := by
  have hmap : F.recorded.order = some o.recorded := congrArg (Option.map _) h
  exact Option.some.inj (h'.symm.trans hmap)

variable [Element α]

namespace World

def recording (w : World α σ) : World α (Recorded α σ) := ⟨([], w.sampler), w.sources⟩

def forget (w : World α (Recorded α σ)) : World α σ := ⟨w.sampler.2, w.sources⟩

/-- The calls that the computation makes. -/
def calls (w : World α σ) (m : Eval α (Recorded α σ) β) : List (Call α) :=
  (m w.recording).2.sampler.1

end World

/-- But for the record, both computations do the same. -/
def Erases {β : Type} (m : Eval α (Recorded α σ) β) (m' : Eval α σ β) : Prop :=
  ∀ w, ((m w).1, (m w).2.forget) = m' w.forget

namespace Erases

theorem simulation : Simulation (@Erases α σ _) where
  pure _ _ := rfl
  throw _ _ := rfl
  bind {_ _ m m' f f'} hm hf := by
    intro w
    rw [Eval.bind_apply, Eval.bind_apply, ← hm w]
    rcases m w with ⟨e | x, u⟩
    · rfl
    · exact hf x u

theorem samplersRelated (F : NumericField α σ) :
    SamplersRelated (@Erases α σ _) F.recorded F where
  draw _ := rfl
  drawOther _ _ := rfl
  greater _ ho ho' := by
    obtain rfl := NumericField.order_recorded ho ho'
    exact fun _ => rfl
  lower _ ho ho' := by
    obtain rfl := NumericField.order_recorded ho ho'
    exact fun _ => rfl
  between _ _ ho ho' := by
    obtain rfl := NumericField.order_recorded ho ho'
    exact fun _ => rfl

theorem value (F : NumericField α σ) {s : Scalar α} (hs : s.sources = []) :
    Erases (F.recorded.interpretation.value s) (F.interpretation.value s) :=
  simulation.value F.recorded_agrees (.inr (samplersRelated F)) (by simp [hs])

end Erases

/-- A run that succeeds calls the samplers of the nodes one after the other, and none of the nodes
throws. -/
def Spends (ns : List (Scalar α)) (m : Eval α (Recorded α σ) β) : Prop :=
  ∀ w x u, m w = (.ok x, u) → (∀ n ∈ ns, n.isThrowing = false) ∧
    ∃ calls : List (Call α), u.sampler.1 = w.sampler.1 ++ calls ∧
      calls.map Call.sampler = ns.filterMap Scalar.sampler?

namespace Spends

variable {ns ns' : List (Scalar α)} {n : Scalar α} {m : Eval α (Recorded α σ) β}

theorem throw (ns : List (Scalar α)) (e : Error) :
    Spends ns (throw e : Eval α (Recorded α σ) β) := by
  intro w x u h
  cases h

theorem lift (r : Except Error β) : Spends [] (liftM r : Eval α (Recorded α σ) β) := by
  cases r with
  | error e => exact throw [] e
  | ok y =>
    intro w x u h
    cases h
    exact ⟨by simp, [], by simp, rfl⟩

theorem bind {f : β → Eval α (Recorded α σ) γ} (hm : Spends ns m) (hf : ∀ x, Spends ns' (f x)) :
    Spends (ns ++ ns') (m >>= f) := by
  intro w y u h
  obtain ⟨x, v, hx, hy⟩ := Eval.bind_eq_ok h
  obtain ⟨hns, calls, hv, hcalls⟩ := hm w x v hx
  obtain ⟨hns', calls', hu, hcalls'⟩ := hf x v y u hy
  refine ⟨List.forall_mem_append.2 ⟨hns, hns'⟩, calls ++ calls', ?_, ?_⟩
  · rw [hu, hv, List.append_assoc]
  · rw [List.map_append, List.filterMap_append, hcalls, hcalls']

/-- A node that does not sample computes with what its parts have given. -/
theorem node (h : Spends [] m) (hs : n.sampler? = none) (ht : n.isThrowing = false) :
    Spends [n] m := by
  intro w x u hx
  obtain ⟨-, calls, hu, hcalls⟩ := h w x u hx
  refine ⟨by simpa using ht, calls, hu, ?_⟩
  rw [hcalls, List.filterMap_cons_none hs]

/-- A node that samples makes one call. -/
theorem call {c : Call α} (h : ∀ w, (m w).2.sampler.1 = w.sampler.1 ++ [c])
    (hs : n.sampler? = some c.sampler) (ht : n.isThrowing = false) : Spends [n] m := by
  intro w x u hx
  have hu := h w
  rw [hx] at hu
  refine ⟨by simpa using ht, [c], hu, ?_⟩
  rw [List.filterMap_cons_some hs]
  rfl

theorem values {I : Interpretation α (Recorded α σ)} {xs : List (Scalar α)}
    (hx : ∀ x ∈ xs, Spends x.nodes (x.value I)) :
    Spends (Scalar.nodes.all xs) (Scalar.value.values I xs) := by
  induction xs with
  | nil => exact lift (.ok [])
  | cons x xs ih =>
    have hxs := ih fun y hy => hx y (List.mem_cons_of_mem x hy)
    have h := (hx x List.mem_cons_self).bind fun y => hxs.bind fun ys => lift (.ok (y :: ys))
    rwa [List.append_nil] at h

/-- Operands pass their nodes in their order, and the node itself comes last. -/
theorem closed (I : Interpretation α (Recorded α σ)) :
    Scalar.Closed fun s => Spends s.nodes (s.value I) where
  leaf _ v := (lift (.ok v)).node rfl rfl
  zero _ := (lift (.ok _)).node rfl rfl
  one _ := (lift (.ok _)).node rfl rfl
  throwing _ _ := throw _ _
  sum _ _ hx := (values hx).bind fun _ => (lift (.ok _)).node rfl rfl
  product _ _ hx := (values hx).bind fun _ => (lift (.ok _)).node rfl rfl
  diff _ _ _ ha hb := ha.bind fun _ => hb.bind fun _ => (lift (.ok _)).node rfl rfl
  division _ _ _ ha hb := ha.bind fun _ => hb.bind fun _ =>
    ((lift _).bind fun _ => (lift _).bind fun _ => lift (.ok _)).node rfl rfl
  opposite _ _ hx := hx.bind fun _ => (lift (.ok _)).node rfl rfl
  inverse _ _ hx := hx.bind fun _ => ((lift _).bind fun _ => lift _).node rfl rfl
  norm _ _ hv := (lift _).bind fun _ => (values hv).bind fun _ => (lift _).node rfl rfl
  angle _ _ _ hv hw := (lift _).bind fun _ =>
    (values hv).bind fun _ => (values hw).bind fun _ => (lift _).node rfl rfl
  signedAngle _ _ _ hv hw := (lift _).bind fun _ =>
    (values hv).bind fun _ => (values hw).bind fun _ => (lift _).node rfl rfl

/-- An ordering that is there has been made from the one of the field underneath. -/
theorem ordered {F : NumericField α σ} {f : FieldOrder α (Recorded α σ) → Eval α (Recorded α σ) β}
    (hf : ∀ o : FieldOrder α σ, Spends ns (f o.recorded)) :
    Spends ns ((liftM F.recorded.ordered : Eval α (Recorded α σ) _) >>= f) := by
  cases ho : F.order with
  | none =>
    simp only [NumericField.ordered, NumericField.recorded, ho]
    exact throw ns _
  | some o =>
    simp only [NumericField.ordered, NumericField.recorded, ho]
    exact hf o

theorem sampling (F : NumericField α σ) :
    Scalar.Sampling fun s => Spends s.nodes (s.value F.recorded.interpretation) where
  random _ := call (c := ⟨.draw, []⟩) (fun _ => rfl) rfl rfl
  different _ _ hx := hx.bind fun x =>
    call (c := ⟨.drawOther, [x]⟩) (fun _ => rfl) rfl rfl
  between _ _ _ ha hb := ordered fun _ => ha.bind fun x => hb.bind fun y =>
    call (c := ⟨.between, [x, y]⟩) (fun _ => rfl) rfl rfl
  greater _ _ hx := ordered fun _ => hx.bind fun x =>
    call (c := ⟨.greater, [x]⟩) (fun _ => rfl) rfl rfl
  lower _ _ hx := ordered fun _ => hx.bind fun x =>
    call (c := ⟨.lower, [x]⟩) (fun _ => rfl) rfl rfl

theorem value (F : NumericField α σ) {s : Scalar α} (hs : s.sources = []) :
    Spends s.nodes (F.recorded.interpretation.value s) :=
  (closed _).mem s (.inr (sampling F)) (by simp [hs])

end Spends

/-- What does nothing makes no calls. -/
theorem Inert.calls {V : World α (Recorded α σ) → Prop} {m : Eval α (Recorded α σ) β}
    (h : Inert V m) {w : World α σ} (hw : V w.recording) : w.calls m = [] := by
  obtain ⟨r, hr⟩ := h
  rw [World.calls, hr _ hw]
  rfl

/-- Evaluation of a scalar without live nodes, in any world. A record of the calls changes nothing
else. If there is a value, then the samplers of the nodes have been called, each node's as often as
the node occurs and in the order of the tree; no node throws; and a sampler has been called just if
the scalar counts as one that samples. If it does not, then it has one result in all worlds, leaves
them as they are and calls no sampler, whether it has a value or fails. -/
theorem NumericField.evaluation_strict (F : NumericField α σ) {s : Scalar α}
    (hs : s.sources = []) :
    let m := F.recorded.interpretation.value s
    (∀ w : World α σ,
      ((m w.recording).1, (m w.recording).2.forget) = F.interpretation.value s w) ∧
    (∀ w v u, F.interpretation.value s w = (.ok v, u) →
      (w.calls m).map Call.sampler = s.nodes.filterMap Scalar.sampler? ∧
      (w.calls m).length = s.nodes.countP (·.sampler?.isSome) ∧
      (∀ n ∈ s.nodes, n.isThrowing = false) ∧
      (w.calls m ≠ [] ↔ s.isDeterministic = false)) ∧
    (s.isDeterministic = true →
      ∃ r, ∀ w, F.interpretation.value s w = (r, w) ∧ w.calls m = []) := by
  intro m
  have herases (w : World α σ) := Erases.value F hs w.recording
  refine ⟨herases, ?_, ?_⟩
  · intro w v u h
    have hm : m w.recording = (.ok v, (m w.recording).2) := by
      refine Prod.ext ?_ rfl
      exact (congrArg Prod.fst (herases w)).trans (congrArg Prod.fst h)
    obtain ⟨hthrows, calls, hu, hcalls⟩ := Spends.value F hs _ _ _ hm
    have he : w.calls m = calls := hu
    rw [he]
    refine ⟨hcalls, ?_, hthrows, ?_⟩
    · rw [← List.length_filterMap_eq_countP, ← hcalls, List.length_map]
    · rw [Ne, ← List.map_eq_nil_iff, hcalls, List.filterMap_eq_nil_iff,
        ← Scalar.isDeterministic_iff, Bool.not_eq_true]
  · intro hd
    have hinert {τ : Type} (G : NumericField α τ) :
        Inert (fun _ => True) (G.interpretation.value s) := Inert.value hd (by simp [hs])
    obtain ⟨r, hr⟩ := hinert F
    exact ⟨r, fun w => ⟨hr w trivial, (hinert F.recorded).calls trivial⟩⟩

namespace Specimen

/-- A draw that is used twice, the second time together with a draw that differs from a third. -/
def redrawn : Scalar UInt64 :=
  let x := .random ⟨1, []⟩
  .sum ⟨2, []⟩ [x, .product ⟨3, []⟩ [x, .different ⟨4, []⟩ x]]

/-- The draws are 3, 5 and 2, and then 3 once more. -/
theorem evaluation_strict_redrawn :
    figureABP.calls (scriptedSeven.recorded.interpretation.value redrawn) =
      [⟨.draw, []⟩, ⟨.draw, []⟩, ⟨.draw, []⟩, ⟨.drawOther, [2]⟩] ∧
    (figureABP.calls (scriptedSeven.recorded.interpretation.value redrawn)).length =
      redrawn.nodes.countP (·.sampler?.isSome) := by
  have hvalue : (scriptedSeven.interpretation.value redrawn figureABP).1.toOption = some 4 := by
    decide +kernel
  have h := (scriptedSeven.evaluation_strict (s := redrawn) rfl).2.1 figureABP 4 _
    (Eval.eq_ok_of_toOption hvalue)
  exact ⟨by decide +kernel, h.2.1⟩

end Specimen
end PlaneGeometry
