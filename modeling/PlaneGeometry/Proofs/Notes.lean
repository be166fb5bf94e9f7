import PlaneGeometry.Proofs.Memoization
import Mathlib.Logic.Function.Basic

/-!
# Notes of what has been read

What evaluation reads is written down. The note of a source is vouched for by the notes of what
this source reads, so no later read of another source can make it untrue, however the probes and
candidates of that other source come out.
-/
namespace PlaneGeometry

variable {α σ τ β γ : Type} [Element α]

/-- What has been read of the sources so far. -/
abbrev Notes (α : Type) := SourceId → Option (α × α)

namespace Notes

/-- The second notes keep what the first say and add sources of `S` only. -/
structure Extends (S : SourceId → Prop) (ρ ρ' : Notes α) : Prop where
  keeps {i : SourceId} {v : α × α} : ρ i = some v → ρ' i = some v
  only {i : SourceId} : ¬ S i → ρ' i = ρ i

namespace Extends

variable {S T : SourceId → Prop} {ρ ρ' ρ'' : Notes α}

omit [Element α] in
theorem refl (ρ : Notes α) : ρ.Extends S ρ := ⟨id, fun _ => rfl⟩

omit [Element α] in
theorem trans (h : ρ.Extends S ρ') (h' : ρ'.Extends S ρ'') : ρ.Extends S ρ'' :=
  ⟨fun hv => h'.keeps (h.keeps hv), fun hi => (h'.only hi).trans (h.only hi)⟩

omit [Element α] in
theorem mono (h : ρ.Extends S ρ') (hST : ∀ i, S i → T i) : ρ.Extends T ρ' :=
  ⟨h.keeps, fun hi => h.only fun hs => hi (hST _ hs)⟩

omit [Element α] in
theorem add {i : SourceId} (hi : S i) (hn : ρ i = none) (v : α × α) :
    ρ.Extends S (Function.update ρ i (some v)) := by
  constructor
  · intro j x hj
    have hji : j ≠ i := by
      rintro rfl
      rw [hn] at hj
      cases hj
    rw [Function.update_of_ne hji, hj]
  · intro j hj
    have hji : j ≠ i := by
      rintro rfl
      exact hj hi
    rw [Function.update_of_ne hji]

end Extends

/-- From these notes or from any that keep them, the computation gives `x` and does nothing. -/
def Recall (ρ : Notes α) (m : Eval α (Notes α) β) (x : β) : Prop :=
  ∀ w : World α (Notes α), (∀ i v, ρ i = some v → w.sampler i = some v) → m w = (.ok x, w)

namespace Recall

variable {ρ ρ' : Notes α} {S : SourceId → Prop} {m : Eval α (Notes α) β} {x y : β}

theorem mono (h : Recall ρ m x) (he : ρ.Extends S ρ') : Recall ρ' m x :=
  fun w hw => h w fun i v hv => hw i v (he.keeps hv)

theorem bind {f : β → Eval α (Notes α) γ} {z : γ} (h : Recall ρ m x) (hf : Recall ρ (f x) z) :
    Recall ρ (m >>= f) z := by
  intro w hw
  rw [Eval.bind_ok (h w hw)]
  exact hf w hw

theorem self (h : Recall ρ m x) (s : Array (Source α)) : m ⟨ρ, s⟩ = (.ok x, ⟨ρ, s⟩) :=
  h ⟨ρ, s⟩ fun _ _ hv => hv

theorem unique (h : Recall ρ m x) (h' : Recall ρ m y) : x = y := by
  have he := (h.self #[]).symm.trans (h'.self #[])
  cases he
  rfl

end Recall
end Notes

namespace NumericField

variable (F : NumericField α σ)

/-- The field with samplers that draw nothing. -/
def muted : NumericField α τ where
  name := F.name
  zero := F.zero
  neg := F.neg
  add := F.add
  one := F.one
  inv := F.inv
  mul := F.mul
  same := F.same
  negligible := F.negligible
  draw := return F.zero
  drawOther x := return x
  order := F.order.map fun o =>
    { greater := fun x => return x, lower := fun x => return x, between := fun x _ => return x,
      compare := o.compare }
  product := F.product

omit [Element α] in
theorem agrees_muted : F.Agrees (F.muted : NumericField α τ) := by
  constructor <;> try rfl
  simp [muted, Function.comp_def]

variable {F} in
omit [Element α] in
theorem Agrees.muted {ν : Type} {G : NumericField α τ} (h : F.Agrees G) :
    (F.muted : NumericField α ν).Agrees G := by
  refine ⟨h.name, h.zero, h.neg, h.add, h.one, h.inv, h.mul, h.same, h.negligible, h.product, ?_⟩
  rw [h.compare]
  simp [NumericField.muted, Function.comp_def]

/-- Every source is what the notes say. -/
def remembered : Interpretation α (Notes α) where
  field := F.muted
  read i := fun w => match w.sampler i with
    | some v => (.ok v, w)
    | none => (.error (.unknownSource i), w)

theorem remembered_read {ρ : Notes α} {i : SourceId} {v : α × α} (h : ρ i = some v) :
    Notes.Recall ρ (F.remembered.read i) v := by
  intro w hw
  change (match w.sampler i with
    | some v => (.ok v, w)
    | none => (.error (.unknownSource i), w) : Except Error (α × α) × World α (Notes α)) = _
  rw [hw i v h]

theorem remembered_read_ok {w u : World α (Notes α)} {i : SourceId} {v : α × α}
    (h : F.remembered.read i w = (.ok v, u)) : u = w ∧ w.sampler i = some v := by
  change (match w.sampler i with
    | some v => (.ok v, w)
    | none => (.error (.unknownSource i), w) : Except Error (α × α) × World α (Notes α)) = _ at h
  cases hn : w.sampler i with
  | none => rw [hn] at h; cases h
  | some x => rw [hn] at h; cases h; exact ⟨rfl, rfl⟩

/-- The notes of what the source reads give `v` for the coordinates of an anchor. For a dynamic
source they accept the sample, and `v` is this sample. -/
def Vouched (ρ : Notes α) (v : α × α) : Source α → Prop
  | .anchor _ p => ρ.Recall (F.remembered.point p) v
  | .dynamic _ r c => c = some v ∧ ρ.Recall (F.remembered.probe v r) true

/-- The notes are true of the world. They are about sources that do not sample. -/
def Holds (ρ : Notes α) (w : World α σ) : Prop :=
  ∀ i v, ρ i = some v → ∃ s, w.source? i = some s ∧
    (∀ x ∈ s.scalars, x.isDeterministic = true) ∧ F.Vouched ρ v s

variable {F}

theorem Vouched.mono {ρ ρ' : Notes α} {S : SourceId → Prop} {v : α × α} {s : Source α}
    (h : F.Vouched ρ v s) (he : ρ.Extends S ρ') : F.Vouched ρ' v s := by
  cases s with
  | anchor name p => exact Notes.Recall.mono h he
  | dynamic label r c => exact ⟨h.1, h.2.mono he⟩

theorem Vouched.unique {ρ : Notes α} {v v' : α × α} {s : Source α} (h : F.Vouched ρ v s)
    (h' : F.Vouched ρ v' s) : v = v' := by
  cases s with
  | anchor name p => exact Notes.Recall.unique h h'
  | dynamic label r c => exact Option.some.inj (h.1.symm.trans h'.1)

theorem holds_empty (w : World α σ) : F.Holds (fun _ => none) w := by
  intro i v h
  cases h

theorem Holds.sampler {ρ : Notes α} {w : World α σ} (h : F.Holds ρ w) (t : σ) :
    F.Holds ρ { w with sampler := t } := h

/-- Notes stay true when a source without a note gets another sample. -/
theorem Holds.withSample {ρ : Notes α} {w : World α σ} (h : F.Holds ρ w) {i : SourceId}
    (hi : ρ i = none) (v : Option (α × α)) : F.Holds ρ (w.update i (Source.withSample v)) := by
  intro j x hj
  have hij : i ≠ j := by
    rintro rfl
    rw [hi] at hj
    cases hj
  rw [World.source?_update, if_neg hij]
  exact h j x hj

theorem Holds.note {ρ : Notes α} {w : World α σ} (h : F.Holds ρ w) {i : SourceId} {s : Source α}
    {S : SourceId → Prop} (hi : S i) (hs : w.source? i = some s)
    (hd : ∀ x ∈ s.scalars, x.isDeterministic = true) {v : α × α} (hv : F.Vouched ρ v s) :
    ∃ ρ', ρ.Extends S ρ' ∧ F.Holds ρ' w ∧ ρ'.Recall (F.remembered.read i) v := by
  cases hn : ρ i with
  | some v' =>
    obtain ⟨s', hs', -, hv'⟩ := h i v' hn
    obtain rfl := Option.some.inj (hs.symm.trans hs')
    obtain rfl := hv.unique hv'
    exact ⟨ρ, .refl ρ, h, F.remembered_read hn⟩
  | none =>
    have he := Notes.Extends.add hi hn v
    refine ⟨_, he, ?_, F.remembered_read (Function.update_self i (some v) ρ)⟩
    intro j x hj
    by_cases hji : j = i
    · subst hji
      rw [Function.update_self] at hj
      cases hj
      exact ⟨s, hs, hd, hv.mono he⟩
    · rw [Function.update_of_ne hji] at hj
      obtain ⟨s', hs', hd', hv'⟩ := h j x hj
      exact ⟨s', hs', hd', hv'.mono he⟩

end NumericField

/-- If the first computation succeeds at `a`, it changes nothing there, and the second gives the
same at `b` and changes nothing. -/
def Forces (a : World α σ) (b : World α τ) {β : Type} (m : Eval α σ β) (m' : Eval α τ β) : Prop :=
  ∀ x u, m a = (.ok x, u) → u = a ∧ m' b = (.ok x, b)

theorem Forces.simulation (a : World α σ) (b : World α τ) :
    Simulation (@Forces α σ τ _ a b) where
  pure x := by
    intro y u h
    cases h
    exact ⟨rfl, rfl⟩
  throw e := by
    intro y u h
    cases h
  bind hm hf := by
    intro y u h
    obtain ⟨x, v, hx, hy⟩ := Eval.bind_eq_ok h
    obtain ⟨rfl, hx'⟩ := hm x v hx
    obtain ⟨rfl, hy'⟩ := hf x y u hy
    exact ⟨rfl, (Eval.bind_ok hx' _).trans hy'⟩

namespace NumericField.Holds

variable {F : NumericField α σ} {ρ : Notes α} {w : World α σ}

/-- A noted source reads as noted, whatever the samplers are. -/
theorem read (h : F.Holds ρ w) (hw : w.Ordered) {G : NumericField α τ} (hG : F.Agrees G)
    {b : World α τ} (hb : ∀ i, b.source? i = w.source? i) (i : SourceId) :
    Forces ⟨ρ, #[]⟩ b (F.remembered.read i) (G.read i) := by
  have hbo : b.Ordered := by
    intro i j hij
    obtain ⟨s, hs, hx⟩ := hij
    exact hw i j ⟨s, hb i ▸ hs, hx⟩
  induction i using Nat.strongRecOn with
  | ind i ih =>
    intro v u hv
    obtain ⟨rfl, hn⟩ := F.remembered_read_ok hv
    refine ⟨rfl, ?_⟩
    obtain ⟨s, hs, hd, hvouched⟩ := h i v hn
    -- The note rests on notes of what the source reads, which is older.
    have hx : ∀ x ∈ s.scalars,
        Forces ⟨ρ, #[]⟩ b (x.value F.remembered) (x.value G.interpretation) := by
      intro x hx
      exact (Forces.simulation _ b).value (I := F.remembered) (J := G.interpretation) hG.muted
        (.inl (hd x hx)) fun j hj => ih j (hw i j ⟨s, hs, x, hx, hj⟩)
    have hsb := (hb i).trans hs
    cases s with
    | anchor name p =>
      rw [G.read_eq_current hbo hsb]
      exact ((Forces.simulation _ b).point hx v _ (hvouched.self #[])).2
    | dynamic label r c =>
      obtain ⟨rfl, hp⟩ := hvouched
      have hprobe := (Forces.simulation _ b).probe (I := F.remembered) (J := G.interpretation)
        hG.muted v hx true _ (hp.self #[])
      exact World.read_kept G hbo hsb hprobe.2

end NumericField.Holds
end PlaneGeometry
