import PlaneGeometry.Proofs.Reachable
import Mathlib.Logic.Relation

/-!
# What a read of a dynamic source does

A sample is kept as long as the probe accepts it. Otherwise candidates are generated until one is
accepted, and only that one is stored. Main statement: the outcome of a read, the world it leaves,
and what it cannot change.
-/
namespace PlaneGeometry

variable {α σ : Type} [Element α]

namespace Interpretation

variable (I : Interpretation α σ) (r : Rule α)

/-- From the first world the candidates are generated one after the other and the probe rejects
each of them, which leaves the last world. -/
inductive Rejects : World α σ → List (α × α) → World α σ → Prop where
  | nil (w : World α σ) : Rejects w [] w
  | cons {w w₁ w₂ w₃ : World α σ} {v : α × α} {vs : List (α × α)} :
      I.candidate r w = (.ok v, w₁) → I.probe v r w₁ = (.ok false, w₂) → Rejects w₂ vs w₃ →
        Rejects w (v :: vs) w₃

/-- No candidate can be generated, or the probe of the candidate fails. -/
def Fails (w : World α σ) (e : Error) (u : World α σ) : Prop :=
  I.candidate r w = (.error e, u) ∨
    ∃ v w₁, I.candidate r w = (.ok v, w₁) ∧ I.probe v r w₁ = (.error e, u)

/-- There is no sample, or the probe has rejected it. The search for another starts from `u`. -/
def Outdated : Option (α × α) → World α σ → World α σ → Prop
  | none, w, u => u = w
  | some v, w, u => I.probe v r w = (.ok false, u)

variable {I r}

theorem firstAccepted_step {n : Nat} {w w₁ w₂ : World α σ} {v : α × α} {accepted : Bool}
    (hv : I.candidate r w = (.ok v, w₁)) (hp : I.probe v r w₁ = (.ok accepted, w₂)) :
    I.firstAccepted r (n + 1) w =
      if accepted then (.ok (some v), w₂) else I.firstAccepted r n w₂ := by
  rw [firstAccepted, Eval.bind_ok hv, Eval.bind_ok hp]
  cases accepted <;> rfl

theorem firstAccepted_fails {n : Nat} {w u : World α σ} {e : Error} (h : I.Fails r w e u) :
    I.firstAccepted r (n + 1) w = (.error e, u) := by
  rw [firstAccepted]
  rcases h with h | ⟨v, w₁, hv, hp⟩
  · exact Eval.bind_error h _
  · rw [Eval.bind_ok hv]
    exact Eval.bind_error hp _

theorem Rejects.firstAccepted {n : Nat} {w u : World α σ} {vs : List (α × α)}
    (h : I.Rejects r w vs u) : I.firstAccepted r (vs.length + n) w = I.firstAccepted r n u := by
  induction h with
  | nil w => rw [List.length_nil, Nat.zero_add]
  | cons hv hp _ ih =>
    rw [List.length_cons, Nat.add_right_comm, firstAccepted_step hv hp]
    exact ih

private theorem firstAccepted_cases (n : Nat) (w : World α σ) :
    (∃ vs w₁ v w₂ w₃, vs.length < n ∧ I.Rejects r w vs w₁ ∧ I.candidate r w₁ = (.ok v, w₂) ∧
        I.probe v r w₂ = (.ok true, w₃) ∧ I.firstAccepted r n w = (.ok (some v), w₃)) ∨
      (∃ vs u, vs.length = n ∧ I.Rejects r w vs u ∧ I.firstAccepted r n w = (.ok none, u)) ∨
      ∃ vs w₁ e u, vs.length < n ∧ I.Rejects r w vs w₁ ∧ I.Fails r w₁ e u ∧
        I.firstAccepted r n w = (.error e, u) := by
  induction n generalizing w with
  | zero => exact .inr (.inl ⟨[], w, rfl, .nil w, rfl⟩)
  | succ n ih =>
    rcases hv : I.candidate r w with ⟨e | v, w₁⟩
    · exact .inr (.inr ⟨[], w, e, w₁, Nat.succ_pos n, .nil w, .inl hv,
        firstAccepted_fails (.inl hv)⟩)
    rcases hp : I.probe v r w₁ with ⟨e | accepted, w₂⟩
    · have hf : I.Fails r w e w₂ := .inr ⟨v, w₁, hv, hp⟩
      exact .inr (.inr ⟨[], w, e, w₂, Nat.succ_pos n, .nil w, hf, firstAccepted_fails hf⟩)
    have hstep := firstAccepted_step (n := n) hv hp
    cases accepted with
    | true => exact .inl ⟨[], w, v, w₁, w₂, Nat.succ_pos n, .nil w, hv, hp, hstep⟩
    | false =>
      rw [hstep]
      rcases ih w₂ with ⟨vs, u, x, u₁, u₂, hn, hr, h⟩ | ⟨vs, u, hn, hr, h⟩ |
        ⟨vs, u, e, u₁, hn, hr, h⟩
      · exact .inl ⟨v :: vs, u, x, u₁, u₂, Nat.succ_lt_succ hn, .cons hv hp hr, h⟩
      · exact .inr (.inl ⟨v :: vs, u, congrArg Nat.succ hn, .cons hv hp hr, h⟩)
      · exact .inr (.inr ⟨v :: vs, u, e, u₁, Nat.succ_lt_succ hn, .cons hv hp hr, h⟩)

private theorem firstAccepted_eq_some {n : Nat} {w u : World α σ} {v : α × α} :
    I.firstAccepted r n w = (.ok (some v), u) ↔
      ∃ vs w₁ w₂, vs.length < n ∧ I.Rejects r w vs w₁ ∧ I.candidate r w₁ = (.ok v, w₂) ∧
        I.probe v r w₂ = (.ok true, u) := by
  constructor
  · intro h
    rcases firstAccepted_cases n w with ⟨vs, w₁, x, w₂, w₃, hn, hr, hv, hp, he⟩ |
      ⟨vs, w₁, hn, hr, he⟩ | ⟨vs, w₁, e, w₂, hn, hr, hf, he⟩ <;> rw [he] at h <;> cases h
    exact ⟨vs, w₁, w₂, hn, hr, hv, hp⟩
  · intro h
    obtain ⟨vs, w₁, w₂, hn, hr, hv, hp⟩ := h
    obtain ⟨k, rfl⟩ := Nat.exists_eq_add_of_lt hn
    rw [Nat.add_assoc, hr.firstAccepted, firstAccepted_step hv hp]
    rfl

private theorem firstAccepted_eq_none {n : Nat} {w u : World α σ} :
    I.firstAccepted r n w = (.ok none, u) ↔ ∃ vs, vs.length = n ∧ I.Rejects r w vs u := by
  constructor
  · intro h
    rcases firstAccepted_cases n w with ⟨vs, w₁, x, w₂, w₃, hn, hr, hv, hp, he⟩ |
      ⟨vs, w₁, hn, hr, he⟩ | ⟨vs, w₁, e, w₂, hn, hr, hf, he⟩ <;> rw [he] at h <;> cases h
    exact ⟨vs, hn, hr⟩
  · intro h
    obtain ⟨vs, rfl, hr⟩ := h
    exact hr.firstAccepted (n := 0)

private theorem firstAccepted_eq_error {n : Nat} {w u : World α σ} {e : Error} :
    I.firstAccepted r n w = (.error e, u) ↔
      ∃ vs w₁, vs.length < n ∧ I.Rejects r w vs w₁ ∧ I.Fails r w₁ e u := by
  constructor
  · intro h
    rcases firstAccepted_cases n w with ⟨vs, w₁, x, w₂, w₃, hn, hr, hv, hp, he⟩ |
      ⟨vs, w₁, hn, hr, he⟩ | ⟨vs, w₁, e', w₂, hn, hr, hf, he⟩ <;> rw [he] at h <;> cases h
    exact ⟨vs, w₁, hn, hr, hf⟩
  · intro h
    obtain ⟨vs, w₁, hn, hr, hf⟩ := h
    obtain ⟨k, rfl⟩ := Nat.exists_eq_add_of_lt hn
    rw [Nat.add_assoc, hr.firstAccepted, firstAccepted_fails hf]

/-- From the worlds of `V` a candidate can be generated and probed, which stays among them, and the
probe accepts it just if `A`. -/
def Foregone (I : Interpretation α σ) (V : World α σ → Prop) (r : Rule α) (A : Prop) : Prop :=
  ∀ w, V w → ∃ v u b, V u ∧ I.candidate r w = (.ok v, u) ∧ I.probe v r u = (.ok b, u) ∧
    (b = true ↔ A)

/-- One candidate after the other is rejected. -/
theorem Foregone.rejects {V : World α σ → Prop} {A : Prop} (h : I.Foregone V r A) (hA : ¬A)
    (n : Nat) {w : World α σ} (hw : V w) : ∃ vs u, vs.length = n ∧ I.Rejects r w vs u := by
  induction n generalizing w with
  | zero => exact ⟨[], w, rfl, .nil w⟩
  | succ n ih =>
    obtain ⟨v, u, b, hu, hv, hb, hbA⟩ := h w hw
    obtain rfl : b = false := Bool.eq_false_iff.2 fun hb => hA (hbA.1 hb)
    obtain ⟨vs, t, hn, hr⟩ := ih hu
    exact ⟨v :: vs, t, congrArg Nat.succ hn, .cons hv hb hr⟩

theorem outdated_or (c : Option (α × α)) (w : World α σ) :
    (∃ u, I.Outdated r c w u) ∨
      ∃ v, c = some v ∧ ((∃ u, I.probe v r w = (.ok true, u)) ∨
        ∃ e u, I.probe v r w = (.error e, u)) := by
  cases c with
  | none => exact .inl ⟨w, rfl⟩
  | some v =>
    rcases hp : I.probe v r w with ⟨e | accepted, u⟩
    · exact .inr ⟨v, rfl, .inr ⟨e, u, hp⟩⟩
    · cases accepted with
      | true => exact .inr ⟨v, rfl, .inl ⟨u, hp⟩⟩
      | false => exact .inl ⟨u, hp⟩

/-- Where the probe of a sample changes nothing, the search starts from the world as it is. -/
theorem Outdated.world_eq {c : Option (α × α)} {w u : World α σ} (h : I.Outdated r c w u)
    (hprobe : ∀ v, ∃ accepted, I.probe v r w = (.ok accepted, w)) : u = w := by
  cases c with
  | none => exact h
  | some v =>
    obtain ⟨accepted, hp⟩ := hprobe v
    exact (congrArg Prod.snd (hp.symm.trans h)).symm

variable {i : SourceId} {label : String}

theorem regenerate_apply (w : World α σ) : I.regenerate i label r w =
    match I.firstAccepted r attempts w with
      | (.ok (some v), u) => (.ok v, u.update i (Source.withSample (some v)))
      | (.ok none, u) => (.error (.exhausted label attempts), u)
      | (.error e, u) => (.error e, u) := by
  rw [regenerate, Eval.bind_apply]
  rcases I.firstAccepted r attempts w with ⟨e | v | v, u⟩ <;> rfl

private theorem regenerate_eq_ok {w u : World α σ} {v : α × α} :
    I.regenerate i label r w = (.ok v, u) ↔
      ∃ w₁, I.firstAccepted r attempts w = (.ok (some v), w₁) ∧
        u = w₁.update i (Source.withSample (some v)) := by
  rw [regenerate_apply]
  constructor
  · rcases I.firstAccepted r attempts w with ⟨e | x | x, w₁⟩ <;> intro h <;> cases h
    exact ⟨w₁, rfl, rfl⟩
  · intro h
    obtain ⟨w₁, h, rfl⟩ := h
    rw [h]

private theorem regenerate_eq_error {w u : World α σ} {e : Error} :
    I.regenerate i label r w = (.error e, u) ↔
      I.firstAccepted r attempts w = (.error e, u) ∨
        I.firstAccepted r attempts w = (.ok none, u) ∧ e = .exhausted label attempts := by
  rw [regenerate_apply]
  constructor
  · rcases I.firstAccepted r attempts w with ⟨e | x | x, w₁⟩ <;> intro h <;> cases h
    · exact .inl rfl
    · exact .inr ⟨rfl, rfl⟩
  · rintro (h | ⟨h, rfl⟩) <;> rw [h]

end Interpretation

namespace World

/-- The sources of the two worlds are equal but for the samples of those in `S`. -/
structure SameBut (S : SourceId → Prop) (w u : World α σ) : Prop where
  shape : w.SameShape u
  same (i : SourceId) : ¬ S i → u.source? i = w.source? i

namespace SameBut

variable {S T : SourceId → Prop}

theorem refl (w : World α σ) : w.SameBut S w := ⟨.refl w, fun _ _ => rfl⟩

theorem trans {w u v : World α σ} (h : w.SameBut S u) (h' : u.SameBut S v) : w.SameBut S v :=
  ⟨h.shape.trans h'.shape, fun i hi => (h'.same i hi).trans (h.same i hi)⟩

theorem mono {w u : World α σ} (h : w.SameBut S u) (hST : ∀ i, S i → T i) : w.SameBut T u :=
  ⟨h.shape, fun i hi => h.same i fun hs => hi (hST i hs)⟩

theorem sampler (w : World α σ) (t : σ) : w.SameBut S { w with sampler := t } :=
  ⟨.sampler w t, fun _ _ => rfl⟩

theorem withSample (w : World α σ) {i : SourceId} (hi : S i) (v : Option (α × α)) :
    w.SameBut S (w.update i (Source.withSample v)) := by
  refine ⟨.withSample w i v, fun j hj => ?_⟩
  rw [source?_update, if_neg]
  rintro rfl
  exact hj hi

end SameBut

private theorem Ordered.lt_of_reads {w : World α σ} (hw : w.Ordered) {i j : SourceId}
    (h : Relation.TransGen w.Reads i j) : j < i := by
  induction h with
  | single h => exact hw _ _ h
  | tail _ h ih => exact Nat.lt_trans (hw _ _ h) ih

end World

namespace NumericField

variable (F : NumericField α σ)

/-- A read changes samples of the source and of what it reads, directly or not. -/
theorem read_sameBut {w : World α σ} (hw : w.Ordered) (i : SourceId) {u : World α σ}
    (hu : w.SameShape u) : u.SameBut (Relation.ReflTransGen w.Reads i) (F.read i u).2 := by
  induction i using Nat.strongRecOn generalizing u with
  | ind i ih =>
    cases hs : u.source? i with
    | none =>
      rw [F.read_eq_error hs]
      exact .refl u
    | some s =>
      rw [F.read_eq_current (hu.ordered hw) hs]
      -- What `i` reads is older, and what changes in its reads is read by `i` as well.
      have hread (j : SourceId) (hj : w.Reads i j) :
          Alike (u.SameBut (Relation.ReflTransGen w.Reads i)) (F.read j) (F.read j) := by
        intro v hv
        refine ⟨rfl, hv.trans ?_, trivial⟩
        exact (ih j (hw i j hj) (hu.trans hv.shape)).mono fun k hk => .head hj hk
      have h := Interchangeable.of_read (I := F.interpretation) (J := F.interpretation) rfl
        (fun v t hv => hv.trans (.sampler v t)) hread
      have hx : ∀ x ∈ s.scalars, ∀ j ∈ x.sources, w.Reads i j := fun x hx j hj =>
        hu.reads ⟨s, hs, x, hx, hj⟩
      exact (h.current (fun v x hv => hv.trans (.withSample v .refl x)) hx u (.refl u)).2.1

/-- Probes and candidates of a source change samples of what it reads only. -/
theorem interchangeable_reads {w : World α σ} (hw : w.Ordered) (i : SourceId) {u : World α σ}
    (hu : w.SameShape u) : Interchangeable (u.SameBut (Relation.TransGen w.Reads i))
      (fun x => ∀ j ∈ x.sources, w.Reads i j) F.interpretation F.interpretation := by
  refine Interchangeable.of_read rfl (fun v t hv => hv.trans (.sampler v t)) fun j hj v hv => ?_
  refine ⟨rfl, hv.trans ?_, trivial⟩
  exact (F.read_sameBut hw j (hu.trans hv.shape)).mono fun k hk => .head' hj hk

end NumericField

namespace World

theorem sample_of_source? {w : World α σ} {i : SourceId} {label : String} {r : Rule α}
    {c : Option (α × α)} (h : w.source? i = some (.dynamic label r c)) : w.sample i = c := by
  rw [sample, h]

theorem source?_withSample {w : World α σ} {i : SourceId} {label : String} {r : Rule α}
    {c : Option (α × α)} (h : w.source? i = some (.dynamic label r c)) (v : Option (α × α)) :
    (w.update i (Source.withSample v)).source? i = some (.dynamic label r v) := by
  rw [source?_update, if_pos rfl, h]
  rfl

private theorem sample_update {w : World α σ} {i : SourceId} {label : String} {r : Rule α}
    {c : Option (α × α)} (h : w.source? i = some (.dynamic label r c)) (v : α × α) :
    (w.update i (Source.withSample (some v))).sample i = some v :=
  sample_of_source? (source?_withSample h (some v))

private theorem rule_reads {w : World α σ} {i : SourceId} {label : String} {r : Rule α}
    {c : Option (α × α)} (hs : w.source? i = some (.dynamic label r c)) :
    ∀ x ∈ r.scalars, ∀ j ∈ x.sources, w.Reads i j := by
  intro x hx j hj
  exact ⟨.dynamic label r c, hs, x, hx, hj⟩

section

variable (F : NumericField α σ) {w : World α σ} {i : SourceId} {label : String} {r : Rule α}
  {c : Option (α × α)} (hw : w.Ordered) (hs : w.source? i = some (.dynamic label r c))

include hw hs

/-- What changes only what a source reads leaves the source itself. -/
theorem SameBut.source?_self {u : World α σ} (h : w.SameBut (Relation.TransGen w.Reads i) u) :
    u.source? i = some (.dynamic label r c) := by
  have hi : ¬ Relation.TransGen w.Reads i i := by
    intro hi
    exact Nat.lt_irrefl i (hw.lt_of_reads hi)
  rw [h.same i hi, hs]

private theorem probe_sameBut (v : α × α) {u : World α σ}
    (hu : w.SameBut (Relation.TransGen w.Reads i) u) :
    w.SameBut (Relation.TransGen w.Reads i) (F.interpretation.probe v r u).2 := by
  have h := F.interchangeable_reads hw i (.refl w)
  exact (h.probe v (rule_reads hs) u hu).2.1

private theorem firstAccepted_sameBut (n : Nat) {u : World α σ}
    (hu : w.SameBut (Relation.TransGen w.Reads i) u) :
    w.SameBut (Relation.TransGen w.Reads i) (F.interpretation.firstAccepted r n u).2 := by
  have h := F.interchangeable_reads hw i (.refl w)
  exact (h.firstAccepted (rule_reads hs) n u hu).2.1

/-- A probe leaves the source as it is, whatever it says. -/
theorem source?_probe (v : α × α) :
    (F.interpretation.probe v r w).2.source? i = some (.dynamic label r c) :=
  (probe_sameBut F hw hs v (.refl w)).source?_self hw hs

private theorem outdated_sameBut {u : World α σ} (h : F.interpretation.Outdated r c w u) :
    w.SameBut (Relation.TransGen w.Reads i) u := by
  cases c with
  | none =>
    have hu : u = w := h
    rw [hu]
    exact .refl w
  | some v =>
    have hu := probe_sameBut F hw hs v (.refl w)
    rwa [h] at hu

theorem source?_firstAccepted {u : World α σ} (h : F.interpretation.Outdated r c w u)
    (n : Nat) :
    (F.interpretation.firstAccepted r n u).2.source? i = some (.dynamic label r c) := by
  have hu := outdated_sameBut F hw hs h
  exact (firstAccepted_sameBut F hw hs n hu).source?_self hw hs

theorem read_outdated {u : World α σ} (h : F.interpretation.Outdated r c w u) :
    F.read i w = F.interpretation.regenerate i label r u := by
  rw [F.read_eq_current hw hs]
  cases c with
  | none =>
    have hu : u = w := h
    rw [hu]
    rfl
  | some v =>
    rw [Interpretation.current, Eval.bind_ok h]
    rfl

/-- The first accepted of the candidates is the result, and it is stored. -/
theorem read_outdated_eq_ok {w₀ u : World α σ} {v : α × α}
    (h : F.interpretation.Outdated r c w w₀) : F.read i w = (.ok v, u) ↔
      ∃ vs w₁ w₂ w₃, vs.length < Interpretation.attempts ∧
        F.interpretation.Rejects r w₀ vs w₁ ∧ F.interpretation.candidate r w₁ = (.ok v, w₂) ∧
        F.interpretation.probe v r w₂ = (.ok true, w₃) ∧
        u = w₃.update i (Source.withSample (some v)) := by
  rw [read_outdated F hw hs h, Interpretation.regenerate_eq_ok]
  simp only [Interpretation.firstAccepted_eq_some]
  constructor
  · intro hread
    obtain ⟨w₃, ⟨vs, w₁, w₂, hn, hr, hv, hp⟩, hu⟩ := hread
    exact ⟨vs, w₁, w₂, w₃, hn, hr, hv, hp, hu⟩
  · intro hread
    obtain ⟨vs, w₁, w₂, w₃, hn, hr, hv, hp, hu⟩ := hread
    exact ⟨w₃, ⟨vs, w₁, w₂, hn, hr, hv, hp⟩, hu⟩

private theorem read_outdated_eq_error {w₀ u : World α σ} {e : Error}
    (h : F.interpretation.Outdated r c w w₀) : F.read i w = (.error e, u) ↔
      (∃ vs w₁, vs.length < Interpretation.attempts ∧ F.interpretation.Rejects r w₀ vs w₁ ∧
        F.interpretation.Fails r w₁ e u) ∨
      ∃ vs, vs.length = Interpretation.attempts ∧ F.interpretation.Rejects r w₀ vs u ∧
        e = .exhausted label Interpretation.attempts := by
  rw [read_outdated F hw hs h, Interpretation.regenerate_eq_error,
    Interpretation.firstAccepted_eq_error, Interpretation.firstAccepted_eq_none]
  apply or_congr_right
  constructor
  · intro hread
    obtain ⟨⟨vs, hn, hr⟩, he⟩ := hread
    exact ⟨vs, hn, hr, he⟩
  · intro hread
    obtain ⟨vs, hn, hr, he⟩ := hread
    exact ⟨⟨vs, hn, hr⟩, he⟩

section

variable {V : World α σ → Prop} {A : Prop} (hf : F.interpretation.Foregone V r A) {w₀ : World α σ}
  (h : F.interpretation.Outdated r c w w₀) (hV : V w₀)

include hf h hV

theorem read_accepted (hA : A) : ∃ v u, F.interpretation.candidate r w₀ = (.ok v, u) ∧
    F.read i w = (.ok v, u.update i (Source.withSample (some v))) := by
  obtain ⟨v, u, b, -, hv, hb, hbA⟩ := hf w₀ hV
  obtain rfl := hbA.2 hA
  refine ⟨v, u, hv, (read_outdated_eq_ok F hw hs h).2 ?_⟩
  exact ⟨[], w₀, u, u, Nat.succ_pos _, .nil _, hv, hb, rfl⟩

theorem read_exhausted (hA : ¬A) :
    ∃ u, F.read i w = (.error (.exhausted label Interpretation.attempts), u) := by
  obtain ⟨vs, u, hn, hr⟩ := hf.rejects hA Interpretation.attempts hV
  exact ⟨u, (read_outdated_eq_error F hw hs h).2 (.inr ⟨vs, hn, hr, rfl⟩)⟩

end

end

section

variable (F : NumericField α σ) {w : World α σ} {i : SourceId} {label : String} {r : Rule α}
  {v : α × α} (hw : w.Ordered) (hs : w.source? i = some (.dynamic label r (some v)))

include hw hs

theorem read_kept {u : World α σ} (h : F.interpretation.probe v r w = (.ok true, u)) :
    F.read i w = (.ok v, u) := by
  rw [F.read_eq_current hw hs, Interpretation.current, Eval.bind_ok h]
  rfl

theorem read_probe_error {u : World α σ} {e : Error}
    (h : F.interpretation.probe v r w = (.error e, u)) : F.read i w = (.error e, u) := by
  rw [F.read_eq_current hw hs, Interpretation.current]
  exact Eval.bind_error h _

end

section

variable (F : NumericField α σ) {w u : World α σ} {i : SourceId} {label : String} {r : Rule α}
  {c : Option (α × α)} (hw : w.Ordered) (hs : w.source? i = some (.dynamic label r c))

include hw hs

private theorem read_sample {v : α × α} (h : F.read i w = (.ok v, u)) : u.sample i = some v := by
  rcases F.interpretation.outdated_or (r := r) c w with
    ⟨w₀, hw₀⟩ | ⟨x, rfl, ⟨w₁, hp⟩ | ⟨e, w₁, hp⟩⟩
  · have hc := source?_firstAccepted F hw hs hw₀ Interpretation.attempts
    rw [read_outdated F hw hs hw₀] at h
    obtain ⟨w₁, hf, rfl⟩ := Interpretation.regenerate_eq_ok.1 h
    rw [hf] at hc
    exact sample_update hc v
  · have hc := source?_probe F hw hs x
    rw [read_kept F hw hs hp] at h
    rw [hp] at hc
    cases h
    exact sample_of_source? hc
  · rw [read_probe_error F hw hs hp] at h
    cases h

private theorem read_error_sample {e : Error} (h : F.read i w = (.error e, u)) :
    u.sample i = c := by
  rcases F.interpretation.outdated_or (r := r) c w with
    ⟨w₀, hw₀⟩ | ⟨x, rfl, ⟨w₁, hp⟩ | ⟨e', w₁, hp⟩⟩
  · have hc := source?_firstAccepted F hw hs hw₀ Interpretation.attempts
    rw [read_outdated F hw hs hw₀] at h
    rcases Interpretation.regenerate_eq_error.1 h with hf | ⟨hf, -⟩ <;> rw [hf] at hc <;>
      exact sample_of_source? hc
  · rw [read_kept F hw hs hp] at h
    cases h
  · have hc := source?_probe F hw hs x
    rw [read_probe_error F hw hs hp] at h
    rw [hp] at hc
    cases h
    exact sample_of_source? hc

end

section

variable (F : NumericField α σ) {w : World α σ} {i : SourceId} {label : String} {r : Rule α}
  {c : Option (α × α)} (hw : w.Ordered) (hs : w.source? i = some (.dynamic label r c))
  {V : World α σ → Prop} {A : Prop} (hf : F.interpretation.Foregone V r A) (hV : V w)
  (hprobe : ∀ v, ∃ accepted, F.interpretation.probe v r w = (.ok accepted, w))

include hw hs hf hV hprobe

/-- If candidates are accepted, a read succeeds with the sample or with the first candidate. -/
theorem read_succeeds (hA : A) : ∃ v u, F.read i w = (.ok v, u) := by
  rcases F.interpretation.outdated_or (r := r) c w with
    ⟨w₀, hout⟩ | ⟨v, rfl, ⟨u, hp⟩ | ⟨e, u, hp⟩⟩
  · obtain rfl := hout.world_eq hprobe
    obtain ⟨v, u, -, hread⟩ := read_accepted F hw hs hf hout hV hA
    exact ⟨v, _, hread⟩
  · exact ⟨v, u, read_kept F hw hs hp⟩
  · obtain ⟨accepted, hp'⟩ := hprobe v
    cases hp'.symm.trans hp

end

/-- Every read of a dynamic source in a reachable world. A sample that the probe accepts is the
result, and the world is the one that the probe leaves: nothing is generated. Without such a sample
the read succeeds exactly with the first of at most `attempts` candidates that the probe accepts,
and stores it. It fails exactly if the probe of the sample fails, a candidate cannot be generated
or probed, or all are rejected; then the sample stays. No anchor moves, and of the other sources
only those that the rule reads, directly or not, may get another sample. -/
theorem Reachable.read_memoizes (F : NumericField α σ) {w : World α σ} (hw : w.Reachable)
    {i : SourceId} {label : String} {r : Rule α} {c : Option (α × α)}
    (hs : w.source? i = some (.dynamic label r c)) :
    let I := F.interpretation
    (∀ v u, c = some v → I.probe v r w = (.ok true, u) →
      F.read i w = (.ok v, u) ∧ u.sample i = c) ∧
    (∀ v e u, c = some v → I.probe v r w = (.error e, u) → F.read i w = (.error e, u)) ∧
    (∀ w₀, I.Outdated r c w w₀ →
      (∀ v u, F.read i w = (.ok v, u) ↔
        ∃ vs w₁ w₂ w₃, vs.length < Interpretation.attempts ∧ I.Rejects r w₀ vs w₁ ∧
          I.candidate r w₁ = (.ok v, w₂) ∧ I.probe v r w₂ = (.ok true, w₃) ∧
          u = w₃.update i (Source.withSample (some v))) ∧
      (∀ e u, F.read i w = (.error e, u) ↔
        (∃ vs w₁, vs.length < Interpretation.attempts ∧ I.Rejects r w₀ vs w₁ ∧
          I.Fails r w₁ e u) ∨
        ∃ vs, vs.length = Interpretation.attempts ∧ I.Rejects r w₀ vs u ∧
          e = .exhausted label Interpretation.attempts)) ∧
    (∀ v u, F.read i w = (.ok v, u) → u.sample i = some v) ∧
    (∀ e u, F.read i w = (.error e, u) → u.sample i = c) ∧
    (∀ j name p, w.source? j = some (.anchor name p) →
      (F.read i w).2.source? j = some (.anchor name p)) ∧
    (∀ j, j ≠ i → ¬ Relation.TransGen w.Reads i j →
      (F.read i w).2.source? j = w.source? j) := by
  intro I
  have ho := hw.ordered
  have hframe := F.read_sameBut ho i (.refl w)
  refine ⟨?kept, ?probeError, ?outdated, ?stored, ?unstored, ?anchors, ?others⟩
  case kept =>
    rintro v u rfl hp
    have hread := read_kept F ho hs hp
    exact ⟨hread, read_sample F ho hs hread⟩
  case probeError =>
    rintro v e u rfl hp
    exact read_probe_error F ho hs hp
  case outdated =>
    intro w₀ hw₀
    exact ⟨fun v u => read_outdated_eq_ok F ho hs hw₀,
      fun e u => read_outdated_eq_error F ho hs hw₀⟩
  case stored =>
    intro v u h
    exact read_sample F ho hs h
  case unstored =>
    intro e u h
    exact read_error_sample F ho hs h
  case anchors =>
    intro j name p hj
    exact hframe.shape.anchor hj
  case others =>
    intro j hji hj
    apply hframe.same j
    intro h
    rcases Relation.reflTransGen_iff_eq_or_transGen.1 h with he | ht
    · exact hji he
    · exact hj ht

end World

/-- The probe rejects the sample, and the read stores another one. -/
theorem Specimen.read_memoizes_figureMoved : figureMoved.sample 2 = some (5, 1) ∧
    (scriptedSeven.read 2 figureMoved).1.toOption = some (5, 4) ∧
      (scriptedSeven.read 2 figureMoved).2.sample 2 = some (5, 4) := by
  have hread : (scriptedSeven.read 2 figureMoved).1.toOption = some (5, 4) := by decide +kernel
  obtain ⟨c, hc⟩ := pointOnAB_in_figureMoved
  obtain ⟨-, -, -, hstored, -⟩ := reachable_figureMoved.read_memoizes scriptedSeven hc
  refine ⟨by decide +kernel, hread, ?_⟩
  exact hstored (5, 4) _ (Eval.eq_ok_of_toOption hread)
end PlaneGeometry
