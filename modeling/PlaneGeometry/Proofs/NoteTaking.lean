import PlaneGeometry.Proofs.Notes

/-!
# Reading takes notes

A source is quiet if no scalar that is evaluated to read it samples. Whatever a computation over
quiet sources does to their samples, it leaves true notes of all that it has read successfully, and
from these notes it would do the same again.
-/
namespace PlaneGeometry

variable {α σ τ β γ : Type} [Element α]

namespace World

/-- Neither the source nor what it reads, directly or not, samples. -/
def QuietSource (w : World α σ) (i : SourceId) : Prop :=
  ∀ j, Relation.ReflTransGen w.Reads i j → ∀ s, w.source? j = some s →
    ∀ x ∈ s.scalars, x.isDeterministic = true

/-- Neither the expression nor what it reads, directly or not, samples. -/
def Quiet (w : World α σ) (x : Scalar α) : Prop :=
  x.isDeterministic = true ∧ ∀ i ∈ x.sources, w.QuietSource i

theorem QuietSource.reads {w : World α σ} {i j : SourceId} (h : w.QuietSource i)
    (hj : w.Reads i j) : w.QuietSource j := by
  intro k hk
  exact h k (.head hj hk)

theorem QuietSource.isDeterministic {w u : World α σ} {i : SourceId} (h : w.QuietSource i)
    (hu : w.SameShape u) {s : Source α} (hs : u.source? i = some s) :
    ∀ x ∈ s.scalars, x.isDeterministic = true := by
  obtain ⟨s', hs', he⟩ := hu.symm.source? hs
  rw [← Source.scalars_withSample s none, ← he, Source.scalars_withSample]
  exact h i .refl s' hs'

theorem quietSource {w : World α σ} {i : SourceId}
    (h : ∀ s ∈ w.sources.toList, ∀ x ∈ s.scalars, x.isDeterministic = true) : w.QuietSource i := by
  intro j _ s hs
  exact h s (Array.mem_toList_iff.2 (Array.mem_of_getElem? hs))

end World

namespace NumericField

variable (F : NumericField α σ)

/-- Notes that say more, about sources of `S`, are true of the world that a computation leaves, in
the shape of `w₀`. If it has succeeded, another computation gives the same from these notes. -/
def Noted (w₀ : World α σ) (S : SourceId → Prop) (ρ : Notes α) {β : Type}
    (outcome : Except Error β × World α σ) (m : Eval α (Notes α) β) : Prop :=
  ∃ ρ', ρ.Extends S ρ' ∧ w₀.SameShape outcome.2 ∧ F.Holds ρ' outcome.2 ∧
    ∀ x, outcome.1 = .ok x → ρ'.Recall m x

/-- This is so wherever the first computation starts with true notes. -/
def Noting (w₀ : World α σ) (S : SourceId → Prop) {β : Type} (m : Eval α σ β)
    (m' : Eval α (Notes α) β) : Prop :=
  ∀ w ρ, w₀.SameShape w → F.Holds ρ w → F.Noted w₀ S ρ (m w) m'

variable {F}

theorem Noted.ok {w₀ u : World α σ} {S : SourceId → Prop} {ρ ρ' : Notes α} {x : β}
    {m : Eval α (Notes α) β} (he : ρ.Extends S ρ') (hu : w₀.SameShape u) (hρ : F.Holds ρ' u)
    (hx : ρ'.Recall m x) : F.Noted w₀ S ρ (.ok x, u) m := by
  refine ⟨ρ', he, hu, hρ, ?_⟩
  intro y hy
  cases hy
  exact hx

theorem Noted.error {w₀ u : World α σ} {S : SourceId → Prop} {ρ ρ' : Notes α} {e : Error}
    {m : Eval α (Notes α) β} (he : ρ.Extends S ρ') (hu : w₀.SameShape u) (hρ : F.Holds ρ' u) :
    F.Noted w₀ S ρ (.error e, u) m := by
  refine ⟨ρ', he, hu, hρ, ?_⟩
  intro y hy
  cases hy

theorem Noting.mono {w₀ : World α σ} {S T : SourceId → Prop} {m : Eval α σ β}
    {m' : Eval α (Notes α) β} (h : F.Noting w₀ S m m') (hST : ∀ i, S i → T i) :
    F.Noting w₀ T m m' := by
  intro w ρ hw hρ
  obtain ⟨ρ', he, hrest⟩ := h w ρ hw hρ
  exact ⟨ρ', he.mono hST, hrest⟩

variable (F) in
theorem Noting.simulation (w₀ : World α σ) (S : SourceId → Prop) :
    Simulation (@Noting α σ _ F w₀ S) where
  pure x := fun w ρ hw hρ => .ok (.refl ρ) hw hρ fun u _ => rfl
  throw e := fun w ρ hw hρ => .error (.refl ρ) hw hρ
  bind {_ _ m m' f f'} hm hf := by
    intro w ρ hw hρ
    obtain ⟨ρ₁, he₁, hs₁, h₁, hx₁⟩ := hm w ρ hw hρ
    rw [Eval.bind_apply]
    rcases hmw : m w with ⟨e | x, u⟩ <;> rw [hmw] at hs₁ h₁ hx₁
    · exact .error he₁ hs₁ h₁
    · obtain ⟨ρ₂, he₂, hs₂, h₂, hx₂⟩ := hf x u ρ₁ hs₁ h₁
      have hx := (hx₁ x rfl).mono he₂
      exact ⟨ρ₂, he₁.trans he₂, hs₂, h₂, fun y hy => hx.bind (hx₂ y hy)⟩

/-- A scalar that does not sample is evaluated from the notes of what it reads. -/
theorem value_noting {w₀ : World α σ} {S : SourceId → Prop} {x : Scalar α}
    (hd : x.isDeterministic = true)
    (hread : ∀ j ∈ x.sources, F.Noting w₀ S (F.read j) (F.remembered.read j)) :
    F.Noting w₀ S (x.value F.interpretation) (x.value F.remembered) :=
  (Noting.simulation F w₀ S).value F.agrees_muted (.inl hd) hread

section

variable {w₀ : World α σ} {i : SourceId} {r : Rule α}
  (hread : ∀ j, w₀.Reads i j → F.Noting w₀ (· < i) (F.read j) (F.remembered.read j))
  (hr : ∀ x ∈ r.scalars, ∀ j ∈ x.sources, w₀.Reads i j)
  (hd : ∀ x ∈ r.scalars, x.isDeterministic = true)

include hread hr

/-- Candidates sample, so their values are not noted; but what they read is. -/
theorem candidate_noting (w : World α σ) (ρ : Notes α) (hw : w₀.SameShape w)
    (hρ : F.Holds ρ w) : ∃ ρ', ρ.Extends (· < i) ρ' ∧
      w₀.SameShape (F.interpretation.candidate r w).2 ∧
      F.Holds ρ' (F.interpretation.candidate r w).2 := by
  have h : Interchangeable
      (fun u => ∃ ρ', ρ.Extends (· < i) ρ' ∧ w₀.SameShape u ∧ F.Holds ρ' u)
      (fun x => ∀ j ∈ x.sources, w₀.Reads i j) F.interpretation F.interpretation := by
    refine Interchangeable.of_read rfl ?_ ?_
    · intro u t hu
      obtain ⟨ρ', he, hs, h⟩ := hu
      exact ⟨ρ', he, hs.trans (.sampler u t), h.sampler t⟩
    · intro j hj u hu
      obtain ⟨ρ', he, hs, h⟩ := hu
      obtain ⟨ρ'', he', hs', h', -⟩ := hread j hj u ρ' hs h
      exact ⟨rfl, ⟨ρ'', he.trans he', hs', h'⟩, trivial⟩
  exact (h.candidate hr w ⟨ρ, .refl ρ, hw, hρ⟩).2.1

include hd

private theorem probe_noting (v : α × α) :
    F.Noting w₀ (· < i) (F.interpretation.probe v r) (F.remembered.probe v r) := by
  apply (Noting.simulation F w₀ _).probe F.agrees_muted v
  intro x hx
  exact value_noting (hd x hx) fun j hj => hread j (hr x hx j hj)

/-- The notes that the search leaves accept the candidate it ends with. -/
theorem firstAccepted_noting (n : Nat) (w : World α σ) (ρ : Notes α) (hw : w₀.SameShape w)
    (hρ : F.Holds ρ w) : ∃ ρ', ρ.Extends (· < i) ρ' ∧
      w₀.SameShape (F.interpretation.firstAccepted r n w).2 ∧
      F.Holds ρ' (F.interpretation.firstAccepted r n w).2 ∧
      ∀ v, (F.interpretation.firstAccepted r n w).1 = .ok (some v) →
        ρ'.Recall (F.remembered.probe v r) true := by
  -- Each attempt starts with the notes that the rejected ones have left.
  induction n generalizing w ρ with
  | zero =>
    refine ⟨ρ, .refl ρ, hw, hρ, ?_⟩
    intro v hv
    cases hv
  | succ n ih =>
    obtain ⟨ρ₁, he₁, hs₁, h₁⟩ := candidate_noting hread hr w ρ hw hρ
    rcases hv : F.interpretation.candidate r w with ⟨e | v, w₁⟩ <;> rw [hv] at hs₁ h₁
    · rw [Interpretation.firstAccepted_fails (.inl hv)]
      refine ⟨ρ₁, he₁, hs₁, h₁, ?_⟩
      intro v hv
      cases hv
    obtain ⟨ρ₂, he₂, hs₂, h₂, hp₂⟩ := probe_noting hread hr hd v w₁ ρ₁ hs₁ h₁
    rcases hp : F.interpretation.probe v r w₁ with ⟨e | accepted, w₂⟩ <;> rw [hp] at hs₂ h₂ hp₂
    · rw [Interpretation.firstAccepted_fails (.inr ⟨v, w₁, hv, hp⟩)]
      refine ⟨ρ₂, he₁.trans he₂, hs₂, h₂, ?_⟩
      intro v hv
      cases hv
    rw [Interpretation.firstAccepted_step hv hp]
    cases accepted with
    | true =>
      refine ⟨ρ₂, he₁.trans he₂, hs₂, h₂, ?_⟩
      intro x hx
      cases hx
      exact hp₂ true rfl
    | false =>
      obtain ⟨ρ₃, he₃, hrest⟩ := ih w₂ ρ₂ hs₂ h₂
      exact ⟨ρ₃, (he₁.trans he₂).trans he₃, hrest⟩

private theorem regenerate_noting (label : String) {w : World α σ} {ρ : Notes α}
    {c : Option (α × α)} (hw : w₀.SameShape w) (hρ : F.Holds ρ w) (hi : ρ i = none)
    (hs : (F.interpretation.firstAccepted r Interpretation.attempts w).2.source? i =
      some (.dynamic label r c)) :
    F.Noted w₀ (· ≤ i) ρ (F.interpretation.regenerate i label r w) (F.remembered.read i) := by
  obtain ⟨ρ₁, he₁, hs₁, h₁, hp₁⟩ :=
    firstAccepted_noting hread hr hd Interpretation.attempts w ρ hw hρ
  have he : ρ.Extends (· ≤ i) ρ₁ := he₁.mono fun j hj => Nat.le_of_lt hj
  rw [Interpretation.regenerate_apply]
  rcases hf : F.interpretation.firstAccepted r Interpretation.attempts w with ⟨e | v | v, u⟩ <;>
    rw [hf] at hs hs₁ h₁ hp₁
  · exact .error he hs₁ h₁
  · exact .error he hs₁ h₁
  · -- The search notes older sources only, so the new sample contradicts no note.
    have hi₁ : ρ₁ i = none := (he₁.only (Nat.lt_irrefl i)).trans hi
    have hsrc := World.source?_withSample hs (some v)
    obtain ⟨ρ₂, he₂, h₂, hv₂⟩ := (h₁.withSample hi₁ (some v)).note (S := (· ≤ i))
      (Nat.le_refl i) hsrc hd ⟨rfl, hp₁ v rfl⟩
    exact .ok (he.trans he₂) (hs₁.trans (.withSample u i (some v))) h₂ hv₂

end

/-- A source whose sample is missing or rejected has no note. -/
theorem Holds.unnoted {w : World α σ} {ρ : Notes α} (h : F.Holds ρ w) {i : SourceId}
    {label : String} {r : Rule α} {c : Option (α × α)}
    (hs : w.source? i = some (.dynamic label r c))
    (hc : ∀ v, c = some v → ¬ ρ.Recall (F.remembered.probe v r) true) : ρ i = none := by
  cases hn : ρ i with
  | none => rfl
  | some v =>
    obtain ⟨s, hs', -, hv⟩ := h i v hn
    obtain rfl := Option.some.inj (hs.symm.trans hs')
    exact absurd hv.2 (hc v hv.1)

section

variable {w₀ : World α σ} (ho : w₀.Ordered) {i : SourceId} {s : Source α}
  (hread : ∀ j, w₀.Reads i j → F.Noting w₀ (· < i) (F.read j) (F.remembered.read j))
  {w : World α σ} {ρ : Notes α} (hw : w₀.SameShape w) (hρ : F.Holds ρ w)

include hread hw hρ

/-- The probe that rejects a sample leaves the source without a note. -/
theorem outdated_noting {label : String} {r : Rule α} {c : Option (α × α)}
    (hs : w.source? i = some (.dynamic label r c)) (hd : ∀ x ∈ r.scalars, x.isDeterministic = true)
    {u : World α σ} (hu : F.interpretation.Outdated r c w u) :
    ∃ ρ', ρ.Extends (· < i) ρ' ∧ w₀.SameShape u ∧ F.Holds ρ' u ∧ ρ' i = none := by
  cases c with
  | none =>
    have hun : ρ i = none := hρ.unnoted hs (by simp)
    have huw : u = w := hu
    rw [huw]
    exact ⟨ρ, .refl ρ, hw, hρ, hun⟩
  | some v =>
    have hr : ∀ x ∈ r.scalars, ∀ j ∈ x.sources, w₀.Reads i j := fun x hx j hj =>
      hw.reads ⟨_, hs, x, hx, hj⟩
    obtain ⟨ρ₁, he₁, hs₁, h₁, hp₁⟩ := probe_noting hread hr hd v w ρ hw hρ
    rw [hu] at hs₁ h₁ hp₁
    -- A note would make the probe accept the sample, now as when the note was taken.
    have hun : ρ i = none := by
      apply hρ.unnoted hs
      intro v' hv' htrue
      cases hv'
      have hfalse := (hp₁ false rfl).unique (htrue.mono he₁)
      cases hfalse
    exact ⟨ρ₁, he₁, hs₁, h₁, (he₁.only (Nat.lt_irrefl i)).trans hun⟩

include ho

private theorem anchor_noting {name : String} {p : Point α}
    (hs : w.source? i = some (.anchor name p)) (hd : ∀ x ∈ p.vect, x.isDeterministic = true) :
    F.Noted w₀ (· ≤ i) ρ (F.read i w) (F.remembered.read i) := by
  have hreads : ∀ x ∈ p.vect, ∀ j ∈ x.sources, w₀.Reads i j := fun x hx j hj =>
    hw.reads ⟨_, hs, x, hx, hj⟩
  have hpoint : F.Noting w₀ (· < i) (F.interpretation.point p) (F.remembered.point p) := by
    apply (Noting.simulation F w₀ _).point
    intro x hx
    exact value_noting (hd x hx) fun j hj => hread j (hreads x hx j hj)
  obtain ⟨ρ₁, he₁, hs₁, h₁, hv₁⟩ := hpoint w ρ hw hρ
  have he : ρ.Extends (· ≤ i) ρ₁ := he₁.mono fun j hj => Nat.le_of_lt hj
  have hcurrent : F.read i w = F.interpretation.point p w := F.read_eq_current (hw.ordered ho) hs
  rw [hcurrent]
  rcases hp : F.interpretation.point p w with ⟨e | v, u⟩ <;> rw [hp] at hs₁ h₁ hv₁
  · exact .error he hs₁ h₁
  · have hsrc := (hw.symm.trans hs₁).anchor hs
    obtain ⟨ρ₂, he₂, h₂, hv₂⟩ := h₁.note (S := (· ≤ i)) (Nat.le_refl i) hsrc hd (hv₁ v rfl)
    exact .ok (he.trans he₂) hs₁ h₂ hv₂

private theorem dynamic_noting {label : String} {r : Rule α} {c : Option (α × α)}
    (hs : w.source? i = some (.dynamic label r c))
    (hd : ∀ x ∈ r.scalars, x.isDeterministic = true) :
    F.Noted w₀ (· ≤ i) ρ (F.read i w) (F.remembered.read i) := by
  have hwo := hw.ordered ho
  have hr : ∀ x ∈ r.scalars, ∀ j ∈ x.sources, w₀.Reads i j := fun x hx j hj =>
    hw.reads ⟨_, hs, x, hx, hj⟩
  rcases F.interpretation.outdated_or (r := r) c w with ⟨u, hu⟩ | ⟨v, rfl, hv⟩
  · obtain ⟨ρ₁, he₁, hs₁, h₁, hi₁⟩ := outdated_noting hread hw hρ hs hd hu
    rw [World.read_outdated F hwo hs hu]
    have hsrc := World.source?_firstAccepted F hwo hs hu Interpretation.attempts
    obtain ⟨ρ₂, he₂, hrest⟩ := regenerate_noting hread hr hd label hs₁ h₁ hi₁ hsrc
    exact ⟨ρ₂, (he₁.mono fun j hj => Nat.le_of_lt hj).trans he₂, hrest⟩
  · obtain ⟨ρ₁, he₁, hs₁, h₁, hp₁⟩ := probe_noting hread hr hd v w ρ hw hρ
    have he : ρ.Extends (· ≤ i) ρ₁ := he₁.mono fun j hj => Nat.le_of_lt hj
    have hsrc := World.source?_probe F hwo hs v
    rcases hv with ⟨u, hp⟩ | ⟨e, u, hp⟩ <;> rw [hp] at hs₁ h₁ hp₁ hsrc
    · rw [World.read_kept F hwo hs hp]
      obtain ⟨ρ₂, he₂, h₂, hv₂⟩ := h₁.note (S := (· ≤ i)) (Nat.le_refl i) hsrc hd
        ⟨rfl, hp₁ true rfl⟩
      exact .ok (he.trans he₂) hs₁ h₂ hv₂
    · rw [World.read_probe_error F hwo hs hp]
      exact .error he hs₁ h₁

end

theorem read_noting {w₀ : World α σ} (ho : w₀.Ordered) {i : SourceId} (hq : w₀.QuietSource i) :
    F.Noting w₀ (· ≤ i) (F.read i) (F.remembered.read i) := by
  induction i using Nat.strongRecOn with
  | ind i ih =>
    -- What the source reads is older and as quiet, so its reads take notes below `i`.
    have hread : ∀ j, w₀.Reads i j → F.Noting w₀ (· < i) (F.read j) (F.remembered.read j) := by
      intro j hj
      have hji := ho i j hj
      exact (ih j hji (hq.reads hj)).mono fun k hk => Nat.lt_of_le_of_lt hk hji
    intro w ρ hw hρ
    cases hs : w.source? i with
    | none =>
      rw [F.read_eq_error hs]
      exact .error (.refl ρ) hw hρ
    | some s =>
      have hd := hq.isDeterministic hw hs
      cases s with
      | anchor name p => exact anchor_noting ho hread hw hρ hs hd
      | dynamic label r c => exact dynamic_noting ho hread hw hρ hs hd

end NumericField
end PlaneGeometry
