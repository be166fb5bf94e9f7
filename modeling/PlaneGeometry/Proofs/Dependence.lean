import PlaneGeometry.Proofs.Generation

/-!
# What sources depend on

Evaluation replaces samples and nothing else. In a world where every source reads older ones only,
reading a source is evaluation in the world as it is: the bound on the readable sources is never
met.
-/
namespace PlaneGeometry

variable {α σ : Type} [Element α]

@[simp] theorem Source.scalars_withSample (s : Source α) (v : Option (α × α)) :
    (s.withSample v).scalars = s.scalars := by cases s <;> rfl

@[simp] theorem Source.withSample_withSample (s : Source α) (v v' : Option (α × α)) :
    (s.withSample v).withSample v' = s.withSample v' := by cases s <;> rfl

namespace World

theorem source?_update (w : World α σ) (i j : SourceId) (f : Source α → Source α) :
    (w.update i f).source? j = if i = j then (w.source? j).map f else w.source? j := by
  simp [source?, update, Array.getElem?_modify]

/-- The sources of two worlds are equal but for their samples. -/
def SameShape (w u : World α σ) : Prop :=
  ∀ i, (u.source? i).map (Source.withSample none) = (w.source? i).map (Source.withSample none)

namespace SameShape

theorem refl (w : World α σ) : w.SameShape w := fun _ => rfl

theorem symm {w u : World α σ} (h : w.SameShape u) : u.SameShape w := fun i => (h i).symm

theorem trans {w u v : World α σ} (h : w.SameShape u) (h' : u.SameShape v) : w.SameShape v :=
  fun i => (h' i).trans (h i)

theorem sampler (w : World α σ) (t : σ) : w.SameShape { w with sampler := t } := fun _ => rfl

theorem withSample (w : World α σ) (i : SourceId) (v : Option (α × α)) :
    w.SameShape (w.update i (Source.withSample v)) := by
  intro j
  rw [source?_update]
  split
  · rw [Option.map_map]
    congr 1
    funext s
    exact Source.withSample_withSample s v none
  · rfl

theorem source? {w u : World α σ} (h : w.SameShape u) {i : SourceId} {s : Source α}
    (hs : w.source? i = some s) :
    ∃ s', u.source? i = some s' ∧ s'.withSample none = s.withSample none := by
  have hi := h i
  rw [hs] at hi
  exact Option.map_eq_some_iff.1 hi

theorem anchor {w u : World α σ} (h : w.SameShape u) {i : SourceId} {name : String} {p : Point α}
    (hs : w.source? i = some (.anchor name p)) : u.source? i = some (.anchor name p) := by
  obtain ⟨s', hs', he⟩ := h.source? hs
  cases s' with
  | anchor name' p' => cases he; exact hs'
  | dynamic label r v => cases he

theorem dynamic {w u : World α σ} (h : w.SameShape u) {i : SourceId} {label : String} {r : Rule α}
    {v : Option (α × α)} (hs : w.source? i = some (.dynamic label r v)) :
    ∃ v', u.source? i = some (.dynamic label r v') := by
  obtain ⟨s', hs', he⟩ := h.source? hs
  cases s' with
  | anchor name' p' => cases he
  | dynamic label' r' v' => cases he; exact ⟨v', hs'⟩

end SameShape

def Reads (w : World α σ) (i j : SourceId) : Prop :=
  ∃ s, w.source? i = some s ∧ ∃ x ∈ s.scalars, j ∈ x.sources

/-- Every source reads older sources only. -/
def Ordered (w : World α σ) : Prop := ∀ i j, w.Reads i j → j < i

theorem SameShape.reads {w u : World α σ} (h : w.SameShape u) {i j : SourceId}
    (hr : u.Reads i j) : w.Reads i j := by
  obtain ⟨s, hs, x, hx, hj⟩ := hr
  obtain ⟨s', hs', he⟩ := h.symm.source? hs
  refine ⟨s', hs', x, ?_, hj⟩
  rwa [← Source.scalars_withSample s' none, he, Source.scalars_withSample]

theorem SameShape.ordered {w u : World α σ} (h : w.SameShape u) (hw : w.Ordered) : u.Ordered :=
  fun i j hr => hw i j (h.reads hr)

theorem Ordered.wellFounded {w : World α σ} (hw : w.Ordered) :
    WellFounded fun j i => w.Reads i j :=
  Subrelation.wf (fun {j i} hr => hw i j hr) Nat.lt_wfRel.wf

end World

namespace NumericField

variable (F : NumericField α σ)

theorem readBelow_succ (n : Nat) (w : World α σ) :
    F.readBelow (n + 1) n w = match w.source? n with
      | some s => Interpretation.current ⟨F, F.readBelow n⟩ n s w
      | none => (.error (.unknownSource n), w) := by
  rw [readBelow, if_pos rfl]
  change (match w.source? n with
    | some s => Interpretation.current ⟨F, F.readBelow n⟩ n s
    | none => throw (.unknownSource n) : Eval α σ (α × α)) w = _
  cases w.source? n <;> rfl

private theorem readBelow_of_lt {n : Nat} {i : SourceId} (hi : i < n) :
    F.readBelow n i = F.read i := by
  induction n with
  | zero => exact absurd hi (Nat.not_lt_zero i)
  | succ n ih =>
    rcases Nat.lt_succ_iff_lt_or_eq.1 hi with h | rfl
    · rw [readBelow, if_neg (Nat.ne_of_lt h), ih h]
    · rfl

private theorem readBelow_keeps (w : World α σ) (n : Nat) (i : SourceId) :
    Alike w.SameShape (F.readBelow n i) (F.readBelow n i) := by
  induction n generalizing i with
  | zero => exact (Alike.simulation _).throw _
  | succ n ih =>
    by_cases hi : i = n
    · -- The source is read with the bound `i`, which the induction covers.
      subst hi
      intro u hu
      refine ⟨rfl, ?_, trivial⟩
      change w.SameShape (F.readBelow (i + 1) i u).2
      rw [readBelow_succ]
      cases hs : u.source? i with
      | none => exact hu
      | some s =>
        have h := Interchangeable.of_read (S := fun _ => True) (I := ⟨F, F.readBelow i⟩)
          (J := ⟨F, F.readBelow i⟩) rfl (fun u t hu => hu.trans (.sampler u t)) fun j _ => ih j
        exact ((h.current (fun u v hu => hu.trans (.withSample u i v)) (s := s)
          (by simp)) u hu).2.1
    · rw [readBelow, if_neg hi]
      exact ih i

private theorem read_keeps (w : World α σ) (i : SourceId) :
    Alike w.SameShape (F.read i) (F.read i) := F.readBelow_keeps w (i + 1) i

theorem value_sameShape (x : Scalar α) (w : World α σ) :
    w.SameShape (F.interpretation.value x w).2 := by
  have h := Interchangeable.of_read (S := fun _ => True) (I := F.interpretation)
    (J := F.interpretation) rfl (fun u t hu => hu.trans (.sampler u t))
    fun j _ => F.read_keeps w j
  exact (h.value x (by simp) w (.refl w)).2.1

theorem read_sameShape (i : SourceId) (w : World α σ) : w.SameShape (F.read i w).2 :=
  (F.read_keeps w i w (.refl w)).2.1

/-- On the scalars that read sources below `n`, the bound `n` on reading does not show. -/
theorem interchangeable_below (n : Nat) : Interchangeable (fun _ => True)
    (fun x => ∀ i ∈ x.sources, i < n) ⟨F, F.readBelow n⟩ F.interpretation := by
  refine Interchangeable.of_read rfl (fun _ _ _ => trivial) fun i hi => ?_
  change Alike _ (F.readBelow n i) (F.read i)
  rw [F.readBelow_of_lt hi]
  exact fun w _ => ⟨rfl, trivial, trivial⟩

theorem read_eq_current {w : World α σ} (hw : w.Ordered) {i : SourceId} {s : Source α}
    (hs : w.source? i = some s) : F.read i w = F.interpretation.current i s w := by
  have hlt : ∀ x ∈ s.scalars, ∀ j ∈ x.sources, j < i := fun x hx j hj =>
    hw i j ⟨s, hs, x, hx, hj⟩
  have hc := (F.interchangeable_below i).current (i := i) (fun _ _ _ => trivial) hlt w trivial
  rw [read, readBelow_succ, hs]
  exact hc.1

theorem read_eq_error {w : World α σ} {i : SourceId} (hs : w.source? i = none) :
    F.read i w = (.error (.unknownSource i), w) := by
  rw [read, readBelow_succ, hs]

end NumericField
end PlaneGeometry
