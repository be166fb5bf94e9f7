import PlaneGeometry.Proofs.NoteTaking

/-!
# Evaluating twice

Main statement: an expression that samples nowhere keeps the value it had, and its second
evaluation does nothing but read samples.
-/
namespace PlaneGeometry

variable {α σ τ β γ : Type} [Element α]

/-- If the computation succeeds at `a`, it changes nothing there, and the condition is not met. -/
def Barred (a : World α σ) (condition : Prop) {β : Type} (m : Eval α σ β) : Prop :=
  ∀ x u, m a = (.ok x, u) → u = a ∧ ¬ condition

namespace Barred

variable {a : World α σ} {b c : Prop}

theorem mono {m : Eval α σ β} (h : Barred a b m) (hcb : c → b) : Barred a c m := by
  intro x u hx
  obtain ⟨hu, hb⟩ := h x u hx
  exact ⟨hu, fun hc => hb (hcb hc)⟩

theorem lift (r : Except Error β) : Barred a False (liftM r : Eval α σ β) := by
  intro x u hx
  cases r with
  | ok y => cases hx; exact ⟨rfl, id⟩
  | error e => cases hx

theorem bind {m : Eval α σ β} {f : β → Eval α σ γ} (hm : Barred a b m)
    (hf : ∀ x, Barred a c (f x)) : Barred a (b ∨ c) (m >>= f) := by
  intro y u hy
  obtain ⟨x, v, hx, hxy⟩ := Eval.bind_eq_ok hy
  obtain ⟨rfl, hb⟩ := hm x v hx
  obtain ⟨rfl, hc⟩ := hf x y u hxy
  exact ⟨rfl, not_or.2 ⟨hb, hc⟩⟩

variable {I : Interpretation α σ} {i : SourceId}

theorem values {xs : List (Scalar α)} (hx : ∀ x ∈ xs, Barred a (i ∈ x.sources) (x.value I)) :
    Barred a (i ∈ Scalar.sources.all xs) (Scalar.value.values I xs) := by
  induction xs with
  | nil => exact (lift (.ok [])).mono (by simp [Scalar.sources.all])
  | cons x xs ih =>
    have hxs := ih fun y hy => hx y (List.mem_cons_of_mem x hy)
    refine ((hx x List.mem_cons_self).bind fun y => hxs.bind fun ys =>
      lift (.ok (y :: ys))).mono ?_
    simp [Scalar.sources.all]

theorem closed : Scalar.Closed fun x => Barred a (i ∈ x.sources) (x.value I) where
  leaf _ v := (lift (.ok v)).mono (by simp [Scalar.sources])
  zero _ := (lift (.ok _)).mono (by simp [Scalar.sources])
  one _ := (lift (.ok _)).mono (by simp [Scalar.sources])
  throwing _ e := (lift (.error _)).mono (by simp [Scalar.sources])
  sum _ _ hx := ((values hx).bind fun _ => lift (.ok _)).mono (by simp [Scalar.sources])
  product _ _ hx := ((values hx).bind fun _ => lift (.ok _)).mono (by simp [Scalar.sources])
  diff _ _ _ ha hb := by
    refine (ha.bind fun _ => hb.bind fun _ => lift (.ok _)).mono ?_
    simp [Scalar.sources]
  division _ _ _ ha hb := by
    refine (ha.bind fun _ => hb.bind fun _ => (lift _).bind fun _ => (lift _).bind fun _ =>
      lift (.ok _)).mono ?_
    simp [Scalar.sources]
  opposite _ _ hx := (hx.bind fun _ => lift (.ok _)).mono (by simp [Scalar.sources])
  inverse _ _ hx := (hx.bind fun _ => (lift _).bind fun _ => lift _).mono (by simp [Scalar.sources])
  norm _ _ hv := ((lift _).bind fun _ => (values hv).bind fun _ => lift _).mono
    (by simp [Scalar.sources])
  angle _ _ _ hv hw := by
    refine ((lift _).bind fun _ => (values hv).bind fun _ => (values hw).bind fun _ =>
      lift _).mono ?_
    simp [Scalar.sources]
  signedAngle _ _ _ hv hw := by
    refine ((lift _).bind fun _ => (values hv).bind fun _ => (values hw).bind fun _ =>
      lift _).mono ?_
    simp [Scalar.sources]

/-- An expression that does not sample has no value where a source of it cannot be read. -/
theorem value (hread : ∀ j, Barred a (i = j) (I.read j)) {x : Scalar α}
    (hx : x.isDeterministic = true) : Barred a (i ∈ x.sources) (x.value I) := by
  refine closed.mem x (.inl hx) ?_
  intro j _ o label k
  exact ((hread j).bind fun p => lift (liveCoordinate label p k)).mono (by simp [Scalar.sources])

end Barred

namespace NumericField

variable {F : NumericField α σ}

/-- An expression that has a value from notes has notes of all its sources. -/
theorem remembered_sources {ρ : Notes α} {x : Scalar α} (hd : x.isDeterministic = true) {v : α}
    (h : ρ.Recall (x.value F.remembered) v) {i : SourceId} (hi : i ∈ x.sources) :
    ∃ p, ρ i = some p := by
  cases hn : ρ i with
  | some p => exact ⟨p, rfl⟩
  | none =>
    have hread : ∀ j, Barred ⟨ρ, #[]⟩ (i = j) (F.remembered.read j) := by
      intro j p u hp
      obtain ⟨rfl, hj⟩ := F.remembered_read_ok hp
      refine ⟨rfl, ?_⟩
      rintro rfl
      exact absurd (hn.symm.trans hj) (by simp)
    exact absurd hi (Barred.value hread hd v _ (h.self #[])).2

end NumericField

/-- An expression that samples nowhere, not even in what it reads, and has had the value `v` has it
again. The world stays as the first evaluation left it, and the samplers are not called: any others
do as well. All reads of a dynamic source within the expression have given its present sample. -/
theorem World.Reachable.value_stable (F : NumericField α σ) {w u : World α σ} (hw : w.Reachable)
    {x : Scalar α} (hx : w.Quiet x) {v : α} (h : F.interpretation.value x w = (.ok v, u)) :
    F.interpretation.value x u = (.ok v, u) ∧
      (∀ {τ : Type} (G : NumericField α τ), F.Agrees G → ∀ t : τ,
        G.interpretation.value x ⟨t, u.sources⟩ = (.ok v, ⟨t, u.sources⟩)) ∧
      ∃ p : SourceId → α × α,
        (∀ i ∈ x.sources, ∀ label r c, u.source? i = some (.dynamic label r c) → c = some (p i)) ∧
        x.value ⟨F, fun i => return p i⟩ u = (.ok v, u) := by
  have ho := hw.ordered
  have hnoting : F.Noting w (fun _ => True) (x.value F.interpretation) (x.value F.remembered) :=
    NumericField.value_noting hx.1 fun i hi =>
      (NumericField.read_noting ho (hx.2 i hi)).mono fun _ _ => trivial
  have hfirst : x.value F.interpretation w = (.ok v, u) := h
  obtain ⟨ρ, -, hs, hρ, hv⟩ := hnoting w _ (.refl w) (NumericField.holds_empty w)
  rw [hfirst] at hs hρ hv
  have hrecall := hv v rfl
  have hagain {τ : Type} (G : NumericField α τ) (hG : F.Agrees G) (t : τ) :
      G.interpretation.value x ⟨t, u.sources⟩ = (.ok v, ⟨t, u.sources⟩) := by
    have hread := hρ.read (hs.ordered ho) hG (b := ⟨t, u.sources⟩) fun _ => rfl
    exact ((Forces.simulation _ _).value (I := F.remembered) (J := G.interpretation) hG.muted
      (.inl hx.1) (fun i _ => hread i) v _ (hrecall.self #[])).2
  have hnote (i : SourceId) (q : α × α) (hq : ρ i = some q) :
      (ρ i).getD (F.zero, F.zero) = q := by rw [hq, Option.getD_some]
  refine ⟨hagain F (.refl F) u.sampler, hagain, fun i => (ρ i).getD (F.zero, F.zero), ?_, ?_⟩
  · intro i hi label r c hsrc
    obtain ⟨q, hq⟩ := NumericField.remembered_sources hx.1 hrecall hi
    obtain ⟨s, hs', -, hvouched⟩ := hρ i q hq
    obtain rfl := Option.some.inj (hsrc.symm.trans hs')
    exact hvouched.1.trans (congrArg some (hnote i q hq).symm)
  · have hread : ∀ i, Forces ⟨ρ, #[]⟩ u (F.remembered.read i)
        (return (ρ i).getD (F.zero, F.zero) : Eval α σ (α × α)) := by
      intro i q u' hq
      obtain ⟨rfl, hi⟩ := F.remembered_read_ok hq
      exact ⟨rfl, congrArg (fun p => (Except.ok p, u)) (hnote i q hi)⟩
    exact ((Forces.simulation _ u).value (I := F.remembered) (J := ⟨F, _⟩)
      (NumericField.Agrees.refl F).muted (.inl hx.1) (fun i _ => hread i) v _
      (hrecall.self #[])).2

namespace Specimen

/-- An expression that reads both coordinates of the point. -/
def slopeOfP : Scalar UInt64 :=
  .division ⟨7, []⟩ (pointOnAB.point ⟨8, []⟩).y (pointOnAB.point ⟨9, []⟩).x

private theorem quiet_slopeOfP : figureMoved.Quiet slopeOfP := by
  have hquiet : figureMoved.QuietSource 2 := World.quietSource (by decide +kernel)
  refine ⟨rfl, ?_⟩
  intro i hi
  have hi2 : i = 2 := by
    simpa [slopeOfP, pointOnAB, DynamicPoint.point, Point.live, Scalar.sources] using hi
  rw [hi2]
  exact hquiet

theorem value_stable_slopeOfP :
    scriptedSeven.interpretation.value slopeOfP
        (scriptedSeven.interpretation.value slopeOfP figureMoved).2 =
      (.ok 5, (scriptedSeven.interpretation.value slopeOfP figureMoved).2) := by
  have hfirst : (scriptedSeven.interpretation.value slopeOfP figureMoved).1.toOption = some 5 := by
    decide +kernel
  exact (reachable_figureMoved.value_stable scriptedSeven quiet_slopeOfP
    (Eval.eq_ok_of_toOption hfirst)).1

end Specimen
end PlaneGeometry
