import PlaneGeometry.Proofs.Constructions

/-!
# Values need the values of all parts

A settled scalar has a value only if all of its nodes have one. So where a relation between settled
points can be tested, the points have coordinates, and what has been built of points has coordinates
only where these have.
-/
namespace PlaneGeometry

variable {α σ : Type} [Element α]

private theorem isSome_of_mapM {κ : Type} {ds : List (Option κ)} (h : (ds.mapM id).isSome = true) :
    ∀ d ∈ ds, d.isSome = true := by
  rw [mapM_id_eq] at h
  split at h
  · assumption
  · cases h

theorem isSome_of_bind {κ μ : Type} {d : Option κ} {f : κ → Option μ}
    (h : (d >>= f).isSome = true) : d.isSome = true ∧ ∃ k, (f k).isSome = true := by
  cases d with
  | none => cases h
  | some k => exact ⟨rfl, k, h⟩

theorem isSome_of_bind₂ {κ μ ν : Type} {d : Option κ} {e : Option μ} {f : κ → μ → Option ν}
    (h : (d >>= fun k => e >>= f k).isSome = true) : d.isSome = true ∧ e.isSome = true := by
  obtain ⟨hd, k, hk⟩ := isSome_of_bind h
  exact ⟨hd, (isSome_of_bind hk).1⟩

namespace World

variable {F : NumericField α σ} {w : World α σ} {s x n : Scalar α}

theorem Evaluates.part (h : w.Evaluates F s) (hx : x ∈ s.parts) : w.Evaluates F x := by
  refine ⟨h.settled.part hx, ?_⟩
  have hvalue := h.value
  have hworld (y : Scalar α) (hy : y ∈ s.parts) := (h.settled.part hy).value_world F
  have hlist {xs : List (Scalar α)} (hxs : ((xs.map (F.interpretation.outcome w)).mapM id).isSome)
      (hx : x ∈ xs) : (F.interpretation.outcome w x).isSome = true :=
    isSome_of_mapM hxs _ (List.mem_map_of_mem hx)
  cases s <;> simp only [Scalar.parts, List.forall_mem_cons, List.forall_mem_append] at hworld <;>
    simp only [Scalar.parts, List.mem_cons, List.mem_append, List.not_mem_nil, or_false] at hx
  case sum o xs =>
    rw [Interpretation.outcome_sum o hworld] at hvalue
    exact hlist (isSome_of_bind hvalue).1 hx
  case product o xs =>
    rw [Interpretation.outcome_product o hworld] at hvalue
    exact hlist (isSome_of_bind hvalue).1 hx
  case diff o a b =>
    rw [Interpretation.outcome_diff o hworld.1 hworld.2.1] at hvalue
    rcases hx with rfl | rfl
    · exact (isSome_of_bind₂ hvalue).1
    · exact (isSome_of_bind₂ hvalue).2
  case division o a b =>
    rw [Interpretation.outcome_division o hworld.1 hworld.2.1] at hvalue
    rcases hx with rfl | rfl
    · exact (isSome_of_bind₂ hvalue).1
    · exact (isSome_of_bind₂ hvalue).2
  case opposite o a =>
    rw [Interpretation.outcome_opposite o hworld.1] at hvalue
    exact hx ▸ (isSome_of_bind hvalue).1
  case inverse o a =>
    rw [Interpretation.outcome_inverse o hworld.1] at hvalue
    exact hx ▸ (isSome_of_bind hvalue).1
  case norm o v =>
    rw [Interpretation.outcome_norm o hworld] at hvalue
    exact hlist (isSome_of_bind₂ hvalue).2 hx
  case angle o u v =>
    rw [Interpretation.outcome_angle o hworld.1 hworld.2] at hvalue
    obtain ⟨-, p, hrest⟩ := isSome_of_bind hvalue
    rcases hx with hx | hx
    · exact hlist (isSome_of_bind₂ hrest).1 hx
    · exact hlist (isSome_of_bind₂ hrest).2 hx
  case signedAngle o u v =>
    rw [Interpretation.outcome_signedAngle o hworld.1 hworld.2] at hvalue
    obtain ⟨-, p, hrest⟩ := isSome_of_bind hvalue
    rcases hx with hx | hx
    · exact hlist (isSome_of_bind₂ hrest).1 hx
    · exact hlist (isSome_of_bind₂ hrest).2 hx
  case different | between | greater | lower => cases h.settled.deterministic

theorem Evaluates.node (h : w.Evaluates F s) (hn : n ∈ s.nodes) : w.Evaluates F n := by
  induction s using Scalar.induction_parts with
  | h s ih =>
    rcases Scalar.mem_nodes.1 hn with rfl | ⟨x, hx, hn⟩
    · exact h
    · exact ih x hx (h.part hx) hn

theorem HasCoordinates.isThrowing {p : Point α} (h : w.HasCoordinates F p) :
    p.isThrowing = false := by
  have hscalar {x : Scalar α} (hx : (F.interpretation.outcome w x).isSome = true) :
      x.isThrowing = false := by
    cases x with
    | throwing o e => cases hx
    | _ => rfl
  simp only [HasCoordinates, Point.vect, List.forall_mem_cons] at h
  rw [Point.isThrowing, hscalar h.1, hscalar h.2.1]
  rfl

/-- Settled coordinates evaluate wherever they have values later on. -/
theorem HasCoordinates.evaluates {u : World α σ} {p : Point α} (h : u.HasCoordinates F p)
    (hp : w.SettledAt p) (hu : w.Leads u) : ∀ x ∈ p.vect, u.Evaluates F x :=
  fun x hx => ⟨hp.leads hu x hx, h x hx⟩

section

variable {p q : Point α} {d e : Displacement α} {o : Origin}

theorem evaluates_of_towards (h : ∀ x ∈ (p.towards o q).vect, w.Evaluates F x) :
    (∀ x ∈ p.vect, w.Evaluates F x) ∧ ∀ x ∈ q.vect, w.Evaluates F x := by
  simp only [Displacement.vect, Point.towards, List.forall_mem_cons] at h
  simp only [Point.vect, List.forall_mem_cons]
  exact ⟨⟨h.1.part (.tail _ (.head _)), h.2.1.part (.tail _ (.head _)), h.2.2⟩,
    h.1.part (.head _), h.2.1.part (.head _), h.2.2⟩

theorem evaluates_of_shifted (h : ∀ x ∈ (p.shifted o d).vect, w.Evaluates F x) :
    (∀ x ∈ p.vect, w.Evaluates F x) ∧ ∀ x ∈ d.vect, w.Evaluates F x := by
  simp only [Point.vect, Point.shifted, List.forall_mem_cons] at h
  simp only [Point.vect, Displacement.vect, List.forall_mem_cons]
  exact ⟨⟨h.1.part (.head _), h.2.1.part (.head _), h.2.2⟩,
    h.1.part (.tail _ (.head _)), h.2.1.part (.tail _ (.head _)), h.2.2⟩

theorem evaluates_of_dot (h : w.Evaluates F (d.dot o e)) :
    (∀ x ∈ d.vect, w.Evaluates F x) ∧ ∀ x ∈ e.vect, w.Evaluates F x := by
  have hx := h.part (x := .times (o.part 0) d.x e.x) (.head _)
  have hy := h.part (x := .times (o.part 1) d.y e.y) (.tail _ (.head _))
  simp only [Displacement.vect, List.forall_mem_cons]
  exact ⟨⟨hx.part (.head _), hy.part (.head _), by simp⟩,
    hx.part (.tail _ (.head _)), hy.part (.tail _ (.head _)), by simp⟩

theorem evaluates_of_cross (h : w.Evaluates F (d.cross o e)) :
    (∀ x ∈ d.vect, w.Evaluates F x) ∧ ∀ x ∈ e.vect, w.Evaluates F x := by
  have hx := h.part (x := .times (o.part 0) d.x e.y) (.head _)
  have hy := h.part (x := .times (o.part 1) d.y e.x) (.tail _ (.head _))
  simp only [Displacement.vect, List.forall_mem_cons]
  exact ⟨⟨hx.part (.head _), hy.part (.head _), by simp⟩,
    hy.part (.tail _ (.head _)), hx.part (.tail _ (.head _)), by simp⟩

theorem evaluates_of_mirrored {u : Displacement α}
    (h : ∀ x ∈ (Point.mirrored o p q u).vect, w.Evaluates F x) :
    (∀ x ∈ p.vect, w.Evaluates F x) ∧ ∀ x ∈ q.vect, w.Evaluates F x := by
  have hproduct := (h _ (.head _)).part (.tail _ (.head _))
  have hdivision := (hproduct.part (.head _)).part (.tail _ (.head _))
  exact evaluates_of_towards (evaluates_of_dot (hdivision.part (.head _))).1

theorem evaluates_of_image (h : ∀ x ∈ (p.image o q).vect, w.Evaluates F x) :
    (∀ x ∈ p.vect, w.Evaluates F x) ∧ ∀ x ∈ q.vect, w.Evaluates F x := by
  simp only [Point.vect, Point.image, List.forall_mem_cons] at h
  have hx := h.1.part (.head _)
  have hy := h.2.1.part (.head _)
  simp only [Point.vect, List.forall_mem_cons]
  exact ⟨⟨hx.part (.tail _ (.head _)), hy.part (.tail _ (.head _)), by simp⟩,
    h.1.part (.tail _ (.head _)), h.2.1.part (.tail _ (.head _)), by simp⟩

end

/-- The magnitude of a relation is computed from all of its points. -/
theorem Locates.of_magnitude {r : Relation α} {o : Origin} (h : w.Evaluates F (r.magnitude o)) :
    w.Locates F r := by
  have hsquares {d e : Displacement α} (h : w.Evaluates F (Relation.magnitude.squares o d e)) :
      (∀ x ∈ d.vect, w.Evaluates F x) ∧ ∀ x ∈ e.vect, w.Evaluates F x :=
    ⟨(evaluates_of_dot (h.part (.head _))).1, (evaluates_of_dot (h.part (.tail _ (.head _)))).1⟩
  have hvect {p : Point α} {o : Origin} (h : w.Evaluates F (p.vect.normSquared o)) :
      ∀ x ∈ p.vect, w.Evaluates F x :=
    (evaluates_of_dot (d := ⟨p.x, p.y⟩) (e := ⟨p.x, p.y⟩) h).1
  cases r <;> simp only [Locates, Relation.points, List.forall_mem_cons]
  case vertical l | horizontal l =>
    have hl := evaluates_of_towards (evaluates_of_dot h).1
    exact ⟨hl.1, hl.2, by simp⟩
  case parallel l m | perpendicular l m =>
    obtain ⟨hl, hm⟩ := hsquares h
    have hl := evaluates_of_towards hl
    have hm := evaluates_of_towards hm
    exact ⟨hl.1, hl.2, hm.1, hm.2, by simp⟩
  case inLine p l | inSegment p l =>
    obtain ⟨hp, hl⟩ := hsquares h
    have hp := evaluates_of_towards hp
    have hl := evaluates_of_towards hl
    exact ⟨hp.2, hl.1, hl.2, by simp⟩
  case collinear p q r =>
    obtain ⟨hq, hr⟩ := hsquares h
    have hq := evaluates_of_towards hq
    have hr := evaluates_of_towards hr
    exact ⟨hq.1, hq.2, hr.2, by simp⟩
  case inCircle p c =>
    have hsum := h.part (.head _)
    have hp := evaluates_of_towards (evaluates_of_dot (hsum.part (.head _))).1
    have hr := evaluates_of_towards (evaluates_of_dot (hsum.part (.tail _ (.head _)))).1
    exact ⟨hp.2, hp.1, hr.2, by simp⟩
  case samePoint p q =>
    have hsum := h.part (.head _)
    exact ⟨hvect (hsum.part (.head _)), hvect (hsum.part (.tail _ (.head _))), by simp⟩

end World

/-- From every world, evaluating the scalar raises the error, which was known when it was built. -/
def NumericField.Raises (F : NumericField α σ) (e : Error) (s : Scalar α) : Prop :=
  ∀ w, F.interpretation.value s w = (.error (.deferred e), w)

theorem NumericField.raises_throwing (F : NumericField α σ) (e : Error) (o : Origin) :
    F.Raises e (.throwing o e) := fun _ => rfl

theorem NumericField.raises_throwingEnds (F : NumericField α σ) (e : Error) (o : Origin) :
    ∀ x ∈ (Point.throwing o e).vect ++ (Point.throwing o e).vect, F.Raises e x := by
  simp [Point.vect, Point.throwing, F.raises_throwing]

/-- Nothing that is tested depends on radii. -/
theorem Scalar.Closed.exists_same_test {P : Scalar α → Prop} (hP : Closed P) {r : Relation α}
    (hr : ∀ p ∈ r.points, ∀ x ∈ p.vect, P x) : ∃ r' : Relation α, (∀ x ∈ r'.scalars, P x) ∧
      (∀ o, r'.residual o = r.residual o) ∧ (∀ o, r'.magnitude o = r.magnitude o) ∧
        ∀ I : Interpretation α σ, I.holds r' = I.holds r := by
  cases r with
  | inCircle p c =>
    refine ⟨.inCircle p ⟨c.center, .zero .scratch, c.rim⟩, ?_, fun _ => rfl, fun _ => rfl,
      fun _ => rfl⟩
    simp only [Relation.points, List.forall_mem_cons] at hr
    simp only [Relation.scalars, Circle.scalars, List.forall_mem_append, List.forall_mem_cons]
    exact ⟨hr.1, hP.zero _, hr.2.1, hr.2.2.1⟩
  | _ =>
    refine ⟨_, ?_, fun _ => rfl, fun _ => rfl, fun _ => rfl⟩
    simpa [Relation.points, Relation.scalars, Line.scalars, Segment.scalars, or_imp,
      forall_and] using hr

namespace World

variable (F : NumericField α σ) {w : World α σ} {r : Relation α}
  (hs : ∀ p ∈ r.points, w.SettledAt p)

include hs

theorem inert_holds : Inert w.SameSources (F.interpretation.holds r) := by
  obtain ⟨r', hr', -, -, hsame⟩ := w.settled_closed.exists_same_test hs
  rw [← hsame]
  refine (Inert.simulation _).holds (J := F.interpretation) (.refl F) fun x hx => ?_
  exact (hr' x hx).value_same F

/-- It fails unless the points have coordinates. -/
theorem Locates.of_holds (hr : r.Unordered) (hne : ∀ p q, r ≠ .samePoint p q) {b : Bool}
    {u : World α σ} (h : F.interpretation.holds r w = (.ok b, u)) : w.Locates F r := by
  obtain ⟨r', hr', hresidual, hmagnitude, -⟩ := (w.settled_closed).exists_same_test (σ := σ) hs
  have hres : w.Settled (r.residual .scratch) :=
    hresidual .scratch ▸ w.settled_closed.residual .scratch hr'
  have hmag : w.Settled (r.magnitude .scratch) :=
    hmagnitude .scratch ▸ w.settled_closed.magnitude .scratch hr'
  have hvanishes : F.interpretation.vanishes r w = (.ok b, u) := by
    cases r with
    | samePoint p q => exact absurd rfl (hne p q)
    | inSegment p s => exact hr.elim
    | _ => exact h
  obtain ⟨x, v, hx, hrest⟩ := Eval.bind_eq_ok hvanishes
  obtain rfl : v = w := (congrArg Prod.snd hx).symm.trans (hres.value_world F)
  obtain ⟨y, v', hy, -⟩ := Eval.bind_eq_ok hrest
  refine .of_magnitude (o := .scratch) ⟨hmag, ?_⟩
  rw [Interpretation.outcome_eq_some.2 (congrArg Prod.fst hy)]
  rfl

end World
end PlaneGeometry
