import PlaneGeometry.Proofs.Evaluation

/-!
# Relations, constraints and probes side by side

A probe evaluates scalars built from those of the rule and of the sample. What evaluation keeps
for the parts, it keeps for the probe.
-/
namespace PlaneGeometry

variable {α σ τ : Type} [Element α]

def Line.scalars (l : Line α) : List (Scalar α) := l.a.vect ++ l.b.vect
def Segment.scalars (s : Segment α) : List (Scalar α) := s.a.vect ++ s.b.vect
def Circle.scalars (c : Circle α) : List (Scalar α) := c.radius :: (c.center.vect ++ c.rim.vect)

def Relation.scalars : Relation α → List (Scalar α)
  | vertical l | horizontal l => l.scalars
  | parallel l m | perpendicular l m => l.scalars ++ m.scalars
  | inLine p l => p.vect ++ l.scalars
  | inCircle p c => p.vect ++ c.scalars
  | inSegment p s => p.vect ++ s.scalars
  | collinear p q r => p.vect ++ (q.vect ++ r.vect)
  | samePoint p q => p.vect ++ q.vect

def Constraint.scalars : Constraint α → List (Scalar α)
  | free => []
  | inLine l | outsideLine l => l.scalars
  | inSegment s => s.scalars
  | inCircle c | insideCircle c | outsideCircle c => c.scalars

def Rule.scalars : Rule α → List (Scalar α)
  | within c => c.scalars
  | awayFrom p => p.vect

/-- The coordinates of an anchor, or the scalars of the rule of a dynamic source. -/
def Source.scalars : Source α → List (Scalar α)
  | anchor _ p => p.vect
  | dynamic _ r _ => r.scalars

namespace Scalar.Closed

variable {P : Scalar α → Prop} (h : Closed P)

include h

theorem plus (o : Origin) {a b : Scalar α} (ha : P a) (hb : P b) : P (a.plus o b) :=
  h.sum o (by simp [ha, hb])

theorem times (o : Origin) {a b : Scalar α} (ha : P a) (hb : P b) : P (a.times o b) :=
  h.product o (by simp [ha, hb])

theorem squared (o : Origin) {a : Scalar α} (ha : P a) : P (a.squared o) :=
  h.product o (by simp [ha])

theorem ofValues (o : Origin) (x y : α) : ∀ s ∈ (Point.ofValues o x y).vect, P s := by
  simp [Point.vect, Point.ofValues, h.leaf]

theorem towards (o : Origin) {p q : Point α} (hp : ∀ x ∈ p.vect, P x) (hq : ∀ x ∈ q.vect, P x) :
    ∀ x ∈ (p.towards o q).vect, P x := by
  simp only [Point.vect, List.forall_mem_cons] at hp hq
  simp [Displacement.vect, Point.towards, h.diff _ hq.1 hp.1, h.diff _ hq.2.1 hp.2.1]

theorem direction (o : Origin) {l : Line α} (hl : ∀ x ∈ l.scalars, P x) :
    ∀ x ∈ (l.direction o).vect, P x := by
  simp only [Line.scalars, List.forall_mem_append] at hl
  exact h.towards o hl.1 hl.2

theorem dot (o : Origin) {d e : Displacement α} (hd : ∀ x ∈ d.vect, P x)
    (he : ∀ x ∈ e.vect, P x) : P (d.dot o e) := by
  simp only [Displacement.vect, List.forall_mem_cons] at hd he
  refine h.sum o ?_
  simp [Displacement.vect, List.mapIdx, List.mapIdx.go, h.times _ hd.1 he.1,
    h.times _ hd.2.1 he.2.1]

theorem normSquared (o : Origin) {d : Displacement α} (hd : ∀ x ∈ d.vect, P x) :
    P (d.normSquared o) := h.dot o hd hd

private theorem normSquaredOfVect (o : Origin) {p : Point α} (hp : ∀ x ∈ p.vect, P x) :
    P (p.vect.normSquared o) := h.normSquared (d := ⟨p.x, p.y⟩) o hp

theorem cross (o : Origin) {d e : Displacement α} (hd : ∀ x ∈ d.vect, P x)
    (he : ∀ x ∈ e.vect, P x) : P (d.cross o e) := by
  simp only [Displacement.vect, List.forall_mem_cons] at hd he
  exact h.diff o (h.times _ hd.1 he.2.1) (h.times _ hd.2.1 he.1)

theorem radiusSquared (o : Origin) {c : Circle α} (hc : ∀ x ∈ c.scalars, P x) :
    P (c.radiusSquared o) := by
  simp only [Circle.scalars, List.forall_mem_cons, List.forall_mem_append] at hc
  exact h.normSquared o (h.towards _ hc.2.1 hc.2.2)

theorem residual (o : Origin) {r : Relation α} (hr : ∀ x ∈ r.scalars, P x) :
    P (r.residual o) := by
  cases r with
  | vertical l =>
    exact (List.forall_mem_cons.1 (h.direction o hr)).1
  | horizontal l =>
    have hd := (List.forall_mem_cons.1 (h.direction o hr)).2
    exact (List.forall_mem_cons.1 hd).1
  | parallel l m =>
    obtain ⟨hl, hm⟩ := List.forall_mem_append.1 hr
    exact h.cross o (h.direction _ hl) (h.direction _ hm)
  | perpendicular l m =>
    obtain ⟨hl, hm⟩ := List.forall_mem_append.1 hr
    exact h.dot o (h.direction _ hl) (h.direction _ hm)
  | inLine p l =>
    obtain ⟨hp, hl⟩ := List.forall_mem_append.1 hr
    exact h.cross o (h.towards _ (List.forall_mem_append.1 hl).1 hp) (h.direction _ hl)
  | inSegment p s =>
    obtain ⟨hp, hs⟩ := List.forall_mem_append.1 hr
    obtain ⟨ha, hb⟩ := List.forall_mem_append.1 hs
    exact h.cross o (h.towards _ ha hp) (h.towards _ ha hb)
  | inCircle p c =>
    obtain ⟨hp, hc⟩ := List.forall_mem_append.1 hr
    have hcenter := (List.forall_mem_append.1 (List.forall_mem_cons.1 hc).2).1
    exact h.diff o (h.normSquared _ (h.towards _ hcenter hp)) (h.radiusSquared _ hc)
  | collinear p q r =>
    obtain ⟨hp, hqr⟩ := List.forall_mem_append.1 hr
    obtain ⟨hq, hr⟩ := List.forall_mem_append.1 hqr
    exact h.cross o (h.towards _ hp hq) (h.towards _ hp hr)
  | samePoint p q =>
    obtain ⟨hp, hq⟩ := List.forall_mem_append.1 hr
    exact h.normSquared o (h.towards _ hp hq)

theorem squares (o : Origin) {d e : Displacement α} (hd : ∀ x ∈ d.vect, P x)
    (he : ∀ x ∈ e.vect, P x) : P (Relation.magnitude.squares o d e) :=
  h.times o (h.normSquared _ hd) (h.normSquared _ he)

theorem magnitude (o : Origin) {r : Relation α} (hr : ∀ x ∈ r.scalars, P x) :
    P (r.magnitude o) := by
  cases r with
  | vertical l | horizontal l => exact h.normSquared o (h.direction _ hr)
  | parallel l m | perpendicular l m =>
    obtain ⟨hl, hm⟩ := List.forall_mem_append.1 hr
    exact h.squares o (h.direction _ hl) (h.direction _ hm)
  | inLine p l =>
    obtain ⟨hp, hl⟩ := List.forall_mem_append.1 hr
    exact h.squares o (h.towards _ (List.forall_mem_append.1 hl).1 hp) (h.direction _ hl)
  | inSegment p s =>
    obtain ⟨hp, hs⟩ := List.forall_mem_append.1 hr
    obtain ⟨ha, hb⟩ := List.forall_mem_append.1 hs
    exact h.squares o (h.towards _ ha hp) (h.towards _ ha hb)
  | inCircle p c =>
    obtain ⟨hp, hc⟩ := List.forall_mem_append.1 hr
    have hcenter := (List.forall_mem_append.1 (List.forall_mem_cons.1 hc).2).1
    exact h.squared o
      (h.plus _ (h.normSquared _ (h.towards _ hcenter hp)) (h.radiusSquared _ hc))
  | collinear p q r =>
    obtain ⟨hp, hqr⟩ := List.forall_mem_append.1 hr
    obtain ⟨hq, hr⟩ := List.forall_mem_append.1 hqr
    exact h.squares o (h.towards _ hp hq) (h.towards _ hp hr)
  | samePoint p q =>
    obtain ⟨hp, hq⟩ := List.forall_mem_append.1 hr
    exact h.squared o (h.plus _ (h.normSquaredOfVect _ hp) (h.normSquaredOfVect _ hq))

end Scalar.Closed

namespace Simulation

variable {R : ∀ {β : Type}, Eval α σ β → Eval α τ β → Prop} (h : Simulation R)
variable {I : Interpretation α σ} {J : Interpretation α τ}

include h

theorem point {p : Point α} (hp : ∀ x ∈ p.vect, R (x.value I) (x.value J)) :
    R (I.point p) (J.point p) := by
  simp only [Point.vect, List.forall_mem_cons] at hp
  exact h.bind hp.1 fun x => h.bind hp.2.1 fun y => h.pure (x, y)

variable (hF : I.field.Agrees J.field)

include hF

theorem vanishes {r : Relation α} (hr : ∀ x ∈ r.scalars, R (x.value I) (x.value J)) :
    R (I.vanishes r) (J.vanishes r) := by
  have hc := h.closed hF
  apply h.bind (hc.residual _ hr)
  intro x
  apply h.bind (hc.magnitude _ hr)
  intro y
  rw [hF.negligible]
  exact h.pure _

theorem equals {a b : Scalar α} (ha : R (a.value I) (a.value J)) (hb : R (b.value I) (b.value J)) :
    R (I.equals a b) (J.equals a b) := by
  unfold Interpretation.equals
  split
  · exact h.pure true
  · refine h.bind ha fun x => h.bind hb fun y => ?_
    rw [hF.same]
    exact h.pure _

theorem samePoint {p q : Point α} (hp : ∀ x ∈ p.vect, R (x.value I) (x.value J))
    (hq : ∀ x ∈ q.vect, R (x.value I) (x.value J)) : R (I.samePoint p q) (J.samePoint p q) := by
  simp only [Point.vect, List.forall_mem_cons] at hp hq
  apply h.bind (h.equals hF hp.1 hq.1)
  intro x
  cases x with
  | false => exact h.pure false
  | true =>
    apply h.bind (h.equals hF hp.2.1 hq.2.1)
    intro y
    cases y with
    | false => exact h.pure false
    | true => exact h.pure true

theorem inSegment {p : Point α} {s : Segment α}
    (hr : ∀ x ∈ (Relation.inSegment p s).scalars, R (x.value I) (x.value J)) :
    R (I.inSegment p s) (J.inSegment p s) := by
  obtain ⟨hp, hs⟩ := List.forall_mem_append.1 hr
  obtain ⟨ha, hb⟩ := List.forall_mem_append.1 hs
  have hc := h.closed hF
  have hd := hc.towards .scratch ha hb
  apply h.ordered hF
  intro o o' _ _ hoo
  apply h.bind (hc.normSquared _ hd)
  intro len
  rw [hF.zero]
  split
  · exact h.samePoint hF hp ha
  · refine h.bind (h.vanishes hF hr) fun on => ?_
    cases on with
    | false => exact h.pure false
    | true =>
      apply h.bind (hc.dot _ (hc.towards _ ha hp) hd)
      intro t
      simp only [Interpretation.inRange, hF.mul, hF.zero, hF.negligible, hF.sub, hoo]
      exact h.pure _

theorem holds {r : Relation α} (hr : ∀ x ∈ r.scalars, R (x.value I) (x.value J)) :
    R (I.holds r) (J.holds r) := by
  cases r with
  | samePoint p q =>
    obtain ⟨hp, hq⟩ := List.forall_mem_append.1 hr
    exact h.samePoint hF hp hq
  | inSegment p s => exact h.inSegment hF hr
  | _ => exact h.vanishes hF hr

theorem radialOrder {p : Point α} {c : Circle α} (hp : ∀ x ∈ p.vect, R (x.value I) (x.value J))
    (hc : ∀ x ∈ c.scalars, R (x.value I) (x.value J)) :
    R (I.radialOrder p c) (J.radialOrder p c) := by
  have hcl := h.closed hF
  have hcenter := (List.forall_mem_append.1 (List.forall_mem_cons.1 hc).2).1
  apply h.ordered hF
  intro o o' _ _ hoo
  apply h.bind (hcl.normSquared _ (hcl.towards _ hcenter hp))
  intro d
  apply h.bind (hcl.radiusSquared _ hc)
  intro r
  rw [hoo]
  exact h.pure _

theorem admits {p : Point α} {c : Constraint α} (hp : ∀ x ∈ p.vect, R (x.value I) (x.value J))
    (hc : ∀ x ∈ c.scalars, R (x.value I) (x.value J)) : R (I.admits p c) (J.admits p c) := by
  cases c with
  | free => exact h.pure true
  | inLine l => exact h.holds (r := .inLine p l) hF (List.forall_mem_append.2 ⟨hp, hc⟩)
  | outsideLine l =>
    have hr := h.holds (r := .inLine p l) hF (List.forall_mem_append.2 ⟨hp, hc⟩)
    exact h.bind hr fun x => h.pure (!x)
  | inSegment s => exact h.holds (r := .inSegment p s) hF (List.forall_mem_append.2 ⟨hp, hc⟩)
  | inCircle c => exact h.holds (r := .inCircle p c) hF (List.forall_mem_append.2 ⟨hp, hc⟩)
  | insideCircle c => exact h.bind (h.radialOrder hF hp hc) fun x => h.pure (x == some .lt)
  | outsideCircle c => exact h.bind (h.radialOrder hF hp hc) fun x => h.pure (x == some .gt)

theorem probe (v : α × α) {r : Rule α} (hr : ∀ x ∈ r.scalars, R (x.value I) (x.value J)) :
    R (I.probe v r) (J.probe v r) := by
  have hv := (h.closed hF).ofValues .scratch v.1 v.2
  cases r with
  | within c => exact h.admits hF hv hr
  | awayFrom p => exact h.bind (h.samePoint hF hr hv) fun x => h.pure (!x)

end Simulation
end PlaneGeometry
