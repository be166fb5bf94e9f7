import PlaneGeometry.Proofs.Calls
import PlaneGeometry.Proofs.Denotation

/-!
# Constructions capture what they draw

Main statement: given objects that do not sample, every construction returns an object that does not
sample, whatever it has drawn and whichever of its checks have failed. So the object is drawn once,
and evaluating it later draws nothing.
-/
namespace PlaneGeometry

variable {α σ τ β : Type} [Element α]

namespace Interchangeable

variable {V : World α σ → Prop} {P : Scalar α → Prop} {I J : Interpretation α σ}
  (h : Interchangeable V P I J)

include h

theorem other (o : Origin) {x : Scalar α} (hx : P x) : Agree V P (I.other o x) (J.other o x) := by
  apply h.capture o
  apply (Alike.simulation V).bind (h.value x hx)
  intro y
  rw [h.field]
  exact (Alike.samplersRelated h.sampler I.field).drawOther y

theorem segmentInLine (o : Origin) {l : Line α} (hl : ∀ x ∈ l.scalars, P x) :
    Agree V (fun s => ∀ x ∈ s.scalars, P x) (I.segmentInLine o l) (J.segmentInLine o l) := by
  apply (h.drawn _).bind
  intro t ht
  apply (h.other _ ht).bind
  intro u hu
  exact .pure (List.forall_mem_append.2 ⟨h.closed.pointAt _ hl ht, h.closed.pointAt _ hl hu⟩)

theorem circleThrough (o : Origin) {p : Point α} (hp : ∀ x ∈ p.vect, P x) :
    Agree V (fun c => ∀ x ∈ c.scalars, P x) (I.circleThrough o p) (J.circleThrough o p) := by
  apply (h.nonzeroDirection _).bind
  intro d hd
  exact .pure (h.closed.circle o (h.closed.shifted _ hp hd) hp)

theorem circleAround (o : Origin) {p : Point α} (hp : ∀ x ∈ p.vect, P x) :
    Agree V (fun c => ∀ x ∈ c.scalars, P x) (I.circleAround o p) (J.circleAround o p) := by
  apply (h.nonzeroDirection _).bind
  intro d hd
  exact .pure (h.closed.circle o hp (h.closed.shifted _ hp hd))

theorem holds {r : Relation α} (hr : ∀ x ∈ r.scalars, P x) : Alike V (I.holds r) (J.holds r) :=
  (Alike.simulation V).holds h.agrees fun x hx => h.value x (hr x hx)

theorem violation {r : Relation α} (hr : ∀ x ∈ r.scalars, P x) :
    Agree V (fun _ => True) (I.violation r) (J.violation r) :=
  Agree.bind (h.holds hr) fun c _ => match c with
    | .ok true | .ok false | .error _ => .pure trivial

theorem degeneracy {r : Relation α} (hr : ∀ x ∈ r.scalars, P x) (what : String) :
    Agree V (fun _ => True) (I.degeneracy r what) (J.degeneracy r what) :=
  Agree.bind (h.holds hr) fun c _ => match c with
    | .ok true | .ok false | .error _ => .pure trivial

section

variable {c : Circle α} {p : Point α} (hc : ∀ x ∈ c.scalars, P x) (hp : ∀ x ∈ p.vect, P x)
  (o : Origin)

include hc hp

theorem chordThrough : Agree V (fun s => ∀ x ∈ s.scalars, P x) (I.chordThrough o c p)
    (J.chordThrough o c p) := by
  have hcenter := (List.forall_mem_append.1 (List.forall_mem_cons.1 hc).2).1
  apply (h.violation (r := .inCircle p c) (List.forall_mem_append.2 ⟨hp, hc⟩)).bind
  intro e _
  cases e with
  | some e => exact .pure (h.closed.throwingEnds o e)
  | none =>
    apply (h.reflectAbout o hcenter hp).bind
    intro q hq
    exact .pure (List.forall_mem_append.2 ⟨hp, hq⟩)

theorem diameterThrough : Agree V (fun s => ∀ x ∈ s.scalars, P x) (I.diameterThrough o c p)
    (J.diameterThrough o c p) := by
  have hcenter := (List.forall_mem_append.1 (List.forall_mem_cons.1 hc).2).1
  apply (h.violation (r := .inCircle p c) (List.forall_mem_append.2 ⟨hp, hc⟩)).bind
  intro e _
  cases e with
  | some e => exact .pure (h.closed.throwingEnds o e)
  | none => exact .pure (List.forall_mem_append.2 ⟨hp, h.closed.image o hcenter hp⟩)

theorem tangentAt : Agree V (fun l => ∀ x ∈ l.scalars, P x) (I.tangentAt o c p)
    (J.tangentAt o c p) := by
  have hcenter := (List.forall_mem_append.1 (List.forall_mem_cons.1 hc).2).1
  apply (h.violation (r := .inCircle p c) (List.forall_mem_append.2 ⟨hp, hc⟩)).bind
  intro e _
  cases e with
  | some e => exact .pure (h.closed.throwingEnds o e)
  | none =>
    have hl := List.forall_mem_append.2 ⟨hcenter, hp⟩
    exact .pure (h.closed.perpendicularThrough (l := ⟨c.center, p⟩) o hp hl)

end

theorem intersection (o : Origin) {l m : Line α} (hl : ∀ x ∈ l.scalars, P x)
    (hm : ∀ x ∈ m.scalars, P x) : Agree V (fun p => ∀ x ∈ p.vect, P x) (I.intersection o l m)
      (J.intersection o l m) := by
  have hclosed := h.closed
  apply (h.degeneracy (r := .parallel l m) (List.forall_mem_append.2 ⟨hl, hm⟩) _).bind
  intro e _
  cases e with
  | some e => exact .pure (hclosed.throwingPoint o e)
  | none =>
    have hla := (List.forall_mem_append.1 hl).1
    have hma := (List.forall_mem_append.1 hm).1
    have hd := hclosed.direction (o.part 2) hl
    have he := hclosed.direction (o.part 3) hm
    have hk := hclosed.division (o.part 4)
      (hclosed.cross (o.part 6) (hclosed.towards (o.part 5) hla hma) he)
      (hclosed.cross (o.part 7) hd he)
    exact .pure (hclosed.along o hla hk hd)

theorem circleThroughThree (o : Origin) {p q r : Point α} (hp : ∀ x ∈ p.vect, P x)
    (hq : ∀ x ∈ q.vect, P x) (hr : ∀ x ∈ r.vect, P x) :
    Agree V (fun c => ∀ x ∈ c.scalars, P x) (I.circleThroughThree o p q r)
      (J.circleThroughThree o p q r) := by
  have hpq := List.forall_mem_append.2 ⟨hp, hq⟩
  have hqr := List.forall_mem_append.2 ⟨hq, hr⟩
  apply (h.degeneracy (r := .collinear p q r) (List.forall_mem_append.2 ⟨hp, hqr⟩) _).bind
  intro e _
  cases e with
  | some e =>
    have hends := h.closed.throwingEnds (o.part 0) e
    exact .pure (List.forall_mem_cons.2 ⟨h.closed.throwing (o.part 1) e, hends⟩)
  | none =>
    have hab := h.closed.perpendicularThrough (l := ⟨p, q⟩) (o.part 2)
      (h.closed.midpoint (o.part 3) hp hq) hpq
    have hbc := h.closed.perpendicularThrough (l := ⟨q, r⟩) (o.part 4)
      (h.closed.midpoint (o.part 5) hq hr) hqr
    apply (h.intersection (o.part 6) hab hbc).bind
    intro center hcenter
    exact .pure (h.closed.circle o hcenter hp)

end Interchangeable

/-- The constructions, with the objects that they are given. -/
inductive Construction (α : Type) [Element α] where
  | freePoint
  | pointInLine (l : Line α)
  | pointOutsideLine (l : Line α)
  | pointInSegment (s : Segment α)
  | pointInCircle (c : Circle α)
  | pointInsideCircle (c : Circle α)
  | pointOutsideCircle (c : Circle α)
  | lineThrough (p : Point α)
  | parallelThrough (l : Line α) (p : Point α)
  | perpendicularThrough (l : Line α) (p : Point α)
  | verticalThrough (p : Point α)
  | horizontalThrough (p : Point α)
  | segmentInLine (l : Line α)
  | circleThrough (p : Point α)
  | circleAround (center : Point α)
  | chordThrough (c : Circle α) (p : Point α)
  | diameterThrough (c : Circle α) (p : Point α)
  | tangentAt (c : Circle α) (p : Point α)
  | foot (l : Line α) (p : Point α)
  | reflection (l : Line α) (p : Point α)
  | midpoint (p q : Point α)
  | intersection (l m : Line α)
  | circleThroughThree (p q r : Point α)

namespace Construction

/-- The coordinates and radii that are given. -/
def inputs : Construction α → List (Scalar α)
  | freePoint => []
  | pointInLine l | pointOutsideLine l | segmentInLine l => l.scalars
  | pointInSegment s => s.scalars
  | pointInCircle c | pointInsideCircle c | pointOutsideCircle c => c.scalars
  | lineThrough p | verticalThrough p | horizontalThrough p | circleThrough p | circleAround p =>
    p.vect
  | parallelThrough l p | perpendicularThrough l p | foot l p | reflection l p =>
    l.scalars ++ p.vect
  | chordThrough c p | diameterThrough c p | tangentAt c p => c.scalars ++ p.vect
  | midpoint p q => p.vect ++ q.vect
  | intersection l m => l.scalars ++ m.scalars
  | circleThroughThree p q r => p.vect ++ (q.vect ++ r.vect)

/-- The coordinates and the radius of what is returned. -/
def outputs (I : Interpretation α σ) (o : Origin) : Construction α → Act α σ (List (Scalar α))
  | freePoint => do return (← I.freePoint o).vect
  | pointInLine l => do return (← I.pointInLine o l).vect
  | pointOutsideLine l => do return (← I.pointOutsideLine o l).vect
  | pointInSegment s => do return (← I.pointInSegment o s).vect
  | pointInCircle c => do return (← I.pointInCircle o c).vect
  | pointInsideCircle c => do return (← I.pointInsideCircle o c).vect
  | pointOutsideCircle c => do return (← I.pointOutsideCircle o c).vect
  | lineThrough p => do return (← I.lineThrough o p).scalars
  | parallelThrough l p => return (l.parallelThrough o p).scalars
  | perpendicularThrough l p => return (l.perpendicularThrough o p).scalars
  | verticalThrough p => return (Line.verticalThrough o p).scalars
  | horizontalThrough p => return (Line.horizontalThrough o p).scalars
  | segmentInLine l => do return (← I.segmentInLine o l).scalars
  | circleThrough p => do return (← I.circleThrough o p).scalars
  | circleAround p => do return (← I.circleAround o p).scalars
  | chordThrough c p => do return (← I.chordThrough o c p).scalars
  | diameterThrough c p => do return (← I.diameterThrough o c p).scalars
  | tangentAt c p => do return (← I.tangentAt o c p).scalars
  | foot l p => return (l.foot o p).vect
  | reflection l p => return (l.reflection o p).vect
  | midpoint p q => return (Point.midpoint o p q).vect
  | intersection l m => do return (← I.intersection o l m).vect
  | circleThroughThree p q r => do return (← I.circleThroughThree o p q r).scalars

/-- What is given in a closed class comes back in the class. -/
theorem outputs_agree {V : World α σ → Prop} {P : Scalar α → Prop} {I J : Interpretation α σ}
    (h : Interchangeable V P I J) (o : Origin) {c : Construction α} (hc : ∀ x ∈ c.inputs, P x) :
    Agree V (fun v => ∀ x ∈ v, P x) (c.outputs I o) (c.outputs J o) := by
  cases c with
  | freePoint => exact (h.freePoint o).map fun _ => id
  | pointInLine l => exact (h.pointInLine o hc).map fun _ => id
  | pointOutsideLine l => exact (h.pointOutsideLine o hc).map fun _ => id
  | pointInSegment s => exact (h.pointInSegment o hc).map fun _ => id
  | pointInCircle c => exact (h.pointInCircle o hc).map fun _ => id
  | pointInsideCircle c => exact (h.generate (c := .insideCircle c) o hc).map fun _ => id
  | pointOutsideCircle c => exact (h.generate (c := .outsideCircle c) o hc).map fun _ => id
  | lineThrough p => exact (h.lineThrough o hc).map fun _ => id
  | segmentInLine l => exact (h.segmentInLine o hc).map fun _ => id
  | circleThrough p => exact (h.circleThrough o hc).map fun _ => id
  | circleAround p => exact (h.circleAround o hc).map fun _ => id
  | verticalThrough p => exact .pure (h.closed.verticalThrough o hc)
  | horizontalThrough p => exact .pure (h.closed.horizontalThrough o hc)
  | chordThrough c p =>
    obtain ⟨hc, hp⟩ := List.forall_mem_append.1 hc
    exact (h.chordThrough hc hp o).map fun _ => id
  | diameterThrough c p =>
    obtain ⟨hc, hp⟩ := List.forall_mem_append.1 hc
    exact (h.diameterThrough hc hp o).map fun _ => id
  | tangentAt c p =>
    obtain ⟨hc, hp⟩ := List.forall_mem_append.1 hc
    exact (h.tangentAt hc hp o).map fun _ => id
  | parallelThrough l p =>
    obtain ⟨hl, hp⟩ := List.forall_mem_append.1 hc
    exact .pure (h.closed.parallelThrough o hp hl)
  | perpendicularThrough l p =>
    obtain ⟨hl, hp⟩ := List.forall_mem_append.1 hc
    exact .pure (h.closed.perpendicularThrough o hp hl)
  | foot l p =>
    obtain ⟨hl, hp⟩ := List.forall_mem_append.1 hc
    exact .pure (h.closed.foot o hp hl)
  | reflection l p =>
    obtain ⟨hl, hp⟩ := List.forall_mem_append.1 hc
    exact .pure (h.closed.reflection o hp hl)
  | midpoint p q =>
    obtain ⟨hp, hq⟩ := List.forall_mem_append.1 hc
    exact .pure (h.closed.midpoint o hp hq)
  | intersection l m =>
    obtain ⟨hl, hm⟩ := List.forall_mem_append.1 hc
    exact (h.intersection o hl hm).map fun _ => id
  | circleThroughThree p q r =>
    obtain ⟨hp, hqr⟩ := List.forall_mem_append.1 hc
    obtain ⟨hq, hr⟩ := List.forall_mem_append.1 hqr
    exact (h.circleThroughThree o hp hq hr).map fun _ => id

private theorem outputs_closed {P : Scalar α → Prop} (hP : Scalar.Closed P) (I : Interpretation α σ)
    (o : Origin) {c : Construction α} (hc : ∀ x ∈ c.inputs, P x) (w : World α σ) :
    ∀ x ∈ (c.outputs I o w).1, P x := by
  have h : Interchangeable (fun _ => True) P I I :=
    { field := rfl
      sampler _ _ _ := trivial
      closed := hP
      value _ _ _ _ := ⟨rfl, trivial, trivial⟩ }
  exact (outputs_agree h o hc w trivial).2.2

end Construction

namespace World

/-- The live nodes read anchors at coordinates that neither sample nor read. -/
def Steady (w : World α σ) (s : Scalar α) : Prop :=
  ∀ i ∈ s.sources, ∃ name p, w.source? i = some (.anchor name p) ∧
    ∀ x ∈ p.vect, x.isDeterministic = true ∧ x.sources = []

private theorem steady_of_place? {w : World α σ} {s : Scalar α}
    (h : ∀ i ∈ s.sources, (w.place? i).isSome = true) : w.Steady s := by
  intro i hi
  obtain ⟨p, hp⟩ := Option.isSome_iff_exists.1 (h i hi)
  obtain ⟨name, o, o', hs⟩ := source?_of_place? hp
  exact ⟨name, _, hs, by simp [Point.vect, Scalar.isDeterministic, Scalar.sources]⟩

/-- The anchors of the one world are in the other, at the same coordinates. The state of the
samplers and all dynamic sources may be others. -/
def SameAnchors (w : World α σ) (u : World α τ) : Prop :=
  ∀ i name p, w.source? i = some (.anchor name p) → u.source? i = some (.anchor name p)

/-- Reading a steady anchor is evaluating its coordinates, which give the same wherever the anchor
is not moved. -/
theorem inert_read (F : NumericField α τ) {w : World α σ} {i : SourceId} {name : String}
    {p : Point α} (hi : w.source? i = some (.anchor name p))
    (hp : ∀ x ∈ p.vect, x.isDeterministic = true ∧ x.sources = []) :
    Inert (w.SameAnchors (τ := τ)) (F.read i) := by
  have hpoint : Inert (fun _ => True) (Interpretation.point ⟨F, F.readBelow i⟩ p) := by
    apply (Inert.simulation _).point (J := ⟨F, F.readBelow i⟩)
    intro x hx
    obtain ⟨hd, hs⟩ := hp x hx
    exact Inert.value hd (by simp [hs])
  obtain ⟨r, hr⟩ := hpoint
  refine ⟨r, fun u hu => ?_⟩
  rw [NumericField.read, F.readBelow_succ, hu i name p hi]
  exact hr u trivial

private theorem Steady.inert_value (F : NumericField α τ) {w : World α σ} {s : Scalar α}
    (hd : s.isDeterministic = true) (hs : w.Steady s) :
    Inert (w.SameAnchors (τ := τ)) (F.interpretation.value s) := by
  refine Inert.value hd fun i hi => ?_
  obtain ⟨name, p, hsrc, hp⟩ := hs i hi
  exact inert_read F hsrc hp

end World

/-- If no coordinate and no radius that a construction is given samples, then none samples that it
returns, over any field, whatever is drawn and whichever captures and checks fail. If besides, in
some world, what is given reads steady anchors only, then evaluating coordinates and radii of the
result, in any order, has the same outcome wherever the anchors are as in that world, be it values
or an error. It changes nothing and calls no sampler. -/
theorem Construction.captured (F : NumericField α σ) (o : Origin) (w : World α σ)
    {c : Construction α} (hc : ∀ x ∈ c.inputs, x.isDeterministic = true) :
    let made := (c.outputs F.interpretation o w).1
    (∀ x ∈ made, x.isDeterministic = true) ∧
    ∀ {τ : Type} (G : NumericField α τ) (u : World α τ), (∀ x ∈ c.inputs, u.Steady x) →
      ∀ v, (∀ x ∈ v, x ∈ made) → ∃ r, ∀ t : World α τ, u.SameAnchors t →
        G.interpretation.values v t = (r, t) ∧
          t.calls (G.recorded.interpretation.values v) = [] := by
  intro made
  have hdeterministic : ∀ x ∈ made, x.isDeterministic = true :=
    outputs_closed Scalar.closed_deterministic F.interpretation o hc w
  refine ⟨hdeterministic, ?_⟩
  intro τ G u hu v hv
  have hsteady : ∀ x ∈ made, u.Steady x :=
    outputs_closed (Scalar.closed_sources _) F.interpretation o hu w
  have hinert {ρ : Type} (H : NumericField α ρ) :
      Inert (u.SameAnchors (τ := ρ)) (H.interpretation.values v) := by
    apply (Inert.simulation _).values (J := H.interpretation)
    intro x hx
    exact (hsteady x (hv x hx)).inert_value H (hdeterministic x (hv x hx))
  obtain ⟨r, hr⟩ := hinert G
  exact ⟨r, fun t ht => ⟨hr t ht, (hinert G.recorded).calls ht⟩⟩

namespace Specimen

/-- A segment in the line through two anchors. -/
def segmentInAB : Construction UInt64 :=
  .segmentInLine ⟨.live ⟨10, []⟩ 0 "A", .live ⟨11, []⟩ 1 "B"⟩

/-- Its ends, drawn before the first anchor moves. -/
def drawnEnds : List (Scalar UInt64) :=
  (segmentInAB.outputs scriptedSeven.interpretation ⟨12, []⟩ figureABP).1

/-- The ends follow the anchor, and nothing is drawn any more. -/
theorem captured_drawnEnds : (∀ x ∈ drawnEnds, x.isDeterministic = true) ∧
    (scriptedSeven.interpretation.values drawnEnds figureMoved).1.toOption = some [5, 4, 0, 3] ∧
    (scriptedSeven.interpretation.values drawnEnds figureMoved).2 = figureMoved ∧
    figureMoved.calls (scriptedSeven.recorded.interpretation.values drawnEnds) = [] := by
  have hplaced : ∀ x ∈ segmentInAB.inputs, ∀ i ∈ x.sources,
      (figureMoved.place? i).isSome = true := by decide +kernel
  have hsteady : ∀ x ∈ segmentInAB.inputs, figureMoved.Steady x :=
    fun x hx => World.steady_of_place? (hplaced x hx)
  obtain ⟨hdeterministic, h⟩ :=
    Construction.captured scriptedSeven ⟨12, []⟩ figureABP (c := segmentInAB) (by decide +kernel)
  obtain ⟨r, hr⟩ := h scriptedSeven figureMoved hsteady drawnEnds fun _ hx => hx
  obtain ⟨hvalues, hcalls⟩ := hr figureMoved fun _ _ _ hi => hi
  exact ⟨hdeterministic, by decide +kernel, congrArg Prod.snd hvalues, hcalls⟩

end Specimen
end PlaneGeometry
