import PlaneGeometry.Proofs.Probing

/-!
# Generating and reading side by side

Constructions catch failures, so here computations are compared from one world at a time: they do
the same, stay among the worlds of a class and give results of a class.
-/
namespace PlaneGeometry

variable {α σ β γ : Type} [Element α]

/-- From every world of the class `V` both computations do the same, end in a world of `V` and
give a result of the class `Q`. -/
def Agree (V : World α σ → Prop) (Q : β → Prop) (m m' : Act α σ β) : Prop :=
  ∀ w, V w → m w = m' w ∧ V (m w).2 ∧ Q (m w).1

namespace Agree

variable {V : World α σ → Prop} {Q : β → Prop} {S : γ → Prop}

theorem pure {x : β} (hx : Q x) : Agree V Q (Pure.pure x) (Pure.pure x) :=
  fun _ hw => ⟨rfl, hw, hx⟩

theorem bind {m m' : Act α σ β} {f f' : β → Act α σ γ} (hm : Agree V Q m m')
    (hf : ∀ x, Q x → Agree V S (f x) (f' x)) : Agree V S (m >>= f) (m' >>= f') := by
  intro w hw
  obtain ⟨he, hv, hq⟩ := hm w hw
  have hfx := hf _ hq _ hv
  rw [Act.bind_apply, Act.bind_apply, ← he]
  exact hfx

theorem map {m m' : Act α σ β} {f : β → γ} (hm : Agree V Q m m') (hf : ∀ x, Q x → S (f x)) :
    Agree V S (do return f (← m)) (do return f (← m')) :=
  hm.bind fun x hx => .pure (hf x hx)

end Agree

/-- The same for computations that may fail, whatever the result. -/
def Alike (V : World α σ → Prop) {β : Type} (m m' : Eval α σ β) : Prop :=
  Agree V (fun _ => True) m.run m'.run

namespace Alike

variable {V : World α σ → Prop}

theorem simulation (V : World α σ → Prop) : Simulation (@Alike α σ _ V) where
  pure _ := Agree.pure trivial
  throw _ := Agree.pure trivial
  bind {_ _ _ _ f f'} hm hf := by
    have hr (r) : Agree V (fun _ => True) (ExceptT.bindCont f r) (ExceptT.bindCont f' r) := by
      cases r with
      | ok x => exact hf x
      | error e => exact Agree.pure trivial
    exact Agree.bind hm fun r _ => hr r

private theorem lift_bind {Q : β → Prop} {m m' : Act α σ β} {f f' : β → Eval α σ γ}
    (hm : Agree V Q m m') (hf : ∀ x, Q x → Alike V (f x) (f' x)) :
    Alike V ((liftM m : Eval α σ β) >>= f) ((liftM m' : Eval α σ β) >>= f') :=
  Agree.bind hm hf

theorem samplersRelated (hV : ∀ w t, V w → V { w with sampler := t }) (F : NumericField α σ) :
    SamplersRelated (@Alike α σ _ V) F F where
  draw w hw := ⟨rfl, hV w _ hw, trivial⟩
  drawOther _ w hw := ⟨rfl, hV w _ hw, trivial⟩
  greater _ ho ho' w hw := by
    obtain rfl := Option.some.inj (ho.symm.trans ho')
    exact ⟨rfl, hV w _ hw, trivial⟩
  lower _ ho ho' w hw := by
    obtain rfl := Option.some.inj (ho.symm.trans ho')
    exact ⟨rfl, hV w _ hw, trivial⟩
  between _ _ ho ho' w hw := by
    obtain rfl := Option.some.inj (ho.symm.trans ho')
    exact ⟨rfl, hV w _ hw, trivial⟩

end Alike

theorem Scalar.closed_sources (S : SourceId → Prop) :
    Scalar.Closed (α := α) fun x => ∀ i ∈ x.sources, S i := by
  constructor <;> simp only [Scalar.sources, Scalar.mem_all_sources, List.mem_append] <;> grind

/-- Two interpretations over one field under which the scalars of a closed class have the same
values, in the worlds of `V`. -/
structure Interchangeable (V : World α σ → Prop) (P : Scalar α → Prop)
    (I J : Interpretation α σ) : Prop where
  field : J.field = I.field
  sampler : ∀ w t, V w → V { w with sampler := t }
  closed : Scalar.Closed P
  value : ∀ x, P x → Alike V (x.value I) (x.value J)

theorem Interchangeable.of_read {V : World α σ → Prop} {S : SourceId → Prop}
    {I J : Interpretation α σ} (hF : J.field = I.field)
    (hV : ∀ w t, V w → V { w with sampler := t })
    (hr : ∀ i, S i → Alike V (I.read i) (J.read i)) :
    Interchangeable V (fun x => ∀ i ∈ x.sources, S i) I J where
  field := hF
  sampler := hV
  closed := Scalar.closed_sources S
  value x hx := by
    refine (Alike.simulation V).value (hF ▸ .refl _) (.inr ?_) fun i hi => hr i (hx i hi)
    rw [hF]
    exact Alike.samplersRelated hV I.field

/-- The image of `q` in the line through the center along `u`. -/
def Point.mirrored (o : Origin) (center q : Point α) (u : Displacement α) : Point α :=
  let w := center.towards (o.part 3) q
  let k := .times (o.part 4) (.two (o.part 5))
    (.division (o.part 6) (w.dot (o.part 7) u) (u.dot (o.part 8) u))
  ⟨.diff (o.part 0) q.x (.times ((o.part 0).part 0) k u.x),
    .diff (o.part 1) q.y (.times ((o.part 1).part 0) k u.y)⟩

namespace Scalar.Closed

variable {P : Scalar α → Prop} (h : Closed P)

include h

theorem shifted (o : Origin) {p : Point α} {d : Displacement α} (hp : ∀ x ∈ p.vect, P x)
    (hd : ∀ x ∈ d.vect, P x) : ∀ x ∈ (p.shifted o d).vect, P x := by
  simp only [Point.vect, Displacement.vect, List.forall_mem_cons] at hp hd
  simp [Point.vect, Point.shifted, h.plus _ hp.1 hd.1, h.plus _ hp.2.1 hd.2.1]

theorem along (o : Origin) {p : Point α} {k : Scalar α} {d : Displacement α}
    (hp : ∀ x ∈ p.vect, P x) (hk : P k) (hd : ∀ x ∈ d.vect, P x) :
    ∀ x ∈ (p.along o k d).vect, P x := by
  refine h.shifted o hp ?_
  simp only [Displacement.vect, List.forall_mem_cons] at hd
  simp [Displacement.vect, h.times _ hk hd.1, h.times _ hk hd.2.1]

theorem pointAt (o : Origin) {l : Line α} {t : Scalar α} (hl : ∀ x ∈ l.scalars, P x) (ht : P t) :
    ∀ x ∈ (l.pointAt o t).vect, P x :=
  h.along o (List.forall_mem_append.1 hl).1 ht (h.direction _ hl)

theorem normal (o : Origin) {l : Line α} (hl : ∀ x ∈ l.scalars, P x) :
    ∀ x ∈ (l.normal o).vect, P x := by
  have hd := h.direction (o.part 0) hl
  simp only [Displacement.vect, List.forall_mem_cons] at hd
  simp [Displacement.vect, Line.normal, Displacement.turned, hd.1, h.opposite _ hd.2.1]

theorem two (o : Origin) : P (.two o) := h.sum o (by simp [h.one])

theorem mirrored (o : Origin) {center q : Point α} {u : Displacement α}
    (hc : ∀ x ∈ center.vect, P x) (hq : ∀ x ∈ q.vect, P x) (hu : ∀ x ∈ u.vect, P x) :
    ∀ x ∈ (Point.mirrored o center q u).vect, P x := by
  have hcq := h.dot (o.part 7) (h.towards (o.part 3) hc hq) hu
  have huu := h.dot (o.part 8) hu hu
  have hk := h.times (o.part 4) (h.two (o.part 5)) (h.division (o.part 6) hcq huu)
  simp only [Point.vect, Displacement.vect, List.forall_mem_cons] at hq hu
  have hx := h.diff (o.part 0) hq.1 (h.times ((o.part 0).part 0) hk hu.1)
  have hy := h.diff (o.part 1) hq.2.1 (h.times ((o.part 1).part 0) hk hu.2.1)
  simp [Point.vect, Point.mirrored, hx, hy]

section

variable (o : Origin) {l : Line α} {p q : Point α}

theorem throwingPoint (e : Error) : ∀ x ∈ (Point.throwing o e).vect, P x := by
  simp [Point.vect, Point.throwing, h.throwing]

theorem throwingEnds (e : Error) :
    ∀ x ∈ (Point.throwing o e).vect ++ (Point.throwing o e).vect, P x :=
  List.forall_mem_append.2 ⟨h.throwingPoint o e, h.throwingPoint o e⟩

theorem image (hq : ∀ x ∈ q.vect, P x) (hp : ∀ x ∈ p.vect, P x) :
    ∀ x ∈ (q.image o p).vect, P x := by
  simp only [Point.vect, List.forall_mem_cons] at hq hp
  have hx := h.diff (o.part 0)
    (h.times ((o.part 0).part 0) (h.two ((o.part 0).part 1)) hq.1) hp.1
  have hy := h.diff (o.part 1)
    (h.times ((o.part 1).part 0) (h.two ((o.part 1).part 1)) hq.2.1) hp.2.1
  simp [Point.vect, Point.image, hx, hy]

theorem midpoint (hp : ∀ x ∈ p.vect, P x) (hq : ∀ x ∈ q.vect, P x) :
    ∀ x ∈ (Point.midpoint o p q).vect, P x := by
  simp only [Point.vect, List.forall_mem_cons] at hp hq
  have hhalf := h.inverse (o.part 2) (h.two (o.part 3))
  have hx := h.times (o.part 0) (h.plus ((o.part 0).part 0) hp.1 hq.1) hhalf
  have hy := h.times (o.part 1) (h.plus ((o.part 1).part 0) hp.2.1 hq.2.1) hhalf
  simp [Point.vect, Point.midpoint, Segment.midpoint, hx, hy]

theorem circle (hq : ∀ x ∈ q.vect, P x) (hp : ∀ x ∈ p.vect, P x) :
    ∀ x ∈ (Circle.through o q p).scalars, P x :=
  List.forall_mem_cons.2
    ⟨h.norm o (h.towards (o.part 0) hq hp), List.forall_mem_append.2 ⟨hq, hp⟩⟩

section

variable (hp : ∀ x ∈ p.vect, P x)

include hp

theorem verticalThrough : ∀ x ∈ (Line.verticalThrough o p).scalars, P x := by
  simp only [Point.vect, List.forall_mem_cons] at hp
  have hy := h.plus o hp.2.1 (h.one (o.part 0))
  simp [Line.scalars, Line.verticalThrough, Point.vect, hp.1, hp.2.1, hy]

theorem horizontalThrough : ∀ x ∈ (Line.horizontalThrough o p).scalars, P x := by
  simp only [Point.vect, List.forall_mem_cons] at hp
  have hx := h.plus o hp.1 (h.one (o.part 0))
  simp [Line.scalars, Line.horizontalThrough, Point.vect, hp.1, hp.2.1, hx]

variable (hl : ∀ x ∈ l.scalars, P x)

include hl

theorem parallelThrough : ∀ x ∈ (l.parallelThrough o p).scalars, P x :=
  List.forall_mem_append.2 ⟨hp, h.shifted o hp (h.direction (o.part 2) hl)⟩

theorem perpendicularThrough : ∀ x ∈ (l.perpendicularThrough o p).scalars, P x :=
  List.forall_mem_append.2 ⟨hp, h.shifted o hp (h.normal (o.part 2) hl)⟩

theorem foot : ∀ x ∈ (l.foot o p).vect, P x := by
  have ha := (List.forall_mem_append.1 hl).1
  have hd := h.direction (o.part 2) hl
  have hk := h.division (o.part 3) (h.dot (o.part 5) (h.towards (o.part 4) ha hp) hd)
    (h.dot (o.part 6) hd hd)
  exact h.along o ha hk hd

theorem reflection : ∀ x ∈ (l.reflection o p).vect, P x :=
  h.image o (h.foot (o.part 2) hp hl) hp

end
end

end Scalar.Closed

namespace Interchangeable

variable {V : World α σ → Prop} {P : Scalar α → Prop} {I J : Interpretation α σ}
  (h : Interchangeable V P I J)

include h

theorem agrees : I.field.Agrees J.field := by
  rw [h.field]
  exact .refl _

theorem scratch {s : Scalar α} (hs : s.sources = []) : Alike V (s.value I) (s.value J) := by
  refine (Alike.simulation V).value h.agrees (.inr ?_) (by simp [hs])
  rw [h.field]
  exact Alike.samplersRelated h.sampler I.field

theorem capture (o : Origin) {s : Scalar α} (hs : Alike V (s.value I) (s.value J)) :
    Agree V P (I.capture o s) (J.capture o s) :=
  Agree.bind hs fun r _ => match r with
    | .ok v => .pure (h.closed.leaf o v)
    | .error e => .pure (h.closed.throwing o e)

theorem drawn (o : Origin) : Agree V P (I.drawn o) (J.drawn o) := h.capture o (h.scratch rfl)

private theorem otherThanZero (o : Origin) :
    Agree V P (I.other o (.zero .scratch)) (J.other o (.zero .scratch)) :=
  h.capture o (h.scratch rfl)

theorem nonzeroDirection (o : Origin) :
    Agree V (fun d => ∀ x ∈ d.vect, P x) (I.nonzeroDirection o) (J.nonzeroDirection o) := by
  apply (h.drawn _).bind
  intro x hx
  apply (h.otherThanZero _).bind
  intro y hy
  exact .pure (by simp [Displacement.vect, hx, hy])

theorem freePoint (o : Origin) :
    Agree V (fun p => ∀ x ∈ p.vect, P x) (I.freePoint o) (J.freePoint o) := by
  apply (h.drawn _).bind
  intro x hx
  apply (h.drawn _).bind
  intro y hy
  exact .pure (by simp [Point.vect, hx, hy])

theorem pointInLine (o : Origin) {l : Line α} (hl : ∀ x ∈ l.scalars, P x) :
    Agree V (fun p => ∀ x ∈ p.vect, P x) (I.pointInLine o l) (J.pointInLine o l) := by
  apply (h.drawn _).bind
  intro t ht
  exact .pure (h.closed.pointAt o hl ht)

theorem pointOutsideLine (o : Origin) {l : Line α} (hl : ∀ x ∈ l.scalars, P x) :
    Agree V (fun p => ∀ x ∈ p.vect, P x) (I.pointOutsideLine o l) (J.pointOutsideLine o l) := by
  have hn := h.closed.normal (o.part 5) hl
  apply (h.pointInLine _ hl).bind
  intro base hbase
  apply (h.otherThanZero _).bind
  intro u hu
  exact .pure (h.closed.along o hbase hu hn)

theorem pointInSegment (o : Origin) {s : Segment α} (hs : ∀ x ∈ s.scalars, P x) :
    Agree V (fun p => ∀ x ∈ p.vect, P x) (I.pointInSegment o s) (J.pointInSegment o s) := by
  apply (h.capture _ (h.scratch rfl)).bind
  intro t ht
  exact .pure (h.closed.pointAt (l := s.line) o hs ht)

theorem anisotropic (o : Origin) (n : Nat) {u : Displacement α} (hu : ∀ x ∈ u.vect, P x) :
    Agree V (fun d => ∀ x ∈ d.vect, P x) (I.anisotropic o n u) (J.anisotropic o n u) := by
  induction n generalizing u with
  | zero => exact .pure hu
  | succ n ih =>
    have hdot := h.value _ (h.closed.dot .scratch hu hu)
    apply Agree.bind hdot
    intro r _
    cases r with
    | error e => exact .pure hu
    | ok q =>
      change Agree V _ (if _ then _ else _) (if J.field.isZero q then _ else _)
      rw [h.field]
      split
      · apply (h.nonzeroDirection o).bind
        intro d hd
        exact ih hd
      · exact .pure hu

theorem reflectAbout (o : Origin) {center q : Point α} (hc : ∀ x ∈ center.vect, P x)
    (hq : ∀ x ∈ q.vect, P x) :
    Agree V (fun p => ∀ x ∈ p.vect, P x) (I.reflectAbout o center q)
      (J.reflectAbout o center q) := by
  apply (h.nonzeroDirection _).bind
  intro u hu
  apply (h.anisotropic _ _ hu).bind
  intro u hu
  exact .pure (h.closed.mirrored o hc hq hu)

theorem pointInCircle (o : Origin) {c : Circle α} (hc : ∀ x ∈ c.scalars, P x) :
    Agree V (fun p => ∀ x ∈ p.vect, P x) (I.pointInCircle o c) (J.pointInCircle o c) := by
  have hcr := List.forall_mem_append.1 (List.forall_mem_cons.1 hc).2
  exact h.reflectAbout o hcr.1 hcr.2

theorem radial (o : Origin) {c : Circle α} {s : Scalar α} (hc : ∀ x ∈ c.scalars, P x)
    (hs : P s) : Agree V (fun p => ∀ x ∈ p.vect, P x) (I.radial o c s) (J.radial o c s) := by
  have hcenter := (List.forall_mem_append.1 (List.forall_mem_cons.1 hc).2).1
  apply (h.pointInCircle _ hc).bind
  intro p hp
  exact .pure (h.closed.along o hcenter hs (h.closed.towards _ hcenter hp))

theorem generate (o : Origin) {c : Constraint α} (hc : ∀ x ∈ c.scalars, P x) :
    Agree V (fun p => ∀ x ∈ p.vect, P x) (I.generate o c) (J.generate o c) := by
  cases c with
  | free => exact h.freePoint o
  | inLine l => exact h.pointInLine o hc
  | outsideLine l => exact h.pointOutsideLine o hc
  | inSegment s => exact h.pointInSegment o hc
  | inCircle c => exact h.pointInCircle o hc
  | insideCircle c | outsideCircle c =>
    apply (h.capture _ (h.scratch rfl)).bind
    intro s hs
    exact h.radial o hc hs

theorem lineThrough (o : Origin) {p : Point α} (hp : ∀ x ∈ p.vect, P x) :
    Agree V (fun l => ∀ x ∈ l.scalars, P x) (I.lineThrough o p) (J.lineThrough o p) := by
  apply (h.nonzeroDirection _).bind
  intro d hd
  exact .pure (List.forall_mem_append.2 ⟨hp, h.closed.shifted o hp hd⟩)

theorem point {p : Point α} (hp : ∀ x ∈ p.vect, P x) : Alike V (I.point p) (J.point p) := by
  apply (Alike.simulation V).point
  intro x hx
  exact h.value x (hp x hx)

theorem probe (v : α × α) {r : Rule α} (hr : ∀ x ∈ r.scalars, P x) :
    Alike V (I.probe v r) (J.probe v r) := by
  apply (Alike.simulation V).probe h.agrees v
  intro x hx
  exact h.value x (hr x hx)

theorem candidate {r : Rule α} (hr : ∀ x ∈ r.scalars, P x) :
    Alike V (I.candidate r) (J.candidate r) := by
  cases r with
  | within c =>
    apply Alike.lift_bind (h.generate .scratch hr)
    intro p hp
    exact h.point hp
  | awayFrom p =>
    apply Alike.lift_bind (h.lineThrough .scratch hr)
    intro l hl
    exact h.point (List.forall_mem_append.1 hl).2

theorem firstAccepted {r : Rule α} (hr : ∀ x ∈ r.scalars, P x) (n : Nat) :
    Alike V (I.firstAccepted r n) (J.firstAccepted r n) := by
  have hs := Alike.simulation V
  induction n with
  | zero => exact hs.pure none
  | succ n ih =>
    apply hs.bind (h.candidate hr)
    intro v
    apply hs.bind (h.probe v hr)
    intro accepted
    cases accepted with
    | true => exact hs.pure (some v)
    | false => exact ih

theorem regenerate {i : SourceId} (hi : ∀ w v, V w → V (w.update i (Source.withSample v)))
    (label : String) {r : Rule α} (hr : ∀ x ∈ r.scalars, P x) :
    Alike V (I.regenerate i label r) (J.regenerate i label r) := by
  have hs := Alike.simulation V
  apply hs.bind (h.firstAccepted hr Interpretation.attempts)
  intro found
  cases found with
  | none => exact hs.throw _
  | some v =>
    have hset : Agree V (fun _ => True) (World.setSample i (some v)) (World.setSample i (some v)) :=
      fun w hw => ⟨rfl, hi w _ hw, trivial⟩
    exact Alike.lift_bind hset fun _ _ => hs.pure v

theorem current {i : SourceId} (hi : ∀ w v, V w → V (w.update i (Source.withSample v)))
    {s : Source α} (hs : ∀ x ∈ s.scalars, P x) : Alike V (I.current i s) (J.current i s) := by
  cases s with
  | anchor name p => exact h.point hs
  | dynamic label r sample =>
    cases sample with
    | none => exact h.regenerate hi label hs
    | some v =>
      apply (Alike.simulation V).bind (h.probe v hs)
      intro accepted
      cases accepted with
      | true => exact (Alike.simulation V).pure v
      | false => exact h.regenerate hi label hs

end Interchangeable
end PlaneGeometry
