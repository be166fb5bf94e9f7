import PlaneGeometry.Relation.Holds

/-! # Constructions

Free parameters are drawn once and kept as leaves, so the result is a function of what it depends
on. Nothing here fails: a violated precondition or a parameter that cannot be drawn becomes a
throwing node. -/
namespace PlaneGeometry.Interpretation

variable {α σ : Type} [Element α] (I : Interpretation α σ)

/-- Candidates that are tried before a search is given up. -/
def attempts : Nat := 64

/-- Evaluates once and keeps the outcome. -/
def capture (o : Origin) (x : Scalar α) : Act α σ (Scalar α) := do
  match ← I.attempt x with
  | .ok v => return .leaf o v
  | .error e => return .throwing o e

def drawn (o : Origin) : Act α σ (Scalar α) := I.capture o (.random .scratch)

def other (o : Origin) (x : Scalar α) : Act α σ (Scalar α) := I.capture o (.different .scratch x)

/-- The second coordinate is not zero. -/
def nonzeroDirection (o : Origin) : Act α σ (Displacement α) := do
  let x ← I.drawn (o.part 0)
  let y ← I.other (o.part 1) (.zero .scratch)
  return ⟨x, y⟩

/-- What to raise when a relation that has to hold does not. -/
def violation (r : Relation α) : Act α σ (Option Error) := do
  match ← (I.holds r).run with
  | .ok true => return none
  | .ok false => return some (.precondition r.text)
  | .error e => return some e

/-- What to raise when a relation holds that must not. -/
def degeneracy (r : Relation α) (what : String) : Act α σ (Option Error) := do
  match ← (I.holds r).run with
  | .ok false => return none
  | .ok true => return some (.degenerate what r.text)
  | .error e => return some e

def freePoint (o : Origin) : Act α σ (Point α) := do
  let x ← I.drawn (o.part 0)
  let y ← I.drawn (o.part 1)
  return ⟨x, y⟩

def pointInLine (o : Origin) (l : Line α) : Act α σ (Point α) := do
  let t ← I.drawn (o.part 3)
  return l.pointAt o t

/-- A point of the line, pushed along the normal. -/
def pointOutsideLine (o : Origin) (l : Line α) : Act α σ (Point α) := do
  let base ← I.pointInLine (o.part 3) l
  let u ← I.other (o.part 4) (.zero .scratch)
  return base.along o u (l.normal (o.part 5))

def pointInSegment (o : Origin) (s : Segment α) : Act α σ (Point α) := do
  let t ← I.capture (o.part 3) (.between .scratch (.zero .scratch) (.one .scratch))
  return s.pointAt o t

/-- Over some fields a direction can be orthogonal to itself. Such a direction is drawn again, at
most `n` times; the last one is not tested. -/
def anisotropic (o : Origin) : Nat → Displacement α → Act α σ (Displacement α)
  | 0, u => return u
  | n + 1, u => do
    match ← I.attempt (u.dot .scratch u) with
    | .ok q => if I.field.isZero q then anisotropic o n (← I.nonzeroDirection o) else return u
    | .error _ => return u

/-- The image of a point in a random line through the center, which keeps the distance to it. -/
def reflectAbout (o : Origin) (center q : Point α) : Act α σ (Point α) := do
  let u ← I.anisotropic (o.part 2) (attempts - 1) (← I.nonzeroDirection (o.part 2))
  let w := center.towards (o.part 3) q
  let k := .times (o.part 4) (.two (o.part 5))
    (.division (o.part 6) (w.dot (o.part 7) u) (u.dot (o.part 8) u))
  return ⟨.diff (o.part 0) q.x (.times ((o.part 0).part 0) k u.x),
    .diff (o.part 1) q.y (.times ((o.part 1).part 0) k u.y)⟩

def pointInCircle (o : Origin) (c : Circle α) : Act α σ (Point α) :=
  I.reflectAbout o c.center c.rim

/-- `center + s (p - center)` for a point `p` of the circle. -/
def radial (o : Origin) (c : Circle α) (s : Scalar α) : Act α σ (Point α) := do
  let p ← I.pointInCircle (o.part 3) c
  return c.center.along o s (c.center.towards (o.part 4) p)

def pointInsideCircle (o : Origin) (c : Circle α) : Act α σ (Point α) := do
  let s ← I.capture (o.part 5) (.inverse .scratch (.greater .scratch (.one .scratch)))
  I.radial o c s

def pointOutsideCircle (o : Origin) (c : Circle α) : Act α σ (Point α) := do
  let s ← I.capture (o.part 5) (.greater .scratch (.one .scratch))
  I.radial o c s

def lineThrough (o : Origin) (p : Point α) : Act α σ (Line α) := do
  let d ← I.nonzeroDirection (o.part 2)
  return ⟨p, p.shifted o d⟩

def segmentInLine (o : Origin) (l : Line α) : Act α σ (Segment α) := do
  let t ← I.drawn (o.part 2)
  let u ← I.other (o.part 3) t
  return ⟨l.pointAt (o.part 0) t, l.pointAt (o.part 1) u⟩

end Interpretation

namespace Line

variable {α : Type} [Element α]

def parallelThrough (o : Origin) (l : Line α) (p : Point α) : Line α :=
  ⟨p, p.shifted o (l.direction (o.part 2))⟩

def perpendicularThrough (o : Origin) (l : Line α) (p : Point α) : Line α :=
  ⟨p, p.shifted o (l.normal (o.part 2))⟩

def verticalThrough (o : Origin) (p : Point α) : Line α :=
  ⟨p, ⟨p.x, .plus o p.y (.one (o.part 0))⟩⟩

def horizontalThrough (o : Origin) (p : Point α) : Line α :=
  ⟨p, ⟨.plus o p.x (.one (o.part 0)), p.y⟩⟩

def foot (o : Origin) (l : Line α) (p : Point α) : Point α :=
  let d := l.direction (o.part 2)
  let k := .division (o.part 3) ((l.a.towards (o.part 4) p).dot (o.part 5) d) (d.dot (o.part 6) d)
  l.a.along o k d

end Line

namespace Point

variable {α : Type} [Element α]

def image (o : Origin) (c p : Point α) : Point α :=
  ⟨.diff (o.part 0) (.times ((o.part 0).part 0) (.two ((o.part 0).part 1)) c.x) p.x,
    .diff (o.part 1) (.times ((o.part 1).part 0) (.two ((o.part 1).part 1)) c.y) p.y⟩

def midpoint (o : Origin) (a b : Point α) : Point α := (Segment.mk a b).midpoint o

end Point

def Line.reflection {α : Type} [Element α] (o : Origin) (l : Line α) (p : Point α) : Point α :=
  (l.foot (o.part 2) p).image o p

namespace Interpretation

variable {α σ : Type} [Element α] (I : Interpretation α σ)

def circleThrough (o : Origin) (p : Point α) : Act α σ (Circle α) := do
  let d ← I.nonzeroDirection (o.part 2)
  return .through o (p.shifted (o.part 3) d) p

def circleAround (o : Origin) (center : Point α) : Act α σ (Circle α) := do
  let d ← I.nonzeroDirection (o.part 2)
  return .through o center (center.shifted (o.part 3) d)

def chordThrough (o : Origin) (c : Circle α) (p : Point α) : Act α σ (Segment α) := do
  match ← I.violation (.inCircle p c) with
  | some e => return .throwing o e
  | none => return ⟨p, ← I.reflectAbout o c.center p⟩

def diameterThrough (o : Origin) (c : Circle α) (p : Point α) : Act α σ (Segment α) := do
  match ← I.violation (.inCircle p c) with
  | some e => return .throwing o e
  | none => return ⟨p, c.center.image o p⟩

def tangentAt (o : Origin) (c : Circle α) (p : Point α) : Act α σ (Line α) := do
  match ← I.violation (.inCircle p c) with
  | some e => return .throwing o e
  | none => return (Line.mk c.center p).perpendicularThrough o p

def intersection (o : Origin) (l m : Line α) : Act α σ (Point α) := do
  match ← I.degeneracy (.parallel l m) "lines do not meet in one point" with
  | some e => return .throwing o e
  | none =>
    let d := l.direction (o.part 2)
    let e := m.direction (o.part 3)
    let k := .division (o.part 4) ((l.a.towards (o.part 5) m.a).cross (o.part 6) e)
      (d.cross (o.part 7) e)
    return l.a.along o k d

/-- The center is where two perpendicular bisectors meet. -/
def circleThroughThree (o : Origin) (a b c : Point α) : Act α σ (Circle α) := do
  match ← I.degeneracy (.collinear a b c) "no circle through three points" with
  | some e => return .throwing o e
  | none =>
    let ab := (Line.mk a b).perpendicularThrough (o.part 2) (.midpoint (o.part 3) a b)
    let bc := (Line.mk b c).perpendicularThrough (o.part 4) (.midpoint (o.part 5) b c)
    return .through o (← I.intersection (o.part 6) ab bc) a

end PlaneGeometry.Interpretation
