import PlaneGeometry.Construct

/-! # Reading sources

A dynamic source is read through its sample. The sample is probed against the present state of what
the rule depends on, and replaced only when the probe rejects it. -/
namespace PlaneGeometry

variable {α σ : Type} [Element α]

namespace Interpretation

variable (I : Interpretation α σ)

def radialOrder (p : Point α) (c : Circle α) : Eval α σ (Option Ordering) := do
  let order ← I.field.ordered
  let d ← I.value ((c.center.towards .scratch p).normSquared .scratch)
  let r ← I.value (c.radiusSquared .scratch)
  return order.compare d r

def admits (p : Point α) : Constraint α → Eval α σ Bool
  | .free => return true
  | .inLine l => I.holds (.inLine p l)
  | .outsideLine l => return !(← I.holds (.inLine p l))
  | .inSegment s => I.holds (.inSegment p s)
  | .inCircle c => I.holds (.inCircle p c)
  | .insideCircle c => return (← I.radialOrder p c) == some .lt
  | .outsideCircle c => return (← I.radialOrder p c) == some .gt

def generate (o : Origin) : Constraint α → Act α σ (Point α)
  | .free => I.freePoint o
  | .inLine l => I.pointInLine o l
  | .outsideLine l => I.pointOutsideLine o l
  | .inSegment s => I.pointInSegment o s
  | .inCircle c => I.pointInCircle o c
  | .insideCircle c => I.pointInsideCircle o c
  | .outsideCircle c => I.pointOutsideCircle o c

def probe (v : α × α) : Rule α → Eval α σ Bool
  | .within c => I.admits (.ofValues .scratch v.1 v.2) c
  | .awayFrom p => return !(← I.samePoint p (.ofValues .scratch v.1 v.2))

def candidate : Rule α → Eval α σ (α × α)
  | .within c => do I.point (← I.generate .scratch c)
  | .awayFrom p => do I.point (← I.lineThrough .scratch p).b

/-- The first of at most `n` candidates that the probe accepts. -/
def firstAccepted (rule : Rule α) : Nat → Eval α σ (Option (α × α))
  | 0 => return none
  | n + 1 => do
    let v ← I.candidate rule
    if ← I.probe v rule then return some v else firstAccepted rule n

def regenerate (i : SourceId) (label : String) (rule : Rule α) : Eval α σ (α × α) := do
  match ← I.firstAccepted rule attempts with
  | some v =>
    (World.setSample i (some v) : Act α σ Unit)
    return v
  | none => throw (.exhausted label attempts)

def current (i : SourceId) : Source α → Eval α σ (α × α)
  | .anchor _ position => I.point position
  | .dynamic label rule none => I.regenerate i label rule
  | .dynamic label rule (some v) => do
    if ← I.probe v rule then return v else I.regenerate i label rule

end Interpretation

namespace NumericField

variable (F : NumericField α σ)

/-- Reads a source below the bound. What a source depends on was created before it, so it is read
with the smaller bound. -/
def readBelow : Nat → SourceId → Eval α σ (α × α)
  | 0, i => throw (.unknownSource i)
  | n + 1, i =>
    if i = n then do
      match (← get).source? i with
      | some s => Interpretation.current ⟨F, readBelow n⟩ i s
      | none => throw (.unknownSource i)
    else readBelow n i

def read (i : SourceId) : Eval α σ (α × α) := F.readBelow (i + 1) i

def interpretation : Interpretation α σ := ⟨F, F.read⟩

end NumericField
end PlaneGeometry
