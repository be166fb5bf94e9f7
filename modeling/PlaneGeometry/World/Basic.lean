import PlaneGeometry.Relation.Basic

/-! # The world that expressions are evaluated in

It holds the state of the samplers and the sources of live coordinates, in the order of their
creation. -/
namespace PlaneGeometry

inductive Constraint (α : Type) [Element α] where
  | free
  | inLine (l : Line α)
  | outsideLine (l : Line α)
  | inSegment (s : Segment α)
  | inCircle (c : Circle α)
  | insideCircle (c : Circle α)
  | outsideCircle (c : Circle α)

def Constraint.debugText {α : Type} [Element α] : Constraint α → String
  | free => "Free"
  | inLine l => Relation.applied "InLine" [l.debugText]
  | outsideLine l => Relation.applied "OutsideLine" [l.debugText]
  | inSegment s => Relation.applied "InSegment" [s.debugText]
  | inCircle c => Relation.applied "InCircle" [c.debugText]
  | insideCircle c => Relation.applied "InsideCircle" [c.debugText]
  | outsideCircle c => Relation.applied "OutsideCircle" [c.debugText]

/-- What the sample of a dynamic source has to obey. -/
inductive Rule (α : Type) [Element α] where
  | within (c : Constraint α)
  | awayFrom (p : Point α)

/-- An anchor stores expressions and is moved from outside. A dynamic source keeps the last sample
that was accepted. -/
inductive Source (α : Type) [Element α] where
  | anchor (name : String) (position : Point α)
  | dynamic (label : String) (rule : Rule α) (sample : Option (α × α))

structure World (α σ : Type) [Element α] where
  sampler : σ
  sources : Array (Source α) := #[]

/-- Effects that cannot fail. -/
abbrev Act (α σ : Type) [Element α] (β : Type) := StateM (World α σ) β

/-- Effects that may fail; what was done before the failure stays done. -/
abbrev Eval (α σ : Type) [Element α] (β : Type) := ExceptT Error (StateM (World α σ)) β

namespace Source

variable {α : Type} [Element α]

def label : Source α → String
  | anchor name _ => name
  | dynamic label _ _ => label

def withSample (sample : Option (α × α)) : Source α → Source α
  | anchor name position => anchor name position
  | dynamic label rule _ => dynamic label rule sample

def withPosition (p : Point α) : Source α → Source α
  | anchor name _ => anchor name p
  | dynamic label rule sample => dynamic label rule sample

end Source

namespace World

variable {α σ : Type} [Element α]

def source? (w : World α σ) (i : SourceId) : Option (Source α) := w.sources[i]?

def update (w : World α σ) (i : SourceId) (f : Source α → Source α) : World α σ :=
  { w with sources := w.sources.modify i f }

/-- The number of the new source is the number of sources before it. -/
def addSource (s : Source α) : Act α σ SourceId := fun w =>
  (w.sources.size, { w with sources := w.sources.push s })

def setSample (i : SourceId) (sample : Option (α × α)) : Act α σ Unit := fun w =>
  ((), w.update i (Source.withSample sample))

def setPosition (i : SourceId) (p : Point α) : Act α σ Unit := fun w =>
  ((), w.update i (Source.withPosition p))

def trying {β : Type} (d : ExceptT Error (StateM σ) β) : Eval α σ β := fun w =>
  let (x, s) := d w.sampler
  (x, { w with sampler := s })

def sampling {β : Type} (d : Draw σ β) : Eval α σ β := trying (ExceptT.lift d)

end World
end PlaneGeometry
