import PlaneGeometry.Quoted
import PlaneGeometry.World.Read

/-! # Anchors and dynamic objects

A handle names a source of the world; copies of a handle share the source. -/
namespace PlaneGeometry

variable {α σ : Type} [Element α]

def Point.live (o : Origin) (source : SourceId) (label : String) : Point α :=
  ⟨.live (o.part 0) source label 0, .live (o.part 1) source label 1⟩

structure Anchor where
  source : SourceId
  name : String

namespace Anchor

/-- An anchor at expressions, which are read anew until it is first moved. -/
def create (name : String) (p : Point α) : Act α σ Anchor := do
  return ⟨← World.addSource (.anchor name p), name⟩

def point (o : Origin) (a : Anchor) : Point α := .live o a.source a.name

variable (F : NumericField α σ)

def position (a : Anchor) : Eval α σ (α × α) := F.read a.source

def moveTo (o : Origin) (a : Anchor) (x y : α) : Act α σ Unit :=
  World.setPosition a.source (.ofValues o x y)

/-- Both coordinates are evaluated before the anchor moves, so the point may read the anchor. -/
def moveToPoint (o : Origin) (a : Anchor) (p : Point α) : Eval α σ Unit := do
  let (x, y) ← F.interpretation.point p
  (a.moveTo o x y : Act α σ Unit)

def moveBy (o : Origin) (a : Anchor) (dx dy : α) : Eval α σ Unit := do
  let (x, y) ← a.position F
  (a.moveTo o (F.add x dx) (F.add y dy) : Act α σ Unit)

def debugText (a : Anchor) (w : World α σ) : String :=
  match w.source? a.source with
  | some (.anchor _ p) => "Anchor(" ++ a.name ++ " = " ++ p.vect.text ++ ")"
  | _ => "Anchor(" ++ a.name ++ ")"

end Anchor

def World.sample (w : World α σ) (i : SourceId) : Option (α × α) :=
  match w.source? i with
  | some (.dynamic _ _ sample) => sample
  | _ => none

/-- A point that keeps a constraint while what the constraint reads moves. -/
structure DynamicPoint (α : Type) [Element α] where
  source : SourceId
  label : String
  constraint : Constraint α

namespace DynamicPoint

def create (label : String) (c : Constraint α) : Act α σ (DynamicPoint α) := do
  return ⟨← World.addSource (.dynamic label (.within c) none), label, c⟩

def point (o : Origin) (d : DynamicPoint α) : Point α := .live o d.source d.label

/-- Drops the sample; the next read draws again. -/
def invalidate (d : DynamicPoint α) : Act α σ Unit := World.setSample d.source none

variable (F : NumericField α σ)

def position (d : DynamicPoint α) : Eval α σ (α × α) := F.read d.source

def resample (d : DynamicPoint α) : Eval α σ (α × α) := do
  (d.invalidate : Act α σ Unit)
  d.position F

def debugText (d : DynamicPoint α) (w : World α σ) : String :=
  let cached := match w.sample d.source with
    | some (x, y) => "Some((" ++ Element.text x ++ ", " ++ Element.text y ++ "))"
    | none => "None"
  "DynamicPoint \x7b label: " ++ Quoted.encode d.label ++ ", constraint: " ++
    d.constraint.debugText ++ ", cached: " ++ cached ++ " \x7d"

end DynamicPoint

/-- A line through a point whose second point is sampled apart from the first. -/
structure DynamicLine (α : Type) [Element α] where
  source : SourceId
  label : String
  through : Point α

namespace DynamicLine

def create (label : String) (p : Point α) : Act α σ (DynamicLine α) := do
  return ⟨← World.addSource (.dynamic label (.awayFrom p) none), label, p⟩

def line (o : Origin) (d : DynamicLine α) : Line α := ⟨d.through, .live o d.source d.label⟩

def invalidate (d : DynamicLine α) : Act α σ Unit := World.setSample d.source none

variable (F : NumericField α σ)

def resample (o : Origin) (d : DynamicLine α) : Eval α σ (Line α) := do
  (d.invalidate : Act α σ Unit)
  let _ ← F.read d.source
  return d.line o

def debugText (d : DynamicLine α) : String :=
  "DynamicLine \x7b label: " ++ Quoted.encode d.label ++ ", through: " ++
    d.through.debugText ++ " \x7d"

end DynamicLine
end PlaneGeometry
