import PlaneGeometry.Digest
import PlaneGeometry.Field.Basic

/-! # Scalar expressions

An expression is built once and evaluated as often as asked. Every node has an origin, which tells
it from nodes of the same shape built elsewhere. -/
namespace PlaneGeometry

/-- Where a node was built: the serial number of the act of building, and a place inside it. -/
structure Origin where
  serial : Nat
  place : List Nat := []
  deriving DecidableEq, Repr

namespace Origin

def part (o : Origin) (k : Nat) : Origin := { o with place := k :: o.place }

/-- For expressions that are evaluated at once and dropped. -/
def scratch : Origin := ⟨0, []⟩

end Origin

/-- Sources of live coordinates are numbered in the order of their creation. -/
abbrev SourceId := Nat

/-- Operands of `sum` and `product` form a bag. `different`, `between`, `greater`, `lower` and
`random` draw at each evaluation; a `random` node is known by its origin. `norm`, `angle` and
`signedAngle` read lists of coordinates. A `live` node reads a coordinate of a source, and carries
the label of the source for display.

The digest of a node is computed from those of its operands when the node is built, and kept with
it. The order of the operands of a sum or product does not count. -/
inductive Scalar (α : Type) [Element α] where
  | leaf (o : Origin) (value : α)
  | sum (o : Origin) (operands : List (Scalar α))
  | product (o : Origin) (operands : List (Scalar α))
  | diff (o : Origin) (minuend subtrahend : Scalar α)
  | division (o : Origin) (dividend divisor : Scalar α)
  | opposite (o : Origin) (x : Scalar α)
  | inverse (o : Origin) (x : Scalar α)
  | zero (o : Origin)
  | one (o : Origin)
  | random (o : Origin)
  | different (o : Origin) (x : Scalar α)
  | between (o : Origin) (lower upper : Scalar α)
  | greater (o : Origin) (lower : Scalar α)
  | lower (o : Origin) (upper : Scalar α)
  | throwing (o : Origin) (error : Error)
  | norm (o : Origin) (v : List (Scalar α))
  | angle (o : Origin) (v w : List (Scalar α))
  | signedAngle (o : Origin) (v w : List (Scalar α))
  | live (o : Origin) (source : SourceId) (label : String) (index : Nat)
with
  @[computed_field] digest : (α : Type) → (inst : Element α) → @Scalar α inst → UInt64
    | α, inst, s => match s with
      | .leaf _ v => ((Digest.ofKind 0).word (Element.key v)).value
      | .sum _ xs => ((Digest.ofKind 1).unordered (xs.map (digest α inst))).value
      | .product _ xs => ((Digest.ofKind 2).unordered (xs.map (digest α inst))).value
      | .diff _ a b => ((Digest.ofKind 3).words [digest α inst a, digest α inst b]).value
      | .division _ a b => ((Digest.ofKind 4).words [digest α inst a, digest α inst b]).value
      | .opposite _ x => ((Digest.ofKind 5).word (digest α inst x)).value
      | .inverse _ x => ((Digest.ofKind 6).word (digest α inst x)).value
      | .zero _ => (Digest.ofKind 7).value
      | .one _ => (Digest.ofKind 8).value
      | .random o => ((Digest.ofKind 9).words (o.serial.toUInt64 :: o.place.map Nat.toUInt64)).value
      | .different _ x => ((Digest.ofKind 10).word (digest α inst x)).value
      | .between _ a b => ((Digest.ofKind 11).words [digest α inst a, digest α inst b]).value
      | .greater _ x => ((Digest.ofKind 12).word (digest α inst x)).value
      | .lower _ x => ((Digest.ofKind 13).word (digest α inst x)).value
      | .throwing _ e => ((Digest.ofKind 14).text e.message).value
      | .norm _ v => (((Digest.ofKind 15).byte 0).counted (v.map (digest α inst))).value
      | .angle _ v w =>
        ((((Digest.ofKind 15).byte 1).counted (v.map (digest α inst))).counted
          (w.map (digest α inst))).value
      | .signedAngle _ v w =>
        ((((Digest.ofKind 15).byte 2).counted (v.map (digest α inst))).counted
          (w.map (digest α inst))).value
      | .live _ source _ index =>
        ((Digest.ofKind 16).words [source.toUInt64, index.toUInt64]).value

namespace Scalar

variable {α : Type} [Element α]

def origin : Scalar α → Origin
  | leaf o _ | sum o _ | product o _ | diff o _ _ | division o _ _ | opposite o _ | inverse o _
  | zero o | one o | random o | different o _ | between o _ _ | greater o _ | lower o _
  | throwing o _ | norm o _ | angle o _ _ | signedAngle o _ _ | live o _ _ _ => o

def isSame (a b : Scalar α) : Bool := a.origin == b.origin

def plus (o : Origin) (a b : Scalar α) : Scalar α := sum o [a, b]
def times (o : Origin) (a b : Scalar α) : Scalar α := product o [a, b]
def squared (o : Origin) (a : Scalar α) : Scalar α := product o [a, a]

def two (o : Origin) : Scalar α := sum o [one (o.part 0), one (o.part 1)]

def asLeaf : Scalar α → Option α
  | leaf _ v => some v
  | _ => none

def isThrowing : Scalar α → Bool
  | throwing _ _ => true
  | _ => false

def liveSource : Scalar α → Option (String × Nat)
  | live _ _ label index => some (label, index)
  | _ => none

/-- No node draws when evaluated. A live node reads and does not draw. -/
def isDeterministic : Scalar α → Bool
  | leaf _ _ | zero _ | one _ | throwing _ _ | live _ _ _ _ => true
  | random _ | different _ _ | between _ _ _ | greater _ _ | lower _ _ => false
  | sum _ xs | product _ xs => all xs
  | diff _ a b | division _ a b => a.isDeterministic && b.isDeterministic
  | opposite _ x | inverse _ x => x.isDeterministic
  | norm _ v => all v
  | angle _ v w | signedAngle _ v w => all v && all w
where
  all : List (Scalar α) → Bool
    | [] => true
    | x :: xs => x.isDeterministic && all xs

/-- Height of the tree; a node without operands counts as one. -/
def depth : Scalar α → Nat
  | leaf _ _ | zero _ | one _ | random _ | throwing _ _ | live _ _ _ _ => 1
  | sum _ xs | product _ xs => highest xs + 1
  | diff _ a b | division _ a b | between _ a b => max a.depth b.depth + 1
  | opposite _ x | inverse _ x | different _ x | greater _ x | lower _ x => x.depth + 1
  | norm _ v => highest v + 1
  | angle _ v w | signedAngle _ v w => max (highest v) (highest w) + 1
where
  highest : List (Scalar α) → Nat
    | [] => 0
    | x :: xs => max x.depth (highest xs)

end Scalar
end PlaneGeometry
