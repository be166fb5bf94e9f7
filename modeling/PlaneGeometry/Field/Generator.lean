import PlaneGeometry.Field.Keystream

/-! # A seeded source of words

The seed is stretched to a key by a permuted congruential generator, and the words are those of the
keystream under that key. -/
namespace PlaneGeometry

open Keystream (Row)

/-- The key, the place of the next block, and the words left of the last one. -/
structure Generator where
  upper : Row
  lower : Row
  place : UInt64 := 0
  ready : List UInt64 := []
  deriving DecidableEq, Repr

namespace Generator

def step (s : UInt64) : UInt64 := s * 6364136223846793005 + 11634580027462260723

def output (s : UInt64) : UInt32 :=
  let x := (((s >>> 18) ^^^ s) >>> 27).toUInt32
  let k := (s >>> 59).toUInt32
  (x >>> k) ||| (x <<< (32 - k))

/-- The outputs of the four states after `s`, and the last of these states. -/
def stretch (s : UInt64) : Row × UInt64 :=
  let s1 := step s
  let s2 := step s1
  let s3 := step s2
  let s4 := step s3
  (⟨output s1, output s2, output s3, output s4⟩, s4)

def ofSeed (seed : UInt64) : Generator :=
  let (upper, s) := stretch seed
  { upper, lower := (stretch s).1 }

def word : StateM Generator UInt64 := fun g =>
  match g.ready with
  | x :: ready => (x, { g with ready })
  | [] =>
    let fresh := (Keystream.block g.upper g.lower g.place).pairs
    (fresh.headD 0, { g with place := g.place + 1, ready := fresh.tail })

/-- The upper half of the product of a word and `n` is below `n`. Words are refused unless the lower
half lies in the largest multiple of `n` by a power of two, so that all results are equally likely.
A word is refused with a chance of at most one half; zero stands for `attempts` refusals. -/
def belowWithin (n : UInt64) : Nat → StateM Generator UInt64
  | 0 => return 0
  | attempts + 1 => do
    let product := (← word).toNat * n.toNat
    if product.toUInt64.toNat < n.toNat <<< (63 - n.toNat.log2) then
      return (product >>> 64).toUInt64
    else belowWithin n attempts

def below (n : UInt64) : StateM Generator UInt64 := belowWithin n 256

end Generator
end PlaneGeometry
