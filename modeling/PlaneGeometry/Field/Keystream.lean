/-! # Blocks of pseudorandom words

ChaCha with twelve rounds. Four rows of four words are mixed column by column and diagonal by
diagonal in turn, and the rows before the mixing are added to the result. -/
namespace PlaneGeometry.Keystream

structure Row where
  w0 : UInt32
  w1 : UInt32
  w2 : UInt32
  w3 : UInt32
  deriving DecidableEq, Repr

namespace Row

def zip (f : UInt32 → UInt32 → UInt32) (r s : Row) : Row :=
  ⟨f r.w0 s.w0, f r.w1 s.w1, f r.w2 s.w2, f r.w3 s.w3⟩

instance : Add Row := ⟨zip fun x y => x + y⟩

/-- The bits in which a word differs from its partner, moved `k` places up and around. -/
def folded (k : UInt32) (r s : Row) : Row :=
  r.zip (fun x y => ((x ^^^ y) <<< k) ||| ((x ^^^ y) >>> (32 - k))) s

/-- Each word moves `k` places to the left, around the end. -/
def turned : Nat → Row → Row
  | 0, r => r
  | k + 1, r => turned k ⟨r.w1, r.w2, r.w3, r.w0⟩

def pairs (r : Row) : List UInt64 :=
  [r.w0.toUInt64 ||| (r.w1.toUInt64 <<< 32), r.w2.toUInt64 ||| (r.w3.toUInt64 <<< 32)]

end Row

structure Block where
  a : Row
  b : Row
  c : Row
  d : Row

namespace Block

def columns (s : Block) : Block :=
  let a := s.a + s.b
  let d := s.d.folded 16 a
  let c := s.c + d
  let b := s.b.folded 12 c
  let a := a + b
  let d := d.folded 8 a
  let c := c + d
  ⟨a, b.folded 7 c, c, d⟩

def diagonals (s : Block) : Block :=
  let s := columns ⟨s.a, s.b.turned 1, s.c.turned 2, s.d.turned 3⟩
  ⟨s.a, s.b.turned 3, s.c.turned 2, s.d.turned 1⟩

def mixed : Nat → Block → Block
  | 0, s => s
  | n + 1, s => mixed n s.columns.diagonals

def pairs (s : Block) : List UInt64 := s.a.pairs ++ s.b.pairs ++ s.c.pairs ++ s.d.pairs

end Block

def block (upper lower : Row) (place : UInt64) : Block :=
  let s : Block := ⟨⟨0x61707865, 0x3320646E, 0x79622D32, 0x6B206574⟩, upper, lower,
    ⟨place.toUInt32, (place >>> 32).toUInt32, 0, 0⟩⟩
  let t := s.mixed 6
  ⟨s.a + t.a, s.b + t.b, s.c + t.c, s.d + t.d⟩

end PlaneGeometry.Keystream
