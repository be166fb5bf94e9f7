/-! # Digests of byte sequences

SipHash under the key zero, with one round for each word of eight bytes and three rounds to end
with. -/
namespace PlaneGeometry

/-- What was written so far. Full words are absorbed at once; up to seven bytes wait in `tail`. -/
structure Digest where
  v0 : UInt64
  v1 : UInt64
  v2 : UInt64
  v3 : UInt64
  tail : UInt64
  length : UInt64

namespace Digest

def empty : Digest :=
  ⟨0x736F6D6570736575, 0x646F72616E646F6D, 0x6C7967656E657261, 0x7465646279746573, 0, 0⟩

/-- Bits that leave at the top come back at the bottom; `k` lies between 0 and 64. -/
def rotate (x k : UInt64) : UInt64 := (x <<< k) ||| (x >>> (64 - k))

def round (s : Digest) : Digest :=
  let a := s.v0 + s.v1
  let b := rotate s.v1 13 ^^^ a
  let c := s.v2 + s.v3
  let d := rotate s.v3 16 ^^^ c
  let e := rotate a 32 + d
  let f := c + b
  { s with v0 := e, v1 := rotate b 17 ^^^ f, v2 := rotate f 32, v3 := rotate d 21 ^^^ e }

def absorb (s : Digest) (x : UInt64) : Digest :=
  let s := round { s with v3 := s.v3 ^^^ x }
  { s with v0 := s.v0 ^^^ x }

/-- Appends the low `size` bytes of a word, least significant first. Its other bytes are zero, and
`size` lies between 1 and 8. -/
def append (s : Digest) (x size : UInt64) : Digest :=
  let waiting := s.length % 8
  let tail := s.tail ||| (x <<< (8 * waiting))
  let length := s.length + size
  if waiting + size < 8 then { s with tail, length }
  else
    let rest := if waiting == 0 then 0 else x >>> (64 - 8 * waiting)
    { s.absorb tail with tail := rest, length }

def byte (s : Digest) (x : UInt8) : Digest := s.append x.toUInt64 1
def word (s : Digest) (x : UInt64) : Digest := s.append x 8
def words (s : Digest) (xs : List UInt64) : Digest := xs.foldl word s

def counted (s : Digest) (xs : List UInt64) : Digest := (s.word xs.length.toUInt64).words xs

def unordered (s : Digest) (xs : List UInt64) : Digest := s.counted (xs.mergeSort (· ≤ ·))

/-- No byte of a text is `0xFF`, so the end shows. -/
def text (s : Digest) (t : String) : Digest := (t.toUTF8.toList.foldl byte s).byte 0xFF

/-- The last word holds the bytes that wait, and the number of all bytes on top. -/
def value (s : Digest) : UInt64 :=
  let s := s.absorb (s.tail ||| (s.length <<< 56))
  let s := round (round (round { s with v2 := s.v2 ^^^ 0xFF }))
  s.v0 ^^^ s.v1 ^^^ s.v2 ^^^ s.v3

/-- A message opens with a byte that tells its kind. -/
def ofKind (kind : UInt8) : Digest := empty.byte kind

end Digest
end PlaneGeometry
