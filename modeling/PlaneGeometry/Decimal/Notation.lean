import PlaneGeometry.Decimal.Shortest

/-! # Layout of decimals -/
namespace PlaneGeometry.Decimal

/-- How a number is written. Leading digits at exponents in `[plainFrom, plainBelow)` are written
positionally, all others with an exponent; `none` leaves that side open. -/
structure Notation where
  plainFrom : Option Int
  plainBelow : Option Int
  pointZero : Bool
  nan : String
  infinity : String

namespace Notation

/-- How values are shown: an integral value keeps `.0`, and an exponent is written below `1e-4`
and from `1e16` on. -/
def shown : Notation where
  plainFrom := some (-4)
  plainBelow := some 16
  pointZero := true
  nan := "NaN"
  infinity := "inf"

/-- How bounds are quoted in messages: never with an exponent, integral values without a point. -/
def quoted : Notation where
  plainFrom := none
  plainBelow := none
  pointZero := false
  nan := "NaN"
  infinity := "inf"

def isPlain (t : Notation) (e : Int) : Bool :=
  t.plainFrom.all (· ≤ e) && t.plainBelow.all (e < ·)

/-- Digits with the point after the first `e + 1` of them. -/
def positional (t : Notation) (digits : List Char) (e : Int) : String :=
  if e < 0 then
    String.ofList ("0.".toList ++ List.replicate (-e - 1).toNat '0' ++ digits)
  else
    let whole := (e + 1).toNat
    if digits.length ≤ whole then
      String.ofList (digits ++ List.replicate (whole - digits.length) '0') ++
        (if t.pointZero then ".0" else "")
    else
      String.ofList (digits.take whole ++ '.' :: digits.drop whole)

def scientific (digits : List Char) (e : Int) : String :=
  match digits with
  | [] => ""
  | [d] => String.ofList [d] ++ "e" ++ toString e
  | d :: rest => String.ofList (d :: '.' :: rest) ++ "e" ++ toString e

def decimal (t : Notation) (x : Number) : String :=
  let digits := Nat.toDigits 10 x.digits
  let e := x.exponent + (digits.length : Int) - 1
  if t.isPlain e then t.positional digits e else scientific digits e

def render (t : Notation) (bits : UInt64) : String :=
  let magnitude := bits &&& 0x7FFFFFFFFFFFFFFF
  let sign := if bits >>> 63 == 1 then "-" else ""
  if magnitude > 0x7FF0000000000000 then t.nan
  else if magnitude == 0x7FF0000000000000 then sign ++ t.infinity
  else if magnitude == 0 then sign ++ t.positional ['0'] 0
  else sign ++ t.decimal (Dyadic.ofBits magnitude).shortest

end Notation

example : Notation.shown.render 0x3FB999999999999A = "0.1" := by decide +kernel
example : Notation.shown.render 0x3FD3333333333334 = "0.30000000000000004" := by decide +kernel
example : Notation.shown.render 0x4341C37937E08000 = "1e16" := by decide +kernel
example : Notation.shown.render 0x0000000000000001 = "5e-324" := by decide +kernel
example : Notation.quoted.render 0x3E60000000000000 = "0.000000029802322387695313" := by
  decide +kernel
example : Notation.quoted.render 0xC030000000000000 = "-16" := by decide +kernel

end PlaneGeometry.Decimal
