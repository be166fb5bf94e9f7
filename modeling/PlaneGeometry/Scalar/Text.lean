import PlaneGeometry.Scalar.Basic

/-! # How scalars are written -/
namespace PlaneGeometry.Scalar

variable {α : Type} [Element α]

/-- Writes a scalar behind `out`. Sums and products are bracketed and read in the order of their
operands; empty ones are written as their values. -/
def write (out : String) : Scalar α → String
  | leaf _ v => out ++ Element.text v
  | sum _ [] => out ++ "0"
  | sum _ (x :: xs) => following " + " (write (out ++ "(") x) xs ++ ")"
  | product _ [] => out ++ "1"
  | product _ (x :: xs) => following " * " (write (out ++ "(") x) xs ++ ")"
  | diff _ a b => write (write (out ++ "(") a ++ " - ") b ++ ")"
  | division _ a b => write (write (out ++ "(") a ++ " / ") b ++ ")"
  | opposite _ x => write (out ++ "-") x
  | inverse _ x => write out x ++ "^-1"
  | zero _ => out ++ "0"
  | one _ => out ++ "1"
  | random o => out ++ "rand#" ++ toString o.serial
  | different _ x => write (out ++ "other(") x ++ ")"
  | between _ a b => write (write (out ++ "between(") a ++ ", ") b ++ ")"
  | greater _ x => write (out ++ "greater(") x ++ ")"
  | lower _ x => write (out ++ "lower(") x ++ ")"
  | throwing _ e => out ++ "throw(" ++ e.message ++ ")"
  | norm _ v => writeList (out ++ "|") v ++ "|"
  | angle _ v w => writeList (writeList (out ++ "angle(") v ++ ", ") w ++ ")"
  | signedAngle _ v w => writeList (writeList (out ++ "signed_angle(") v ++ ", ") w ++ ")"
  | live _ _ label index => out ++ label ++ "[" ++ toString index ++ "]"
where
  following (separator out : String) : List (Scalar α) → String
    | [] => out
    | x :: xs => following separator (write (out ++ separator) x) xs
  writeList (out : String) : List (Scalar α) → String
    | [] => out ++ "[]"
    | x :: xs => following ", " (write (out ++ "[") x) xs ++ "]"

def text (x : Scalar α) : String := x.write ""

def debugText (x : Scalar α) : String := "Scalar(" ++ x.text ++ ")"

end PlaneGeometry.Scalar
