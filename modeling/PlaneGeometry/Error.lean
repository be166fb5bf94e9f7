/-! # Causes of failure and their wording -/
namespace PlaneGeometry

inductive Capability where
  | ordering | metric
  deriving DecidableEq, Repr

def Capability.text : Capability → String
  | .ordering => "ordering"
  | .metric => "metric"

/-- A deferred error was known when an expression was built and is raised when it is evaluated. -/
inductive Error where
  | argument (reason : String)
  | unsupported (capability : Capability) (field : String)
  | deferred (inner : Error)
  | state (reason : String)
  deriving DecidableEq, Repr

namespace Error

def message : Error → String
  | argument reason => "invalid argument: " ++ reason
  | unsupported capability field => "field `" ++ field ++ "` does not support " ++ capability.text
  | deferred inner => "deferred violation: " ++ inner.message
  | state reason => "undefined in current state: " ++ reason

/-- The error under any number of deferrals. -/
def root : Error → Error
  | deferred inner => inner.root
  | e => e

def dimension (expected found : Nat) : Error :=
  argument s!"dimension mismatch: expected {expected}, found {found}"

def divisionByIdentity : Error := argument "division by the additive identity"
def inverseOfIdentity : Error := argument "inverse of the additive identity"
def inverseOfZero : Error := argument "multiplicative inverse of zero"
def angleWithZero : Error := argument "angle with a zero vector"
def noVectors : Error := argument "no operand vectors"
def noMatrices : Error := argument "no operand matrices"

def coordinateRange (index length : Nat) : Error :=
  argument s!"coordinate {index} out of range for length {length}"

def basisRange (index length : Nat) : Error :=
  argument s!"basis index {index} out of range for length {length}"

def liveRange (index : Nat) (label : String) (dimension : Nat) : Error :=
  argument s!"coordinate {index} out of range for `{label}` (dimension {dimension})"

def entryRange (i j lines columns : Nat) : Error :=
  argument s!"entry ({i}, {j}) out of range for {lines}x{columns} matrix"

def lineRange (i lines : Nat) : Error := argument s!"line {i} out of range for {lines} lines"

def columnRange (j columns : Nat) : Error :=
  argument s!"column {j} out of range for {columns} columns"

def shapes (shape other : Nat × Nat) : Error :=
  let (lines, columns) := shape
  let (lines', columns') := other
  argument ("shape mismatch: " ++ s!"{lines}x{columns}" ++ " vs " ++ toString lines' ++ "x" ++
    toString columns')

def modulusRange (p : Nat) : Error := argument s!"modulus {p} exceeds 2^32"
def modulusComposite (p : Nat) : Error := argument s!"modulus {p} is not prime"
def boundsInfinite : Error := argument "sampling bounds must be finite"
def tolerance : Error := argument "eps must be finite and >= 0"

def boundsReversed (min max : String) : Error :=
  argument s!"sampling bounds reversed: min {min} > max {max}"

def boundsIncomparable (lower upper : String) : Error :=
  argument s!"interval bounds not comparable: [{lower}, {upper}]"

def emptyInterval (lower upper : String) : Error :=
  argument s!"empty interval: lower {lower} > upper {upper}"

def noSlope : Error := state "vertical line has no slope"
def notFunctionOfX : Error := state "vertical line is not a function of x"
def notFunctionOfY : Error := state "horizontal line is not a function of y"
def precondition (relation : String) : Error := state ("precondition violated: " ++ relation)
def degenerate (what relation : String) : Error := state (what ++ ": " ++ relation)

def exhausted (label : String) (attempts : Nat) : Error :=
  state s!"`{label}`: no valid sample after {attempts} attempts"

def unknownSource (index : Nat) : Error := state s!"source {index} does not exist yet"

end Error

/-- A call ends in an error that it returns, or it panics, where a size is beyond the machine word
or beyond what an allocation holds. -/
inductive Fault where
  | error (e : Error)
  | overflow
  deriving DecidableEq, Repr

instance : MonadLift (Except Error) (Except Fault) := ⟨Except.mapError .error⟩

end PlaneGeometry
