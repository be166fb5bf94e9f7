/-! # Comparing lists as bags

Members are compared by an equivalence and carry a key that equal members share. One list is sorted
by key; each member of the other takes out the first equal member of the run with its key. -/
namespace PlaneGeometry.Bag

variable {α : Type} (key : α → UInt64)

def sorted (xs : List α) : List α := xs.mergeSort fun x y => key x ≤ key y

/-- Takes the first member that passes the test out of the run of members with the key `k`, in a
list sorted by key. -/
def take (k : UInt64) (test : α → Bool) : List α → Option (List α)
  | [] => none
  | y :: ys =>
    if key y < k then (take k test ys).map (y :: ·)
    else if key y = k then
      if test y then some ys else (take k test ys).map (y :: ·)
    else none

/-- Every member finds a partner in the pool. -/
def matchAll (eqv : α → α → Bool) : List α → List α → Bool
  | [], _ => true
  | x :: xs, pool =>
    match take key (key x) (eqv x) pool with
    | none => false
    | some pool => matchAll eqv xs pool

def eqv (eqv : α → α → Bool) (xs ys : List α) : Bool :=
  xs.length == ys.length && matchAll key eqv xs (sorted key ys)

end PlaneGeometry.Bag
