import PlaneGeometry.Vect

/-! # Matrices of scalar expressions

A matrix is a view of stored entries. Transposing flips a flag and shares the storage, whose rows
keep the length `cols`. -/
namespace PlaneGeometry

/-- The counts are machine words, and a list can hold the entries. -/
structure Mat.Fits (l c : Nat) : Prop where
  lines : l < UInt64.size
  columns : c < UInt64.size
  entries : l * c < capacity

instance (l c : Nat) : Decidable (Mat.Fits l c) :=
  decidable_of_iff (l < UInt64.size ∧ c < UInt64.size ∧ l * c < capacity)
    ⟨fun h => ⟨h.1, h.2.1, h.2.2⟩, fun h => ⟨h.lines, h.columns, h.entries⟩⟩

theorem Mat.Fits.symm {l c : Nat} (h : Mat.Fits l c) : Mat.Fits c l :=
  ⟨h.columns, h.lines, Nat.mul_comm l c ▸ h.entries⟩

/-- Entries are stored row by row, one for each place of the shape `rows × cols` before
transposition. -/
structure Mat (α : Type) [Element α] where
  entries : Array (Scalar α)
  rows : Nat
  cols : Nat
  transposed : Bool := false
  stored : entries.size = rows * cols
  fits : Mat.Fits rows cols

namespace Mat

theorem offset_lt {i j lines columns : Nat} (hi : i < lines) (hj : j < columns) :
    i * columns + j < lines * columns :=
  calc i * columns + j < i * columns + columns := Nat.add_lt_add_left hj _
    _ = (i + 1) * columns := (Nat.succ_mul i columns).symm
    _ ≤ lines * columns := Nat.mul_le_mul_right columns hi

theorem line_of_lt {k lines columns : Nat} (hk : k < lines * columns) : k / columns < lines :=
  Nat.div_lt_of_lt_mul (by rwa [Nat.mul_comm])

theorem column_of_lt {k lines columns : Nat} (hk : k < lines * columns) : k % columns < columns :=
  Nat.mod_lt k (Nat.pos_of_mul_pos_left (Nat.zero_lt_of_lt hk))

variable {α : Type} [Element α]

section

variable (m : Mat α)

def lines : Nat := if m.transposed then m.cols else m.rows
def columns : Nat := if m.transposed then m.rows else m.cols
def shape : Nat × Nat := (m.lines, m.columns)

/-- Where the entry at a position of the view is stored. -/
def offset (i j : Nat) : Nat := if m.transposed then j * m.cols + i else i * m.cols + j

theorem fits_view : Fits m.lines m.columns := by
  unfold lines columns
  split
  · exact m.fits.symm
  · exact m.fits

theorem offset_lt_size {i j : Nat} (hi : i < m.lines) (hj : j < m.columns) :
    m.offset i j < m.entries.size := by
  rw [m.stored]
  unfold lines at hi
  unfold columns at hj
  unfold offset
  split at hi
  · next h => simpa [h] using offset_lt (by simpa [h] using hj) hi
  · next h => simpa [h] using offset_lt hi (by simpa [h] using hj)

def entry (i j : Nat) (hi : i < m.lines) (hj : j < m.columns) : Scalar α :=
  getElem m.entries (m.offset i j) (m.offset_lt_size hi hj)

def entryAt (k : Nat) (hk : k < m.lines * m.columns) : Scalar α :=
  m.entry (k / m.columns) (k % m.columns) (line_of_lt hk) (column_of_lt hk)

end

def tabulate {l c : Nat} (h : Fits l c) (f : (i j : Nat) → i < l → j < c → Scalar α) : Mat α where
  entries := Array.ofFn fun k : Fin (l * c) =>
    f (k / c) (k % c) (line_of_lt k.isLt) (column_of_lt k.isLt)
  rows := l
  cols := c
  stored := Array.size_ofFn
  fits := h

/-- The number of entries is computed before the first of them. -/
def build (l c : Nat) (f : (i j : Nat) → i < l → j < c → Scalar α) : Except Fault (Mat α) :=
  if h : Fits l c then .ok (tabulate h f) else .error .overflow

theorem size_flatten {vs : List (Vect α)} {c : Nat} (h : ∀ v ∈ vs, v.length = c) :
    vs.flatten.toArray.size = vs.length * c := by
  have hlengths : vs.map List.length = List.replicate vs.length c :=
    List.eq_replicate_iff.2 ⟨List.length_map _, List.forall_mem_map.2 h⟩
  rw [List.size_toArray, List.length_flatten, hlengths, List.sum_replicate_nat]

def width (vs : List (Vect α)) : Nat := (vs.head?.map List.length).getD 0

def ofLines (vs : List (Vect α)) : Except Fault (Mat α) :=
  match h : vs.find? fun v => v.length ≠ width vs with
  | some v => .error (.error (.dimension (width vs) v.length))
  | none =>
    if hfits : Fits vs.length (width vs) then
      .ok ⟨vs.flatten.toArray, vs.length, width vs, false, size_flatten (by simpa using h), hfits⟩
    else .error .overflow

/-- Leaf values, line by line. Their number is compared with the product of the counts. -/
def ofValues (o : Origin) (lines columns : UInt64) (values : List α) : Except Fault (Mat α) :=
  let size := lines.toNat * columns.toNat
  if size < UInt64.size then
    if h : values.length = size then
      if hfits : Fits lines.toNat columns.toNat then
        .ok ⟨(Vect.ofValues o values).toArray, lines.toNat, columns.toNat, false,
          by simpa [Vect.ofValues] using h, hfits⟩
      else .error .overflow
    else .error (.error (.dimension size values.length))
  else .error .overflow

def ofFn (lines columns : UInt64) (f : Nat → Nat → Scalar α) : Except Fault (Mat α) :=
  build lines.toNat columns.toNat fun i j _ _ => f i j

def place (o : Origin) (i j : Nat) : Origin := (o.part i).part j

def identity (o : Origin) (n : UInt64) : Except Fault (Mat α) :=
  ofFn n n fun i j => if i = j then .one (place o i j) else .zero (place o i j)

/-- The planar rotation with lines `[c, -s]` and `[s, c]`. -/
def rotation (o : Origin) (c s : Scalar α) : Mat α :=
  ⟨#[c, .opposite o s, s, c], 2, 2, false, rfl, by decide⟩

def get (m : Mat α) (i j : Nat) : Except Error (Scalar α) :=
  if h : i < m.lines ∧ j < m.columns then .ok (m.entry i j h.1 h.2)
  else .error (.entryRange i j m.lines m.columns)

def lineAt (m : Mat α) (i : Nat) (hi : i < m.lines) : Vect α :=
  .ofFn fun j : Fin m.columns => m.entry i j hi j.isLt

def columnAt (m : Mat α) (j : Nat) (hj : j < m.columns) : Vect α :=
  .ofFn fun i : Fin m.lines => m.entry i j i.isLt hj

def line (m : Mat α) (i : Nat) : Except Error (Vect α) :=
  if h : i < m.lines then .ok (m.lineAt i h) else .error (.lineRange i m.lines)

def column (m : Mat α) (j : Nat) : Except Error (Vect α) :=
  if h : j < m.columns then .ok (m.columnAt j h) else .error (.columnRange j m.columns)

def toLines (m : Mat α) : List (Vect α) := .ofFn fun i : Fin m.lines => m.lineAt i i.isLt

def transpose (m : Mat α) : Mat α := { m with transposed := !m.transposed }

def apply (o : Origin) (m : Mat α) (v : Vect α) : Except Fault (Vect α) :=
  if v.length = m.columns then
    if m.lines < capacity then .ok (m.toLines.mapIdx fun i l => Vect.dotSum (o.part i) l v)
    else .error .overflow
  else .error (.error (.dimension m.columns v.length))

/-- All matrices have the shape, or the first that has another is reported. -/
def checkShapes (s : Nat × Nat) (ms : List (Mat α)) :
    Except Error (PLift (∀ m ∈ ms, m.shape = s)) :=
  match h : ms.find? fun m => m.shape ≠ s with
  | some m => .error (.shapes s m.shape)
  | none => .ok ⟨by simpa using h⟩

def entryIn {l c : Nat} (m : Mat α) (h : m.shape = (l, c)) (i j : Nat) (hi : i < l) (hj : j < c) :
    Scalar α :=
  m.entry i j (Nat.lt_of_lt_of_eq hi (congrArg Prod.fst h).symm)
    (Nat.lt_of_lt_of_eq hj (congrArg Prod.snd h).symm)

def combine (f : Origin → List (Scalar α) → Scalar α) (o : Origin) :
    List (Mat α) → Except Error (Mat α)
  | [] => .error .noMatrices
  | m :: ms => do
    let ⟨h⟩ ← checkShapes m.shape ms
    return tabulate m.fits_view fun i j hi hj =>
      f (place o i j) (m.entry i j hi hj :: ms.pmap (fun n hn => n.entryIn hn i j hi hj) h)

def sum (o : Origin) (ms : List (Mat α)) : Except Error (Mat α) := combine .sum o ms
def times (o : Origin) (ms : List (Mat α)) : Except Error (Mat α) := combine .product o ms

def minus (o : Origin) (m n : Mat α) : Except Error (Mat α) := do
  let ⟨h⟩ ← checkShapes m.shape [n]
  return tabulate m.fits_view fun i j hi hj =>
    .diff (place o i j) (m.entry i j hi hj) (n.entryIn (h n List.mem_cons_self) i j hi hj)

def scale (o : Origin) (k : Scalar α) (m : Mat α) : Mat α :=
  tabulate m.fits_view fun i j hi hj => .times (place o i j) k (m.entry i j hi hj)

def compose (o : Origin) (m n : Mat α) : Except Fault (Mat α) :=
  if m.columns = n.lines then
    build m.lines n.columns fun i j hi hj =>
      Vect.dotSum (place o i j) (m.lineAt i hi) (n.columnAt j hj)
  else .error (.error (.dimension m.columns n.lines))

/-- Equal shapes and equal entries, however they are stored. -/
def eqv (m n : Mat α) : Bool :=
  if h : n.shape = m.shape then
    (List.finRange (m.lines * m.columns)).all fun k =>
      (m.entryAt k k.isLt).eqv
        (n.entryIn h (k / m.columns) (k % m.columns) (line_of_lt k.isLt) (column_of_lt k.isLt))
  else false

instance : BEq (Mat α) := ⟨eqv⟩

def text (m : Mat α) : String :=
  let line (v : Vect α) := ", ".intercalate (v.map Scalar.text)
  "[" ++ "; ".intercalate (m.toLines.map line) ++ "]"

def debugText (m : Mat α) : String :=
  "Matrix" ++ toString m.lines ++ "x" ++ toString m.columns ++ m.text

end Mat
end PlaneGeometry
