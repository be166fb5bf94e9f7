import PlaneGeometry.Proofs.ShapeChecks

/-!
# What matrices store

A matrix stores one entry for each place of its shape. Where an entry is stored is computed without
wrapping, each stored entry is that of one position, and what is built holds the entries that it was
built from. A size that is no machine word, or for which there is no room, ends in a panic.
-/
namespace PlaneGeometry
namespace Mat

variable {α β : Type} [Element α]

section

variable (m : Mat α)

/-- Where the entry at a position of the view is stored, computed on machine words. -/
def offsetWord (i j : Nat) : UInt64 :=
  if m.transposed then j.toUInt64 * m.cols.toUInt64 + i.toUInt64
  else i.toUInt64 * m.cols.toUInt64 + j.toUInt64

private theorem offsetWord_toNat (i j : Nat) :
    (m.offsetWord i j).toNat = m.offset i j % 2 ^ 64 := by
  rcases m with ⟨entries, rows, cols, _ | _, stored, fits⟩ <;>
    simp [offsetWord, offset, Nat.add_mod, Nat.mul_mod]

/-- The positions inside and the stored entries correspond to each other. -/
structure Stored : Prop where
  size : m.entries.size = m.lines * m.columns
  get {i j : Nat} : i < m.lines → j < m.columns → ∃ hk : m.offset i j < m.entries.size,
    m.get i j = .ok m.entries[m.offset i j] ∧ (m.offsetWord i j).toNat = m.offset i j
  outside {i j : Nat} : ¬(i < m.lines ∧ j < m.columns) →
    m.get i j = .error (.entryRange i j m.lines m.columns)
  once {k : Nat} : k < m.entries.size →
    ∃! p : Nat × Nat, p.1 < m.lines ∧ p.2 < m.columns ∧ m.offset p.1 p.2 = k

private theorem size_entries : m.entries.size = m.lines * m.columns := by
  rcases m with ⟨entries, rows, cols, _ | _, stored, fits⟩
  · exact stored
  · exact stored.trans (Nat.mul_comm rows cols)

private theorem size_entries_lt : m.entries.size < capacity := m.stored ▸ m.fits.entries

end

/-- Quotient and remainder of a place are the only position that is stored there. -/
theorem existsUnique_offset {k l c : Nat} (hk : k < l * c) :
    ∃! p : Nat × Nat, p.1 < l ∧ p.2 < c ∧ p.1 * c + p.2 = k := by
  refine ⟨(k / c, k % c), ⟨line_of_lt hk, column_of_lt hk, Nat.div_add_mod' k c⟩, ?_⟩
  rintro ⟨i, j⟩ ⟨-, hj, rfl⟩
  exact Prod.ext (offset_div hj).symm (Nat.mul_add_mod_of_lt hj).symm

private theorem stored_of_mat (m : Mat α) : m.Stored where
  size := m.size_entries
  get {i j} hi hj := by
    have hk := m.offset_lt_size hi hj
    have hword : m.offset i j < 2 ^ 64 := (hk.trans m.size_entries_lt).trans (by decide)
    refine ⟨hk, get_eq_ok hi hj, ?_⟩
    rw [offsetWord_toNat, Nat.mod_eq_of_lt hword]
  outside := get_eq_error
  once {k} hk := by
    rw [m.stored] at hk
    obtain ⟨⟨i, j⟩, ⟨hi, hj, hij⟩, hunique⟩ := existsUnique_offset hk
    rcases m with ⟨entries, rows, cols, _ | _, stored, fits⟩
    · exact ⟨(i, j), ⟨hi, hj, hij⟩, hunique⟩
    · refine ⟨(j, i), ⟨hj, hi, hij⟩, fun p hp => ?_⟩
      have hswap := hunique p.swap ⟨hp.2.1, hp.1, hp.2.2⟩
      rw [← p.swap_swap, hswap]
      rfl

/-- The lists have one length, so that the place of an item can be computed. -/
theorem getElem?_flatten {xss : List (List β)} {c : Nat} (h : ∀ xs ∈ xss, xs.length = c)
    {i j : Nat} (hi : i < xss.length) (hj : j < c) : xss.flatten[i * c + j]? = xss[i][j]? := by
  induction xss generalizing i with
  | nil => cases hi
  | cons xs xss ih =>
    rw [List.forall_mem_cons] at h
    rw [List.flatten_cons]
    cases i with
    | zero =>
      rw [Nat.zero_mul, Nat.zero_add, List.getElem?_append_left (h.1 ▸ hj)]
      rfl
    | succ i =>
      have hplace : (i + 1) * c + j = xs.length + (i * c + j) := by
        rw [h.1, Nat.succ_mul]
        omega
      rw [hplace, List.getElem?_append_right (Nat.le_add_right _ _), Nat.add_sub_cancel_left]
      exact ih h.2 (Nat.lt_of_succ_lt_succ hi)

section

variable {vs : List (Vect α)}

private theorem forall_length_eq_width :
    (∀ v ∈ vs, v.length = width vs) ↔ ∀ v ∈ vs, ∀ w ∈ vs, v.length = w.length := by
  cases vs with
  | nil => simp
  | cons u vs =>
    refine ⟨fun h v hv w hw => (h v hv).trans (h w hw).symm, fun h v hv => ?_⟩
    exact h v hv u List.mem_cons_self

private theorem ofLines_eq (h : ∀ v ∈ vs, v.length = width vs) : ofLines vs =
    if hfits : Fits vs.length (width vs) then
      .ok ⟨vs.flatten.toArray, vs.length, width vs, false, size_flatten h, hfits⟩
    else .error .overflow := by
  unfold ofLines
  split
  · next v hv =>
    have hne : v.length ≠ width vs := by simpa using List.find?_some hv
    exact absurd (h v (List.mem_of_find?_eq_some hv)) hne
  · rfl

private theorem declined_ofLines (h : ∃ v ∈ vs, ∃ w ∈ vs, v.length ≠ w.length) :
    Declined (ofLines vs) := by
  unfold ofLines
  split
  · exact ⟨_, rfl⟩
  · next hnone =>
    have hwidth : ∀ v ∈ vs, v.length = width vs := by simpa using hnone
    obtain ⟨v, hv, w, hw, hne⟩ := h
    exact absurd (forall_length_eq_width.1 hwidth v hv w hw) hne

private theorem toLines_ofLines {c : Nat} (h : ∀ v ∈ vs, v.length = c) (hfits : Fits vs.length c) :
    (⟨vs.flatten.toArray, vs.length, c, false, size_flatten h, hfits⟩ : Mat α).toLines = vs := by
  refine List.ext_getElem List.length_ofFn fun i _ hi => (List.getElem_ofFn _).trans ?_
  have hline : vs[i].length = c := h _ (List.getElem_mem hi)
  refine List.ext_getElem (List.length_ofFn.trans hline.symm) fun j _ hj =>
    (List.getElem_ofFn _).trans ?_
  have hplace := getElem?_flatten h hi (hline ▸ hj)
  rw [List.getElem?_eq_getElem hj] at hplace
  obtain ⟨_, hentry⟩ := List.getElem_of_getElem? hplace
  exact hentry

end

section

variable (o : Origin) {l c : UInt64} {xs : List α}

private theorem mul_toNat_eq_iff :
    (l * c).toNat = l.toNat * c.toNat ↔ l.toNat * c.toNat < 2 ^ 64 := by
  rw [UInt64.toNat_mul, Nat.mod_eq_iff_lt (by decide)]

private theorem fits_words (l c : UInt64) : Fits l.toNat c.toNat ↔ l.toNat * c.toNat < capacity :=
  ⟨Fits.entries, fun h => ⟨l.toNat_lt, c.toNat_lt, h⟩⟩

private theorem ofValues_eq_overflow (h : 2 ^ 64 ≤ l.toNat * c.toNat) :
    ofValues o l c xs = .error .overflow := if_neg (Nat.not_lt.2 h)

private theorem ofValues_eq_error (h : l.toNat * c.toNat < 2 ^ 64)
    (hne : xs.length ≠ l.toNat * c.toNat) :
    ofValues o l c xs = .error (.error (.dimension (l.toNat * c.toNat) xs.length)) :=
  (if_pos h).trans (dif_neg hne)

private theorem allocates_ofValues (h : xs.length = l.toNat * c.toNat) :
    Allocates (l.toNat * c.toNat) (ofValues o l c xs) fun m =>
      m.shape = (l.toNat, c.toNat) ∧ m.entries.toList = Vect.ofValues o xs where
  ok hn := by
    have hword : l.toNat * c.toNat < 2 ^ 64 := hn.trans (by decide)
    exact ⟨_, (if_pos hword).trans ((dif_pos h).trans (dif_pos ((fits_words l c).2 hn))), rfl, rfl⟩
  overflow hn := by
    have hfits : ¬Fits l.toNat c.toNat := mt (fits_words l c).1 (Nat.not_lt.2 hn)
    simp [ofValues, h, hfits]

end

private theorem allocates_ofFn (l c : UInt64) (f : Nat → Nat → Scalar α) :
    Allocates (l.toNat * c.toNat) (ofFn l c f) fun m => m.shape = (l.toNat, c.toNat) ∧
      ∀ i < m.lines, ∀ j < m.columns, m.get i j = .ok (f i j) := by
  refine (allocates_build l.toNat_lt c.toNat_lt _).mono ?_
  rintro _ ⟨h, rfl⟩
  refine ⟨rfl, fun i hi j hj => ?_⟩
  rw [get_eq_ok hi hj]
  exact congrArg Except.ok (entry_tabulate h _ hi hj)

/-- What constructors store, and where they panic. Sums, entrywise products, differences and
multiples have the shape of an operand, for which there is room, and never panic. -/
structure Constructed (α : Type) [Element α] : Prop where
  ofLines {vs : List (Vect α)} : (∀ v ∈ vs, ∀ w ∈ vs, v.length = w.length) →
    (Fits vs.length (width vs) → ∃ m, Mat.ofLines vs = .ok m ∧ m.toLines = vs) ∧
      (¬Fits vs.length (width vs) → Mat.ofLines vs = .error .overflow)
  ragged {vs : List (Vect α)} : (∃ v ∈ vs, ∃ w ∈ vs, v.length ≠ w.length) →
    Declined (Mat.ofLines vs)
  ofValues (o : Origin) {l c : UInt64} {xs : List α} : xs.length = l.toNat * c.toNat →
    Allocates (l.toNat * c.toNat) (Mat.ofValues o l c xs) fun m =>
      m.shape = (l.toNat, c.toNat) ∧ m.entries.toList = Vect.ofValues o xs
  miscounted (o : Origin) {l c : UInt64} {xs : List α} : l.toNat * c.toNat < 2 ^ 64 →
    xs.length ≠ l.toNat * c.toNat →
      Mat.ofValues o l c xs = .error (.error (.dimension (l.toNat * c.toNat) xs.length))
  uncountable (o : Origin) {l c : UInt64} (xs : List α) : 2 ^ 64 ≤ l.toNat * c.toNat →
    Mat.ofValues o l c xs = .error .overflow
  ofFn (l c : UInt64) (f : Nat → Nat → Scalar α) :
    Allocates (l.toNat * c.toNat) (Mat.ofFn l c f) fun m => m.shape = (l.toNat, c.toNat) ∧
      ∀ i < m.lines, ∀ j < m.columns, m.get i j = .ok (f i j)
  identity (o : Origin) (n : UInt64) :
    Allocates (n.toNat * n.toNat) (Mat.identity o n) fun m : Mat α => m.shape = (n.toNat, n.toNat)
  compose (o : Origin) {m n : Mat α} : m.columns = n.lines →
    Allocates (m.lines * n.columns) (Mat.compose o m n) fun k => k.shape = (m.lines, n.columns)

/-- Every matrix stores the entries of its positions and no others, and looks an entry up at a place
that does not wrap. Constructors store what they are given. Leaf values are accepted just if there
is one for each place. Only where the number of places is beyond what can be allocated does a
constructor or a product panic, leaf values of another number included if it is no machine word. The
product of the counts as machine words is exact up to there. -/
theorem built_stored : (∀ m : Mat α, m.Stored) ∧ Constructed α ∧
    ∀ l c : UInt64, (l * c).toNat = l.toNat * c.toNat ↔ l.toNat * c.toNat < 2 ^ 64 := by
  refine ⟨stored_of_mat, ?_, fun l c => mul_toNat_eq_iff⟩
  constructor
  case ofLines =>
    intro vs h
    have hwidth := forall_length_eq_width.2 h
    rw [ofLines_eq hwidth]
    exact ⟨fun hfits => ⟨_, dif_pos hfits, toLines_ofLines hwidth hfits⟩,
      fun hfits => dif_neg hfits⟩
  case ragged => exact declined_ofLines
  case ofValues => exact allocates_ofValues
  case miscounted => exact ofValues_eq_error
  case uncountable =>
    intro o l c xs h
    exact ofValues_eq_overflow o h
  case ofFn => exact allocates_ofFn
  case identity =>
    intro o n
    exact (allocates_ofFn n n _).mono fun _ h => h.1
  case compose =>
    intro o m n h
    refine (allocates_compose o h).mono ?_
    rintro _ ⟨hfits, rfl⟩
    rfl

end Mat

namespace Specimen

open Mat

/-- The last of six values is the last entry of the transposed table. Five values are not enough. -/
theorem built_stored_six :
    (∃ m : Mat UInt64, Mat.ofValues ⟨40, []⟩ 3 2 [1, 2, 3, 4, 5, 6] = .ok m ∧
      m.entries.toList = Vect.ofValues ⟨40, []⟩ [1, 2, 3, 4, 5, 6] ∧ m.Stored ∧
        m.transpose.Stored) ∧
      Mat.ofValues ⟨40, []⟩ 3 2 [(1 : UInt64), 2, 3, 4, 5] = .error (.error (.dimension 6 5)) := by
  obtain ⟨hstored, hconstructed, -⟩ := built_stored (α := UInt64)
  have hlength : ([1, 2, 3, 4, 5, 6] : List UInt64).length =
      (3 : UInt64).toNat * (2 : UInt64).toNat := rfl
  obtain ⟨m, hm, -, hentries⟩ := (hconstructed.ofValues ⟨40, []⟩ hlength).ok (by decide)
  exact ⟨⟨m, hm, hentries, hstored m, hstored m.transpose⟩,
    hconstructed.miscounted ⟨40, []⟩ (by decide) (by decide)⟩

/-- For `2 ^ 32` lines of as many there are too few values if there are none. They are not refused
for their number: the product of the counts panics. If it wrapped, it would be the number of the
values. -/
theorem not_refused_wrapped :
    Mat.ofValues ⟨41, []⟩ 4294967296 4294967296 ([] : List UInt64) = .error .overflow ∧
      ([] : List UInt64).length ≠ (4294967296 : UInt64).toNat * (4294967296 : UInt64).toNat ∧
        (4294967296 * 4294967296 : UInt64).toNat = ([] : List UInt64).length := by
  exact ⟨ofValues_eq_overflow _ (by decide), by decide, rfl⟩

end Specimen
end PlaneGeometry
