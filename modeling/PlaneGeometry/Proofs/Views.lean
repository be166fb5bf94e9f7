import PlaneGeometry.Proofs.Equality
import PlaneGeometry.Scalar.Value
import Mathlib.Data.Fintype.Basic

/-!
# Views of matrices

A matrix shows itself in its shape and in its entries at the positions inside. Main statement: no
operation tells a view, transposed or not, from a matrix that stores the entries of the view in
their order.
-/
namespace PlaneGeometry

variable {α σ β : Type} [Element α]

theorem ofFn_eq_ofFn {γ : Type*} {n n' : Nat} (h : n = n') {f : Fin n → γ} {g : Fin n' → γ}
    (hfg : ∀ i hi hi', f ⟨i, hi⟩ = g ⟨i, hi'⟩) : List.ofFn f = List.ofFn g := by
  subst h
  exact congrArg List.ofFn (funext fun i => hfg i i.isLt i.isLt)

namespace Mat

theorem offset_div {i j columns : Nat} (hj : j < columns) : (i * columns + j) / columns = i := by
  rw [Nat.add_comm, Nat.add_mul_div_right _ _ (Nat.zero_lt_of_lt hj), Nat.div_eq_of_lt hj,
    Nat.zero_add]

section

variable {l c : Nat} (h : Fits l c) (f : (i j : Nat) → i < l → j < c → Scalar α)

theorem entry_tabulate {i j : Nat} (hi : i < l) (hj : j < c) :
    (tabulate h f).entry i j hi hj = f i j hi hj := by
  have hk : (tabulate h f).offset i j = i * c + j := rfl
  refine (Array.getElem_ofFn _).trans ?_
  simp only [hk, offset_div hj, Nat.mul_add_mod_of_lt hj]

variable {h f}

theorem build_eq_ok (h : Fits l c) : build l c f = .ok (tabulate h f) := dif_pos h

theorem build_eq_overflow (h : ¬Fits l c) : build l c f = .error .overflow := dif_neg h

private theorem tabulate_congr {l' c' : Nat} {h' : Fits l' c'}
    {g : (i j : Nat) → i < l' → j < c' → Scalar α} (hl : l = l') (hc : c = c')
    (hfg : ∀ i j hi hj hi' hj', f i j hi hj = g i j hi' hj') : tabulate h f = tabulate h' g := by
  subst hl hc
  have heq : f = g := funext₂ fun i j => funext₂ fun hi hj => hfg i j hi hj hi hj
  rw [heq]

private theorem build_congr {l' c' : Nat} {g : (i j : Nat) → i < l' → j < c' → Scalar α}
    (hl : l = l') (hc : c = c') (hfg : ∀ i j hi hj hi' hj', f i j hi hj = g i j hi' hj') :
    build l c f = build l' c' g := by
  subst hl hc
  by_cases hfits : Fits l c
  · rw [build_eq_ok hfits, build_eq_ok hfits, tabulate_congr rfl rfl hfg]
  · rw [build_eq_overflow hfits, build_eq_overflow hfits]

end

section

variable (m : Mat α)

@[simp] theorem lines_transpose : m.transpose.lines = m.columns := by
  rcases m with ⟨entries, rows, cols, _ | _, stored, fits⟩ <;> rfl

@[simp] theorem columns_transpose : m.transpose.columns = m.lines := by
  rcases m with ⟨entries, rows, cols, _ | _, stored, fits⟩ <;> rfl

theorem entry_transpose {i j : Nat} (hi : i < m.lines) (hj : j < m.columns) :
    m.transpose.entry j i (m.lines_transpose.symm ▸ hj) (m.columns_transpose.symm ▸ hi) =
      m.entry i j hi hj := by
  rcases m with ⟨entries, rows, cols, _ | _, stored, fits⟩ <;> rfl

@[simp] theorem transpose_transpose : m.transpose.transpose = m := by
  rcases m with ⟨entries, rows, cols, _ | _, stored, fits⟩ <;> rfl

end

theorem eqv_iff {m n : Mat α} : m.eqv n = true ↔ n.shape = m.shape ∧
    ∀ i j hi hj hi' hj', (m.entry i j hi hj).eqv (n.entry i j hi' hj') = true := by
  rw [eqv]
  split
  · next h =>
    obtain ⟨hl, hc⟩ := Prod.mk.inj h
    simp only [List.all_eq_true, List.mem_finRange, forall_const, h, true_and]
    refine ⟨fun heqv i j hi hj _ _ => ?_, fun heqv k => heqv _ _ _ _ _ _⟩
    have hk := heqv ⟨i * m.columns + j, offset_lt hi hj⟩
    simpa only [entryAt, entryIn, offset_div hj, Nat.mul_add_mod_of_lt hj] using hk
  · next h => simp [h]

theorem eqv_refl (m : Mat α) : m.eqv m = true :=
  eqv_iff.2 ⟨rfl, fun _ _ _ _ _ _ => Scalar.eqv_refl _⟩

/-- The shapes agree, and the entries at the positions inside are the very same nodes. -/
structure SameEntries (m n : Mat α) : Prop where
  lines : m.lines = n.lines
  columns : m.columns = n.columns
  entry {i j : Nat} (hi : i < m.lines) (hj : j < m.columns) :
    m.entry i j hi hj = n.entry i j (lines ▸ hi) (columns ▸ hj)

namespace SameEntries

variable {m n : Mat α}

theorem refl (m : Mat α) : m.SameEntries m := ⟨rfl, rfl, fun _ _ => rfl⟩

theorem transpose (h : m.SameEntries n) : m.transpose.SameEntries n.transpose where
  lines := by rw [lines_transpose, lines_transpose, h.columns]
  columns := by rw [columns_transpose, columns_transpose, h.lines]
  entry {i j} hi hj := by
    have hi' : i < m.columns := m.lines_transpose ▸ hi
    have hj' : j < m.lines := m.columns_transpose ▸ hj
    exact (m.entry_transpose hj' hi').trans
      ((h.entry hj' hi').trans (n.entry_transpose (h.lines ▸ hj') (h.columns ▸ hi')).symm)

theorem shape (h : m.SameEntries n) : m.shape = n.shape := by
  rw [Mat.shape, Mat.shape, h.lines, h.columns]

theorem lineAt (h : m.SameEntries n) {i : Nat} (hi : i < m.lines) (hi' : i < n.lines) :
    m.lineAt i hi = n.lineAt i hi' :=
  ofFn_eq_ofFn h.columns fun _ hj _ => h.entry hi hj

theorem columnAt (h : m.SameEntries n) {j : Nat} (hj : j < m.columns) (hj' : j < n.columns) :
    m.columnAt j hj = n.columnAt j hj' :=
  ofFn_eq_ofFn h.lines fun _ hi _ => h.entry hi hj

theorem toLines (h : m.SameEntries n) : m.toLines = n.toLines :=
  ofFn_eq_ofFn h.lines fun _ hi hi' => h.lineAt hi hi'

end SameEntries

private theorem checkShapes_eq_ok {s : Nat × Nat} {ms : List (Mat α)} (h : ∀ m ∈ ms, m.shape = s) :
    checkShapes s ms = .ok ⟨h⟩ := by
  unfold checkShapes
  split
  · next m hm =>
    have hne : m.shape ≠ s := by simpa using List.find?_some hm
    exact absurd (h m (List.mem_of_find?_eq_some hm)) hne
  · rfl

/-- The first shape that is another is reported, whatever the matrices hold. -/
theorem checkShapes_eq_error {s : Nat × Nat} {ms : List (Mat α)} (h : ¬∀ m ∈ ms, m.shape = s) :
    ∃ t, (ms.map shape).find? (· ≠ s) = some t ∧ checkShapes s ms = .error (.shapes s t) := by
  unfold checkShapes
  split
  · next m hm =>
    refine ⟨m.shape, ?_, rfl⟩
    rw [List.find?_map]
    exact congrArg (Option.map shape) hm
  · next hnone => exact absurd (by simpa using hnone) h

section

variable (f : Origin → List (Scalar α) → Scalar α) (o : Origin) {m : Mat α} {ms : List (Mat α)}

theorem combine_eq_ok (h : ∀ n ∈ ms, n.shape = m.shape) : combine f o (m :: ms) =
    .ok (tabulate m.fits_view fun i j hi hj =>
      f (place o i j) (m.entry i j hi hj :: ms.pmap (fun n hn => n.entryIn hn i j hi hj) h)) := by
  rw [combine, checkShapes_eq_ok h]
  rfl

theorem combine_eq_error (h : ¬∀ n ∈ ms, n.shape = m.shape) : ∃ s,
    (ms.map shape).find? (· ≠ m.shape) = some s ∧
      combine f o (m :: ms) = .error (.shapes m.shape s) := by
  obtain ⟨s, hs, he⟩ := checkShapes_eq_error h
  refine ⟨s, hs, ?_⟩
  rw [combine, he]
  rfl

end

private theorem map_shape_congr {ms ns : List (Mat α)} (h : List.Forall₂ SameEntries ms ns) :
    ms.map shape = ns.map shape := by
  induction h with
  | nil => rfl
  | cons hm _ ih => rw [List.map_cons, List.map_cons, hm.shape, ih]

private theorem pmap_entryIn_congr {l c l' c' i j : Nat} {hi : i < l} {hj : j < c} {hi' : i < l'}
    {hj' : j < c'} {ms ns : List (Mat α)} (h : List.Forall₂ SameEntries ms ns)
    (hms : ∀ m ∈ ms, m.shape = (l, c)) (hns : ∀ n ∈ ns, n.shape = (l', c')) :
    ms.pmap (fun m hm => m.entryIn hm i j hi hj) hms =
      ns.pmap (fun n hn => n.entryIn hn i j hi' hj') hns := by
  induction h with
  | nil => rfl
  | cons hm _ ih => exact congrArg₂ List.cons (hm.entry _ _) (ih _ _)

private theorem combine_congr (f : Origin → List (Scalar α) → Scalar α) (o : Origin)
    {ms ns : List (Mat α)} (h : List.Forall₂ SameEntries ms ns) :
    combine f o ms = combine f o ns := by
  cases h with
  | nil => rfl
  | @cons m n ms ns hm hs =>
    have hmap := map_shape_congr hs
    have hshapes : (∀ k ∈ ms, k.shape = m.shape) ↔ ∀ k ∈ ns, k.shape = n.shape := by
      rw [← hm.shape, ← List.forall_mem_map (f := shape) (P := (· = m.shape)), hmap,
        List.forall_mem_map]
    by_cases hms : ∀ k ∈ ms, k.shape = m.shape
    · rw [combine_eq_ok f o hms, combine_eq_ok f o (hshapes.1 hms)]
      refine congrArg Except.ok (tabulate_congr hm.lines hm.columns fun i j hi hj hi' hj' => ?_)
      exact congrArg (f _) (congrArg₂ List.cons (hm.entry hi hj) (pmap_entryIn_congr hs _ _))
    · obtain ⟨s, hfirst, he⟩ := combine_eq_error f o hms
      obtain ⟨t, hfirst', he'⟩ := combine_eq_error f o (mt hshapes.2 hms)
      rw [hmap, hm.shape, hfirst'] at hfirst
      rw [he, he', hm.shape, Option.some.inj hfirst]

/-- Every operation gives the same for the one matrix as for the other, whatever else it is
given. New entries have origins, and are to agree in these too. -/
structure Indistinguishable (m n : Mat α) : Prop where
  shape : m.shape = n.shape
  get (i j : Nat) : m.get i j = n.get i j
  line (i : Nat) : m.line i = n.line i
  column (j : Nat) : m.column j = n.column j
  apply (o : Origin) (v : Vect α) : Mat.apply o m v = Mat.apply o n v
  sum (o : Origin) (ks ls : List (Mat α)) : sum o (ks ++ m :: ls) = sum o (ks ++ n :: ls)
  times (o : Origin) (ks ls : List (Mat α)) : times o (ks ++ m :: ls) = times o (ks ++ n :: ls)
  minuend (o : Origin) (k : Mat α) : minus o m k = minus o n k
  subtrahend (o : Origin) (k : Mat α) : minus o k m = minus o k n
  scale (o : Origin) (x : Scalar α) : scale o x m = scale o x n
  composeLeft (o : Origin) (k : Mat α) : compose o m k = compose o n k
  composeRight (o : Origin) (k : Mat α) : compose o k m = compose o k n
  actual {σ : Type} (I : Interpretation α σ) : I.matrix m = I.matrix n
  dense {σ : Type} (I : Interpretation α σ) : I.dense m = I.dense n
  eqvLeft (k : Mat α) : m.eqv k = n.eqv k
  eqvRight (k : Mat α) : k.eqv m = k.eqv n
  text : m.text = n.text
  debugText : m.debugText = n.debugText

theorem minus_eq_ok (o : Origin) {m n : Mat α} (h : n.shape = m.shape) : minus o m n =
    .ok (tabulate m.fits_view fun i j hi hj =>
      .diff (place o i j) (m.entry i j hi hj) (n.entryIn h i j hi hj)) := by
  rw [minus, checkShapes_eq_ok (List.forall_mem_singleton.2 h)]
  rfl

theorem minus_eq_error (o : Origin) {m n : Mat α} (h : n.shape ≠ m.shape) :
    minus o m n = .error (.shapes m.shape n.shape) := by
  obtain ⟨s, hs, he⟩ := checkShapes_eq_error (mt List.forall_mem_singleton.1 h)
  rw [minus, he]
  simp_all

theorem compose_eq_build (o : Origin) {m n : Mat α} (h : m.columns = n.lines) :
    compose o m n = build m.lines n.columns fun i j hi hj =>
      Vect.dotSum (place o i j) (m.lineAt i hi) (n.columnAt j hj) :=
  if_pos h

theorem compose_eq_error (o : Origin) {m n : Mat α} (h : m.columns ≠ n.lines) :
    compose o m n = .error (.error (.dimension m.columns n.lines)) :=
  if_neg h

namespace SameEntries

variable {m n : Mat α} (h : m.SameEntries n)

include h

private theorem forall₂_append (ks ls : List (Mat α)) :
    List.Forall₂ SameEntries (ks ++ m :: ls) (ks ++ n :: ls) :=
  List.rel_append (List.forall₂_same.2 fun k _ => .refl k)
    (.cons h (List.forall₂_same.2 fun k _ => .refl k))

theorem apply (o : Origin) (v : Vect α) : Mat.apply o m v = Mat.apply o n v := by
  rw [Mat.apply, Mat.apply, h.lines, h.columns, h.toLines]

theorem minuend (o : Origin) (k : Mat α) : minus o m k = minus o n k := by
  by_cases hs : k.shape = m.shape
  · rw [minus_eq_ok o hs, minus_eq_ok o (hs.trans h.shape)]
    refine congrArg Except.ok (tabulate_congr h.lines h.columns fun i j hi hj _ _ => ?_)
    exact congrArg (Scalar.diff _ · _) (h.entry hi hj)
  · rw [minus_eq_error o hs, minus_eq_error o (h.shape ▸ hs), h.shape]

theorem subtrahend (o : Origin) (k : Mat α) : minus o k m = minus o k n := by
  by_cases hs : m.shape = k.shape
  · rw [minus_eq_ok o hs, minus_eq_ok o (h.shape.symm.trans hs)]
    refine congrArg Except.ok (tabulate_congr rfl rfl fun i j hi hj _ _ => ?_)
    exact congrArg (Scalar.diff _ _) (h.entry _ _)
  · rw [minus_eq_error o hs, minus_eq_error o (h.shape ▸ hs), h.shape]

private theorem composeLeft (o : Origin) (k : Mat α) : compose o m k = compose o n k := by
  by_cases hk : m.columns = k.lines
  · rw [compose_eq_build o hk, compose_eq_build o (h.columns.symm.trans hk)]
    refine build_congr h.lines rfl fun i j hi hj hi' _ => ?_
    rw [h.lineAt hi hi']
  · rw [compose_eq_error o hk, compose_eq_error o (h.columns ▸ hk), h.columns]

private theorem composeRight (o : Origin) (k : Mat α) : compose o k m = compose o k n := by
  by_cases hk : k.columns = m.lines
  · rw [compose_eq_build o hk, compose_eq_build o (hk.trans h.lines)]
    refine build_congr rfl h.columns fun i j hi hj _ hj' => ?_
    rw [h.columnAt hj hj']
  · rw [compose_eq_error o hk, compose_eq_error o (h.lines ▸ hk), h.lines]

private theorem eqvLeft (k : Mat α) : m.eqv k = n.eqv k := by
  rw [Bool.eq_iff_iff, eqv_iff, eqv_iff, ← h.shape]
  refine and_congr_right fun _ => ⟨fun heqv i j hi hj hi' hj' => ?_, fun heqv i j hi hj _ _ => ?_⟩
  · rw [← h.entry (h.lines ▸ hi) (h.columns ▸ hj)]
    exact heqv i j _ _ hi' hj'
  · rw [h.entry hi hj]
    exact heqv i j _ _ _ _

private theorem eqvRight (k : Mat α) : k.eqv m = k.eqv n := by
  rw [Bool.eq_iff_iff, eqv_iff, eqv_iff, ← h.shape]
  refine and_congr_right fun _ =>
    ⟨fun heqv i j hi hj hi' hj' => ?_, fun heqv i j hi hj hi' hj' => ?_⟩
  · rw [← h.entry (h.lines ▸ hi') (h.columns ▸ hj')]
    exact heqv i j hi hj _ _
  · rw [h.entry hi' hj']
    exact heqv i j hi hj _ _

private theorem actual (I : Interpretation α σ) : I.matrix m = I.matrix n := by
  rw [Interpretation.matrix, Interpretation.matrix, h.toLines]

theorem text : m.text = n.text := by
  rw [Mat.text, Mat.text, h.toLines]

private theorem indistinguishable : m.Indistinguishable n where
  shape := h.shape
  get i j := by
    by_cases hij : i < m.lines ∧ j < m.columns
    · rw [get, get, dif_pos hij, dif_pos (h.lines ▸ h.columns ▸ hij), h.entry hij.1 hij.2]
    · rw [get, get, dif_neg hij, dif_neg (h.lines ▸ h.columns ▸ hij), h.lines, h.columns]
  line i := by
    by_cases hi : i < m.lines
    · rw [line, line, dif_pos hi, dif_pos (h.lines ▸ hi), h.lineAt hi]
    · rw [line, line, dif_neg hi, dif_neg (h.lines ▸ hi), h.lines]
  column j := by
    by_cases hj : j < m.columns
    · rw [column, column, dif_pos hj, dif_pos (h.columns ▸ hj), h.columnAt hj]
    · rw [column, column, dif_neg hj, dif_neg (h.columns ▸ hj), h.columns]
  apply := h.apply
  sum o ks ls := combine_congr .sum o (h.forall₂_append ks ls)
  times o ks ls := combine_congr .product o (h.forall₂_append ks ls)
  minuend := h.minuend
  subtrahend := h.subtrahend
  scale o x := by
    refine tabulate_congr h.lines h.columns fun i j hi hj _ _ => ?_
    exact congrArg (Scalar.times _ _) (h.entry hi hj)
  composeLeft := h.composeLeft
  composeRight := h.composeRight
  actual := h.actual
  dense I := by rw [Interpretation.dense, Interpretation.dense, h.actual I, h.columns]
  eqvLeft := h.eqvLeft
  eqvRight := h.eqvRight
  text := h.text
  debugText := by rw [debugText, debugText, h.lines, h.columns, h.text]

end SameEntries

variable (m : Mat α)

/-- The matrix that stores the entries of the view, line by line. -/
def materialized : Mat α := tabulate m.fits_view m.entry

private theorem sameEntries_materialized : m.SameEntries m.materialized where
  lines := rfl
  columns := rfl
  entry hi hj := (entry_tabulate m.fits_view m.entry hi hj).symm

theorem get_eq_ok {m : Mat α} {i j : Nat} (hi : i < m.lines) (hj : j < m.columns) :
    m.get i j = .ok (m.entry i j hi hj) := dif_pos ⟨hi, hj⟩

theorem get_eq_error {m : Mat α} {i j : Nat} (h : ¬(i < m.lines ∧ j < m.columns)) :
    m.get i j = .error (.entryRange i j m.lines m.columns) := dif_neg h

/-- The counts of a matrix are machine words, so that a matrix of its shape can be asked for. -/
theorem ofFn_eq_materialized {f : Nat → Nat → Scalar α}
    (hf : ∀ i < m.lines, ∀ j < m.columns, m.get i j = .ok (f i j)) :
    ofFn m.lines.toUInt64 m.columns.toUInt64 f = .ok m.materialized := by
  have hl : m.lines.toUInt64.toNat = m.lines := UInt64.toNat_ofNat_of_lt' m.fits_view.lines
  have hc : m.columns.toUInt64.toNat = m.columns := UInt64.toNat_ofNat_of_lt' m.fits_view.columns
  rw [materialized, ← build_eq_ok]
  refine build_congr hl hc fun i j _ _ hi hj => ?_
  have hget := hf i hi j hj
  rw [get_eq_ok hi hj] at hget
  exact (Except.ok.inj hget).symm

/-- The entries of a view can always be stored. No operation tells the view from its stored copy,
nor the transposed view from the transposed copy. Transposing exchanges the indices of the nodes,
and twice it gives the view back. Positions outside are refused on both sides. -/
theorem view_indistinguishable :
    (∀ f : Nat → Nat → Scalar α, (∀ i < m.lines, ∀ j < m.columns, m.get i j = .ok (f i j)) →
      ofFn m.lines.toUInt64 m.columns.toUInt64 f = .ok m.materialized) ∧
      m.eqv m.materialized = true ∧ m.Indistinguishable m.materialized ∧
      m.transpose.Indistinguishable m.materialized.transpose ∧
      m.transpose.transpose.eqv m = true ∧ ∀ i j,
        (i < m.lines ∧ j < m.columns → ∃ x, m.get i j = .ok x ∧ m.transpose.get j i = .ok x) ∧
        (¬(i < m.lines ∧ j < m.columns) → m.get i j = .error (.entryRange i j m.lines m.columns) ∧
          m.transpose.get j i = .error (.entryRange j i m.columns m.lines)) := by
  have h := m.sameEntries_materialized
  refine ⟨fun f => m.ofFn_eq_materialized, ?_, h.indistinguishable, h.transpose.indistinguishable,
    ?_, fun i j => ⟨?_, ?_⟩⟩
  · rw [← h.eqvRight]
    exact m.eqv_refl
  · rw [transpose_transpose]
    exact m.eqv_refl
  · rintro ⟨hi, hj⟩
    refine ⟨m.entry i j hi hj, get_eq_ok hi hj, ?_⟩
    rw [← m.entry_transpose hi hj]
    exact get_eq_ok _ _
  · intro hij
    have hji : ¬(j < m.transpose.lines ∧ i < m.transpose.columns) := by
      rwa [lines_transpose, columns_transpose, and_comm]
    have hget := get_eq_error hji
    rw [lines_transpose, columns_transpose] at hget
    exact ⟨get_eq_error hij, hget⟩

end Mat
end PlaneGeometry
