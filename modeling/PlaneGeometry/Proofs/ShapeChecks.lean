import PlaneGeometry.Proofs.Views

/-!
# Checks of lengths and shapes

Vectors and matrices that do not fit are refused before anything is built, and the reason is an
invalid argument.
-/
namespace PlaneGeometry

variable {α β γ : Type} [Element α]

/-- The arguments are called invalid. -/
def Refused (r : Except Error β) : Prop := ∃ reason, r = .error (.argument reason)

/-- The arguments are called invalid, before any size is computed. -/
def Declined (r : Except Fault β) : Prop := ∃ reason, r = .error (.error (.argument reason))

/-- A call that needs room for `n` entries. Where a list can hold them, it succeeds with something
of the class `P`, and otherwise it panics. -/
structure Allocates (n : Nat) (r : Except Fault β) (P : β → Prop) : Prop where
  ok : n < capacity → ∃ x, r = .ok x ∧ P x
  overflow : capacity ≤ n → r = .error .overflow

theorem Allocates.mono {n : Nat} {r : Except Fault β} {P Q : β → Prop} (h : Allocates n r P)
    (hPQ : ∀ x, P x → Q x) : Allocates n r Q where
  ok hn := by
    obtain ⟨x, hx, hP⟩ := h.ok hn
    exact ⟨x, hx, hPQ x hP⟩
  overflow := h.overflow

theorem Allocates.bind {n k : Nat} {r : Except Fault β} {P : β → Prop} (h : Allocates n r P)
    {f : β → Except Fault γ} {Q : γ → Prop} (hf : ∀ x, P x → Allocates k (f x) Q) :
    Allocates (max n k) (r >>= f) Q where
  ok hmax := by
    obtain ⟨hn, hk⟩ := Nat.max_lt.1 hmax
    obtain ⟨x, rfl, hx⟩ := h.ok hn
    exact (hf x hx).ok hk
  overflow hmax := by
    rcases Nat.lt_or_ge n capacity with hn | hn
    · obtain ⟨x, rfl, hx⟩ := h.ok hn
      have hk : capacity ≤ k := (le_max_iff.1 hmax).resolve_left (Nat.not_le.2 hn)
      exact (hf x hx).overflow hk
    · rw [h.overflow hn]
      rfl

private theorem forM_eq_ok {f : β → Except Error Unit} {xs : List β} (h : ∀ x ∈ xs, f x = .ok ()) :
    xs.forM f = .ok () := by
  induction xs with
  | nil => rfl
  | cons x xs ih =>
    rw [List.forall_mem_cons] at h
    change (f x >>= fun _ => xs.forM f) = _
    rw [h.1]
    exact ih h.2

/-- The first check that fails is reported. -/
theorem forM_eq_error {f : β → Except Error Unit} {xs : List β} (h : ¬∀ x ∈ xs, f x = .ok ()) :
    ∃ x ∈ xs, ∃ e, f x = .error e ∧ xs.forM f = .error e := by
  induction xs with
  | nil => simp at h
  | cons x xs ih =>
    change ∃ y ∈ x :: xs, ∃ e, f y = .error e ∧ (f x >>= fun _ => xs.forM f) = _
    cases hx : f x with
    | ok u =>
      obtain ⟨y, hy, e, he, hxs⟩ := ih fun hxs => h (List.forall_mem_cons.2 ⟨hx, hxs⟩)
      exact ⟨y, List.mem_cons_of_mem x hy, e, he, hxs⟩
    | error e => exact ⟨x, List.mem_cons_self, e, hx, rfl⟩

theorem Refused.bind {r : Except Error β} (h : Refused r) (f : β → Except Error γ) :
    Refused (r >>= f) := by
  obtain ⟨reason, rfl⟩ := h
  exact ⟨reason, rfl⟩

namespace Vect

variable (f : Origin → List (Scalar α) → Scalar α) (o : Origin)

theorem checkLength_of_eq {v w : Vect α} (h : v.length = w.length) : checkLength v w = .ok () :=
  if_pos h

theorem refused_checkLength {v w : Vect α} (h : v.length ≠ w.length) :
    Refused (checkLength v w) := ⟨_, if_neg h⟩

private theorem refused_checkPlane {v : Vect α} (h : v.length ≠ 2) : Refused (checkPlane v) :=
  ⟨_, if_neg h⟩

theorem combine_eq_ok {v : Vect α} {vs : List (Vect α)} (h : ∀ w ∈ vs, v.length = w.length) :
    combine f o (v :: vs) =
      .ok ((Rows.columns v.length (v :: vs)).mapIdx fun i xs => f (o.part i) xs) := by
  rw [combine, forM_eq_ok fun w hw => checkLength_of_eq (h w hw)]
  rfl

/-- No vectors, or vectors of different lengths. -/
theorem refused_combine {vs : List (Vect α)}
    (h : vs = [] ∨ ∃ v ∈ vs, ∃ w ∈ vs, v.length ≠ w.length) : Refused (combine f o vs) := by
  cases vs with
  | nil => exact ⟨_, rfl⟩
  | cons v vs =>
    obtain ⟨u, hu, w, hw, hne⟩ := h.resolve_left (List.cons_ne_nil v vs)
    -- All are compared with the first, and two that differ cannot both have its length.
    have hnot : ¬∀ x ∈ vs, checkLength v x = .ok () := by
      intro hall
      have hlength : ∀ x ∈ v :: vs, v.length = x.length := by
        refine List.forall_mem_cons.2 ⟨rfl, fun x hx => by_contra fun hne => ?_⟩
        obtain ⟨reason, he⟩ := refused_checkLength hne
        rw [hall x hx] at he
        cases he
      exact hne ((hlength u hu).symm.trans (hlength w hw))
    obtain ⟨x, -, e, hx, he⟩ := forM_eq_error hnot
    rw [combine, he]
    rw [checkLength] at hx
    split at hx
    · cases hx
    · cases hx
      exact ⟨_, rfl⟩

theorem zip_eq_ok (g : Origin → Scalar α → Scalar α → Scalar α) {v w : Vect α}
    (h : v.length = w.length) : zip g o v w =
      .ok ((List.zip v w).mapIdx fun i p => g (o.part i) p.1 p.2) := by
  rw [zip, checkLength_of_eq h]
  rfl

private theorem refused_cross {v w : Vect α} (h : v.length ≠ 2 ∨ w.length ≠ 2) :
    Refused (cross o v w) := by
  unfold cross
  split
  · simp at h
  · exact ⟨_, rfl⟩
  · exact ⟨_, rfl⟩

private theorem refused_perp {v : Vect α} (h : v.length ≠ 2) : Refused (perp o v) := by
  unfold perp
  split
  · simp at h
  · exact ⟨_, rfl⟩

/-- Operations on vectors of lengths that do not fit are refused. -/
structure LengthsChecked (α : Type) [Element α] : Prop where
  sum (o : Origin) {vs : List (Vect α)} :
    (vs = [] ∨ ∃ v ∈ vs, ∃ w ∈ vs, v.length ≠ w.length) → Refused (sum o vs)
  times (o : Origin) {vs : List (Vect α)} :
    (vs = [] ∨ ∃ v ∈ vs, ∃ w ∈ vs, v.length ≠ w.length) → Refused (times o vs)
  plus (o : Origin) {v w : Vect α} : v.length ≠ w.length → Refused (plus o v w)
  minus (o : Origin) {v w : Vect α} : v.length ≠ w.length → Refused (minus o v w)
  dot (o : Origin) {v w : Vect α} : v.length ≠ w.length → Refused (dot o v w)
  angle (o : Origin) {v w : Vect α} : v.length ≠ w.length → Refused (angle o v w)
  signedAngle (o : Origin) {v w : Vect α} :
    v.length ≠ 2 ∨ w.length ≠ 2 → Refused (signedAngle o v w)
  cross (o : Origin) {v w : Vect α} : v.length ≠ 2 ∨ w.length ≠ 2 → Refused (cross o v w)
  perp (o : Origin) {v : Vect α} : v.length ≠ 2 → Refused (perp o v)

theorem lengthsChecked (α : Type) [Element α] : LengthsChecked α where
  sum := refused_combine .sum
  times := refused_combine .product
  plus _ _ _ h := (refused_checkLength h).bind _
  minus _ _ _ h := (refused_checkLength h).bind _
  dot _ _ _ h := (refused_checkLength h).bind _
  angle _ _ _ h := (refused_checkLength h).bind _
  signedAngle o v w h := by
    by_cases hv : v.length = 2
    · have hw : v.length ≠ w.length := fun hvw => h.elim (· hv) (· (hvw ▸ hv))
      rw [signedAngle, checkPlane, if_pos hv]
      exact (refused_checkLength hw).bind _
    · exact (refused_checkPlane hv).bind _
  cross := refused_cross
  perp := refused_perp

end Vect

namespace Mat

private theorem refused_combine (f : Origin → List (Scalar α) → Scalar α) (o : Origin)
    {ms : List (Mat α)}
    (h : ms = [] ∨ ∃ m ∈ ms, ∃ n ∈ ms, m.shape ≠ n.shape) : Refused (combine f o ms) := by
  cases ms with
  | nil => exact ⟨_, rfl⟩
  | cons m ms =>
    obtain ⟨k, hk, n, hn, hne⟩ := h.resolve_left (List.cons_ne_nil m ms)
    have hnot : ¬∀ n ∈ ms, n.shape = m.shape := by
      intro hall
      have hshape : ∀ n ∈ m :: ms, n.shape = m.shape := List.forall_mem_cons.2 ⟨rfl, hall⟩
      exact hne ((hshape k hk).trans (hshape n hn).symm)
    obtain ⟨s, -, he⟩ := combine_eq_error f o hnot
    exact ⟨_, he⟩

theorem allocates_build {l c : Nat} (hl : l < 2 ^ 64) (hc : c < 2 ^ 64)
    (f : (i j : Nat) → i < l → j < c → Scalar α) :
    Allocates (l * c) (build l c f) fun m => ∃ h, m = tabulate h f where
  ok hn := ⟨_, build_eq_ok ⟨hl, hc, hn⟩, _, rfl⟩
  overflow hn := build_eq_overflow fun h => Nat.not_le.2 h.entries hn

/-- Whatever the factors hold, their product fails for its size alone. -/
theorem allocates_compose (o : Origin) {m n : Mat α} (h : m.columns = n.lines) :
    Allocates (m.lines * n.columns) (compose o m n) fun k =>
      ∃ hfits, k = tabulate hfits fun i j hi hj =>
        Vect.dotSum (place o i j) (m.lineAt i hi) (n.columnAt j hj) := by
  rw [compose_eq_build o h]
  exact allocates_build m.fits_view.lines n.fits_view.columns _

theorem allocates_apply (o : Origin) {m : Mat α} {v : Vect α} (h : v.length = m.columns) :
    Allocates m.lines (apply o m v)
      (· = m.toLines.mapIdx fun i l => Vect.dotSum (o.part i) l v) where
  ok hn := ⟨_, (if_pos h).trans (if_pos hn), rfl⟩
  overflow hn := (if_pos h).trans (if_neg (Nat.not_lt.2 hn))

/-- Operations on matrices of shapes that do not fit are refused. -/
structure ShapesChecked (α : Type) [Element α] : Prop where
  sum (o : Origin) {ms : List (Mat α)} :
    (ms = [] ∨ ∃ m ∈ ms, ∃ n ∈ ms, m.shape ≠ n.shape) → Refused (sum o ms)
  times (o : Origin) {ms : List (Mat α)} :
    (ms = [] ∨ ∃ m ∈ ms, ∃ n ∈ ms, m.shape ≠ n.shape) → Refused (times o ms)
  minus (o : Origin) {m n : Mat α} : m.shape ≠ n.shape → Refused (minus o m n)
  compose (o : Origin) {m n : Mat α} : m.columns ≠ n.lines → Declined (compose o m n)
  apply (o : Origin) {m : Mat α} {v : Vect α} : v.length ≠ m.columns → Declined (apply o m v)

theorem shapesChecked (α : Type) [Element α] : ShapesChecked α where
  sum := refused_combine .sum
  times := refused_combine .product
  minus o _ _ h := ⟨_, minus_eq_error o h.symm⟩
  compose o _ _ h := ⟨_, compose_eq_error o h⟩
  apply _ _ _ h := ⟨_, if_neg h⟩

end Mat

end PlaneGeometry
