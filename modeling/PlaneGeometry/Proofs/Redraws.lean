import PlaneGeometry.Proofs.Calls
import PlaneGeometry.Proofs.Projections

/-!
# Directions that are drawn again

A reflection in a random line through a center draws its direction again as long as the direction
has no length, but only so often, and the last draw is not tested. Main statement: over a prime
field the first direction with a length is used, and nothing is drawn after it. If all directions
that may be drawn have none, then the last of them is used, and the image has no coordinates.
-/
namespace PlaneGeometry

open Plane

variable {α σ K : Type}

namespace NumericField

variable (F : NumericField α σ)

/-- Any first coordinate, and a second one other than zero. -/
def direction : Draw σ (α × α) := do
  let x ← F.draw
  let y ← F.drawOther F.zero
  return (x, y)

/-- The state of the samplers when `n` directions have been drawn. -/
def afterDirections : Nat → σ → σ
  | 0, t => t
  | n + 1, t => afterDirections n (F.direction t).2

/-- The direction that is drawn when `n` others have been drawn. -/
def directions (t : σ) (n : Nat) : α × α := (F.direction (F.afterDirections n t)).1

/-- What is called for one direction. -/
def directionCalls : List (Call α) := [⟨.draw, []⟩, ⟨.drawOther, [F.zero]⟩]

private theorem direction_recorded (calls : List (Call α)) (t : σ) :
    F.recorded.direction (calls, t) =
    ((F.direction t).1, (calls ++ F.directionCalls, (F.direction t).2)) := by
  change (_, (calls ++ [_] ++ [_], _)) = _
  rw [List.append_assoc]
  rfl

private theorem afterDirections_recorded (n : Nat) (calls : List (Call α)) (t : σ) :
    F.recorded.afterDirections n (calls, t) =
      (calls ++ (List.replicate n F.directionCalls).flatten, F.afterDirections n t) := by
  induction n generalizing calls t with
  | zero => simp [afterDirections]
  | succ n ih =>
    rw [afterDirections, direction_recorded, ih, List.append_assoc, List.replicate_succ,
      List.flatten_cons, afterDirections]

private theorem directions_recorded (calls : List (Call α)) (t : σ) :
    F.recorded.directions (calls, t) = F.directions t := by
  funext n
  rw [directions, afterDirections_recorded, direction_recorded, directions]

end NumericField

/-- The direction is orthogonal to itself. -/
def Plane.Isotropic [Field K] (φ : α → K) (d : α × α) : Prop :=
  dot (φ d.1, φ d.2) (φ d.1, φ d.2) = 0

instance [Field K] [DecidableEq K] (φ : α → K) (d : α × α) : Decidable (Isotropic φ d) :=
  inferInstanceAs (Decidable (dot (φ d.1, φ d.2) (φ d.1, φ d.2) = 0))

variable [Element α]

def Displacement.ofValues (o : Origin) (d : α × α) : Displacement α :=
  ⟨.leaf (o.part 0) d.1, .leaf (o.part 1) d.2⟩

namespace Interpretation

variable {I : Interpretation α σ}

private theorem displaces_ofValues (V : World α σ → Prop) (φ : α → K) (o : Origin) (d : α × α) :
    I.Displaces V φ (.ofValues o d) (φ d.1, φ d.2) := ⟨.pure d.1, .pure d.2⟩

private theorem nonzeroDirection_apply (o : Origin) (w : World α σ) :
    I.nonzeroDirection o w = (.ofValues o (I.field.direction w.sampler).1,
      { w with sampler := (I.field.direction w.sampler).2 }) := rfl

end Interpretation

namespace NumericField.Exact

open Interpretation

variable [Field K] {φ : α → K}

theorem recorded {F : NumericField α σ} (hF : F.Exact φ) : F.recorded.Exact φ where
  zero := hF.zero
  one := hF.one
  neg := hF.neg
  add := hF.add
  mul := hF.mul
  inv := hF.inv
  inv_zero := hF.inv_zero
  eqv := hF.eqv
  same := hF.same
  negligible := hF.negligible

variable {I : Interpretation α σ} (hF : I.field.Exact φ) {w : World α σ} (o : Origin)

include hF

private theorem anisotropic_ofValues [DecidableEq K] (n : Nat) (d : α × α) :
    I.anisotropic o (n + 1) (.ofValues o d) w =
      (if Isotropic φ d then I.nonzeroDirection o >>= I.anisotropic o n
        else pure (.ofValues o d)) w := by
  have hd := displaces_ofValues (I := I) w.SameSources φ o d
  obtain ⟨q, hq, hφq⟩ := (hF.hasValue_dot .scratch hd hd).apply_some (w := w) rfl
  have hzero : I.field.isZero q = true ↔ Isotropic φ d := by
    rw [NumericField.isZero, hF.same, hφq, hF.zero, Isotropic]
  rw [anisotropic_apply hq o n]
  simp only [hzero]

/-- The search passes over the isotropic directions before the one that it stops at, which has a
length or is the last that may be drawn. -/
theorem search_apply {n k : Nat} (hk : k ≤ n)
    (hbefore : ∀ j < k, Isotropic φ (I.field.directions w.sampler j))
    (hstop : k = n ∨ ¬Isotropic φ (I.field.directions w.sampler k)) :
    (I.nonzeroDirection o >>= I.anisotropic o n) w =
      (.ofValues o (I.field.directions w.sampler k),
        { w with sampler := I.field.afterDirections (k + 1) w.sampler }) := by
  classical
  induction n generalizing w k with
  | zero =>
    obtain rfl := Nat.le_zero.1 hk
    rw [Act.bind_apply, nonzeroDirection_apply]
    rfl
  | succ n ih =>
    rw [Act.bind_apply, nonzeroDirection_apply, hF.anisotropic_ofValues]
    cases k with
    | zero =>
      have hlength : ¬Isotropic φ (I.field.direction w.sampler).1 :=
        hstop.resolve_left (Nat.succ_ne_zero n).symm
      rw [if_neg hlength]
      rfl
    | succ k =>
      have hfirst : Isotropic φ (I.field.direction w.sampler).1 := hbefore 0 k.succ_pos
      rw [if_pos hfirst]
      -- What is drawn from the world after the first direction follows it in the sequence.
      exact ih (w := { w with sampler := (I.field.direction w.sampler).2 })
        (Nat.le_of_succ_le_succ hk) (fun j hj => hbefore (j + 1) (Nat.succ_lt_succ hj))
        (hstop.imp_left Nat.succ.inj)

private theorem reflectAbout_apply {center q : Point α} {k : Nat} (hk : k < attempts)
    (hbefore : ∀ j < k, Isotropic φ (I.field.directions w.sampler j))
    (hstop : k + 1 = attempts ∨ ¬Isotropic φ (I.field.directions w.sampler k)) :
    I.reflectAbout o center q w =
      (.mirrored o center q (.ofValues (o.part 2) (I.field.directions w.sampler k)),
        { w with sampler := I.field.afterDirections (k + 1) w.sampler }) := by
  have hsearch := hF.search_apply (o.part 2) (n := attempts - 1) (Nat.le_sub_one_of_lt hk) hbefore
    (hstop.imp_left Nat.eq_sub_of_add_eq)
  have hreflect : I.reflectAbout o center q =
      (I.nonzeroDirection (o.part 2) >>= I.anisotropic (o.part 2) (attempts - 1)) >>=
        fun u => pure (.mirrored o center q u) := rfl
  rw [hreflect, Act.bind_apply, hsearch]
  rfl

end NumericField.Exact

namespace World

/-- The image is the one in the line along the direction that is drawn when `k` others have been
drawn. Only these directions are drawn. -/
structure ReflectsAlong (F : NumericField α σ) (w : World α σ) (o : Origin) (center q : Point α)
    (k : Nat) : Prop where
  apply : F.interpretation.reflectAbout o center q w =
    (.mirrored o center q (.ofValues (o.part 2) (F.directions w.sampler k)),
      { w with sampler := F.afterDirections (k + 1) w.sampler })
  calls : w.calls (liftM (F.recorded.interpretation.reflectAbout o center q)) =
    (List.replicate (k + 1) F.directionCalls).flatten

variable [Field K] {F : NumericField α σ} {φ : α → K} (hF : F.Exact φ) {w : World α σ}
  {center q : Point α} (o : Origin)

include hF

private theorem reflectsAlong {k : Nat} (hk : k < Interpretation.attempts)
    (hbefore : ∀ j < k, Isotropic φ (F.directions w.sampler j))
    (hstop : k + 1 = Interpretation.attempts ∨ ¬Isotropic φ (F.directions w.sampler k)) :
    w.ReflectsAlong F o center q k := by
  have hI : F.interpretation.field.Exact φ := hF
  have hrecorded : F.recorded.interpretation.field.Exact φ := hF.recorded
  have hsame : F.recorded.interpretation.field.directions w.recording.sampler =
      F.directions w.sampler := F.directions_recorded [] w.sampler
  constructor
  case apply => exact hI.reflectAbout_apply o hk hbefore hstop
  case calls =>
    have hrun : F.recorded.interpretation.reflectAbout o center q w.recording = _ :=
      hrecorded.reflectAbout_apply o hk (by rwa [hsame]) (by rwa [hsame])
    change (F.recorded.interpretation.reflectAbout o center q w.recording).2.sampler.1 = _
    rw [hrun]
    exact congrArg Prod.fst (F.afterDirections_recorded (k + 1) [] w.sampler)

private theorem exists_reflectsAlong (w : World α σ) (center q : Point α) :
    ∃ k < Interpretation.attempts, w.ReflectsAlong F o center q k ∧
      (¬Isotropic φ (F.directions w.sampler k) ↔
        ∃ j < Interpretation.attempts, ¬Isotropic φ (F.directions w.sampler j)) := by
  classical
  by_cases hlength : ∃ k < Interpretation.attempts, ¬Isotropic φ (F.directions w.sampler k)
  · let k := Nat.find hlength
    obtain ⟨hk, hfound⟩ : k < Interpretation.attempts ∧ _ := Nat.find_spec hlength
    have hbefore (j : Nat) (hj : j < k) : Isotropic φ (F.directions w.sampler j) :=
      by_contra fun h => Nat.find_min hlength hj ⟨hj.trans hk, h⟩
    exact ⟨k, hk, reflectsAlong hF o hk hbefore (.inr hfound), iff_of_true hfound hlength⟩
  · have hall (j : Nat) (hj : j < Interpretation.attempts) :
        Isotropic φ (F.directions w.sampler j) := by_contra fun h => hlength ⟨j, hj, h⟩
    exact ⟨Interpretation.attempts - 1, by decide,
      reflectsAlong hF o (by decide) (fun j hj => hall j (Nat.lt_of_lt_pred hj)) (.inl rfl),
      iff_of_false (not_not_intro (hall _ (by decide))) hlength⟩

/-- The image in a line along a direction with a length keeps the distance from the center. -/
theorem place_mirrored (hc : ∀ x ∈ center.vect, w.Evaluates F x)
    (hq : ∀ x ∈ q.vect, w.Evaluates F x) (o' : Origin) {d : α × α} (hd : ¬Isotropic φ d) :
    let image := Point.mirrored o center q (.ofValues o' d)
    let ρ := F.interpretation.place φ w
    (∀ x ∈ image.vect, w.Evaluates F x) ∧
      dot (ρ image - ρ center) (ρ image - ρ center) = dot (ρ q - ρ center) (ρ q - ρ center) := by
  classical
  intro image ρ
  have hI : F.interpretation.field.Exact φ := hF
  have hkept : (Displacement.ofValues o' d).Kept := ⟨_, _, _, _, rfl⟩
  have hsettled : w.SettledAt image := w.settled_closed.mirrored o
    (fun x hx => (hc x hx).settled) (fun x hx => (hq x hx).settled) (hkept.settled w)
  obtain ⟨himage, hplace⟩ := hsettled.evaluates (hI.atPlace_mirrored o (atPlace_at φ hc)
    (atPlace_at φ hq) (Interpretation.displaces_ofValues _ φ o' d) hd)
  refine ⟨himage, ?_⟩
  rw [show ρ image = _ from hplace, sub_right_comm, dot_reflected hd]

end World

/-- The image raises what the quotient in it raises. -/
theorem Interpretation.mirrored_error {I : Interpretation α σ} {center q : Point α}
    {d : Displacement α} {w : World α σ} {e : Error} {o : Origin}
    (hq : ∀ x ∈ q.vect, ∃ v, I.value x w = (.ok v, w))
    (hquotient : I.value (.division (o.part 6) ((center.towards (o.part 3) q).dot (o.part 7) d)
      (d.dot (o.part 8) d)) w = (.error e, w)) :
    ∀ x ∈ (Point.mirrored o center q d).vect, I.value x w = (.error e, w) := by
  have htwice : I.value (.times (o.part 4) (.two (o.part 5)) (.division (o.part 6)
      ((center.towards (o.part 3) q).dot (o.part 7) d) (d.dot (o.part 8) d))) w = (.error e, w) :=
    Scalar.value_times_error_right _ (x := I.field.add I.field.one I.field.one) rfl hquotient
  simp only [Point.vect, List.forall_mem_cons] at hq ⊢
  obtain ⟨⟨x, hx⟩, ⟨y, hy⟩, -⟩ := hq
  exact ⟨Scalar.value_diff_error _ hx (Scalar.value_times_error _ htwice),
    Scalar.value_diff_error _ hy (Scalar.value_times_error _ htwice), by simp⟩

private theorem World.not_hasCoordinates_of_error {F : NumericField α σ} {w u : World α σ}
    {p : Point α}
    {e : Error} (h : F.interpretation.value p.x w = (.error e, u)) : ¬w.HasCoordinates F p := by
  intro hvalues
  obtain ⟨v, hv⟩ := Option.isSome_iff_exists.1 (hvalues _ (.head _))
  rw [Interpretation.outcome_eq_some, show p.x.value F.interpretation w = _ from h] at hv
  cases hv

namespace Residues

section

variable {p : UInt64} [Fact p.toNat.Prime] (hlt : p.toNat < 2 ^ 32) {F : NumericField UInt64 σ}
  (hF : Modular p F) {w : World UInt64 σ} {center q : Point UInt64}

include hlt hF

private theorem value_mirrored_error (hc : ∀ x ∈ center.vect, w.Evaluates F x)
    (hq : ∀ x ∈ q.vect, w.Evaluates F x) (o o' : Origin) {d : UInt64 × UInt64}
    (hd : Isotropic (residue p) d) :
    ∀ x ∈ (Point.mirrored o center q (.ofValues o' d)).vect,
      F.interpretation.value x w = (.error .divisionByIdentity, w) := by
  have hI : F.interpretation.field.Exact (residue p) :=
    hF.exact hlt
  have hu : F.interpretation.Displaces w.SameSources (residue p) (.ofValues o' d) _ :=
    Interpretation.displaces_ofValues _ _ o' d
  have hw := hI.displaces_towards (o.part 3) (World.atPlace_at (residue p) hc)
    (World.atPlace_at (residue p) hq)
  obtain ⟨x, hx, -⟩ := (hI.hasValue_dot (o.part 7) hw hu).apply_some (w := w) rfl
  have hdivisor := value_dot_eq_zero hlt hF hu hu hd (o.part 8)
  exact Interpretation.mirrored_error (fun s hs => (hq s hs).apply)
    (value_division_error hF (o.part 6) hx hdivisor)

end

/-- Directions as in a sequence, which may be any. The state counts those that have been drawn. -/
def following (p : UInt64) (d : Nat → UInt64 × UInt64) : NumericField UInt64 Nat :=
  { ofPrime zeros p with
    draw n := ((d n).1, n)
    drawOther _ n := ((d n).2, n + 1)
    order := none }

private theorem following_agrees (p : UInt64) (d : Nat → UInt64 × UInt64) :
    Modular p (following p d) := by
  constructor <;> rfl

private theorem directions_following (p : UInt64) (d : Nat → UInt64 × UInt64) (n k : Nat) :
    (following p d).directions n k = d (n + k) := by
  have hcount : (following p d).afterDirections k n = n + k := by
    induction k generalizing n with
    | zero => rfl
    | succ k ih => exact (ih (n + 1)).trans (Nat.succ_add_eq_add_succ n k)
  rw [NumericField.directions, hcount]
  rfl

/-- Over a prime field, whatever is drawn, the reflection uses the first direction with a length
among those that it may draw and draws no other after it. If none of them has a length, it draws all
of them and uses the last. Wherever the center and the point evaluate, so does the image exactly if
one of these directions has a length, and then it is as far from the center as the point. Otherwise
both of its coordinates raise a division by zero. -/
theorem reflectAbout_redraws {p : UInt64} [Fact p.toNat.Prime] (hlt : p.toNat < 2 ^ 32) {σ : Type}
    {F : NumericField UInt64 σ} (hF : Modular p F) (w : World UInt64 σ) (o : Origin)
    (center q : Point UInt64) :
    let isotropic (k : Nat) : Prop := Isotropic (residue p) (F.directions w.sampler k)
    let image := (F.interpretation.reflectAbout o center q w).1
    (∀ k < Interpretation.attempts, (∀ j < k, isotropic j) → ¬isotropic k →
      w.ReflectsAlong F o center q k) ∧
    ((∀ j < Interpretation.attempts, isotropic j) →
      w.ReflectsAlong F o center q (Interpretation.attempts - 1)) ∧
    ∀ u : World UInt64 σ, (∀ x ∈ center.vect ++ q.vect, u.Evaluates F x) →
      let ρ := F.interpretation.place (residue p) u
      (u.HasCoordinates F image ↔ ∃ j < Interpretation.attempts, ¬isotropic j) ∧
      (u.HasCoordinates F image →
        dot (ρ image - ρ center) (ρ image - ρ center) = dot (ρ q - ρ center) (ρ q - ρ center)) ∧
      (¬u.HasCoordinates F image → ∀ x ∈ image.vect,
        F.interpretation.value x u = (.error .divisionByIdentity, u)) := by
  intro isotropic image
  have hexact : F.Exact (residue p) := hF.exact hlt
  refine ⟨fun k hk hbefore hlength => ?_, fun hall => ?_, ?_⟩
  · exact World.reflectsAlong hexact o hk hbefore (.inr hlength)
  · exact World.reflectsAlong hexact o (by decide) (fun j hj => hall j (Nat.lt_of_lt_pred hj))
      (.inl rfl)
  intro u hu ρ
  obtain ⟨hc, hq⟩ := List.forall_mem_append.1 hu
  obtain ⟨k, -, hused, hlength⟩ := World.exists_reflectsAlong hexact o w center q
  have himage : image = .mirrored o center q (.ofValues (o.part 2) (F.directions w.sampler k)) :=
    congrArg Prod.fst hused.apply
  rw [← hlength, himage]
  by_cases hk : isotropic k
  · have herror := value_mirrored_error hlt hF hc hq o (o.part 2) hk
    have hnone := World.not_hasCoordinates_of_error (herror _ (.head _))
    exact ⟨iff_of_false hnone (not_not_intro hk), fun h => absurd h hnone, fun _ => herror⟩
  · obtain ⟨hvalues, hdot⟩ := World.place_mirrored hexact o hc hq (o.part 2) hk
    have hcoordinates : u.HasCoordinates F _ := fun x hx => (hvalues x hx).value
    exact ⟨iff_of_true hcoordinates hk, fun _ => hdot, fun h => absurd hcoordinates h⟩

end Residues

namespace Specimen

open Residues

/-- The first `n` directions have no length modulo five, and those after them have one. -/
def isotropicUntil (n : Nat) : NumericField UInt64 Nat :=
  following 5 fun k => if k < n then (1, 2) else (1, 1)

private theorem directions_isotropicUntil (n k : Nat) :
    (isotropicUntil n).directions 0 k = if k < n then (1, 2) else (1, 1) := by
  rw [isotropicUntil, directions_following, Nat.zero_add]

/-- The last direction that may be drawn is used, whether it has a length or not. -/
theorem reflectAbout_redraws_isotropicUntil :
    let w : World UInt64 Nat := ⟨0, #[]⟩
    let image (n : Nat) :=
      ((isotropicUntil n).interpretation.reflectAbout ⟨9, []⟩ lineOneTwo.a pointThreeOne w).1
    (w.ReflectsAlong (isotropicUntil 63) ⟨9, []⟩ lineOneTwo.a pointThreeOne 63 ∧
      w.HasCoordinates (isotropicUntil 63) (image 63)) ∧
    w.ReflectsAlong (isotropicUntil 64) ⟨9, []⟩ lineOneTwo.a pointThreeOne 63 ∧
      ∀ x ∈ (image 64).vect,
        (isotropicUntil 64).interpretation.value x w = (.error .divisionByIdentity, w) := by
  intro w image
  have hnull : Isotropic (residue 5) (1, 2) := by decide +kernel
  have hlength : ¬Isotropic (residue 5) (1, 1) := by decide +kernel
  have hbefore {n k : Nat} (hk : k < n) :
      Isotropic (residue 5) ((isotropicUntil n).directions 0 k) := by
    rwa [directions_isotropicUntil, if_pos hk]
  have hafter (n : Nat) : ¬Isotropic (residue 5) ((isotropicUntil n).directions 0 n) := by
    rwa [directions_isotropicUntil, if_neg (Nat.lt_irrefl n)]
  obtain ⟨hfirst, -, hfound⟩ := reflectAbout_redraws (p := 5) (by decide) (following_agrees 5 _) w
    ⟨9, []⟩ lineOneTwo.a pointThreeOne (F := isotropicUntil 63)
  obtain ⟨-, hlast, hnone⟩ := reflectAbout_redraws (p := 5) (by decide) (following_agrees 5 _) w
    ⟨9, []⟩ lineOneTwo.a pointThreeOne (F := isotropicUntil 64)
  obtain ⟨hvalues, -⟩ := hfound w (by decide +kernel)
  obtain ⟨hvalues', -, herror⟩ := hnone w (by decide +kernel)
  refine ⟨⟨?_, ?_⟩, ?_, ?_⟩
  · exact hfirst 63 (by decide) (fun j hj => hbefore hj) (hafter 63)
  · exact hvalues.2 ⟨63, by decide, hafter 63⟩
  · exact hlast fun j hj => hbefore hj
  · refine herror (mt hvalues'.1 ?_)
    rintro ⟨j, hj, h⟩
    exact h (hbefore hj)

end Specimen
end PlaneGeometry
