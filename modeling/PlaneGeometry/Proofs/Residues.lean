import PlaneGeometry.Field.Residues
import PlaneGeometry.Proofs.Denotation
import Mathlib.FieldTheory.Finite.Basic

/-!
# Residue arithmetic is exact

Operands are reduced first and the modulus is below `2^32`, so no sum and no product wraps. Main
statement: evaluation over a prime field is arithmetic modulo the prime, for leaves of any size.
-/
namespace PlaneGeometry

namespace Residues

/-- The residue that a word stands for. -/
def residue (p x : UInt64) : ZMod p.toNat := x.toNat

/-- A source that draws nothing but zeros. -/
def zeros : UInt64 → Draw Unit UInt64 := fun _ => return 0

/-- The field computes and tests as residues modulo `p` do. Its draws may be any. -/
abbrev Modular {σ : Type} (p : UInt64) (F : NumericField UInt64 σ) : Prop :=
  (ofPrime zeros p).Agrees F

theorem modular_ofPrime {σ : Type} (below : UInt64 → Draw σ UInt64) (p : UInt64) :
    Modular p (ofPrime below p) := by
  constructor <;> rfl

/-- What is drawn below a positive bound is below it. -/
def DrawsBelow {σ : Type} (below : UInt64 → Draw σ UInt64) : Prop :=
  ∀ (n : UInt64) (t : σ), 0 < n.toNat → (below n t).1.toNat < n.toNat

theorem drawsBelow_zeros : DrawsBelow zeros := fun _ _ hn => hn

private theorem mul_pow_square_mod (acc base exp p : Nat) :
    acc * base ^ (exp % 2) % p * (base * base % p) ^ (exp / 2) % p = acc * base ^ exp % p := by
  have hmod := (Nat.mod_modEq (acc * base ^ (exp % 2)) p).mul
    ((Nat.mod_modEq (base * base) p).pow (exp / 2))
  refine hmod.trans ?_
  rw [← Nat.pow_two, ← Nat.pow_mul, Nat.mul_assoc, ← Nat.pow_add, Nat.mod_add_div]

section

variable {p : UInt64} (hp : 0 < p.toNat) (hlt : p.toNat < 2 ^ 32)

include hp

theorem mod_toNat_lt (x : UInt64) : (x % p).toNat < p.toNat := by
  rw [UInt64.toNat_mod]
  exact Nat.mod_lt _ hp

include hlt

theorem add_toNat (x y : UInt64) : (add p x y).toNat = (x.toNat + y.toNat) % p.toNat := by
  have hx := Nat.mod_lt x.toNat hp
  have hy := Nat.mod_lt y.toNat hp
  have hsum : x.toNat % p.toNat + y.toNat % p.toNat < 2 ^ 64 := by omega
  rw [add, UInt64.toNat_mod, UInt64.toNat_add, UInt64.toNat_mod, UInt64.toNat_mod,
    Nat.mod_eq_of_lt hsum, ← Nat.add_mod]

omit hp in
theorem mulReduced_toNat {x y : UInt64} (hx : x.toNat < p.toNat) (hy : y.toNat < p.toNat) :
    (x * y % p).toNat = x.toNat * y.toNat % p.toNat := by
  have hxy : x.toNat * y.toNat < 2 ^ 64 :=
    Nat.mul_lt_mul'' (c := 2 ^ 32) (d := 2 ^ 32) (Nat.lt_trans hx hlt) (Nat.lt_trans hy hlt)
  rw [UInt64.toNat_mod, UInt64.toNat_mul, Nat.mod_eq_of_lt hxy]

theorem mul_toNat (x y : UInt64) : (mul p x y).toNat = x.toNat * y.toNat % p.toNat := by
  rw [mul, mulReduced_toNat hlt (mod_toNat_lt hp x) (mod_toNat_lt hp y), UInt64.toNat_mod,
    UInt64.toNat_mod, ← Nat.mul_mod]

omit hlt in
theorem neg_toNat (x : UInt64) :
    (neg p x).toNat = (p.toNat - x.toNat % p.toNat) % p.toNat := by
  have hx := Nat.mod_lt x.toNat hp
  rw [neg, UInt64.toNat_mod, UInt64.toNat_sub_of_le _ _ ?_, UInt64.toNat_mod]
  rw [UInt64.le_iff_toNat_le, UInt64.toNat_mod]
  exact hx.le

omit hp hlt in
theorem same_iff (x y : UInt64) : same p x y = true ↔ x.toNat ≡ y.toNat [MOD p.toNat] := by
  rw [same, beq_iff_eq, ← UInt64.toNat_inj, UInt64.toNat_mod, UInt64.toNat_mod, Nat.ModEq]

theorem powLoop_toNat (bits : Nat) {base exp acc : UInt64} (hb : base.toNat < p.toNat)
    (ha : acc.toNat < p.toNat) (he : exp.toNat < 2 ^ bits) :
    (powLoop p bits base exp acc).toNat = acc.toNat * base.toNat ^ exp.toNat % p.toNat := by
  -- Each bit squares the base and halves the exponent, an odd one leaving a factor to `acc`.
  induction bits generalizing base exp acc with
  | zero =>
    have he0 : exp.toNat = 0 := by omega
    rw [powLoop, he0, Nat.pow_zero, Nat.mul_one, Nat.mod_eq_of_lt ha]
  | succ bits ih =>
    rw [powLoop]
    split
    · next h0 =>
      have he0 : exp.toNat = 0 := by rw [beq_iff_eq.1 h0]; rfl
      rw [he0, Nat.pow_zero, Nat.mul_one, Nat.mod_eq_of_lt ha]
    · have hhalf : (exp >>> 1).toNat = exp.toNat / 2 := by
        rw [UInt64.toNat_shiftRight]
        exact Nat.shiftRight_eq_div_pow _ 1
      have hodd : (exp &&& 1 == 1) = true ↔ exp.toNat % 2 = 1 := by
        rw [beq_iff_eq, ← UInt64.toNat_inj, UInt64.toNat_and, ← Nat.and_one_is_mod]
        rfl
      have hsquare := mulReduced_toNat hlt hb hb
      have hacc : (if exp &&& 1 == 1 then acc * base % p else acc).toNat =
          acc.toNat * base.toNat ^ (exp.toNat % 2) % p.toNat := by
        split
        · next h => rw [mulReduced_toNat hlt ha hb, hodd.1 h, Nat.pow_one]
        · next h =>
          have heven : exp.toNat % 2 = 0 := by
            have := mt hodd.2 h
            omega
          rw [heven, Nat.pow_zero, Nat.mul_one, Nat.mod_eq_of_lt ha]
      rw [ih (by rw [hsquare]; exact Nat.mod_lt _ hp) (by rw [hacc]; exact Nat.mod_lt _ hp)
        (by rw [hhalf]; omega), hsquare, hacc, hhalf]
      exact mul_pow_square_mod _ _ _ _

theorem pow_toNat (h1 : 1 < p.toNat) (base exp : UInt64) :
    (pow p base exp).toNat = base.toNat ^ exp.toNat % p.toNat := by
  have hone : (1 : UInt64).toNat < p.toNat := h1
  rw [pow, powLoop_toNat hp hlt 64 (mod_toNat_lt hp base) hone exp.toNat_lt, UInt64.toNat_mod,
    UInt64.toNat_one, Nat.one_mul, ← Nat.pow_mod]

end

private theorem residue_eq_iff (p x y : UInt64) :
    residue p x = residue p y ↔ x.toNat ≡ y.toNat [MOD p.toNat] :=
  ZMod.natCast_eq_natCast_iff _ _ _

theorem residue_eq_zero_iff (p x : UInt64) : residue p x = 0 ↔ p.toNat ∣ x.toNat :=
  ZMod.natCast_eq_zero_iff _ _

private theorem mod_beq_zero_iff (p x : UInt64) : (x % p == 0) = true ↔ p.toNat ∣ x.toNat := by
  rw [beq_iff_eq, ← UInt64.toNat_inj, UInt64.toNat_mod]
  exact Nat.dvd_iff_mod_eq_zero.symm

theorem inv_of_dvd {p x : UInt64} (h : p.toNat ∣ x.toNat) : inv p x = .error .inverseOfZero :=
  if_pos ((mod_beq_zero_iff p x).2 h)

theorem inv_of_not_dvd {p x : UInt64} (h : ¬p.toNat ∣ x.toNat) :
    inv p x = .ok (pow p (x % p) (p - 2)) :=
  if_neg (mt (mod_beq_zero_iff p x).1 h)

section

variable {p : UInt64} [hprime : Fact p.toNat.Prime] (hlt : p.toNat < 2 ^ 32)

include hlt

theorem inversePow_toNat (x : UInt64) :
    (pow p (x % p) (p - 2)).toNat = x.toNat ^ (p.toNat - 2) % p.toNat := by
  have hexp : (p - 2).toNat = p.toNat - 2 := UInt64.toNat_sub_of_le _ _ hprime.out.two_le
  rw [pow_toNat hprime.out.pos hlt hprime.out.one_lt, UInt64.toNat_mod, ← Nat.pow_mod, hexp]

theorem residue_inversePow {x : UInt64} (hx : residue p x ≠ 0) :
    residue p (pow p (x % p) (p - 2)) = (residue p x)⁻¹ := by
  have htwo := hprime.out.two_le
  have hpow : residue p (pow p (x % p) (p - 2)) = residue p x ^ (p.toNat - 2) := by
    rw [residue, inversePow_toNat hlt, ZMod.natCast_mod, Nat.cast_pow, residue]
  -- By Fermat, the power `p - 2` of a unit is its inverse.
  rw [hpow]
  apply eq_inv_of_mul_eq_one_right
  rw [← pow_succ', ← ZMod.pow_card_sub_one_eq_one hx]
  congr 1
  omega

theorem Modular.exact {σ : Type} {F : NumericField UInt64 σ} (h : Modular p F) :
    F.Exact (residue p) where
  zero := by
    rw [h.zero]
    exact Nat.cast_zero
  one := by
    rw [h.one]
    change (((1 % p : UInt64).toNat : ℕ) : ZMod p.toNat) = 1
    rw [UInt64.toNat_mod, ZMod.natCast_mod]
    exact Nat.cast_one
  neg x := by
    have hx := Nat.mod_lt x.toNat hprime.out.pos
    rw [h.neg]
    change (((neg p x).toNat : ℕ) : ZMod p.toNat) = -((x.toNat : ℕ) : ZMod p.toNat)
    rw [neg_toNat hprime.out.pos, ZMod.natCast_mod, Nat.cast_sub hx.le, ZMod.natCast_mod,
      ZMod.natCast_self, zero_sub]
  add x y := by
    rw [h.add]
    change (((add p x y).toNat : ℕ) : ZMod p.toNat) = _
    rw [add_toNat hprime.out.pos hlt, ZMod.natCast_mod, Nat.cast_add, residue, residue]
  mul x y := by
    rw [h.mul]
    change (((mul p x y).toNat : ℕ) : ZMod p.toNat) = _
    rw [mul_toNat hprime.out.pos hlt, ZMod.natCast_mod, Nat.cast_mul, residue, residue]
  inv hx := by
    rw [h.inv]
    exact ⟨_, inv_of_not_dvd (mt (residue_eq_zero_iff p _).2 hx), residue_inversePow hlt hx⟩
  inv_zero {x} hx := by
    rw [h.inv]
    exact ⟨.inverseOfZero, inv_of_dvd ((residue_eq_zero_iff p x).1 hx)⟩
  eqv h := congrArg (residue p) (beq_iff_eq.1 h)
  same x y := by
    rw [h.same]
    exact (same_iff x y).trans (residue_eq_iff p x y).symm
  negligible x m := by
    rw [h.negligible]
    refine (same_iff x 0).trans ((residue_eq_iff p x 0).symm.trans ?_)
    rw [residue, residue, UInt64.toNat_zero, Nat.cast_zero]

end

theorem residue_drawOther_ne {p : UInt64} (hp : 1 < p.toNat) (hlt : p.toNat < 2 ^ 32) {σ : Type}
    {below : UInt64 → Draw σ UInt64} (hbelow : DrawsBelow below) (x : UInt64) (t : σ) :
    residue p ((ofPrime below p).drawOther x t).1 ≠ residue p x := by
  have hpred : (p - 1).toNat = p.toNat - 1 := UInt64.toNat_sub_of_le _ _ hp.le
  have hdrawn := hbelow (p - 1) t (by omega)
  let shift := 1 + (below (p - 1) t).1
  have hshift : shift.toNat = 1 + (below (p - 1) t).1.toNat := by
    rw [UInt64.toNat_add, UInt64.toNat_one, Nat.mod_eq_of_lt (by omega)]
  have hx := Nat.mod_lt x.toNat (Nat.zero_lt_of_lt hp)
  have hdraw : residue p ((ofPrime below p).drawOther x t).1 = residue p x + residue p shift := by
    change residue p ((x % p + shift) % p) = _
    rw [residue, UInt64.toNat_mod, ZMod.natCast_mod, UInt64.toNat_add, UInt64.toNat_mod,
      Nat.mod_eq_of_lt (by omega), Nat.cast_add, ZMod.natCast_mod, residue, residue]
  -- The shift lies between one and `p - 1`, so that it is no multiple of the modulus.
  rw [hdraw, Ne, add_eq_left, residue_eq_zero_iff]
  exact Nat.not_dvd_of_pos_of_lt (by omega) (by omega)

/-- Over a prime field, evaluation of a scalar without live and sampling nodes is arithmetic modulo
the prime. It succeeds exactly if the scalar denotes a residue, and then with a word of that
residue. A multiple of the modulus other than zero is no divisor although the exact test lets it
pass. -/
theorem value_denotes {p : UInt64} [Fact p.toNat.Prime] (hlt : p.toNat < 2 ^ 32) {σ : Type}
    {F : NumericField UInt64 σ} (hF : Modular p F) (w : World UInt64 σ) :
    let I := F.interpretation
    (∀ (s : Scalar UInt64) (ρ : SourceId → Option (ZMod p.toNat × ZMod p.toNat)),
      s.isDeterministic = true → s.sources = [] →
        (∃ v, I.value s w = (.ok v, w) ∧ s.denote (residue p) ρ = some (residue p v)) ∨
          ∃ e, I.value s w = (.error e, w) ∧ s.denote (residue p) ρ = none) ∧
      ∀ m : UInt64, m ≠ 0 → p.toNat ∣ m.toNat → ∀ o o' : Origin,
        (∀ e, Scalar.nonzero I.field m e = .ok m) ∧
          I.value (.inverse o (.leaf o' m)) w = (.error .inverseOfZero, w) ∧
            ∀ x v u, I.value x w = (.ok v, u) →
              I.value (.division o x (.leaf o' m)) w = (.error .inverseOfZero, u) := by
  intro I
  constructor
  · intro s ρ hs hl
    have h := (hF.exact hlt).stands_denote (I := I) (V := fun _ => True) hF.product hs (ρ := ρ)
      (by simp [hl])
    cases hd : s.denote (residue p) ρ with
    | none =>
      obtain ⟨e, he⟩ := (hd ▸ h).apply_none (w := w) trivial
      exact .inr ⟨e, he, rfl⟩
    | some k =>
      obtain ⟨v, hv, rfl⟩ := (hd ▸ h).apply_some (w := w) trivial
      exact .inl ⟨v, hv, rfl⟩
  · intro m hm hdvd o o'
    have htest (e : Error) : Scalar.nonzero I.field m e = .ok m := by
      have hzero : I.field.zero = 0 := hF.zero
      rw [Scalar.nonzero, hzero]
      exact if_neg (by simpa [Element.eqv])
    have hinv : I.field.inv m = .error .inverseOfZero := by
      have hfield : I.field.inv = inv p := hF.inv
      rw [hfield, inv_of_dvd hdvd]
    refine ⟨htest, ?_, fun x v u hx => ?_⟩
    · refine (Scalar.value_inverse_apply o (w := w) (u := w) rfl).trans ?_
      rw [htest]
      exact congrArg (·, w) hinv
    · refine (Scalar.value_division_apply o hx (t := u) rfl).trans ?_
      rw [htest]
      change (I.field.mul v <$> I.field.inv m, u) = _
      rw [hinv]
      rfl

end Residues

namespace Specimen

open Residues

instance prime_seven : Fact (7 : UInt64).toNat.Prime := ⟨by change Nat.Prime 7; decide⟩

abbrev moduloSeven : NumericField UInt64 Unit := ofPrime zeros 7

theorem modular_moduloSeven : Modular 7 moduloSeven := modular_ofPrime zeros 7

/-- `(15 + 3) / y` with leaves that are not reduced. -/
def quotient (y : UInt64) : Scalar UInt64 :=
  .division ⟨3, []⟩ (.plus ⟨2, []⟩ (.leaf ⟨1, [0]⟩ 15) (.leaf ⟨1, [1]⟩ 3)) (.leaf ⟨1, [2]⟩ y)

def emptyWorld : World UInt64 Unit := ⟨(), #[]⟩

/-- Modulo seven this is four by two, and nothing for a divisor of fourteen. -/
theorem value_denotes_quotient :
    (∃ v, moduloSeven.interpretation.value (quotient 9) emptyWorld = (.ok v, emptyWorld) ∧
        residue 7 v = 2) ∧
      Scalar.nonzero moduloSeven 14 .divisionByIdentity = .ok 14 ∧
        ∃ e, moduloSeven.interpretation.value (quotient 14) emptyWorld =
          (.error e, emptyWorld) := by
  obtain ⟨hvalue, hmultiple⟩ := value_denotes (p := 7) (by decide) modular_moduloSeven emptyWorld
  refine ⟨?_, (hmultiple 14 (by decide) (by decide) ⟨0, []⟩ ⟨0, []⟩).1 _, ?_⟩
  · have hd : (quotient 9).denote (residue 7) (fun _ => none) = some 2 := by decide +kernel
    rcases hvalue (quotient 9) (fun _ => none) rfl rfl with ⟨v, hv, h⟩ | ⟨e, -, h⟩
    · exact ⟨v, hv, Option.some.inj (h.symm.trans hd)⟩
    · cases h.symm.trans hd
  · have hd : (quotient 14).denote (residue 7) (fun _ => none) = none := by decide +kernel
    rcases hvalue (quotient 14) (fun _ => none) rfl rfl with ⟨v, -, h⟩ | ⟨e, he, -⟩
    · cases h.symm.trans hd
    · exact ⟨e, he⟩

end Specimen
end PlaneGeometry
