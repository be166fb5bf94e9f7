import PlaneGeometry.Proofs.Residues

/-!
# Canonical residues

The operations of a prime field take words of any size, and what they give is the least word of its
residue. On the way no sum, difference or product wraps: where the operations give up instead of
wrapping, they give the same.
-/
namespace PlaneGeometry.Residues

/-- The least word that stands for the residue. -/
structure Canonical (p x : UInt64) (k : ZMod p.toNat) : Prop where
  lt : x < p
  residue : residue p x = k

def sum? (x y : UInt64) : Option UInt64 :=
  if x.toNat + y.toNat < 2 ^ 64 then some (x + y) else none

def difference? (x y : UInt64) : Option UInt64 :=
  if y.toNat ≤ x.toNat then some (x - y) else none

def product? (x y : UInt64) : Option UInt64 :=
  if x.toNat * y.toNat < 2 ^ 64 then some (x * y) else none

namespace Checked

def add (p x y : UInt64) : Option UInt64 := do return (← sum? (x % p) (y % p)) % p
def neg (p x : UInt64) : Option UInt64 := do return (← difference? p (x % p)) % p
def mul (p x y : UInt64) : Option UInt64 := do return (← product? (x % p) (y % p)) % p

def powLoop (p : UInt64) : Nat → UInt64 → UInt64 → UInt64 → Option UInt64
  | 0, _, _, acc => some acc
  | bits + 1, base, exp, acc =>
    if exp == 0 then some acc
    else do
      let acc ← if exp &&& 1 == 1 then product? acc base >>= fun x => some (x % p) else some acc
      let square ← product? base base
      powLoop p bits (square % p) (exp >>> 1) acc

def pow (p base exp : UInt64) : Option UInt64 := powLoop p 64 (base % p) exp 1

def inv (p x : UInt64) : Option (Except Error UInt64) :=
  if x % p == 0 then some (.error .inverseOfZero)
  else do
    let exp ← difference? p 2
    return .ok (← pow p (x % p) exp)

end Checked

/-- No operation gives up for want of a larger word. -/
structure Fits {σ : Type} (p : UInt64) (F : NumericField UInt64 σ) : Prop where
  add (x y : UInt64) : Checked.add p x y = some (F.add x y)
  neg (x : UInt64) : Checked.neg p x = some (F.neg x)
  mul (x y : UInt64) : Checked.mul p x y = some (F.mul x y)
  pow (base exp : UInt64) : Checked.pow p base exp = some (pow p base exp)
  inv (x : UInt64) : Checked.inv p x = some (F.inv x)

section

variable {p : UInt64} (hp : 0 < p.toNat) (hlt : p.toNat < 2 ^ 32)

include hp hlt

omit hp in
theorem product?_eq_some {x y : UInt64} (hx : x.toNat < p.toNat) (hy : y.toNat < p.toNat) :
    product? x y = some (x * y) :=
  if_pos (Nat.mul_lt_mul'' (c := 2 ^ 32) (d := 2 ^ 32) (hx.trans hlt) (hy.trans hlt))

theorem checked_powLoop (bits : Nat) {base exp acc : UInt64} (hb : base.toNat < p.toNat)
    (ha : acc.toNat < p.toNat) :
    Checked.powLoop p bits base exp acc = some (powLoop p bits base exp acc) := by
  -- Base and accumulator stay reduced, so that the products of each step fit.
  induction bits generalizing base exp acc with
  | zero => rfl
  | succ bits ih =>
    rw [Checked.powLoop, powLoop]
    split
    · rfl
    · have hacc : (if exp &&& 1 == 1 then acc * base % p else acc).toNat < p.toNat := by
        split
        · exact mod_toNat_lt hp _
        · exact ha
      rw [product?_eq_some hlt ha hb, product?_eq_some hlt hb hb, ← ih (mod_toNat_lt hp _) hacc]
      split <;> rfl

private theorem checked_pow (h1 : 1 < p.toNat) (base exp : UInt64) :
    Checked.pow p base exp = some (pow p base exp) :=
  checked_powLoop hp hlt 64 (mod_toNat_lt hp base) h1

theorem fits (h1 : 1 < p.toNat) {σ : Type} {F : NumericField UInt64 σ} (hF : Modular p F) :
    Fits p F where
  add x y := by
    have hx := mod_toNat_lt hp x
    have hy := mod_toNat_lt hp y
    rw [Checked.add, sum?, if_pos (by omega), hF.add]
    rfl
  neg x := by
    rw [Checked.neg, difference?, if_pos (mod_toNat_lt hp x).le, hF.neg]
    rfl
  mul x y := by
    rw [Checked.mul, product?_eq_some hlt (mod_toNat_lt hp x) (mod_toNat_lt hp y), hF.mul]
    rfl
  pow := checked_pow hp hlt h1
  inv x := by
    have htwo : (2 : UInt64).toNat ≤ p.toNat := h1
    have hinv : F.inv = inv p := hF.inv
    rw [hinv, Checked.inv, inv]
    split
    · rfl
    · rw [difference?, if_pos htwo]
      change (Checked.pow p (x % p) (p - 2)).bind _ = _
      rw [checked_pow hp hlt h1]
      rfl

end

/-- Arithmetic on words is that of the residues, and its results are canonical. The inverse of a
word is a power of it, found by squaring and multiplying. -/
structure CanonicalArithmetic {σ : Type} (p : UInt64) (F : NumericField UInt64 σ) : Prop where
  zero : Canonical p F.zero 0
  one : Canonical p F.one 1
  neg (x : UInt64) : Canonical p (F.neg x) (-residue p x)
  add (x y : UInt64) : Canonical p (F.add x y) (residue p x + residue p y)
  mul (x y : UInt64) : Canonical p (F.mul x y) (residue p x * residue p y)
  pow (base exp : UInt64) : Canonical p (pow p base exp) (residue p base ^ exp.toNat)
  inv {x : UInt64} : ¬p.toNat ∣ x.toNat → ∃ y, F.inv x = .ok y ∧
    Canonical p y (residue p x)⁻¹ ∧ x.toNat * y.toNat ≡ 1 [MOD p.toNat] ∧
      y.toNat = x.toNat ^ (p.toNat - 2) % p.toNat
  inv_zero {x : UInt64} : p.toNat ∣ x.toNat → F.inv x = .error .inverseOfZero
  same (x y : UInt64) : F.same x y = true ↔ x.toNat ≡ y.toNat [MOD p.toNat]

private theorem lt_of_toNat_eq_mod {p x : UInt64} (hp : 0 < p.toNat) {n : Nat}
    (h : x.toNat = n % p.toNat) : x < p := by
  rw [UInt64.lt_iff_toNat_lt, h]
  exact Nat.mod_lt n hp

private theorem mul_modEq_one {p : UInt64} [Fact p.toNat.Prime] {x y : UInt64}
    (hx : ¬p.toNat ∣ x.toNat) (hy : residue p y = (residue p x)⁻¹) :
    x.toNat * y.toNat ≡ 1 [MOD p.toNat] := by
  rw [← ZMod.natCast_eq_natCast_iff, Nat.cast_mul, Nat.cast_one]
  change residue p x * residue p y = 1
  rw [hy]
  exact mul_inv_cancel₀ (mt (residue_eq_zero_iff p x).1 hx)

section

variable {p : UInt64} [hprime : Fact p.toNat.Prime] (hlt : p.toNat < 2 ^ 32)

include hlt

theorem Modular.canonical_add {σ : Type} {F : NumericField UInt64 σ} (hF : Modular p F)
    (x y : UInt64) : Canonical p (F.add x y) (residue p x + residue p y) := by
  have hadd : F.add x y = add p x y := congrFun₂ hF.add x y
  refine ⟨?_, (hF.exact hlt).add x y⟩
  rw [hadd]
  exact lt_of_toNat_eq_mod hprime.out.pos (add_toNat hprime.out.pos hlt x y)

private theorem canonical_pow (base exp : UInt64) :
    Canonical p (pow p base exp) (residue p base ^ exp.toNat) := by
  have hpow := pow_toNat hprime.out.pos hlt hprime.out.one_lt base exp
  refine ⟨lt_of_toNat_eq_mod hprime.out.pos hpow, ?_⟩
  rw [residue, hpow, ZMod.natCast_mod, Nat.cast_pow, residue]

private theorem inv_eq_pow {x : UInt64} (hx : ¬p.toNat ∣ x.toNat) :
    ∃ y, inv p x = .ok y ∧ Canonical p y (residue p x)⁻¹ ∧
      y.toNat = x.toNat ^ (p.toNat - 2) % p.toNat := by
  have hpow := inversePow_toNat hlt x
  have hres := residue_inversePow hlt (mt (residue_eq_zero_iff p x).1 hx)
  exact ⟨_, inv_of_not_dvd hx, ⟨lt_of_toNat_eq_mod hprime.out.pos hpow, hres⟩, hpow⟩

/-- Over a prime below `2^32`, arithmetic on words of any size is that of the residues, with
canonical results and without overflow. -/
theorem arithmetic_canonical {σ : Type} {F : NumericField UInt64 σ} (hF : Modular p F) :
    CanonicalArithmetic p F ∧ Fits p F := by
  have hpos := hprime.out.pos
  have hexact := hF.exact hlt
  refine ⟨?_, fits hpos hlt hprime.out.one_lt hF⟩
  constructor
  case zero =>
    refine ⟨?_, hexact.zero⟩
    rw [hF.zero]
    exact hpos
  case one =>
    have hone : F.one = 1 % p := hF.one
    refine ⟨?_, hexact.one⟩
    rw [hone]
    exact lt_of_toNat_eq_mod hpos (UInt64.toNat_mod 1 p)
  case neg =>
    intro x
    have hneg : F.neg x = neg p x := congrFun hF.neg x
    refine ⟨?_, hexact.neg x⟩
    rw [hneg]
    exact lt_of_toNat_eq_mod hpos (neg_toNat hpos x)
  case add => exact hF.canonical_add hlt
  case mul =>
    intro x y
    have hmul : F.mul x y = mul p x y := congrFun₂ hF.mul x y
    refine ⟨?_, hexact.mul x y⟩
    rw [hmul]
    exact lt_of_toNat_eq_mod hpos (mul_toNat hpos hlt x y)
  case pow => exact canonical_pow hlt
  case inv =>
    intro x hx
    obtain ⟨y, hinv, hy, hpow⟩ := inv_eq_pow hlt hx
    rw [hF.inv]
    exact ⟨y, hinv, hy, mul_modEq_one hx hy.residue, hpow⟩
  case inv_zero =>
    intro x hx
    rw [hF.inv]
    exact inv_of_dvd hx
  case same =>
    intro x y
    rw [hF.same]
    exact same_iff x y

end
end Residues

namespace Specimen

open Residues

instance prime_two : Fact (2 : UInt64).toNat.Prime := ⟨by change Nat.Prime 2; decide⟩

def largestWord : UInt64 := 0xFFFFFFFFFFFFFFFF

/-- Modulo two the inverse is a power with exponent zero. The square of the largest word would be no
word, but its residue is. -/
theorem arithmetic_canonical_largestWord :
    Checked.inv 2 largestWord = some (.ok 1) ∧ product? largestWord largestWord = none ∧
      Checked.mul 2 largestWord largestWord = some 1 ∧
        Canonical 2 ((ofPrime zeros 2).mul largestWord largestWord) 1 := by
  obtain ⟨hcanonical, hfits⟩ := arithmetic_canonical (p := 2) (by decide) (modular_ofPrime zeros 2)
  have hone : residue 2 largestWord * residue 2 largestWord = 1 := by decide +kernel
  exact ⟨hfits.inv largestWord, rfl, hfits.mul largestWord largestWord,
    hone ▸ hcanonical.mul largestWord largestWord⟩

end Specimen
end PlaneGeometry
