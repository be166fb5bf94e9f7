import PlaneGeometry.Field.Residues
import PlaneGeometry.Proofs.ShapeChecks
import Mathlib.Data.Nat.Prime.Basic

/-!
# Moduli are primes

A modulus is tried by the odd numbers from three on, as long as their squares do not exceed it.
Below `2^32` the trial comes to an end before a square wraps, and what passes is prime.
-/
namespace PlaneGeometry.Residues

/-- A run of the trial from the candidate `d`, with the candidates that were divided by and the
answer. Neither the squares nor the candidates wrap. -/
inductive Tries (n : UInt64) : UInt64 → List UInt64 → Bool → Prop where
  | past {d : UInt64} : d.toNat * d.toNat < 2 ^ 64 → n < d * d → Tries n d [] true
  | divisor {d : UInt64} : d.toNat * d.toNat < 2 ^ 64 → d * d ≤ n → n % d = 0 →
    Tries n d [d] false
  | next {d : UInt64} {tried : List UInt64} {b : Bool} : d.toNat * d.toNat < 2 ^ 64 →
    d * d ≤ n → n % d ≠ 0 → d.toNat + 2 < 2 ^ 64 → Tries n (d + 2) tried b →
      Tries n d (d :: tried) b

variable {n d : UInt64} {tried : List UInt64} {b : Bool}

private theorem toNat_square (h : d.toNat * d.toNat < 2 ^ 64) :
    (d * d).toNat = d.toNat * d.toNat := by
  rw [UInt64.toNat_mul, Nat.mod_eq_of_lt h]

private theorem toNat_next (h : d.toNat + 2 < 2 ^ 64) : (d + 2).toNat = d.toNat + 2 := by
  rw [UInt64.toNat_add]
  exact Nat.mod_eq_of_lt h

private theorem mod_eq_zero_iff : n % d = 0 ↔ d.toNat ∣ n.toNat := by
  rw [← UInt64.toNat_inj, UInt64.toNat_mod, Nat.dvd_iff_mod_eq_zero]
  rfl

namespace Tries

private theorem oddDivisorFree_eq (h : Tries n d tried b) {fuel : Nat}
    (hfuel : tried.length ≤ fuel) :
    oddDivisorFree n fuel d = b := by
  induction h generalizing fuel with
  | past _ hlt =>
    cases fuel with
    | zero => rfl
    | succ fuel => rw [oddDivisorFree, if_neg (UInt64.not_le.2 hlt)]
  | divisor _ hle hmod =>
    obtain ⟨fuel, rfl⟩ := Nat.exists_eq_add_of_le' hfuel
    rw [List.length_singleton, oddDivisorFree, if_pos hle, if_pos (beq_iff_eq.2 hmod)]
  | next _ hle hmod _ _ ih =>
    obtain ⟨fuel, rfl⟩ := Nat.exists_eq_add_of_le' hfuel
    rw [List.length_cons, ← Nat.add_assoc, oddDivisorFree, if_pos hle,
      if_neg (mt beq_iff_eq.1 hmod)]
    exact ih (Nat.le_add_left _ _)

/-- The candidates follow each other by two, and none is tried whose square exceeds `n`. -/
theorem candidates (h : Tries n d tried b) :
    tried.map UInt64.toNat = (List.range tried.length).map (d.toNat + 2 * ·) ∧
      ∀ x ∈ tried, x.toNat * x.toNat ≤ n.toNat := by
  induction h with
  | past => exact ⟨rfl, List.forall_mem_nil _⟩
  | divisor hsquare hle =>
    rw [UInt64.le_iff_toNat_le, toNat_square hsquare] at hle
    exact ⟨rfl, List.forall_mem_singleton.2 hle⟩
  | @next d _ _ hsquare hle _ hnext _ ih =>
    rw [UInt64.le_iff_toNat_le, toNat_square hsquare] at hle
    rw [toNat_next hnext] at ih
    refine ⟨?_, List.forall_mem_cons.2 ⟨hle, ih.2⟩⟩
    rw [List.map_cons, ih.1, List.length_cons, List.range_succ_eq_map, List.map_cons, List.map_map]
    refine congrArg _ (List.map_congr_left fun i _ => ?_)
    change d.toNat + 2 + 2 * i = d.toNat + 2 * (i + 1)
    omega

/-- If no number below the candidate divides the odd `n`, the answer is whether `n` is prime. -/
theorem prime_iff (h : Tries n d tried b) (hn : n.toNat % 2 = 1) (hn1 : n.toNat ≠ 1)
    (hd : d.toNat % 2 = 1) (hd1 : d.toNat ≠ 1)
    (hbelow : ∀ m, 2 ≤ m → m < d.toNat → ¬m ∣ n.toNat) : b = true ↔ n.toNat.Prime := by
  induction h with
  | @past d hsquare hlt =>
    rw [UInt64.lt_iff_toNat_lt, toNat_square hsquare] at hlt
    refine iff_of_true rfl (by_contra fun hcomposite => ?_)
    have hleast := Nat.minFac_sq_le_self (by omega) hcomposite
    rw [sq] at hleast
    have hbound : n.toNat.minFac < d.toNat := Nat.mul_self_lt_mul_self_iff.1 (hleast.trans_lt hlt)
    exact hbelow _ (Nat.minFac_prime hn1).two_le hbound (Nat.minFac_dvd _)
  | @divisor d hsquare hle hmod =>
    rw [UInt64.le_iff_toNat_le, toNat_square hsquare] at hle
    have hlt : d.toNat < n.toNat := (Nat.lt_mul_self_iff.2 (by omega)).trans_le hle
    exact iff_of_false Bool.false_ne_true
      (Nat.not_prime_of_dvd_of_lt (mod_eq_zero_iff.1 hmod) (by omega) hlt)
  | @next d _ _ _ _ hmod hnext _ ih =>
    rw [toNat_next hnext] at ih
    refine ih (by omega) (by omega) fun m hm hlt hdvd => ?_
    obtain hlt | rfl | rfl : m < d.toNat ∨ m = d.toNat ∨ m = d.toNat + 1 := by omega
    · exact hbelow m hm hlt hdvd
    · exact hmod (mod_eq_zero_iff.2 hdvd)
    · -- The number between two candidates is even.
      have heven : 2 ∣ n.toNat := .trans (by omega) hdvd
      omega

end Tries

/-- Below `2^32` each candidate brings the run nearer to its end. -/
theorem exists_tries (hn : n.toNat < 2 ^ 32) (k : Nat) (hd : d.toNat ≤ 2 ^ 16 + 1)
    (hk : 2 ^ 16 ≤ d.toNat + 2 * k) : ∃ tried b, Tries n d tried b ∧ tried.length ≤ k := by
  have hsquare (d : UInt64) (hd : d.toNat ≤ 2 ^ 16 + 1) : d.toNat * d.toNat < 2 ^ 64 :=
    (Nat.mul_le_mul hd hd).trans_lt (by decide)
  induction k generalizing d with
  | zero =>
    have hlarge : 2 ^ 16 * 2 ^ 16 ≤ d.toNat * d.toNat := Nat.mul_le_mul hk hk
    have hlt : n < d * d := by
      rw [UInt64.lt_iff_toNat_lt, toNat_square (hsquare d hd)]
      exact hn.trans_le hlarge
    exact ⟨[], true, .past (hsquare d hd) hlt, le_rfl⟩
  | succ k ih =>
    by_cases hlt : n < d * d
    · exact ⟨[], true, .past (hsquare d hd) hlt, Nat.zero_le _⟩
    have hle := UInt64.not_lt.1 hlt
    by_cases hmod : n % d = 0
    · exact ⟨[d], false, .divisor (hsquare d hd) hle hmod, Nat.succ_le_succ (Nat.zero_le k)⟩
    have hnat : d.toNat * d.toNat ≤ n.toNat := by
      rwa [UInt64.le_iff_toNat_le, toNat_square (hsquare d hd)] at hle
    have hsmall : d.toNat < 2 ^ 16 :=
      Nat.mul_self_lt_mul_self_iff.1 (hnat.trans_lt (hn.trans_eq (by decide)))
    have hnext : d.toNat + 2 < 2 ^ 64 := by omega
    have htwo := toNat_next hnext
    obtain ⟨tried, b, htries, hlength⟩ := ih (d := d + 2) (by omega) (by omega)
    exact ⟨d :: tried, b, .next (hsquare d hd) hle hmod hnext htries, Nat.succ_le_succ hlength⟩

/-- Below `2^32` the odd numbers from three on are tried until one divides or its square is larger,
and there is fuel for all of them. -/
theorem exists_trial (hn : n.toNat < 2 ^ 32) :
    ∃ tried b, Tries n 3 tried b ∧ oddDivisorFree n 32768 3 = b := by
  obtain ⟨tried, b, htries, hlength⟩ := exists_tries hn (d := 3) 32768 (by decide) (by decide)
  exact ⟨tried, b, htries, htries.oddDivisorFree_eq hlength⟩

private theorem isPrime_iff (hn : n.toNat < 2 ^ 32) : isPrime n = true ↔ n.toNat.Prime := by
  have htwo : n < 2 ↔ n.toNat < 2 := UInt64.lt_iff_toNat_lt
  have heven : (n % 2 == 0) = true ↔ 2 ∣ n.toNat := beq_iff_eq.trans (mod_eq_zero_iff (d := 2))
  rw [isPrime]
  split
  case isTrue h =>
    exact iff_of_false Bool.false_ne_true fun hprime => hprime.two_le.not_gt (htwo.1 h)
  case isFalse hlarge =>
    rw [htwo] at hlarge
    split
    case isTrue h =>
      rw [beq_iff_eq, ← UInt64.toNat_inj]
      refine ⟨fun hn2 => hn2 ▸ Nat.prime_two, fun hprime => ?_⟩
      exact ((Nat.prime_dvd_prime_iff_eq Nat.prime_two hprime).1 (heven.1 h)).symm
    case isFalse h =>
      rw [heven] at h
      obtain ⟨tried, b, htries, hb⟩ := exists_trial hn
      rw [hb]
      refine htries.prime_iff (by omega) (by omega) rfl (by decide) fun m hm hlt => ?_
      obtain rfl : m = 2 := Nat.le_antisymm (Nat.le_of_lt_succ hlt) hm
      exact h

/-- Of the words that are offered as moduli, primes below `2^32` are accepted and all others are
refused. The range is checked first, and within it the trial ends without a word that wraps. -/
structure ModulusChecked {σ : Type} (below : UInt64 → Draw σ UInt64) (p : UInt64) : Prop where
  ok_iff : (∃ F, field below p = .ok F) ↔ p.toNat.Prime ∧ p.toNat < 2 ^ 32
  refused : ¬(p.toNat.Prime ∧ p.toNat < 2 ^ 32) → Refused (field below p)
  accepted : p.toNat.Prime → p.toNat < 2 ^ 32 → field below p = .ok (ofPrime below p)
  range : 2 ^ 32 ≤ p.toNat → field below p = .error (.modulusRange p.toNat)
  composite : p.toNat < 2 ^ 32 → ¬p.toNat.Prime → field below p = .error (.modulusComposite p.toNat)
  trial : p.toNat < 2 ^ 32 → ∃ tried b, Tries p 3 tried b ∧
    tried.map UInt64.toNat = (List.range tried.length).map (3 + 2 * ·) ∧
      (∀ d ∈ tried, d.toNat * d.toNat ≤ p.toNat) ∧
        isPrime p = if p < 2 then false else if p % 2 == 0 then p == 2 else b

section

variable {σ : Type} {below : UInt64 → Draw σ UInt64} {p : UInt64}

private theorem field_of_ge (h : 2 ^ 32 ≤ p.toNat) :
    field below p = .error (.modulusRange p.toNat) := by
  have hrange : p ≥ 0x100000000 := UInt64.le_iff_toNat_le.2 h
  rw [field, if_pos hrange]

private theorem field_of_lt (h : p.toNat < 2 ^ 32) :
    field below p =
      if p.toNat.Prime then .ok (ofPrime below p) else .error (.modulusComposite p.toNat) := by
  have hrange : ¬p ≥ 0x100000000 := mt UInt64.le_iff_toNat_le.1 (Nat.not_le.2 h)
  rw [field, if_neg hrange]
  exact if_congr (isPrime_iff h) rfl rfl

private theorem field_of_prime (hprime : p.toNat.Prime) (h : p.toNat < 2 ^ 32) :
    field below p = .ok (ofPrime below p) :=
  (field_of_lt h).trans (if_pos hprime)

private theorem field_of_composite (h : p.toNat < 2 ^ 32) (hnot : ¬p.toNat.Prime) :
    field below p = .error (.modulusComposite p.toNat) :=
  (field_of_lt h).trans (if_neg hnot)

private theorem refused_field (hnot : ¬(p.toNat.Prime ∧ p.toNat < 2 ^ 32)) :
    Refused (field below p) := by
  by_cases h : p.toNat < 2 ^ 32
  · exact ⟨_, field_of_composite h fun hprime => hnot ⟨hprime, h⟩⟩
  · exact ⟨_, field_of_ge (Nat.not_lt.1 h)⟩

end

/-- A modulus is accepted if and only if it is a prime below `2^32`, whatever the draws are. -/
theorem modulus_checked {σ : Type} (below : UInt64 → Draw σ UInt64) (p : UInt64) :
    ModulusChecked below p where
  ok_iff := by
    constructor
    · rintro ⟨F, hF⟩
      by_contra hnot
      obtain ⟨reason, hreason⟩ := refused_field hnot
      rw [hF] at hreason
      cases hreason
    · rintro ⟨hprime, h⟩
      exact ⟨ofPrime below p, field_of_prime hprime h⟩
  refused := refused_field
  accepted := field_of_prime
  range := field_of_ge
  composite := field_of_composite
  trial h := by
    obtain ⟨tried, b, htries, hb⟩ := exists_trial h
    obtain ⟨hodd, hsquares⟩ := htries.candidates
    refine ⟨tried, b, htries, hodd, hsquares, ?_⟩
    rw [isPrime, hb]

end PlaneGeometry.Residues
