import Mathlib.FieldTheory.Finite.Basic
import Mathlib.NumberTheory.LucasPrimality
import Sidecar.PublicKey

/-!
# Sidecar.Proofs.Rsa

The arithmetic of RSA: fast powers are powers, and taking powers modulo a
product of two primes can be undone.

* `powMod_eq` — repeated squaring gives the remainder of the power;
* `pow_modEq_self` — an exponent that is one modulo `lcm (p - 1) (q - 1)` gives
  every number back, also one that shares a factor with the modulus;
* `eq_of_pow_mod_eq` — an exponent coprime to `(p - 1) * (q - 1)` loses nothing;
* `prime_of_powMod` — three powers show that `k * 2 ^ m + 1` is a prime.
-/

namespace Sidecar.PublicKey

/-! ## Fast powers -/

/-- Repeated squaring gives the remainder of the power, by any modulus. -/
theorem powMod_eq (base exponent modulus : Nat) :
    powMod base exponent modulus = base ^ exponent % modulus := by
  induction exponent using Nat.strongRecOn generalizing base with
  | ind exponent ih =>
      by_cases hzero : exponent = 0
      · rw [powMod, if_pos hzero, hzero, Nat.pow_zero]
      · have hhalf : powMod (base * base % modulus) (exponent / 2) modulus =
            base ^ (2 * (exponent / 2)) % modulus := by
          rw [ih _ (by omega), ← Nat.pow_mod, Nat.pow_mul, Nat.pow_two]
        rw [powMod, if_neg hzero]
        simp only [hhalf]
        by_cases hodd : exponent % 2 = 1
        · have hexponent : 2 * (exponent / 2) + 1 = exponent := by omega
          rw [if_pos hodd, Nat.mul_mod_mod, ← Nat.pow_add_one', hexponent]
        · have hexponent : 2 * (exponent / 2) = exponent := by omega
          rw [if_neg hodd, hexponent]

/-! ## Powers modulo two primes -/

/-- An exponent that is one modulo `p - 1` gives every number back modulo `p`. -/
theorem pow_modEq_self_of_prime {p k : ℕ} (hp : p.Prime) (hk : 0 < k) (h : k ≡ 1 [MOD p - 1])
    (x : ℕ) : x ^ k ≡ x [MOD p] := by
  have := Fact.mk hp
  obtain ⟨t, ht⟩ := (Nat.modEq_iff_dvd' hk).mp h.symm
  have hk' : k = (p - 1) * t + 1 := by omega
  rw [← ZMod.natCast_eq_natCast_iff, Nat.cast_pow, hk']
  by_cases hx : (x : ZMod p) = 0
  · rw [hx, zero_pow (Nat.succ_ne_zero _)]
  · rw [pow_succ, pow_mul, ZMod.pow_card_sub_one_eq_one hx, one_pow, one_mul]

section TwoPrimes

variable {p q : ℕ}

/-- Two primes that differ are not both two. -/
theorem one_lt_lcm (hp : p.Prime) (hq : q.Prime) (hpq : p ≠ q) : 1 < Nat.lcm (p - 1) (q - 1) := by
  have hp2 := hp.two_le
  have hq2 := hq.two_le
  have hpos : 0 < Nat.lcm (p - 1) (q - 1) := Nat.lcm_pos (by omega) (by omega)
  have hple := Nat.le_of_dvd hpos (Nat.dvd_lcm_left (p - 1) (q - 1))
  have hqle := Nat.le_of_dvd hpos (Nat.dvd_lcm_right (p - 1) (q - 1))
  omega

/-- An exponent that is one modulo `lcm (p - 1) (q - 1)` gives every number back
modulo `p * q`. -/
theorem pow_modEq_self (hp : p.Prime) (hq : q.Prime) (hpq : p ≠ q) {k : ℕ}
    (hk : k ≡ 1 [MOD Nat.lcm (p - 1) (q - 1)]) (x : ℕ) : x ^ k ≡ x [MOD p * q] := by
  have hpos : 0 < k := by
    apply Nat.pos_of_ne_zero
    rintro rfl
    rw [Nat.ModEq, Nat.zero_mod, Nat.mod_eq_of_lt (one_lt_lcm hp hq hpq)] at hk
    exact absurd hk (by decide)
  have hcoprime : p.Coprime q := (Nat.coprime_primes hp hq).mpr hpq
  rw [← Nat.modEq_and_modEq_iff_modEq_mul hcoprime]
  constructor
  · exact pow_modEq_self_of_prime hp hpos (hk.of_dvd (Nat.dvd_lcm_left _ _)) x
  · exact pow_modEq_self_of_prime hq hpos (hk.of_dvd (Nat.dvd_lcm_right _ _)) x

/-- A power and a power of it whose exponents multiply to one modulo
`lcm (p - 1) (q - 1)` give a residue back. -/
theorem pow_mod_pow_mod (hp : p.Prime) (hq : q.Prime) (hpq : p ≠ q) {e d x : ℕ}
    (hed : e * d ≡ 1 [MOD Nat.lcm (p - 1) (q - 1)]) (hx : x < p * q) :
    (x ^ d % (p * q)) ^ e % (p * q) = x := by
  have hself : x ^ (e * d) % (p * q) = x % (p * q) := pow_modEq_self hp hq hpq hed x
  rw [← Nat.pow_mod, ← Nat.pow_mul, Nat.mul_comm d e, hself, Nat.mod_eq_of_lt hx]

/-- Residues with the same power are the same, if the exponent has an inverse. -/
theorem eq_of_pow_mod_eq (hp : p.Prime) (hq : q.Prime) (hpq : p ≠ q) {e x y : ℕ}
    (he : e.Coprime ((p - 1) * (q - 1))) (hx : x < p * q) (hy : y < p * q)
    (h : x ^ e % (p * q) = y ^ e % (p * q)) : x = y := by
  have hdvd : Nat.lcm (p - 1) (q - 1) ∣ (p - 1) * (q - 1) := Nat.lcm_dvd_mul _ _
  have he' : e.Coprime (Nat.lcm (p - 1) (q - 1)) := he.coprime_dvd_right hdvd
  have hlcm := one_lt_lcm hp hq hpq
  obtain ⟨d, -, hd⟩ := Nat.exists_mul_mod_eq_one_of_coprime he' hlcm
  have hed : d * e ≡ 1 [MOD Nat.lcm (p - 1) (q - 1)] := by
    rw [Nat.ModEq, Nat.mul_comm, hd, Nat.mod_eq_of_lt hlcm]
  rw [← pow_mod_pow_mod hp hq hpq hed hx, h, pow_mod_pow_mod hp hq hpq hed hy]

end TwoPrimes

/-! ## Primes -/

/-- A power that is one, in the ring of residues. -/
theorem powMod_eq_one_iff {a k n : ℕ} (hn : 1 < n) :
    powMod a k n = 1 ↔ (a : ZMod n) ^ k = 1 := by
  have h := ZMod.natCast_eq_natCast_iff' (a ^ k) 1 n
  rw [Nat.cast_pow, Nat.cast_one, Nat.mod_eq_of_lt hn] at h
  rw [powMod_eq, h]

/-- A number `k * 2 ^ m + 1` is a prime if the order of some residue is `k * 2 ^ m`. -/
theorem prime_of_powMod {k m : ℕ} (a : ℕ) (hk : k.Prime)
    (hone : powMod a (k * 2 ^ m) (k * 2 ^ m + 1) = 1)
    (hhalf : powMod a (k * 2 ^ m / 2) (k * 2 ^ m + 1) ≠ 1)
    (hpart : powMod a (k * 2 ^ m / k) (k * 2 ^ m + 1) ≠ 1) : (k * 2 ^ m + 1).Prime := by
  have hpos : 0 < k * 2 ^ m := Nat.mul_pos hk.pos (Nat.two_pow_pos m)
  have hlt : 1 < k * 2 ^ m + 1 := by omega
  apply lucas_primality _ (a : ZMod (k * 2 ^ m + 1))
  · rw [Nat.add_sub_cancel, ← powMod_eq_one_iff hlt]
    exact hone
  · intro r hr hdvd
    rw [Nat.add_sub_cancel] at hdvd ⊢
    rw [Ne, ← powMod_eq_one_iff hlt]
    rcases hr.dvd_mul.mp hdvd with hrk | hrm
    · rw [(Nat.prime_dvd_prime_iff_eq hr hk).mp hrk]
      exact hpart
    · rw [(Nat.prime_dvd_prime_iff_eq hr Nat.prime_two).mp (hr.dvd_of_dvd_pow hrm)]
      exact hhalf

end Sidecar.PublicKey
