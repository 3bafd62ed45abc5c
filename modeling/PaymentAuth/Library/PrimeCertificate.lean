import Mathlib.FieldTheory.Finite.Basic

/-! Primality certificates: enough known prime factors of `n - 1` and a base of
large order modulo every prime factor of `n`. -/

namespace Library

/-- A number whose predecessor has a large divisor with known primes is prime
once one base has order that divisor modulo each of its prime factors. -/
theorem prime_of_large_order (base : ℕ) {n known : ℕ} (wide : 1 < n) (divides : known ∣ n - 1)
    (large : n < known * known) (power : base ^ (n - 1) ≡ 1 [MOD n])
    (exact : ∀ q : ℕ, q.Prime → q ∣ known → (base ^ ((n - 1) / q) + (n - 1)).Coprime n) : n.Prime := by
  by_contra composite
  obtain ⟨rest, split⟩ := divides
  have positive : 0 < known := by
    apply Nat.pos_of_ne_zero
    rintro rfl
    omega
  have factorPrime : n.minFac.Prime := Nat.minFac_prime (by omega)
  have : Fact n.minFac.Prime := ⟨factorPrime⟩
  have small : n.minFac ^ 2 ≤ n := Nat.minFac_sq_le_self (by omega) composite
  have power' : (base : ZMod n.minFac) ^ (n - 1) = 1 := by
    have reduced := power.of_dvd (Nat.minFac_dvd n)
    simpa using (ZMod.natCast_eq_natCast_iff _ _ _).mpr reduced
  have order : orderOf ((base : ZMod n.minFac) ^ rest) = known := by
    apply orderOf_eq_of_pow_and_pow_div_prime positive
    · rw [← pow_mul, mul_comm, ← split, power']
    · intro q prime member collapsed
      have quotient : rest * (known / q) = (n - 1) / q := by
        rw [split, ← Nat.mul_div_assoc _ member, mul_comm]
      rw [← pow_mul, quotient] at collapsed
      have vanishes : ((base ^ ((n - 1) / q) + (n - 1) : ℕ) : ZMod n.minFac) = 0 := by
        have whole : ((n : ℕ) : ZMod n.minFac) = 0 :=
          (CharP.cast_eq_zero_iff _ _ _).mpr (Nat.minFac_dvd n)
        rw [Nat.cast_add, Nat.cast_pow, collapsed, Nat.cast_sub wide.le, whole]
        simp
      have shared := (CharP.cast_eq_zero_iff (ZMod n.minFac) n.minFac _).mp vanishes
      exact factorPrime.one_lt.ne' (Nat.eq_one_of_dvd_coprimes (exact q prime member) shared
        (Nat.minFac_dvd n))
  have nonzero : (base : ZMod n.minFac) ^ rest ≠ 0 := by
    intro zero
    rw [zero, orderOf_eq_zero_iff'.mpr (fun k hk => by simp [Nat.pos_iff_ne_zero.mp hk])] at order
    omega
  have bounded : known ≤ n.minFac - 1 :=
    order ▸ Nat.le_of_dvd (by have := factorPrime.one_lt; omega) (ZMod.orderOf_dvd_card_sub_one nonzero)
  have strict : known < n.minFac := by have := factorPrime.one_lt; omega
  nlinarith

/-- `base ^ exponent % modulus` by repeated squaring over the low `width` bits. -/
def powMod (modulus : ℕ) : ℕ → ℕ → ℕ → ℕ
  | 0, _, _ => 1 % modulus
  | width + 1, base, exponent =>
    let root := powMod modulus width (base * base % modulus) (exponent / 2)
    if exponent % 2 = 1 then root * base % modulus else root

theorem powMod_modEq (modulus base : ℕ) {width exponent : ℕ} (small : exponent < 2 ^ width) :
    powMod modulus width base exponent ≡ base ^ exponent [MOD modulus] := by
  induction width generalizing base exponent with
  | zero =>
    obtain rfl : exponent = 0 := by simpa using small
    exact Nat.mod_modEq _ _
  | succ width ih =>
    have half : exponent / 2 < 2 ^ width := by rw [pow_succ] at small; omega
    have root : powMod modulus width (base * base % modulus) (exponent / 2) ≡
        base ^ (2 * (exponent / 2)) [MOD modulus] := by
      rw [pow_mul, sq]
      exact (ih _ half).trans ((Nat.mod_modEq _ _).pow _)
    unfold powMod
    by_cases odd : exponent % 2 = 1
    · have whole : base ^ exponent = base ^ (2 * (exponent / 2)) * base := by
        rw [← pow_succ]
        congr 1
        omega
      simp only [odd, if_true, whole]
      exact (Nat.mod_modEq _ _).trans (root.mul_right base)
    · have whole : 2 * (exponent / 2) = exponent := by omega
      simpa only [odd, if_false, whole] using root

/-- One certified number: a base and known prime factors of its predecessor. -/
structure PrimeCertificate where
  number : ℕ
  base : ℕ
  factors : List ℕ

/-- The test of one certificate, with exponents of `width` bits. -/
def PrimeCertificate.check (width : ℕ) (certificate : PrimeCertificate) : Bool :=
  let n := certificate.number
  let known := certificate.factors.prod
  1 < n && n ≤ 2 ^ width && (n - 1) % known == 0 && n < known * known &&
    powMod n width certificate.base (n - 1) == 1 &&
    certificate.factors.all fun q =>
      Nat.gcd (powMod n width certificate.base ((n - 1) / q) + (n - 1)) n == 1

theorem PrimeCertificate.prime {width : ℕ} {certificate : PrimeCertificate}
    (factors : ∀ q ∈ certificate.factors, q.Prime) (checked : certificate.check width = true) :
    certificate.number.Prime := by
  simp only [check, Bool.and_eq_true, decide_eq_true_eq, beq_iff_eq, List.all_eq_true] at checked
  obtain ⟨⟨⟨⟨⟨wide, bounded⟩, divides⟩, large⟩, power⟩, exact⟩ := checked
  have narrow (exponent : ℕ) (bound : exponent ≤ certificate.number - 1) : exponent < 2 ^ width := by omega
  refine prime_of_large_order certificate.base wide (Nat.dvd_of_mod_eq_zero divides) large ?_ ?_
  · have modular := powMod_modEq certificate.number certificate.base (narrow _ le_rfl)
    rw [power] at modular
    exact modular.symm
  · intro q prime member
    obtain ⟨factor, listed, multiple⟩ := (Prime.dvd_prod_iff prime.prime).mp member
    obtain rfl := (Nat.prime_dvd_prime_iff_eq prime (factors factor listed)).mp multiple
    have modular := powMod_modEq certificate.number certificate.base
      (narrow ((certificate.number - 1) / q) (Nat.div_le_self _ _))
    have residue := (modular.add_right (certificate.number - 1)).gcd_eq
    rw [Nat.Coprime, ← residue]
    exact exact q listed

end Library
