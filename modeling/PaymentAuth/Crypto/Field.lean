import Mathlib.Data.ZMod.Basic
import PaymentAuth.Library.Bytes

namespace PaymentAuth

open Library

/-- The order of the ed25519 scalar field. -/
def fieldOrder : ℕ := 2 ^ 252 + 27742317777372353535851937790883648493

/-- The prime field used across the protocol: the ed25519 scalar field. -/
abbrev FieldElement := ZMod fieldOrder

instance : NeZero fieldOrder := ⟨by decide +kernel⟩

instance : Fact (1 < fieldOrder) := ⟨by decide +kernel⟩

/-- Big-endian byte width of one element of a prime field stored in 64-bit limbs. -/
def elementWidth (p : ℕ) : ℕ := 8 * ((Nat.log2 p + 64) / 64)

/-- Canonical fixed-width big-endian bytes of a field element. -/
def elementToBeBytes {p : ℕ} (value : ZMod p) : Bytes := toBeBytes (elementWidth p) value.val

theorem elementWidth_fieldOrder : elementWidth fieldOrder = 32 := by decide +kernel

@[simp] theorem elementToBeBytes_length (value : FieldElement) :
    (elementToBeBytes value).length = 32 := by
  rw [elementToBeBytes, toBeBytes_length, elementWidth_fieldOrder]

section Representatives

variable {p n : ℕ}

/-- The width of an element holds every number below the modulus. -/
theorem lt_elementWidth (small : n < p) : n < 256 ^ elementWidth p := by
  have bits : p < 2 ^ (Nat.log2 p + 1) := Nat.lt_log2_self
  have limbs : Nat.log2 p + 1 ≤ 8 * elementWidth p := by
    unfold elementWidth
    omega
  calc n < p := small
    _ < 2 ^ (Nat.log2 p + 1) := bits
    _ ≤ 2 ^ (8 * elementWidth p) := Nat.pow_le_pow_right (by decide) limbs
    _ = 256 ^ elementWidth p := by rw [Nat.pow_mul]

/-- The canonical bytes of an element spell its representative. -/
theorem elementToBeBytes_eq_iff [NeZero p] {value : ZMod p} {bytes : Bytes} (size : bytes.length = elementWidth p) :
    elementToBeBytes value = bytes ↔ fromBeBytes bytes = value.val := by
  rw [elementToBeBytes]
  constructor
  · intro same
    rw [← same, fromBeBytes_toBeBytes_of_lt (lt_elementWidth value.val_lt)]
  · intro same
    rw [← same, ← size, toBeBytes_fromBeBytes]

/-- A number below the modulus is taken for the element that it represents. -/
theorem natCast_eq_some_iff [NeZero p] {value : ZMod p} :
    (if n < p then some (n : ZMod p) else none) = some value ↔ n = value.val := by
  constructor
  · intro found
    split at found
    · rename_i small
      cases found
      exact (ZMod.val_natCast_of_lt small).symm
    · cases found
  · intro same
    rw [same, if_pos value.val_lt, ZMod.natCast_zmod_val]

end Representatives

theorem two_pow_lt_fieldOrder : 2 ^ 65 < fieldOrder := by decide +kernel

theorem natCast_injective_of_lt {n m : ℕ} (small : n < 2 ^ 65) (small' : m < 2 ^ 65)
    (same : (n : FieldElement) = (m : FieldElement)) : n = m := by
  rw [ZMod.natCast_eq_natCast_iff'] at same
  rwa [Nat.mod_eq_of_lt (small.trans two_pow_lt_fieldOrder), Nat.mod_eq_of_lt (small'.trans two_pow_lt_fieldOrder)] at same

end PaymentAuth
