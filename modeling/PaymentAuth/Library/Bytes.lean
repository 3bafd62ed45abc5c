import Mathlib.Data.Nat.Basic
import Mathlib.Tactic.Linarith
import Mathlib.Tactic.Ring
import PaymentAuth.Library.Outcome

/-! Fixed-width big-endian numbers and length-prefixed byte strings. -/

namespace Library

abbrev Bytes := List UInt8

/-- The bytes of a text whose characters are all ASCII. -/
def ascii (text : String) : Bytes := text.toList.map fun char => UInt8.ofNat char.toNat

/-- The low `width` bytes of a number, most significant byte first. -/
def toBeBytes : ℕ → ℕ → Bytes
  | 0, _ => []
  | width + 1, value => UInt8.ofNat (value / 256 ^ width) :: toBeBytes width value

def fromBeBytes (bytes : Bytes) : ℕ :=
  bytes.foldl (fun value byte => 256 * value + byte.toNat) 0

/-- The number with the given bytes, least significant byte first. -/
def fromLeBytes (bytes : Bytes) : ℕ := fromBeBytes bytes.reverse

@[simp] theorem toBeBytes_length (width value : ℕ) : (toBeBytes width value).length = width := by
  induction width with
  | zero => rfl
  | succ width ih => simp [toBeBytes, ih]

private theorem foldl_fromBeBytes (bytes : Bytes) (start : ℕ) :
    bytes.foldl (fun value byte => 256 * value + byte.toNat) start =
      start * 256 ^ bytes.length + fromBeBytes bytes := by
  induction bytes generalizing start with
  | nil => simp [fromBeBytes]
  | cons byte rest ih =>
    have whole : fromBeBytes (byte :: rest) = _ := ih (256 * 0 + byte.toNat)
    rw [List.foldl_cons, ih, whole, List.length_cons]
    ring

@[simp] theorem fromBeBytes_nil : fromBeBytes [] = 0 := rfl

theorem fromBeBytes_cons (byte : UInt8) (rest : Bytes) :
    fromBeBytes (byte :: rest) = byte.toNat * 256 ^ rest.length + fromBeBytes rest := by
  simpa [fromBeBytes] using foldl_fromBeBytes rest byte.toNat

theorem fromBeBytes_append (high low : Bytes) :
    fromBeBytes (high ++ low) = fromBeBytes high * 256 ^ low.length + fromBeBytes low := by
  rw [fromBeBytes, List.foldl_append, foldl_fromBeBytes]
  rfl

theorem fromBeBytes_lt (bytes : Bytes) : fromBeBytes bytes < 256 ^ bytes.length := by
  induction bytes with
  | nil => simp
  | cons byte rest ih =>
    have small : byte.toNat + 1 ≤ 256 := byte.toNat_lt
    rw [fromBeBytes_cons, List.length_cons, pow_succ]
    nlinarith [Nat.mul_le_mul_right (256 ^ rest.length) small]

theorem fromBeBytes_toBeBytes (width value : ℕ) :
    fromBeBytes (toBeBytes width value) = value % 256 ^ width := by
  induction width with
  | zero => simp [toBeBytes, Nat.mod_one]
  | succ width ih =>
    have top : (UInt8.ofNat (value / 256 ^ width)).toNat = value / 256 ^ width % 256 :=
      UInt8.toNat_ofNat'
    rw [toBeBytes, fromBeBytes_cons, toBeBytes_length, ih, top, pow_succ, Nat.mod_mul,
      Nat.add_comm, Nat.mul_comm]

theorem fromBeBytes_toBeBytes_of_lt {width value : ℕ} (small : value < 256 ^ width) :
    fromBeBytes (toBeBytes width value) = value := by
  rw [fromBeBytes_toBeBytes, Nat.mod_eq_of_lt small]

/-- Big-endian numbers are in lexicographic order. -/
theorem toBeBytes_le {width left right : ℕ} (below : left % 256 ^ width ≤ right % 256 ^ width) :
    toBeBytes width left ≤ toBeBytes width right := by
  induction width with
  | zero => exact List.le_refl _
  | succ width ih =>
    have top (value : ℕ) : (UInt8.ofNat (value / 256 ^ width)).toNat = value / 256 ^ width % 256 := UInt8.toNat_ofNat'
    rw [pow_succ, Nat.mod_mul, Nat.mod_mul] at below
    have leftLow := Nat.mod_lt left (Nat.pow_pos (n := width) (by norm_num : 0 < 256))
    have rightLow := Nat.mod_lt right (Nat.pow_pos (n := width) (by norm_num : 0 < 256))
    rcases Nat.lt_trichotomy (left / 256 ^ width % 256) (right / 256 ^ width % 256) with less | same | more
    · refine List.le_of_lt (List.Lex.rel ?_)
      rw [UInt8.lt_iff_toNat_lt, top, top]
      exact less
    · have head : UInt8.ofNat (left / 256 ^ width) = UInt8.ofNat (right / 256 ^ width) := by
        rw [← UInt8.toNat_inj, top, top, same]
      rw [toBeBytes, toBeBytes, head, List.cons_le_cons_iff]
      exact Or.inr ⟨rfl, ih (by rw [same] at below; omega)⟩
    · have gap := Nat.mul_le_mul_left (256 ^ width) (Nat.succ_le_of_lt more)
      rw [Nat.succ_eq_add_one, Nat.mul_add, Nat.mul_one] at gap
      omega

theorem toBeBytes_congr {width left right : ℕ} (same : left % 256 ^ width = right % 256 ^ width) :
    toBeBytes width left = toBeBytes width right :=
  List.le_antisymm (toBeBytes_le same.le) (toBeBytes_le same.ge)

theorem toBeBytes_fromBeBytes (bytes : Bytes) : toBeBytes bytes.length (fromBeBytes bytes) = bytes := by
  induction bytes with
  | nil => rfl
  | cons byte rest ih =>
    have small := fromBeBytes_lt rest
    have head : fromBeBytes (byte :: rest) / 256 ^ rest.length = byte.toNat := by
      rw [fromBeBytes_cons, Nat.add_comm, Nat.add_mul_div_right _ _ (by positivity), Nat.div_eq_of_lt small, Nat.zero_add]
    have tail : toBeBytes rest.length (fromBeBytes (byte :: rest)) = rest := by
      rw [fromBeBytes_cons]
      exact (toBeBytes_congr (Nat.mul_add_mod_self_right _ _ _)).trans ih
    rw [List.length_cons, toBeBytes, head, tail, UInt8.ofNat_toNat]

/-- Byte strings of one length are ordered as the numbers they spell. -/
theorem lt_iff_fromBeBytes_lt {left right : Bytes} (size : left.length = right.length) :
    left < right ↔ fromBeBytes left < fromBeBytes right := by
  have ordered {low high : Bytes} (same : low.length = high.length) (below : fromBeBytes low ≤ fromBeBytes high) :
      low ≤ high := by
    have smallLow := fromBeBytes_lt low
    have smallHigh := fromBeBytes_lt high
    rw [← toBeBytes_fromBeBytes low, ← toBeBytes_fromBeBytes high, ← same]
    rw [← same] at smallHigh
    apply toBeBytes_le
    rwa [Nat.mod_eq_of_lt smallLow, Nat.mod_eq_of_lt smallHigh]
  constructor
  · intro less
    by_contra above
    exact ordered size.symm (Nat.le_of_not_lt above) less
  · intro below
    by_contra notLess
    have same := List.le_antisymm (ordered size below.le) (List.not_lt.mp notLess)
    exact below.ne (congrArg fromBeBytes same)

theorem toBeBytes_injective {width left right : ℕ} (smallLeft : left < 256 ^ width)
    (smallRight : right < 256 ^ width) (same : toBeBytes width left = toBeBytes width right) :
    left = right := by
  rw [← fromBeBytes_toBeBytes_of_lt smallLeft, same, fromBeBytes_toBeBytes_of_lt smallRight]

/-- A byte string after its length as four bytes. -/
def lengthPrefixed (bytes : Bytes) : Bytes := toBeBytes 4 bytes.length ++ bytes

@[simp] theorem lengthPrefixed_length (bytes : Bytes) :
    (lengthPrefixed bytes).length = 4 + bytes.length := by
  simp [lengthPrefixed]

/-- The prefix of a framed message determines what it frames and what follows. -/
theorem lengthPrefixed_append_inj {left right s t : Bytes} (short : left.length < 2 ^ 32)
    (short' : right.length < 2 ^ 32) (same : lengthPrefixed left ++ s = lengthPrefixed right ++ t) :
    left = right ∧ s = t := by
  simp only [lengthPrefixed, List.append_assoc] at same
  obtain ⟨lengths, rest⟩ := List.append_inj same (by simp)
  have equal := toBeBytes_injective short short' lengths
  exact List.append_inj rest equal

/-- A length-prefixed byte string, aborting when the length exceeds four bytes. -/
def encodeLengthPrefixed {ε : Type} (bytes : Bytes) : Outcome ε Bytes := do
  Outcome.assert (bytes.length < 2 ^ 32)
  .ok (lengthPrefixed bytes)

theorem encodeLengthPrefixed_ok_iff {ε : Type} {bytes encoded : Bytes} :
    (encodeLengthPrefixed bytes : Outcome ε Bytes) = .ok encoded ↔
      bytes.length < 2 ^ 32 ∧ lengthPrefixed bytes = encoded := by
  simp [encodeLengthPrefixed, Outcome.bind_ok_iff]

end Library
