import PaymentAuth.Crypto.Backend
import PaymentAuth.Crypto.FieldPrime
import PaymentAuth.Library.Emission

/-! Shamir shares: the conversions between field elements and bytes, the share record
and its wire format. -/

namespace PaymentAuth

open Library

namespace SecretSharing

inductive SecretSharingError
  | invalidThreshold
  | invalidShareCount
  | thresholdGreaterThanCount
  | emptyInput
  | insufficientShares
  | duplicateShareIndex
  | invalidShareIndex
  | incompatibleMetadata
  | malformedEncoding
  | invalidFieldElement
  | rngFailure
  | reconstructionFailure
  | secretTooLargeForField
deriving DecidableEq, Repr

/-- Serialized size in bytes of a field element. -/
def fieldElementSize : ℕ := 32

/-- Big-endian representation of the field modulus. -/
def modulusBe : Bytes :=
  [0x10, 0x00, 0x00, 0x00, 0x00, 0x00, 0x00, 0x00, 0x00, 0x00, 0x00, 0x00, 0x00, 0x00, 0x00, 0x00,
   0x14, 0xde, 0xf9, 0xde, 0xa2, 0xf7, 0x9c, 0xd6, 0x58, 0x12, 0x63, 0x1a, 0x5c, 0xf5, 0xd3, 0xed]

/-- The element with the given 64-bit limbs, least significant limb first, unless they
reach the field order. -/
def fromBigint (limbs : List ℕ) : Option FieldElement :=
  let value := limbs.foldr (fun limb value => limb + 2 ^ 64 * value) 0
  if value < fieldOrder then some (value : FieldElement) else none

/-- The four limbs of a 32-byte buffer. -/
def limbs (buf : Bytes) : List ℕ :=
  (List.range 4).map fun i => fromBeBytes ((buf.drop ((3 - i) * 8)).take 8)

/-- Converts exact big-endian bytes, strictly below the modulus, into a field element. -/
def exactElementFromBe (buf : Bytes) : Outcome SecretSharingError FieldElement :=
  Outcome.expect (fromBigint (limbs buf))

/-- Interprets bytes as a big-endian integer below the modulus. -/
def elementFromBeBytes (bytes : Bytes) : Outcome SecretSharingError FieldElement := do
  Outcome.reject (fieldElementSize < bytes.length) .secretTooLargeForField
  let buf := List.replicate (fieldElementSize - bytes.length) 0 ++ bytes
  Outcome.reject (modulusBe ≤ buf) .secretTooLargeForField
  exactElementFromBe buf

/-- A source of random bytes. -/
class RngCore (R : Type) where
  fillBytes : R → Bytes32 × R

/-- Draws buffers until one is below the modulus, at most the given number of times. -/
def sampleBelowModulus {R : Type} [RngCore R] : ℕ → Emission R SecretSharingError FieldElement
  | 0 => liftM (.error .rngFailure : Outcome SecretSharingError FieldElement)
  | attempts + 1 => do
    let rng ← get
    let (buf, rng) := RngCore.fillBytes rng
    set rng
    if buf.bytes < modulusBe then liftM (exactElementFromBe buf.bytes)
    else sampleBelowModulus attempts

/-- Samples a uniformly distributed field element using rejection sampling. -/
def randomElement {R : Type} [RngCore R] : Emission R SecretSharingError FieldElement :=
  sampleBelowModulus 1024

/-- Version byte of shares. -/
def shareVersion : UInt8 := 1

/-- Maximum supported share count. -/
def maxShareCount : ℕ := 1000

/-- The evaluation of the secret-sharing polynomial at the non-zero point `index`. -/
structure Share where
  version : UInt8
  threshold : UInt32
  shareCount : UInt32
  index : UInt32
  value : FieldElement
deriving DecidableEq

def Share.new (threshold shareCount index : UInt32) (value : FieldElement) : Outcome SecretSharingError Share := do
  Outcome.reject (index = 0) .invalidShareIndex
  .ok ⟨shareVersion, threshold, shareCount, index, value⟩

/-- Number of bytes in an encoded share. -/
def encodedShareSize : ℕ := 13 + fieldElementSize

def Share.encode (share : Share) : Bytes :=
  [share.version] ++ toBeBytes 4 share.threshold.toNat ++ toBeBytes 4 share.shareCount.toNat ++
    toBeBytes 4 share.index.toNat ++ elementToBeBytes share.value

/-- The big-endian number in the four bytes from an offset on. -/
def u32At (bytes : Bytes) (offset : ℕ) : UInt32 := UInt32.ofNat (fromBeBytes ((bytes.drop offset).take 4))

def Share.decode (bytes : Bytes) : Outcome SecretSharingError Share := do
  Outcome.reject (bytes.length ≠ encodedShareSize) .malformedEncoding
  let version ← Outcome.expect bytes[0]?
  Outcome.reject (version ≠ shareVersion) .malformedEncoding
  let threshold := u32At bytes 1
  let shareCount := u32At bytes 5
  let index := u32At bytes 9
  let value ← (elementFromBeBytes (bytes.drop 13)).mapError fun _ => .invalidFieldElement
  Outcome.reject (threshold = 0 ∨ shareCount = 0) .malformedEncoding
  Outcome.reject (maxShareCount < shareCount.toNat) .malformedEncoding
  Outcome.reject (index = 0 ∨ shareCount < index) .invalidShareIndex
  .ok ⟨shareVersion, threshold, shareCount, index, value⟩

section Elements

variable {bytes : Bytes} {value : FieldElement}

theorem fromBeBytes_modulusBe : fromBeBytes modulusBe = fieldOrder := by decide +kernel

/-- The comparison with the modulus compares numbers. -/
theorem lt_modulusBe_iff (size : bytes.length = fieldElementSize) :
    bytes < modulusBe ↔ fromBeBytes bytes < fieldOrder := by
  rw [lt_iff_fromBeBytes_lt (size.trans rfl), fromBeBytes_modulusBe]

private theorem fromBeBytes_split (bytes : Bytes) (n : ℕ) :
    fromBeBytes bytes = fromBeBytes (bytes.take n) * 256 ^ (bytes.length - n) + fromBeBytes (bytes.drop n) := by
  conv_lhs => rw [← List.take_append_drop n bytes]
  rw [fromBeBytes_append, List.length_drop]

/-- The limbs of a buffer make up its big-endian number. -/
theorem limbs_value (size : bytes.length = fieldElementSize) :
    (limbs bytes).foldr (fun limb value => limb + 2 ^ 64 * value) 0 = fromBeBytes bytes := by
  have whole : bytes.length = 32 := size
  have first := fromBeBytes_split bytes 8
  have second := fromBeBytes_split (bytes.drop 8) 8
  have third := fromBeBytes_split (bytes.drop 16) 8
  have last : (bytes.drop 24).take 8 = bytes.drop 24 := List.take_of_length_le (by rw [List.length_drop]; omega)
  simp only [List.drop_drop, List.length_drop, whole, Nat.reduceAdd, Nat.reduceSub] at first second third
  have unfolded : limbs bytes = [fromBeBytes ((bytes.drop 24).take 8), fromBeBytes ((bytes.drop 16).take 8),
    fromBeBytes ((bytes.drop 8).take 8), fromBeBytes (bytes.take 8)] := rfl
  rw [unfolded, last, first, second, third]
  simp only [List.foldr_cons, List.foldr_nil]
  ring

/-- Below the modulus the conversion is exact, and the element is the one with these bytes. -/
theorem exactElementFromBe_ok_iff (size : bytes.length = fieldElementSize) :
    exactElementFromBe bytes = .ok value ↔ elementToBeBytes value = bytes := by
  rw [exactElementFromBe, Outcome.expect_ok_iff, fromBigint, limbs_value size, natCast_eq_some_iff,
    elementToBeBytes_eq_iff (size.trans elementWidth_fieldOrder.symm)]

theorem elementToBeBytes_lt_modulusBe (value : FieldElement) : elementToBeBytes value < modulusBe := by
  have size := elementToBeBytes_length value
  rw [lt_modulusBe_iff size, (elementToBeBytes_eq_iff (size.trans elementWidth_fieldOrder.symm)).mp rfl]
  exact value.val_lt

/-- Accepted bytes are the canonical bytes of the element without some of their leading zeros. -/
theorem elementFromBeBytes_ok_iff :
    elementFromBeBytes bytes = .ok value ↔ bytes.length ≤ fieldElementSize ∧
      elementToBeBytes value = List.replicate (fieldElementSize - bytes.length) 0 ++ bytes := by
  simp only [elementFromBeBytes, Outcome.bind_ok_iff, Outcome.reject_ok_iff, exists_const, Nat.not_lt]
  apply and_congr_right
  intro short
  have size : (List.replicate (fieldElementSize - bytes.length) 0 ++ bytes).length = fieldElementSize := by
    rw [List.length_append, List.length_replicate, Nat.sub_add_cancel short]
  rw [exactElementFromBe_ok_iff size]
  constructor
  · exact And.right
  · intro same
    refine ⟨?_, same⟩
    rw [← same]
    exact List.not_le.mpr (elementToBeBytes_lt_modulusBe value)

end Elements

section Encoding

variable {bytes : Bytes} {share : Share}

/-- What decoding asks of a share. -/
structure Share.WellFormed (share : Share) : Prop where
  version : share.version = shareVersion
  threshold : share.threshold ≠ 0
  shareCount : share.shareCount ≠ 0
  limited : share.shareCount.toNat ≤ maxShareCount
  index : share.index ≠ 0
  inside : share.index ≤ share.shareCount

theorem u32At_eq_iff {offset : ℕ} {value : UInt32} (inside : offset + 4 ≤ bytes.length) :
    u32At bytes offset = value ↔ (bytes.drop offset).take 4 = toBeBytes 4 value.toNat := by
  have size : ((bytes.drop offset).take 4).length = 4 := by
    rw [List.length_take, List.length_drop]
    omega
  constructor
  · intro same
    have small := fromBeBytes_lt ((bytes.drop offset).take 4)
    have back := toBeBytes_fromBeBytes ((bytes.drop offset).take 4)
    rw [size] at small back
    rw [← same, u32At, UInt32.toNat_ofNat_of_lt' small, back]
  · intro same
    rw [u32At, same, fromBeBytes_toBeBytes_of_lt value.toNat_lt, UInt32.ofNat_toNat]

@[simp] theorem Share.encode_length (share : Share) : share.encode.length = encodedShareSize := by
  simp [Share.encode, encodedShareSize, fieldElementSize]

/-- A byte string of the right size is an encoding when each of its fields is. -/
theorem eq_encode_iff (size : bytes.length = encodedShareSize) :
    bytes = share.encode ↔ bytes[0]? = some share.version ∧ u32At bytes 1 = share.threshold ∧
      u32At bytes 5 = share.shareCount ∧ u32At bytes 9 = share.index ∧
        elementToBeBytes share.value = bytes.drop 13 := by
  have whole : bytes.length = 45 := size
  rw [u32At_eq_iff (by omega), u32At_eq_iff (by omega), u32At_eq_iff (by omega)]
  constructor
  · rintro rfl
    simp [Share.encode, List.drop_append, List.drop_eq_nil_of_le]
  · rintro ⟨version, threshold, shareCount, index, value⟩
    have split (n : ℕ) : bytes.drop n = (bytes.drop n).take 4 ++ bytes.drop (n + 4) := by
      rw [← List.drop_drop, List.take_append_drop]
    have tail := split 1
    rw [threshold, split 5, shareCount, split 9, index, ← value] at tail
    cases bytes with
    | nil => cases version
    | cons first rest =>
      cases version
      rw [List.drop_one, List.tail_cons] at tail
      rw [Share.encode, tail]
      simp only [List.append_assoc, List.cons_append, List.nil_append]

/-- Decoding accepts the encodings of well-formed shares and nothing else. -/
theorem Share.decode_ok_iff : Share.decode bytes = .ok share ↔ share.WellFormed ∧ bytes = share.encode := by
  by_cases size : bytes.length = encodedShareSize
  · have short : (bytes.drop 13).length = 32 := by
      rw [List.length_drop, size]
      rfl
    have element (value : FieldElement) : elementFromBeBytes (bytes.drop 13) = .ok value ↔
        elementToBeBytes value = bytes.drop 13 := by
      rw [elementFromBeBytes_ok_iff, short]
      exact and_iff_right (Nat.le_refl _)
    rw [eq_encode_iff size]
    simp only [Share.decode, Outcome.bind_ok_iff, Outcome.reject_ok_iff, Outcome.expect_ok_iff, Outcome.mapError_ok_iff,
      element, exists_const, not_not, not_or, Nat.not_lt, UInt32.not_lt, Outcome.ok.injEq]
    constructor
    · rintro ⟨-, version, found, rfl, value, read, ⟨threshold, shareCount⟩, limited, ⟨index, inside⟩, rfl⟩
      exact ⟨⟨rfl, threshold, shareCount, limited, index, inside⟩, found, rfl, rfl, rfl, read⟩
    · obtain ⟨version, threshold, shareCount, index, value⟩ := share
      rintro ⟨valid, found, rfl, rfl, rfl, read⟩
      obtain rfl := valid.version
      exact ⟨size, _, found, rfl, value, read, ⟨valid.threshold, valid.shareCount⟩, valid.limited,
        ⟨valid.index, valid.inside⟩, rfl⟩
  · constructor
    · intro decoded
      rw [Share.decode, Outcome.bind_ok_iff] at decoded
      obtain ⟨_, checked, -⟩ := decoded
      exact absurd (Outcome.reject_ok_iff.mp checked) (not_not_intro size)
    · rintro ⟨-, rfl⟩
      exact absurd share.encode_length size

end Encoding

end SecretSharing

end PaymentAuth
