import PaymentAuth.Library.Failures
import PaymentAuth.SecretSharing.Shamir

/-! What splitting and reconstruction answer to any input: they never panic, and the failure
of an inversion is never reported. -/

namespace PaymentAuth

open Library

namespace SecretSharing

section Elements

variable {bytes : Bytes} {allowed : SecretSharingError → Prop}

/-- A full buffer below the modulus is an element. -/
theorem exactElementFromBe_of_lt (size : bytes.length = fieldElementSize) (below : bytes < modulusBe) :
    ∃ value, exactElementFromBe bytes = .ok value := by
  have small := (lt_modulusBe_iff size).mp below
  refine ⟨(fromBeBytes bytes : FieldElement), ?_⟩
  rw [exactElementFromBe, Outcome.expect_ok_iff, fromBigint, limbs_value size, if_pos small]

/-- Bytes that are no element are refused for their size. -/
theorem elementFromBeBytes_failsOnly (bytes : Bytes) :
    Outcome.FailsOnly (· = .secretTooLargeForField) (elementFromBeBytes bytes) := by
  by_cases long : fieldElementSize < bytes.length
  · rw [elementFromBeBytes, Outcome.reject, if_pos long]
    exact Outcome.FailsOnly.error rfl
  · have size : (List.replicate (fieldElementSize - bytes.length) 0 ++ bytes).length = fieldElementSize := by
      rw [List.length_append, List.length_replicate, Nat.sub_add_cancel (Nat.not_lt.mp long)]
    rw [elementFromBeBytes, Outcome.reject_of_not long, Outcome.ok_bind]
    apply Outcome.FailsOnly.bind
    · exact Outcome.FailsOnly.reject rfl
    · intro _ passed
      have below := List.not_le.mp (Outcome.reject_ok_iff.mp passed)
      obtain ⟨value, found⟩ := exactElementFromBe_of_lt size below
      rw [found]
      exact Outcome.FailsOnly.ok value

end Elements

section Splitting

variable {R : Type} [RngCore R] {secret : Bytes} {threshold shareCount : ℕ}

/-- Sampling runs out of attempts, or returns. -/
theorem sampleBelowModulus_failsOnly (attempts : ℕ) (rng : R) :
    Outcome.FailsOnly (· = .rngFailure) (sampleBelowModulus attempts rng) := by
  induction attempts generalizing rng with
  | zero => exact Outcome.FailsOnly.error rfl
  | succ attempts ih =>
    rw [sampleBelowModulus_succ]
    by_cases below : (RngCore.fillBytes rng).1.bytes < modulusBe
    · obtain ⟨value, found⟩ := exactElementFromBe_of_lt (RngCore.fillBytes rng).1.size below
      rw [if_pos below, found]
      exact Outcome.FailsOnly.ok (value, (RngCore.fillBytes rng).2)
    · rw [if_neg below]
      exact ih _

theorem randomCoefficients_failsOnly (threshold : ℕ) (rng : R) :
    Outcome.FailsOnly (· = .rngFailure) (randomCoefficients threshold rng) := by
  rw [randomCoefficients]
  induction List.range' 1 (threshold - 1) generalizing rng with
  | nil => exact Outcome.FailsOnly.ok ([], rng)
  | cons item rest ih =>
    rw [List.mapM_cons]
    apply (sampleBelowModulus_failsOnly 1024 rng).bind
    rintro ⟨value, next⟩ _
    apply (ih next).bind
    rintro ⟨values, last⟩ _
    exact Outcome.FailsOnly.ok (value :: values, last)

/-- What parameters or a secret may be refused with. -/
def splitErrors : List SecretSharingError :=
  [.invalidThreshold, .invalidShareCount, .thresholdGreaterThanCount, .emptyInput, .secretTooLargeForField]

/-- What is decided before the generator is used. -/
def checkSplit (secret : Bytes) (threshold shareCount : ℕ) : Outcome SecretSharingError FieldElement := do
  Outcome.reject (threshold ≤ 1) .invalidThreshold
  Outcome.reject (shareCount = 0 ∨ maxShareCount < shareCount) .invalidShareCount
  Outcome.reject (shareCount < threshold) .thresholdGreaterThanCount
  let secretBytes ← canonicalSecretBytes secret
  (elementFromBeBytes secretBytes).mapError fun _ => .secretTooLargeForField

theorem checkSplit_ok_iff {element : FieldElement} : checkSplit secret threshold shareCount = .ok element ↔
    Parameters threshold shareCount ∧ Represents secret element := by
  simp only [checkSplit, canonicalSecretBytes, Outcome.bind_ok_iff, Outcome.reject_ok_iff, Outcome.mapError_ok_iff,
    exists_const, Outcome.ok.injEq, not_or, Nat.not_lt, Nat.not_le]
  constructor
  · rintro ⟨several, ⟨-, limited⟩, enough, _, ⟨nonempty, rfl⟩, found⟩
    exact ⟨⟨several, enough, limited⟩, nonempty, found⟩
  · rintro ⟨⟨several, enough, limited⟩, nonempty, found⟩
    exact ⟨several, ⟨by omega, limited⟩, enough, _, ⟨nonempty, rfl⟩, found⟩

theorem checkSplit_failsOnly (secret : Bytes) (threshold shareCount : ℕ) :
    Outcome.FailsOnly (· ∈ splitErrors) (checkSplit secret threshold shareCount) := by
  apply (Outcome.FailsOnly.reject (by decide)).bind
  intro _ _
  apply (Outcome.FailsOnly.reject (by decide)).bind
  intro _ _
  apply (Outcome.FailsOnly.reject (by decide)).bind
  intro _ _
  have bytes : Outcome.FailsOnly (· ∈ splitErrors) (canonicalSecretBytes secret) := by
    apply (Outcome.FailsOnly.reject (by decide)).bind
    intro _ _
    exact Outcome.FailsOnly.ok _
  apply bytes.bind
  intro secretBytes _
  exact Outcome.FailsOnly.mapError (elementFromBeBytes_failsOnly secretBytes).returns fun _ _ => by decide

/-- What follows the checks: the coefficients are drawn and the shares evaluated. -/
def drawShares (threshold shareCount : ℕ) (element : FieldElement) : Emission R SecretSharingError (List Share) := do
  let random ← randomCoefficients threshold
  let thresholdU32 ← liftM (Outcome.expect (u32TryFrom threshold) : Outcome SecretSharingError UInt32)
  let shareCountU32 ← liftM (Outcome.expect (u32TryFrom shareCount) : Outcome SecretSharingError UInt32)
  liftM (evaluateShares thresholdU32 shareCountU32 (element :: random))

/-- The generator is used after all checks. -/
theorem split_eq (secret : Bytes) (threshold shareCount : ℕ) (rng : R) : split secret threshold shareCount rng =
    (checkSplit secret threshold shareCount >>= fun element => drawShares threshold shareCount element rng) := by
  simp only [split, checkSplit, bind_assoc, Emission.reject_bind, Emission.liftM_bind]
  rfl

/-- An accepted request may run out of attempts to draw an element, and fails in no other way. -/
theorem split_failsOnly {element : FieldElement} (passed : checkSplit secret threshold shareCount = .ok element)
    (rng : R) : Outcome.FailsOnly (· = .rngFailure) (split secret threshold shareCount rng) := by
  obtain ⟨parameters, represents⟩ := checkSplit_ok_iff.mp passed
  have drawing := randomCoefficients_failsOnly threshold rng
  cases drawn : randomCoefficients threshold rng with
  | ok result =>
    rw [split_ok_iff.mpr ⟨parameters, element, result.1, represents, drawn, rfl⟩]
    exact Outcome.FailsOnly.ok _
  | error failure =>
    rw [split_eq, passed, Outcome.ok_bind, drawShares, Emission.bind_of_error drawn]
    exact Outcome.FailsOnly.error (drawing.errors failure drawn)
  | aborted => exact absurd drawn drawing.returns

/-- Splitting refuses its arguments whatever the generator yields, or it accepts them and
can only run out of attempts to draw an element. -/
theorem split_classifies (secret : Bytes) (threshold shareCount : ℕ) :
    (Parameters threshold shareCount ∧ (∃ element, Represents secret element) ∧ ∀ rng : R,
      Outcome.FailsOnly (· = .rngFailure) (split secret threshold shareCount rng)) ∨
    ¬(Parameters threshold shareCount ∧ ∃ element, Represents secret element) ∧
      ∃ failure ∈ splitErrors, ∀ rng : R, split secret threshold shareCount rng = .error failure := by
  have checking := checkSplit_failsOnly secret threshold shareCount
  cases checked : checkSplit secret threshold shareCount with
  | ok element =>
    obtain ⟨parameters, represents⟩ := checkSplit_ok_iff.mp checked
    exact .inl ⟨parameters, ⟨element, represents⟩, split_failsOnly checked⟩
  | error failure =>
    refine .inr ⟨?_, failure, checking.errors failure checked, fun rng => ?_⟩
    · rintro ⟨parameters, element, represents⟩
      rw [checkSplit_ok_iff.mpr ⟨parameters, represents⟩] at checked
      cases checked
    · rw [split_eq, checked]
      rfl
  | aborted => exact absurd checked checking.returns

end Splitting

section Reconstructing

variable {shares : List Share}

/-- What shares may be refused with. -/
def reconstructErrors : List SecretSharingError :=
  [.emptyInput, .invalidShareCount, .incompatibleMetadata, .invalidShareIndex, .duplicateShareIndex,
    .insufficientShares]

/-- Shares are refused for a failed check: with distinct indices no inverse is missing. -/
theorem reconstruct_failsOnly (shares : List Share) :
    Outcome.FailsOnly (· ∈ reconstructErrors) (reconstruct shares) := by
  apply (Outcome.FailsOnly.reject (by decide)).bind
  intro _ several
  apply (Outcome.FailsOnly.reject (by decide)).bind
  intro _ _
  have nonempty : 0 < shares.length := List.length_pos_iff.mpr (Outcome.reject_ok_iff.mp several)
  rw [List.getElem?_eq_getElem nonempty]
  apply (Outcome.FailsOnly.ok _).bind
  intro first _
  apply (Outcome.FailsOnly.reject (by decide)).bind
  intro _ _
  apply Outcome.FailsOnly.bind
  · apply Outcome.FailsOnly.forM
    intro s _
    exact Outcome.FailsOnly.reject (by decide)
  intro _ _
  apply Outcome.FailsOnly.bind
  · apply Outcome.FailsOnly.forM
    intro i listed
    obtain ⟨positive, below⟩ := List.mem_range'_1.mp listed
    have inside : i - 1 < shares.length := by omega
    rw [List.getElem?_eq_getElem inside]
    apply (Outcome.FailsOnly.ok _).bind
    intro _ _
    exact Outcome.FailsOnly.reject (by decide)
  intro _ compared
  apply (Outcome.FailsOnly.reject (by decide)).bind
  intro _ _
  have distinct : (shares.map Share.index).Nodup := by
    apply nodup_indices_iff.mpr
    simpa only [Outcome.forM_ok_iff, Outcome.bind_ok_iff, Outcome.expect_ok_iff, Outcome.reject_ok_iff, exists_const,
      not_exists, not_and] using compared
  have points := nodup_points (distinct.sublist ((List.take_sublist first.threshold.toNat shares).map _))
  rw [interpolateAtZero_eq points]
  exact Outcome.FailsOnly.ok _

/-- Reconstruction succeeds on consistent shares and refuses all others with one of six errors. -/
theorem reconstruct_classifies (shares : List Share) :
    ((∃ first, Consistent shares first) ∧ ∃ secret, reconstruct shares = .ok secret) ∨
      (¬∃ first, Consistent shares first) ∧ ∃ failure ∈ reconstructErrors, reconstruct shares = .error failure := by
  by_cases consistent : ∃ first, Consistent shares first
  · obtain ⟨first, checked⟩ := consistent
    left
    have points := nodup_points (checked.distinct.sublist ((List.take_sublist first.threshold.toNat shares).map _))
    exact ⟨⟨first, checked⟩, _, reconstruct_ok_iff.mpr ⟨first, checked, _, interpolateAtZero_eq points, rfl⟩⟩
  · right
    refine ⟨consistent, ?_⟩
    have refusals := reconstruct_failsOnly shares
    cases result : reconstruct shares with
    | ok secret =>
      obtain ⟨first, checked, -⟩ := reconstruct_ok_iff.mp result
      exact absurd ⟨first, checked⟩ consistent
    | error failure => exact ⟨failure, refusals.errors failure result, rfl⟩
    | aborted => exact absurd result refusals.returns

end Reconstructing

end SecretSharing

end PaymentAuth
