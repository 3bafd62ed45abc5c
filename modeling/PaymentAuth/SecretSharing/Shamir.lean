import PaymentAuth.Library.Interpolation
import PaymentAuth.SecretSharing.Share

/-! Shamir secret sharing over the scalar field: a secret is the constant term of a
random polynomial, and a share is a value of the polynomial. -/

namespace PaymentAuth

open Library

namespace SecretSharing

/-- The bytes from the first nonzero one on; an all-zero string keeps a single zero byte. -/
def stripLeadingZeros (bytes : Bytes) : Bytes :=
  let firstNonzero := bytes.findIdx fun byte => byte ≠ 0
  if firstNonzero = bytes.length then [0] else bytes.drop firstNonzero

def canonicalSecretBytes (secret : Bytes) : Outcome SecretSharingError Bytes := do
  Outcome.reject (secret = []) .emptyInput
  .ok (stripLeadingZeros secret)

/-- The random coefficients of a polynomial of degree `threshold - 1`. -/
def randomCoefficients {R : Type} [RngCore R] (threshold : ℕ) : Emission R SecretSharingError (List FieldElement) :=
  (List.range' 1 (threshold - 1)).mapM fun _ => randomElement

/-- The value of the polynomial with the given coefficients, constant term first. -/
def evaluate (coefficients : List FieldElement) (x : FieldElement) : FieldElement :=
  coefficients.reverse.foldl (fun value coeff => value * x + coeff) 0

def u32TryFrom (value : ℕ) : Option UInt32 := if value < 2 ^ 32 then some (UInt32.ofNat value) else none

/-- The shares at the points `1..=shareCount`. -/
def evaluateShares (threshold shareCount : UInt32) (coefficients : List FieldElement) :
    Outcome SecretSharingError (List Share) :=
  (List.range' 1 shareCount.toNat).mapM fun index =>
    Share.new threshold shareCount (UInt32.ofNat index) (evaluate coefficients (index : FieldElement))

/-- Splits a secret into shares, of which `threshold` reconstruct it. -/
def split {R : Type} [RngCore R] (secret : Bytes) (threshold shareCount : ℕ) :
    Emission R SecretSharingError (List Share) := do
  Emission.reject (threshold ≤ 1) .invalidThreshold
  Emission.reject (shareCount = 0 ∨ maxShareCount < shareCount) .invalidShareCount
  Emission.reject (shareCount < threshold) .thresholdGreaterThanCount
  let secretBytes ← liftM (canonicalSecretBytes secret)
  let secretElement ← liftM
    ((elementFromBeBytes secretBytes).mapError fun _ => SecretSharingError.secretTooLargeForField)
  let random ← randomCoefficients threshold
  let coefficients := secretElement :: random
  let thresholdU32 ← liftM (Outcome.expect (u32TryFrom threshold) : Outcome SecretSharingError UInt32)
  let shareCountU32 ← liftM (Outcome.expect (u32TryFrom shareCount) : Outcome SecretSharingError UInt32)
  liftM (evaluateShares thresholdU32 shareCountU32 coefficients)

/-- The point at which a share is a value of the polynomial. -/
def Share.point (share : Share) : FieldElement := (share.index.toNat : FieldElement)

/-- The inverse of a nonzero element. -/
def inverse (x : FieldElement) : Option FieldElement := if x = 0 then none else some x⁻¹

/-- The Lagrange coefficient at zero of the share at position `i`. -/
def lagrangeAtZero (used : List Share) (i : ℕ) (xi : FieldElement) : Outcome SecretSharingError FieldElement :=
  used.zipIdx.foldlM (fun lagrange (sj, j) =>
    if i = j then .ok lagrange
    else do
      let inverted ← Outcome.okOr .reconstructionFailure (inverse (sj.point - xi))
      .ok (lagrange * (sj.point * inverted))) 1

/-- Lagrange interpolation at zero. -/
def interpolateAtZero (used : List Share) : Outcome SecretSharingError FieldElement :=
  used.zipIdx.foldlM (fun secret (si, i) => do
    let lagrange ← lagrangeAtZero used i si.point
    .ok (secret + si.value * lagrange)) 0

/-- Reconstructs a secret from at least `threshold` shares; extra shares are ignored. -/
def reconstruct (shares : List Share) : Outcome SecretSharingError Bytes := do
  Outcome.reject (shares = []) .emptyInput
  Outcome.reject (maxShareCount < shares.length) .invalidShareCount
  let first ← Outcome.expect shares[0]?
  Outcome.reject (∃ s ∈ shares, s.version ≠ first.version ∨ s.threshold ≠ first.threshold ∨
    s.shareCount ≠ first.shareCount) .incompatibleMetadata
  let threshold := first.threshold.toNat
  forM shares fun s =>
    Outcome.reject (s.index = 0 ∨ first.shareCount.toNat < s.index.toNat) .invalidShareIndex
  forM (List.range' 1 (shares.length - 1)) fun i => do
    let previous ← Outcome.expect shares[i - 1]?
    Outcome.reject (∃ s ∈ shares.drop i, s.index = previous.index) .duplicateShareIndex
  Outcome.reject (shares.length < threshold) .insufficientShares
  let secret ← interpolateAtZero (shares.take threshold)
  .ok (stripLeadingZeros (elementToBeBytes secret))

section Splitting

variable {R : Type} [RngCore R] {secret : Bytes} {threshold shareCount : ℕ} {rng next : R} {shares : List Share}
  {coefficients : List FieldElement}

theorem randomCoefficients_length (drawn : randomCoefficients threshold rng = .ok (coefficients, next)) :
    coefficients.length = threshold - 1 := by
  rw [Emission.length_of_mapM_ok drawn, List.length_range']

/-- The share at a point. -/
def shareAt (threshold shareCount : ℕ) (coefficients : List FieldElement) (index : ℕ) : Share :=
  ⟨shareVersion, UInt32.ofNat threshold, UInt32.ofNat shareCount, UInt32.ofNat index,
    evaluate coefficients (index : FieldElement)⟩

/-- The parameters that splitting accepts. -/
structure Parameters (threshold shareCount : ℕ) : Prop where
  several : 2 ≤ threshold
  enough : threshold ≤ shareCount
  limited : shareCount ≤ maxShareCount

/-- A secret that splitting accepts, and the element it stands for. -/
def Represents (secret : Bytes) (element : FieldElement) : Prop :=
  secret ≠ [] ∧ elementFromBeBytes (stripLeadingZeros secret) = .ok element

theorem u32TryFrom_eq_some {value : ℕ} (small : value < 2 ^ 32) : u32TryFrom value = some (UInt32.ofNat value) :=
  if_pos small

private theorem ne_zero_of_toNat {value : UInt32} (positive : 0 < value.toNat) : value ≠ 0 := by
  rintro rfl
  exact absurd positive (Nat.lt_irrefl 0)

theorem evaluateShares_eq (small : shareCount < 2 ^ 32) :
    evaluateShares (UInt32.ofNat threshold) (UInt32.ofNat shareCount) coefficients =
      .ok ((List.range' 1 shareCount).map (shareAt threshold shareCount coefficients)) := by
  rw [evaluateShares, UInt32.toNat_ofNat_of_lt' small]
  apply Outcome.mapM_ok_of_forall
  intro index inside
  obtain ⟨positive, below⟩ := List.mem_range'_1.mp inside
  have nonzero : UInt32.ofNat index ≠ 0 := by
    apply ne_zero_of_toNat
    rw [UInt32.toNat_ofNat_of_lt' (show index < 2 ^ 32 by omega)]
    exact positive
  rw [Share.new, Outcome.reject_of_not nonzero, Outcome.ok_bind, shareAt]

/-- Splitting draws the higher coefficients and takes the values at one to the share count. -/
theorem split_ok_iff : split secret threshold shareCount rng = .ok (shares, next) ↔
    Parameters threshold shareCount ∧ ∃ element coefficients, Represents secret element ∧
      randomCoefficients threshold rng = .ok (coefficients, next) ∧
        (List.range' 1 shareCount).map (shareAt threshold shareCount (element :: coefficients)) = shares := by
  simp only [split, Emission.bind_ok_iff, Emission.reject_ok_iff, Emission.liftM_ok_iff, Outcome.mapError_ok_iff,
    Outcome.expect_ok_iff, canonicalSecretBytes, Outcome.bind_ok_iff, Outcome.reject_ok_iff, exists_const,
    Outcome.ok.injEq, not_or, Nat.not_lt, Nat.not_le]
  constructor
  · rintro ⟨_, ⟨several, rfl⟩, _, ⟨⟨-, limited⟩, rfl⟩, _, ⟨enough, rfl⟩, _, _, ⟨⟨nonempty, rfl⟩, rfl⟩, element, _,
      ⟨found, rfl⟩, coefficients, _, drawn, _, _, ⟨cast, rfl⟩, _, _, ⟨cast', rfl⟩, evaluated, rfl⟩
    have small : shareCount < 2 ^ 32 := limited.trans_lt (by decide)
    rw [u32TryFrom_eq_some (enough.trans_lt small)] at cast
    rw [u32TryFrom_eq_some small] at cast'
    cases cast
    cases cast'
    rw [evaluateShares_eq small] at evaluated
    exact ⟨⟨several, enough, limited⟩, element, coefficients, ⟨nonempty, found⟩, drawn, Outcome.ok.inj evaluated⟩
  · rintro ⟨⟨several, enough, limited⟩, element, coefficients, ⟨nonempty, found⟩, drawn, rfl⟩
    have small : shareCount < 2 ^ 32 := limited.trans_lt (by decide)
    exact ⟨rng, ⟨several, rfl⟩, rng, ⟨⟨by omega, limited⟩, rfl⟩, rng, ⟨enough, rfl⟩, _, rng, ⟨⟨nonempty, rfl⟩, rfl⟩,
      element, rng, ⟨found, rfl⟩, coefficients, next, drawn, _, next, ⟨u32TryFrom_eq_some (enough.trans_lt small), rfl⟩,
      _, next, ⟨u32TryFrom_eq_some small, rfl⟩, evaluateShares_eq small, rfl⟩

theorem evaluate_eq_eval (coefficients : List FieldElement) (x : FieldElement) :
    evaluate coefficients x = (Interpolation.ofCoefficients coefficients).eval x :=
  Interpolation.horner_eq_eval coefficients x

end Splitting

section Shares

variable {threshold shareCount index : ℕ} {coefficients : List FieldElement}

theorem Parameters.small (accepted : Parameters threshold shareCount) : shareCount < 2 ^ 32 :=
  accepted.limited.trans_lt (by decide)

theorem Parameters.threshold_toNat (accepted : Parameters threshold shareCount) :
    (UInt32.ofNat threshold).toNat = threshold :=
  UInt32.toNat_ofNat_of_lt' (accepted.enough.trans_lt accepted.small)

theorem Parameters.shareCount_toNat (accepted : Parameters threshold shareCount) :
    (UInt32.ofNat shareCount).toNat = shareCount :=
  UInt32.toNat_ofNat_of_lt' accepted.small

theorem Parameters.index_toNat (accepted : Parameters threshold shareCount)
    (inside : index ∈ List.range' 1 shareCount) :
    (UInt32.ofNat index).toNat = index := by
  obtain ⟨-, below⟩ := List.mem_range'_1.mp inside
  have small := accepted.small
  exact UInt32.toNat_ofNat_of_lt' (show index < 2 ^ 32 by omega)

/-- Every share of a split passes the checks of the wire format. -/
theorem Parameters.wellFormed (accepted : Parameters threshold shareCount) (inside : index ∈ List.range' 1 shareCount) :
    (shareAt threshold shareCount coefficients index).WellFormed := by
  obtain ⟨positive, below⟩ := List.mem_range'_1.mp inside
  have several := accepted.several
  have enough := accepted.enough
  refine ⟨rfl, ne_zero_of_toNat ?_, ne_zero_of_toNat ?_, ?_, ne_zero_of_toNat ?_, ?_⟩
  · rw [shareAt, accepted.threshold_toNat]
    omega
  · rw [shareAt, accepted.shareCount_toNat]
    omega
  · rw [shareAt, accepted.shareCount_toNat]
    exact accepted.limited
  · rw [shareAt, accepted.index_toNat inside]
    omega
  · rw [UInt32.le_iff_toNat_le, shareAt, accepted.index_toNat inside, accepted.shareCount_toNat]
    omega

/-- The value of a share is the value of the polynomial at its point. -/
theorem Parameters.value_eq (accepted : Parameters threshold shareCount) (inside : index ∈ List.range' 1 shareCount) :
    (shareAt threshold shareCount coefficients index).value = (Interpolation.ofCoefficients coefficients).eval
      (shareAt threshold shareCount coefficients index).point := by
  rw [Share.point, shareAt, accepted.index_toNat inside, evaluate_eq_eval]

end Shares

section Sampling

variable {R : Type} [RngCore R] {rng : R}

/-- One attempt of the rejection sampling. -/
theorem sampleBelowModulus_succ (attempts : ℕ) : sampleBelowModulus (attempts + 1) rng =
    (if (RngCore.fillBytes rng).1.bytes < modulusBe then liftM (exactElementFromBe (RngCore.fillBytes rng).1.bytes)
      else sampleBelowModulus attempts) (RngCore.fillBytes rng).2 :=
  rfl

/-- The bytes of an element are below the modulus, so that a first draw of them is kept. -/
theorem randomElement_of_fillBytes {value : FieldElement}
    (filled : (RngCore.fillBytes rng).1.bytes = elementToBeBytes value) :
    randomElement rng = .ok (value, (RngCore.fillBytes rng).2) := by
  rw [randomElement, sampleBelowModulus_succ, filled, if_pos (elementToBeBytes_lt_modulusBe value),
    Emission.liftM_ok_iff, exactElementFromBe_ok_iff (elementToBeBytes_length value)]
  exact ⟨rfl, rfl⟩

end Sampling

section Replay

/-- A generator that replays the bytes of given field elements. -/
structure Replay where
  elements : List FieldElement

instance : RngCore Replay where
  fillBytes replay := (⟨elementToBeBytes (replay.elements.headD 0), elementToBeBytes_length _⟩, ⟨replay.elements.tail⟩)

theorem randomElement_replay (value : FieldElement) (rest : List FieldElement) :
    (randomElement : Emission Replay SecretSharingError FieldElement) ⟨value :: rest⟩ = .ok (value, ⟨rest⟩) :=
  randomElement_of_fillBytes rfl

/-- Every list of coefficients is drawn from some generator. -/
theorem randomCoefficients_replay {threshold : ℕ} {coefficients : List FieldElement}
    (size : coefficients.length = threshold - 1) :
    randomCoefficients threshold (⟨coefficients⟩ : Replay) = .ok (coefficients, ⟨[]⟩) := by
  have drawn (items : List ℕ) (same : coefficients.length = items.length) :
      (items.mapM fun _ => (randomElement : Emission Replay SecretSharingError FieldElement)) ⟨coefficients⟩ =
        .ok (coefficients, ⟨[]⟩) := by
    clear size
    induction items generalizing coefficients with
    | nil =>
      rw [List.length_eq_zero_iff.mp same]
      rfl
    | cons item items ih =>
      cases coefficients with
      | nil => cases same
      | cons value rest =>
        rw [List.mapM_cons, Emission.bind_of_ok (randomElement_replay value rest),
          Emission.bind_of_ok (ih (Nat.succ.inj same))]
        rfl
  apply drawn
  rw [size, List.length_range']

end Replay

section Reconstructing

variable {shares used : List Share} {secret : Bytes} {first : Share}

theorem inverse_eq_some {x : FieldElement} (nonzero : x ≠ 0) : inverse x = some x⁻¹ := if_neg nonzero

/-- Distinct indices are distinct points of the field. -/
theorem nodup_points (distinct : (used.map Share.index).Nodup) : (used.map Share.point).Nodup := by
  have mapped : used.map Share.point = (used.map Share.index).map fun index => (index.toNat : FieldElement) := by
    rw [List.map_map]
    rfl
  rw [mapped]
  apply distinct.map
  intro left right same
  have small (index : UInt32) : index.toNat < 2 ^ 65 := index.toNat_lt.trans (by decide)
  exact UInt32.toNat_inj.mp (natCast_injective_of_lt (small left) (small right) same)

/-- What interpolation multiplies the value of a share at the given point with. -/
def weight (points : List FieldElement) (point : FieldElement) : FieldElement :=
  (points.map fun other => if other = point then 1 else other * (other - point)⁻¹).prod

/-- With distinct points no inverse is missing, and the loop passes over the share itself. -/
theorem lagrangeAtZero_eq (distinct : (used.map Share.point).Nodup) {i : ℕ} {si : Share} (found : used[i]? = some si) :
    lagrangeAtZero used i si.point = .ok (weight (used.map Share.point) si.point) := by
  have pointAt {k : ℕ} {s : Share} (here : used[k]? = some s) : (used.map Share.point)[k]? = some s.point := by
    rw [List.getElem?_map, here, Option.map_some]
  rw [lagrangeAtZero, Outcome.foldlM_zipIdx_ok fun lagrange sj =>
    lagrange * if sj.point = si.point then 1 else sj.point * (sj.point - si.point)⁻¹]
  · rw [weight, List.map_map, List.prod_eq_foldl, List.foldl_map]
    rfl
  · intro sj j here lagrange
    dsimp only
    by_cases same : i = j
    · subst same
      cases found.symm.trans here
      rw [if_pos rfl, if_pos rfl, mul_one]
    · have different : sj.point ≠ si.point := by
        intro equal
        apply same
        apply (List.getElem?_inj (List.getElem?_eq_some_iff.mp (pointAt found)).1 distinct).mp
        rw [pointAt found, pointAt here, equal]
      rw [if_neg same, if_neg different, inverse_eq_some (sub_ne_zero.mpr different), Outcome.okOr_some,
        Outcome.ok_bind]

/-- Lagrange interpolation at zero succeeds on shares with distinct points. -/
theorem interpolateAtZero_eq (distinct : (used.map Share.point).Nodup) :
    interpolateAtZero used = .ok (used.map fun s => s.value * weight (used.map Share.point) s.point).sum := by
  rw [interpolateAtZero, Outcome.foldlM_zipIdx_ok fun secret s => secret + s.value * weight (used.map Share.point) s.point]
  · rw [List.sum_eq_foldl, List.foldl_map]
  · intro s k here secret
    dsimp only
    rw [lagrangeAtZero_eq distinct here, Outcome.ok_bind]

/-- What reconstruction asks of a list of shares. -/
structure Consistent (shares : List Share) (first : Share) : Prop where
  head : shares[0]? = some first
  limited : shares.length ≤ maxShareCount
  uniform : ∀ s ∈ shares, s.version = first.version ∧ s.threshold = first.threshold ∧ s.shareCount = first.shareCount
  inside : ∀ s ∈ shares, s.index ≠ 0 ∧ s.index.toNat ≤ first.shareCount.toNat
  distinct : (shares.map Share.index).Nodup
  enough : first.threshold.toNat ≤ shares.length

/-- The comparison of each share with the later ones finds every duplicate. -/
theorem nodup_indices_iff : (shares.map Share.index).Nodup ↔ ∀ i ∈ List.range' 1 (shares.length - 1),
    ∃ previous, shares[i - 1]? = some previous ∧ ∀ s ∈ shares.drop i, ¬s.index = previous.index := by
  rw [List.Nodup, List.pairwise_map, List.pairwise_iff_getElem]
  constructor
  · intro distinct i inside
    obtain ⟨positive, below⟩ := List.mem_range'_1.mp inside
    refine ⟨shares[i - 1], List.getElem?_eq_getElem (by omega), ?_⟩
    intro s later same
    obtain ⟨k, short, rfl⟩ := List.mem_iff_getElem.mp later
    rw [List.length_drop] at short
    rw [List.getElem_drop] at same
    exact distinct (i - 1) (i + k) (by omega) (by omega) (by omega) same.symm
  · intro checked i j short short' below same
    obtain ⟨previous, found, unique⟩ := checked (i + 1) (List.mem_range'_1.mpr ⟨by omega, by omega⟩)
    rw [Nat.add_sub_cancel, List.getElem?_eq_getElem short] at found
    cases found
    refine unique shares[j] (List.mem_iff_getElem.mpr ⟨j - (i + 1), ?_, ?_⟩) same.symm
    · rw [List.length_drop]
      omega
    · rw [List.getElem_drop]
      congr 1
      omega

/-- Reconstruction succeeds on consistent shares only, and always there. -/
theorem reconstruct_ok_iff : reconstruct shares = .ok secret ↔ ∃ first, Consistent shares first ∧
    ∃ element, interpolateAtZero (shares.take first.threshold.toNat) = .ok element ∧
      stripLeadingZeros (elementToBeBytes element) = secret := by
  simp only [reconstruct, Outcome.bind_ok_iff, Outcome.reject_ok_iff, Outcome.expect_ok_iff, Outcome.forM_ok_iff,
    exists_const, Outcome.ok.injEq, not_or, Nat.not_lt, not_exists, not_and, not_not, ← nodup_indices_iff]
  constructor
  · rintro ⟨-, limited, first, head, uniform, inside, distinct, enough, recovered⟩
    exact ⟨first, ⟨head, limited, uniform, inside, distinct, enough⟩, recovered⟩
  · rintro ⟨first, consistent, recovered⟩
    refine ⟨?_, consistent.limited, first, consistent.head, consistent.uniform, consistent.inside, consistent.distinct,
      consistent.enough, recovered⟩
    rintro rfl
    cases consistent.head

end Reconstructing

end SecretSharing

end PaymentAuth
