import PaymentAuth.Payment.Soundness

/-! The plaintext relation that a prover checks before proving. -/

namespace PaymentAuth

open Library

namespace AuthorizationRelation

/-- The range check of one amount cap, in the clear. -/
def checkLimit (witness : PrivateWitness) (limit : UInt64) : Outcome PaymentError Unit := do
  let value := witness.amount.value
  Outcome.reject (value > limit) .amountExceedsLimit
  let difference := limit - value
  Outcome.reject (witness.amountBits ≠ decomposeAmount value ∨ witness.differenceBits ≠ decomposeAmount difference)
    .invalidBitWitness

/-- Validates a statement and a witness against a policy in the clear. -/
def validate (sha256 : Bytes → Digest) (statement : PaymentStatement) (witness : PrivateWitness)
    (policy : Policy) : Outcome PaymentError Unit := do
  policy.validate.mapError fun _ => PaymentError.invalidPolicy
  let id ← policy.policyId sha256
  Outcome.reject (id ≠ statement.policyId) .policyIdMismatch
  witness.validate policy
  Outcome.reject (witness.amount ≠ statement.amount) .amountMismatch
  forM policy.limits (checkLimit witness)
  let policyWitness ← witness.toPolicyWitness policy
  let result ← (policy.evaluate sha256 policyWitness).mapError fun _ => PaymentError.invalidPolicy
  Outcome.reject (result.authorized = false) .policyNotSatisfied
  let compiled : CompiledPolicy FieldElement ←
    (compileWithLayout policy).mapError fun _ => PaymentError.invalidPolicy
  let authorized ← (compiled.referenceEvaluate sha256 policy policyWitness).mapError fun _ => PaymentError.invalidPolicy
  Outcome.reject (authorized = false) .invalidPolicy

end AuthorizationRelation

/-- The evaluator authorizes a witness. -/
def Policy.Authorizes (sha256 : Bytes → Digest) (policy : Policy) (witness : PolicyWitness) : Prop :=
  ∃ result, policy.evaluate sha256 witness = .ok result ∧ result.authorized = true

theorem decomposeAmount_injective : Function.Injective decomposeAmount := by
  intro left right same
  have digits : ∀ i < amountBitLen, left.toNat.testBit i = right.toNat.testBit i := by
    intro i inside
    exact List.map_inj_left.mp (congrArg Subtype.val same) i (List.mem_range.mpr inside)
  apply UInt64.toNat_inj.mp
  apply Nat.eq_of_testBit_eq
  intro i
  by_cases inside : i < amountBitLen
  · exact digits i inside
  · have wide : 2 ^ 64 ≤ 2 ^ i := Nat.pow_le_pow_right (by decide) (not_lt.mp inside)
    rw [Nat.testBit_lt_two_pow (left.toNat_lt.trans_le wide), Nat.testBit_lt_two_pow (right.toNat_lt.trans_le wide)]

namespace PrivateWitness

variable {witness : PrivateWitness} {policy : Policy} {policyWitness : PolicyWitness}

/-- Secrets paired with credentials in the given order. -/
def pairedWith (witness : PrivateWitness) (ids : List CredentialId) : PolicyWitness :=
  ⟨ids.zip witness.credentialSecrets, some ⟨witness.amount.value⟩⟩

theorem toPolicyWitness_ok_iff :
    witness.toPolicyWitness policy = .ok policyWitness ↔
      witness.validate policy = .ok () ∧ policyWitness = witness.pairedWith policy.policyCredentialIds := by
  simp only [toPolicyWitness, Outcome.bind_ok_iff, Outcome.ok.injEq]
  constructor
  · rintro ⟨_, checked, rfl⟩
    exact ⟨checked, rfl⟩
  · rintro ⟨checked, rfl⟩
    exact ⟨(), checked, rfl⟩

theorem validate_length (checked : witness.validate policy = .ok ()) :
    witness.credentialSecrets.length = policy.policyCredentialIds.length := by
  simp only [validate, Outcome.bind_ok_iff, Outcome.reject_ok_iff, exists_const, not_not] at checked
  exact checked.1

/-- A paired witness covers its policy. -/
theorem toPolicyWitness_matches (paired : witness.toPolicyWitness policy = .ok policyWitness) :
    policyWitness.validateAgainst policy = .ok () := by
  obtain ⟨checked, rfl⟩ := toPolicyWitness_ok_iff.mp paired
  refine PolicyWitness.validateAgainst_ok_iff.mpr ⟨fun id inside => ?_, fun _ _ => ⟨_, rfl⟩⟩
  have listed : id ∈ (policy.policyCredentialIds.zip witness.credentialSecrets).map Prod.fst := by
    rw [List.map_fst_zip (validate_length checked).ge]
    exact Policy.mem_policyCredentialIds.mpr inside
  obtain ⟨entry, found, rfl⟩ := List.mem_map.mp listed
  rw [PolicyWitness.secretFor, ← Option.isSome_iff_exists, Option.isSome_map, List.isSome_find?, List.any_eq_true]
  exact ⟨entry, found, beq_self_eq_true _⟩

end PrivateWitness

namespace AuthorizationRelation

variable {sha256 : Bytes → Digest} {statement : PaymentStatement} {witness : PrivateWitness} {policy : Policy}

theorem checkLimit_ok_iff {limit : UInt64} {result : Unit} :
    checkLimit witness limit = .ok result ↔ witness.amount.value ≤ limit ∧
      witness.amountBits = decomposeAmount witness.amount.value ∧
        witness.differenceBits = decomposeAmount (limit - witness.amount.value) := by
  simp only [checkLimit, Outcome.bind_ok_iff, Outcome.reject_ok_iff, exists_const, UInt64.not_lt, not_or, not_not,
    gt_iff_lt]

/-- Everything that a passing payment was checked for. -/
theorem validate_ok_iff {result : Unit} :
    validate sha256 statement witness policy = .ok result ↔
      policy.validate = .ok () ∧ policyId sha256 policy = .ok statement.policyId ∧
        witness.amount = statement.amount ∧ (∀ limit ∈ policy.limits, checkLimit witness limit = .ok ()) ∧
          ∃ policyWitness, witness.toPolicyWitness policy = .ok policyWitness ∧
            policy.Authorizes sha256 policyWitness ∧ ∃ compiled : CompiledPolicy FieldElement,
              compileWithLayout policy = .ok compiled ∧
                compiled.referenceEvaluate sha256 policy policyWitness = .ok true := by
  simp only [validate, Outcome.bind_ok_iff, Outcome.mapError_ok_iff, Outcome.reject_ok_iff, exists_const, not_not,
    Policy.policyId_ok_iff, Outcome.forM_ok_iff, Bool.not_eq_false]
  constructor
  · rintro ⟨_, valid, id, named, rfl, _, _, amounts, caps, policyWitness, paired, result, evaluated, authorized,
      compiled, compiles, _, agrees, rfl⟩
    exact ⟨valid, named, amounts, caps, policyWitness, paired, ⟨result, evaluated, authorized⟩, compiled, compiles,
      agrees⟩
  · rintro ⟨valid, named, amounts, caps, policyWitness, paired, ⟨result, evaluated, authorized⟩, compiled, compiles,
      agrees⟩
    exact ⟨(), valid, _, named, rfl, (), (PrivateWitness.toPolicyWitness_ok_iff.mp paired).1, amounts, caps,
      policyWitness, paired, result, evaluated, authorized, compiled, compiles, true, agrees, rfl⟩

/-- Digits relative to one limit pass the check of another exactly when the
amount is below it and the limits are the same. -/
theorem checkLimit_new_ok_iff {secrets : List Bytes} {amount : Amount} {chosen limit : UInt64} :
    checkLimit (PrivateWitness.new secrets amount chosen) limit = .ok () ↔
      amount.value ≤ limit ∧ limit = chosen := by
  rw [checkLimit_ok_iff]
  refine and_congr_right fun _ => ?_
  constructor
  · rintro ⟨-, differences⟩
    exact (UInt64.sub_left_inj _).mp (decomposeAmount_injective differences).symm
  · rintro rfl
    exact ⟨rfl, rfl⟩

/-- The relation accepts exactly the payments that the policy authorizes when an
authorized payment meets every cap of the policy and the caps are all the one
that the witness was built for. -/
theorem validate_agrees_iff {secrets : List Bytes} {limit : UInt64} {policyWitness : PolicyWitness}
    {compiled : CompiledPolicy FieldElement} (valid : policy.validate = .ok ())
    (named : policyId sha256 policy = .ok statement.policyId)
    (paired : (PrivateWitness.new secrets statement.amount limit).toPolicyWitness policy = .ok policyWitness)
    (compiles : compileWithLayout policy = .ok compiled)
    (apart : NoCongruence (digestsInPlay sha256 policy policyWitness)) :
    (validate sha256 statement (.new secrets statement.amount limit) policy = .ok () ↔
        policy.Authorizes sha256 policyWitness) ↔
      (policy.Authorizes sha256 policyWitness →
        ∀ cap ∈ policy.limits, statement.amount.value ≤ cap ∧ cap = limit) := by
  have accepted : validate sha256 statement (.new secrets statement.amount limit) policy = .ok () ↔
      (∀ cap ∈ policy.limits, statement.amount.value ≤ cap ∧ cap = limit) ∧
        policy.Authorizes sha256 policyWitness := by
    simp only [validate_ok_iff, checkLimit_new_ok_iff]
    constructor
    · rintro ⟨-, -, -, caps, other, paired', authorized, -⟩
      cases paired.symm.trans paired'
      exact ⟨caps, authorized⟩
    · rintro ⟨caps, result, evaluated, authorized⟩
      have matched := PrivateWitness.toPolicyWitness_matches paired
      obtain ⟨result', evaluated', decided⟩ := @Policy.evaluate_eq sha256 _ _ matched
      cases evaluated.symm.trans evaluated'
      have agrees := @CompiledPolicy.referenceEvaluate_eq sha256 _ _ _ compiles (PolicyWitness.covers_of_matched matched)
      rw [Policy.eval_leafMatched matched apart, ← decided, authorized] at agrees
      exact ⟨valid, named, rfl, caps, policyWitness, paired, ⟨result, evaluated, authorized⟩, compiled, compiles,
        agrees⟩
  rw [accepted, and_iff_right_iff_imp]

/-- A payment of three by a credential holder meets the only cap. -/
theorem validate_agrees_iff_credential :
    ∃ policyId, Policy.Authorizes PaymentAuth.sha256 (.and [.credential (credentialOf [7]), .amountAtMost ⟨5⟩])
        ⟨[(credentialOf [7], [7])], some ⟨3⟩⟩ ∧
      validate PaymentAuth.sha256 { filledStatement 3 with policyId := policyId } (.new [[7]] ⟨3, .cents⟩ 5)
        (.and [.credential (credentialOf [7]), .amountAtMost ⟨5⟩]) = .ok () := by
  let policy : Policy := .and [.credential (credentialOf [7]), .amountAtMost ⟨5⟩]
  let witness : PolicyWitness := ⟨[(credentialOf [7], [7])], some ⟨3⟩⟩
  have accepted : policy.validate = .ok () := by decide +kernel
  have authorized : AuthorizationResult.authorized <$> policy.evaluate PaymentAuth.sha256 witness = .ok true := by
    decide +kernel
  have authorizes : policy.Authorizes PaymentAuth.sha256 witness := Outcome.map_ok_iff.mp authorized
  obtain ⟨compiled, compiles⟩ := @compileWithLayout_succeeds policy (by decide +kernel)
  obtain ⟨policyId, named⟩ : ∃ policyId, PaymentAuth.policyId PaymentAuth.sha256 policy = .ok policyId :=
    ⟨_, policyId_ok_iff.mpr ⟨by decide +kernel, rfl⟩⟩
  have paired : (PrivateWitness.new [[7]] ⟨3, .cents⟩ 5).toPolicyWitness policy = .ok witness :=
    PrivateWitness.toPolicyWitness_ok_iff.mpr ⟨by decide +kernel, rfl⟩
  have apart : NoCongruence (digestsInPlay PaymentAuth.sha256 policy witness) := by
    intro left first right second _
    have single : ∀ digest ∈ digestsInPlay PaymentAuth.sha256 policy witness,
        digest = credentialCommitment PaymentAuth.sha256 [7] := by decide +kernel
    rw [single left first, single right second]
  have capped : ∀ cap ∈ policy.limits, (3 : UInt64) ≤ cap ∧ cap = 5 := by
    intro cap listed
    obtain rfl := List.mem_singleton.mp listed
    exact ⟨by decide, rfl⟩
  have agrees := (@validate_agrees_iff PaymentAuth.sha256 { filledStatement 3 with policyId := policyId } policy [[7]] 5
    witness compiled accepted named paired compiles apart).mpr fun _ => capped
  exact ⟨policyId, authorizes, agrees.mpr authorizes⟩

/-- A payment of seven is authorized by the second of two alternative caps and
rejected for the first. -/
theorem validate_rejects_alternative :
    ∃ (compiled : CompiledPolicy FieldElement) (policyId : PolicyId),
      compileWithLayout (.or [.amountAtMost ⟨5⟩, .amountAtMost ⟨10⟩]) = .ok compiled ∧
        Policy.validate (.or [.amountAtMost ⟨5⟩, .amountAtMost ⟨10⟩]) = .ok () ∧
        PaymentAuth.policyId PaymentAuth.sha256 (.or [.amountAtMost ⟨5⟩, .amountAtMost ⟨10⟩]) = .ok policyId ∧
        (PrivateWitness.new [] ⟨7, .cents⟩ 10).toPolicyWitness (.or [.amountAtMost ⟨5⟩, .amountAtMost ⟨10⟩]) =
          .ok ⟨[], some ⟨7⟩⟩ ∧
        NoCongruence (digestsInPlay PaymentAuth.sha256 (.or [.amountAtMost ⟨5⟩, .amountAtMost ⟨10⟩]) ⟨[], some ⟨7⟩⟩) ∧
        Policy.Authorizes PaymentAuth.sha256 (.or [.amountAtMost ⟨5⟩, .amountAtMost ⟨10⟩]) ⟨[], some ⟨7⟩⟩ ∧
        validate PaymentAuth.sha256 { filledStatement 7 with policyId := policyId } (.new [] ⟨7, .cents⟩ 10)
          (.or [.amountAtMost ⟨5⟩, .amountAtMost ⟨10⟩]) = .error .amountExceedsLimit := by
  obtain ⟨compiled, compiles⟩ :=
    @compileWithLayout_succeeds (.or [.amountAtMost ⟨5⟩, .amountAtMost ⟨10⟩]) (by decide)
  obtain ⟨policyId, named⟩ : ∃ policyId, PaymentAuth.policyId PaymentAuth.sha256
      (.or [.amountAtMost ⟨5⟩, .amountAtMost ⟨10⟩]) = .ok policyId := ⟨_, policyId_ok_iff.mpr ⟨by decide, rfl⟩⟩
  refine ⟨compiled, policyId, compiles, by decide, named, rfl, ?_, ⟨_, rfl, by decide⟩, ?_⟩
  · intro left inside
    cases inside
  · have accepted : Policy.validate (.or [.amountAtMost ⟨5⟩, .amountAtMost ⟨10⟩]) = .ok () := by decide
    simp only [validate, accepted, Policy.policyId_ok_iff.mpr named, Outcome.mapError_ok, Outcome.ok_bind,
      Outcome.reject_of_not (not_not.mpr rfl)]
    rfl

end AuthorizationRelation

end PaymentAuth
