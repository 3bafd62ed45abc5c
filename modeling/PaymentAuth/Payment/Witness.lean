import PaymentAuth.Payment.Types
import PaymentAuth.Policy.Inputs

namespace PaymentAuth

open Library

/-- Upper bound on a single credential secret's length. -/
def maxCredentialSecretLen : ℕ := 4096

/-- The binary digits a range check consumes. -/
abbrev AmountDigits := { digits : List Bool // digits.length = amountBitLen }

/-- The digits of an amount, least significant first. -/
def decomposeAmount (value : UInt64) : AmountDigits := ⟨decompose value, by simp [decompose]⟩

/-- Secret inputs for an authorization attempt; the secrets follow the policy's
credential leaves in depth-first order. -/
structure PrivateWitness where
  credentialSecrets : List Bytes
  amount : Amount
  amountBits : AmountDigits
  differenceBits : AmountDigits

/-- Builds a witness with honest digits relative to a limit. -/
def PrivateWitness.new (credentials : List Bytes) (amount : Amount) (limit : UInt64) : PrivateWitness where
  credentialSecrets := credentials
  amount := amount
  amountBits := decomposeAmount amount.value
  differenceBits := decomposeAmount (limit - amount.value)

namespace Policy

mutual

/-- The credential ids of a policy in depth-first order. -/
def policyCredentialIds : Policy → List CredentialId
  | .credential id => [id]
  | .amountAtMost _ => []
  | .threshold _ members | .and members | .or members => memberCredentialIds members

def memberCredentialIds : List Policy → List CredentialId
  | [] => []
  | member :: rest => policyCredentialIds member ++ memberCredentialIds rest

end

mutual

/-- The amount limits of a policy in depth-first order. -/
def limits : Policy → List UInt64
  | .amountAtMost limit => [limit.value]
  | .credential _ => []
  | .threshold _ members | .and members | .or members => memberLimits members

def memberLimits : List Policy → List UInt64
  | [] => []
  | member :: rest => limits member ++ memberLimits rest

end

end Policy

def PolicyLeaf.credential? : PolicyLeaf → Option CredentialId
  | .credential id => some id
  | .amountAtMost _ => none

def PolicyLeaf.limit? : PolicyLeaf → Option UInt64
  | .amountAtMost limit => some limit.value
  | .credential _ => none

namespace PrivateWitness

/-- Checks the witness against the policy's shape. -/
def validate (witness : PrivateWitness) (policy : Policy) : Outcome PaymentError Unit := do
  let required := policy.policyCredentialIds.length
  Outcome.reject (witness.credentialSecrets.length ≠ required) .witnessCountMismatch
  forM witness.credentialSecrets fun secret =>
    Outcome.reject (secret.length = 0 ∨ secret.length > maxCredentialSecretLen) .malformedCredentialSecret

/-- Pairs the secrets with the policy's credential ids, in order. -/
def toPolicyWitness (witness : PrivateWitness) (policy : Policy) : Outcome PaymentError PolicyWitness := do
  witness.validate policy
  .ok ⟨policy.policyCredentialIds.zip witness.credentialSecrets, some ⟨witness.amount.value⟩⟩

end PrivateWitness

namespace Policy

private theorem memberCredentialIds_eq_flatMap (members : List Policy) :
    memberCredentialIds members = members.flatMap policyCredentialIds := by
  induction members with
  | nil => rfl
  | cons member rest ih => rw [memberCredentialIds, ih, List.flatMap_cons]

private theorem memberLimits_eq_flatMap (members : List Policy) :
    memberLimits members = members.flatMap limits := by
  induction members with
  | nil => rfl
  | cons member rest ih => rw [memberLimits, ih, List.flatMap_cons]

/-- The collected ids are those of the credential leaves, in order. -/
theorem policyCredentialIds_eq (policy : Policy) :
    policy.policyCredentialIds = policy.formula.leaves.filterMap PolicyLeaf.credential? := by
  induction policy with
  | amountAtMost limit => rfl
  | credential id => rfl
  | threshold k members ih | and members ih | or members ih =>
    rw [policyCredentialIds, memberCredentialIds_eq_flatMap, List.flatMap_congr ih]
    simp [Formula.leaves, List.filterMap_flatMap, List.flatMap_map]

theorem limits_eq (policy : Policy) : policy.limits = policy.formula.leaves.filterMap PolicyLeaf.limit? := by
  induction policy with
  | amountAtMost limit => rfl
  | credential id => rfl
  | threshold k members ih | and members ih | or members ih =>
    rw [limits, memberLimits_eq_flatMap, List.flatMap_congr ih]
    simp [Formula.leaves, List.filterMap_flatMap, List.flatMap_map]

theorem mem_policyCredentialIds {policy : Policy} {id : CredentialId} :
    id ∈ policy.policyCredentialIds ↔ .credential id ∈ policy.formula.leaves := by
  rw [policyCredentialIds_eq, List.mem_filterMap]
  constructor
  · rintro ⟨leaf, inside, found⟩
    cases leaf with
    | amountAtMost limit => cases found
    | credential id' =>
      cases found
      exact inside
  · intro inside
    exact ⟨_, inside, rfl⟩

theorem mem_limits {policy : Policy} {limit : UInt64} :
    limit ∈ policy.limits ↔ .amountAtMost ⟨limit⟩ ∈ policy.formula.leaves := by
  rw [limits_eq, List.mem_filterMap]
  constructor
  · rintro ⟨leaf, inside, found⟩
    cases leaf with
    | amountAtMost limit' =>
      cases found
      exact inside
    | credential id => cases found
  · intro inside
    exact ⟨_, inside, rfl⟩

end Policy

end PaymentAuth
