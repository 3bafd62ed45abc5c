import PaymentAuth.Crypto.Sha256
import PaymentAuth.Library.Formula

namespace PaymentAuth

open Library

inductive PolicyError where
  | invalidThreshold
  | thresholdExceedsCount
  | duplicateCredential
  | invalidCredentialId
  | emptyPolicy
  | maxDepthExceeded
  | maxNodesExceeded
  | maxArityExceeded
  | maxCredentialsExceeded
  | maxCombinatorChildrenExceeded
  | encodedSizeExceeded
  | unknownVersion
  | malformedEncoding
  | trailingBytes
  | witnessMismatch
  | compilationFailure
  | circuitValidationFailure
deriving DecidableEq, Repr

def credentialIdLen : ℕ := 32

/-- Domain separator for credential commitments. -/
def credentialCommitmentDomain : Bytes := ascii "private-payment-auth/credential/v2"

/-- A credential identifier: the expected commitment digest. -/
structure CredentialId where
  bytes : Bytes
  size : bytes.length = credentialIdLen
deriving DecidableEq

namespace CredentialId

/-- The id with one byte repeated. -/
def filled (byte : UInt8) : CredentialId := ⟨List.replicate credentialIdLen byte, List.length_replicate⟩

/-- Whether every byte is zero. -/
def isZero (id : CredentialId) : Bool := id.bytes == List.replicate credentialIdLen 0

/-- The id read as a digest. -/
def toDigest (id : CredentialId) : Digest := ⟨id.bytes, id.size⟩

/-- The id that a digest is read as. -/
def ofDigest (digest : Digest) : CredentialId := ⟨digest.bytes, digest.size⟩

end CredentialId

/-- A spending limit in base units. -/
structure AmountLimit where
  value : UInt64
deriving DecidableEq

/-- A threshold arity. -/
structure ThresholdK where
  get : UInt16
deriving DecidableEq

/-- A declarative payment authorization policy. -/
inductive Policy where
  | amountAtMost (limit : AmountLimit)
  | credential (id : CredentialId)
  | threshold (k : ThresholdK) (members : List Policy)
  | and (members : List Policy)
  | or (members : List Policy)

/-- The commitment that a credential secret must open. -/
def credentialCommitment (sha256 : Bytes → Digest) (secret : Bytes) : Digest :=
  (sha256Backend sha256).hashDomain credentialCommitmentDomain secret

/-- The credential that a secret opens. -/
def credentialOf (secret : Bytes) : CredentialId := .ofDigest (credentialCommitment PaymentAuth.sha256 secret)

/-- The leaves of policies. -/
inductive PolicyLeaf where
  | amountAtMost (limit : AmountLimit)
  | credential (id : CredentialId)
deriving DecidableEq

namespace Policy

/-- Induction with one hypothesis for every member of a combinator. -/
@[elab_as_elim, induction_eliminator]
theorem induction {motive : Policy → Prop} (amountAtMost : ∀ limit, motive (.amountAtMost limit))
    (credential : ∀ id, motive (.credential id))
    (threshold : ∀ k members, (∀ member ∈ members, motive member) → motive (.threshold k members))
    (and : ∀ members, (∀ member ∈ members, motive member) → motive (.and members))
    (or : ∀ members, (∀ member ∈ members, motive member) → motive (.or members))
    (policy : Policy) : motive policy :=
  @Policy.rec motive (fun members => ∀ member ∈ members, motive member)
    amountAtMost credential threshold and or (by simp)
    (fun _ _ first others => by simpa using ⟨first, others⟩) policy

mutual

/-- What a policy says: the monotone formula over its leaves. -/
def formula : Policy → Formula PolicyLeaf Unit
  | .amountAtMost limit => .leaf (.amountAtMost limit)
  | .credential id => .leaf (.credential id)
  | .threshold k members => .atLeast k.get.toNat () (memberFormulas members)
  | .and members => .all (memberFormulas members)
  | .or members => .any (memberFormulas members)

def memberFormulas : List Policy → List (Formula PolicyLeaf Unit)
  | [] => []
  | member :: rest => formula member :: memberFormulas rest

end

@[simp] theorem memberFormulas_eq_map (members : List Policy) :
    memberFormulas members = members.map formula := by
  induction members with
  | nil => rfl
  | cons member rest ih => rw [memberFormulas, ih, List.map_cons]

@[simp] theorem formula_amountAtMost (limit : AmountLimit) :
    (amountAtMost limit).formula = .leaf (.amountAtMost limit) := rfl

@[simp] theorem formula_credential (id : CredentialId) :
    (credential id).formula = .leaf (.credential id) := rfl

@[simp] theorem formula_threshold (k : ThresholdK) (members : List Policy) :
    (threshold k members).formula = .atLeast k.get.toNat () (members.map formula) := by
  rw [formula, memberFormulas_eq_map]

@[simp] theorem formula_and (members : List Policy) : (and members).formula = .all (members.map formula) := by
  rw [formula, memberFormulas_eq_map]

@[simp] theorem formula_or (members : List Policy) : (or members).formula = .any (members.map formula) := by
  rw [formula, memberFormulas_eq_map]

end Policy

end PaymentAuth
