import PaymentAuth.Policy.Ast
import PaymentAuth.Library.Outcome

namespace PaymentAuth

open Library

/-- A prover's secret inputs for a policy. -/
structure PolicyWitness where
  credentialSecrets : List (CredentialId × Bytes)
  amount : Option AmountLimit

/-- Outcome of evaluating a single policy node. -/
inductive NodeOutcome where
  | amount (limit : AmountLimit) (satisfied : Bool)
  | credential (id : CredentialId) (satisfied : Bool)
  | threshold (k : ThresholdK) (satisfied : Bool) (members : List NodeOutcome)
  | and (satisfied : Bool) (members : List NodeOutcome)
  | or (satisfied : Bool) (members : List NodeOutcome)

def NodeOutcome.isSatisfied : NodeOutcome → Bool
  | .amount _ satisfied | .credential _ satisfied | .threshold _ satisfied _ | .and satisfied _
  | .or satisfied _ => satisfied

/-- The result of evaluating a whole policy. -/
structure AuthorizationResult where
  authorized : Bool
  root : NodeOutcome

namespace Policy

mutual

/-- The credential ids of a policy and whether it has an amount cap. -/
def collectRequirements : Policy → List CredentialId × Bool
  | .amountAtMost _ => ([], true)
  | .credential id => ([id], false)
  | .threshold _ members | .and members | .or members => collectMembers members

def collectMembers : List Policy → List CredentialId × Bool
  | [] => ([], false)
  | member :: rest =>
    let (ids, needsAmount) := collectRequirements member
    let (ids', needsAmount') := collectMembers rest
    (ids ++ ids', needsAmount || needsAmount')

end

end Policy

namespace PolicyWitness

/-- Checks that every credential leaf has a secret and any amount cap an amount. -/
def validateAgainst (witness : PolicyWitness) (policy : Policy) : Outcome PolicyError Unit := do
  let (ids, needsAmount) := policy.collectRequirements
  forM ids fun id =>
    Outcome.reject ((witness.credentialSecrets.any fun entry => entry.1 == id) = false) .witnessMismatch
  Outcome.reject (needsAmount = true ∧ witness.amount.isNone = true) .witnessMismatch

/-- Looks up the secret bound to an id. -/
def secretFor (witness : PolicyWitness) (id : CredentialId) : Option Bytes :=
  (witness.credentialSecrets.find? fun entry => entry.1 == id).map fun entry => entry.2

end PolicyWitness

namespace Policy

variable (sha256 : Bytes → Digest) (witness : PolicyWitness)

mutual

def evalNode : Policy → NodeOutcome
  | .amountAtMost limit =>
    let satisfied := match witness.amount with
      | some amount => decide (amount.value ≤ limit.value)
      | none => false
    .amount limit satisfied
  | .credential id =>
    let satisfied := match witness.secretFor id with
      | some secret => (credentialCommitment sha256 secret).bytes == id.bytes
      | none => false
    .credential id satisfied
  | .threshold k members =>
    let outcomes := evalMembers members
    .threshold k (decide (k.get.toNat ≤ outcomes.countP NodeOutcome.isSatisfied)) outcomes
  | .and members =>
    let outcomes := evalMembers members
    .and (outcomes.all NodeOutcome.isSatisfied) outcomes
  | .or members =>
    let outcomes := evalMembers members
    .or (outcomes.any NodeOutcome.isSatisfied) outcomes

def evalMembers : List Policy → List NodeOutcome
  | [] => []
  | member :: rest => evalNode member :: evalMembers rest

end

/-- Evaluates a policy against a witness, in the clear. -/
def evaluate (policy : Policy) : Outcome PolicyError AuthorizationResult := do
  witness.validateAgainst policy
  let root := policy.evalNode sha256 witness
  .ok ⟨root.isSatisfied, root⟩

/-- Whether a witness satisfies a leaf. -/
def leafSatisfied : PolicyLeaf → Bool
  | .amountAtMost limit => witness.amount.any fun amount => amount.value ≤ limit.value
  | .credential id => (witness.secretFor id).any fun secret => credentialCommitment sha256 secret == id.toDigest

theorem evalMembers_eq_map (members : List Policy) :
    evalMembers sha256 witness members = members.map (evalNode sha256 witness) := by
  induction members with
  | nil => rfl
  | cons member rest ih => rw [evalMembers, ih, List.map_cons]

/-- The evaluator decides the formula of the policy over its satisfied leaves. -/
theorem evalNode_isSatisfied (policy : Policy) :
    (policy.evalNode sha256 witness).isSatisfied = policy.formula.eval (leafSatisfied sha256 witness) := by
  have each (members : List Policy)
      (ih : ∀ member ∈ members, (member.evalNode sha256 witness).isSatisfied =
        member.formula.eval (leafSatisfied sha256 witness)) :
      (evalMembers sha256 witness members).map NodeOutcome.isSatisfied =
        (members.map formula).map (Formula.eval (leafSatisfied sha256 witness)) := by
    rw [evalMembers_eq_map, List.map_map, List.map_map]
    exact List.map_congr_left ih
  induction policy with
  | amountAtMost limit =>
    cases given : witness.amount <;> simp [evalNode, NodeOutcome.isSatisfied, leafSatisfied, given]
  | credential id =>
    cases given : witness.secretFor id with
    | none => simp [evalNode, NodeOutcome.isSatisfied, leafSatisfied, given]
    | some secret =>
      simp only [evalNode, NodeOutcome.isSatisfied, given, formula_credential, Formula.eval_leaf, leafSatisfied,
        Option.any_some]
      rw [Bool.eq_iff_iff, beq_iff_eq, beq_iff_eq, Digest.ext_iff]
      rfl
  | threshold k members ih =>
    have counts := congrArg (List.countP id) (each members ih)
    rw [List.countP_map, List.countP_map] at counts
    rw [formula_threshold, Formula.eval_atLeast]
    exact congrArg (fun count => decide (k.get.toNat ≤ count)) counts
  | and members ih =>
    have conjunction := congrArg (List.all · id) (each members ih)
    rw [List.all_map, List.all_map] at conjunction
    rw [formula_and, Formula.eval_all]
    exact conjunction
  | or members ih =>
    have disjunction := congrArg (List.any · id) (each members ih)
    rw [List.any_map, List.any_map] at disjunction
    rw [formula_or, Formula.eval_any]
    exact disjunction

/-- The requirements of a policy are those of its leaves. -/
theorem collectRequirements_iff (policy : Policy) :
    (∀ id, id ∈ policy.collectRequirements.1 ↔ .credential id ∈ policy.formula.leaves) ∧
      (policy.collectRequirements.2 = true ↔ ∃ limit, .amountAtMost limit ∈ policy.formula.leaves) := by
  have combine (members : List Policy)
      (ih : ∀ member ∈ members,
        (∀ id, id ∈ member.collectRequirements.1 ↔ .credential id ∈ member.formula.leaves) ∧
          (member.collectRequirements.2 = true ↔ ∃ limit, .amountAtMost limit ∈ member.formula.leaves)) :
      (∀ id, id ∈ (collectMembers members).1 ↔
        .credential id ∈ (members.map formula).flatMap Formula.leaves) ∧
        ((collectMembers members).2 = true ↔
          ∃ limit, .amountAtMost limit ∈ (members.map formula).flatMap Formula.leaves) := by
    induction members with
    | nil => simp [collectMembers]
    | cons member rest step =>
      obtain ⟨first, first'⟩ := ih member List.mem_cons_self
      obtain ⟨others, others'⟩ := step fun other inside => ih other (List.mem_cons_of_mem _ inside)
      simp only [collectMembers, List.mem_append, first, others, Bool.or_eq_true, first', others',
        List.map_cons, List.flatMap_cons, exists_or, implies_true, and_self]
  induction policy with
  | amountAtMost limit => simp [collectRequirements]
  | credential id => simp [collectRequirements]
  | threshold k members ih =>
    simpa only [collectRequirements, formula_threshold, Formula.leaves_atLeast] using combine members ih
  | and members ih => simpa only [collectRequirements, formula_and, Formula.leaves_all] using combine members ih
  | or members ih => simpa only [collectRequirements, formula_or, Formula.leaves_any] using combine members ih

end Policy

/-- A witness matches a policy exactly when it covers every leaf. -/
theorem PolicyWitness.validateAgainst_ok_iff {witness : PolicyWitness} {policy : Policy} {result : Unit} :
    witness.validateAgainst policy = .ok result ↔
      (∀ id, .credential id ∈ policy.formula.leaves → ∃ secret, witness.secretFor id = some secret) ∧
        ∀ limit, .amountAtMost limit ∈ policy.formula.leaves → ∃ amount, witness.amount = some amount := by
  obtain ⟨ids, amounts⟩ := policy.collectRequirements_iff
  have found (id : CredentialId) :
      (witness.credentialSecrets.any fun entry => entry.1 == id) = true ↔
        ∃ secret, witness.secretFor id = some secret := by
    rw [secretFor, ← Option.isSome_iff_exists, Option.isSome_map, List.isSome_find?]
  simp only [validateAgainst, Outcome.bind_ok_iff, Outcome.forM_ok_iff, Outcome.reject_ok_iff, exists_const,
    Bool.not_eq_false, found, ids, not_and, amounts, forall_exists_index, Option.isNone_iff_eq_none,
    ← ne_eq, Option.ne_none_iff_exists']

end PaymentAuth
