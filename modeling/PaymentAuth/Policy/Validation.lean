import PaymentAuth.Library.Emission
import PaymentAuth.Policy.Encoding

namespace PaymentAuth

open Library

def maxPolicyDepth : ℕ := 100

def maxPolicyNodes : ℕ := 10000

def maxThresholdArity : ℕ := 1000

def maxCredentialCount : ℕ := 1000

def maxCombinatorChildren : ℕ := 1000

def maxThresholdMembers : ℕ := 1000

def maxEncodedSize : ℕ := 1048576

namespace Policy

/-- The counters of a validation walk. -/
structure Context where
  depth : ℕ
  nodes : ℕ
  credentials : ℕ

abbrev Walk := Emission Context PolicyError Unit

/-- Checks the depth and counts the node. -/
def enterNode : Walk := do
  let ctx ← get
  Emission.reject (ctx.depth > maxPolicyDepth) .maxDepthExceeded
  set { ctx with nodes := ctx.nodes + 1 }
  Emission.reject (ctx.nodes + 1 > maxPolicyNodes) .maxNodesExceeded

/-- Counts a credential leaf. -/
def enterCredential (id : CredentialId) : Walk := do
  Emission.reject (id.isZero = true) .invalidCredentialId
  let ctx ← get
  set { ctx with credentials := ctx.credentials + 1 }
  Emission.reject (ctx.credentials + 1 > maxCredentialCount) .maxCredentialsExceeded

/-- Rejects duplicate credential ids among the immediate members. -/
def checkDistinctCredentials : List CredentialId → List Policy → Outcome PolicyError Unit
  | _, [] => .ok ()
  | seen, .credential id :: rest => do
    Outcome.reject (id ∈ seen) .duplicateCredential
    checkDistinctCredentials (seen ++ [id]) rest
  | seen, _ :: rest => checkDistinctCredentials seen rest

/-- The checks of a threshold on its arity and its immediate members. -/
def checkThreshold (k : ThresholdK) (members : List Policy) : Walk := do
  Emission.reject (k.get.toNat = 0) .invalidThreshold
  Emission.reject (k.get.toNat > maxThresholdArity) .maxArityExceeded
  Emission.reject (members.isEmpty = true) .emptyPolicy
  Emission.reject (members.length > maxThresholdMembers) .maxCombinatorChildrenExceeded
  Emission.reject (k.get.toNat > members.length) .thresholdExceedsCount
  liftM (checkDistinctCredentials [] members)

/-- The checks of `And` and `Or` on their immediate members. -/
def checkCombinator (members : List Policy) : Walk := do
  Emission.reject (members.isEmpty = true) .emptyPolicy
  Emission.reject (members.length > maxCombinatorChildren) .maxCombinatorChildrenExceeded

mutual

def validateImpl : Policy → Walk
  | .amountAtMost _ => enterNode
  | .credential id => do
    enterNode
    enterCredential id
  | .threshold k members => do
    enterNode
    checkThreshold k members
    validateMembers members
  | .and members => do
    enterNode
    checkCombinator members
    validateMembers members
  | .or members => do
    enterNode
    checkCombinator members
    validateMembers members

def validateMembers : List Policy → Walk
  | [] => pure ()
  | member :: rest => do
    modify fun ctx => { ctx with depth := ctx.depth + 1 }
    validateImpl member
    modify fun ctx => { ctx with depth := ctx.depth - 1 }
    validateMembers rest

end

/-- Validates a policy against all structural and resource rules. -/
def validate (policy : Policy) : Outcome PolicyError Unit := do
  let _ ← policy.validateImpl ⟨0, 0, 0⟩
  .ok ()

/-- The structural rules on one node of a policy. -/
def NodeValid : Formula PolicyLeaf Unit → Prop
  | .leaf (.amountAtMost _) => True
  | .leaf (.credential id) => id.isZero = false
  | .atLeast k _ members => 1 ≤ k ∧ k ≤ members.length ∧ members.length ≤ maxThresholdMembers
  | .all members | .any members => members ≠ [] ∧ members.length ≤ maxCombinatorChildren

/-- What compilation needs of a validated policy: few nodes, each of them well-formed. -/
structure Valid (policy : Policy) : Prop where
  nodes : policy.formula.subformulas.length ≤ maxPolicyNodes
  each : ∀ node ∈ policy.formula.subformulas, NodeValid node

/-- The credential that a node is. -/
def directCredential? : Formula PolicyLeaf Unit → Option CredentialId
  | .leaf (.credential id) => some id
  | _ => none

/-- Whether the immediate credentials of a threshold differ. -/
def DistinctCredentials : Formula PolicyLeaf Unit → Prop
  | .atLeast _ _ members => (members.filterMap directCredential?).Nodup
  | .leaf _ | .all _ | .any _ => True

/-- All rules on one node of a policy. -/
def NodeAdmitted (node : Formula PolicyLeaf Unit) : Prop := NodeValid node ∧ DistinctCredentials node

def isCredential (node : Formula PolicyLeaf Unit) : Bool := (directCredential? node).isSome

/-- What a walk over nodes does: it counts them within the limits and admits each. -/
structure Passed (walked : List (Formula PolicyLeaf Unit)) (ctx final : Context) : Prop where
  depth : final.depth = ctx.depth
  nodes : final.nodes = ctx.nodes + walked.length
  credentials : final.credentials = ctx.credentials + walked.countP isCredential
  fewNodes : final.nodes ≤ maxPolicyNodes
  fewCredentials : final.credentials ≤ maxCredentialCount
  each : ∀ node ∈ walked, NodeAdmitted node

theorem passed_append {left right : List (Formula PolicyLeaf Unit)} {ctx final : Context} :
    Passed (left ++ right) ctx final ↔ ∃ middle, Passed left ctx middle ∧ Passed right middle final := by
  constructor
  · intro passed
    obtain ⟨depth, nodes, credentials, fewNodes, fewCredentials, each⟩ := passed
    rw [List.length_append] at nodes
    rw [List.countP_append] at credentials
    refine ⟨⟨ctx.depth, ctx.nodes + left.length, ctx.credentials + left.countP isCredential⟩,
      ⟨rfl, rfl, rfl, by dsimp only; omega, by dsimp only; omega, ?_⟩,
      ⟨depth, by dsimp only; omega, by dsimp only; omega, fewNodes, fewCredentials, ?_⟩⟩
    · exact fun node inside => each node (List.mem_append_left _ inside)
    · exact fun node inside => each node (List.mem_append_right _ inside)
  · rintro ⟨middle, first, second⟩
    have nodes := first.nodes
    have credentials := first.credentials
    have nodes' := second.nodes
    have credentials' := second.credentials
    refine ⟨second.depth.trans first.depth, by rw [List.length_append]; omega, by rw [List.countP_append]; omega,
      second.fewNodes, second.fewCredentials, fun node inside => ?_⟩
    rcases List.mem_append.mp inside with here | later
    · exact first.each node here
    · exact second.each node later

theorem enterNode_ok_iff {ctx final : Context} {result : Unit} :
    enterNode ctx = .ok (result, final) ↔
      ctx.depth ≤ maxPolicyDepth ∧ ctx.nodes + 1 ≤ maxPolicyNodes ∧ { ctx with nodes := ctx.nodes + 1 } = final := by
  unfold enterNode
  simp only [Emission.bind_ok_iff, Emission.get_ok_iff, Emission.set_ok_iff, Emission.reject_ok_iff, not_lt, gt_iff_lt]
  constructor
  · rintro ⟨_, _, ⟨rfl, rfl⟩, _, _, ⟨depth, rfl⟩, _, _, rfl, nodes, rfl⟩
    exact ⟨depth, nodes, rfl⟩
  · rintro ⟨depth, nodes, rfl⟩
    exact ⟨ctx, ctx, ⟨rfl, rfl⟩, (), ctx, ⟨depth, rfl⟩, (), _, rfl, nodes, rfl⟩

theorem enterCredential_ok_iff {id : CredentialId} {ctx final : Context} {result : Unit} :
    enterCredential id ctx = .ok (result, final) ↔
      id.isZero = false ∧ ctx.credentials + 1 ≤ maxCredentialCount ∧
        { ctx with credentials := ctx.credentials + 1 } = final := by
  unfold enterCredential
  simp only [Emission.bind_ok_iff, Emission.get_ok_iff, Emission.set_ok_iff, Emission.reject_ok_iff, not_lt, gt_iff_lt,
    Bool.not_eq_true]
  constructor
  · rintro ⟨_, _, ⟨nonzero, rfl⟩, _, _, ⟨rfl, rfl⟩, _, _, rfl, count, rfl⟩
    exact ⟨nonzero, count, rfl⟩
  · rintro ⟨nonzero, count, rfl⟩
    exact ⟨(), ctx, ⟨nonzero, rfl⟩, ctx, ctx, ⟨rfl, rfl⟩, (), _, rfl, count, rfl⟩

theorem checkDistinctCredentials_ok_iff {seen : List CredentialId} {members : List Policy} {result : Unit}
    (distinct : seen.Nodup) :
    checkDistinctCredentials seen members = .ok result ↔
      (seen ++ (members.map formula).filterMap directCredential?).Nodup := by
  induction members generalizing seen with
  | nil => simpa [checkDistinctCredentials] using distinct
  | cons member rest ih =>
    cases member with
    | credential id =>
      rw [checkDistinctCredentials, Outcome.bind_ok_iff]
      simp only [Outcome.reject_ok_iff, exists_const, List.map_cons, formula_credential, List.filterMap_cons,
        directCredential?]
      rw [List.append_cons seen id (List.filterMap directCredential? (List.map formula rest))]
      constructor
      · rintro ⟨fresh, later⟩
        have extended : (seen ++ [id]).Nodup := by
          rw [List.nodup_append]
          refine ⟨distinct, by simp, fun left inside right single same => fresh ?_⟩
          rw [List.mem_singleton] at single
          rwa [← single, ← same]
        exact (ih extended).mp later
      · intro whole
        have extended : (seen ++ [id]).Nodup := whole.sublist (List.sublist_append_left _ _)
        refine ⟨fun inside => ?_, (ih extended).mpr whole⟩
        exact (List.nodup_append.mp extended).2.2 id inside id (List.mem_singleton_self _) rfl
    | amountAtMost limit =>
      rw [checkDistinctCredentials, ih distinct] <;> simp [directCredential?, List.filterMap_cons]
    | threshold k inner =>
      rw [checkDistinctCredentials, ih distinct] <;> simp [directCredential?, List.filterMap_cons]
    | and inner => rw [checkDistinctCredentials, ih distinct] <;> simp [directCredential?, List.filterMap_cons]
    | or inner => rw [checkDistinctCredentials, ih distinct] <;> simp [directCredential?, List.filterMap_cons]

theorem checkThreshold_ok_iff {k : ThresholdK} {members : List Policy} {ctx final : Context} {result : Unit} :
    checkThreshold k members ctx = .ok (result, final) ↔
      NodeAdmitted (threshold k members).formula ∧ ctx = final := by
  have distinct : (liftM (checkDistinctCredentials [] members) : Walk) ctx = .ok (result, final) ↔
      ((members.map formula).filterMap directCredential?).Nodup ∧ ctx = final := by
    rw [Emission.liftM_ok_iff, checkDistinctCredentials_ok_iff List.nodup_nil, List.nil_append]
  unfold checkThreshold
  simp only [Emission.bind_ok_iff, Emission.reject_ok_iff, NodeAdmitted, formula_threshold, NodeValid,
    DistinctCredentials, List.length_map, List.isEmpty_iff]
  constructor
  · rintro ⟨_, _, ⟨zero, rfl⟩, _, _, ⟨_, rfl⟩, _, _, ⟨_, rfl⟩, _, _, ⟨many, rfl⟩, _, _, ⟨exceeds, rfl⟩, checked⟩
    obtain ⟨apart, same⟩ := distinct.mp checked
    exact ⟨⟨⟨by omega, by omega, by omega⟩, apart⟩, same⟩
  · rintro ⟨⟨⟨positive, enough, few⟩, apart⟩, same⟩
    have arity : maxThresholdMembers = maxThresholdArity := rfl
    refine ⟨(), ctx, ⟨by omega, rfl⟩, (), ctx, ⟨by omega, rfl⟩, (), ctx, ⟨fun none => ?_, rfl⟩, (), ctx,
      ⟨by omega, rfl⟩, (), ctx, ⟨by omega, rfl⟩, distinct.mpr ⟨apart, same⟩⟩
    rw [none, List.length_nil] at enough
    omega

theorem checkCombinator_ok_iff {members : List Policy} {ctx final : Context} {result : Unit} :
    checkCombinator members ctx = .ok (result, final) ↔
      (members ≠ [] ∧ members.length ≤ maxCombinatorChildren) ∧ ctx = final := by
  unfold checkCombinator
  simp only [Emission.bind_ok_iff, Emission.reject_ok_iff, List.isEmpty_iff, not_lt, gt_iff_lt]
  constructor
  · rintro ⟨_, _, ⟨nonempty, rfl⟩, many, rfl⟩
    exact ⟨⟨nonempty, many⟩, rfl⟩
  · rintro ⟨⟨nonempty, many⟩, rfl⟩
    exact ⟨(), _, ⟨nonempty, rfl⟩, many, rfl⟩

/-- A walk over a policy passes its nodes exactly when none is too deep. -/
def WalksTo (policy : Policy) : Prop :=
  ∀ (ctx final : Context) (result : Unit), ctx.credentials ≤ maxCredentialCount →
    (policy.validateImpl ctx = .ok (result, final) ↔
      ctx.depth + policy.formula.height ≤ maxPolicyDepth ∧ Passed policy.formula.subformulas ctx final)

private theorem validateMembers_ok_iff {members : List Policy} (each : ∀ member ∈ members, member.WalksTo)
    {ctx final : Context} {result : Unit} (fewNodes : ctx.nodes ≤ maxPolicyNodes)
    (fewCredentials : ctx.credentials ≤ maxCredentialCount) :
    validateMembers members ctx = .ok (result, final) ↔
      (∀ member ∈ members, ctx.depth + 1 + member.formula.height ≤ maxPolicyDepth) ∧
        Passed ((members.map formula).flatMap Formula.subformulas) ctx final := by
  induction members generalizing ctx with
  | nil =>
    rw [validateMembers, Emission.pure_ok_iff]
    constructor
    · rintro ⟨-, rfl⟩
      exact ⟨by simp, rfl, rfl, rfl, fewNodes, fewCredentials, by simp⟩
    · rintro ⟨-, passed⟩
      refine ⟨rfl, ?_⟩
      cases ctx
      cases final
      simpa using And.intro passed.depth.symm ⟨passed.nodes.symm, passed.credentials.symm⟩
  | cons member rest ih =>
    have run : validateMembers (member :: rest) ctx = (do
        member.validateImpl
        modify fun ctx => { ctx with depth := ctx.depth - 1 }
        validateMembers rest : Walk) { ctx with depth := ctx.depth + 1 } := rfl
    have first := each member List.mem_cons_self
    have others := fun other inside => each other (List.mem_cons_of_mem member inside)
    rw [run, List.map_cons, List.flatMap_cons, passed_append, List.forall_mem_cons]
    simp only [Emission.bind_ok_iff, first { ctx with depth := ctx.depth + 1 } _ _ fewCredentials]
    constructor
    · rintro ⟨_, deep, ⟨shallow, passed⟩, _, middle, back, later⟩
      cases back
      obtain ⟨below, passed'⟩ := (@ih others ⟨deep.depth - 1, deep.nodes, deep.credentials⟩ passed.fewNodes
        passed.fewCredentials).mp later
      have depth : deep.depth - 1 = ctx.depth := by rw [passed.depth, Nat.add_sub_cancel]
      rw [depth] at below
      exact ⟨⟨shallow, below⟩, ⟨deep.depth - 1, deep.nodes, deep.credentials⟩, ⟨depth, passed.nodes, passed.credentials,
        passed.fewNodes, passed.fewCredentials, passed.each⟩, passed'⟩
    · rintro ⟨⟨shallow, below⟩, middle, passed, passed'⟩
      refine ⟨(), { middle with depth := ctx.depth + 1 }, ⟨shallow, rfl, passed.nodes, passed.credentials,
        passed.fewNodes, passed.fewCredentials, passed.each⟩, (), middle, ?_, ?_⟩
      · have depth := passed.depth
        cases middle
        cases depth
        rfl
      · refine (ih others passed.fewNodes passed.fewCredentials).mpr ⟨?_, passed'⟩
        rwa [passed.depth]

private theorem walksTo_combinator {check : Walk} {members : List Policy} {node : Formula PolicyLeaf Unit}
    (each : ∀ member ∈ members, member.WalksTo) (counted : isCredential node = false)
    (checked : ∀ (ctx final : Context) (result : Unit), check ctx = .ok (result, final) ↔ NodeAdmitted node ∧ ctx = final)
    {ctx final : Context} {result : Unit} (fewCredentials : ctx.credentials ≤ maxCredentialCount) :
    (do enterNode; check; validateMembers members : Walk) ctx = .ok (result, final) ↔
      (ctx.depth ≤ maxPolicyDepth ∧ ∀ member ∈ members, ctx.depth + 1 + member.formula.height ≤ maxPolicyDepth) ∧
        Passed ((members.map formula).flatMap Formula.subformulas ++ [node]) ctx final := by
  simp only [Emission.bind_ok_iff, enterNode_ok_iff, checked]
  constructor
  · rintro ⟨_, _, ⟨shallow, few, rfl⟩, _, _, ⟨admitted, rfl⟩, walked⟩
    obtain ⟨below, passed⟩ := (@validateMembers_ok_iff members each ⟨ctx.depth, ctx.nodes + 1, ctx.credentials⟩ final
      result few fewCredentials).mp walked
    have nodes := passed.nodes
    dsimp only at nodes
    refine ⟨⟨shallow, below⟩, passed.depth, ?_, ?_, passed.fewNodes, passed.fewCredentials, ?_⟩
    · rw [List.length_append, List.length_singleton]
      omega
    · rw [List.countP_append, List.countP_singleton, counted]
      exact passed.credentials
    · intro found inside
      rcases List.mem_append.mp inside with earlier | here
      · exact passed.each _ earlier
      · exact List.mem_singleton.mp here ▸ admitted
  · rintro ⟨⟨shallow, below⟩, passed⟩
    have nodes := passed.nodes
    have credentials := passed.credentials
    have few := passed.fewNodes
    rw [List.length_append, List.length_singleton] at nodes
    rw [List.countP_append, List.countP_singleton, counted] at credentials
    have room : ctx.nodes + 1 ≤ maxPolicyNodes := by omega
    refine ⟨(), _, ⟨shallow, room, rfl⟩, (), _, ⟨passed.each _ (by simp), rfl⟩, ?_⟩
    refine (@validateMembers_ok_iff members each ⟨ctx.depth, ctx.nodes + 1, ctx.credentials⟩ final result room
      fewCredentials).mpr ⟨below, passed.depth, ?_, credentials, few, passed.fewCredentials,
        fun inner inside => passed.each _ (List.mem_append_left _ inside)⟩
    dsimp only
    omega

theorem walksTo (policy : Policy) : policy.WalksTo := by
  have combinator {members : List Policy} {height depth : ℕ}
      (tall : ∀ n, height ≤ n ↔ ∀ member ∈ members, member.formula.height + 1 ≤ n) :
      (depth ≤ maxPolicyDepth ∧ ∀ member ∈ members, depth + 1 + member.formula.height ≤ maxPolicyDepth) ↔
        depth + height ≤ maxPolicyDepth := by
    constructor
    · rintro ⟨shallow, below⟩
      have fits := (tall (maxPolicyDepth - depth)).mpr fun member inside => by
        have deep := below member inside
        omega
      omega
    · intro fits
      refine ⟨by omega, fun member inside => ?_⟩
      have deep := (tall height).mp le_rfl member inside
      omega
  induction policy with
  | amountAtMost limit =>
    intro ctx final result fewCredentials
    rw [validateImpl, enterNode_ok_iff]
    constructor
    · rintro ⟨shallow, few, rfl⟩
      exact ⟨shallow, rfl, rfl, rfl, few, fewCredentials, by simp [NodeAdmitted, NodeValid, DistinctCredentials]⟩
    · rintro ⟨shallow, passed⟩
      refine ⟨shallow, passed.nodes ▸ passed.fewNodes, ?_⟩
      have credentials : final.credentials = ctx.credentials := passed.credentials
      cases final
      exact Context.mk.injEq _ _ _ _ _ _ |>.mpr ⟨passed.depth.symm, passed.nodes.symm, credentials.symm⟩
  | credential id =>
    intro ctx final result fewCredentials
    rw [validateImpl]
    simp only [Emission.bind_ok_iff, enterNode_ok_iff, enterCredential_ok_iff]
    constructor
    · rintro ⟨_, _, ⟨shallow, few, rfl⟩, nonzero, known, rfl⟩
      refine ⟨shallow, rfl, rfl, rfl, few, known, fun node inside => ?_⟩
      rw [formula_credential, Formula.subformulas_leaf, List.mem_singleton] at inside
      rw [inside]
      exact ⟨nonzero, trivial⟩
    · rintro ⟨shallow, passed⟩
      have admitted := passed.each _ (List.mem_singleton_self _)
      refine ⟨(), _, ⟨shallow, passed.nodes ▸ passed.fewNodes, rfl⟩, admitted.1, ?_, ?_⟩
      · exact passed.credentials ▸ passed.fewCredentials
      · cases final
        exact Context.mk.injEq _ _ _ _ _ _ |>.mpr
          ⟨passed.depth.symm, passed.nodes.symm, passed.credentials.symm⟩
  | threshold k members ih =>
    intro ctx final result fewCredentials
    have walked := @walksTo_combinator (checkThreshold k members) members (threshold k members).formula ih
      (by rw [formula_threshold]; rfl) (fun _ _ _ => checkThreshold_ok_iff) ctx final result fewCredentials
    rw [formula_threshold] at walked ⊢
    rw [Formula.subformulas_atLeast, ← combinator fun n => Formula.height_atLeast_le_iff.trans List.forall_mem_map]
    exact walked
  | and members ih =>
    intro ctx final result fewCredentials
    have walked := @walksTo_combinator (checkCombinator members) members (.all (members.map formula)) ih rfl
      (fun _ _ _ => by simp [checkCombinator_ok_iff, NodeAdmitted, NodeValid, DistinctCredentials]) ctx final result
      fewCredentials
    rw [formula_and, Formula.subformulas_all, ← combinator fun n => Formula.height_all_le_iff.trans List.forall_mem_map]
    exact walked
  | or members ih =>
    intro ctx final result fewCredentials
    have walked := @walksTo_combinator (checkCombinator members) members (.any (members.map formula)) ih rfl
      (fun _ _ _ => by simp [checkCombinator_ok_iff, NodeAdmitted, NodeValid, DistinctCredentials]) ctx final result
      fewCredentials
    rw [formula_or, Formula.subformulas_any, ← combinator fun n => Formula.height_any_le_iff.trans List.forall_mem_map]
    exact walked

/-- All rules on a whole policy. -/
structure Admitted (policy : Policy) : Prop where
  height : policy.formula.height ≤ maxPolicyDepth
  nodes : policy.formula.subformulas.length ≤ maxPolicyNodes
  credentials : policy.formula.subformulas.countP isCredential ≤ maxCredentialCount
  each : ∀ node ∈ policy.formula.subformulas, NodeAdmitted node

/-- Validation accepts exactly the policies that keep to all rules. -/
theorem validate_ok_iff {policy : Policy} {result : Unit} : policy.validate = .ok result ↔ policy.Admitted := by
  rw [validate, Outcome.bind_ok_iff]
  simp only [Prod.exists, and_true, exists_const, policy.walksTo ⟨0, 0, 0⟩ _ _ (Nat.zero_le _)]
  constructor
  · rintro ⟨final, shallow, passed⟩
    have nodes := passed.nodes
    have credentials := passed.credentials
    rw [Nat.zero_add] at nodes credentials shallow
    exact ⟨shallow, nodes ▸ passed.fewNodes, credentials ▸ passed.fewCredentials, passed.each⟩
  · intro admitted
    exact ⟨⟨0, policy.formula.subformulas.length, policy.formula.subformulas.countP isCredential⟩,
      by rw [Nat.zero_add]; exact admitted.height, rfl, (Nat.zero_add _).symm, (Nat.zero_add _).symm, admitted.nodes,
      admitted.credentials, admitted.each⟩

private theorem enterNode_halts : enterNode.Halts :=
  Emission.halts_get.bind fun _ => Emission.halts_reject.bind fun _ => (Emission.halts_set _).bind fun _ =>
    Emission.halts_reject

private theorem enterCredential_halts (id : CredentialId) : (enterCredential id).Halts :=
  Emission.halts_reject.bind fun _ => Emission.halts_get.bind fun _ => (Emission.halts_set _).bind fun _ =>
    Emission.halts_reject

private theorem checkDistinctCredentials_returns (seen : List CredentialId) (members : List Policy) :
    checkDistinctCredentials seen members ≠ .aborted := by
  induction members generalizing seen with
  | nil => exact Outcome.ok_ne_aborted _
  | cons member rest ih =>
    cases member with
    | credential id => exact Outcome.bind_ne_aborted Outcome.reject_ne_aborted fun _ _ => ih _
    | amountAtMost | threshold | and | or => exact ih seen

private theorem checkThreshold_halts (k : ThresholdK) (members : List Policy) : (checkThreshold k members).Halts :=
  Emission.halts_reject.bind fun _ => Emission.halts_reject.bind fun _ => Emission.halts_reject.bind fun _ =>
    Emission.halts_reject.bind fun _ => Emission.halts_reject.bind fun _ =>
      Emission.halts_liftM (checkDistinctCredentials_returns [] members)

private theorem checkCombinator_halts (members : List Policy) : (checkCombinator members).Halts :=
  Emission.halts_reject.bind fun _ => Emission.halts_reject

private theorem validateMembers_halts {members : List Policy} (each : ∀ member ∈ members, member.validateImpl.Halts) :
    (validateMembers members).Halts := by
  induction members with
  | nil => exact Emission.halts_pure ()
  | cons member rest ih =>
    rw [validateMembers]
    refine (Emission.halts_modify _).bind fun _ => (each member List.mem_cons_self).bind fun _ =>
      (Emission.halts_modify _).bind fun _ => ih fun other inside => each other (List.mem_cons_of_mem _ inside)

private theorem validateImpl_halts (policy : Policy) : policy.validateImpl.Halts := by
  induction policy with
  | amountAtMost limit =>
    rw [validateImpl]
    exact enterNode_halts
  | credential id =>
    rw [validateImpl]
    exact enterNode_halts.bind fun _ => enterCredential_halts id
  | threshold k members ih =>
    rw [validateImpl]
    exact enterNode_halts.bind fun _ => (checkThreshold_halts k members).bind fun _ => validateMembers_halts ih
  | and members ih | or members ih =>
    rw [validateImpl]
    exact enterNode_halts.bind fun _ => (checkCombinator_halts members).bind fun _ => validateMembers_halts ih

/-- Validation never panics. -/
theorem validate_ne_aborted (policy : Policy) : policy.validate ≠ .aborted :=
  Outcome.bind_ne_aborted (policy.validateImpl_halts _) fun _ _ => Outcome.ok_ne_aborted _

theorem valid_of_validate {policy : Policy} {result : Unit} (checked : policy.validate = .ok result) :
    policy.Valid := by
  have admitted := validate_ok_iff.mp checked
  exact ⟨admitted.nodes, fun node inside => (admitted.each node inside).1⟩

/-- Every node of a policy adds at most 33 bytes to its encoding. -/
theorem encodeNode_length_le (policy : Policy) :
    policy.encodeNode.length ≤ 33 * policy.formula.subformulas.length := by
  have members_le (members : List Policy)
      (ih : ∀ member ∈ members, member.encodeNode.length ≤ 33 * member.formula.subformulas.length) :
      (members.flatMap encodeNode).length ≤
        33 * ((members.map formula).flatMap Formula.subformulas).length := by
    induction members with
    | nil => simp
    | cons member rest step =>
      have first := ih member List.mem_cons_self
      have others := step fun other inside => ih other (List.mem_cons_of_mem _ inside)
      simp only [List.flatMap_cons, List.length_append, List.map_cons]
      omega
  induction policy with
  | amountAtMost limit => simp [encodeNode]
  | credential id => simp [encodeNode, id.size, credentialIdLen]
  | threshold k members ih =>
    have bound := members_le members ih
    simp only [encodeNode, encodeMembers_eq_flatMap, formula_threshold, Formula.subformulas_atLeast,
      List.length_cons, List.length_append, toBeBytes_length, List.length_nil]
    omega
  | and members ih =>
    have bound := members_le members ih
    simp only [encodeNode, encodeMembers_eq_flatMap, formula_and, Formula.subformulas_all,
      List.length_cons, List.length_append, toBeBytes_length, List.length_nil]
    omega
  | or members ih =>
    have bound := members_le members ih
    simp only [encodeNode, encodeMembers_eq_flatMap, formula_or, Formula.subformulas_any,
      List.length_cons, List.length_append, toBeBytes_length, List.length_nil]
    omega

theorem Valid.encodeNode_length_lt {policy : Policy} (valid : policy.Valid) :
    policy.encodeNode.length < 2 ^ 32 := by
  have bound := encodeNode_length_le policy
  have nodes := valid.nodes
  unfold maxPolicyNodes at nodes
  omega

end Policy

end PaymentAuth
