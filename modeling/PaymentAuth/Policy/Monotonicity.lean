import PaymentAuth.Policy.Mismatch

/-! More secrets and a lower amount never revoke an authorization, neither of the evaluator
nor of the compiled circuit. -/

namespace PaymentAuth

open Library

/-- A witness with all secrets of another one and at most its amount. -/
structure PolicyWitness.Extends (witness' witness : PolicyWitness) : Prop where
  secrets : ∀ id secret, witness.secretFor id = some secret → witness'.secretFor id = some secret
  lower : ∀ amount, witness.amount = some amount → ∃ lower, witness'.amount = some lower ∧ lower.value ≤ amount.value
  absent : witness.amount = none → witness'.amount = none

section Monotonicity

variable {sha256 : Bytes → Digest} {policy : Policy} {witness witness' : PolicyWitness} {leaf : PolicyLeaf}

/-- Secrets may be added at the end, and the amount may be lowered. -/
theorem PolicyWitness.extends_append (secrets added : List (CredentialId × Bytes)) {amount lower : AmountLimit}
    (below : lower.value ≤ amount.value) :
    PolicyWitness.Extends ⟨secrets ++ added, some lower⟩ ⟨secrets, some amount⟩ where
  secrets id secret found := by
    obtain ⟨entry, listed, same⟩ := Option.map_eq_some_iff.mp found
    refine Option.map_eq_some_iff.mpr ⟨entry, ?_, same⟩
    rw [List.find?_append, listed]
    rfl
  lower _ given := by
    cases given
    exact ⟨lower, rfl, below⟩
  absent := nofun

theorem PolicyWitness.Extends.validateAgainst (more : witness'.Extends witness)
    (matched : witness.validateAgainst policy = .ok ()) : witness'.validateAgainst policy = .ok () := by
  obtain ⟨secrets, amounts⟩ := PolicyWitness.validateAgainst_ok_iff.mp matched
  refine PolicyWitness.validateAgainst_ok_iff.mpr ⟨fun id listed => ?_, fun limit listed => ?_⟩
  · obtain ⟨secret, found⟩ := secrets id listed
    exact ⟨secret, more.secrets id secret found⟩
  · obtain ⟨amount, found⟩ := amounts limit listed
    obtain ⟨lower, found', -⟩ := more.lower amount found
    exact ⟨lower, found'⟩

/-- A leaf that the evaluator is satisfied with stays satisfied. -/
theorem PolicyWitness.Extends.leafSatisfied (more : witness'.Extends witness)
    (held : Policy.leafSatisfied sha256 witness leaf = true) : Policy.leafSatisfied sha256 witness' leaf = true := by
  cases leaf with
  | credential id =>
    obtain ⟨secret, found, opens⟩ := (Option.any_eq_true _ _).mp held
    exact (Option.any_eq_true _ _).mpr ⟨secret, more.secrets id secret found, opens⟩
  | amountAtMost limit =>
    obtain ⟨amount, found, capped⟩ := (Option.any_eq_true _ _).mp held
    obtain ⟨lower, found', below⟩ := more.lower amount found
    refine (Option.any_eq_true _ _).mpr ⟨lower, found', decide_eq_true ?_⟩
    exact UInt64.le_trans below (of_decide_eq_true capped)

/-- A leaf that the circuit is satisfied with stays satisfied. -/
theorem PolicyWitness.Extends.leafMatched (more : witness'.Extends witness)
    (held : Policy.leafMatched sha256 witness leaf = true) : Policy.leafMatched sha256 witness' leaf = true := by
  cases leaf with
  | credential id =>
    obtain ⟨secret, found, opens⟩ := (Option.any_eq_true _ _).mp held
    exact (Option.any_eq_true _ _).mpr ⟨secret, more.secrets id secret found, opens⟩
  | amountAtMost limit =>
    have capped := of_decide_eq_true held
    refine decide_eq_true ?_
    rw [PolicyWitness.amountOrZero] at capped ⊢
    cases given : witness.amount with
    | none =>
      rw [given] at capped
      rw [more.absent given]
      exact capped
    | some amount =>
      obtain ⟨lower, found', below⟩ := more.lower amount given
      rw [given] at capped
      rw [found']
      exact UInt64.le_trans below capped

/-- The evaluator accepts what extends an accepted witness, and reports no mismatch for it. -/
theorem Policy.evaluate_mono {result : AuthorizationResult} (more : witness'.Extends witness)
    (evaluated : policy.evaluate sha256 witness = .ok result) :
    ∃ result', policy.evaluate sha256 witness' = .ok result' ∧
      (result.authorized = true → result'.authorized = true) := by
  obtain ⟨_, matched, returned⟩ := Outcome.bind_ok_iff.mp evaluated
  cases returned
  have evaluated' : policy.evaluate sha256 witness' =
      .ok ⟨(policy.evalNode sha256 witness').isSatisfied, policy.evalNode sha256 witness'⟩ := by
    rw [Policy.evaluate, more.validateAgainst matched]
    rfl
  refine ⟨_, evaluated', ?_⟩
  rw [policy.evalNode_isSatisfied, policy.evalNode_isSatisfied]
  exact Formula.eval_mono fun leaf _ => more.leafSatisfied

/-- The circuit accepts what extends an accepted witness. -/
theorem CompiledPolicy.referenceEvaluate_mono {compiled : CompiledPolicy FieldElement} {verdict : Bool}
    (more : witness'.Extends witness) (compiles : compileWithLayout policy = .ok compiled)
    (evaluated : compiled.referenceEvaluate sha256 policy witness = .ok verdict) :
    ∃ verdict', compiled.referenceEvaluate sha256 policy witness' = .ok verdict' ∧
      (verdict = true → verdict' = true) := by
  have covered : witness.Covers policy := by
    by_contra uncovered
    rw [(CompiledPolicy.referenceEvaluate_error_iff compiles).mpr uncovered] at evaluated
    cases evaluated
  have covered' : witness'.Covers policy := by
    intro id listed
    obtain ⟨secret, found⟩ := covered id listed
    exact ⟨secret, more.secrets id secret found⟩
  rw [CompiledPolicy.referenceEvaluate_eq compiles covered, Outcome.ok.injEq] at evaluated
  subst evaluated
  refine ⟨_, CompiledPolicy.referenceEvaluate_eq compiles covered', ?_⟩
  exact Formula.eval_mono fun leaf _ => more.leafMatched

/-- Where a policy compiles, a witness that extends an accepted one is accepted: by the
evaluator, and by the compiled circuit on the inputs that are filled in for it. -/
theorem Policy.authorization_mono {compiled : CompiledPolicy FieldElement} (more : witness'.Extends witness)
    (compiles : compileWithLayout policy = .ok compiled) :
    (∀ result, policy.evaluate sha256 witness = .ok result →
      ∃ result', policy.evaluate sha256 witness' = .ok result' ∧
        (result.authorized = true → result'.authorized = true)) ∧
    ∀ verdict, compiled.referenceEvaluate sha256 policy witness = .ok verdict →
      ∃ verdict', compiled.referenceEvaluate sha256 policy witness' = .ok verdict' ∧
        (verdict = true → verdict' = true) := by
  refine ⟨fun result evaluated => ?_, fun verdict evaluated => ?_⟩
  · exact Policy.evaluate_mono more evaluated
  · exact CompiledPolicy.referenceEvaluate_mono more compiles evaluated

/-- Another secret and an amount of three instead of five. -/
theorem Policy.authorization_mono_lower : ∃ result : AuthorizationResult, result.authorized = true ∧
    (Policy.and [.credential (credentialOf [7]), .amountAtMost ⟨5⟩]).evaluate PaymentAuth.sha256
      ⟨[(credentialOf [7], [7]), (.filled 9, [8])], some ⟨3⟩⟩ = .ok result := by
  let policy : Policy := .and [.credential (credentialOf [7]), .amountAtMost ⟨5⟩]
  obtain ⟨compiled, compiles⟩ := @compileWithLayout_succeeds policy (by decide +kernel)
  have more := PolicyWitness.extends_append [(credentialOf [7], [7])] [(.filled 9, [8])]
    (show (3 : UInt64) ≤ 5 by decide)
  have accepted : AuthorizationResult.authorized <$> policy.evaluate PaymentAuth.sha256
      ⟨[(credentialOf [7], [7])], some ⟨5⟩⟩ = .ok true := by
    decide +kernel
  obtain ⟨before, evaluated, authorized⟩ := Outcome.map_ok_iff.mp accepted
  obtain ⟨result, evaluated', kept⟩ := (Policy.authorization_mono more compiles).1 before evaluated
  exact ⟨result, kept authorized, evaluated'⟩

end Monotonicity

end PaymentAuth
