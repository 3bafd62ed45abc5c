import PaymentAuth.Mpcith.Execution
import PaymentAuth.Mpcith.Traversal

/-! The dependence analysis agrees with the way the two evaluators tell shared
values from public ones. -/

namespace PaymentAuth.Mpcith

open Library

variable {Share State : Type} {circuit : Circuit FieldElement}

/-- Whether a position holds a shared value. -/
def sharedAt (values : List (NodeVal Share)) (n : ℕ) : Bool := values[n]?.any NodeVal.isShared

theorem sharedAt_of_found {values : List (NodeVal Share)} {n : ℕ} {value : NodeVal Share}
    (found : values[n]? = some value) : sharedAt values n = value.isShared := by
  rw [sharedAt, found, Option.any_some]

/-- Positions below a cut hold what the cut list holds. -/
private theorem sharedAt_take {values : List (NodeVal Share)} {n k : ℕ} (earlier : k < n) :
    sharedAt (values.take n) k = sharedAt values k := by
  rw [sharedAt, sharedAt, List.getElem?_take_of_lt earlier]

/-- One node's value is shared exactly when the dependence rule says so. -/
def Classifies (before : List (NodeVal Share)) (node : Node FieldElement)
    (value : NodeVal Share) : Prop :=
  value.isShared = Circuit.dependence.rule (sharedAt before) before.length node

/-- A gate is classified by the values of its operands. -/
private theorem Classifies.gate {before : List (NodeVal Share)} {node : Node FieldElement} {a b : NodeId}
    {left right value : NodeVal Share} (gate : node.operands = some (a, b))
    (first : before[a.asUsize]? = some left) (second : before[b.asUsize]? = some right)
    (shared : value.isShared = (left.isShared || right.isShared)) : Classifies before node value := by
  rw [Classifies, shared, ← sharedAt_of_found first, ← sharedAt_of_found second]
  cases node with
  | secretInput | publicInput | constant => cases gate
  | add | mul =>
    cases gate
    rfl

/-- A completed pass whose steps classify their nodes classifies every node. -/
private theorem sharedAt_of_pass
    {step : List (NodeVal Share) → State → Node FieldElement → Outcome MpcithError (NodeVal Share × State)}
    (classifies : ∀ before state node value next,
      step before state node = .ok (value, next) → Classifies before node value)
    (valid : circuit.WellFormed) {values : List (NodeVal Share)} {start final : State}
    (run : forwardPass step circuit.nodes [] start = .ok (values, final)) {n : ℕ}
    (bound : n < circuit.nodes.length) :
    values[n]?.map NodeVal.isShared = some (circuit.dependsOnSecrets n) := by
  obtain ⟨states, trace, -, -⟩ := forwardPass_ok_iff.mp run
  have solved : circuit.Solves Circuit.dependence (sharedAt values) := by
    intro n node found
    obtain ⟨value, here, success⟩ := trace.step n node found
    have classified := classifies _ _ _ _ _ success
    rw [sharedAt_of_found here, classified]
    cases node with
    | secretInput | publicInput | constant => rfl
    | add a b | mul a b =>
      obtain ⟨left, right⟩ := valid.operands n _ a b found rfl
      simp only [Interpretation.rule, sharedAt_take left, sharedAt_take right]
      rfl
  obtain ⟨value, here⟩ : ∃ value, values[n]? = some value :=
    ⟨_, List.getElem?_eq_getElem (trace.length ▸ bound)⟩
  have same := solved.unique valid valid.dependsOnSecrets_solves bound
  rw [here, Option.map_some, ← sharedAt_of_found here, same]

section Replay

variable {statement : Statement} {view : PartyView} {globals : List FieldElement} {out : NodeId}
  {va vb value : NodeVal FieldElement} {cursor next : ReplayCursor}

/-- A replayed sum is shared when one of its operands is. -/
private theorem replayAdd_isShared (success : replayAdd view out va vb cursor = .ok (value, next)) :
    value.isShared = (va.isShared || vb.isShared) := by
  cases va with
  | plain x =>
    cases vb with
    | plain y =>
      cases success
      rfl
    | shared y =>
      simp only [replayAdd] at success
      split at success
      · obtain ⟨_, -, recorded⟩ := Outcome.bind_ok_iff.mp success
        cases recorded
        rfl
      · cases success
        rfl
  | shared x =>
    cases vb with
    | plain y =>
      simp only [replayAdd] at success
      split at success
      · obtain ⟨_, -, recorded⟩ := Outcome.bind_ok_iff.mp success
        cases recorded
        rfl
      · cases success
        rfl
    | shared y =>
      obtain ⟨_, -, recorded⟩ := Outcome.bind_ok_iff.mp success
      cases recorded
      rfl

/-- A replayed product is shared when one of its operands is. -/
private theorem replayMul_isShared (success : replayMul view globals out va vb cursor = .ok (value, next)) :
    value.isShared = (va.isShared || vb.isShared) := by
  cases va with
  | plain x =>
    cases vb with
    | plain y =>
      cases success
      rfl
    | shared y =>
      obtain ⟨_, -, recorded⟩ := Outcome.bind_ok_iff.mp success
      cases recorded
      rfl
  | shared x =>
    cases vb with
    | plain y =>
      obtain ⟨_, -, recorded⟩ := Outcome.bind_ok_iff.mp success
      cases recorded
      rfl
    | shared y =>
      simp only [replayMul, Outcome.bind_ok_iff, Outcome.ok.injEq, Prod.mk.injEq] at success
      obtain ⟨_, -, _, -, _, -, _, -, _, -, _, -, _, -, rfl, -⟩ := success
      rfl

private theorem replayNode_classifies (before : List (NodeVal FieldElement)) (cursor : ReplayCursor)
    (node : Node FieldElement) (value : NodeVal FieldElement) (next : ReplayCursor)
    (success : replayNode statement view globals before cursor node = .ok (value, next)) :
    Classifies before node value := by
  cases node with
  | secretInput | publicInput =>
    obtain ⟨_, -, read⟩ := Outcome.bind_ok_iff.mp success
    cases read
    rfl
  | constant c =>
    cases success
    rfl
  | add a b =>
    obtain ⟨va, left, rest⟩ := Outcome.bind_ok_iff.mp success
    obtain ⟨vb, right, added⟩ := Outcome.bind_ok_iff.mp rest
    rw [Outcome.expect_ok_iff] at left right
    exact Classifies.gate rfl left right (replayAdd_isShared added)
  | mul a b =>
    obtain ⟨va, left, rest⟩ := Outcome.bind_ok_iff.mp success
    obtain ⟨vb, right, multiplied⟩ := Outcome.bind_ok_iff.mp rest
    rw [Outcome.expect_ok_iff] at left right
    exact Classifies.gate rfl left right (replayMul_isShared multiplied)

/-- An accepted replay shares exactly the nodes that depend on secret inputs,
whatever statement and global masks it was run with. -/
theorem replayParty_isShared (valid : circuit.WellFormed) {values : List (NodeVal FieldElement)}
    (run : replayParty statement view circuit globals = .ok values) {n : ℕ}
    (bound : n < circuit.nodes.length) :
    values[n]?.map NodeVal.isShared = some (circuit.dependsOnSecrets n) := by
  obtain ⟨_, -, rest⟩ := Outcome.bind_ok_iff.mp run
  obtain ⟨⟨replayed, cursor⟩, pass, checked⟩ := Outcome.bind_ok_iff.mp rest
  obtain ⟨_, -, returned⟩ := Outcome.bind_ok_iff.mp checked
  cases returned
  exact sharedAt_of_pass replayNode_classifies valid pass bound

end Replay

section Simulation

variable {statement : Statement}

end Simulation

end PaymentAuth.Mpcith
