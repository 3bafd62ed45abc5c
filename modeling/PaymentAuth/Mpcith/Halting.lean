import PaymentAuth.Mpcith.Classification

/-! The interactive verifier does not abort: every index it takes without a check
is inside its list once the circuit is validated and the lengths agree. -/

namespace PaymentAuth.Mpcith

open Library

section Replays

variable {statement : Statement} {view : PartyView} {circuit : Circuit FieldElement} {globals : List FieldElement}
  {va vb : NodeVal FieldElement} {cursor : ReplayCursor} {out : NodeId}

private theorem expectOp_ne_aborted (expected : LocalOperation) : expectOp view expected cursor ≠ .aborted := by
  apply Outcome.bind_ne_aborted Outcome.okOr_ne_aborted
  intro op _
  apply Outcome.bind_ne_aborted Outcome.reject_ne_aborted
  intro _ _
  apply Outcome.bind_ne_aborted Outcome.reject_ne_aborted
  intro _ _
  exact Outcome.ok_ne_aborted _

/-- Recording an expected operation, then returning. -/
private theorem recorded_ne_aborted (expected : LocalOperation)
    (result : ReplayCursor → NodeVal FieldElement × ReplayCursor) :
    (expectOp view expected cursor >>= fun next => .ok (result next)) ≠ .aborted := by
  apply Outcome.bind_ne_aborted (expectOp_ne_aborted expected)
  intro next _
  exact Outcome.ok_ne_aborted _

private theorem replayAdd_ne_aborted : replayAdd view out va vb cursor ≠ .aborted := by
  cases va with
  | plain x =>
    cases vb with
    | plain y => exact Outcome.ok_ne_aborted _
    | shared y =>
      rw [replayAdd]
      split
      · exact recorded_ne_aborted _ _
      · exact Outcome.ok_ne_aborted _
  | shared x =>
    cases vb with
    | plain y =>
      rw [replayAdd]
      split
      · exact recorded_ne_aborted _ _
      · exact Outcome.ok_ne_aborted _
    | shared y => exact recorded_ne_aborted _ _

private theorem replayMul_ne_aborted : replayMul view globals out va vb cursor ≠ .aborted := by
  cases va with
  | plain x =>
    cases vb with
    | plain y => exact Outcome.ok_ne_aborted _
    | shared y => exact recorded_ne_aborted _ _
  | shared x =>
    cases vb with
    | plain y => exact recorded_ne_aborted _ _
    | shared y =>
      apply Outcome.bind_ne_aborted Outcome.okOr_ne_aborted
      intro triple _
      apply Outcome.bind_ne_aborted Outcome.okOr_ne_aborted
      intro dClaim _
      apply Outcome.bind_ne_aborted Outcome.okOr_ne_aborted
      intro eClaim _
      apply Outcome.bind_ne_aborted Outcome.reject_ne_aborted
      intro _ _
      apply Outcome.bind_ne_aborted Outcome.okOr_ne_aborted
      intro dGlobal _
      apply Outcome.bind_ne_aborted Outcome.okOr_ne_aborted
      intro eGlobal _
      exact recorded_ne_aborted _ _

/-- A node whose operands are replayed already is replayed or refused. -/
private theorem replayNode_ne_aborted {values : List (NodeVal FieldElement)} {node : Node FieldElement}
    (operands : ∀ a b, node.operands = some (a, b) → a.asUsize < values.length ∧ b.asUsize < values.length) :
    replayNode statement view globals values cursor node ≠ .aborted := by
  have read (id : NodeId) (inside : id.asUsize < values.length) : ∃ value, values[id.asUsize]? = some value :=
    ⟨_, List.getElem?_eq_getElem inside⟩
  cases node with
  | secretInput | publicInput =>
    apply Outcome.bind_ne_aborted Outcome.okOr_ne_aborted
    intro _ _
    exact Outcome.ok_ne_aborted _
  | constant c => exact Outcome.ok_ne_aborted _
  | add a b =>
    obtain ⟨left, right⟩ := operands a b rfl
    apply Outcome.bind_ne_aborted (Outcome.expect_ne_aborted (read a left))
    intro va _
    apply Outcome.bind_ne_aborted (Outcome.expect_ne_aborted (read b right))
    intro vb _
    exact replayAdd_ne_aborted
  | mul a b =>
    obtain ⟨left, right⟩ := operands a b rfl
    apply Outcome.bind_ne_aborted (Outcome.expect_ne_aborted (read a left))
    intro va _
    apply Outcome.bind_ne_aborted (Outcome.expect_ne_aborted (read b right))
    intro vb _
    exact replayMul_ne_aborted

theorem replayParty_ne_aborted (valid : circuit.WellFormed) :
    replayParty statement view circuit globals ≠ .aborted := by
  apply Outcome.bind_ne_aborted Outcome.reject_ne_aborted
  intro _ _
  apply Outcome.bind_ne_aborted
  · apply forwardPass_ne_aborted
    intro values current node found
    apply replayNode_ne_aborted
    intro a b gate
    exact valid.operands values.length node a b found gate
  · intro pair _
    apply Outcome.bind_ne_aborted Outcome.reject_ne_aborted
    intro _ _
    exact Outcome.ok_ne_aborted _

end Replays

section Repetitions

variable {backend : CryptoBackend} {statement : Statement} {repetition : Repetition} {circuit : Circuit FieldElement}

/-- Only the length of the message can make the opening of a commitment abort. -/
private theorem verifyCommitment_ne_aborted {view : PartyView} (short : (commitmentMessage view).length < 2 ^ 32)
    (commitment : ViewCommitment) (randomness : Bytes) :
    verifyCommitment backend commitment view randomness ≠ .aborted := by
  apply Outcome.bind_ne_aborted
  · apply Outcome.bind_ne_aborted Outcome.reject_ne_aborted
    intro _ _
    exact Outcome.ok_ne_aborted randomness
  · intro r checked
    obtain ⟨_, full, returned⟩ := Outcome.bind_ok_iff.mp checked
    cases returned
    have size : randomness.length = randomnessLen := not_not.mp (Outcome.reject_ok_iff.mp full)
    have committed : (backend.commit (commitmentMessage view) randomness : Outcome MpcithError Digest) = .ok _ :=
      CryptoBackend.commit_ok_iff.mpr ⟨size.trans_lt (by decide), short, rfl⟩
    rw [committed]
    exact Outcome.ok_ne_aborted _

private theorem checkOpening_ne_aborted {opened : OpenedView} (three : repetition.commitments.length = partyCount)
    (short : (commitmentMessage opened.view).length < 2 ^ 32) : checkOpening backend repetition opened ≠ .aborted := by
  have named : opened.view.partyId.val < repetition.commitments.length := three.symm ▸ opened.view.partyId.isLt
  apply Outcome.bind_ne_aborted Outcome.reject_ne_aborted
  intro _ _
  apply Outcome.bind_ne_aborted (Outcome.expect_ne_aborted ⟨_, List.getElem?_eq_getElem named⟩)
  intro committed _
  apply Outcome.bind_ne_aborted (verifyCommitment_ne_aborted short committed opened.randomness)
  intro bound _
  exact Outcome.reject_ne_aborted

private theorem globalMasks_ne_aborted : globalMasks repetition ≠ .aborted := by
  apply Outcome.bind_ne_aborted Outcome.reject_ne_aborted
  intro _ _
  apply Outcome.mapM_ne_aborted
  intro entry _
  apply Outcome.foldlM_ne_aborted
  intro total opened _
  apply Outcome.bind_ne_aborted Outcome.okOr_ne_aborted
  intro value _
  exact Outcome.ok_ne_aborted _

/-- A declared output is read from replays of the whole circuit. -/
private theorem checkOutput_ne_aborted (valid : circuit.WellFormed) {replays : List (List (NodeVal FieldElement))}
    (replayed : ∀ replay ∈ replays, ∃ view globals, replayParty statement view circuit globals = .ok replay)
    {output : NodeId × ℕ} (defined : output.1.asUsize < circuit.nodes.length)
    (counted : output.2 < repetition.hiddenOutputShares.length) :
    checkOutput statement repetition circuit replays output ≠ .aborted := by
  apply Outcome.bind_ne_aborted Outcome.okOr_ne_aborted
  intro expected _
  rw [nodeDependsOnSecrets_eq valid defined, Outcome.ok_bind]
  apply Outcome.bind_ne_aborted (Outcome.expect_ne_aborted ⟨_, List.getElem?_eq_getElem counted⟩)
  intro hidden _
  split
  · apply Outcome.bind_ne_aborted Outcome.reject_ne_aborted
    intro _ _
    exact Outcome.ok_ne_aborted true
  · apply Outcome.bind_ne_aborted
    · apply Outcome.foldlM_ne_aborted
      intro total replay listed
      obtain ⟨view, globals, run⟩ := replayed replay listed
      obtain ⟨value, found, -⟩ := Option.map_eq_some_iff.mp (replayParty_isShared valid run defined)
      apply Outcome.bind_ne_aborted (Outcome.expect_ne_aborted ⟨value, found⟩)
      intro value _
      cases value with
      | plain v => exact Outcome.error_ne_aborted _
      | shared v => exact Outcome.ok_ne_aborted _
    · intro total _
      exact Outcome.ok_ne_aborted _

private theorem checkOutputs_ne_aborted (valid : circuit.WellFormed) {replays : List (List (NodeVal FieldElement))}
    (replayed : ∀ replay ∈ replays, ∃ view globals, replayParty statement view circuit globals = .ok replay) :
    checkOutputs statement repetition circuit replays ≠ .aborted := by
  apply Outcome.bind_ne_aborted Outcome.reject_ne_aborted
  intro _ passed
  have size : repetition.hiddenOutputShares.length = circuit.outputs.length :=
    not_not.mp (Outcome.reject_ok_iff.mp passed)
  apply Outcome.allM_ne_aborted
  intro output listed
  have found := List.mem_zipIdx_iff_getElem?.mp listed
  apply checkOutput_ne_aborted valid replayed
  · exact valid.outputs output.1 (List.mem_of_getElem? found)
  · rw [size]
    exact (List.getElem?_eq_some_iff.mp found).1

theorem verifyRepetition_ne_aborted (valid : circuit.WellFormed)
    (short : ∀ opened ∈ repetition.openedViews, (commitmentMessage opened.view).length < 2 ^ 32) :
    verifyRepetition backend statement repetition circuit ≠ .aborted := by
  rw [verifyRepetition, PartyId.new_get, Outcome.ok_bind]
  apply Outcome.bind_ne_aborted Outcome.reject_ne_aborted
  intro _ passed
  have three : repetition.commitments.length = partyCount := not_not.mp (Outcome.reject_ok_iff.mp passed)
  apply Outcome.bind_ne_aborted Outcome.reject_ne_aborted
  intro _ _
  apply Outcome.bind_ne_aborted
  · apply Outcome.forM_ne_aborted
    intro opened listed
    exact checkOpening_ne_aborted three (short opened listed)
  intro _ _
  apply Outcome.bind_ne_aborted globalMasks_ne_aborted
  intro globals _
  apply Outcome.bind_ne_aborted
  · apply Outcome.mapM_ne_aborted
    intro opened _
    exact replayParty_ne_aborted valid
  intro replays run
  apply checkOutputs_ne_aborted valid
  intro replay listed
  obtain ⟨opened, _, replayed⟩ := Outcome.exists_call_of_mapM_ok run listed
  exact ⟨opened.view, globals, replayed⟩

end Repetitions

section Proofs

variable {sha256 : Bytes → Digest} {backend : CryptoBackend} {statement : Statement} {proof : MpcithProof}
  {circuit : Circuit FieldElement}

theorem Statement.validate_ne_aborted (nodes : circuit.nodes.length < 2 ^ 32)
    (outputs : circuit.outputs.length < 2 ^ 32) : statement.validate sha256 circuit ≠ .aborted := by
  apply Outcome.bind_ne_aborted (Outcome.mapError_ne_aborted circuit.validate_ne_aborted)
  intro _ _
  rw [Circuit.computeId_total sha256 nodes outputs, Outcome.ok_bind]
  apply Outcome.bind_ne_aborted Outcome.reject_ne_aborted
  intro _ _
  exact Outcome.reject_ne_aborted

/-- The interactive verifier returns on every proof in memory. -/
theorem verify_ne_aborted (nodes : circuit.nodes.length < 2 ^ 32) (outputs : circuit.outputs.length < 2 ^ 32)
    (short : ∀ repetition ∈ proof.repetitions, ∀ opened ∈ repetition.openedViews,
      (commitmentMessage opened.view).length < 2 ^ 32) :
    verify sha256 backend statement proof circuit ≠ .aborted := by
  apply Outcome.bind_ne_aborted (Statement.validate_ne_aborted nodes outputs)
  intro _ validated
  have valid := (Statement.validate_ok_iff.mp validated).wellFormed
  apply Outcome.bind_ne_aborted Outcome.reject_ne_aborted
  intro _ _
  apply Outcome.bind_ne_aborted
  · apply Outcome.allM_ne_aborted
    intro entry listed
    have found := List.mem_zipIdx_iff_getElem?.mp listed
    apply Outcome.bind_ne_aborted Outcome.reject_ne_aborted
    intro _ _
    exact verifyRepetition_ne_aborted valid (short entry.1 (List.mem_of_getElem? found))
  · intro accepted _
    exact Outcome.ok_ne_aborted _

end Proofs

end PaymentAuth.Mpcith
