import PaymentAuth.Mpcith.Acceptance
import PaymentAuth.Mpcith.Joint

/-! The views a joint execution leaves its parties with, whatever its input shares
and triples are, and the responses the verifier accepts from them. -/

namespace PaymentAuth.Mpcith

open Library

namespace JointData

variable (data : JointData) (circuit : Circuit FieldElement) (value : ℕ → NodeVal Shares)

/-- What a party has recorded before a node of the joint execution. -/
def partyStateAt (n : ℕ) (p : PartyId) : PartyState where
  inputShares := (List.range circuit.numSecretInputs).map fun i => data.inputs i p
  localOperations := (marked (recordsOperation circuit p) n).map
    ((data.partyData circuit value p).operationAt circuit fun n => (value n).ofParty p)
  tripleShares := (List.range (circuit.tripleRank n)).map (data.partyData circuit value p).triples
  openedValues := (marked circuit.isSharedMul n).flatMap fun m =>
    let opened := (data.partyData circuit value p).openedAt circuit (fun n => (value n).ofParty p) m
    [opened.1, opened.2]

/-- The view a party of the joint execution ends up with. -/
def view (publics : ℕ → FieldElement) (id : RepetitionId) (p : PartyId) : PartyView :=
  buildView id p (data.partyStateAt circuit (data.execution circuit publics) circuit.nodes.length)

/-- The masks all three parties' contributions open to. -/
def globals (publics : ℕ → FieldElement) (id : RepetitionId) : List FieldElement :=
  (List.range (2 * circuit.tripleCount)).map fun k =>
    Shares.total fun p => inputAt (data.view circuit publics id p).openedValues k

/-- The value one party holds of a node of the joint execution. -/
def partyValue (publics : ℕ → FieldElement) (p : PartyId) (n : ℕ) : NodeVal FieldElement :=
  (data.execution circuit publics n).ofParty p

/-- A response that opens the views of a joint execution but claims any hidden output shares. -/
def response (publics : ℕ → FieldElement) (id : RepetitionId) (randomness : PartyId → Bytes)
    (commitments : PartyId → ViewCommitment) (challenge : Challenge) (hiddenOutputShares : List FieldElement) :
    Repetition where
  id := id
  commitments := [commitments 0, commitments 1, commitments 2]
  challenge := challenge
  openedViews := (PartyId.others challenge.hiddenParty).map fun p =>
    ⟨data.view circuit publics id p, randomness p⟩
  hiddenOutputShares := hiddenOutputShares
  hiddenBroadcasts := (data.view circuit publics id challenge.hiddenParty).openedValues

variable {data circuit} {publics : ℕ → FieldElement} {id : RepetitionId}

theorem execution_solves (valid : circuit.WellFormed) (data : JointData) (publics : ℕ → FieldElement) :
    circuit.Solves (data.meaning circuit publics) (data.execution circuit publics) :=
  valid.valueOf_solves _ _

theorem openedValues_length (id : RepetitionId) (p : PartyId) :
    (data.view circuit publics id p).openedValues.length = 2 * circuit.tripleCount :=
  (eq_flatMap_marked_iff.mp rfl).1

/-- What a party's view says of its computation is its part of the joint execution. -/
private theorem view_agrees (data : JointData) (circuit : Circuit FieldElement) (publics : ℕ → FieldElement)
    (id : RepetitionId) (p : PartyId) :
    (data.partyData circuit (data.execution circuit publics) p).Agrees
      circuit ((data.view circuit publics id p).data (data.globals circuit publics id)) where
  party := rfl
  inputs i small := by
    simp [PartyView.data, view, buildView, partyStateAt, partyData, inputAt, small]
  triples t small := by
    have below : t < circuit.tripleRank circuit.nodes.length := small
    simp [PartyView.data, view, buildView, partyStateAt, below]
  masks t small := by
    obtain ⟨n, bound, here, rfl⟩ := exists_rank_eq small
    have found := List.getElem?_eq_getElem bound
    rw [show rank circuit.isSharedMul n = circuit.tripleRank n from rfl,
      partyData_masks here bound]
    have contribution (q : PartyId) :
        inputAt (data.view circuit publics id q).openedValues (2 * circuit.tripleRank n) =
            ((data.partyData circuit (data.execution circuit publics) q).openedAt
              circuit (data.partyValue circuit publics q) n).1 ∧
          inputAt (data.view circuit publics id q).openedValues (2 * circuit.tripleRank n + 1) =
            ((data.partyData circuit (data.execution circuit publics) q).openedAt
              circuit (data.partyValue circuit publics q) n).2 := by
      obtain ⟨first, second⟩ := (eq_flatMap_marked_iff.mp
        (show (data.view circuit publics id q).openedValues = _ from rfl)).2 n bound here
      exact ⟨by simp only [inputAt, List.getD_eq_getElem?_getD]; rw [Circuit.tripleRank, first]; rfl,
        by simp only [inputAt, List.getD_eq_getElem?_getD]; rw [Circuit.tripleRank, second]; rfl⟩
    have small' : circuit.tripleRank n < circuit.tripleCount := small
    have opened (k : ℕ) (below : k < 2 * circuit.tripleCount) :
        inputAt (data.globals circuit publics id) k =
          Shares.total fun q => inputAt (data.view circuit publics id q).openedValues k := by
      simp [globals, inputAt, below]
    simp only [PartyView.data, opened _ (show 2 * circuit.tripleRank n < _ by omega),
      opened _ (show 2 * circuit.tripleRank n + 1 < _ by omega), contribution]
    cases shape : circuit.nodes[n] with
    | mul a b =>
      have value_asField (v : NodeVal Shares) (q : PartyId) : (v.ofParty q).asField = operand v q := by
        cases v <;> rfl
      simp only [masksAt, found, shape, PartyData.openedAt, partyValue, value_asField]
      rfl
    | _ => simp [Circuit.isSharedMul, found, shape] at here

/-- A joint execution leaves each party with a coherent view. -/
theorem view_coherent (valid : circuit.WellFormed) (p : PartyId) :
    (data.view circuit publics id p).Coherent circuit publics
      (data.globals circuit publics id) (data.partyValue circuit publics p) := by
  have agrees := view_agrees data circuit publics id p
  have solved := ofParty_solves valid (execution_solves valid data publics) p
  refine ⟨by simp [view, buildView, partyStateAt], agrees.solves valid solved, ?_,
    by simp [view, buildView, partyStateAt, Circuit.tripleCount], ?_,
    by simp [globals]⟩
  · refine List.map_congr_left fun n member => ?_
    obtain ⟨below, records⟩ := List.mem_filter.mp member
    exact agrees.operationAt_eq valid solved (List.mem_range.mp below) records
  · refine List.flatMap_congr fun n member => ?_
    obtain ⟨below, beaver⟩ := List.mem_filter.mp member
    simp only [← agrees.openedAt_eq (List.mem_range.mp below) beaver]
    rfl

/-- The commitment to a party's view, when its message can be encoded. -/
def commitment (data : JointData) (circuit : Circuit FieldElement) (publics : ℕ → FieldElement)
    (id : RepetitionId) (backend : CryptoBackend) (randomness : PartyId → Bytes) (p : PartyId) :
    ViewCommitment :=
  backend.hash (lengthPrefixed (randomness p) ++ lengthPrefixed (commitmentMessage (data.view circuit publics id p)))

/-- Only its size decides whether a party's view is committed. -/
theorem commitView_view (valid : circuit.WellFormed) (backend : CryptoBackend)
    (randomness : PartyId → Bytes) {p : PartyId} (size : (randomness p).length = randomnessLen) :
    commitView backend (data.view circuit publics id p) (randomness p) =
      if commitmentSize circuit p < 2 ^ 32 then .ok (data.commitment circuit publics id backend randomness p)
      else .aborted := by
  have coherent : (data.view circuit publics id p).Coherent _ _ _ _ := view_coherent valid p
  rw [commitView_eq backend _ size, coherent.commitmentMessage_length valid]
  rfl

/-- The verifier accepts such a response when the claimed shares complete the
opened ones to the expected outputs. -/
theorem response_accepted {backend : CryptoBackend} {statement : Statement} {randomness : PartyId → Bytes}
    {commitments : PartyId → ViewCommitment} {challenge : Challenge} {hiddenOutputShares : List FieldElement}
    (valid : circuit.WellFormed)
    (committed : ∀ p ≠ challenge.hiddenParty,
      commitView backend (data.view circuit (inputAt statement.publicInputs) id p) (randomness p) =
        .ok (commitments p))
    (outputShares : hiddenOutputShares.length = circuit.outputs.length)
    (outputs : ∀ (k : ℕ) (output : NodeId), circuit.outputs[k]? = some output →
      if circuit.dependsOnSecrets output.asUsize then
        inputAt hiddenOutputShares k + (openedTotal challenge.hiddenParty fun p =>
            (data.partyValue circuit (inputAt statement.publicInputs) p output.asUsize).asField) =
          inputAt statement.expectedOutputs k
      else inputAt hiddenOutputShares k = 0) :
    Accepted backend statement circuit
      (data.response circuit (inputAt statement.publicInputs) id randomness commitments challenge
        hiddenOutputShares)
      (data.view circuit (inputAt statement.publicInputs) id) randomness
      (data.globals circuit (inputAt statement.publicInputs) id)
      (data.partyValue circuit (inputAt statement.publicInputs)) where
  openedViews := rfl
  commitments := rfl
  party _ _ := rfl
  repetitionId _ _ := rfl
  committed p shown := by
    refine ⟨commitments p, ?_, committed p shown⟩
    match p with
    | 0 | 1 | 2 => rfl
  coherent p _ := view_coherent valid p
  broadcasts := openedValues_length id challenge.hiddenParty
  masks := by
    refine List.map_congr_left fun k _ => ?_
    exact (openedTotal_add challenge.hiddenParty fun p =>
      inputAt (data.view circuit (inputAt statement.publicInputs) id p).openedValues k).symm
  outputShares := outputShares
  outputs := outputs

end JointData

end PaymentAuth.Mpcith
