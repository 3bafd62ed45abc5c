import PaymentAuth.Mpcith.Transcript

namespace PaymentAuth.Mpcith

open Library

/-- The sharing of a value that two draws at a tape position determine. -/
def sharesAt (tape : Tape) (position : ℕ) (value : FieldElement) : Shares :=
  ![tape.elements position, tape.elements (position + 1),
    value - tape.elements position - tape.elements (position + 1)]

/-- The shared triple that eight draws at a tape position determine. -/
def tripleAt (tape : Tape) (position : ℕ) : SharedTriple where
  a := sharesAt tape (position + 2) (tape.elements position)
  b := sharesAt tape (position + 4) (tape.elements (position + 1))
  c := sharesAt tape (position + 6) (tape.elements position * tape.elements (position + 1))

@[simp] theorem sharesAt_total (tape : Tape) (position : ℕ) (value : FieldElement) :
    (sharesAt tape position value).total = value := by
  simp [sharesAt, Shares.total]

/-- A drawn triple multiplies. -/
theorem tripleAt_multiplies (tape : Tape) (position : ℕ) :
    (tripleAt tape position).c.total =
      (tripleAt tape position).a.total * (tripleAt tape position).b.total := by
  simp [tripleAt]

theorem nextTriple_eq (rng : Rng) :
    nextTriple rng =
      (((tripleAt rng.tape rng.drawn).a, (tripleAt rng.tape rng.drawn).b, (tripleAt rng.tape rng.drawn).c),
        { rng with drawn := rng.drawn + 8 }) := rfl

/-- The input shares and triples the prover draws for a witness. -/
def drawnData (witness : List FieldElement) (rng : Rng) : JointData where
  inputs i := sharesAt rng.tape (rng.drawn + 2 * i) (inputAt witness i)
  triples t := tripleAt rng.tape (rng.drawn + 2 * witness.length + 8 * t)

theorem shareInputs_eq (witness : List FieldElement) (parties : PartyId → PartyState) (rng : Rng) :
    shareInputs witness parties rng =
      (fun p => { parties p with
        inputShares := (parties p).inputShares ++
          (List.range witness.length).map fun i => (drawnData witness rng).inputs i p },
        { rng with drawn := rng.drawn + 2 * witness.length }) := by
  induction witness generalizing parties rng with
  | nil => simp [shareInputs]
  | cons secret rest ih =>
    have drawn : shareInputs (secret :: rest) parties rng = shareInputs rest
        (fun p => { parties p with
          inputShares := (parties p).inputShares ++ [sharesAt rng.tape rng.drawn secret p] })
        { rng with drawn := rng.drawn + 2 } := rfl
    rw [drawn, ih]
    refine Prod.ext (funext fun p => ?_) (by simp only [List.length_cons]; congr 1; ring)
    simp only [List.length_cons, List.range_succ_eq_map, List.map_cons, List.map_map, List.append_assoc,
      List.singleton_append]
    congr 3
    refine List.map_congr_left fun i _ => ?_
    simp only [drawnData, Function.comp, inputAt, List.getD_cons_succ]
    congr 1
    omega

/-- The prover's state before a node. -/
def stateAt (circuit : Circuit FieldElement) (witness : List FieldElement) (rng : Rng)
    (value : ℕ → NodeVal Shares) (n : ℕ) : ProverState where
  nextSecret := circuit.secretRank n
  nextPublic := circuit.publicRank n
  parties := (drawnData witness rng).partyStateAt circuit value n
  rng := { rng with drawn := rng.drawn + 2 * witness.length + 8 * circuit.tripleRank n }

section Nodes

variable {circuit : Circuit FieldElement} {statement : Statement} {witness : List FieldElement} {rng : Rng}
  {value : ℕ → NodeVal Shares} {n : ℕ}

private theorem partyStateAt_succ {data : JointData} (p : PartyId) :
    data.partyStateAt circuit value (n + 1) p =
      { data.partyStateAt circuit value n p with
        localOperations := (data.partyStateAt circuit value n p).localOperations ++
          if recordsOperation circuit p n then
            [(data.partyData circuit value p).operationAt circuit (fun n => (value n).ofParty p) n]
          else []
        tripleShares := (data.partyStateAt circuit value n p).tripleShares ++
          if circuit.isSharedMul n then [(data.partyData circuit value p).triples (circuit.tripleRank n)]
          else []
        openedValues := (data.partyStateAt circuit value n p).openedValues ++
          if circuit.isSharedMul n then
            [((data.partyData circuit value p).openedAt circuit (fun n => (value n).ofParty p) n).1,
              ((data.partyData circuit value p).openedAt circuit (fun n => (value n).ofParty p) n).2]
          else [] } := by
  simp only [JointData.partyStateAt, PartyState.mk.injEq, true_and]
  refine ⟨?_, ?_, ?_⟩
  · cases here : recordsOperation circuit p n with
    | false => simp [marked_succ_of_not here]
    | true => simp [marked_succ_of here]
  · cases here : circuit.isSharedMul n with
    | false => simp [Circuit.tripleRank_succ, here]
    | true => simp [Circuit.tripleRank_succ, here, List.range_succ]
  · cases here : circuit.isSharedMul n with
    | false => simp [marked_succ_of_not here]
    | true => simp [marked_succ_of here]

/-- An addition's value, and the parties that record it. -/
private theorem addGate_eq (out : NodeId) (va vb : NodeVal Shares) (state : ProverState) :
    addGate out va vb state =
      (JointData.addValues va vb, { state with
        parties := fun p => { state.parties p with
          localOperations := (state.parties p).localOperations ++
            if recordsAdd p va.isShared vb.isShared then
              [.add out ((va.ofParty p).asField + (vb.ofParty p).asField)]
            else [] } }) := by
  have absorbed (operation : LocalOperation) (operations : PartyId → LocalOperation)
      (same : operations 0 = operation) :
      (fun p => if p = 0 then (state.parties 0).record operation else state.parties p) =
        fun p => { state.parties p with
          localOperations := (state.parties p).localOperations ++
            if decide (p = 0) then [operations p] else [] } := by
    funext p
    by_cases zero : p = 0
    · subst zero
      simp [PartyState.record, same]
    · simp [zero]
  cases va <;> cases vb <;>
    simp only [addGate, JointData.addValues, NodeVal.isShared, NodeVal.ofParty, NodeVal.asField, recordsAdd,
      Bool.and_true, Bool.and_false, Bool.or_true, Bool.or_false, Bool.true_or, Bool.false_or, if_true,
      Bool.false_eq_true, if_false, List.append_nil, PartyState.record]
  case plain.shared v x =>
    rw [← absorbed (.add out (x 0 + v)) (fun p => .add out (v + x p)) (by rw [add_comm])]
    rfl
  case shared.plain x v =>
    rw [← absorbed (.add out (x 0 + v)) (fun p => .add out (x p + v)) rfl]
    rfl

/-- A multiplication's value, the draws it makes and what the parties record. -/
private theorem mulGate_eq (out : NodeId) (va vb : NodeVal Shares) (state : ProverState)
    (data : PartyId → PartyData) (t : ℕ) (party : ∀ p, (data p).party = p)
    (position : (state.parties 0).tripleShares.length = t)
    (triples : ∀ p, (data p).triples t =
      ⟨(tripleAt state.rng.tape state.rng.drawn).a p, (tripleAt state.rng.tape state.rng.drawn).b p,
        (tripleAt state.rng.tape state.rng.drawn).c p⟩)
    (masks : va.isShared = true → vb.isShared = true → ∀ p, (data p).masks t =
      (tripleAt state.rng.tape state.rng.drawn).masks (operand va) (operand vb)) :
    mulGate out va vb state =
      (JointData.mulValues (tripleAt state.rng.tape state.rng.drawn) va vb, { state with
        rng := { state.rng with
          drawn := state.rng.drawn + if va.isShared && vb.isShared then 8 else 0 }
        parties := fun p => { state.parties p with
          localOperations := (state.parties p).localOperations ++
            if va.isShared || vb.isShared then
              [(data p).mulOperation out t (va.ofParty p) (vb.ofParty p)]
            else []
          tripleShares := (state.parties p).tripleShares ++
            if va.isShared && vb.isShared then [(data p).triples t] else []
          openedValues := (state.parties p).openedValues ++
            if va.isShared && vb.isShared then
              [(va.ofParty p).asField - ((data p).triples t).a,
                (vb.ofParty p).asField - ((data p).triples t).b]
            else [] } }) := by
  cases va <;> cases vb <;>
    simp only [mulGate, JointData.mulValues, NodeVal.isShared, NodeVal.ofParty, NodeVal.asField,
      PartyData.mulOperation, Bool.and_true, Bool.and_false, Bool.or_true, Bool.or_false,
      if_true, Bool.false_eq_true, if_false, List.append_nil, PartyState.record, Nat.add_zero]
  case shared.shared x y =>
    have masks := masks rfl rfl
    simp only [nextTriple_eq, PartyData.product, triples, masks, party, position]
    rfl

private theorem vec3_eq {α : Type} (f : PartyId → α) : ![f 0, f 1, f 2] = f := by
  funext p
  match p with
  | 0 | 1 | 2 => rfl

/-- The cursors move past one node. -/
private theorem stateAt_succ {node : Node FieldElement} (found : circuit.nodes[n]? = some node) :
    stateAt circuit witness rng value (n + 1) =
    { nextSecret := circuit.secretRank n + if node.isSecretInput then 1 else 0
      nextPublic := circuit.publicRank n + if node.isPublicInput then 1 else 0
      parties := fun p => (drawnData witness rng).partyStateAt circuit value (n + 1) p
      rng := { rng with
        drawn := rng.drawn + 2 * witness.length + 8 * circuit.tripleRank n +
          if circuit.isSharedMul n then 8 else 0 } } := by
  simp only [stateAt, Circuit.secretRank_succ found, Circuit.publicRank_succ found,
    Circuit.tripleRank_succ, Nat.mul_add, Nat.add_assoc]
  cases circuit.isSharedMul n <;> rfl

/-- Simulating one node computes its joint value and records each party's part. -/
private theorem simulateNode_eq (valid : circuit.WellFormed)
    (publicInputs : statement.publicInputs.length = circuit.numPublicInputs)
    (solved : circuit.Solves
      ((drawnData witness rng).meaning circuit (inputAt statement.publicInputs)) value)
    {before : List (NodeVal Shares)} (size : before.length = n)
    (recorded : ∀ k < n, before[k]? = some (value k)) {node : Node FieldElement}
    (found : circuit.nodes[n]? = some node) :
    simulateNode statement before (stateAt circuit witness rng value n) node =
      .ok (value n, stateAt circuit witness rng value (n + 1)) := by
  have bound := (List.getElem?_eq_some_iff.mp found).1
  rw [solved n node found]
  rw [stateAt_succ found]
  simp only [partyStateAt_succ]
  cases node with
  | secretInput =>
    have below := valid.secretRank_lt found
    have read (p : PartyId) :
        ((stateAt circuit witness rng value n).parties p).inputShares[circuit.secretRank n]? =
          some ((drawnData witness rng).inputs (circuit.secretRank n) p) := by
      simp [stateAt, JointData.partyStateAt, below]
    have quiet := Circuit.isSharedMul_leaf found rfl
    have silent := recordsOperation_leaf found rfl
    have cursor : (stateAt circuit witness rng value n).nextSecret = circuit.secretRank n := rfl
    simp only [simulateNode, cursor, read, Outcome.expect_some, Outcome.ok_bind, vec3_eq, quiet, silent]
    simp [stateAt, Interpretation.rule, JointData.meaning, Node.isSecretInput, Node.isPublicInput]
  | publicInput =>
    have read := inputAt_of_lt (publicInputs ▸ valid.publicRank_lt found)
    have quiet := Circuit.isSharedMul_leaf found rfl
    have silent := recordsOperation_leaf found rfl
    have cursor : (stateAt circuit witness rng value n).nextPublic = circuit.publicRank n := rfl
    simp only [simulateNode, cursor, read, Outcome.expect_some, Outcome.ok_bind, quiet, silent]
    simp [stateAt, Interpretation.rule, JointData.meaning, Node.isSecretInput, Node.isPublicInput]
  | constant c =>
    have quiet := Circuit.isSharedMul_leaf found rfl
    have silent := recordsOperation_leaf found rfl
    simp only [simulateNode, quiet, silent]
    simp [stateAt, Interpretation.rule, JointData.meaning, Node.isSecretInput, Node.isPublicInput]
  | add a b =>
    obtain ⟨left, right⟩ := valid.operands n _ a b found rfl
    have records (p : PartyId) : recordsOperation circuit p n =
        recordsAdd p (value a.asUsize).isShared (value b.asUsize).isShared := by
      simp [recordsOperation, found, JointData.isShared_eq valid solved (show a.asUsize < _ by omega),
        JointData.isShared_eq valid solved (show b.asUsize < _ by omega)]
    have quiet : circuit.isSharedMul n = false := by simp [Circuit.isSharedMul, found]
    have operation (p : PartyId) :
        ((drawnData witness rng).partyData circuit value p).operationAt circuit
            (fun n => (value n).ofParty p) n =
          .add (.ofIndex n) (((value a.asUsize).ofParty p).asField + ((value b.asUsize).ofParty p).asField) := by
      simp [PartyData.operationAt, found]
    simp only [simulateNode, recorded _ left, recorded _ right, Outcome.expect_some, Outcome.ok_bind,
      addGate_eq, size, quiet, records, operation]
    simp [stateAt, Interpretation.rule, JointData.meaning, Node.isSecretInput, Node.isPublicInput]
  | mul a b =>
    obtain ⟨left, right⟩ := valid.operands n _ a b found rfl
    have sharedLeft := JointData.isShared_eq valid solved (show a.asUsize < circuit.nodes.length by omega)
    have sharedRight := JointData.isShared_eq valid solved (show b.asUsize < circuit.nodes.length by omega)
    have records (p : PartyId) : recordsOperation circuit p n =
        ((value a.asUsize).isShared || (value b.asUsize).isShared) := by
      simp [recordsOperation, found, sharedLeft, sharedRight]
    have beaver : circuit.isSharedMul n =
        ((value a.asUsize).isShared && (value b.asUsize).isShared) := by
      simp [Circuit.isSharedMul, found, sharedLeft, sharedRight]
    have operation (p : PartyId) :
        ((drawnData witness rng).partyData circuit value p).operationAt circuit
            (fun n => (value n).ofParty p) n =
          ((drawnData witness rng).partyData circuit value p).mulOperation (.ofIndex n)
            (circuit.tripleRank n) ((value a.asUsize).ofParty p) ((value b.asUsize).ofParty p) := by
      simp [PartyData.operationAt, found]
    have opened (p : PartyId) :
        ((drawnData witness rng).partyData circuit value p).openedAt circuit
            (fun n => (value n).ofParty p) n =
          (((value a.asUsize).ofParty p).asField -
              (((drawnData witness rng).partyData circuit value p).triples (circuit.tripleRank n)).a,
            ((value b.asUsize).ofParty p).asField -
              (((drawnData witness rng).partyData circuit value p).triples (circuit.tripleRank n)).b) := by
      simp [PartyData.openedAt, found]
    simp only [simulateNode, recorded _ left, recorded _ right, Outcome.expect_some, Outcome.ok_bind, size]
    rw [mulGate_eq _ _ _ _ ((drawnData witness rng).partyData circuit value) (circuit.tripleRank n)
      (fun _ => rfl) (by simp [stateAt, JointData.partyStateAt]) (fun _ => rfl) (by
        intro leftShared rightShared p
        rw [JointData.partyData_masks (by rw [beaver, leftShared, rightShared]; rfl) bound]
        simp only [JointData.masksAt, found]
        rfl)]
    simp only [records, beaver, operation, opened]
    simp [stateAt, Interpretation.rule, JointData.meaning, Node.isSecretInput, Node.isPublicInput]
    rfl

private theorem stateAt_zero (witnessCount : witness.length = circuit.numSecretInputs) :
    stateAt circuit witness rng value 0 =
      ⟨0, 0, (shareInputs witness (fun _ => .empty) rng).1, (shareInputs witness (fun _ => .empty) rng).2⟩ := by
  rw [shareInputs_eq, witnessCount]
  simp only [stateAt, PartyState.empty, Circuit.secretRank, Circuit.publicRank, Circuit.tripleRank,
    rank_zero, witnessCount, Nat.mul_zero, Nat.add_zero, List.nil_append]
  congr 1

/-- The simulation of a validated circuit runs to the end of the joint execution. -/
private theorem simulate_eq (valid : circuit.WellFormed)
    (witnessCount : witness.length = circuit.numSecretInputs)
    (publicInputs : statement.publicInputs.length = circuit.numPublicInputs)
    (solved : circuit.Solves
      ((drawnData witness rng).meaning circuit (inputAt statement.publicInputs)) value) :
    forwardPass (simulateNode statement) circuit.nodes []
        ⟨0, 0, (shareInputs witness (fun _ => .empty) rng).1, (shareInputs witness (fun _ => .empty) rng).2⟩ =
      .ok ((List.range circuit.nodes.length).map value,
        stateAt circuit witness rng value circuit.nodes.length) := by
  rw [show (⟨0, 0, _, _⟩ : ProverState) = stateAt circuit witness rng value 0 from
    (stateAt_zero witnessCount).symm]
  refine forwardPass_ok_iff.mpr ⟨stateAt circuit witness rng value, ⟨by simp, fun n node found => ?_⟩, rfl, rfl⟩
  have bound := (List.getElem?_eq_some_iff.mp found).1
  refine ⟨value n, by simp [bound], simulateNode_eq valid publicInputs solved (by simp; omega) ?_ found⟩
  intro k small
  simp [small, show k < circuit.nodes.length by omega]

end Nodes

/-- The values of the joint execution a prover simulates from a tape position. -/
def MpcithProver.execution (prover : MpcithProver) (rng : Rng) : ℕ → NodeVal Shares :=
  (drawnData prover.witness rng).execution prover.circuit (inputAt prover.statement.publicInputs)

theorem MpcithProver.execution_solves {prover : MpcithProver} (valid : prover.circuit.WellFormed) (rng : Rng) :
    prover.circuit.Solves
      ((drawnData prover.witness rng).meaning prover.circuit (inputAt prover.statement.publicInputs))
      (prover.execution rng) :=
  JointData.execution_solves valid _ _

/-- The view a party builds up in the simulation. -/
def MpcithProver.honestView (prover : MpcithProver) (id : RepetitionId) (rng : Rng) (p : PartyId) : PartyView :=
  (drawnData prover.witness rng).view prover.circuit (inputAt prover.statement.publicInputs) id p

/-- The repetition a prover has committed to once its views are committed. -/
def MpcithProver.honestPartial (prover : MpcithProver) (id : RepetitionId) (rng : Rng)
    (commitments : PartyId → ViewCommitment) : PartialRepetition where
  id := id
  commitments := [commitments 0, commitments 1, commitments 2]
  views := prover.honestView id rng
  randomness p := rng.tape.fills (rng.filled + p.val)
  outputVals := prover.circuit.outputs.map fun id =>
    MpcithProver.outputVal (prover.execution rng id.asUsize)
  broadcasts p := (prover.honestView id rng p).openedValues

/-- The draws one repetition makes. -/
def MpcithProver.after (prover : MpcithProver) (rng : Rng) : Rng :=
  { rng with
    drawn := rng.drawn + 2 * prover.witness.length + 8 * prover.circuit.tripleCount
    filled := rng.filled + 3 }

/-- The commitment phase simulates the joint execution and commits its three views. -/
theorem MpcithProver.commitRepetition_eq {prover : MpcithProver} (valid : prover.circuit.WellFormed)
    (witnessCount : prover.witness.length = prover.circuit.numSecretInputs)
    (publicInputs : prover.statement.publicInputs.length = prover.circuit.numPublicInputs)
    (backend : CryptoBackend) (id : RepetitionId) (rng : Rng) :
    prover.commitRepetition backend id rng = (do
      let c0 ← commitView backend (prover.honestView id rng 0) (rng.tape.fills rng.filled)
      let c1 ← commitView backend (prover.honestView id rng 1) (rng.tape.fills (rng.filled + 1))
      let c2 ← commitView backend (prover.honestView id rng 2) (rng.tape.fills (rng.filled + 2))
      .ok (prover.honestPartial id rng ![c0, c1, c2], prover.after rng)) := by
  have outputs : (prover.circuit.outputs.mapM fun id => (MpcithProver.outputVal <$>
        Outcome.expect ((List.range prover.circuit.nodes.length).map (prover.execution rng))[id.asUsize]? :
          Outcome MpcithError _)) =
      .ok (prover.circuit.outputs.map fun id => MpcithProver.outputVal (prover.execution rng id.asUsize)) :=
    Outcome.mapM_ok_of_forall _ fun id member => by simp [valid.outputs id member]
  have randomness : ![(rng.tape.fills rng.filled).val, (rng.tape.fills (rng.filled + 1)).val,
      (rng.tape.fills (rng.filled + 2)).val] = fun p : PartyId => (rng.tape.fills (rng.filled + p.val)).val :=
    vec3_eq fun p : PartyId => (rng.tape.fills (rng.filled + p.val)).val
  have reached := simulate_eq valid witnessCount publicInputs (execution_solves valid rng)
  simp only [MpcithProver.commitRepetition, reached, outputs, Outcome.ok_bind, Rng.freshRandomness,
    MpcithProver.honestPartial, ← randomness]
  rfl

/-- It succeeds exactly when the three views can be committed. -/
theorem MpcithProver.commitRepetition_ok_iff {backend : CryptoBackend} {prover : MpcithProver}
    (valid : prover.circuit.WellFormed)
    (witnessCount : prover.witness.length = prover.circuit.numSecretInputs)
    (publicInputs : prover.statement.publicInputs.length = prover.circuit.numPublicInputs)
    {id : RepetitionId} {rng next : Rng} {committed : PartialRepetition} :
    prover.commitRepetition backend id rng = .ok (committed, next) ↔
      ∃ commitments : PartyId → ViewCommitment,
        (∀ p, commitView backend (prover.honestView id rng p) (rng.tape.fills (rng.filled + p.val)) =
          .ok (commitments p)) ∧
        committed = prover.honestPartial id rng commitments ∧ next = prover.after rng := by
  rw [commitRepetition_eq valid witnessCount publicInputs]
  simp only [Outcome.bind_ok_iff, Outcome.ok.injEq, Prod.mk.injEq]
  constructor
  · rintro ⟨c0, first, c1, second, c2, third, rfl, rfl⟩
    refine ⟨![c0, c1, c2], fun p => ?_, rfl, rfl⟩
    match p with
    | 0 => exact first
    | 1 => exact second
    | 2 => exact third
  · rintro ⟨commitments, committed, rfl, rfl⟩
    exact ⟨_, committed 0, _, committed 1, _, committed 2, by rw [vec3_eq], rfl⟩

end PaymentAuth.Mpcith
