import PaymentAuth.Mpcith.Execution

namespace PaymentAuth.Mpcith

open Library

theorem expectOp_ok_iff {view : PartyView} {expected : LocalOperation} {cursor next : ReplayCursor} :
    expectOp view expected cursor = .ok next ↔
      view.localOperations[cursor.nextOp]? = some expected ∧
        next = { cursor with nextOp := cursor.nextOp + 1 } := by
  simp only [expectOp, Outcome.bind_ok_iff, Outcome.okOr_ok_iff, Outcome.reject_ok_iff, exists_const,
    not_not, Outcome.ok.injEq]
  constructor
  · rintro ⟨op, found, -, rfl, rfl⟩
    exact ⟨found, rfl⟩
  · rintro ⟨found, rfl⟩
    exact ⟨_, found, rfl, rfl, rfl⟩

section Gates

variable {view : PartyView} {globals : List FieldElement} {out : NodeId}
  {va vb value : NodeVal FieldElement} {cursor next : ReplayCursor}

private theorem recorded_ok_iff {expected : LocalOperation} {share : FieldElement} :
    (expectOp view expected cursor >>= fun cursor =>
        (.ok (.shared share, cursor) : Outcome MpcithError _)) = .ok (value, next) ↔
      value = .shared share ∧ view.localOperations[cursor.nextOp]? = some expected ∧
        next = { cursor with nextOp := cursor.nextOp + 1 } := by
  simp only [Outcome.bind_ok_iff, expectOp_ok_iff, Outcome.ok.injEq, Prod.mk.injEq]
  constructor
  · rintro ⟨_, ⟨found, rfl⟩, rfl, rfl⟩
    exact ⟨rfl, found, rfl⟩
  · rintro ⟨rfl, found, rfl⟩
    exact ⟨_, ⟨found, rfl⟩, rfl, rfl⟩

private theorem replayAdd_ok_iff :
    replayAdd view out va vb cursor = .ok (value, next) ↔
      value = PartyData.addValue view.partyId va vb ∧
        if recordsAdd view.partyId va.isShared vb.isShared then
          view.localOperations[cursor.nextOp]? = some (.add out (va.asField + vb.asField)) ∧
            next = { cursor with nextOp := cursor.nextOp + 1 }
        else next = cursor := by
  cases va with
  | plain x =>
    cases vb with
    | plain y => simp [replayAdd, PartyData.addValue, recordsAdd, NodeVal.isShared, eq_comm]
    | shared y =>
      by_cases zero : view.partyId = 0
      · simpa [replayAdd, zero, PartyData.addValue, recordsAdd, NodeVal.isShared, NodeVal.asField,
          add_comm y x] using recorded_ok_iff
      · simp [replayAdd, PartyData.addValue, recordsAdd, NodeVal.isShared, zero, eq_comm]
  | shared x =>
    cases vb with
    | plain y =>
      by_cases zero : view.partyId = 0
      · simpa [replayAdd, zero, PartyData.addValue, recordsAdd, NodeVal.isShared, NodeVal.asField]
          using recorded_ok_iff
      · simp [replayAdd, PartyData.addValue, recordsAdd, NodeVal.isShared, zero, eq_comm]
    | shared y =>
      simpa [replayAdd, PartyData.addValue, recordsAdd, NodeVal.isShared, NodeVal.asField]
        using recorded_ok_iff

/-- What the triple and the masks of a Beaver multiplication are checked for. -/
private def MasksChecked (view : PartyView) (globals : List FieldElement) (t : ℕ)
    (opened : FieldElement × FieldElement) : Prop :=
  t < view.tripleShares.length ∧ view.openedValues[2 * t]? = some opened.1 ∧
    view.openedValues[2 * t + 1]? = some opened.2 ∧ 2 * t + 1 < globals.length

private theorem replayMul_ok_iff (aligned : cursor.nextOpened = 2 * cursor.nextTriple) :
    replayMul view globals out va vb cursor = .ok (value, next) ↔
      value = PartyData.mulValue ((view.data globals).product cursor.nextTriple) va vb ∧
        if va.isShared && vb.isShared then
          MasksChecked view globals cursor.nextTriple
              (va.asField - ((view.data globals).triples cursor.nextTriple).a,
                vb.asField - ((view.data globals).triples cursor.nextTriple).b) ∧
            view.localOperations[cursor.nextOp]? =
              some ((view.data globals).mulOperation out cursor.nextTriple va vb) ∧
            next = { cursor with
              nextOp := cursor.nextOp + 1
              nextTriple := cursor.nextTriple + 1
              nextOpened := cursor.nextOpened + 2 }
        else if va.isShared || vb.isShared then
          view.localOperations[cursor.nextOp]? =
              some ((view.data globals).mulOperation out cursor.nextTriple va vb) ∧
            next = { cursor with nextOp := cursor.nextOp + 1 }
        else next = cursor := by
  cases va with
  | plain x =>
    cases vb with
    | plain y => simp [replayMul, PartyData.mulValue, NodeVal.isShared, eq_comm]
    | shared y =>
      simpa [replayMul, PartyData.mulValue, PartyData.mulOperation, NodeVal.isShared, NodeVal.asField,
        mul_comm y x] using recorded_ok_iff
  | shared x =>
    cases vb with
    | plain y =>
      simpa [replayMul, PartyData.mulValue, PartyData.mulOperation, NodeVal.isShared, NodeVal.asField]
        using recorded_ok_iff
    | shared y =>
      simp only [replayMul, Outcome.bind_ok_iff, Outcome.okOr_ok_iff, Outcome.reject_ok_iff,
        expectOp_ok_iff, exists_const, not_or, not_not, Outcome.ok.injEq, Prod.mk.injEq, aligned,
        PartyData.mulValue, PartyData.mulOperation, PartyData.product, PartyView.data, NodeVal.isShared,
        NodeVal.asField, Bool.and_self, if_true, MasksChecked]
      constructor
      · rintro ⟨triple, foundTriple, _, foundD, _, foundE, ⟨rfl, rfl⟩, d, readD, e, readE, _,
          ⟨foundOp, rfl⟩, rfl, rfl⟩
        obtain ⟨tripleBound, rfl⟩ := List.getElem?_eq_some_iff.mp foundTriple
        obtain ⟨dBound, rfl⟩ := List.getElem?_eq_some_iff.mp readD
        obtain ⟨eBound, rfl⟩ := List.getElem?_eq_some_iff.mp readE
        simp [inputAt, tripleBound, dBound, eBound, foundD, foundE, foundOp]
      · rintro ⟨rfl, ⟨tripleBound, foundD, foundE, globalBound⟩, foundOp, rfl⟩
        refine ⟨_, List.getElem?_eq_getElem tripleBound, _, foundD, _, foundE, ?_, _,
          List.getElem?_eq_getElem (by omega), _, List.getElem?_eq_getElem globalBound, _,
          ⟨?_, rfl⟩, ?_, rfl⟩
        · simp [tripleBound]
        · simpa [inputAt, tripleBound, globalBound,
            show 2 * cursor.nextTriple < globals.length by omega] using foundOp
        · simp [inputAt, tripleBound, globalBound, show 2 * cursor.nextTriple < globals.length by omega]

end Gates

/-- How much a replay has consumed before a node. -/
def cursorAt (circuit : Circuit FieldElement) (party : PartyId) (n : ℕ) : ReplayCursor where
  nextSecret := circuit.secretRank n
  nextPublic := circuit.publicRank n
  nextOp := operationRank circuit party n
  nextTriple := circuit.tripleRank n
  nextOpened := 2 * circuit.tripleRank n

/-- What a replay checks of the view at one node. -/
private structure NodeChecked (view : PartyView) (globals : List FieldElement)
    (circuit : Circuit FieldElement) (value : ℕ → NodeVal FieldElement) (n : ℕ) : Prop where
  operation : recordsOperation circuit view.partyId n = true →
    view.localOperations[operationRank circuit view.partyId n]? =
      some ((view.data globals).operationAt circuit value n)
  masks : circuit.isSharedMul n = true →
    MasksChecked view globals (circuit.tripleRank n) ((view.data globals).openedAt circuit value n)

section Nodes

variable {circuit : Circuit FieldElement} {statement : Statement} {view : PartyView}
  {globals : List FieldElement} {value : ℕ → NodeVal FieldElement} {n : ℕ} {node : Node FieldElement}

private theorem cursorAt_leaf (found : circuit.nodes[n]? = some node) (leaf : node.operands = none)
    (party : PartyId) :
    cursorAt circuit party (n + 1) =
      { cursorAt circuit party n with
        nextSecret := circuit.secretRank n + if node.isSecretInput then 1 else 0
        nextPublic := circuit.publicRank n + if node.isPublicInput then 1 else 0 } := by
  simp [cursorAt, Circuit.secretRank_succ found, Circuit.publicRank_succ found, Circuit.tripleRank_succ,
    operationRank, rank_succ, recordsOperation_leaf found leaf, Circuit.isSharedMul_leaf found leaf]

private theorem nodeChecked_leaf (found : circuit.nodes[n]? = some node) (leaf : node.operands = none) :
    NodeChecked view globals circuit value n :=
  ⟨by simp [recordsOperation_leaf found leaf], by simp [Circuit.isSharedMul_leaf found leaf]⟩

private theorem cursorAt_gate {a b : NodeId} (found : circuit.nodes[n]? = some node)
    (gate : node.operands = some (a, b)) (party : PartyId) :
    cursorAt circuit party (n + 1) =
      { cursorAt circuit party n with
        nextOp := operationRank circuit party n + if recordsOperation circuit party n then 1 else 0
        nextTriple := circuit.tripleRank n + if circuit.isSharedMul n then 1 else 0
        nextOpened := 2 * circuit.tripleRank n + if circuit.isSharedMul n then 2 else 0 } := by
  have doubled : 2 * (circuit.tripleRank n + if circuit.isSharedMul n then 1 else 0) =
      2 * circuit.tripleRank n + if circuit.isSharedMul n then 2 else 0 := by
    split <;> omega
  cases node <;> cases gate <;>
    simp [cursorAt, Circuit.secretRank_succ found, Circuit.publicRank_succ found,
      Circuit.tripleRank_succ, operationRank, rank_succ, Node.isSecretInput, Node.isPublicInput, doubled]

/-- Replaying one node computes its value and advances past what it consumed,
exactly when the view passes the node's checks. -/
private theorem replayNode_ok_iff (valid : circuit.WellFormed)
    (inputShares : view.inputShares.length = circuit.numSecretInputs)
    (publicInputs : statement.publicInputs.length = circuit.numPublicInputs)
    {before : List (NodeVal FieldElement)} (size : before.length = n)
    (recorded : ∀ k < n, before[k]? = some (value k))
    (shared : ∀ k < n, (value k).isShared = circuit.dependsOnSecrets k)
    (found : circuit.nodes[n]? = some node) {result : NodeVal FieldElement} {next : ReplayCursor} :
    replayNode statement view globals before (cursorAt circuit view.partyId n) node = .ok (result, next) ↔
      result = ((view.data globals).meaning circuit (inputAt statement.publicInputs)).rule value n node ∧
        NodeChecked view globals circuit value n ∧ next = cursorAt circuit view.partyId (n + 1) := by
  cases node with
  | secretInput =>
    have read := inputAt_of_lt (inputShares ▸ valid.secretRank_lt found)
    have checked : NodeChecked view globals circuit value n := nodeChecked_leaf found rfl
    rw [cursorAt_leaf found rfl]
    simp [replayNode, cursorAt, read, checked, Interpretation.rule, PartyData.meaning, PartyView.data,
      Node.isSecretInput, Node.isPublicInput, eq_comm]
  | publicInput =>
    have read := inputAt_of_lt (publicInputs ▸ valid.publicRank_lt found)
    have checked : NodeChecked view globals circuit value n := nodeChecked_leaf found rfl
    rw [cursorAt_leaf found rfl]
    simp [replayNode, cursorAt, read, checked, Interpretation.rule, PartyData.meaning,
      Node.isSecretInput, Node.isPublicInput, eq_comm]
  | constant c =>
    have checked : NodeChecked view globals circuit value n := nodeChecked_leaf found rfl
    rw [cursorAt_leaf found rfl]
    simp [replayNode, cursorAt, checked, Interpretation.rule, PartyData.meaning, Node.isSecretInput,
      Node.isPublicInput, eq_comm]
  | add a b =>
    obtain ⟨left, right⟩ := valid.operands n _ a b found rfl
    have records : recordsOperation circuit view.partyId n =
        recordsAdd view.partyId (value a.asUsize).isShared (value b.asUsize).isShared := by
      simp [recordsOperation, found, shared _ left, shared _ right]
    have notMul : circuit.isSharedMul n = false := by simp [Circuit.isSharedMul, found]
    have checked : NodeChecked view globals circuit value n ↔
        (recordsOperation circuit view.partyId n = true →
          view.localOperations[operationRank circuit view.partyId n]? =
            some (.add (.ofIndex n) ((value a.asUsize).asField + (value b.asUsize).asField))) := by
      refine ⟨fun both recording => ?_, fun operation => ⟨fun recording => ?_, by simp [notMul]⟩⟩
      · simpa [PartyData.operationAt, found] using both.operation recording
      · simpa [PartyData.operationAt, found] using operation recording
    rw [cursorAt_gate found rfl, checked, notMul, records]
    simp only [replayNode, recorded _ left, recorded _ right, Outcome.expect_some, Outcome.ok_bind,
      replayAdd_ok_iff, size, Interpretation.rule, PartyData.meaning, PartyView.data]
    refine and_congr_right fun _ => ?_
    cases recordsAdd view.partyId (value a.asUsize).isShared (value b.asUsize).isShared <;>
      simp [cursorAt]
  | mul a b =>
    obtain ⟨left, right⟩ := valid.operands n _ a b found rfl
    have records : recordsOperation circuit view.partyId n =
        ((value a.asUsize).isShared || (value b.asUsize).isShared) := by
      simp [recordsOperation, found, shared _ left, shared _ right]
    have beaver : circuit.isSharedMul n =
        ((value a.asUsize).isShared && (value b.asUsize).isShared) := by
      simp [Circuit.isSharedMul, found, shared _ left, shared _ right]
    have operation : (view.data globals).operationAt circuit value n =
        (view.data globals).mulOperation (.ofIndex n) (circuit.tripleRank n) (value a.asUsize)
          (value b.asUsize) := by
      simp [PartyData.operationAt, found]
    have opened : (view.data globals).openedAt circuit value n =
        ((value a.asUsize).asField - ((view.data globals).triples (circuit.tripleRank n)).a,
          (value b.asUsize).asField - ((view.data globals).triples (circuit.tripleRank n)).b) := by
      simp [PartyData.openedAt, found]
    have checked : NodeChecked view globals circuit value n ↔
        (recordsOperation circuit view.partyId n = true →
          view.localOperations[operationRank circuit view.partyId n]? =
            some ((view.data globals).operationAt circuit value n)) ∧
          (circuit.isSharedMul n = true → MasksChecked view globals (circuit.tripleRank n)
            ((view.data globals).openedAt circuit value n)) :=
      ⟨fun both => ⟨both.operation, both.masks⟩, fun both => ⟨both.1, both.2⟩⟩
    rw [cursorAt_gate found rfl, checked, records, beaver, operation, opened]
    simp only [replayNode, recorded _ left, recorded _ right, Outcome.expect_some, Outcome.ok_bind, size]
    rw [replayMul_ok_iff (by rfl)]
    refine and_congr_right fun _ => ?_
    cases (value a.asUsize).isShared <;> cases (value b.asUsize).isShared <;>
      simp only [cursorAt, Bool.and_true, Bool.and_false, Bool.or_true, Bool.or_false, if_true, if_false,
        Bool.false_eq_true, forall_true_left, IsEmpty.forall_iff, true_and, and_true, Nat.add_zero]
    rw [and_left_comm, and_assoc]

/-- The values of a completed replay come from a coherent view. -/
private theorem coherent_of_trace (valid : circuit.WellFormed)
    (inputShares : view.inputShares.length = circuit.numSecretInputs)
    (publicInputs : statement.publicInputs.length = circuit.numPublicInputs)
    {values : List (NodeVal FieldElement)} {states : ℕ → ReplayCursor}
    (trace : Trace (replayNode statement view globals) circuit.nodes values states)
    (start : states 0 = ⟨0, 0, 0, 0, 0⟩)
    (operations : (states circuit.nodes.length).nextOp = view.localOperations.length)
    (triples : (states circuit.nodes.length).nextTriple = view.tripleShares.length)
    (openings : (states circuit.nodes.length).nextOpened = view.openedValues.length) :
    view.Coherent circuit (inputAt statement.publicInputs) globals fun n => values.getD n (.plain 0) := by
  have before {n : ℕ} (bound : n < circuit.nodes.length) :
      (values.take n).length = n ∧ ∀ k < n, (values.take n)[k]? = some (values.getD k (.plain 0)) := by
    have size := trace.length
    refine ⟨by simp; omega, fun k small => ?_⟩
    simp [small, show k < values.length by omega]
  have reached := trace.invariant
    (fun n cursor => cursor = cursorAt circuit view.partyId n ∧
      ∀ k < n, (values.getD k (.plain 0)).isShared = circuit.dependsOnSecrets k)
    ⟨start, by simp⟩ (by
      rintro n node value found here ⟨cursor, shared⟩ success
      have bound := (List.getElem?_eq_some_iff.mp found).1
      rw [cursor] at success
      obtain ⟨computed, -, advanced⟩ := (replayNode_ok_iff valid inputShares publicInputs
        (before bound).1 (before bound).2 shared found).mp success
      refine ⟨advanced, fun k small => ?_⟩
      by_cases last : k = n
      · subst last
        rw [show values.getD k (.plain 0) = value by simp [here], computed,
          valid.dependsOnSecrets_solves k node found]
        refine PartyData.isShared_rule _ fun a b gate => ?_
        obtain ⟨left, right⟩ := valid.operands k node a b found gate
        exact ⟨shared _ left, shared _ right⟩
      · exact shared k (by omega))
  have each {n : ℕ} {node : Node FieldElement} (found : circuit.nodes[n]? = some node) :
      values.getD n (.plain 0) =
          ((view.data globals).meaning circuit (inputAt statement.publicInputs)).rule
            (fun n => values.getD n (.plain 0)) n node ∧
        NodeChecked view globals circuit (fun n => values.getD n (.plain 0)) n := by
    have bound := (List.getElem?_eq_some_iff.mp found).1
    obtain ⟨value, here, success⟩ := trace.step n node found
    obtain ⟨cursor, shared⟩ := reached n bound.le
    rw [cursor] at success
    obtain ⟨computed, checked, -⟩ := (replayNode_ok_iff valid inputShares publicInputs
      (before bound).1 (before bound).2 shared found).mp success
    exact ⟨by rw [← computed]; simp [here], checked⟩
  have checked {n : ℕ} (bound : n < circuit.nodes.length) :=
    (each (List.getElem?_eq_getElem bound)).2
  rw [(reached _ le_rfl).1] at operations triples openings
  refine ⟨inputShares, fun n node found => (each found).1, ?_, triples.symm, ?_, ?_⟩
  · exact eq_map_marked_iff.mpr ⟨operations.symm, fun n bound here => (checked bound).operation here⟩
  · refine eq_flatMap_marked_iff.mpr ⟨openings.symm, fun n bound here => ?_⟩
    obtain ⟨-, first, second, -⟩ := (checked bound).masks here
    exact ⟨first, second⟩
  · by_contra short
    have inside : circuit.tripleCount - 1 < rank circuit.isSharedMul circuit.nodes.length := by
      change _ < circuit.tripleCount
      omega
    obtain ⟨n, bound, here, last⟩ := exists_rank_eq inside
    obtain ⟨-, -, -, enough⟩ := (checked bound).masks here
    change 2 * rank circuit.isSharedMul n + 1 < globals.length at enough
    omega

/-- A coherent view replays to its values. -/
theorem PartyView.Coherent.replayParty (valid : circuit.WellFormed)
    (publicInputs : statement.publicInputs.length = circuit.numPublicInputs)
    (coherent : view.Coherent circuit (inputAt statement.publicInputs) globals value) :
    replayParty statement view circuit globals = .ok ((List.range circuit.nodes.length).map value) := by
  have operations := eq_map_marked_iff.mp coherent.localOperations
  have openings := eq_flatMap_marked_iff.mp coherent.openedValues
  have run : forwardPass (replayNode statement view globals) circuit.nodes [] ⟨0, 0, 0, 0, 0⟩ =
      .ok ((List.range circuit.nodes.length).map value,
        cursorAt circuit view.partyId circuit.nodes.length) := by
    refine forwardPass_ok_iff.mpr ⟨cursorAt circuit view.partyId, ⟨by simp, ?_⟩, rfl, rfl⟩
    intro n node found
    have bound := (List.getElem?_eq_some_iff.mp found).1
    refine ⟨value n, by simp [bound], ?_⟩
    have recorded : ∀ k < n, (((List.range circuit.nodes.length).map value).take n)[k]? = some (value k) := by
      intro k small
      simp [small, show k < circuit.nodes.length by omega]
    refine (replayNode_ok_iff valid coherent.inputShares publicInputs (by simp; omega) recorded
      (fun k small => ?_) found).mpr
      ⟨coherent.solves n node found, ⟨fun here => ?_, fun here => ?_⟩, rfl⟩
    · exact PartyData.isShared_eq valid coherent.solves (by omega)
    · exact operations.2 n bound here
    · obtain ⟨first, second⟩ := openings.2 n bound here
      have below : circuit.tripleRank n < circuit.tripleCount := rank_lt here bound
      exact ⟨by rw [coherent.tripleShares]; exact below, first, second, by
        have enough := coherent.globals; omega⟩
  simp only [Mpcith.replayParty, run, Outcome.ok_bind]
  rw [Outcome.reject_of_not (by simp [coherent.inputShares])]
  rw [Outcome.ok_bind, Outcome.reject_of_not]
  · rfl
  · simp only [cursorAt, not_or, not_not]
    exact ⟨operations.1.symm, coherent.tripleShares.symm, openings.1.symm⟩

/-- A replay succeeds exactly on a view that records the computation its inputs,
triples and the global masks determine. -/
theorem replayParty_ok_iff (valid : circuit.WellFormed)
    (publicInputs : statement.publicInputs.length = circuit.numPublicInputs)
    {values : List (NodeVal FieldElement)} :
    replayParty statement view circuit globals = .ok values ↔
      ∃ value, view.Coherent circuit (inputAt statement.publicInputs) globals value ∧
        values = (List.range circuit.nodes.length).map value := by
  constructor
  · intro run
    simp only [Mpcith.replayParty, Outcome.bind_ok_iff, Outcome.reject_ok_iff, exists_const, not_not,
      not_or, Prod.exists, Outcome.ok.injEq] at run
    obtain ⟨inputShares, all, final, pass, ⟨operations, triples, openings⟩, rfl⟩ := run
    obtain ⟨states, trace, start, finish⟩ := forwardPass_ok_iff.mp pass
    rw [← finish] at operations triples openings
    refine ⟨_, coherent_of_trace valid inputShares publicInputs trace start operations triples openings, ?_⟩
    refine List.ext_getElem (by simp [trace.length]) fun n bound _ => ?_
    simp [bound]
  · rintro ⟨value, coherent, rfl⟩
    exact coherent.replayParty valid publicInputs

end Nodes

end PaymentAuth.Mpcith
