import PaymentAuth.Mpcith.Replay
import PaymentAuth.Mpcith.Traversal

namespace PaymentAuth.Mpcith

open Library

/-- The sum of two opened parties' shares. -/
def openedTotal (hidden : PartyId) (shares : Shares) : FieldElement :=
  ((PartyId.others hidden).map shares).sum

theorem openedTotal_add (hidden : PartyId) (shares : Shares) :
    shares hidden + openedTotal hidden shares = shares.total := by
  match hidden with
  | 0 | 1 | 2 => simp [openedTotal, PartyId.others, Shares.total]; try ring

theorem PartyId.mem_others_iff {hidden p : PartyId} : p ∈ PartyId.others hidden ↔ p ≠ hidden := by
  revert hidden p
  decide

private theorem PartyId.others_eq (hidden : PartyId) :
    ∃ p q, PartyId.others hidden = [p, q] ∧ p ≠ q := by
  revert hidden
  decide

/-- What a repetition accepted by the verifier consists of. -/
structure Accepted (backend : CryptoBackend) (statement : Statement) (circuit : Circuit FieldElement)
    (repetition : Repetition) (views : PartyId → PartyView) (randomness : PartyId → Bytes)
    (globals : List FieldElement) (value : PartyId → ℕ → NodeVal FieldElement) : Prop where
  openedViews : repetition.openedViews =
    (PartyId.others repetition.challenge.hiddenParty).map fun p => ⟨views p, randomness p⟩
  commitments : repetition.commitments.length = partyCount
  party : ∀ p ≠ repetition.challenge.hiddenParty, (views p).partyId = p
  repetitionId : ∀ p ≠ repetition.challenge.hiddenParty, (views p).repetitionId = repetition.id
  committed : ∀ p ≠ repetition.challenge.hiddenParty, ∃ commitment,
    repetition.commitments[p.val]? = some commitment ∧
      commitView backend (views p) (randomness p) = .ok commitment
  coherent : ∀ p ≠ repetition.challenge.hiddenParty,
    (views p).Coherent circuit (inputAt statement.publicInputs) globals (value p)
  broadcasts : repetition.hiddenBroadcasts.length = 2 * circuit.tripleCount
  masks : globals = (List.range (2 * circuit.tripleCount)).map fun k =>
    inputAt repetition.hiddenBroadcasts k +
      openedTotal repetition.challenge.hiddenParty fun p => inputAt (views p).openedValues k
  outputShares : repetition.hiddenOutputShares.length = circuit.outputs.length
  outputs : ∀ (k : ℕ) (id : NodeId), circuit.outputs[k]? = some id →
    if circuit.dependsOnSecrets id.asUsize then
      inputAt repetition.hiddenOutputShares k +
          (openedTotal repetition.challenge.hiddenParty fun p => (value p id.asUsize).asField) =
        inputAt statement.expectedOutputs k
    else inputAt repetition.hiddenOutputShares k = 0

theorem checkOpening_ok_iff {backend : CryptoBackend} {repetition : Repetition} {opened : OpenedView}
    {result : Unit} :
    checkOpening backend repetition opened = .ok result ↔
      opened.view.repetitionId = repetition.id ∧ ∃ commitment,
        repetition.commitments[opened.view.partyId.val]? = some commitment ∧
          commitView backend opened.view opened.randomness = .ok commitment := by
  simp only [checkOpening, Outcome.bind_ok_iff, Outcome.reject_ok_iff, Outcome.expect_ok_iff,
    exists_const, not_not, ← verifyCommitment_true_iff, Bool.not_eq_false]
  refine and_congr_right fun _ => exists_congr fun commitment => and_congr_right fun _ => ?_
  constructor
  · rintro ⟨_, success, rfl⟩
    exact success
  · exact fun success => ⟨true, success, rfl⟩

section Parts

variable {statement : Statement} {circuit : Circuit FieldElement} {repetition : Repetition}
  {first second : OpenedView}

private theorem zipIdx_map_inputAt {items : List FieldElement} (f : FieldElement → ℕ → FieldElement) :
    (items.zipIdx.map fun (item, k) => f item k) =
      (List.range items.length).map fun k => f (inputAt items k) k := by
  refine List.ext_getElem (by simp) fun k bound _ => ?_
  simp only [List.length_map, List.length_zipIdx] at bound
  simp [inputAt, bound]

private theorem globalMasks_ok_iff (opened : repetition.openedViews = [first, second])
    {globals : List FieldElement} :
    globalMasks repetition = .ok globals ↔
      2 ∣ repetition.hiddenBroadcasts.length ∧
        repetition.hiddenBroadcasts.length ≤ first.view.openedValues.length ∧
        repetition.hiddenBroadcasts.length ≤ second.view.openedValues.length ∧
        globals = (List.range repetition.hiddenBroadcasts.length).map fun k =>
          inputAt repetition.hiddenBroadcasts k + inputAt first.view.openedValues k +
            inputAt second.view.openedValues k := by
  have entry (contribution : FieldElement) (k : ℕ) (result : FieldElement) :
      ([first, second].foldlM (fun total opened => do
          let value ← Outcome.okOr MpcithError.inconsistentView opened.view.openedValues[k]?
          .ok (total + value)) contribution) = .ok result ↔
        k < first.view.openedValues.length ∧ k < second.view.openedValues.length ∧
          result = contribution + inputAt first.view.openedValues k +
            inputAt second.view.openedValues k := by
    simp only [List.foldlM_cons, List.foldlM_nil, Outcome.bind_ok_iff, Outcome.okOr_ok_iff,
      Outcome.ok.injEq, Outcome.pure_eq]
    constructor
    · rintro ⟨_, ⟨left, readLeft, rfl⟩, _, ⟨right, readRight, rfl⟩, rfl⟩
      exact ⟨(List.getElem?_eq_some_iff.mp readLeft).1, (List.getElem?_eq_some_iff.mp readRight).1,
        by simp [inputAt, readLeft, readRight]⟩
    · rintro ⟨left, right, rfl⟩
      exact ⟨_, ⟨_, inputAt_of_lt left, rfl⟩, _, ⟨_, inputAt_of_lt right, rfl⟩, rfl⟩
  simp only [globalMasks, opened, Outcome.bind_ok_iff, Outcome.reject_ok_iff, exists_const, not_not,
    ← Nat.dvd_iff_mod_eq_zero]
  refine and_congr_right fun _ => ?_
  constructor
  · intro computed
    have within (k : ℕ) (below : k < repetition.hiddenBroadcasts.length) :
        k < first.view.openedValues.length ∧ k < second.view.openedValues.length := by
      have member : (repetition.hiddenBroadcasts[k], k) ∈ repetition.hiddenBroadcasts.zipIdx := by
        simp [List.mk_mem_zipIdx_iff_getElem?, below]
      obtain ⟨result, success⟩ := Outcome.exists_of_mapM_ok computed member
      obtain ⟨left, right, -⟩ := (entry _ _ _).mp success
      exact ⟨left, right⟩
    refine ⟨?_, ?_, ?_⟩
    · by_contra short
      exact (lt_irrefl _) (within first.view.openedValues.length (by omega)).1
    · by_contra short
      exact (lt_irrefl _) (within second.view.openedValues.length (by omega)).2
    · rw [← zipIdx_map_inputAt fun item k =>
        item + inputAt first.view.openedValues k + inputAt second.view.openedValues k]
      exact Outcome.eq_map_of_mapM_ok _ computed fun item result success =>
        ((entry _ _ _).mp success).2.2
  · rintro ⟨left, right, rfl⟩
    rw [← zipIdx_map_inputAt fun item k =>
      item + inputAt first.view.openedValues k + inputAt second.view.openedValues k]
    refine Outcome.mapM_ok_of_forall _ ?_
    rintro ⟨item, k⟩ member
    have below := (List.getElem?_eq_some_iff.mp (List.mk_mem_zipIdx_iff_getElem?.mp member)).1
    exact (entry _ _ _).mpr ⟨by omega, by omega, rfl⟩

private theorem checkOutput_true_iff (valid : circuit.WellFormed)
    (expectedOutputs : statement.expectedOutputs.length = circuit.outputs.length)
    (outputShares : repetition.hiddenOutputShares.length = circuit.outputs.length)
    {left right : ℕ → NodeVal FieldElement}
    (sharedLeft : ∀ n < circuit.nodes.length, (left n).isShared = circuit.dependsOnSecrets n)
    (sharedRight : ∀ n < circuit.nodes.length, (right n).isShared = circuit.dependsOnSecrets n)
    {id : NodeId} {k : ℕ} (found : circuit.outputs[k]? = some id) :
    checkOutput statement repetition circuit
        [(List.range circuit.nodes.length).map left, (List.range circuit.nodes.length).map right]
        (id, k) = .ok true ↔
      if circuit.dependsOnSecrets id.asUsize then
        inputAt repetition.hiddenOutputShares k + (left id.asUsize).asField +
          (right id.asUsize).asField = inputAt statement.expectedOutputs k
      else inputAt repetition.hiddenOutputShares k = 0 := by
  have below := (List.getElem?_eq_some_iff.mp found).1
  have bound := valid.outputs id (List.mem_of_getElem? found)
  have expected := inputAt_of_lt (expectedOutputs ▸ below)
  have hidden := inputAt_of_lt (outputShares ▸ below)
  have atLeft := sharedLeft _ bound
  have atRight := sharedRight _ bound
  simp only [checkOutput, expected, hidden, nodeDependsOnSecrets_eq valid bound, Outcome.okOr_some,
    Outcome.expect_some, Outcome.ok_bind]
  cases depends : circuit.dependsOnSecrets id.asUsize with
  | false => simp [Outcome.bind_ok_iff]
  | true =>
    rw [depends] at atLeft atRight
    cases leftValue : left id.asUsize with
    | plain => simp [leftValue, NodeVal.isShared] at atLeft
    | shared x =>
      cases rightValue : right id.asUsize with
      | plain => simp [rightValue, NodeVal.isShared] at atRight
      | shared y => simp [bound, leftValue, rightValue, NodeVal.asField]

/-- The response of an accepted repetition, with the two opened views side by side. -/
private theorem openedViews_pair {p q : PartyId} (different : p ≠ q)
    (ids : repetition.openedViews.map (fun opened => opened.view.partyId) = [p, q]) :
    ∃ (views : PartyId → PartyView) (randomness : PartyId → Bytes),
      repetition.openedViews = [⟨views p, randomness p⟩, ⟨views q, randomness q⟩] ∧
        (views p).partyId = p ∧ (views q).partyId = q := by
  obtain ⟨first, rest, split, rfl, others⟩ := List.map_eq_cons_iff.mp ids
  obtain ⟨second, tail, split', rfl, nothing⟩ := List.map_eq_cons_iff.mp others
  obtain rfl := List.map_eq_nil_iff.mp nothing
  refine ⟨fun r => if r = first.view.partyId then first.view else second.view,
    fun r => if r = first.view.partyId then first.randomness else second.randomness, ?_⟩
  simp [split, split', different.symm]

end Parts

section Repetitions

variable {backend : CryptoBackend} {statement : Statement} {circuit : Circuit FieldElement}
  {repetition : Repetition}

/-- An accepted repetition's masks are the opened and the hidden contributions together. -/
theorem Accepted.globalMasks_eq {views : PartyId → PartyView} {randomness : PartyId → Bytes}
    {globals : List FieldElement} {value : PartyId → ℕ → NodeVal FieldElement}
    (accepted : Accepted backend statement circuit repetition views randomness globals value) :
    globalMasks repetition = .ok globals := by
  obtain ⟨p, q, others, -⟩ := PartyId.others_eq repetition.challenge.hiddenParty
  have shown (r : PartyId) (either : r = p ∨ r = q) : r ≠ repetition.challenge.hiddenParty := by
    rw [← PartyId.mem_others_iff, others]
    simpa using either
  have opened : repetition.openedViews = [⟨views p, randomness p⟩, ⟨views q, randomness q⟩] := by
    simp [accepted.openedViews, others]
  have openedP := (eq_flatMap_marked_iff.mp (accepted.coherent p (shown p (.inl rfl))).openedValues).1
  have openedQ := (eq_flatMap_marked_iff.mp (accepted.coherent q (shown q (.inr rfl))).openedValues).1
  refine (globalMasks_ok_iff opened).mpr ⟨⟨_, accepted.broadcasts⟩, ?_, ?_, ?_⟩
  · rw [accepted.broadcasts, openedP]
    rfl
  · rw [accepted.broadcasts, openedQ]
    rfl
  · rw [accepted.masks, accepted.broadcasts]
    simp [openedTotal, others, add_assoc]

/-- The outputs of two shown parties are checked against the hidden party's claimed shares. -/
private theorem checkOutputs_pair_iff (valid : circuit.WellFormed)
    (expectedOutputs : statement.expectedOutputs.length = circuit.outputs.length)
    {left right : ℕ → NodeVal FieldElement}
    (sharedLeft : ∀ n < circuit.nodes.length, (left n).isShared = circuit.dependsOnSecrets n)
    (sharedRight : ∀ n < circuit.nodes.length, (right n).isShared = circuit.dependsOnSecrets n) :
    checkOutputs statement repetition circuit
        [(List.range circuit.nodes.length).map left, (List.range circuit.nodes.length).map right] = .ok true ↔
      repetition.hiddenOutputShares.length = circuit.outputs.length ∧
        ∀ (k : ℕ) (id : NodeId), circuit.outputs[k]? = some id →
          if circuit.dependsOnSecrets id.asUsize then
            inputAt repetition.hiddenOutputShares k + (left id.asUsize).asField +
              (right id.asUsize).asField = inputAt statement.expectedOutputs k
          else inputAt repetition.hiddenOutputShares k = 0 := by
  simp only [checkOutputs, Outcome.bind_ok_iff, Outcome.reject_ok_iff, exists_const, not_not,
    Outcome.allM_ok_true_iff, Prod.forall, List.mk_mem_zipIdx_iff_getElem?]
  refine and_congr_right fun outputShares => ?_
  rw [forall_comm]
  refine forall_congr' fun k => forall_congr' fun id => forall_congr' fun found => ?_
  exact checkOutput_true_iff valid expectedOutputs outputShares sharedLeft sharedRight found

/-- The verifier accepts a repetition exactly when it opens two committed coherent
views whose output shares complete to the expected outputs. -/
theorem verifyRepetition_true_iff (valid : circuit.WellFormed)
    (publicInputs : statement.publicInputs.length = circuit.numPublicInputs)
    (expectedOutputs : statement.expectedOutputs.length = circuit.outputs.length) :
    verifyRepetition backend statement repetition circuit = .ok true ↔
      ∃ views randomness globals value,
        Accepted backend statement circuit repetition views randomness globals value := by
  obtain ⟨p, q, others, different⟩ := PartyId.others_eq repetition.challenge.hiddenParty
  have member {r : PartyId} : r ≠ repetition.challenge.hiddenParty ↔ r = p ∨ r = q := by
    rw [← PartyId.mem_others_iff, others]
    simp
  have total (shares : Shares) :
      openedTotal repetition.challenge.hiddenParty shares = shares p + shares q := by
    simp [openedTotal, others]
  constructor
  · intro accepted
    simp only [verifyRepetition, PartyId.new_get, Outcome.ok_bind, Outcome.bind_ok_iff,
      Outcome.reject_ok_iff, Outcome.forM_ok_iff, exists_const, not_not, others] at accepted
    obtain ⟨commitments, ids, openings, globals, masks, replays, replayed, outputs⟩ := accepted
    obtain ⟨views, randomness, opened, partyP, partyQ⟩ := openedViews_pair different ids
    obtain ⟨even, boundP, boundQ, masks⟩ := (globalMasks_ok_iff opened).mp masks
    rw [opened] at openings replayed
    simp only [List.mapM_cons, List.mapM_nil, Outcome.bind_ok_iff, Outcome.pure_eq, Outcome.ok.injEq,
      replayParty_ok_iff valid publicInputs] at replayed
    obtain ⟨_, ⟨left, coherentP, rfl⟩, _, ⟨_, ⟨right, coherentQ, rfl⟩, _, rfl, rfl⟩, rfl⟩ := replayed
    have sharedLeft : ∀ n < circuit.nodes.length, (left n).isShared = circuit.dependsOnSecrets n :=
      fun n bound => PartyData.isShared_eq valid coherentP.solves bound
    have sharedRight : ∀ n < circuit.nodes.length, (right n).isShared = circuit.dependsOnSecrets n :=
      fun n bound => PartyData.isShared_eq valid coherentQ.solves bound
    obtain ⟨outputShares, outputs⟩ := (checkOutputs_pair_iff valid expectedOutputs sharedLeft sharedRight).mp outputs
    have opening : ∀ r ≠ repetition.challenge.hiddenParty,
        checkOpening backend repetition ⟨views r, randomness r⟩ = .ok ⟨⟩ := by
      intro r shown
      exact openings _ (by rcases member.mp shown with rfl | rfl <;> simp)
    have party : ∀ r ≠ repetition.challenge.hiddenParty, (views r).partyId = r := by
      intro r shown
      rcases member.mp shown with rfl | rfl
      exacts [partyP, partyQ]
    have openedCount := (eq_flatMap_marked_iff.mp coherentP.openedValues).1
    have maskCount := coherentP.globals
    have globalsCount : globals.length = repetition.hiddenBroadcasts.length := by simp [masks]
    have broadcasts : repetition.hiddenBroadcasts.length = 2 * circuit.tripleCount := by
      rw [openedCount] at boundP
      exact le_antisymm boundP (globalsCount ▸ maskCount)
    refine ⟨views, randomness, globals, fun r => if r = p then left else right,
      ⟨by simp [others, opened], commitments, party,
        fun r shown => (checkOpening_ok_iff.mp (opening r shown)).1, ?_, ?_, broadcasts, ?_, outputShares,
        ?_⟩⟩
    · intro r shown
      simpa only [party r shown] using (checkOpening_ok_iff.mp (opening r shown)).2
    · rintro r shown
      rcases member.mp shown with rfl | rfl
      · simpa using coherentP
      · simpa [different.symm] using coherentQ
    · rw [masks, broadcasts]
      simp only [total, add_assoc]
    · intro k id found
      simpa [total, different.symm, add_assoc] using outputs k id found
  · rintro ⟨views, randomness, globals, value, accepted⟩
    have shownP : p ≠ repetition.challenge.hiddenParty := member.mpr (.inl rfl)
    have shownQ : q ≠ repetition.challenge.hiddenParty := member.mpr (.inr rfl)
    have opened : repetition.openedViews = [⟨views p, randomness p⟩, ⟨views q, randomness q⟩] := by
      simp [accepted.openedViews, others]
    have coherentP := accepted.coherent p shownP
    have coherentQ := accepted.coherent q shownQ
    have masks := accepted.globalMasks_eq
    have openings : ∀ r ≠ repetition.challenge.hiddenParty,
        checkOpening backend repetition ⟨views r, randomness r⟩ = .ok ⟨⟩ := fun r shown =>
      checkOpening_ok_iff.mpr ⟨accepted.repetitionId r shown, by
        simpa only [accepted.party r shown] using accepted.committed r shown⟩
    have outputs := (checkOutputs_pair_iff valid expectedOutputs
      (fun n bound => PartyData.isShared_eq valid coherentP.solves bound)
      (fun n bound => PartyData.isShared_eq valid coherentQ.solves bound)).mpr
      ⟨accepted.outputShares, fun k id found => by
        simpa [total, add_assoc] using accepted.outputs k id found⟩
    simp only [verifyRepetition, PartyId.new_get, Outcome.ok_bind, Outcome.bind_ok_iff,
      Outcome.reject_ok_iff, Outcome.forM_ok_iff, exists_const, not_not, others, opened]
    refine ⟨accepted.commitments, by simp [accepted.party p shownP, accepted.party q shownQ], ?_,
      globals, masks, _, ?_, outputs⟩
    · simp [openings p shownP, openings q shownQ]
    · simp [coherentP.replayParty valid publicInputs, coherentQ.replayParty valid publicInputs]

end Repetitions

/-- A proof is valid exactly when its repetitions are numbered in order and each is accepted. -/
theorem verify_valid_iff {sha256 : Bytes → Digest} {backend : CryptoBackend} {statement : Statement}
    {proof : MpcithProof} {circuit : Circuit FieldElement} :
    verify sha256 backend statement proof circuit = .ok .valid ↔
      statement.Validated sha256 circuit ∧ proof.repetitions ≠ [] ∧
        ∀ (index : ℕ) (repetition : Repetition), proof.repetitions[index]? = some repetition →
          repetition.id = .ofIndex index ∧
            verifyRepetition backend statement repetition circuit = .ok true := by
  simp only [verify, Outcome.bind_ok_iff, Statement.validate_ok_iff, Outcome.reject_ok_iff,
    List.isEmpty_iff, exists_const, Outcome.ok.injEq]
  refine and_congr_right fun _ => and_congr_right fun _ => ?_
  have each (checks : Outcome MpcithError Bool) : (∃ accepted, checks = .ok accepted ∧
      (if accepted then VerificationResult.valid else .invalid) = .valid) ↔ checks = .ok true := by
    simp
  rw [each, Outcome.allM_ok_true_iff]
  simp only [Prod.forall, List.mk_mem_zipIdx_iff_getElem?, Outcome.bind_ok_iff, Outcome.reject_ok_iff,
    exists_const, not_not]
  exact forall_comm

end PaymentAuth.Mpcith
