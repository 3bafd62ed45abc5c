import PaymentAuth.Mpcith.Acceptance

/-! Three accepted repetitions over the same commitments, one for each hidden party,
open three views of one execution. -/

namespace PaymentAuth.Mpcith

open Library

variable {circuit : Circuit FieldElement} {publics : ℕ → FieldElement}

/-- The index read off the entries of two equal images of the marked positions. -/
private theorem map_marked_inj {α : Type} {mark : ℕ → Bool} {bound n : ℕ} {image image' : ℕ → α}
    (same : (marked mark bound).map image = (marked mark bound).map image') (here : mark n = true)
    (below : n < bound) : image n = image' n :=
  List.map_inj_left.mp same n (List.mem_filter.mpr ⟨List.mem_range.mpr below, here⟩)

namespace PartyView.Coherent

variable {view : PartyView} {globals globals' : List FieldElement} {value value' : ℕ → NodeVal FieldElement}

/-- Coherence reads the party's values below the end of the circuit only. -/
theorem congr_value (coherent : view.Coherent circuit publics globals value) (valid : circuit.WellFormed)
    (same : ∀ n < circuit.nodes.length, value n = value' n) :
    view.Coherent circuit publics globals value' := by
  refine ⟨coherent.inputShares, fun n node found => ?_, ?_, coherent.tripleShares, ?_, coherent.globals⟩
  · have bound := (List.getElem?_eq_some_iff.mp found).1
    rw [← same n bound, coherent.solves n node found]
    cases node with
    | secretInput | publicInput | constant => rfl
    | add a b | mul a b =>
      obtain ⟨left, right⟩ := valid.operands n _ a b found rfl
      simp only [Interpretation.rule, same a.asUsize (by omega), same b.asUsize (by omega)]
  · rw [coherent.localOperations]
    refine List.map_congr_left fun n member => ?_
    exact PartyData.operationAt_congr valid _ (List.mem_range.mp (List.mem_filter.mp member).1) same
  · conv_lhs => rw [coherent.openedValues]
    refine List.flatMap_congr fun n member => ?_
    rw [PartyData.openedAt_congr valid _ (List.mem_range.mp (List.mem_filter.mp member).1) same]

/-- A view determines the party's values. -/
theorem value_unique (coherent : view.Coherent circuit publics globals value)
    (coherent' : view.Coherent circuit publics globals value') (valid : circuit.WellFormed) {n : ℕ}
    (bound : n < circuit.nodes.length) : value n = value' n :=
  coherent.solves.unique valid coherent'.solves bound

/-- The masks a view's Beaver operations record are the global ones, so a view
determines them. -/
theorem globals_unique (coherent : view.Coherent circuit publics globals value)
    (coherent' : view.Coherent circuit publics globals' value') (valid : circuit.WellFormed)
    (size : globals.length = 2 * circuit.tripleCount) (size' : globals'.length = 2 * circuit.tripleCount) :
    globals = globals' := by
  have pair (t : ℕ) (small : t < circuit.tripleCount) :
      inputAt globals (2 * t) = inputAt globals' (2 * t) ∧
        inputAt globals (2 * t + 1) = inputAt globals' (2 * t + 1) := by
    obtain ⟨n, bound, here, rfl⟩ := exists_rank_eq small
    have records := recordsOperation_of_isSharedMul here view.partyId
    have same := map_marked_inj (coherent.localOperations.symm.trans coherent'.localOperations) records bound
    rw [PartyData.operationAt_beaver valid coherent.solves bound here,
      PartyData.operationAt_beaver valid coherent'.solves bound here] at same
    obtain ⟨-, -, first, second, -⟩ := LocalOperation.beaverMul.inj same
    exact ⟨first, second⟩
  refine List.ext_getElem (size.trans size'.symm) fun k bound bound' => ?_
  have read : inputAt globals k = inputAt globals' k := by
    rcases Nat.even_or_odd' k with ⟨t, rfl | rfl⟩
    · exact (pair t (by omega)).1
    · exact (pair t (by omega)).2
  simpa [inputAt, bound, bound'] using read

end PartyView.Coherent

theorem openedTotal_congr {hidden : PartyId} {shares shares' : Shares}
    (same : ∀ p ≠ hidden, shares p = shares' p) : openedTotal hidden shares = openedTotal hidden shares' :=
  congrArg List.sum (List.map_congr_left fun p member => same p (PartyId.mem_others_iff.mp member))

/-- Acceptance concerns the opened parties' views and their values of nodes only. -/
theorem Accepted.congr {backend : CryptoBackend} {statement : Statement} {repetition : Repetition}
    {views views' : PartyId → PartyView} {randomness : PartyId → Bytes} {globals : List FieldElement}
    {value value' : PartyId → ℕ → NodeVal FieldElement}
    (accepted : Accepted backend statement circuit repetition views randomness globals value)
    (valid : circuit.WellFormed) (sameViews : ∀ p ≠ repetition.challenge.hiddenParty, views p = views' p)
    (sameValues : ∀ p ≠ repetition.challenge.hiddenParty, ∀ n < circuit.nodes.length, value p n = value' p n) :
    Accepted backend statement circuit repetition views' randomness globals value' where
  openedViews := by
    rw [accepted.openedViews]
    refine List.map_congr_left fun p member => ?_
    rw [sameViews p (PartyId.mem_others_iff.mp member)]
  commitments := accepted.commitments
  party p shown := by rw [← sameViews p shown, accepted.party p shown]
  repetitionId p shown := by rw [← sameViews p shown, accepted.repetitionId p shown]
  committed p shown := by
    rw [← sameViews p shown]
    exact accepted.committed p shown
  coherent p shown := by
    rw [← sameViews p shown]
    exact (accepted.coherent p shown).congr_value valid (sameValues p shown)
  broadcasts := accepted.broadcasts
  masks := by
    rw [accepted.masks]
    refine List.map_congr_left fun k _ => congrArg _ (openedTotal_congr fun p shown => ?_)
    rw [sameViews p shown]
  outputShares := accepted.outputShares
  outputs k id found := by
    have bound := valid.outputs id (List.mem_of_getElem? found)
    have total : (openedTotal repetition.challenge.hiddenParty fun p => (value' p id.asUsize).asField) =
        openedTotal repetition.challenge.hiddenParty fun p => (value p id.asUsize).asField :=
      openedTotal_congr fun p shown => by rw [sameValues p shown _ bound]
    rw [total]
    exact accepted.outputs k id found

/-- Three accepted repetitions over the same commitments, one for each hidden party,
in which no commitment of a party is opened to two views. -/
structure Transcripts (backend : CryptoBackend) (statement : Statement) (circuit : Circuit FieldElement)
    (repetitions : PartyId → Repetition) : Prop where
  hiddenParty : ∀ h, (repetitions h).challenge.hiddenParty = h
  id : ∀ h h', (repetitions h).id = (repetitions h').id
  commitments : ∀ h h', (repetitions h).commitments = (repetitions h').commitments
  accepted : ∀ h, verifyRepetition backend statement (repetitions h) circuit = .ok true
  binding : ∀ h h', ∀ opened ∈ (repetitions h).openedViews, ∀ opened' ∈ (repetitions h').openedViews,
    opened.view.partyId = opened'.view.partyId →
      commitView backend opened.view opened.randomness = commitView backend opened'.view opened'.randomness →
        opened.view = opened'.view

/-- The opened views of three repetitions and the values the verifier's replays of
them compute, whichever challenge a view is opened to. -/
structure Replayed (statement : Statement) (circuit : Circuit FieldElement) (repetitions : PartyId → Repetition)
    (views : PartyId → PartyView) (value : PartyId → ℕ → NodeVal FieldElement) : Prop where
  party : ∀ p, (views p).partyId = p
  opened : ∀ h, ∀ p ≠ h, ∃ randomness, ⟨views p, randomness⟩ ∈ (repetitions h).openedViews
  replays : ∀ h, ∀ p ≠ h, ∃ globals, globalMasks (repetitions h) = .ok globals ∧
    replayParty statement (views p) circuit globals = .ok ((List.range circuit.nodes.length).map (value p))

namespace Transcripts

variable {backend : CryptoBackend} {statement : Statement} {repetitions : PartyId → Repetition}

/-- Two challenges leave a party that is opened under both. -/
private theorem exists_shown (h h' : PartyId) : ∃ p : PartyId, p ≠ h ∧ p ≠ h' := by
  revert h h'
  decide

/-- The transcripts are responses about one view of each party and one set of masks. -/
theorem exists_accepted (transcripts : Transcripts backend statement circuit repetitions)
    (valid : circuit.WellFormed) (publicInputs : statement.publicInputs.length = circuit.numPublicInputs)
    (expectedOutputs : statement.expectedOutputs.length = circuit.outputs.length) :
    ∃ (views : PartyId → PartyView) (randomness : PartyId → PartyId → Bytes) (globals : List FieldElement)
      (value : PartyId → ℕ → NodeVal FieldElement), ∀ h,
        Accepted backend statement circuit (repetitions h) views (randomness h) globals value := by
  have each (h : PartyId) :=
    (verifyRepetition_true_iff valid publicInputs expectedOutputs).mp (transcripts.accepted h)
  choose views randomness globals value accepted using each
  have shown {h p : PartyId} (different : p ≠ h) : p ≠ (repetitions h).challenge.hiddenParty := by
    rwa [transcripts.hiddenParty]
  have member {h p : PartyId} (different : p ≠ h) :
      (⟨views h p, randomness h p⟩ : OpenedView) ∈ (repetitions h).openedViews := by
    rw [(accepted h).openedViews]
    exact List.mem_map.mpr ⟨p, PartyId.mem_others_iff.mpr (shown different), rfl⟩
  have sameView {h h' p : PartyId} (different : p ≠ h) (different' : p ≠ h') : views h p = views h' p := by
    obtain ⟨commitment, found, opened⟩ := (accepted h).committed p (shown different)
    obtain ⟨commitment', found', opened'⟩ := (accepted h').committed p (shown different')
    rw [transcripts.commitments h h', found', Option.some.injEq] at found
    refine transcripts.binding h h' _ (member different) _ (member different') ?_ ?_
    · exact ((accepted h).party p (shown different)).trans ((accepted h').party p (shown different')).symm
    · rw [opened, opened', found]
  have size (h : PartyId) : (globals h).length = 2 * circuit.tripleCount := by simp [(accepted h).masks]
  have sameGlobals (h h' : PartyId) : globals h = globals h' := by
    obtain ⟨p, different, different'⟩ := exists_shown h h'
    have coherent := (accepted h).coherent p (shown different)
    rw [sameView different different'] at coherent
    exact coherent.globals_unique ((accepted h').coherent p (shown different')) valid (size h) (size h')
  -- Party `p` is opened to the challenge `p + 1`.
  have next (p : PartyId) : p ≠ p + 1 := by
    revert p
    decide
  have sameValue {h p : PartyId} (different : p ≠ h) :
      ∀ n < circuit.nodes.length, value h p n = value (p + 1) p n := by
    have coherent := (accepted h).coherent p (shown different)
    rw [sameView different (next p), sameGlobals h (p + 1)] at coherent
    exact fun n bound => coherent.value_unique ((accepted (p + 1)).coherent p (shown (next p))) valid bound
  refine ⟨fun p => views (p + 1) p, randomness, globals 0, fun p => value (p + 1) p, fun h => ?_⟩
  rw [sameGlobals 0 h]
  refine (accepted h).congr valid (fun p different => ?_) fun p different => ?_
  · exact sameView (transcripts.hiddenParty h ▸ different) (next p)
  · exact sameValue (transcripts.hiddenParty h ▸ different)

/-- Every party is opened to the challenge after it. -/
theorem hiddenParty_ne (transcripts : Transcripts backend statement circuit repetitions) (p : PartyId) :
    p ≠ (repetitions (p + 1)).challenge.hiddenParty := by
  rw [transcripts.hiddenParty]
  revert p
  decide

theorem coherent (transcripts : Transcripts backend statement circuit repetitions)
    {views : PartyId → PartyView} {randomness : PartyId → PartyId → Bytes} {globals : List FieldElement}
    {value : PartyId → ℕ → NodeVal FieldElement}
    (accepted : ∀ h, Accepted backend statement circuit (repetitions h) views (randomness h) globals value)
    (p : PartyId) :
    (views p).partyId = p ∧
      (views p).Coherent circuit (inputAt statement.publicInputs) globals (value p) := by
  have shown := transcripts.hiddenParty_ne p
  exact ⟨(accepted _).party p shown, (accepted _).coherent p shown⟩

theorem replayed (transcripts : Transcripts backend statement circuit repetitions)
    {views : PartyId → PartyView} {randomness : PartyId → PartyId → Bytes} {globals : List FieldElement}
    {value : PartyId → ℕ → NodeVal FieldElement}
    (accepted : ∀ h, Accepted backend statement circuit (repetitions h) views (randomness h) globals value)
    (valid : circuit.WellFormed) (publicInputs : statement.publicInputs.length = circuit.numPublicInputs) :
    Replayed statement circuit repetitions views value where
  party p := (transcripts.coherent accepted p).1
  opened h p different := by
    refine ⟨randomness h p, ?_⟩
    rw [(accepted h).openedViews, transcripts.hiddenParty]
    exact List.mem_map.mpr ⟨p, PartyId.mem_others_iff.mpr different, rfl⟩
  replays h p _ :=
    ⟨globals, (accepted h).globalMasks_eq, (transcripts.coherent accepted p).2.replayParty valid publicInputs⟩

end Transcripts

end PaymentAuth.Mpcith
