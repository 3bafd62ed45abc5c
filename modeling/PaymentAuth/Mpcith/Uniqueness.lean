import PaymentAuth.Mpcith.Extraction

/-! The commitments, the challenge and the statement leave one response that is accepted. -/

namespace PaymentAuth.Mpcith

open Library

/-- No commitment is opened in two ways by the given openings. -/
def CollisionFree (backend : CryptoBackend) (openings : List (PartyView × Bytes)) : Prop :=
  ∀ opening ∈ openings, ∀ other ∈ openings, ∀ commitment,
    commitView backend opening.1 opening.2 = .ok commitment →
      commitView backend other.1 other.2 = .ok commitment → opening = other

/-- The views and randomness a repetition opens. -/
def Repetition.openings (repetition : Repetition) : List (PartyView × Bytes) :=
  repetition.openedViews.map fun opened => (opened.view, opened.randomness)

theorem CollisionFree.mono {backend : CryptoBackend} {openings openings' : List (PartyView × Bytes)}
    (free : CollisionFree backend openings) (within : ∀ opening ∈ openings', opening ∈ openings) :
    CollisionFree backend openings' := by
  intro opening member other member'
  exact free opening (within opening member) other (within other member')

/-- Lists of one length with the same entries are equal. -/
private theorem eq_of_inputAt {values values' : List FieldElement} {len : ℕ} (size : values.length = len)
    (size' : values'.length = len) (each : ∀ k < len, inputAt values k = inputAt values' k) : values = values' := by
  refine List.ext_getElem (size.trans size'.symm) fun k bound bound' => ?_
  have same := each k (size ▸ bound)
  simpa [inputAt, bound, bound'] using same

namespace Accepted

variable {backend : CryptoBackend} {statement : Statement} {circuit : Circuit FieldElement}
  {repetition repetition' : Repetition} {views views' : PartyId → PartyView}
  {randomness randomness' : PartyId → Bytes} {globals globals' : List FieldElement}
  {value value' : PartyId → ℕ → NodeVal FieldElement}

theorem mem_openings (accepted : Accepted backend statement circuit repetition views randomness globals value)
    {p : PartyId} (shown : p ≠ repetition.challenge.hiddenParty) :
    (views p, randomness p) ∈ repetition.openings := by
  rw [Repetition.openings, accepted.openedViews, List.map_map]
  exact List.mem_map_of_mem (PartyId.mem_others_iff.mpr shown)

theorem globals_length (accepted : Accepted backend statement circuit repetition views randomness globals value) :
    globals.length = 2 * circuit.tripleCount := by
  rw [accepted.masks, List.length_map, List.length_range]

/-- Two accepted repetitions over the same commitments open the same views. -/
theorem opening_unique (accepted : Accepted backend statement circuit repetition views randomness globals value)
    (accepted' : Accepted backend statement circuit repetition' views' randomness' globals' value')
    (commitments : repetition.commitments = repetition'.commitments)
    (challenge : repetition.challenge = repetition'.challenge)
    (free : CollisionFree backend (repetition.openings ++ repetition'.openings)) {p : PartyId}
    (shown : p ≠ repetition.challenge.hiddenParty) :
    views p = views' p ∧ randomness p = randomness' p := by
  have shown' : p ≠ repetition'.challenge.hiddenParty := by rwa [← challenge]
  obtain ⟨commitment, found, opens⟩ := accepted.committed p shown
  obtain ⟨commitment', found', opens'⟩ := accepted'.committed p shown'
  rw [commitments, found'] at found
  obtain rfl := Option.some.inj found
  have same := free _ (List.mem_append_left _ (accepted.mem_openings shown)) _
    (List.mem_append_right _ (accepted'.mem_openings shown')) commitment' opens opens'
  exact Prod.mk.inj same

/-- An accepted response is the only one for its commitments and challenge. -/
theorem unique (accepted : Accepted backend statement circuit repetition views randomness globals value)
    (accepted' : Accepted backend statement circuit repetition' views' randomness' globals' value')
    (valid : circuit.WellFormed) (id : repetition.id = repetition'.id)
    (commitments : repetition.commitments = repetition'.commitments)
    (challenge : repetition.challenge = repetition'.challenge)
    (free : CollisionFree backend (repetition.openings ++ repetition'.openings)) : repetition = repetition' := by
  have openings (p : PartyId) (shown : p ≠ repetition.challenge.hiddenParty) :=
    accepted.opening_unique accepted' commitments challenge free shown
  have coherent (p : PartyId) (shown : p ≠ repetition.challenge.hiddenParty) :
      (views p).Coherent circuit (inputAt statement.publicInputs) globals' (value' p) := by
    rw [(openings p shown).1]
    exact accepted'.coherent p (challenge ▸ shown)
  have sameGlobals : globals = globals' := by
    obtain ⟨p, shown⟩ := exists_ne repetition.challenge.hiddenParty
    exact (accepted.coherent p shown).globals_unique (coherent p shown) valid accepted.globals_length
      accepted'.globals_length
  have sameValues (p : PartyId) (shown : p ≠ repetition.challenge.hiddenParty) (n : ℕ)
      (bound : n < circuit.nodes.length) : value p n = value' p n := by
    have replayed := coherent p shown
    rw [← sameGlobals] at replayed
    exact (accepted.coherent p shown).value_unique replayed valid bound
  have opened : repetition.openedViews = repetition'.openedViews := by
    rw [accepted.openedViews, accepted'.openedViews, ← challenge]
    refine List.map_congr_left fun p member => ?_
    obtain ⟨sameView, sameRandomness⟩ := openings p (PartyId.mem_others_iff.mp member)
    rw [sameView, sameRandomness]
  have broadcasts : repetition.hiddenBroadcasts = repetition'.hiddenBroadcasts := by
    refine eq_of_inputAt accepted.broadcasts accepted'.broadcasts fun k bound => ?_
    have masks := accepted.masks.symm.trans (sameGlobals.trans accepted'.masks)
    have here := List.map_inj_left.mp masks k (List.mem_range.mpr bound)
    have total : (openedTotal repetition.challenge.hiddenParty fun p => inputAt (views p).openedValues k) =
        openedTotal repetition'.challenge.hiddenParty fun p => inputAt (views' p).openedValues k := by
      rw [← challenge]
      exact openedTotal_congr fun p shown => by rw [(openings p shown).1]
    rw [total] at here
    exact add_right_cancel here
  have outputShares : repetition.hiddenOutputShares = repetition'.hiddenOutputShares := by
    refine eq_of_inputAt accepted.outputShares accepted'.outputShares fun k bound => ?_
    have found := List.getElem?_eq_getElem bound
    have inside := valid.outputs _ (List.mem_of_getElem? found)
    have output := accepted.outputs k _ found
    have output' := accepted'.outputs k _ found
    by_cases depends : circuit.dependsOnSecrets (circuit.outputs[k]).asUsize
    · rw [if_pos depends] at output output'
      have total : (openedTotal repetition.challenge.hiddenParty fun p => (value p (circuit.outputs[k]).asUsize).asField) =
          openedTotal repetition'.challenge.hiddenParty fun p => (value' p (circuit.outputs[k]).asUsize).asField := by
        rw [← challenge]
        exact openedTotal_congr fun p shown => by rw [sameValues p shown _ inside]
      rw [total] at output
      exact add_right_cancel (output.trans output'.symm)
    · rw [if_neg depends] at output output'
      rw [output, output']
  cases repetition
  cases repetition'
  simp only [Repetition.mk.injEq]
  exact ⟨id, commitments, challenge, opened, outputShares, broadcasts⟩

end Accepted

end PaymentAuth.Mpcith
