import PaymentAuth.Mpcith.Challenge
import PaymentAuth.Mpcith.ZeroKnowledge

/-! Zero knowledge of whole proofs: repetitions draw from stretches of the tape of their
own, so that the corrections of each compose to one correction of them all. -/

namespace PaymentAuth.Mpcith

open Library

/-- Sharings from the same two draws are the same. -/
theorem sharesAt_congr {tape tape' : Tape} {position : ℕ} (value : FieldElement)
    (same : ∀ j < 2, tape.elements (position + j) = tape'.elements (position + j)) :
    sharesAt tape position value = sharesAt tape' position value := by
  have first := same 0 (by decide)
  have second := same 1 (by decide)
  rw [Nat.add_zero] at first
  rw [sharesAt, sharesAt, first, second]

theorem tripleAt_congr {tape tape' : Tape} {position : ℕ}
    (same : ∀ j < 8, tape.elements (position + j) = tape'.elements (position + j)) :
    tripleAt tape position = tripleAt tape' position := by
  have first := same 0 (by decide)
  have second := same 1 (by decide)
  have shares (offset : ℕ) (value : FieldElement) (within : offset + 2 ≤ 8) :
      sharesAt tape (position + offset) value = sharesAt tape' (position + offset) value := by
    apply sharesAt_congr
    intro j side
    rw [Nat.add_assoc]
    exact same (offset + j) (by omega)
  rw [Nat.add_zero] at first
  rw [tripleAt, tripleAt, first, second, shares 2 _ (by decide), shares 4 _ (by decide), shares 6 _ (by decide)]

namespace MpcithProver

section Answers

variable {backend : CryptoBackend} {circuit : Circuit FieldElement} {statement : Statement}
  {witness witness' : List FieldElement} {rng rng' : Rng} {id : RepetitionId} {challenge : Challenge}

/-- The response of a prover that has committed to the simulated views. -/
def answer (backend : CryptoBackend) (prover : MpcithProver) (id : RepetitionId) (rng : Rng) (challenge : Challenge) :
    Repetition :=
  prover.response id rng (prover.honestCommitment backend id rng) challenge (prover.circuit.outputs.map fun output =>
    (prover.execution rng output.asUsize).outputShare challenge.hiddenParty)

/-- Executions that only the hidden party tells apart are answered alike, its commitment excepted. -/
theorem answer_eq (valid : circuit.WellFormed) (witnessCount : witness.length = circuit.numSecretInputs)
    (witnessCount' : witness'.length = circuit.numSecretInputs)
    (publicInputs : statement.publicInputs.length = circuit.numPublicInputs)
    (outputs : evaluateReference circuit witness statement.publicInputs =
      evaluateReference circuit witness' statement.publicInputs)
    (fills : ∀ p : PartyId, rng.tape.fills (rng.filled + p.val) = rng'.tape.fills (rng'.filled + p.val))
    (conceals : JointData.Conceals circuit challenge.hiddenParty (drawnData witness rng) (drawnData witness' rng')
      (execution ⟨circuit, statement, witness⟩ rng) (execution ⟨circuit, statement, witness'⟩ rng')) :
    (answer backend ⟨circuit, statement, witness⟩ id rng challenge).withoutHiddenCommitment =
      (answer backend ⟨circuit, statement, witness'⟩ id rng' challenge).withoutHiddenCommitment := by
  have solved : circuit.Solves ((drawnData witness rng).meaning circuit (inputAt statement.publicInputs))
      (execution ⟨circuit, statement, witness⟩ rng) := @execution_solves ⟨circuit, statement, witness⟩ valid rng
  have solved' : circuit.Solves ((drawnData witness' rng').meaning circuit (inputAt statement.publicInputs))
      (execution ⟨circuit, statement, witness'⟩ rng') := @execution_solves ⟨circuit, statement, witness'⟩ valid rng'
  have views (p : PartyId) (shown : p ≠ challenge.hiddenParty) :
      honestView ⟨circuit, statement, witness⟩ id rng p = honestView ⟨circuit, statement, witness'⟩ id rng' p :=
    congrArg (buildView id p fun _ => ·) (conceals.partyStateAt_eq valid solved solved' shown)
  have broadcasts : (honestView ⟨circuit, statement, witness⟩ id rng challenge.hiddenParty).openedValues =
      (honestView ⟨circuit, statement, witness'⟩ id rng' challenge.hiddenParty).openedValues :=
    conceals.openedValues_eq valid solved solved' challenge.hiddenParty
  have opened (output : NodeId) (listed : output ∈ circuit.outputs) :
      (execution ⟨circuit, statement, witness⟩ rng output.asUsize).reveal =
        (execution ⟨circuit, statement, witness'⟩ rng' output.asUsize).reveal := by
    have first := evaluateReference_of_solves valid witnessCount publicInputs
      (@execution_reveal ⟨circuit, statement, witness⟩ valid rng)
    have second := evaluateReference_of_solves valid witnessCount' publicInputs
      (@execution_reveal ⟨circuit, statement, witness'⟩ valid rng')
    exact List.map_inj_left.mp (Outcome.ok.inj (first.symm.trans (outputs.trans second))) output listed
  simp only [answer, Repetition.withoutHiddenCommitment, response, JointData.response, Repetition.mk.injEq, true_and]
  refine ⟨?_, ?_, ?_, broadcasts⟩
  · apply eraseIdx_congr
    intro p shown
    simp only [honestCommitment, JointData.commitment, fills]
    exact congrArg (fun view => backend.hash (lengthPrefixed (rng'.tape.fills (rng'.filled + p.val)).val ++
      lengthPrefixed (commitmentMessage view))) (views p shown)
  · apply List.map_congr_left
    intro p listed
    rw [fills]
    exact congrArg (OpenedView.mk · _) (views p (PartyId.mem_others_iff.mp listed))
  · apply List.map_congr_left
    intro output listed
    have bound := valid.outputs output listed
    have kinds := (JointData.isShared_eq valid solved bound).trans (JointData.isShared_eq valid solved' bound).symm
    exact outputShare_eq kinds (conceals.ofParty_eq valid solved solved' bound) (opened output listed)

/-- Executions of one witness over tapes that agree on a repetition's draws. -/
theorem conceals_agreeing (valid : circuit.WellFormed) (witnessCount : witness.length = circuit.numSecretInputs)
    {tape tape' : Tape} {drawn filled : ℕ} (hidden : PartyId)
    (agree : ∀ k, drawn ≤ k → k < drawn + 2 * circuit.numSecretInputs + 8 * circuit.tripleCount →
      tape.elements k = tape'.elements k) :
    JointData.Conceals circuit hidden (drawnData witness ⟨tape, drawn, filled⟩)
      (drawnData witness ⟨tape', drawn, filled⟩) (execution ⟨circuit, statement, witness⟩ ⟨tape, drawn, filled⟩)
      (execution ⟨circuit, statement, witness⟩ ⟨tape', drawn, filled⟩) := by
  have triples (t : ℕ) (small : t < circuit.tripleCount) :
      (drawnData witness ⟨tape, drawn, filled⟩).triples t = (drawnData witness ⟨tape', drawn, filled⟩).triples t := by
    apply tripleAt_congr
    intro j side
    rw [witnessCount]
    exact agree (drawn + 2 * circuit.numSecretInputs + 8 * t + j) (by omega) (by omega)
  have revealed (tape : Tape) {k : ℕ} (small : k < circuit.nodes.length) :
      (execution ⟨circuit, statement, witness⟩ ⟨tape, drawn, filled⟩ k).reveal =
        circuit.valueOf (circuit.plaintext (inputAt witness) (inputAt statement.publicInputs)) 0 k :=
    (@execution_reveal ⟨circuit, statement, witness⟩ valid _).unique valid (valid.valueOf_solves _ _) small
  refine ⟨?_, ?_, ?_, ?_, ?_⟩
  · intro i small p _
    refine congrFun (sharesAt_congr _ ?_) p
    intro j side
    exact agree (drawn + 2 * i + j) (by omega) (by omega)
  · intro t small p _
    rw [triples t small]
  · intro t small p _
    rw [triples t small]
  · intro t small p _
    rw [triples t small]
  · intro n left right found here
    have bound := (List.getElem?_eq_some_iff.mp found).1
    obtain ⟨earlierLeft, earlierRight⟩ := valid.operands n _ left right found rfl
    have below : circuit.tripleRank n < circuit.tripleCount := rank_lt here bound
    rw [triples _ below, revealed tape (by omega), revealed tape' (by omega), revealed tape (by omega),
      revealed tape' (by omega), sub_self, sub_self, sub_self, sub_self]
    exact ⟨rfl, rfl⟩

end Answers

section Runs

variable {σ : Type} [ChallengeSource σ] {backend : CryptoBackend} {prover : MpcithProver} {index : ℕ} {rest : List ℕ}

/-- What a run shows: its repetitions less their commitments to hidden views. -/
def shown (backend : CryptoBackend) (prover : MpcithProver) (indices : List ℕ) (source : σ) (rng : Rng) :
    Outcome MpcithError (List Repetition) :=
  (fun result => result.1.map Repetition.withoutHiddenCommitment) <$>
    prover.proveRepetitions backend (fun source _ _ => ChallengeSource.nextChallenge source) indices source rng

/-- A repetition with views that can be committed answers the next challenge, and the run
goes on past its draws. -/
theorem shown_cons (valid : prover.circuit.WellFormed)
    (witnessCount : prover.witness.length = prover.circuit.numSecretInputs)
    (publicInputs : prover.statement.publicInputs.length = prover.circuit.numPublicInputs)
    (sizes : ∀ p, commitmentSize prover.circuit p < 2 ^ 32) (source : σ) (rng : Rng) :
    shown backend prover (index :: rest) source rng = (do
      let asked ← ChallengeSource.nextChallenge source
      let others ← shown backend prover rest asked.2 (prover.after rng)
      .ok ((answer backend prover (.ofIndex index) rng asked.1).withoutHiddenCommitment :: others)) := by
  have views (p : PartyId) := commitView_honestView valid backend (.ofIndex index) rng p
  simp only [if_pos (sizes _)] at views
  have committed := (commitRepetition_ok_iff valid witnessCount publicInputs).mpr ⟨_, views, rfl, rfl⟩
  simp only [shown, proveRepetitions, committed, Outcome.ok_bind, map_bind]
  apply Outcome.bind_congr
  rintro ⟨challenge, later⟩ _
  rw [finishRepetition_eq, Outcome.ok_bind, bind_map_left]
  rfl

/-- A repetition with a view too large to commit panics before any challenge. -/
theorem shown_oversized (valid : prover.circuit.WellFormed)
    (witnessCount : prover.witness.length = prover.circuit.numSecretInputs)
    (publicInputs : prover.statement.publicInputs.length = prover.circuit.numPublicInputs)
    (large : ¬∀ p, commitmentSize prover.circuit p < 2 ^ 32) (source : σ) (rng : Rng) :
    shown backend prover (index :: rest) source rng = .aborted := by
  have panics := repetition_eq valid witnessCount publicInputs backend (.ofIndex index) ⟨0⟩ rng
  rw [if_neg large, repetition] at panics
  cases committed : prover.commitRepetition backend (.ofIndex index) rng with
  | ok result =>
    rw [committed, Outcome.ok_bind] at panics
    cases panics
  | error failure =>
    rw [committed] at panics
    cases panics
  | aborted =>
    rw [shown, proveRepetitions, committed]
    rfl

variable {circuit : Circuit FieldElement} {statement : Statement} {witness witness' : List FieldElement}

/-- A run reads its tape from its own position on. -/
theorem shown_agreeing (valid : circuit.WellFormed) (witnessCount : witness.length = circuit.numSecretInputs)
    (publicInputs : statement.publicInputs.length = circuit.numPublicInputs) {tape tape' : Tape} {drawn filled : ℕ}
    (fills : tape.fills = tape'.fills) (agree : ∀ k, drawn ≤ k → tape.elements k = tape'.elements k) (indices : List ℕ)
    (source : σ) :
    shown backend ⟨circuit, statement, witness⟩ indices source ⟨tape, drawn, filled⟩ =
      shown backend ⟨circuit, statement, witness⟩ indices source ⟨tape', drawn, filled⟩ := by
  induction indices generalizing drawn filled source with
  | nil => rfl
  | cons index rest ih =>
    by_cases sizes : ∀ p, commitmentSize circuit p < 2 ^ 32
    · rw [shown_cons valid witnessCount publicInputs sizes, shown_cons valid witnessCount publicInputs sizes]
      apply Outcome.bind_congr
      rintro ⟨challenge, later⟩ _
      have remaining := @ih (drawn + 2 * witness.length + 8 * circuit.tripleCount) (filled + 3)
        (fun k past => agree k (by omega)) later
      have conceals := @conceals_agreeing circuit statement witness valid witnessCount tape tape' drawn filled
        challenge.hiddenParty fun k past _ => agree k past
      have first := @answer_eq backend circuit statement witness witness _ _ (.ofIndex index) challenge valid
        witnessCount witnessCount publicInputs rfl (fun p => congrFun fills (filled + p.val)) conceals
      simp only [after, remaining, first]
    · rw [shown_oversized valid witnessCount publicInputs sizes, shown_oversized valid witnessCount publicInputs sizes]

/-- The draws of one repetition. -/
def drawsPerRepetition (circuit : Circuit FieldElement) : ℕ := 2 * circuit.numSecretInputs + 8 * circuit.tripleCount

/-- A correction of the tape that leaves the commitment randomness and the draws outside
a run alone. -/
structure Corrects (circuit : Circuit FieldElement) (drawn count : ℕ) (image : Tape ≃ Tape) : Prop where
  fills : ∀ tape, (image tape).fills = tape.fills
  outside : ∀ (tape : Tape) (k : ℕ), k < drawn ∨ drawn + count * drawsPerRepetition circuit ≤ k →
    (image tape).elements k = tape.elements k

theorem Corrects.refl (circuit : Circuit FieldElement) (drawn count : ℕ) :
    Corrects circuit drawn count (.refl Tape) where
  fills _ := rfl
  outside _ _ _ := rfl

/-- Corrections of consecutive stretches are one correction of both. -/
theorem Corrects.trans {drawn count : ℕ} {image image' : Tape ≃ Tape} (first : Corrects circuit drawn 1 image)
    (later : Corrects circuit (drawn + drawsPerRepetition circuit) count image') :
    Corrects circuit drawn (count + 1) (image.trans image') where
  fills tape := (later.fills (image tape)).trans (first.fills tape)
  outside tape k away := by
    have stretch : (count + 1) * drawsPerRepetition circuit =
        count * drawsPerRepetition circuit + drawsPerRepetition circuit := Nat.succ_mul _ _
    have earlier := first.outside tape k (by omega)
    exact (later.outside (image tape) k (by omega)).trans earlier

/-- Runs over witnesses with the same outputs show the same once the tape is corrected,
one repetition after the other. -/
theorem exists_correction (valid : circuit.WellFormed) (witnessCount : witness.length = circuit.numSecretInputs)
    (witnessCount' : witness'.length = circuit.numSecretInputs)
    (publicInputs : statement.publicInputs.length = circuit.numPublicInputs)
    (outputs : evaluateReference circuit witness statement.publicInputs =
      evaluateReference circuit witness' statement.publicInputs) (indices : List ℕ) (source : σ) (drawn filled : ℕ) :
    ∃ image : Tape ≃ Tape, Corrects circuit drawn indices.length image ∧
      ∀ tape, shown backend ⟨circuit, statement, witness⟩ indices source ⟨tape, drawn, filled⟩ =
        shown backend ⟨circuit, statement, witness'⟩ indices source ⟨image tape, drawn, filled⟩ := by
  induction indices generalizing source drawn filled with
  | nil => exact ⟨.refl Tape, .refl circuit drawn 0, fun _ => rfl⟩
  | cons index rest ih =>
    by_cases sizes : ∀ p, commitmentSize circuit p < 2 ^ 32
    · have run (own : List FieldElement) (count : own.length = circuit.numSecretInputs) (tape : Tape) :=
        @shown_cons σ _ backend ⟨circuit, statement, own⟩ index rest valid count publicInputs sizes source
          ⟨tape, drawn, filled⟩
      cases asked : ChallengeSource.nextChallenge source with
      | ok answered =>
        obtain ⟨challenge, later⟩ := answered
        have stretch : drawn + drawsPerRepetition circuit =
            drawn + 2 * circuit.numSecretInputs + 8 * circuit.tripleCount := (Nat.add_assoc _ _ _).symm
        obtain ⟨image', corrects', same⟩ := ih later (drawn + drawsPerRepetition circuit) (filled + 3)
        let image := (Drift.between circuit (inputAt statement.publicInputs) witness witness').correct
          challenge.hiddenParty drawn circuit.numSecretInputs
        have corrects : Corrects circuit drawn 1 image := by
          refine ⟨fun _ => rfl, ?_⟩
          intro tape k away
          rw [Nat.one_mul, stretch] at away
          exact Drift.between_outside tape away
        refine ⟨image.trans image', corrects.trans corrects', ?_⟩
        intro tape
        have moved : JointData.Conceals circuit challenge.hiddenParty _ _ _ _ := @conceals_between circuit statement
          witness witness' challenge.hiddenParty valid witnessCount witnessCount' tape drawn filled
        have kept := @conceals_agreeing circuit statement witness' valid witnessCount' (image tape)
          (image' (image tape)) drawn filled challenge.hiddenParty fun k _ before => (corrects'.outside (image tape) k (by omega)).symm
        have switched := @answer_eq backend circuit statement witness witness' ⟨tape, drawn, filled⟩
          ⟨image tape, drawn, filled⟩ (.ofIndex index) challenge valid witnessCount witnessCount' publicInputs outputs
          (fun _ => rfl) moved
        have unread := @answer_eq backend circuit statement witness' witness' ⟨image tape, drawn, filled⟩
          ⟨image' (image tape), drawn, filled⟩ (.ofIndex index) challenge valid witnessCount' witnessCount' publicInputs
          rfl (fun p => congrFun (corrects'.fills (image tape)).symm (filled + p.val)) kept
        have first := switched.trans unread
        have remaining := (@shown_agreeing σ _ backend circuit statement witness valid witnessCount publicInputs tape
          (image tape) (drawn + drawsPerRepetition circuit) (filled + 3) (corrects.fills tape).symm
            (fun k past => (corrects.outside tape k (by omega)).symm) rest later).trans (same (image tape))
        rw [run witness witnessCount, run witness' witnessCount', asked, Outcome.ok_bind, Outcome.ok_bind]
        rw [stretch] at remaining
        simp only [after, witnessCount, witnessCount', Equiv.trans_apply, first, remaining]
      | error failure =>
        refine ⟨.refl Tape, .refl circuit drawn _, fun tape => ?_⟩
        rw [run witness witnessCount, run witness' witnessCount', asked]
        rfl
      | aborted =>
        refine ⟨.refl Tape, .refl circuit drawn _, fun tape => ?_⟩
        rw [run witness witnessCount, run witness' witnessCount', asked]
        rfl
    · refine ⟨.refl Tape, .refl circuit drawn _, fun tape => ?_⟩
      rw [shown_oversized valid witnessCount publicInputs sizes, shown_oversized valid witnessCount' publicInputs sizes]

/-- Zero knowledge of whole proofs, their commitments to hidden views excepted: whatever
source the challenges come from, one correction of the tape makes the proofs of two
witnesses with the same outputs show the same in all their repetitions. -/
theorem prove_hides {sha256 : Bytes → Digest} (backend : CryptoBackend)
    (validated : statement.validate sha256 circuit = .ok ())
    (witnessCount : witness.length = circuit.numSecretInputs)
    (witnessCount' : witness'.length = circuit.numSecretInputs)
    (outputs : evaluateReference circuit witness statement.publicInputs =
      evaluateReference circuit witness' statement.publicInputs)
    (repetitionCount : UInt32) (source : σ) (drawn filled : ℕ) :
    ∃ image : Tape ≃ Tape, Corrects circuit drawn repetitionCount.toNat image ∧ ∀ tape,
      (fun result => result.1.repetitions.map Repetition.withoutHiddenCommitment) <$>
          prove backend ⟨circuit, statement, witness⟩ repetitionCount source ⟨tape, drawn, filled⟩ =
        (fun result => result.1.repetitions.map Repetition.withoutHiddenCommitment) <$>
          prove backend ⟨circuit, statement, witness'⟩ repetitionCount source ⟨image tape, drawn, filled⟩ := by
  obtain ⟨valid, -, publicInputs, -⟩ := Statement.validate_ok_iff.mp validated
  obtain ⟨image, corrects, same⟩ := @exists_correction σ _ backend circuit statement witness witness' valid witnessCount
    witnessCount' publicInputs outputs (List.range repetitionCount.toNat) source drawn filled
  rw [List.length_range] at corrects
  refine ⟨image, corrects, ?_⟩
  intro tape
  have unfolded (own : List FieldElement) (rng : Rng) :
      (fun result => result.1.repetitions.map Repetition.withoutHiddenCommitment) <$>
          prove backend ⟨circuit, statement, own⟩ repetitionCount source rng = (do
        Outcome.reject (repetitionCount = 0) .invalidRepetitionCount
        shown backend ⟨circuit, statement, own⟩ (List.range repetitionCount.toNat) source rng) := by
    rw [prove, proveWith, map_bind]
    apply Outcome.bind_congr
    intro _ _
    rw [map_bind, shown, map_eq_bind_pure_comp]
    rfl
  rw [unfolded, unfolded, same tape]

/-- Two factorisations of six are told apart by nothing that three repetitions show. -/
theorem prove_hides_product :
    ∃ image : Tape ≃ Tape, Corrects productCircuit 0 (3 : UInt32).toNat image ∧ ∀ tape,
      (fun result => result.1.repetitions.map Repetition.withoutHiddenCommitment) <$>
          prove (sha256Backend PaymentAuth.sha256) ⟨productCircuit, productStatement, [2, 3]⟩ 3
            (DeterministicChallengeSource.new [0, 2, 1]) ⟨tape, 0, 0⟩ =
        (fun result => result.1.repetitions.map Repetition.withoutHiddenCommitment) <$>
          prove (sha256Backend PaymentAuth.sha256) ⟨productCircuit, productStatement, [6, 1]⟩ 3
            (DeterministicChallengeSource.new [0, 2, 1]) ⟨image tape, 0, 0⟩ :=
  @prove_hides DeterministicChallengeSource _ productCircuit productStatement [2, 3] [6, 1] PaymentAuth.sha256
    (sha256Backend PaymentAuth.sha256) (by decide +kernel) rfl rfl (by decide +kernel) 3
    (DeterministicChallengeSource.new [0, 2, 1]) 0 0

end Runs

end MpcithProver

end PaymentAuth.Mpcith
