import PaymentAuth.Crypto.Sha256
import PaymentAuth.Mpcith.Acceptance
import PaymentAuth.Mpcith.HonestRun

namespace PaymentAuth.Mpcith

open Library

/-- What a party contributes to opening an output; a public output needs nothing. -/
def NodeVal.outputShare (p : PartyId) : NodeVal Shares → FieldElement
  | .plain _ => 0
  | .shared shares => shares p

namespace MpcithProver

variable {prover : MpcithProver} {id : RepetitionId} {rng : Rng}

/-- The commitment to a simulated view, when its message can be encoded. -/
def honestCommitment (backend : CryptoBackend) (prover : MpcithProver) (id : RepetitionId) (rng : Rng)
    (p : PartyId) : ViewCommitment :=
  (drawnData prover.witness rng).commitment prover.circuit (inputAt prover.statement.publicInputs) id backend
    (fun p => rng.tape.fills (rng.filled + p.val)) p

theorem commitView_honestView (valid : prover.circuit.WellFormed) (backend : CryptoBackend)
    (id : RepetitionId) (rng : Rng) (p : PartyId) :
    commitView backend (prover.honestView id rng p) (rng.tape.fills (rng.filled + p.val)) =
      if commitmentSize prover.circuit p < 2 ^ 32 then .ok (prover.honestCommitment backend id rng p)
      else .aborted :=
  JointData.commitView_view valid backend (fun p => rng.tape.fills (rng.filled + p.val)) (rng.tape.fills _).property

/-- A response that opens the simulated views but claims any hidden output shares. -/
def response (prover : MpcithProver) (id : RepetitionId) (rng : Rng)
    (commitments : PartyId → ViewCommitment) (challenge : Challenge) (hiddenOutputShares : List FieldElement) :
    Repetition :=
  (drawnData prover.witness rng).response prover.circuit (inputAt prover.statement.publicInputs) id
    (fun p => rng.tape.fills (rng.filled + p.val)) commitments challenge hiddenOutputShares

/-- Finishing a committed repetition opens the simulated views. -/
theorem finishRepetition_eq (commitments : PartyId → ViewCommitment) (challenge : Challenge) :
    finishRepetition (prover.honestPartial id rng commitments) challenge =
      .ok (prover.response id rng commitments challenge (prover.circuit.outputs.map fun output =>
        (prover.execution rng output.asUsize).outputShare challenge.hiddenParty)) := by
  have sorted : (((PartyId.others challenge.hiddenParty).map fun p =>
      (⟨prover.honestView id rng p, rng.tape.fills (rng.filled + p.val)⟩ : OpenedView)).insertionSort
        fun left right => left.view.partyId ≤ right.view.partyId) =
      (PartyId.others challenge.hiddenParty).map fun p =>
        ⟨prover.honestView id rng p, rng.tape.fills (rng.filled + p.val)⟩ := by
    match challenge.hiddenParty with
    | 0 | 1 | 2 => rfl
  simp only [finishRepetition, PartyId.new_get, Outcome.ok_bind, honestPartial, sorted, List.map_map]
  refine congrArg Outcome.ok ?_
  simp only [response, JointData.response, Repetition.mk.injEq, true_and]
  refine ⟨rfl, ?_, rfl⟩
  refine List.map_congr_left fun output _ => ?_
  simp only [Function.comp]
  cases prover.execution rng output.asUsize <;> rfl

/-- The simulated values open to the evaluation of the witness. -/
theorem execution_reveal (valid : prover.circuit.WellFormed) (rng : Rng) :
    prover.circuit.Solves
      (prover.circuit.plaintext (inputAt prover.witness) (inputAt prover.statement.publicInputs))
      fun n => (prover.execution rng n).reveal := by
  have opened := JointData.reveal_solves (fun _ => tripleAt_multiplies _ _) (execution_solves valid rng)
  simpa only [drawnData, sharesAt_total] using opened

/-- A prover whose witness evaluates to the expected outputs of its statement. -/
structure Honest (sha256 : Bytes → Digest) (prover : MpcithProver) : Prop where
  validated : prover.statement.Validated sha256 prover.circuit
  witnessCount : prover.witness.length = prover.circuit.numSecretInputs
  evaluates : evaluateReference prover.circuit prover.witness prover.statement.publicInputs =
    .ok prover.statement.expectedOutputs

section Honesty

variable {sha256 : Bytes → Digest} {backend : CryptoBackend}

theorem Honest.expectedOutput (honest : prover.Honest sha256) (rng : Rng) {k : ℕ} {output : NodeId}
    (found : prover.circuit.outputs[k]? = some output) :
    inputAt prover.statement.expectedOutputs k = (prover.execution rng output.asUsize).reveal := by
  have valid := honest.validated.wellFormed
  obtain ⟨-, -, value, solved, outputs⟩ := (evaluateReference_ok_iff valid).mp honest.evaluates
  have bound := valid.outputs output (List.mem_of_getElem? found)
  rw [← solved.unique valid (execution_reveal valid rng) bound, outputs]
  simp [inputAt, found]

/-- Whatever the challenge, a committed repetition finishes and the verifier accepts it. -/
theorem Honest.finishRepetition_accepted (honest : prover.Honest sha256)
    {commitments : PartyId → ViewCommitment}
    (committed : ∀ p, commitView backend (prover.honestView id rng p) (rng.tape.fills (rng.filled + p.val)) =
      .ok (commitments p)) (challenge : Challenge) :
    ∃ repetition, finishRepetition (prover.honestPartial id rng commitments) challenge = .ok repetition ∧
      repetition.id = id ∧
      verifyRepetition backend prover.statement repetition prover.circuit = .ok true := by
  have valid := honest.validated.wellFormed
  refine ⟨_, finishRepetition_eq commitments challenge, rfl, ?_⟩
  refine (verifyRepetition_true_iff valid honest.validated.publicInputs honest.validated.expectedOutputs).mpr
    ⟨_, _, _, _, JointData.response_accepted valid (fun p _ => committed p) (by simp) fun k output found => ?_⟩
  have bound := valid.outputs output (List.mem_of_getElem? found)
  have shared := JointData.isShared_eq valid (execution_solves valid rng) bound
  have held (p : PartyId) : (drawnData prover.witness rng).partyValue prover.circuit
      (inputAt prover.statement.publicInputs) p output.asUsize =
        (prover.execution rng output.asUsize).ofParty p := rfl
  rw [honest.expectedOutput rng found]
  simp only [held]
  cases opened : prover.execution rng output.asUsize with
  | plain value => simp [← shared, opened, NodeVal.isShared, NodeVal.outputShare, inputAt, found]
  | shared shares =>
    simpa [← shared, opened, NodeVal.isShared, NodeVal.outputShare, inputAt, found, NodeVal.ofParty,
      NodeVal.asField, NodeVal.reveal] using openedTotal_add challenge.hiddenParty shares

/-- What a driver has to show of the repetition it returns for each index. -/
private def AcceptedAt (backend : CryptoBackend) (prover : MpcithProver) (index : ℕ)
    (repetition : Repetition) : Prop :=
  repetition.id = .ofIndex index ∧
    verifyRepetition backend prover.statement repetition prover.circuit = .ok true

private theorem Honest.verify_valid (honest : prover.Honest sha256) {count : ℕ} (positive : count ≠ 0)
    {repetitions : List Repetition}
    (accepted : List.Forall₂ (AcceptedAt backend prover) (List.range count) repetitions) :
    verify sha256 backend prover.statement ⟨repetitions⟩ prover.circuit = .ok .valid := by
  have size : repetitions.length = count := by simpa using accepted.length_eq.symm
  refine verify_valid_iff.mpr ⟨honest.validated, ?_, fun index repetition found => ?_⟩
  · rintro rfl
    exact positive size.symm
  · obtain ⟨bound, rfl⟩ := List.getElem?_eq_some_iff.mp found
    have here := (List.forall₂_iff_get.mp accepted).2 index (by simpa [← size] using bound) bound
    simpa only [AcceptedAt, List.get_eq_getElem, List.getElem_range] using here

/-- Every repetition that a challenge closure drives to its end is accepted. -/
private theorem Honest.proveRepetitions_accepted (honest : prover.Honest sha256) {σ : Type}
    {challengeOf : σ → RepetitionId → List ViewCommitment → Outcome MpcithError (Challenge × σ)}
    {indices : List ℕ} {source : σ} {next : Rng} {repetitions : List Repetition}
    (proved : prover.proveRepetitions backend challengeOf indices source rng = .ok (repetitions, next)) :
    List.Forall₂ (AcceptedAt backend prover) indices repetitions := by
  induction indices generalizing source rng repetitions with
  | nil =>
    cases proved
    exact .nil
  | cons index rest ih =>
    simp only [proveRepetitions, Outcome.bind_ok_iff, Outcome.ok.injEq, Prod.exists, Prod.mk.injEq,
      commitRepetition_ok_iff honest.validated.wellFormed honest.witnessCount
        honest.validated.publicInputs] at proved
    obtain ⟨_, _, ⟨commitments, committed, rfl, rfl⟩, challenge, _, -, repetition, finished, _, _,
      others, rfl, rfl⟩ := proved
    obtain ⟨_, same, ids, verified⟩ := honest.finishRepetition_accepted committed challenge
    cases finished.symm.trans same
    exact .cons ⟨ids, verified⟩ (ih others)

private theorem Honest.commitRepetitions_accepted (honest : prover.Honest sha256) {indices : List ℕ}
    {next : Rng} {partials : List PartialRepetition}
    (committed : prover.commitRepetitions backend indices rng = .ok (partials, next)) :
    List.Forall₂ (fun index partialRepetition => ∀ challenge repetition,
      finishRepetition partialRepetition challenge = .ok repetition →
        AcceptedAt backend prover index repetition) indices partials := by
  induction indices generalizing rng partials with
  | nil =>
    cases committed
    exact .nil
  | cons index rest ih =>
    simp only [commitRepetitions, Outcome.bind_ok_iff, Outcome.ok.injEq, Prod.exists, Prod.mk.injEq,
      commitRepetition_ok_iff honest.validated.wellFormed honest.witnessCount
        honest.validated.publicInputs] at committed
    obtain ⟨_, _, ⟨commitments, committed, rfl, rfl⟩, _, _, others, rfl, rfl⟩ := committed
    refine .cons (fun challenge repetition finished => ?_) (ih others)
    obtain ⟨_, same, ids, verified⟩ := honest.finishRepetition_accepted committed challenge
    cases finished.symm.trans same
    exact ⟨ids, verified⟩

private theorem forall₂_acceptedAt {indices : List ℕ} {partials : List PartialRepetition}
    {challenges : List Challenge} {repetitions : List Repetition}
    (accepted : List.Forall₂ (fun index partialRepetition => ∀ challenge repetition,
      finishRepetition partialRepetition challenge = .ok repetition →
        AcceptedAt backend prover index repetition) indices partials)
    (sizes : challenges.length = partials.length)
    (finished : List.Forall₂ (fun (item : PartialRepetition × Challenge) repetition =>
      finishRepetition item.1 item.2 = .ok repetition) (partials.zip challenges) repetitions) :
    List.Forall₂ (AcceptedAt backend prover) indices repetitions := by
  induction accepted generalizing challenges repetitions with
  | nil =>
    cases finished
    exact .nil
  | cons first _ ih =>
    cases challenges with
    | nil => cases sizes
    | cons challenge challenges =>
      cases finished with
      | cons here others => exact .cons (first _ _ here) (ih (Nat.succ.inj sizes) others)

/-- The commitment phase goes through as soon as the views can be encoded. -/
theorem Honest.commitRepetition_total (honest : prover.Honest sha256)
    (sizes : ∀ p, commitmentSize prover.circuit p < 2 ^ 32) (backend : CryptoBackend)
    (id : RepetitionId) (rng : Rng) :
    ∃ partialRepetition next, prover.commitRepetition backend id rng = .ok (partialRepetition, next) := by
  have valid := honest.validated.wellFormed
  have committed (p : PartyId) := commitView_honestView valid backend id rng p
  simp only [if_pos (sizes _)] at committed
  exact ⟨_, _, (commitRepetition_ok_iff valid honest.witnessCount honest.validated.publicInputs).mpr
    ⟨_, committed, rfl, rfl⟩⟩

/-- Committed repetitions carry their numbers and three commitments each. -/
private theorem commitRepetitions_shape {indices : List ℕ} {next : Rng} {partials : List PartialRepetition}
    (committed : prover.commitRepetitions backend indices rng = .ok (partials, next)) :
    partials.map PartialRepetition.id = indices.map .ofIndex ∧ ∀ item ∈ partials, item.commitments.length = 3 := by
  induction indices generalizing rng partials with
  | nil =>
    cases committed
    exact ⟨rfl, by simp⟩
  | cons index rest ih =>
    simp only [commitRepetitions, Outcome.bind_ok_iff, Outcome.ok.injEq, Prod.exists, Prod.mk.injEq] at committed
    obtain ⟨item, _, first, _, _, others, rfl, rfl⟩ := committed
    obtain ⟨ids, complete⟩ := ih others
    simp only [commitRepetition, Outcome.bind_ok_iff, Outcome.ok.injEq, Prod.mk.injEq] at first
    obtain ⟨_, _, _, _, _, _, _, _, _, _, rfl, _⟩ := first
    refine ⟨by rw [List.map_cons, List.map_cons, ids], ?_⟩
    intro other member
    rcases List.mem_cons.mp member with rfl | later
    · rfl
    · exact complete other later

/-- Finishing keeps ids and commitments and answers the given challenges. -/
private theorem finishRepetitions_kept {partials : List PartialRepetition} {challenges : List Challenge}
    {repetitions : List Repetition} (sizes : challenges.length = partials.length)
    (finished : (partials.zip challenges).mapM (fun item => finishRepetition item.1 item.2) = .ok repetitions) :
    (repetitions.map fun repetition => (repetition.id, repetition.commitments)) =
        partials.map (fun item => (item.id, item.commitments)) ∧
      repetitions.map Repetition.challenge = challenges := by
  have each (item : PartialRepetition × Challenge) : ∃ repetition,
      finishRepetition item.1 item.2 = .ok repetition ∧
        (repetition.id, repetition.commitments) = (item.1.id, item.1.commitments) ∧ repetition.challenge = item.2 := by
    simp only [finishRepetition, PartyId.new_get, Outcome.ok_bind]
    exact ⟨_, rfl, rfl, rfl⟩
  choose finish done kept answered using each
  rw [Outcome.mapM_ok_of_forall finish fun item _ => done item, Outcome.ok.injEq] at finished
  subst finished
  rw [List.map_map, List.map_map]
  constructor
  · conv_rhs => rw [← List.map_fst_zip sizes.ge, List.map_map]
    exact List.map_congr_left fun item _ => kept item
  · conv_rhs => rw [← List.map_snd_zip sizes.le]
    exact List.map_congr_left fun item _ => answered item

private theorem Honest.proveRepetitions_total (honest : prover.Honest sha256)
    (sizes : ∀ p, commitmentSize prover.circuit p < 2 ^ 32)
    (backend : CryptoBackend) (challengeOf : RepetitionId → List ViewCommitment → Challenge)
    (indices : List ℕ) (rng : Rng) :
    ∃ repetitions next, prover.proveRepetitions backend
      (fun (_ : Unit) id commitments => .ok (challengeOf id commitments, ())) indices () rng =
        .ok (repetitions, next) := by
  induction indices generalizing rng with
  | nil => exact ⟨_, _, rfl⟩
  | cons index rest ih =>
    obtain ⟨partialRepetition, next, committed⟩ := honest.commitRepetition_total sizes backend (.ofIndex index) rng
    obtain ⟨repetitions, last, proved⟩ := ih next
    simp only [proveRepetitions, committed, proved, finishRepetition, PartyId.new_get, Outcome.ok_bind]
    exact ⟨_, _, rfl⟩

private theorem Honest.commitRepetitions_total (honest : prover.Honest sha256)
    (sizes : ∀ p, commitmentSize prover.circuit p < 2 ^ 32) (backend : CryptoBackend)
    (indices : List ℕ) (rng : Rng) :
    ∃ partials next, prover.commitRepetitions backend indices rng = .ok (partials, next) := by
  induction indices generalizing rng with
  | nil => exact ⟨_, _, rfl⟩
  | cons index rest ih =>
    obtain ⟨partialRepetition, next, committed⟩ := honest.commitRepetition_total sizes backend (.ofIndex index) rng
    obtain ⟨partials, last, proved⟩ := ih next
    simp only [commitRepetitions, committed, proved, Outcome.ok_bind]
    exact ⟨_, _, rfl⟩

end Honesty

section Drivers

variable {sha256 : Bytes → Digest} {backend : CryptoBackend} {repetitionCount : UInt32}

/-- The interactive driver's proofs verify, whatever its challenges are. -/
theorem Honest.proveWith_valid (honest : prover.Honest sha256) {σ : Type}
    {challengeOf : σ → RepetitionId → List ViewCommitment → Outcome MpcithError (Challenge × σ)}
    {source : σ} {proof : MpcithProof} {next : Rng}
    (proved : prover.proveWith backend repetitionCount challengeOf source rng = .ok (proof, next)) :
    verify sha256 backend prover.statement proof prover.circuit = .ok .valid := by
  simp only [proveWith, Outcome.bind_ok_iff, Outcome.reject_ok_iff, exists_const, Prod.exists,
    Outcome.ok.injEq, Prod.mk.injEq] at proved
  obtain ⟨positive, repetitions, _, run, rfl, -⟩ := proved
  exact honest.verify_valid (fun none => positive (UInt32.toNat_inj.mp none))
    (honest.proveRepetitions_accepted run)

/-- The joint driver's proofs verify, whatever its challenges are. -/
theorem Honest.proveJointFs_valid (honest : prover.Honest sha256)
    {challengesOf : List (RepetitionId × List ViewCommitment) → Outcome MpcithError (List Challenge)}
    {proof : MpcithProof} {next : Rng}
    (proved : prover.proveJointFs backend repetitionCount challengesOf rng = .ok (proof, next)) :
    verify sha256 backend prover.statement proof prover.circuit = .ok .valid := by
  simp only [proveJointFs, commitPhase, Outcome.bind_ok_iff, Outcome.reject_ok_iff, exists_const, Prod.exists,
    Outcome.ok.injEq, Prod.mk.injEq, not_not] at proved
  obtain ⟨positive, partials, _, ⟨-, committed⟩, challenges, -, sizes, repetitions, finished, rfl, -⟩ := proved
  refine honest.verify_valid (fun none => positive (UInt32.toNat_inj.mp none)) ?_
  exact forall₂_acceptedAt (honest.commitRepetitions_accepted committed) sizes
    (Outcome.mapM_ok_iff.mp finished)

theorem Honest.proveWith_total (honest : prover.Honest sha256)
    (sizes : ∀ p, commitmentSize prover.circuit p < 2 ^ 32) (positive : repetitionCount ≠ 0)
    (challengeOf : RepetitionId → List ViewCommitment → Challenge) :
    ∃ proof next, prover.proveWith backend repetitionCount
      (fun (_ : Unit) id commitments => .ok (challengeOf id commitments, ())) () rng =
        .ok (proof, next) := by
  obtain ⟨repetitions, next, run⟩ := honest.proveRepetitions_total sizes backend challengeOf
    (List.range repetitionCount.toNat) rng
  simp only [proveWith, Outcome.reject_of_not positive, run, Outcome.ok_bind]
  exact ⟨_, _, rfl⟩

/-- A joint proof numbers its repetitions, commits each party's view and
answers the challenges derived from these commitments. -/
theorem proveJointFs_transcript
    {challengesOf : List (RepetitionId × List ViewCommitment) → Outcome MpcithError (List Challenge)}
    {proof : MpcithProof} {next : Rng}
    (proved : prover.proveJointFs backend repetitionCount challengesOf rng = .ok (proof, next)) :
    challengesOf (proof.repetitions.map fun repetition => (repetition.id, repetition.commitments)) =
        .ok (proof.repetitions.map Repetition.challenge) ∧
      proof.repetitions.map Repetition.id = (List.range repetitionCount.toNat).map .ofIndex ∧
      ∀ repetition ∈ proof.repetitions, repetition.commitments.length = 3 := by
  simp only [proveJointFs, commitPhase, Outcome.bind_ok_iff, Outcome.reject_ok_iff, exists_const, Prod.exists,
    Outcome.ok.injEq, Prod.mk.injEq, not_not] at proved
  obtain ⟨-, partials, _, ⟨-, committed⟩, challenges, derived, sizes, repetitions, finished, rfl, -⟩ := proved
  obtain ⟨ids, complete⟩ := commitRepetitions_shape committed
  obtain ⟨kept, answered⟩ := finishRepetitions_kept sizes finished
  refine ⟨by rw [kept, derived, answered], ?_, ?_⟩
  · have numbers := congrArg (List.map Prod.fst) kept
    rw [List.map_map, List.map_map] at numbers
    exact numbers.trans ids
  · intro repetition member
    have listed : (repetition.id, repetition.commitments) ∈ partials.map fun item => (item.id, item.commitments) :=
      kept ▸ List.mem_map_of_mem member
    obtain ⟨item, inside, same⟩ := List.mem_map.mp listed
    rw [← (Prod.mk.inj same).2]
    exact complete item inside

/-- A joint prover returns a proof as soon as its views can be encoded and its
commitments are given as many challenges. -/
theorem Honest.exists_proveJointFs (honest : prover.Honest sha256)
    (sizes : ∀ p, commitmentSize prover.circuit p < 2 ^ 32) (positive : repetitionCount ≠ 0)
    {challengesOf : List (RepetitionId × List ViewCommitment) → Outcome MpcithError (List Challenge)}
    (answers : ∀ sessions, sessions.length = repetitionCount.toNat → (∀ session ∈ sessions, session.2.length = 3) →
      ∃ challenges, challengesOf sessions = .ok challenges ∧ challenges.length = sessions.length) :
    ∃ proof next, prover.proveJointFs backend repetitionCount challengesOf rng = .ok (proof, next) := by
  obtain ⟨partials, next, run⟩ := honest.commitRepetitions_total sizes backend
    (List.range repetitionCount.toNat) rng
  obtain ⟨ids, complete⟩ := commitRepetitions_shape run
  have total : partials.length = repetitionCount.toNat := by simpa using congrArg List.length ids
  obtain ⟨challenges, derived, count⟩ := answers (partials.map fun item => (item.id, item.commitments))
    (by rw [List.length_map, total]) (by simpa using complete)
  have finished (item : PartialRepetition × Challenge) :
      ∃ repetition, finishRepetition item.1 item.2 = .ok repetition := by
    simp only [finishRepetition, PartyId.new_get, Outcome.ok_bind]
    exact ⟨_, rfl⟩
  choose finish finished using finished
  rw [List.length_map] at count
  simp only [proveJointFs, commitPhase, Outcome.reject_of_not positive, run, Outcome.ok_bind, derived, count,
    ne_eq, not_true_eq_false, not_false_eq_true, Outcome.reject_of_not,
    Outcome.mapM_ok_of_forall finish fun item _ => finished item]
  exact ⟨_, _, rfl⟩

theorem Honest.proveJointFs_total (honest : prover.Honest sha256)
    (sizes : ∀ p, commitmentSize prover.circuit p < 2 ^ 32) (positive : repetitionCount ≠ 0)
    (challengeOf : RepetitionId → List ViewCommitment → Challenge) :
    ∃ proof next, prover.proveJointFs backend repetitionCount
      (fun sessions => .ok (sessions.map fun (id, commitments) => challengeOf id commitments)) rng =
        .ok (proof, next) :=
  honest.exists_proveJointFs sizes positive fun _ _ _ => ⟨_, rfl, List.length_map _⟩

/-- Completeness: the proofs of a witness that evaluates to the expected outputs
verify, under every tape and every challenge function. A driver whose challenges
never fail returns a proof as long as the three views can be encoded. -/
theorem prove_complete {circuit : Circuit FieldElement} {statement : Statement}
    {witness : List FieldElement} (validated : statement.validate sha256 circuit = .ok ())
    (witnessCount : witness.length = circuit.numSecretInputs)
    (evaluates : evaluateReference circuit witness statement.publicInputs = .ok statement.expectedOutputs)
    (positive : repetitionCount ≠ 0) (rng : Rng) :
    ∃ prover, newBackend sha256 circuit statement witness = .ok prover ∧
      (∀ (σ : Type)
        (challengeOf : σ → RepetitionId → List ViewCommitment → Outcome MpcithError (Challenge × σ))
        (source : σ) (proof : MpcithProof) (next : Rng),
        prover.proveWith backend repetitionCount challengeOf source rng = .ok (proof, next) →
          verify sha256 backend statement proof circuit = .ok .valid) ∧
      (∀ (challengesOf : List (RepetitionId × List ViewCommitment) → Outcome MpcithError (List Challenge))
        (proof : MpcithProof) (next : Rng),
        prover.proveJointFs backend repetitionCount challengesOf rng = .ok (proof, next) →
          verify sha256 backend statement proof circuit = .ok .valid) ∧
      ((∀ p, commitmentSize circuit p < 2 ^ 32) →
        ∀ challengeOf : RepetitionId → List ViewCommitment → Challenge,
          (∃ proof next, prover.proveWith backend repetitionCount
            (fun (_ : Unit) id commitments => .ok (challengeOf id commitments, ())) () rng =
              .ok (proof, next)) ∧
          ∃ proof next, prover.proveJointFs backend repetitionCount
            (fun sessions => .ok (sessions.map fun (id, commitments) => challengeOf id commitments)) rng =
              .ok (proof, next)) := by
  have honest : Honest sha256 ⟨circuit, statement, witness⟩ :=
    ⟨Statement.validate_ok_iff.mp validated, witnessCount, evaluates⟩
  refine ⟨⟨circuit, statement, witness⟩, ?_, fun _ _ _ _ _ proved => honest.proveWith_valid proved,
    fun _ _ _ proved => honest.proveJointFs_valid proved, fun sizes challengeOf =>
      ⟨honest.proveWith_total sizes positive challengeOf, honest.proveJointFs_total sizes positive challengeOf⟩⟩
  simp only [newBackend, validated, Outcome.ok_bind, Outcome.reject_of_not (not_not.mpr witnessCount)]

/-- The product of two secrets plus a public input. -/
def productCircuit : Circuit FieldElement where
  nodes := [.secretInput, .secretInput, .mul ⟨0⟩ ⟨1⟩, .publicInput, .add ⟨2⟩ ⟨3⟩]
  numSecretInputs := 2
  numPublicInputs := 1
  outputs := [⟨4⟩]

def productStatement : Statement where
  circuitId := sha256HashDomain PaymentAuth.sha256 circuitIdDomain productCircuit.encode
  publicInputs := [1]
  expectedOutputs := [7]

def zeroTape : Tape where
  elements _ := 0
  fills _ := ⟨List.replicate randomnessLen 0, rfl⟩

theorem product_honest : Honest PaymentAuth.sha256 ⟨productCircuit, productStatement, [2, 3]⟩ := by
  have validated : productStatement.validate PaymentAuth.sha256 productCircuit = .ok () := by decide +kernel
  exact ⟨Statement.validate_ok_iff.mp validated, rfl, by decide +kernel⟩

theorem prove_complete_product :
    ∃ prover proof next,
      newBackend PaymentAuth.sha256 productCircuit productStatement [2, 3] = .ok prover ∧
      prover.proveJointFs (sha256Backend PaymentAuth.sha256) 2
        (fun sessions => .ok (sessions.map fun (id, _) => if id.get = 0 then ⟨1⟩ else ⟨2⟩)) ⟨zeroTape, 0, 0⟩ =
          .ok (proof, next) ∧
      verify PaymentAuth.sha256 (sha256Backend PaymentAuth.sha256) productStatement proof productCircuit =
        .ok .valid := by
  obtain ⟨prover, created, -, joint, total⟩ := @prove_complete PaymentAuth.sha256
    (sha256Backend PaymentAuth.sha256) 2 productCircuit productStatement [2, 3] (by decide +kernel) rfl
    (by decide +kernel) (by decide) ⟨zeroTape, 0, 0⟩
  obtain ⟨-, proof, next, proved⟩ := total (by decide +kernel) fun id _ => if id.get = 0 then ⟨1⟩ else ⟨2⟩
  exact ⟨prover, proof, next, created, proved, joint _ proof next proved⟩

end Drivers

end MpcithProver

end PaymentAuth.Mpcith
