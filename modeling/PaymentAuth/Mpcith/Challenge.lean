import PaymentAuth.Library.Simulation
import PaymentAuth.Mpcith.Completeness

/-! Challenge sources, and what their order in the prover's run does and does not matter for. -/

namespace PaymentAuth.Mpcith

open Library

/-- Supplies per-repetition challenges to the prover. -/
class ChallengeSource (σ : Type) where
  nextChallenge : σ → Outcome MpcithError (Challenge × σ)

/-- Draws hidden parties from the 64-bit words of a generator. -/
structure RandomChallengeSource where
  words : ℕ → UInt64
  drawn : ℕ

def RandomChallengeSource.nextChallenge (source : RandomChallengeSource) :
    Outcome MpcithError (Challenge × RandomChallengeSource) := do
  let value := (source.words source.drawn % 3).toUInt8
  let hiddenParty ← (PartyId.new value).mapError fun _ => .invalidProtocolState
  .ok (⟨hiddenParty⟩, { source with drawn := source.drawn + 1 })

instance : ChallengeSource RandomChallengeSource := ⟨RandomChallengeSource.nextChallenge⟩

/-- Returns pre-configured challenges in order. -/
structure DeterministicChallengeSource where
  queue : List PartyId

namespace DeterministicChallengeSource

def new (hiddenParties : List PartyId) : DeterministicChallengeSource := ⟨hiddenParties⟩

/-- Yields one hidden party for `count` challenges. -/
def repeating (hidden : PartyId) (count : ℕ) : DeterministicChallengeSource := new (List.replicate count hidden)

def nextChallenge : DeterministicChallengeSource → Outcome MpcithError (Challenge × DeterministicChallengeSource)
  | ⟨[]⟩ => .error .invalidProtocolState
  | ⟨hiddenParty :: queue⟩ => .ok (⟨hiddenParty⟩, ⟨queue⟩)

end DeterministicChallengeSource

instance : ChallengeSource DeterministicChallengeSource := ⟨DeterministicChallengeSource.nextChallenge⟩

/-- Asks a source for some challenges, one after the other. -/
def ask {σ : Type} [ChallengeSource σ] : ℕ → σ → Outcome MpcithError (List Challenge × σ)
  | 0, source => .ok ([], source)
  | count + 1, source => do
    let (challenge, source) ← ChallengeSource.nextChallenge source
    let (challenges, source) ← ask count source
    .ok (challenge :: challenges, source)

namespace MpcithProver

variable {σ : Type} {backend : CryptoBackend} {prover : MpcithProver} {repetitionCount : UInt32}

/-- Proves with the challenges of a source, drawn after each repetition's commitments. -/
def prove [ChallengeSource σ] (backend : CryptoBackend) (prover : MpcithProver) (repetitionCount : UInt32) (source : σ)
    (rng : Rng) : Outcome MpcithError (MpcithProof × Rng) :=
  prover.proveWith backend repetitionCount (fun source _ _ => ChallengeSource.nextChallenge source) source rng

/-- Derives each challenge in turn once all commitments exist. -/
def inOrder (challengeOf : σ → RepetitionId → List ViewCommitment → Outcome MpcithError (Challenge × σ)) :
    σ → List (RepetitionId × List ViewCommitment) → Outcome MpcithError (List Challenge)
  | _, [] => .ok []
  | source, (id, commitments) :: rest => do
    let (challenge, source) ← challengeOf source id commitments
    let challenges ← inOrder challengeOf source rest
    .ok (challenge :: challenges)

section Order

variable {challengeOf : σ → RepetitionId → List ViewCommitment → Outcome MpcithError (Challenge × σ)} {source : σ}
  {rng next : Rng}

theorem inOrder_length {sessions : List (RepetitionId × List ViewCommitment)} {challenges : List Challenge}
    (derived : inOrder challengeOf source sessions = .ok challenges) : challenges.length = sessions.length := by
  induction sessions generalizing source challenges with
  | nil =>
    obtain rfl := Outcome.ok.inj derived
    rfl
  | cons session rest ih =>
    simp only [inOrder, Outcome.bind_ok_iff, Outcome.ok.injEq] at derived
    obtain ⟨_, _, _, others, rfl⟩ := derived
    rw [List.length_cons, List.length_cons, ih others]

/-- Committing all repetitions before the first challenge leads to the same repetitions. -/
theorem proveRepetitions_ok_iff {indices : List ℕ} {repetitions : List Repetition} :
    prover.proveRepetitions backend challengeOf indices source rng = .ok (repetitions, next) ↔
      ∃ partials challenges, prover.commitRepetitions backend indices rng = .ok (partials, next) ∧
        inOrder challengeOf source (partials.map fun item => (item.id, item.commitments)) = .ok challenges ∧
        List.Forall₂ (fun item repetition => finishRepetition item.1 item.2 = .ok repetition)
          (partials.zip challenges) repetitions := by
  induction indices generalizing source rng repetitions with
  | nil =>
    constructor
    · intro proved
      obtain ⟨rfl, rfl⟩ := Prod.mk.inj (Outcome.ok.inj proved)
      exact ⟨[], [], rfl, rfl, .nil⟩
    · rintro ⟨partials, challenges, committed, derived, finished⟩
      obtain ⟨rfl, rfl⟩ := Prod.mk.inj (Outcome.ok.inj committed)
      cases finished
      rfl
  | cons index rest ih =>
    simp only [proveRepetitions, commitRepetitions, Outcome.bind_ok_iff, Outcome.ok.injEq, Prod.exists, Prod.mk.injEq]
    constructor
    · rintro ⟨item, after, committed, challenge, later, derived, repetition, finished, others, _, proved, rfl, rfl⟩
      obtain ⟨partials, challenges, committed', derived', finished'⟩ := ih.mp proved
      refine ⟨item :: partials, challenge :: challenges, ⟨item, after, committed, partials, _, committed', rfl, rfl⟩, ?_,
        .cons finished finished'⟩
      simp only [List.map_cons, inOrder, derived, Outcome.ok_bind, derived']
    · rintro ⟨_, challenges, ⟨item, after, committed, partials, _, committed', rfl, rfl⟩, derived, finished⟩
      simp only [List.map_cons, inOrder, Outcome.bind_ok_iff, Outcome.ok.injEq, Prod.exists] at derived
      obtain ⟨challenge, later, derived, challenges, derived', rfl⟩ := derived
      cases finished with
      | cons first others =>
        exact ⟨item, after, committed, challenge, later, derived, _, first, _, _,
          ih.mpr ⟨partials, challenges, committed', derived', others⟩, rfl, rfl⟩

/-- A closure that derives each challenge as soon as a repetition is committed gives the
proof that it would give if it were asked only after all commitments. -/
theorem proveWith_ok_iff_joint {proof : MpcithProof} :
    prover.proveWith backend repetitionCount challengeOf source rng = .ok (proof, next) ↔
      prover.proveJointFs backend repetitionCount (inOrder challengeOf source) rng = .ok (proof, next) := by
  simp only [proveWith, proveJointFs, commitPhase, Outcome.bind_ok_iff, Outcome.reject_ok_iff, exists_const, Prod.exists,
    Outcome.ok.injEq, Prod.mk.injEq, not_not]
  constructor
  · rintro ⟨positive, repetitions, _, proved, rfl, rfl⟩
    obtain ⟨partials, challenges, committed, derived, finished⟩ := proveRepetitions_ok_iff.mp proved
    have sizes := (inOrder_length derived).trans (List.length_map _)
    exact ⟨positive, partials, _, ⟨positive, committed⟩, challenges, derived, sizes, repetitions,
      Outcome.mapM_ok_iff.mpr finished, rfl, rfl⟩
  · rintro ⟨positive, partials, _, ⟨-, committed⟩, challenges, derived, -, repetitions, finished, rfl, rfl⟩
    exact ⟨positive, repetitions, _,
      proveRepetitions_ok_iff.mpr ⟨partials, challenges, committed, derived, Outcome.mapM_ok_iff.mp finished⟩, rfl, rfl⟩

end Order

section Sources

variable {sha256 : Bytes → Digest} [ChallengeSource σ] {source : σ} {rng : Rng}

/-- What an honest prover makes of its repetitions depends on its source only in the
challenges that the source gives. -/
theorem Honest.proveRepetitions_asks (honest : prover.Honest sha256)
    (sizes : ∀ p, commitmentSize prover.circuit p < 2 ^ 32) (indices : List ℕ) :
    Outcome.Related (fun result asked => result.1.map Repetition.challenge = asked.1)
      (prover.proveRepetitions backend (fun source _ _ => ChallengeSource.nextChallenge source) indices source rng)
      (ask indices.length source) := by
  induction indices generalizing source rng with
  | nil => exact .ok rfl
  | cons index rest ih =>
    obtain ⟨item, next, committed⟩ := honest.commitRepetition_total sizes backend (.ofIndex index) rng
    have same : Outcome.Related Eq (ChallengeSource.nextChallenge source) (ChallengeSource.nextChallenge source) :=
      .refl fun _ _ => rfl
    simp only [proveRepetitions, committed, Outcome.ok_bind]
    apply same.bind
    rintro ⟨challenge, later⟩ _ rfl
    simp only [finishRepetition, PartyId.new_get, Outcome.ok_bind]
    apply ih.bind
    rintro ⟨repetitions, last⟩ ⟨challenges, left⟩ answers
    exact .ok (congrArg (challenge :: ·) answers)

theorem Honest.prove_challenges (honest : prover.Honest sha256)
    (sizes : ∀ p, commitmentSize prover.circuit p < 2 ^ 32) (positive : repetitionCount ≠ 0) (source : σ) (rng : Rng) :
    (fun result => result.1.repetitions.map Repetition.challenge) <$> prover.prove backend repetitionCount source rng =
      Prod.fst <$> ask repetitionCount.toNat source := by
  have related := @Honest.proveRepetitions_asks σ backend prover sha256 _ source rng honest sizes
    (List.range repetitionCount.toNat)
  rw [List.length_range] at related
  rw [prove, proveWith, Outcome.reject_of_not positive, Outcome.ok_bind]
  generalize prover.proveRepetitions backend (fun source _ _ => ChallengeSource.nextChallenge source)
    (List.range repetitionCount.toNat) source rng = run at related ⊢
  generalize ask repetitionCount.toNat source = asked at related ⊢
  cases related with
  | ok answers => exact congrArg Outcome.ok answers
  | error failure => rfl
  | aborted => rfl

/-- An honest prover fails exactly where its source does, and answers the challenges of
the source in their order with a proof that verifies. -/
theorem Honest.prove_asks (honest : prover.Honest sha256) (sizes : ∀ p, commitmentSize prover.circuit p < 2 ^ 32)
    (source : σ) (rng : Rng) :
    (fun result => result.1.repetitions.map Repetition.challenge) <$> prover.prove backend repetitionCount source rng =
        (if repetitionCount = 0 then .error .invalidRepetitionCount
        else Prod.fst <$> ask repetitionCount.toNat source) ∧
      ∀ proof next, prover.prove backend repetitionCount source rng = .ok (proof, next) →
        verify sha256 backend prover.statement proof prover.circuit = .ok .valid := by
  constructor
  · by_cases none : repetitionCount = 0
    · rw [if_pos none, prove, proveWith, Outcome.reject, if_pos none]
      rfl
    · rw [if_neg none, honest.prove_challenges sizes none]
  · intro proof next proved
    exact honest.proveWith_valid proved

/-- The party that a word names. -/
def hiddenBy (word : UInt64) : Challenge := ⟨⟨word.toNat % 3, Nat.mod_lt _ (by decide)⟩⟩

theorem nextChallenge_random (words : ℕ → UInt64) (drawn : ℕ) :
    (⟨words, drawn⟩ : RandomChallengeSource).nextChallenge = .ok (hiddenBy (words drawn), ⟨words, drawn + 1⟩) := by
  have value : (words drawn % 3).toUInt8.toNat = (words drawn).toNat % 3 := by
    rw [UInt64.toNat_toUInt8, UInt64.toNat_mod]
    change (words drawn).toNat % 3 % 256 = (words drawn).toNat % 3
    omega
  have small : (words drawn).toNat % 3 < partyCount := Nat.mod_lt _ (by decide)
  simp only [RandomChallengeSource.nextChallenge, PartyId.new, value, dif_pos small, Outcome.mapError_ok,
    Outcome.ok_bind, hiddenBy]

/-- A random source never runs out. -/
theorem ask_random (count : ℕ) (words : ℕ → UInt64) (drawn : ℕ) :
    ask count (⟨words, drawn⟩ : RandomChallengeSource) =
      .ok ((List.range count).map fun k => hiddenBy (words (drawn + k)), ⟨words, drawn + count⟩) := by
  induction count generalizing drawn with
  | zero => rfl
  | succ count ih =>
    have next : ChallengeSource.nextChallenge (⟨words, drawn⟩ : RandomChallengeSource) =
        .ok (hiddenBy (words drawn), ⟨words, drawn + 1⟩) := nextChallenge_random words drawn
    have shifted : (fun k => hiddenBy (words (drawn + k))) ∘ Nat.succ = fun k => hiddenBy (words (drawn + 1 + k)) := by
      funext k
      rw [Function.comp_apply, Nat.succ_eq_add_one, Nat.add_assoc, Nat.add_comm 1 k]
    simp only [ask, next, Outcome.ok_bind, ih, List.range_succ_eq_map, List.map_cons, List.map_map, shifted,
      Nat.add_zero, Nat.add_assoc, Nat.add_comm 1 count]

theorem ask_deterministic (count : ℕ) (queue : List PartyId) :
    ask count (⟨queue⟩ : DeterministicChallengeSource) =
      if count ≤ queue.length then .ok ((queue.take count).map Challenge.mk, ⟨queue.drop count⟩)
      else .error .invalidProtocolState := by
  induction count generalizing queue with
  | zero => rfl
  | succ count ih =>
    cases queue with
    | nil => rfl
    | cons hidden rest =>
      have next : ChallengeSource.nextChallenge (⟨hidden :: rest⟩ : DeterministicChallengeSource) =
          .ok (⟨hidden⟩, ⟨rest⟩) := rfl
      simp only [ask, next, Outcome.ok_bind, ih, List.length_cons, Nat.add_le_add_iff_right]
      split <;> rfl

end Sources

section Provided

variable {sha256 : Bytes → Digest} {rng : Rng}

/-- With a queue of hidden parties an honest prover hides them in their order, and fails
exactly when the queue is too short; with a generator it hides the remainders of the words. -/
theorem Honest.prove_provided (honest : prover.Honest sha256)
    (sizes : ∀ p, commitmentSize prover.circuit p < 2 ^ 32) (positive : repetitionCount ≠ 0) (rng : Rng) :
    (∀ queue : List PartyId,
      (fun result => result.1.repetitions.map Repetition.challenge) <$>
          prover.prove backend repetitionCount (DeterministicChallengeSource.new queue) rng =
        if repetitionCount.toNat ≤ queue.length then .ok ((queue.take repetitionCount.toNat).map Challenge.mk)
        else .error .invalidProtocolState) ∧
    ∀ words : ℕ → UInt64,
      (fun result => result.1.repetitions.map Repetition.challenge) <$>
          prover.prove backend repetitionCount (⟨words, 0⟩ : RandomChallengeSource) rng =
        .ok ((List.range repetitionCount.toNat).map fun k => hiddenBy (words k)) := by
  constructor
  · intro queue
    rw [honest.prove_challenges sizes positive, DeterministicChallengeSource.new, ask_deterministic]
    split <;> rfl
  · intro words
    rw [honest.prove_challenges sizes positive, ask_random]
    simp only [Nat.zero_add]
    rfl

/-- Two parties are hidden in turn while proving a product. -/
theorem Honest.prove_provided_product :
    (fun result => result.1.repetitions.map Repetition.challenge) <$>
        MpcithProver.prove (sha256Backend PaymentAuth.sha256) ⟨productCircuit, productStatement, [2, 3]⟩ 2
          (DeterministicChallengeSource.new [2, 0, 1]) ⟨zeroTape, 0, 0⟩ = .ok [⟨2⟩, ⟨0⟩] :=
  (product_honest.prove_provided (by decide +kernel) (by decide) ⟨zeroTape, 0, 0⟩).1 [2, 0, 1]

/-- The proof of a product in two repetitions hides the queued parties and verifies. -/
theorem Honest.prove_asks_product :
    ∃ proof next, MpcithProver.prove (sha256Backend PaymentAuth.sha256) ⟨productCircuit, productStatement, [2, 3]⟩ 2
        (DeterministicChallengeSource.new [1, 2]) ⟨zeroTape, 0, 0⟩ = .ok (proof, next) ∧
      proof.repetitions.map Repetition.challenge = [⟨1⟩, ⟨2⟩] ∧
      verify PaymentAuth.sha256 (sha256Backend PaymentAuth.sha256) productStatement proof productCircuit =
        .ok .valid := by
  have sizes : ∀ p, commitmentSize productCircuit p < 2 ^ 32 := by decide +kernel
  have asked : (fun result => result.1.repetitions.map Repetition.challenge) <$>
      MpcithProver.prove (sha256Backend PaymentAuth.sha256) ⟨productCircuit, productStatement, [2, 3]⟩ 2
        (DeterministicChallengeSource.new [1, 2]) ⟨zeroTape, 0, 0⟩ = .ok [⟨1⟩, ⟨2⟩] :=
    (product_honest.prove_asks sizes (DeterministicChallengeSource.new [1, 2]) ⟨zeroTape, 0, 0⟩).1
  obtain ⟨⟨proof, next⟩, proved, challenges⟩ := Outcome.map_ok_iff.mp asked
  have verified := (product_honest.prove_asks sizes _ ⟨zeroTape, 0, 0⟩).2 proof next proved
  exact ⟨proof, next, proved, challenges, verified⟩

end Provided

end MpcithProver

end PaymentAuth.Mpcith
