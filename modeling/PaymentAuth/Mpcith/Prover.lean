import Mathlib.Data.Fin.VecNotation
import Mathlib.Data.List.Sort
import PaymentAuth.Library.ForwardPass
import PaymentAuth.Mpcith.Commitment

namespace PaymentAuth.Mpcith

open Library

/-- Three additive shares, in party order. -/
abbrev Shares := PartyId → FieldElement

/-- The value three shares open to. -/
def Shares.total (shares : Shares) : FieldElement := shares 0 + shares 1 + shares 2

/-- The prover's random draws: field elements and 32-byte fills, in draw order. -/
structure Tape where
  elements : ℕ → FieldElement
  fills : ℕ → { bytes : Bytes // bytes.length = randomnessLen }

/-- A tape with the positions of its next draws. -/
structure Rng where
  tape : Tape
  drawn : ℕ
  filled : ℕ

/-- Draws one random field element. -/
def Rng.randElement (rng : Rng) : FieldElement × Rng :=
  (rng.tape.elements rng.drawn, { rng with drawn := rng.drawn + 1 })

/-- Draws 32 fresh bytes of commitment randomness. -/
def Rng.freshRandomness (rng : Rng) : Bytes × Rng :=
  (rng.tape.fills rng.filled, { rng with filled := rng.filled + 1 })

/-- Draws a fresh 3-way additive sharing of a value. -/
def share3 (value : FieldElement) (rng : Rng) : Shares × Rng :=
  let (s0, rng) := rng.randElement
  let (s1, rng) := rng.randElement
  (![s0, s1, value - s0 - s1], rng)

/-- Draws a fresh shared Beaver triple. -/
def nextTriple (rng : Rng) : (Shares × Shares × Shares) × Rng :=
  let (a, rng) := rng.randElement
  let (b, rng) := rng.randElement
  let c := a * b
  let (ta, rng) := share3 a rng
  let (tb, rng) := share3 b rng
  let (tc, rng) := share3 c rng
  ((ta, tb, tc), rng)

/-- Per-party state accumulated during one repetition. -/
structure PartyState where
  inputShares : List FieldElement
  localOperations : List LocalOperation
  tripleShares : List TripleShare
  openedValues : List FieldElement

def PartyState.empty : PartyState := ⟨[], [], [], []⟩

def PartyState.record (state : PartyState) (operation : LocalOperation) : PartyState :=
  { state with localOperations := state.localOperations ++ [operation] }

/-- The value party `p` holds for a node (its share, or the plaintext). -/
def operand (value : NodeVal Shares) (p : PartyId) : FieldElement :=
  match value with
  | .plain value => value
  | .shared shares => shares p

structure ProverState where
  nextSecret : ℕ
  nextPublic : ℕ
  parties : PartyId → PartyState
  rng : Rng

/-- Fresh additive shares of every secret input. -/
def shareInputs : List FieldElement → (PartyId → PartyState) → Rng → (PartyId → PartyState) × Rng
  | [], parties, rng => (parties, rng)
  | secret :: rest, parties, rng =>
    let (shares, rng) := share3 secret rng
    shareInputs rest
      (fun p => { parties p with inputShares := (parties p).inputShares ++ [shares p] }) rng

/-- Adds two nodes; a public addend is absorbed by party 0's share only. -/
def addGate (out : NodeId) (va vb : NodeVal Shares) (state : ProverState) : NodeVal Shares × ProverState :=
  match va, vb with
  | .plain x, .plain y => (.plain (x + y), state)
  | .shared x, .shared y =>
    (.shared fun p => x p + y p,
      { state with parties := fun p => (state.parties p).record (.add out (x p + y p)) })
  | .shared x, .plain v | .plain v, .shared x =>
    (.shared fun p => if p = 0 then x 0 + v else x p,
      { state with parties := fun p =>
          if p = 0 then (state.parties 0).record (.add out (x 0 + v)) else state.parties p })

/-- Evaluates one multiplication gate, recording per-party operations and openings. -/
def mulGate (out : NodeId) (va vb : NodeVal Shares) (state : ProverState) : NodeVal Shares × ProverState :=
  match va, vb with
  | .plain x, .plain y => (.plain (x * y), state)
  | .shared x, .plain scalar | .plain scalar, .shared x =>
    (.shared fun p => x p * scalar,
      { state with parties := fun p => (state.parties p).record (.mulPublic out scalar (x p * scalar)) })
  | .shared x, .shared y =>
    let tripleIndex := (state.parties 0).tripleShares.length
    let ((ta, tb, tc), rng) := nextTriple state.rng
    let d := Shares.total fun p => x p - ta p
    let e := Shares.total fun p => y p - tb p
    -- The public constant `d·e` is folded into party 0's share only.
    let z : Shares := fun p => tc p + d * tb p + e * ta p + if p = 0 then d * e else 0
    (.shared z,
      { state with
        rng := rng
        parties := fun p =>
          { state.parties p with
            tripleShares := (state.parties p).tripleShares ++ [⟨ta p, tb p, tc p⟩]
            openedValues := (state.parties p).openedValues ++ [x p - ta p, y p - tb p]
            localOperations :=
              (state.parties p).localOperations ++ [.beaverMul out tripleIndex d e (z p)] } })

/-- Simulates one node for all three parties. -/
def simulateNode (statement : Statement) (values : List (NodeVal Shares)) (state : ProverState)
    (node : Node FieldElement) : Outcome MpcithError (NodeVal Shares × ProverState) := do
  let out := NodeId.ofIndex values.length
  match node with
  | .secretInput =>
    let s0 ← Outcome.expect (state.parties 0).inputShares[state.nextSecret]?
    let s1 ← Outcome.expect (state.parties 1).inputShares[state.nextSecret]?
    let s2 ← Outcome.expect (state.parties 2).inputShares[state.nextSecret]?
    .ok (.shared ![s0, s1, s2], { state with nextSecret := state.nextSecret + 1 })
  | .publicInput =>
    let v ← Outcome.expect statement.publicInputs[state.nextPublic]?
    .ok (.plain v, { state with nextPublic := state.nextPublic + 1 })
  | .constant c => .ok (.plain c, state)
  | .add a b =>
    let va ← Outcome.expect values[a.asUsize]?
    let vb ← Outcome.expect values[b.asUsize]?
    .ok (addGate out va vb state)
  | .mul a b =>
    let va ← Outcome.expect values[a.asUsize]?
    let vb ← Outcome.expect values[b.asUsize]?
    .ok (mulGate out va vb state)

/-- Assembles party `p`'s view from accumulated per-party state. -/
def buildView (id : RepetitionId) (p : PartyId) (parties : PartyId → PartyState) : PartyView where
  repetitionId := id
  partyId := p
  inputShares := (parties p).inputShares
  localOperations := (parties p).localOperations
  tripleShares := (parties p).tripleShares
  openedValues := (parties p).openedValues

/-- A party's opened view with the randomness that decommits it. -/
structure OpenedView where
  view : PartyView
  randomness : Bytes
deriving DecidableEq

/-- Three pre-challenge commitments, the challenge and the response to it. -/
structure Repetition where
  id : RepetitionId
  commitments : List ViewCommitment
  challenge : Challenge
  openedViews : List OpenedView
  hiddenOutputShares : List FieldElement
  hiddenBroadcasts : List FieldElement
deriving DecidableEq

structure MpcithProof where
  repetitions : List Repetition
deriving DecidableEq

/-- One repetition through the commitment phase: nothing has been opened. -/
structure PartialRepetition where
  id : RepetitionId
  commitments : List ViewCommitment
  views : PartyId → PartyView
  randomness : PartyId → Bytes
  outputVals : List (Bool × Shares)
  broadcasts : PartyId → List FieldElement

/-- A circuit, a statement and a witness with matching counts. -/
structure MpcithProver where
  circuit : Circuit FieldElement
  statement : Statement
  witness : List FieldElement

namespace MpcithProver

/-- Creates a prover after checking statement and witness consistency. -/
def newBackend (sha256 : Bytes → Digest) (circuit : Circuit FieldElement) (statement : Statement)
    (witness : List FieldElement) : Outcome MpcithError MpcithProver := do
  statement.validate sha256 circuit
  Outcome.reject (witness.length ≠ circuit.numSecretInputs) .invalidStatement
  .ok ⟨circuit, statement, witness⟩

/-- An output node's shares, with whether it is shared. -/
def outputVal : NodeVal Shares → Bool × Shares
  | .plain _ => (false, fun _ => 0)
  | .shared shares => (true, shares)

/-- Simulates one repetition and commits every party's view. The sharing context
the source creates for three parties is always valid and is not read again. -/
def commitRepetition (backend : CryptoBackend) (prover : MpcithProver) (id : RepetitionId) (rng : Rng) :
    Outcome MpcithError (PartialRepetition × Rng) := do
  let (parties, rng) := shareInputs prover.witness (fun _ => .empty) rng
  let (values, state) ←
    forwardPass (simulateNode prover.statement) prover.circuit.nodes [] ⟨0, 0, parties, rng⟩
  let outputVals ← prover.circuit.outputs.mapM fun id =>
    outputVal <$> Outcome.expect values[id.asUsize]?
  let views := fun p => buildView id p state.parties
  let (r0, rng) := state.rng.freshRandomness
  let c0 ← commitView backend (views 0) r0
  let (r1, rng) := rng.freshRandomness
  let c1 ← commitView backend (views 1) r1
  let (r2, rng) := rng.freshRandomness
  let c2 ← commitView backend (views 2) r2
  .ok (
    { id := id
      commitments := [c0, c1, c2]
      views := views
      randomness := ![r0, r1, r2]
      outputVals := outputVals
      broadcasts := fun p => (state.parties p).openedValues },
    rng)

/-- Opens the two non-hidden views and assembles the hidden party's response. -/
def finishRepetition (partialRepetition : PartialRepetition) (challenge : Challenge) :
    Outcome MpcithError Repetition := do
  let hidden ← PartyId.new (PartyId.get challenge.hiddenParty)
  let openedViews := (PartyId.others hidden).map fun p =>
    (⟨partialRepetition.views p, partialRepetition.randomness p⟩ : OpenedView)
  .ok
    { id := partialRepetition.id
      commitments := partialRepetition.commitments
      challenge := challenge
      openedViews := openedViews.insertionSort fun left right => left.view.partyId ≤ right.view.partyId
      hiddenOutputShares := partialRepetition.outputVals.map fun (shared, shares) =>
        if shared then shares hidden else 0
      hiddenBroadcasts := partialRepetition.broadcasts hidden }

section Driving

variable {σ : Type}

/-- Commits, challenges and finishes the repetitions with the given indices in turn. -/
def proveRepetitions (backend : CryptoBackend) (prover : MpcithProver)
    (challengeOf : σ → RepetitionId → List ViewCommitment → Outcome MpcithError (Challenge × σ)) :
    List ℕ → σ → Rng → Outcome MpcithError (List Repetition × Rng)
  | [], _, rng => .ok ([], rng)
  | index :: rest, source, rng => do
    let (partialRepetition, rng) ← prover.commitRepetition backend (.ofIndex index) rng
    let (challenge, source) ← challengeOf source partialRepetition.id partialRepetition.commitments
    let repetition ← finishRepetition partialRepetition challenge
    let (repetitions, rng) ← proveRepetitions backend prover challengeOf rest source rng
    .ok (repetition :: repetitions, rng)

/-- Proves with challenges derived by a closure from each repetition's identity and
commitments; the closure carries its own state from call to call. -/
def proveWith (backend : CryptoBackend) (prover : MpcithProver) (repetitionCount : UInt32)
    (challengeOf : σ → RepetitionId → List ViewCommitment → Outcome MpcithError (Challenge × σ))
    (source : σ) (rng : Rng) : Outcome MpcithError (MpcithProof × Rng) := do
  Outcome.reject (repetitionCount = 0) .invalidRepetitionCount
  let (repetitions, rng) ←
    prover.proveRepetitions backend challengeOf (List.range repetitionCount.toNat) source rng
  .ok (⟨repetitions⟩, rng)

def commitRepetitions (backend : CryptoBackend) (prover : MpcithProver) :
    List ℕ → Rng → Outcome MpcithError (List PartialRepetition × Rng)
  | [], rng => .ok ([], rng)
  | index :: rest, rng => do
    let (partialRepetition, rng) ← prover.commitRepetition backend (.ofIndex index) rng
    let (partials, rng) ← commitRepetitions backend prover rest rng
    .ok (partialRepetition :: partials, rng)

/-- Runs the commitment phase for every repetition. -/
def commitPhase (backend : CryptoBackend) (prover : MpcithProver) (repetitionCount : UInt32) (rng : Rng) :
    Outcome MpcithError (List PartialRepetition × Rng) := do
  Outcome.reject (repetitionCount = 0) .invalidRepetitionCount
  prover.commitRepetitions backend (List.range repetitionCount.toNat) rng

/-- Proves with all challenges derived jointly from all commitments. -/
def proveJointFs (backend : CryptoBackend) (prover : MpcithProver) (repetitionCount : UInt32)
    (challengesOf : List (RepetitionId × List ViewCommitment) → Outcome MpcithError (List Challenge))
    (rng : Rng) : Outcome MpcithError (MpcithProof × Rng) := do
  Outcome.reject (repetitionCount = 0) .invalidRepetitionCount
  let (partials, rng) ← prover.commitPhase backend repetitionCount rng
  let challenges ← challengesOf (partials.map fun item => (item.id, item.commitments))
  Outcome.reject (challenges.length ≠ partials.length) .invalidProtocolState
  let repetitions ← (partials.zip challenges).mapM fun (partialRepetition, challenge) =>
    finishRepetition partialRepetition challenge
  .ok (⟨repetitions⟩, rng)

end Driving

end MpcithProver

end PaymentAuth.Mpcith
