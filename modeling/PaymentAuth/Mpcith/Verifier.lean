import PaymentAuth.Mpcith.Prover

namespace PaymentAuth.Mpcith

open Library

/-- Outcome of verification. -/
inductive VerificationResult where
  | valid
  | invalid
deriving DecidableEq, Repr

/-- The plaintext or the party's share. -/
def NodeVal.asField : NodeVal FieldElement → FieldElement
  | .plain value | .shared value => value

/-- How much of the inputs and of the view a replay has consumed. -/
structure ReplayCursor where
  nextSecret : ℕ
  nextPublic : ℕ
  nextOp : ℕ
  nextTriple : ℕ
  nextOpened : ℕ

def LocalOperation.tag : LocalOperation → UInt8
  | .add _ _ => 0
  | .mulPublic _ _ _ => 1
  | .beaverMul _ _ _ _ _ => 2

/-- Takes the next recorded operation, which must be of the expected kind and
agree with the expected one in every field. -/
def expectOp (view : PartyView) (expected : LocalOperation) (cursor : ReplayCursor) :
    Outcome MpcithError ReplayCursor := do
  let op ← Outcome.okOr .inconsistentView view.localOperations[cursor.nextOp]?
  Outcome.reject (op.tag ≠ expected.tag) .invalidOperation
  Outcome.reject (op ≠ expected) .inconsistentView
  .ok { cursor with nextOp := cursor.nextOp + 1 }

/-- Replays an addition from the party's operand values. -/
def replayAdd (view : PartyView) (out : NodeId) (va vb : NodeVal FieldElement) (cursor : ReplayCursor) :
    Outcome MpcithError (NodeVal FieldElement × ReplayCursor) :=
  match va, vb with
  | .plain x, .plain y => .ok (.plain (x + y), cursor)
  | .shared x, .shared y => do
    let cursor ← expectOp view (.add out (x + y)) cursor
    .ok (.shared (x + y), cursor)
  | .shared s, .plain _ | .plain _, .shared s =>
    -- Only party 0 absorbs the public value and records an operation.
    if view.partyId = 0 then do
      let expected := va.asField + vb.asField
      let cursor ← expectOp view (.add out expected) cursor
      .ok (.shared expected, cursor)
    else
      .ok (.shared s, cursor)

/-- Replays a multiplication, checking the party's mask contributions against its
triple and its operation against the global masks. -/
def replayMul (view : PartyView) (globals : List FieldElement) (out : NodeId)
    (va vb : NodeVal FieldElement) (cursor : ReplayCursor) :
    Outcome MpcithError (NodeVal FieldElement × ReplayCursor) :=
  match va, vb with
  | .plain x, .plain y => .ok (.plain (x * y), cursor)
  | .shared _, .plain scalar | .plain scalar, .shared _ => do
    let expected := va.asField * vb.asField
    let cursor ← expectOp view (.mulPublic out scalar expected) cursor
    .ok (.shared expected, cursor)
  | .shared x, .shared y => do
    let triple ← Outcome.okOr .inconsistentView view.tripleShares[cursor.nextTriple]?
    let dClaim ← Outcome.okOr .missingResponse view.openedValues[cursor.nextOpened]?
    let eClaim ← Outcome.okOr .missingResponse view.openedValues[cursor.nextOpened + 1]?
    Outcome.reject (dClaim ≠ x - triple.a ∨ eClaim ≠ y - triple.b) .invalidOpening
    let dGlobal ← Outcome.okOr .invalidOpening globals[cursor.nextOpened]?
    let eGlobal ← Outcome.okOr .invalidOpening globals[cursor.nextOpened + 1]?
    let zExpected :=
      triple.c + dGlobal * triple.b + eGlobal * triple.a + if view.partyId = 0 then dGlobal * eGlobal else 0
    let next ← expectOp view (.beaverMul out cursor.nextTriple dGlobal eGlobal zExpected) cursor
    .ok (.shared zExpected,
      { next with nextTriple := cursor.nextTriple + 1, nextOpened := cursor.nextOpened + 2 })

/-- Replays one node of an opened party's computation. -/
def replayNode (statement : Statement) (view : PartyView) (globals : List FieldElement)
    (values : List (NodeVal FieldElement)) (cursor : ReplayCursor) (node : Node FieldElement) :
    Outcome MpcithError (NodeVal FieldElement × ReplayCursor) := do
  let out := NodeId.ofIndex values.length
  match node with
  | .secretInput =>
    let share ← Outcome.okOr .inconsistentView view.inputShares[cursor.nextSecret]?
    .ok (.shared share, { cursor with nextSecret := cursor.nextSecret + 1 })
  | .publicInput =>
    let v ← Outcome.okOr .invalidStatement statement.publicInputs[cursor.nextPublic]?
    .ok (.plain v, { cursor with nextPublic := cursor.nextPublic + 1 })
  | .constant c => .ok (.plain c, cursor)
  | .add a b =>
    let va ← Outcome.expect values[a.asUsize]?
    let vb ← Outcome.expect values[b.asUsize]?
    replayAdd view out va vb cursor
  | .mul a b =>
    let va ← Outcome.expect values[a.asUsize]?
    let vb ← Outcome.expect values[b.asUsize]?
    replayMul view globals out va vb cursor

/-- Replays one opened party's computation from public data plus its claimed view,
returning the party's value of every node. -/
def replayParty (statement : Statement) (view : PartyView) (circuit : Circuit FieldElement)
    (globals : List FieldElement) : Outcome MpcithError (List (NodeVal FieldElement)) := do
  Outcome.reject (view.inputShares.length ≠ circuit.numSecretInputs) .inconsistentView
  let (values, cursor) ←
    forwardPass (replayNode statement view globals) circuit.nodes [] ⟨0, 0, 0, 0, 0⟩
  Outcome.reject
    (cursor.nextOp ≠ view.localOperations.length ∨ cursor.nextTriple ≠ view.tripleShares.length ∨
      cursor.nextOpened ≠ view.openedValues.length)
    .inconsistentView
  .ok values

/-- A node of the dependence traversal and whether its operands were pushed. -/
abbrev TraversalStack := List (ℕ × Bool)

/-- Reads a cached dependence that must have been resolved. -/
def cachedDependence (cache : List (Option Bool)) (idx : ℕ) : Outcome MpcithError Bool := do
  let cached ← Outcome.expect cache[idx]?
  Outcome.expect cached

/-- Pushes an operand unless it is already resolved. -/
def pushUnresolved (cache : List (Option Bool)) (idx : ℕ) (stack : TraversalStack) :
    Outcome MpcithError TraversalStack := do
  let cached ← Outcome.expect cache[idx]?
  .ok (if cached.isNone then (idx, false) :: stack else stack)

/-- One iteration of the traversal with `(idx, processed)` on top of the stack. -/
def traversalStep (circuit : Circuit FieldElement) (cache : List (Option Bool)) (idx : ℕ)
    (processed : Bool) (rest : TraversalStack) :
    Outcome MpcithError (List (Option Bool) × TraversalStack) := do
  let cached ← Outcome.expect cache[idx]?
  if cached.isSome then
    .ok (cache, rest)
  else do
    let node ← Outcome.expect circuit.nodes[idx]?
    if processed then
      let result ← match node with
        | .secretInput => .ok true
        | .publicInput | .constant _ => .ok false
        | .add a b | .mul a b => do
          let left ← cachedDependence cache a.asUsize
          if left then .ok true else cachedDependence cache b.asUsize
      .ok (cache.set idx (some result), rest)
    else
      match node with
      | .add a b | .mul a b => do
        let stack ← pushUnresolved cache a.asUsize ((idx, true) :: rest)
        let stack ← pushUnresolved cache b.asUsize stack
        .ok (cache, stack)
      | _ => .ok (cache, (idx, true) :: rest)

/-- Runs the traversal until its stack is empty; running out of fuel aborts. -/
def traverse (circuit : Circuit FieldElement) :
    ℕ → List (Option Bool) → TraversalStack → Outcome MpcithError (List (Option Bool))
  | _, cache, [] => .ok cache
  | 0, _, _ :: _ => .aborted
  | fuel + 1, cache, (idx, processed) :: rest => do
    let (cache, stack) ← traversalStep circuit cache idx processed rest
    traverse circuit fuel cache stack

/-- Whether a node's evaluation depends on at least one secret input. Every node
is expanded at most once and pushes at most two operands, hence the fuel. -/
def nodeDependsOnSecrets (circuit : Circuit FieldElement) (id : NodeId) : Outcome MpcithError Bool := do
  let cache := List.replicate circuit.nodes.length none
  let cache ← traverse circuit (3 * circuit.nodes.length + 1) cache [(id.asUsize, false)]
  let cached ← Outcome.expect cache[id.asUsize]?
  .ok (cached.getD false)

/-- Checks one declared output against the statement's expected value. -/
def checkOutput (statement : Statement) (repetition : Repetition) (circuit : Circuit FieldElement)
    (replays : List (List (NodeVal FieldElement))) (output : NodeId × ℕ) : Outcome MpcithError Bool := do
  let (outputId, k) := output
  let expected ← Outcome.okOr .invalidStatement statement.expectedOutputs[k]?
  let depends ← nodeDependsOnSecrets circuit outputId
  let hidden ← Outcome.expect repetition.hiddenOutputShares[k]?
  if !depends then do
    -- Fully public path: the hidden party must contribute nothing.
    Outcome.reject (hidden ≠ 0) .outputMismatch
    .ok true
  else do
    let total ← replays.foldlM (fun total replay => do
      let value ← Outcome.expect replay[outputId.asUsize]?
      match value with
      | .shared v => .ok (total + v)
      | .plain _ => .error .inconsistentView) hidden
    .ok (total = expected)

/-- Checks that the combined output shares equal the expected outputs. -/
def checkOutputs (statement : Statement) (repetition : Repetition) (circuit : Circuit FieldElement)
    (replays : List (List (NodeVal FieldElement))) : Outcome MpcithError Bool := do
  Outcome.reject (repetition.hiddenOutputShares.length ≠ circuit.outputs.length) .outputMismatch
  circuit.outputs.zipIdx.allM (checkOutput statement repetition circuit replays)

/-- The hidden party's contributions plus the opened ones, for each broadcast mask. -/
def globalMasks (repetition : Repetition) : Outcome MpcithError (List FieldElement) := do
  Outcome.reject (repetition.hiddenBroadcasts.length % 2 ≠ 0) .invalidOpening
  repetition.hiddenBroadcasts.zipIdx.mapM fun (contribution, k) =>
    repetition.openedViews.foldlM (fun total opened => do
      let value ← Outcome.okOr .inconsistentView opened.view.openedValues[k]?
      .ok (total + value)) contribution

/-- An opened view must belong to the repetition and open its commitment. -/
def checkOpening (backend : CryptoBackend) (repetition : Repetition) (opened : OpenedView) :
    Outcome MpcithError Unit := do
  Outcome.reject (opened.view.repetitionId ≠ repetition.id) .inconsistentView
  let committed ← Outcome.expect repetition.commitments[opened.view.partyId.val]?
  let bound ← verifyCommitment backend committed opened.view opened.randomness
  Outcome.reject (bound = false) .commitmentMismatch

/-- Verifies one repetition; returns `false` on semantic failure. -/
def verifyRepetition (backend : CryptoBackend) (statement : Statement) (repetition : Repetition)
    (circuit : Circuit FieldElement) : Outcome MpcithError Bool := do
  let hidden ← PartyId.new (PartyId.get repetition.challenge.hiddenParty)
  Outcome.reject (repetition.commitments.length ≠ partyCount) .missingCommitment
  Outcome.reject (repetition.openedViews.map (fun opened => opened.view.partyId) ≠ PartyId.others hidden)
    .missingResponse
  forM repetition.openedViews (checkOpening backend repetition)
  let globals ← globalMasks repetition
  let replays ← repetition.openedViews.mapM fun opened =>
    replayParty statement opened.view circuit globals
  checkOutputs statement repetition circuit replays

/-- Verifies every repetition of a proof against a statement. -/
def verify (sha256 : Bytes → Digest) (backend : CryptoBackend) (statement : Statement)
    (proof : MpcithProof) (circuit : Circuit FieldElement) : Outcome MpcithError VerificationResult := do
  statement.validate sha256 circuit
  Outcome.reject (proof.repetitions.isEmpty = true) .invalidProtocolState
  let accepted ← proof.repetitions.zipIdx.allM fun (repetition, index) => do
    Outcome.reject (repetition.id ≠ .ofIndex index) .inconsistentView
    verifyRepetition backend statement repetition circuit
  .ok (if accepted then .valid else .invalid)

end PaymentAuth.Mpcith
