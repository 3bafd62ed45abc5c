import Mathlib.Data.ZMod.Basic
import PaymentAuth.Circuit.Evaluation
import PaymentAuth.Mpc.Simulator

namespace PaymentAuth

open Library Mpc

/-- One structural event in the evaluation of a circuit. -/
inductive TranscriptEvent where
  | input (id : NodeId)
  | operation (id : NodeId)
  | opened (id : NodeId)
  | output (id : NodeId)
deriving DecidableEq

structure TranscriptHook where
  events : List TranscriptEvent
  enabled : Bool

/-- Records one event (no-op while disabled). -/
def TranscriptHook.record (hook : TranscriptHook) (event : TranscriptEvent) : TranscriptHook :=
  if hook.enabled then { hook with events := hook.events ++ [event] } else hook

/-- Records an event when a hook is given. -/
def recordEvent (hook : Option TranscriptHook) (event : TranscriptEvent) : Option TranscriptHook :=
  hook.map fun hook => hook.record event

variable {F σ : Type} [CommRing F] [TripleProvider F σ]

/-- What the evaluation threads through the nodes. -/
structure MpcRun (F σ : Type) where
  cursor : InputCursor
  sim : MpcSimulator F σ
  hook : Option TranscriptHook

/-- Evaluates one node over the shared values of the earlier nodes. -/
def evaluateMpcNode (secretInputs publicInputs : List F) (values : List (SharedValue F)) (run : MpcRun F σ) :
    Node F → Outcome CircuitError (SharedValue F × MpcRun F σ)
  | .secretInput => do
    let value ← Outcome.expect secretInputs[run.cursor.nextSecret]?
    let (shared, sim) ← (run.sim.input value).mapError fun _ => .mpcFault
    .ok (shared, ⟨{ run.cursor with nextSecret := run.cursor.nextSecret + 1 }, sim,
      recordEvent run.hook (.input (.ofIndex values.length))⟩)
  | .publicInput => do
    let value ← Outcome.expect publicInputs[run.cursor.nextPublic]?
    let (shared, sim) ← (run.sim.input value).mapError fun _ => .mpcFault
    .ok (shared, ⟨{ run.cursor with nextPublic := run.cursor.nextPublic + 1 }, sim,
      recordEvent run.hook (.input (.ofIndex values.length))⟩)
  | .constant value => do
    let (shared, sim) ← (run.sim.input value).mapError fun _ => .mpcFault
    .ok (shared, ⟨run.cursor, sim, recordEvent run.hook (.input (.ofIndex values.length))⟩)
  | .add a b => do
    let left ← Outcome.expect values[a.asUsize]?
    let right ← Outcome.expect values[b.asUsize]?
    let sum ← (left.addSecret right).mapError fun _ => .mpcFault
    .ok (sum, { run with hook := recordEvent run.hook (.operation (.ofIndex values.length)) })
  | .mul a b => do
    let x ← Outcome.expect values[a.asUsize]?
    let y ← Outcome.expect values[b.asUsize]?
    let (product, sim) ← (run.sim.mul x y).mapError fun _ => .mpcFault
    .ok (product, ⟨run.cursor, sim, recordEvent run.hook (.operation (.ofIndex values.length))⟩)

/-- Evaluates a circuit over additively shared values; nothing is revealed. -/
def evaluateMpc (circuit : Circuit F) (secretInputs publicInputs : List F) (sim : MpcSimulator F σ)
    (hook : Option TranscriptHook) :
    Outcome CircuitError (List (SharedValue F) × MpcSimulator F σ × Option TranscriptHook) := do
  Outcome.reject
    (secretInputs.length ≠ circuit.numSecretInputs ∨ publicInputs.length ≠ circuit.numPublicInputs)
    .invalidInputCount
  let (values, run) ← forwardPass (evaluateMpcNode secretInputs publicInputs) circuit.nodes [] ⟨⟨0, 0⟩, sim, hook⟩
  let outputs ← circuit.outputs.mapM fun id => Outcome.expect values[id.asUsize]?
  .ok (outputs, run.sim, circuit.outputs.foldl (fun hook id => recordEvent hook (.output id)) run.hook)

/-- Reveals one shared output, recording that its node was opened. -/
def revealOutput (sim : MpcSimulator F σ) (nodeId : NodeId) (shared : SharedValue F) (hook : Option TranscriptHook) :
    Outcome MpcError (F × Option TranscriptHook) := do
  let value ← sim.reveal shared
  .ok (value, recordEvent hook (.opened nodeId))

/-- What holds after each node: every computed value is shared, and the provider is ready. -/
structure SharesOf (circuit : Circuit F) (parties issued : ℕ) (value : ℕ → F) (values : List (SharedValue F))
    (run : MpcRun F (LocalTrustedTripleProvider F)) : Prop where
  shared : ∀ n < values.length, ∃ shared, values[n]? = some shared ∧ shared.Holds parties (value n)
  cursor : run.cursor = ⟨circuit.secretRank values.length, circuit.publicRank values.length⟩
  context : run.sim.ctx.partyCount = parties
  ready : run.sim.provider.Ready parties (issued + values.length)

section Refinement

variable {circuit : Circuit F} {secretInputs publicInputs : List F} {parties issued : ℕ} {value : ℕ → F}
  {values : List (SharedValue F)} {run next : MpcRun F (LocalTrustedTripleProvider F)}

omit [TripleProvider F σ] in
theorem MpcSimulator.input_ok {sim : MpcSimulator F σ} (several : 1 < sim.ctx.partyCount) (secret : F) :
    ∃ shared next, sim.input secret = .ok (shared, next) ∧ next.ctx = sim.ctx ∧ next.provider = sim.provider ∧
      shared.Holds sim.ctx.partyCount secret := by
  obtain ⟨shared, rng, shares, holds⟩ := sharedFrom_ok several secret sim.rng
  exact ⟨shared, { sim with rng := rng }, by rw [MpcSimulator.input, shares]; rfl, rfl, rfl, holds⟩

/-- Appending a sharing of the node's value keeps the invariant. -/
private theorem SharesOf.append (held : SharesOf circuit parties issued value values run) {node : Node F}
    {shared : SharedValue F} (found : circuit.nodes[values.length]? = some node)
    (holds : shared.Holds parties (value values.length))
    (cursor : next.cursor = ⟨run.cursor.nextSecret + if node.isSecretInput then 1 else 0,
      run.cursor.nextPublic + if node.isPublicInput then 1 else 0⟩)
    (context : next.sim.ctx.partyCount = parties)
    (ready : next.sim.provider.Ready parties (issued + (values.length + 1))) :
    SharesOf circuit parties issued value (values ++ [shared]) next := by
  rw [held.cursor, ← Circuit.secretRank_succ found, ← Circuit.publicRank_succ found] at cursor
  refine ⟨fun n below => ?_, by simpa using cursor, context, by simpa using ready⟩
  rcases Nat.lt_or_ge n values.length with earlier | last
  · obtain ⟨old, here, holds'⟩ := held.shared n earlier
    exact ⟨old, by rw [List.getElem?_append_left earlier, here], holds'⟩
  · obtain rfl : n = values.length := by simp at below; omega
    exact ⟨shared, by simp, holds⟩

omit [CommRing F] in
private theorem LocalTrustedTripleProvider.Ready.mono {provider : LocalTrustedTripleProvider F}
    {issued issued' : ℕ} (ready : provider.Ready parties issued) (more : issued ≤ issued') :
    provider.Ready parties issued' :=
  ⟨ready.parties, ready.issued.trans more, ready.used⟩

/-- One node: its shares add up to the value that the plaintext rule gives it. -/
private theorem SharesOf.step (valid : circuit.WellFormed) (several : 1 < parties)
    (room : issued + circuit.nodes.length < 2 ^ 64) (secretCount : secretInputs.length = circuit.numSecretInputs)
    (publicCount : publicInputs.length = circuit.numPublicInputs)
    (solved : circuit.Solves (circuit.plaintext (inputAt secretInputs) (inputAt publicInputs)) value)
    (held : SharesOf circuit parties issued value values run) {node : Node F}
    (found : circuit.nodes[values.length]? = some node) :
    ∃ shared next, evaluateMpcNode secretInputs publicInputs values run node = .ok (shared, next) ∧
      SharesOf circuit parties issued value (values ++ [shared]) next := by
  have rule := solved _ node found
  have here : values.length < circuit.nodes.length := (List.getElem?_eq_some_iff.mp found).1
  have waits := LocalTrustedTripleProvider.Ready.mono held.ready
    (by omega : issued + values.length ≤ issued + (values.length + 1))
  obtain ⟨_, cursor, rfl, ready⟩ := id held
  cases node with
  | secretInput =>
    have read := inputAt_of_lt (secretCount ▸ valid.secretRank_lt found)
    obtain ⟨shared, sim, shares, sameCtx, sameProvider, holds⟩ := MpcSimulator.input_ok several
      (inputAt secretInputs (circuit.secretRank values.length))
    refine ⟨shared, ⟨⟨circuit.secretRank values.length + 1, circuit.publicRank values.length⟩, sim,
      recordEvent run.hook (.input (.ofIndex values.length))⟩, ?_,
      held.append found (rule ▸ holds) (by rw [cursor]; rfl) (congrArg ShareContext.partyCount sameCtx)
        (sameProvider ▸ waits)⟩
    rw [evaluateMpcNode, cursor]
    simp only [read, shares, Outcome.expect_some, Outcome.ok_bind, Outcome.mapError_ok]
  | publicInput =>
    have read := inputAt_of_lt (publicCount ▸ valid.publicRank_lt found)
    obtain ⟨shared, sim, shares, sameCtx, sameProvider, holds⟩ := MpcSimulator.input_ok several
      (inputAt publicInputs (circuit.publicRank values.length))
    refine ⟨shared, ⟨⟨circuit.secretRank values.length, circuit.publicRank values.length + 1⟩, sim,
      recordEvent run.hook (.input (.ofIndex values.length))⟩, ?_,
      held.append found (rule ▸ holds) (by rw [cursor]; rfl) (congrArg ShareContext.partyCount sameCtx)
        (sameProvider ▸ waits)⟩
    rw [evaluateMpcNode, cursor]
    simp only [read, shares, Outcome.expect_some, Outcome.ok_bind, Outcome.mapError_ok]
  | constant constant =>
    obtain ⟨shared, sim, shares, sameCtx, sameProvider, holds⟩ := MpcSimulator.input_ok several constant
    refine ⟨shared, ⟨run.cursor, sim, recordEvent run.hook (.input (.ofIndex values.length))⟩, ?_,
      held.append found (rule ▸ holds) rfl
      (congrArg ShareContext.partyCount sameCtx) (sameProvider ▸ waits)⟩
    rw [evaluateMpcNode, shares]
    rfl
  | add a b =>
    obtain ⟨earlierA, earlierB⟩ := valid.operands _ _ a b found rfl
    obtain ⟨x, readX, holdsX⟩ := held.shared _ earlierA
    obtain ⟨y, readY, holdsY⟩ := held.shared _ earlierB
    obtain ⟨sum, adds, holds⟩ := holdsX.addSecret holdsY
    refine ⟨sum, ⟨run.cursor, run.sim, recordEvent run.hook (.operation (.ofIndex values.length))⟩, ?_,
      held.append found (rule ▸ holds) rfl rfl waits⟩
    rw [evaluateMpcNode, readX, readY]
    simp only [Outcome.expect_some, Outcome.ok_bind, adds, Outcome.mapError_ok]
  | mul a b =>
    obtain ⟨earlierA, earlierB⟩ := valid.operands _ _ a b found rfl
    obtain ⟨x, readX, holdsX⟩ := held.shared _ earlierA
    obtain ⟨y, readY, holdsY⟩ := held.shared _ earlierB
    obtain ⟨product, provider, multiplies, holds, ready'⟩ := holdsX.mulSecret holdsY ready several (by omega)
    refine ⟨product, ⟨run.cursor, { run.sim with provider := provider },
      recordEvent run.hook (.operation (.ofIndex values.length))⟩, ?_,
      held.append found (rule ▸ holds) rfl rfl ready'⟩
    rw [evaluateMpcNode, readX, readY]
    simp only [Outcome.expect_some, Outcome.ok_bind, MpcSimulator.mul, multiplies, Outcome.mapError_ok]

/-- Evaluation with a ready provider shares the values that solve the circuit's
equations, and leaves the provider ready for the next evaluation. -/
theorem evaluateMpc_of_ready (valid : circuit.WellFormed) {sim : MpcSimulator F (LocalTrustedTripleProvider F)}
    (several : 1 < sim.ctx.partyCount) (ready : sim.provider.Ready sim.ctx.partyCount issued)
    (room : issued + circuit.nodes.length < 2 ^ 64) (secretCount : secretInputs.length = circuit.numSecretInputs)
    (publicCount : publicInputs.length = circuit.numPublicInputs)
    (solved : circuit.Solves (circuit.plaintext (inputAt secretInputs) (inputAt publicInputs)) value)
    (hook : Option TranscriptHook) :
    ∃ outputs sim' hook', evaluateMpc circuit secretInputs publicInputs sim hook = .ok (outputs, sim', hook') ∧
      sim'.ctx.partyCount = sim.ctx.partyCount ∧
      sim'.provider.Ready sim.ctx.partyCount (issued + circuit.nodes.length) ∧
      List.Forall₂ (fun id shared => shared.Holds sim.ctx.partyCount (value id.asUsize)) circuit.outputs outputs := by
  have start : SharesOf circuit sim.ctx.partyCount issued value [] ⟨⟨0, 0⟩, sim, hook⟩ :=
    ⟨by simp, rfl, rfl, ready⟩
  obtain ⟨values, final, pass, held⟩ := forwardPass_total
    (SharesOf circuit sim.ctx.partyCount issued value) start fun values run node held found =>
      held.step valid several room secretCount publicCount solved found
  obtain ⟨_, trace, _, _⟩ := forwardPass_ok_iff.mp pass
  obtain ⟨outputs, read, pointwise⟩ : ∃ outputs,
      circuit.outputs.mapM (fun id => (Outcome.expect values[id.asUsize]? : Outcome CircuitError _)) = .ok outputs ∧
        List.Forall₂ (fun id shared => shared.Holds sim.ctx.partyCount (value id.asUsize)) circuit.outputs outputs := by
    refine Outcome.mapM_exists fun id member => ?_
    obtain ⟨shared, here, holds⟩ := held.shared id.asUsize (by rw [trace.length]; exact valid.outputs id member)
    exact ⟨shared, by rw [here]; rfl, holds⟩
  have counts : ¬(secretInputs.length ≠ circuit.numSecretInputs ∨ publicInputs.length ≠ circuit.numPublicInputs) := by
    simp [secretCount, publicCount]
  refine ⟨outputs, final.sim,
    circuit.outputs.foldl (fun hook id => recordEvent hook (.output id)) final.hook, ?_, held.context, trace.length ▸ held.ready, pointwise⟩
  rw [evaluateMpc, Outcome.reject_of_not counts]
  simp only [Outcome.ok_bind, pass, read]

/-- Shared evaluation refines plaintext evaluation: with any number of parties and
any random tapes it succeeds, and every output reveals what the reference computes.
A vector holds fewer than `2^64` nodes, so the dealer's identifiers never run out. -/
theorem evaluateMpc_refines (valid : circuit.validate = .ok ()) (addressable : circuit.nodes.length < 2 ^ 64)
    {ctx : ShareContext} (several : 2 ≤ ctx.partyCount) (secretCount : secretInputs.length = circuit.numSecretInputs)
    (publicCount : publicInputs.length = circuit.numPublicInputs) (tape dealerTape : Tape F)
    (hook : Option TranscriptHook) :
    ∃ provider sim outputs expected sim' hook',
      LocalTrustedTripleProvider.new ctx dealerTape = .ok provider ∧ MpcSimulator.new ctx provider tape = .ok sim ∧
        evaluateMpc circuit secretInputs publicInputs sim hook = .ok (outputs, sim', hook') ∧
        evaluateReference circuit secretInputs publicInputs = .ok expected ∧
        List.Forall₂ (fun shared value => ∀ nodeId hook, ∃ recorded,
          revealOutput sim' nodeId shared hook = .ok (value, recorded)) outputs expected := by
  have wellFormed := Circuit.validate_ok_iff.mp valid
  have several' : ¬ctx.partyCount ≤ 1 := by omega
  have solved := wellFormed.valueOf_solves (circuit.plaintext (inputAt secretInputs) (inputAt publicInputs)) 0
  obtain ⟨outputs, sim', hook', evaluates, sameCount, _, pointwise⟩ :=
    @evaluateMpc_of_ready _ _ circuit secretInputs publicInputs 0 _ wellFormed
      ⟨ctx, ⟨ctx, dealerTape, 0, ∅⟩, tape⟩ several ⟨rfl, le_rfl, by simp⟩ (by omega) secretCount publicCount solved hook
  refine ⟨⟨ctx, dealerTape, 0, ∅⟩, _, outputs, _, sim', hook', ?_, ?_, evaluates,
    evaluateReference_of_solves wellFormed secretCount publicCount solved, ?_⟩
  · rw [LocalTrustedTripleProvider.new, Outcome.reject_of_not several']
    rfl
  · rw [MpcSimulator.new, Outcome.reject_of_not several']
    rfl
  · refine List.forall₂_map_right_iff.mpr (pointwise.flip.imp fun shared id holds nodeId hook => ?_)
    have revealed := MpcSimulator.reveal_ok (sameCount ▸ holds)
    exact ⟨_, by rw [revealOutput, revealed]; rfl⟩

/-- Three parties multiply a secret and a public input. -/
theorem evaluateMpc_refines_product :
    ∃ provider sim outputs sim' hook' recorded,
      LocalTrustedTripleProvider.new ⟨3, 0, 0⟩ ⟨fun n => (n : ZMod 7), 0⟩ = .ok provider ∧
        MpcSimulator.new ⟨3, 0, 0⟩ provider ⟨fun n => (n * n : ZMod 7), 0⟩ = .ok sim ∧
        evaluateMpc ⟨[.secretInput, .publicInput, .mul ⟨0⟩ ⟨1⟩], 1, 1, [⟨2⟩]⟩ [2] [3] sim none =
          .ok (outputs, sim', hook') ∧
        outputs.mapM (fun shared => revealOutput sim' ⟨2⟩ shared none) = .ok [(6, recorded)] := by
  obtain ⟨provider, sim, outputs, expected, sim', hook', made, simulated, evaluates, reference, revealed⟩ :=
    @evaluateMpc_refines (ZMod 7) _ ⟨[.secretInput, .publicInput, .mul ⟨0⟩ ⟨1⟩], 1, 1, [⟨2⟩]⟩ [2] [3] (by decide)
      (by decide) ⟨3, 0, 0⟩ (by decide) rfl rfl ⟨fun n => (n * n : ZMod 7), 0⟩ ⟨fun n => (n : ZMod 7), 0⟩ none
  obtain rfl : expected = [6] := (Outcome.ok.inj reference).symm
  cases revealed with
  | cons first none =>
    cases none
    obtain ⟨recorded, opened⟩ := first ⟨2⟩ none
    exact ⟨provider, sim, _, sim', hook', recorded, made, simulated, evaluates, by
      rw [List.mapM_cons, opened]; rfl⟩

end Refinement

end PaymentAuth
