import PaymentAuth.Circuit.EvalMpc
import PaymentAuth.Mpc.Secrecy

/-! The shared evaluation of a circuit is one session of calls; what its parties see
follows from its outputs alone. -/

namespace PaymentAuth

open Library Mpc

variable {F : Type}

/-- The event that a node's evaluation records. -/
def Node.event : Node F × ℕ → TranscriptEvent
  | (.secretInput, n) | (.publicInput, n) | (.constant _, n) => .input (.ofIndex n)
  | (.add _ _, n) | (.mul _ _, n) => .operation (.ofIndex n)

namespace Circuit

/-- The events of an evaluation, in node order and then the outputs. -/
def events (circuit : Circuit F) : List TranscriptEvent :=
  circuit.nodes.zipIdx.map Node.event ++ circuit.outputs.map .output

/-- The openings of all outputs. -/
def reveals (circuit : Circuit F) : List (Call F) := circuit.outputs.map fun id => .reveal id.asUsize

variable [CommRing F]

/-- The call on the simulator that a node makes. -/
def call (circuit : Circuit F) (secretInputs publicInputs : List F) : Node F × ℕ → Call F
  | (.secretInput, n) => .input (inputAt secretInputs (circuit.secretRank n))
  | (.publicInput, n) => .input (inputAt publicInputs (circuit.publicRank n))
  | (.constant value, _) => .input value
  | (.add a b, _) => .add a.asUsize b.asUsize
  | (.mul a b, _) => .mul a.asUsize b.asUsize

def calls (circuit : Circuit F) (secretInputs publicInputs : List F) : List (Call F) :=
  circuit.nodes.zipIdx.map (circuit.call secretInputs publicInputs)

end Circuit

/-- Recording events one after the other appends them all, or none when disabled. -/
theorem foldl_recordEvent (hook : Option TranscriptHook) (events : List TranscriptEvent) :
    events.foldl recordEvent hook =
      hook.map fun hook => if hook.enabled then { hook with events := hook.events ++ events } else hook := by
  induction events generalizing hook with
  | nil => cases hook <;> simp
  | cons event rest ih =>
    cases hook with
    | none => exact ih none
    | some hook =>
      rw [List.foldl_cons, ih]
      cases enabled : hook.enabled <;> simp [recordEvent, TranscriptHook.record, enabled]

section Refinement

variable [CommRing F] {circuit : Circuit F} {secretInputs publicInputs : List F}

private theorem inputAt_of_found {inputs : List F} {k : ℕ} {value : F} (found : inputs[k]? = some value) :
    inputAt inputs k = value := by
  rw [inputAt, List.getD_eq_getElem?_getD, found, Option.getD_some]

/-- Where an evaluation stands next to its session. -/
structure Circuit.Follows (circuit : Circuit F) (hook : Option TranscriptHook) (values : List (SharedValue F))
    (run : MpcRun F (LocalTrustedTripleProvider F)) (session : Session F) : Prop where
  results : session.results = values
  revealed : session.revealed = []
  sim : session.sim = run.sim
  cursor : run.cursor = ⟨circuit.secretRank values.length, circuit.publicRank values.length⟩
  recorded : run.hook = ((circuit.nodes.take values.length).zipIdx.map Node.event).foldl recordEvent hook

omit [CommRing F] in
private theorem Circuit.Follows.push {hook : Option TranscriptHook} {values : List (SharedValue F)}
    {run next : MpcRun F (LocalTrustedTripleProvider F)} {session : Session F} {node : Node F}
    (follows : circuit.Follows hook values run session) (found : circuit.nodes[values.length]? = some node)
    (value : SharedValue F) (openings : List (Opening F))
    (cursor : next.cursor = ⟨run.cursor.nextSecret + if node.isSecretInput then 1 else 0,
      run.cursor.nextPublic + if node.isPublicInput then 1 else 0⟩)
    (recorded : next.hook = recordEvent run.hook (Node.event (node, values.length))) :
    circuit.Follows hook (values ++ [value]) next ⟨next.sim, values ++ [value], openings, []⟩ where
  results := rfl
  revealed := rfl
  sim := rfl
  cursor := by
    rw [cursor, follows.cursor, List.length_append, List.length_singleton, Circuit.secretRank_succ found,
      Circuit.publicRank_succ found]
  recorded := by
    have bound := (List.getElem?_eq_some_iff.mp found).1
    rw [recorded, follows.recorded, List.length_append, List.length_singleton, List.take_add_one, found,
      List.zipIdx_append, List.map_append, List.foldl_append, List.length_take, Nat.min_eq_left bound.le, Nat.zero_add]
    rfl

/-- A node makes one call on the simulator and records one event. -/
theorem Circuit.Follows.step {hook : Option TranscriptHook} {values : List (SharedValue F)}
    {run next : MpcRun F (LocalTrustedTripleProvider F)} {session : Session F} {node : Node F}
    {value : SharedValue F} (follows : circuit.Follows hook values run session)
    (found : circuit.nodes[values.length]? = some node)
    (evaluates : evaluateMpcNode secretInputs publicInputs values run node = .ok (value, next)) :
    ∃ later, session.call (circuit.call secretInputs publicInputs (node, values.length)) = .ok later ∧
      circuit.Follows hook (values ++ [value]) next later := by
  have pushed := @Circuit.Follows.push F circuit hook values run next session node follows found value
  obtain ⟨sim, results, openings, revealed⟩ := session
  obtain ⟨rfl, rfl, rfl, cursor, recorded⟩ := follows
  cases node with
  | secretInput =>
    simp only [evaluateMpcNode, Outcome.bind_ok_iff, Outcome.expect_ok_iff, Outcome.mapError_ok_iff, Outcome.ok.injEq,
      Prod.mk.injEq] at evaluates
    obtain ⟨secret, read, ⟨_, sim⟩, shares, rfl, rfl⟩ := evaluates
    rw [cursor] at read
    refine ⟨_, ?_, pushed openings rfl rfl⟩
    rw [Circuit.call, Session.call, inputAt_of_found read, shares]
    rfl
  | publicInput =>
    simp only [evaluateMpcNode, Outcome.bind_ok_iff, Outcome.expect_ok_iff, Outcome.mapError_ok_iff, Outcome.ok.injEq,
      Prod.mk.injEq] at evaluates
    obtain ⟨secret, read, ⟨_, sim⟩, shares, rfl, rfl⟩ := evaluates
    rw [cursor] at read
    refine ⟨_, ?_, pushed openings rfl rfl⟩
    rw [Circuit.call, Session.call, inputAt_of_found read, shares]
    rfl
  | constant constant =>
    simp only [evaluateMpcNode, Outcome.bind_ok_iff, Outcome.mapError_ok_iff, Outcome.ok.injEq,
      Prod.mk.injEq] at evaluates
    obtain ⟨⟨_, sim⟩, shares, rfl, rfl⟩ := evaluates
    refine ⟨_, ?_, pushed openings rfl rfl⟩
    rw [Circuit.call, Session.call, shares]
    rfl
  | add a b =>
    simp only [evaluateMpcNode, Outcome.bind_ok_iff, Outcome.expect_ok_iff, Outcome.mapError_ok_iff, Outcome.ok.injEq,
      Prod.mk.injEq] at evaluates
    obtain ⟨left, readLeft, right, readRight, _, adds, rfl, rfl⟩ := evaluates
    refine ⟨_, ?_, pushed openings rfl rfl⟩
    simp only [Circuit.call, Session.call, readLeft, readRight, Outcome.expect_some, Outcome.ok_bind, MpcSimulator.add,
      adds]
  | mul a b =>
    simp only [evaluateMpcNode, Outcome.bind_ok_iff, Outcome.expect_ok_iff, Outcome.mapError_ok_iff, Outcome.ok.injEq,
      Prod.mk.injEq] at evaluates
    obtain ⟨left, readLeft, right, readRight, ⟨_, sim⟩, multiplies, rfl, rfl⟩ := evaluates
    obtain ⟨⟨_, provider⟩, product, _⟩ := Outcome.bind_ok_iff.mp multiplies
    obtain ⟨triple, supplied, _⟩ := SharedValue.mulSecret_ok product
    refine ⟨_, ?_, pushed (openings ++ [⟨triple, left.differences right triple⟩]) rfl rfl⟩
    simp only [Circuit.call, Session.call, readLeft, readRight, Outcome.expect_some, Outcome.ok_bind, supplied,
      multiplies]

/-- On a fresh simulator a validated circuit evaluates as a session that makes one call a
node. The recorded events are those of the circuit, whatever the inputs and the draws. -/
theorem evaluateMpc_session (valid : circuit.validate = .ok ()) (addressable : circuit.nodes.length < 2 ^ 64)
    {ctx : ShareContext} (several : 2 ≤ ctx.partyCount) (secretCount : secretInputs.length = circuit.numSecretInputs)
    (publicCount : publicInputs.length = circuit.numPublicInputs) (tape dealerTape : Tape F)
    (hook : Option TranscriptHook) :
    ∃ provider sim session outputs,
      LocalTrustedTripleProvider.new ctx dealerTape = .ok provider ∧ MpcSimulator.new ctx provider tape = .ok sim ∧
        (Session.start sim).run (circuit.calls secretInputs publicInputs) = .ok session ∧ session.revealed = [] ∧
        circuit.outputs.map (fun id => session.results[id.asUsize]?) = outputs.map some ∧
        evaluateMpc circuit secretInputs publicInputs sim hook =
          .ok (outputs, session.sim, hook.map fun hook =>
            if hook.enabled then { hook with events := hook.events ++ circuit.events } else hook) := by
  have wellFormed := Circuit.validate_ok_iff.mp valid
  have several' : ¬ctx.partyCount ≤ 1 := Nat.not_le.mpr several
  have solved := wellFormed.valueOf_solves (circuit.plaintext (inputAt secretInputs) (inputAt publicInputs)) 0
  obtain ⟨outputs, sim', hook', evaluates, -, -, -⟩ :=
    @evaluateMpc_of_ready _ _ circuit secretInputs publicInputs 0 _ wellFormed
      ⟨ctx, ⟨ctx, dealerTape, 0, ∅⟩, tape⟩ several ⟨rfl, le_rfl, by simp⟩ (by omega) secretCount publicCount solved hook
  have result := evaluates
  simp only [evaluateMpc, Outcome.bind_ok_iff, Outcome.ok.injEq, Prod.mk.injEq] at result
  obtain ⟨_, _, ⟨values, run⟩, pass, outputs', read, same, rfl, rfl⟩ := result
  rw [same] at read
  have start : circuit.Follows hook [] ⟨⟨0, 0⟩, ⟨ctx, ⟨ctx, dealerTape, 0, ∅⟩, tape⟩, hook⟩
      (Session.start ⟨ctx, ⟨ctx, dealerTape, 0, ∅⟩, tape⟩) := ⟨rfl, rfl, rfl, rfl, rfl⟩
  obtain ⟨session, calls, follows⟩ := Outcome.forwardPass_foldlM
    (fun _ _ _ _ _ _ follows found success => Circuit.Follows.step follows found success) start pass
  refine ⟨⟨ctx, dealerTape, 0, ∅⟩, ⟨ctx, ⟨ctx, dealerTape, 0, ∅⟩, tape⟩, session, outputs, ?_, ?_, calls,
    follows.revealed, ?_, ?_⟩
  · rw [LocalTrustedTripleProvider.new, Outcome.reject_of_not several', Outcome.ok_bind]
  · rw [MpcSimulator.new, Outcome.reject_of_not several', Outcome.ok_bind]
  · apply Outcome.map_eq_of_forall₂ ?_ (Outcome.mapM_ok_iff.mp read)
    intro id shared found
    rw [follows.results]
    exact Outcome.expect_ok_iff.mp found
  · obtain ⟨_, trace, _, _⟩ := forwardPass_ok_iff.mp pass
    have events : circuit.outputs.foldl (fun hook id => recordEvent hook (.output id)) run.hook =
        circuit.events.foldl recordEvent hook := by
      rw [follows.recorded, trace.length, List.take_length, Circuit.events, List.foldl_append]
      exact List.foldl_map.symm
    rw [evaluates, follows.sim, events, foldl_recordEvent]

/-- Three parties square a secret and add it; every event is recorded. -/
theorem evaluateMpc_session_square :
    ∃ provider sim session outputs,
      LocalTrustedTripleProvider.new ⟨3, 0, 0⟩ ⟨fun n => (n : ℤ), 0⟩ = .ok provider ∧
        MpcSimulator.new ⟨3, 0, 0⟩ provider ⟨fun n => (n : ℤ), 0⟩ = .ok sim ∧
        (Session.start sim).run [.input (5 : ℤ), .mul 0 0, .add 0 1] = .ok session ∧ session.revealed = [] ∧
        [session.results[2]?] = outputs.map some ∧
        evaluateMpc ⟨[.secretInput, .mul ⟨0⟩ ⟨0⟩, .add ⟨0⟩ ⟨1⟩], 1, 0, [⟨2⟩]⟩ [5] [] sim (some ⟨[], true⟩) =
          .ok (outputs, session.sim, some ⟨[.input ⟨0⟩, .operation ⟨1⟩, .operation ⟨2⟩, .output ⟨2⟩], true⟩) :=
  @evaluateMpc_session ℤ _ ⟨[.secretInput, .mul ⟨0⟩ ⟨0⟩, .add ⟨0⟩ ⟨1⟩], 1, 0, [⟨2⟩]⟩ [5] [] (by decide) (by decide)
    ⟨3, 0, 0⟩ (by decide) rfl rfl ⟨fun n => (n : ℤ), 0⟩ ⟨fun n => (n : ℤ), 0⟩ (some ⟨[], true⟩)

end Refinement

section Secrecy

variable [CommRing F] {circuit : Circuit F} {secretInputs secretInputs' publicInputs outputs : List F}

private theorem Plain.run_reveals {values : List F} {ids : List NodeId} {outputs : List F}
    (read : ids.mapM (fun id => (Outcome.expect values[id.asUsize]? : Outcome CircuitError F)) = .ok outputs)
    (revealed : List F) :
    Plain.run ⟨values, revealed⟩ (ids.map fun id => .reveal id.asUsize) = .ok ⟨values, revealed ++ outputs⟩ := by
  have pointwise := Outcome.mapM_ok_iff.mp read
  clear read
  induction pointwise generalizing revealed with
  | nil => simp [Plain.run]
  | @cons id output ids outputs found _ ih =>
    have found' := Outcome.expect_ok_iff.mp found
    have more := ih (revealed ++ [output])
    rw [List.append_assoc, List.singleton_append] at more
    rw [Plain.run, List.map_cons, List.foldlM_cons, Plain.call, found', Outcome.expect_some, Outcome.ok_bind,
      Outcome.ok_bind]
    exact more

/-- Where a reference evaluation stands next to the calls on plain values. -/
structure Circuit.FollowsPlain (circuit : Circuit F) (values : List F) (cursor : InputCursor) (plain : Plain F) :
    Prop where
  plain : plain = ⟨values, []⟩
  cursor : cursor = ⟨circuit.secretRank values.length, circuit.publicRank values.length⟩

theorem Circuit.FollowsPlain.step {values : List F} {cursor next : InputCursor} {plain : Plain F} {node : Node F}
    {value : F} (follows : circuit.FollowsPlain values cursor plain) (found : circuit.nodes[values.length]? = some node)
    (evaluates : evaluateNode secretInputs publicInputs values cursor node = .ok (value, next)) :
    ∃ later, plain.call (circuit.call secretInputs publicInputs (node, values.length)) = .ok later ∧
      circuit.FollowsPlain (values ++ [value]) next later := by
  obtain ⟨rfl, rfl⟩ := follows
  have follows' : ∀ next, next = (⟨circuit.secretRank values.length + if node.isSecretInput then 1 else 0,
      circuit.publicRank values.length + if node.isPublicInput then 1 else 0⟩ : InputCursor) →
        circuit.FollowsPlain (values ++ [value]) next ⟨values ++ [value], []⟩ := by
    rintro _ rfl
    refine ⟨rfl, ?_⟩
    rw [List.length_append, List.length_singleton, Circuit.secretRank_succ found, Circuit.publicRank_succ found]
  cases node with
  | secretInput | publicInput =>
    simp only [evaluateNode, Outcome.bind_ok_iff, Outcome.expect_ok_iff, Outcome.ok.injEq, Prod.mk.injEq] at evaluates
    obtain ⟨input, read, rfl, rfl⟩ := evaluates
    refine ⟨_, ?_, follows' _ rfl⟩
    rw [Circuit.call, Plain.call, inputAt_of_found read]
    rfl
  | constant constant =>
    simp only [evaluateNode, Outcome.ok.injEq, Prod.mk.injEq] at evaluates
    obtain ⟨rfl, rfl⟩ := evaluates
    exact ⟨_, rfl, follows' _ rfl⟩
  | add a b | mul a b =>
    simp only [evaluateNode, Outcome.bind_ok_iff, Outcome.expect_ok_iff, Outcome.ok.injEq, Prod.mk.injEq] at evaluates
    obtain ⟨left, readLeft, right, readRight, rfl, rfl⟩ := evaluates
    refine ⟨_, ?_, follows' _ rfl⟩
    simp only [Circuit.call, Plain.call, readLeft, readRight, Outcome.expect_some, Outcome.ok_bind]
    rfl

/-- On plain values the calls of a circuit reveal what the reference evaluation returns. -/
theorem Plain.run_calls (reference : evaluateReference circuit secretInputs publicInputs = .ok outputs) :
    Plain.revealed <$> Plain.start.run (circuit.calls secretInputs publicInputs ++ circuit.reveals) = .ok outputs := by
  simp only [evaluateReference, Outcome.bind_ok_iff] at reference
  obtain ⟨_, _, ⟨values, final⟩, pass, read⟩ := reference
  obtain ⟨plain, calls, ⟨rfl, -⟩⟩ := Outcome.forwardPass_foldlM
    (fun _ _ _ _ _ _ follows found success => Circuit.FollowsPlain.step follows found success)
    (⟨rfl, rfl⟩ : circuit.FollowsPlain [] ⟨0, 0⟩ Plain.start) pass
  have opened := Plain.run_reveals read []
  rw [Plain.run] at opened
  rw [Plain.run, List.foldlM_append, Circuit.calls, calls, Outcome.ok_bind, Circuit.reveals, opened]
  rfl

omit [CommRing F] in
private theorem sum_reveals {measure : Call F → ℕ} (free : ∀ x, measure (.reveal x) = 0) (circuit : Circuit F) :
    (circuit.reveals.map measure).sum = 0 := by
  apply List.sum_eq_zero
  intro size member
  obtain ⟨call, opened, rfl⟩ := List.mem_map.mp member
  obtain ⟨id, _, rfl⟩ := List.mem_map.mp opened
  exact free id.asUsize

private theorem sum_calls_le {measure : Call F → ℕ} {bound : ℕ} (free : ∀ x, measure (.reveal x) = 0)
    (few : ∀ call, measure call ≤ bound) :
    ((circuit.calls secretInputs publicInputs ++ circuit.reveals).map measure).sum ≤ circuit.nodes.length * bound := by
  rw [List.map_append, List.sum_append, sum_reveals free, Nat.add_zero]
  apply (List.sum_le_card_nsmul _ bound ?_).trans
  · rw [List.length_map, Circuit.calls, List.length_map, List.length_zipIdx, smul_eq_mul]
  · intro size member
    obtain ⟨call, _, rfl⟩ := List.mem_map.mp member
    exact few call

/-- Calls for two vectors of secret inputs differ only in the secrets that they share. -/
theorem Circuit.calls_alike (circuit : Circuit F) (secretInputs secretInputs' publicInputs : List F) :
    List.Forall₂ Call.Alike (circuit.calls secretInputs publicInputs ++ circuit.reveals)
      (circuit.calls secretInputs' publicInputs ++ circuit.reveals) := by
  apply List.rel_append
  · apply List.forall₂_map_left_iff.mpr
    apply List.forall₂_map_right_iff.mpr
    apply List.forall₂_same.mpr
    rintro ⟨node, n⟩ _
    cases node with
    | secretInput => exact .input _ _
    | publicInput | constant | add | mul => exact .same _
  · exact List.forall₂_same.mpr fun call _ => .same call

/-- Evaluating a circuit and opening its outputs shows any parties that lack one share
nothing but the outputs: secret inputs with the same outputs are seen with the same
probabilities. -/
theorem evaluateMpc_hides [Fintype F] {ctx : ShareContext} (several : 2 ≤ ctx.partyCount) {hidden : ℕ}
    (missing : hidden < ctx.partyCount) (addressable : circuit.nodes.length < 2 ^ 64)
    (reference : evaluateReference circuit secretInputs publicInputs = .ok outputs)
    (reference' : evaluateReference circuit secretInputs' publicInputs = .ok outputs) {count : ℕ}
    (enough : circuit.nodes.length * tripleDraws ctx.partyCount ≤ count) :
    (uniformDraws F count).map (fun draws => Session.observe ctx hidden
        (circuit.calls secretInputs publicInputs ++ circuit.reveals) (padded (drawPlaces count) draws)) =
      (uniformDraws F count).map (fun draws => Session.observe ctx hidden
        (circuit.calls secretInputs' publicInputs ++ circuit.reveals) (padded (drawPlaces count) draws)) := by
  have triples := @sum_calls_le F _ circuit secretInputs publicInputs Call.triples 1 (fun _ => rfl)
    (fun call => by cases call <;> simp [Call.triples])
  have draws := @sum_calls_le F _ circuit secretInputs publicInputs (Call.clientDraws ctx.partyCount)
    (tripleDraws ctx.partyCount) (fun _ => rfl)
    (fun call => by cases call <;> simp only [Call.clientDraws, tripleDraws] <;> omega)
  rw [Nat.mul_one] at triples
  obtain ⟨mask, beyond, same⟩ := Session.exists_mask_observe several missing
    (circuit.calls_alike secretInputs secretInputs' publicInputs)
    ((Plain.run_calls reference).trans (Plain.run_calls reference').symm) (triples.trans_lt addressable)
  apply mask.map_uniform_eq (drawPlaces_injective count) ?_ same
  intro _ position outside
  exact beyond _ position
    (fresh_of_notMem_drawPlaces ((Nat.mul_le_mul_right _ triples).trans enough) (draws.trans enough) outside)

/-- The square of 1 or of -1 modulo 3 is seen the same by the first of two parties. -/
theorem evaluateMpc_hides_square :
    (uniformDraws (ZMod 3) 10).map (fun draws => Session.observe ⟨2, 0, 0⟩ 1
        [.input 1, .mul 0 0, .reveal 1] (padded (drawPlaces 10) draws)) =
      (uniformDraws (ZMod 3) 10).map (fun draws => Session.observe ⟨2, 0, 0⟩ 1
        [.input (-1), .mul 0 0, .reveal 1] (padded (drawPlaces 10) draws)) :=
  @evaluateMpc_hides (ZMod 3) _ ⟨[.secretInput, .mul ⟨0⟩ ⟨0⟩], 1, 0, [⟨1⟩]⟩ [1] [-1] [] [1] _ ⟨2, 0, 0⟩ (by decide) 1
    (by decide) (by decide) (by decide) (by decide) 10 (by decide)

end Secrecy

end PaymentAuth
