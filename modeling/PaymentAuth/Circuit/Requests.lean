import Mathlib.Algebra.Ring.Int.Defs
import PaymentAuth.Circuit.Builder

/-! Clients that call a builder as they like: the circuit they get computes what their
calls mean on values. -/

namespace PaymentAuth

open Library

/-- One call of a client on a builder. Nothing says that the nodes it names exist. -/
inductive Request (F : Type) where
  | secretInput
  | publicInput
  | constant (value : F)
  | add (a b : NodeId)
  | mul (a b : NodeId)
  | output (id : NodeId)
deriving Repr

variable {F : Type}

/-- What a client is told: the new node, if the call makes one, or an error. -/
abbrev Response := Except CircuitError (Option NodeId)

/-- A builder in use, with the answers so far. -/
structure Client (F : Type) where
  builder : CircuitBuilder F
  responses : List Response

namespace Client

def start : Client F := ⟨CircuitBuilder.new, []⟩

/-- The call that a request stands for. -/
def act : Request F → CircuitBuilder.Build F CircuitError (Option NodeId)
  | .secretInput => some <$> CircuitBuilder.secretInput
  | .publicInput => some <$> CircuitBuilder.publicInput
  | .constant value => some <$> CircuitBuilder.constant value
  | .add a b => some <$> CircuitBuilder.add a b
  | .mul a b => some <$> CircuitBuilder.mul a b
  | .output id => do
    CircuitBuilder.output id
    pure none

/-- Makes one call. A refused call leaves the builder as it was, and the client goes on. -/
def serve (client : Client F) (request : Request F) : Outcome CircuitError (Client F) :=
  match act request client.builder with
  | .ok (response, builder) => .ok ⟨builder, client.responses ++ [.ok response]⟩
  | .error failure => .ok ⟨client.builder, client.responses ++ [.error failure]⟩
  | .aborted => .aborted

def run (client : Client F) (requests : List (Request F)) : Outcome CircuitError (Client F) :=
  requests.foldlM serve client

end Client

/-- The meaning of calls: a value for each node and each output, computed as the calls come. -/
structure Meaning (F : Type) where
  values : List F
  secrets : ℕ
  publics : ℕ
  outputs : List F
  responses : List Response

namespace Meaning

variable [CommRing F]

def start : Meaning F := ⟨[], 0, 0, [], []⟩

def push (meaning : Meaning F) (value : F) : Meaning F :=
  { meaning with
    values := meaning.values ++ [value]
    responses := meaning.responses ++ [.ok (some (.ofIndex meaning.values.length))] }

def refuse (meaning : Meaning F) : Meaning F :=
  { meaning with responses := meaning.responses ++ [.error .invalidReference] }

/-- Computes on two earlier values, if they are there. -/
def combine (meaning : Meaning F) (f : F → F → F) (a b : NodeId) : Meaning F :=
  match meaning.values[a.asUsize]?, meaning.values[b.asUsize]? with
  | some left, some right => meaning.push (f left right)
  | _, _ => meaning.refuse

def serve (secretInputs publicInputs : List F) (meaning : Meaning F) : Request F → Meaning F
  | .secretInput =>
    { meaning.push (inputAt secretInputs meaning.secrets) with secrets := meaning.secrets + 1 }
  | .publicInput =>
    { meaning.push (inputAt publicInputs meaning.publics) with publics := meaning.publics + 1 }
  | .constant value => meaning.push value
  | .add a b => meaning.combine (· + ·) a b
  | .mul a b => meaning.combine (· * ·) a b
  | .output id =>
    match meaning.values[id.asUsize]? with
    | some value =>
      { meaning with outputs := meaning.outputs ++ [value], responses := meaning.responses ++ [.ok none] }
    | none => meaning.refuse

def run (secretInputs publicInputs : List F) (requests : List (Request F)) : Meaning F :=
  requests.foldl (serve secretInputs publicInputs) start

end Meaning

section Refinement

variable [CommRing F] {secretInputs publicInputs : List F} {client : Client F} {meaning : Meaning F}

/-- As many inputs as a builder has declared, or more. -/
def CircuitBuilder.Fed (secretInputs publicInputs : List F) (builder : CircuitBuilder F) : Prop :=
  builder.numSecretInputs ≤ secretInputs.length ∧ builder.numPublicInputs ≤ publicInputs.length

/-- A client next to the meaning of its calls. -/
structure Means (secretInputs publicInputs : List F) (client : Client F) (meaning : Meaning F) : Prop where
  built : client.builder.WellBuilt
  length : meaning.values.length = client.builder.nodes.length
  pass : client.builder.Fed secretInputs publicInputs →
    forwardPass (evaluateNode secretInputs publicInputs) client.builder.nodes [] ⟨0, 0⟩ =
      .ok (meaning.values, ⟨meaning.secrets, meaning.publics⟩)
  secrets : meaning.secrets = client.builder.numSecretInputs
  publics : meaning.publics = client.builder.numPublicInputs
  outputs : client.builder.outputs.map (fun id => meaning.values[id.asUsize]?) = meaning.outputs.map some
  responses : client.responses = meaning.responses

/-- The builder with one more node. -/
def CircuitBuilder.grown (builder : CircuitBuilder F) (node : Node F) : CircuitBuilder F where
  nodes := builder.nodes ++ [node]
  numSecretInputs := builder.numSecretInputs + if node.isSecretInput then 1 else 0
  numPublicInputs := builder.numPublicInputs + if node.isPublicInput then 1 else 0
  outputs := builder.outputs

/-- A node that evaluates on the values so far is pushed with its value. -/
theorem Means.push (means : Means secretInputs publicInputs client meaning) {node : Node F} {value : F}
    (earlier : ∀ a b, node.operands = some (a, b) →
      a.asUsize < client.builder.nodes.length ∧ b.asUsize < client.builder.nodes.length)
    (evaluates : (client.builder.grown node).Fed secretInputs publicInputs →
      evaluateNode secretInputs publicInputs meaning.values ⟨meaning.secrets, meaning.publics⟩ node =
        .ok (value, ⟨meaning.secrets + if node.isSecretInput then 1 else 0,
          meaning.publics + if node.isPublicInput then 1 else 0⟩)) :
    Means secretInputs publicInputs
      ⟨client.builder.grown node, client.responses ++ [.ok (some (.ofIndex client.builder.nodes.length))]⟩
      { meaning.push value with
        secrets := meaning.secrets + if node.isSecretInput then 1 else 0
        publics := meaning.publics + if node.isPublicInput then 1 else 0 } where
  built := CircuitBuilder.append_wellBuilt means.built earlier
  length := by rw [Meaning.push, CircuitBuilder.grown, List.length_append, List.length_append, means.length]; rfl
  pass fed := by
    have before : client.builder.Fed secretInputs publicInputs :=
      ⟨(Nat.le_add_right _ _).trans fed.1, (Nat.le_add_right _ _).trans fed.2⟩
    exact forwardPass_concat (means.pass before) (evaluates fed)
  secrets := by rw [means.secrets]; rfl
  publics := by rw [means.publics]; rfl
  outputs := by
    rw [Meaning.push, ← means.outputs]
    apply List.map_congr_left
    intro id marked
    rw [List.getElem?_append_left (means.length ▸ means.built.outputs id marked)]
  responses := by rw [Meaning.push, means.responses, means.length]

theorem Means.refuse (means : Means secretInputs publicInputs client meaning) :
    Means secretInputs publicInputs ⟨client.builder, client.responses ++ [.error .invalidReference]⟩ meaning.refuse :=
  ⟨means.built, means.length, means.pass, means.secrets, means.publics, means.outputs,
    by rw [Meaning.refuse, means.responses]⟩

section Serving

variable {builder : CircuitBuilder F} {request : Request F} {id : NodeId}

omit [CommRing F]

private theorem push_eq {ε : Type} (room : builder.nodes.length < 2 ^ 32) (node : Node F) :
    (CircuitBuilder.push node : CircuitBuilder.Build F ε NodeId) builder =
      .ok (.ofIndex builder.nodes.length, { builder with nodes := builder.nodes ++ [node] }) :=
  CircuitBuilder.push_ok_iff.mpr ⟨room, rfl, rfl⟩

private theorem secretInput_eq {ε : Type} (room : builder.nodes.length < 2 ^ 32) :
    (CircuitBuilder.secretInput : CircuitBuilder.Build F ε NodeId) builder =
      .ok (.ofIndex builder.nodes.length, builder.grown .secretInput) :=
  @push_eq F { builder with numSecretInputs := builder.numSecretInputs + 1 } ε room .secretInput

private theorem publicInput_eq {ε : Type} (room : builder.nodes.length < 2 ^ 32) :
    (CircuitBuilder.publicInput : CircuitBuilder.Build F ε NodeId) builder =
      .ok (.ofIndex builder.nodes.length, builder.grown .publicInput) :=
  @push_eq F { builder with numPublicInputs := builder.numPublicInputs + 1 } ε room .publicInput

private theorem grown_length (node : Node F) : (builder.grown node).nodes.length ≤ builder.nodes.length + 1 := by
  rw [CircuitBuilder.grown, List.length_append, List.length_singleton]

private theorem checkDefined_of_lt (defined : id.asUsize < builder.nodes.length) :
    CircuitBuilder.checkDefined id builder = .ok ((), builder) :=
  CircuitBuilder.checkDefined_ok_iff.mpr ⟨defined, rfl⟩

private theorem checkDefined_of_not (undefined : ¬id.asUsize < builder.nodes.length) :
    CircuitBuilder.checkDefined id builder = .error .invalidReference := by
  rw [CircuitBuilder.checkDefined, Outcome.reject, if_pos (Nat.le_of_not_lt undefined)]
  rfl

/-- A gate is made when both operands are there and refused otherwise. -/
private theorem gate_eq (room : builder.nodes.length < 2 ^ 32) (a b : NodeId) (node : Node F) :
    (do CircuitBuilder.checkDefined a
        CircuitBuilder.checkDefined b
        CircuitBuilder.push node : CircuitBuilder.Build F CircuitError NodeId) builder =
      if a.asUsize < builder.nodes.length ∧ b.asUsize < builder.nodes.length then
        .ok (.ofIndex builder.nodes.length, { builder with nodes := builder.nodes ++ [node] })
      else .error .invalidReference := by
  by_cases left : a.asUsize < builder.nodes.length
  · rw [Emission.bind_of_ok (checkDefined_of_lt left)]
    by_cases right : b.asUsize < builder.nodes.length
    · rw [Emission.bind_of_ok (checkDefined_of_lt right), if_pos ⟨left, right⟩, push_eq room]
    · rw [Emission.bind_of_error (checkDefined_of_not right), if_neg fun both => right both.2]
  · rw [Emission.bind_of_error (checkDefined_of_not left), if_neg fun both => left both.1]

/-- What a call answers is kept, and a refused call changes nothing. -/
private theorem serve_of_ok {client : Client F} {next : CircuitBuilder F} {response : Option NodeId}
    (acts : Client.act request client.builder = .ok (response, next)) :
    client.serve request = .ok ⟨next, client.responses ++ [.ok response]⟩ := by
  rw [Client.serve, acts]

private theorem serve_of_error {client : Client F} {failure : CircuitError}
    (refuses : Client.act request client.builder = .error failure) :
    client.serve request = .ok ⟨client.builder, client.responses ++ [.error failure]⟩ := by
  rw [Client.serve, refuses]

/-- An operand has a value where its node is defined. -/
private theorem value_cases {values : List F} {size : ℕ} (length : values.length = size) (id : NodeId) :
    (id.asUsize < size ∧ ∃ value, values[id.asUsize]? = some value) ∨
      (¬id.asUsize < size ∧ values[id.asUsize]? = none) := by
  subst length
  by_cases defined : id.asUsize < values.length
  · exact .inl ⟨defined, _, List.getElem?_eq_getElem defined⟩
  · exact .inr ⟨defined, List.getElem?_eq_none (Nat.le_of_not_lt defined)⟩

end Serving

section Steps

variable {request : Request F}

/-- What a call leads to: at most one more node, and the meaning that the call adds. -/
def Leads (secretInputs publicInputs : List F) (client : Client F) (request : Request F) (meaning : Meaning F) : Prop :=
  ∃ next, client.serve request = .ok next ∧ next.builder.nodes.length ≤ client.builder.nodes.length + 1 ∧
    Means secretInputs publicInputs next meaning

theorem Means.refused (means : Means secretInputs publicInputs client meaning)
    (refuses : Client.act request client.builder = .error .invalidReference) :
    Leads secretInputs publicInputs client request meaning.refuse :=
  ⟨_, serve_of_error refuses, Nat.le_add_right _ _, means.refuse⟩

/-- A gate on two nodes means the operation on their values. -/
theorem Means.gate (means : Means secretInputs publicInputs client meaning)
    (room : client.builder.nodes.length < 2 ^ 32) {a b : NodeId} {node : Node F} {f : F → F → F}
    (operands : node.operands = some (a, b)) (secret : node.isSecretInput = false) (plain : node.isPublicInput = false)
    (evaluates : ∀ cursor left right, meaning.values[a.asUsize]? = some left → meaning.values[b.asUsize]? = some right →
      evaluateNode secretInputs publicInputs meaning.values cursor node = .ok (f left right, cursor))
    (acts : Client.act request = some <$> (do
      CircuitBuilder.checkDefined a
      CircuitBuilder.checkDefined b
      CircuitBuilder.push node)) :
    Leads secretInputs publicInputs client request (meaning.combine f a b) := by
  have made := gate_eq room a b node
  rcases value_cases means.length a with ⟨left, x, foundX⟩ | ⟨left, absent⟩
  · rcases value_cases means.length b with ⟨right, y, foundY⟩ | ⟨right, absent⟩
    · rw [if_pos ⟨left, right⟩] at made
      have earlier : ∀ a' b', node.operands = some (a', b') →
          a'.asUsize < client.builder.nodes.length ∧ b'.asUsize < client.builder.nodes.length := by
        intro a' b' given
        obtain ⟨rfl, rfl⟩ := Prod.mk.inj (Option.some.inj (operands.symm.trans given))
        exact ⟨left, right⟩
      have pushed := @Means.push F _ secretInputs publicInputs client meaning means node (f x y) earlier
      simp only [secret, plain, CircuitBuilder.grown] at pushed
      refine ⟨_, serve_of_ok (acts ▸ Emission.map_of_ok made), by simp, ?_⟩
      rw [Meaning.combine, foundX, foundY]
      exact pushed fun _ => evaluates _ x y foundX foundY
    · rw [if_neg fun both => right both.2] at made
      rw [Meaning.combine, foundX, absent]
      exact means.refused (acts ▸ Emission.map_of_error made)
  · rw [if_neg fun both => left both.1] at made
    rw [Meaning.combine, absent]
    exact means.refused (acts ▸ Emission.map_of_error made)

/-- Each call keeps a client next to the meaning of its calls. -/
theorem Means.serve (means : Means secretInputs publicInputs client meaning)
    (room : client.builder.nodes.length < 2 ^ 32) (request : Request F) :
    Leads secretInputs publicInputs client request (meaning.serve secretInputs publicInputs request) := by
  have leaf : ∀ node : Node F, node.operands = none → ∀ a b, node.operands = some (a, b) →
      a.asUsize < client.builder.nodes.length ∧ b.asUsize < client.builder.nodes.length := by
    intro node none a b some
    rw [none] at some
    cases some
  cases request with
  | secretInput =>
    refine ⟨_, serve_of_ok (Emission.map_of_ok (secretInput_eq room)), grown_length _,
      means.push (leaf .secretInput rfl) ?_⟩
    intro fed
    have read : secretInputs[meaning.secrets]? = some (inputAt secretInputs meaning.secrets) :=
      inputAt_of_lt (means.secrets ▸ fed.1)
    rw [evaluateNode, read]
    rfl
  | publicInput =>
    refine ⟨_, serve_of_ok (Emission.map_of_ok (publicInput_eq room)), grown_length _,
      means.push (leaf .publicInput rfl) ?_⟩
    intro fed
    have read : publicInputs[meaning.publics]? = some (inputAt publicInputs meaning.publics) :=
      inputAt_of_lt (means.publics ▸ fed.2)
    rw [evaluateNode, read]
    rfl
  | constant value =>
    exact ⟨_, serve_of_ok (Emission.map_of_ok (push_eq room (.constant value))), grown_length (.constant value),
      means.push (leaf (.constant value) rfl) fun _ => rfl⟩
  | add a b =>
    apply means.gate room rfl rfl rfl ?_ rfl
    intro cursor left right foundLeft foundRight
    rw [evaluateNode, foundLeft, foundRight]
    rfl
  | mul a b =>
    apply means.gate room rfl rfl rfl ?_ rfl
    intro cursor left right foundLeft foundRight
    rw [evaluateNode, foundLeft, foundRight]
    rfl
  | output id =>
    rcases value_cases means.length id with ⟨defined, value, found⟩ | ⟨undefined, absent⟩
    · have acts : Client.act (.output id) client.builder =
          .ok (none, { client.builder with outputs := client.builder.outputs ++ [id] }) := by
        rw [Client.act, CircuitBuilder.output, bind_assoc, Emission.bind_of_ok (checkDefined_of_lt defined)]
        rfl
      refine ⟨_, serve_of_ok acts, Nat.le_add_right _ _, ?_⟩
      rw [Meaning.serve, found]
      have built := @CircuitBuilder.WellBuilt.mark F client.builder means.built [id] (by simpa using defined)
      refine ⟨built, means.length, means.pass, means.secrets, means.publics, ?_, by rw [means.responses]⟩
      rw [List.map_append, List.map_append, means.outputs, List.map_singleton, List.map_singleton, found]
    · have refuses : Client.act (.output id) client.builder = .error .invalidReference := by
        rw [Client.act, CircuitBuilder.output, bind_assoc, Emission.bind_of_error (checkDefined_of_not undefined)]
      rw [Meaning.serve, absent]
      exact means.refused refuses

theorem Means.run (means : Means secretInputs publicInputs client meaning) {requests : List (Request F)}
    (room : client.builder.nodes.length + requests.length ≤ 2 ^ 32) :
    ∃ last, client.run requests = .ok last ∧
      Means secretInputs publicInputs last (requests.foldl (Meaning.serve secretInputs publicInputs) meaning) := by
  induction requests generalizing client meaning with
  | nil => exact ⟨client, rfl, means⟩
  | cons request rest ih =>
    rw [List.length_cons] at room
    obtain ⟨next, serves, few, means⟩ := means.serve (by omega) request
    obtain ⟨last, runs, means⟩ := ih means (by omega)
    refine ⟨last, ?_, means⟩
    rw [Client.run, List.foldlM_cons, serves, Outcome.ok_bind]
    exact runs

theorem Means.start : Means secretInputs publicInputs Client.start Meaning.start :=
  ⟨CircuitBuilder.new_wellBuilt, rfl, fun _ => rfl, rfl, rfl, rfl, rfl⟩

omit [CommRing F] in
private theorem checkOperands_ok {size index : ℕ} {node : Node F} (bound : index < size)
    (earlier : ∀ a b, node.operands = some (a, b) → a.asUsize < index ∧ b.asUsize < index) :
    Circuit.checkOperands size (node, index) = .ok () := by
  have operand_ok : ∀ id : NodeId, id.asUsize < index → Circuit.checkOperand size index id = .ok () := by
    intro id before
    rw [Circuit.checkOperand, Outcome.reject_of_not (Nat.not_le.mpr (before.trans bound)), Outcome.ok_bind,
      Outcome.reject_of_not (Nat.not_le.mpr before)]
  rw [Circuit.checkOperands]
  cases operands : node.operands with
  | none => rfl
  | some pair =>
    obtain ⟨left, right⟩ := earlier pair.1 pair.2 operands
    simp only [operand_ok _ left, operand_ok _ right, Outcome.ok_bind]

omit [CommRing F] in
/-- All that a builder without an output lacks is an output. -/
theorem CircuitBuilder.WellBuilt.build_missing {builder : CircuitBuilder F} (built : builder.WellBuilt)
    (nothing : builder.outputs = []) : builder.build = .error .missingOutput := by
  have gates : forM builder.nodes.zipIdx (Circuit.checkOperands builder.nodes.length) =
      (.ok () : Outcome CircuitError Unit) := by
    apply Outcome.forM_ok_iff.mpr
    rintro ⟨node, index⟩ listed
    have found := List.mk_mem_zipIdx_iff_getElem?.mp listed
    exact checkOperands_ok (List.getElem?_eq_some_iff.mp found).1 fun a b gate => built.operands index node a b found gate
  have counts : ¬(builder.nodes.countP Node.isSecretInput ≠ builder.numSecretInputs ∨
      builder.nodes.countP Node.isPublicInput ≠ builder.numPublicInputs) := by
    simp [built.secretInputs, built.publicInputs]
  simp only [CircuitBuilder.build, Circuit.validate, gates, Outcome.ok_bind, Outcome.reject_of_not counts, nothing]
  rfl

/-- A client may call a builder in any way, also with nodes that do not exist: the answers
are those of the direct meaning, and the circuit it builds computes the outputs of that
meaning. Only a client that marked no output gets no circuit. -/
theorem Client.build_means (requests : List (Request F)) (room : requests.length ≤ 2 ^ 32) :
    ∃ client, Client.start.run requests = .ok client ∧ ∀ secretInputs publicInputs : List F,
      client.responses = (Meaning.run secretInputs publicInputs requests).responses ∧
      (client.builder.outputs = [] → client.builder.build = .error .missingOutput) ∧
      (client.builder.outputs ≠ [] → ∃ circuit, client.builder.build = .ok circuit ∧
        (secretInputs.length = circuit.numSecretInputs → publicInputs.length = circuit.numPublicInputs →
          evaluateReference circuit secretInputs publicInputs =
            .ok (Meaning.run secretInputs publicInputs requests).outputs)) := by
  have room' : (Client.start : Client F).builder.nodes.length + requests.length ≤ 2 ^ 32 := by
    rw [Client.start, CircuitBuilder.new, List.length_nil, Nat.zero_add]
    exact room
  obtain ⟨client, runs, _⟩ := @Means.run F _ [] [] _ _ Means.start requests room'
  refine ⟨client, runs, ?_⟩
  intro secretInputs publicInputs
  obtain ⟨last, runs', means'⟩ := @Means.run F _ secretInputs publicInputs _ _ Means.start requests room'
  obtain rfl : client = last := Outcome.ok.inj (runs.symm.trans runs')
  refine ⟨means'.responses, means'.built.build_missing, ?_⟩
  intro marked
  obtain ⟨circuit, builds⟩ := means'.built.build_ok marked
  obtain ⟨_, rfl⟩ := CircuitBuilder.build_ok_iff.mp builds
  refine ⟨_, builds, ?_⟩
  intro secretCount publicCount
  have pass := means'.pass ⟨secretCount.ge, publicCount.ge⟩
  have counts : ¬(secretInputs.length ≠ client.builder.numSecretInputs ∨
      publicInputs.length ≠ client.builder.numPublicInputs) := by
    simp [secretCount, publicCount]
  have read : client.builder.outputs.mapM (fun id => (Outcome.expect
      (Meaning.run secretInputs publicInputs requests).values[id.asUsize]? : Outcome CircuitError F)) =
        .ok (Meaning.run secretInputs publicInputs requests).outputs := by
    have found : List.Forall₂ Eq _ _ := List.forall₂_eq_eq_eq ▸ means'.outputs
    apply Outcome.mapM_ok_iff.mpr
    apply (List.forall₂_map_left_iff.mp (List.forall₂_map_right_iff.mp found)).imp
    intro id value here
    exact Outcome.expect_ok_iff.mpr here
  rw [evaluateReference, Outcome.reject_of_not counts, Outcome.ok_bind, pass, Outcome.ok_bind]
  exact read

/-- A client that squares a secret after a call on a node that does not exist. -/
theorem Client.build_means_square :
    ∃ client, Client.start.run [.secretInput, .mul ⟨0⟩ ⟨7⟩, .mul ⟨0⟩ ⟨0⟩, .output ⟨1⟩] = .ok client ∧
      client.responses = [.ok (some ⟨0⟩), .error .invalidReference, .ok (some ⟨1⟩), .ok none] ∧
        (client.builder.outputs ≠ [] → ∃ circuit, client.builder.build = .ok circuit ∧
          (1 = circuit.numSecretInputs → 0 = circuit.numPublicInputs →
            evaluateReference circuit [(-3 : ℤ)] [] = .ok [9])) := by
  obtain ⟨client, runs, means⟩ := Client.build_means
    ([.secretInput, .mul ⟨0⟩ ⟨7⟩, .mul ⟨0⟩ ⟨0⟩, .output ⟨1⟩] : List (Request ℤ)) (by decide)
  obtain ⟨responses, -, builds⟩ := means [-3] []
  exact ⟨client, runs, responses, builds⟩

end Steps

end Refinement

end PaymentAuth
