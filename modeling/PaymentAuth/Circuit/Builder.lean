import Mathlib.Algebra.Ring.Defs
import PaymentAuth.Circuit.Evaluation
import PaymentAuth.Circuit.Weight
import PaymentAuth.Library.Construction

namespace PaymentAuth

open Library

/-- Incremental constructor for `Circuit`. -/
structure CircuitBuilder (F : Type) where
  nodes : List (Node F)
  numSecretInputs : ℕ
  numPublicInputs : ℕ
  outputs : List NodeId

namespace CircuitBuilder

variable {F ε : Type}

def new : CircuitBuilder F := ⟨[], 0, 0, []⟩

/-- An action on a builder. -/
abbrev Build (F ε α : Type) := Emission (CircuitBuilder F) ε α

/-- Appends a node; more than `u32` nodes abort. -/
def push (node : Node F) : Build F ε NodeId := fun builder => do
  Outcome.assert (builder.nodes.length < 2 ^ 32)
  .ok (NodeId.ofIndex builder.nodes.length, { builder with nodes := builder.nodes ++ [node] })

/-- Declares a secret input leaf. -/
def secretInput : Build F ε NodeId := do
  modify fun builder => { builder with numSecretInputs := builder.numSecretInputs + 1 }
  push .secretInput

/-- Declares a public input leaf. -/
def publicInput : Build F ε NodeId := do
  modify fun builder => { builder with numPublicInputs := builder.numPublicInputs + 1 }
  push .publicInput

/-- Declares a field constant. -/
def constant (value : F) : Build F ε NodeId := push (.constant value)

/-- Checks that an id refers to an already-defined node. -/
def checkDefined (id : NodeId) : Build F CircuitError Unit := fun builder => do
  Outcome.reject (id.asUsize ≥ builder.nodes.length) .invalidReference
  .ok ((), builder)

/-- Adds a gate computing `a + b`. -/
def add (a b : NodeId) : Build F CircuitError NodeId := do
  checkDefined a
  checkDefined b
  push (.add a b)

/-- Adds a gate computing `a * b`. -/
def mul (a b : NodeId) : Build F CircuitError NodeId := do
  checkDefined a
  checkDefined b
  push (.mul a b)

/-- Marks a node as an output of the circuit. -/
def output (id : NodeId) : Build F CircuitError Unit := do
  checkDefined id
  modify fun builder => { builder with outputs := builder.outputs ++ [id] }

/-- Finalizes and validates the circuit. -/
def build (builder : CircuitBuilder F) : Outcome CircuitError (Circuit F) := do
  let circuit : Circuit F :=
    ⟨builder.nodes, builder.numSecretInputs, builder.numPublicInputs, builder.outputs⟩
  circuit.validate
  .ok circuit

theorem push_ok_iff {node : Node F} {builder final : CircuitBuilder F} {id : NodeId} :
    (push node : Build F ε NodeId) builder = .ok (id, final) ↔
      builder.nodes.length < 2 ^ 32 ∧ NodeId.ofIndex builder.nodes.length = id ∧
        { builder with nodes := builder.nodes ++ [node] } = final := by
  simp only [push, Outcome.bind_ok_iff, Outcome.assert_ok_iff, exists_const, Outcome.ok.injEq, Prod.mk.injEq]

theorem checkDefined_ok_iff {id : NodeId} {builder final : CircuitBuilder F} {result : Unit} :
    checkDefined id builder = .ok (result, final) ↔ id.asUsize < builder.nodes.length ∧ builder = final := by
  simp only [checkDefined, Outcome.bind_ok_iff, Outcome.reject_ok_iff, exists_const, Outcome.ok.injEq,
    Prod.mk.injEq, true_and, not_le]

theorem build_ok_iff {builder : CircuitBuilder F} {circuit : Circuit F} :
    builder.build = .ok circuit ↔ circuit.WellFormed ∧
      circuit = ⟨builder.nodes, builder.numSecretInputs, builder.numPublicInputs, builder.outputs⟩ := by
  simp only [build, Outcome.bind_ok_iff, Circuit.validate_ok_iff, exists_const, Outcome.ok.injEq]
  constructor
  · rintro ⟨valid, rfl⟩
    exact ⟨valid, rfl⟩
  · rintro ⟨valid, rfl⟩
    exact ⟨valid, rfl⟩

/-- Marking outputs changes nothing else. -/
theorem forM_output_ok {ids : List NodeId} {builder final : CircuitBuilder F} {result : PUnit}
    (run : (forM ids output : Build F CircuitError PUnit) builder = .ok (result, final)) :
    final = { builder with outputs := builder.outputs ++ ids } := by
  induction ids generalizing builder with
  | nil =>
    cases run
    simp
  | cons id rest ih =>
    rw [List.forM_cons] at run
    obtain ⟨_, middle, first, others⟩ := Emission.bind_ok_iff.mp run
    obtain ⟨_, _, defined, modified⟩ := Emission.bind_ok_iff.mp first
    obtain ⟨_, rfl⟩ := checkDefined_ok_iff.mp defined
    cases modified
    rw [ih others]
    simp

/-- Marking defined nodes as outputs succeeds. -/
theorem forM_output_of_defined {ids : List NodeId} {builder : CircuitBuilder F}
    (defined : ∀ id ∈ ids, id.asUsize < builder.nodes.length) :
    (forM ids output : Build F CircuitError PUnit) builder =
      .ok (⟨⟩, { builder with outputs := builder.outputs ++ ids }) := by
  induction ids generalizing builder with
  | nil => simp [Emission.pure_ok_iff]
  | cons id rest ih =>
    have first : output id builder = .ok ((), { builder with outputs := builder.outputs ++ [id] }) :=
      Emission.bind_ok_iff.mpr ⟨(), builder, checkDefined_ok_iff.mpr ⟨defined id List.mem_cons_self, rfl⟩, rfl⟩
    have others := @ih { builder with outputs := builder.outputs ++ [id] }
      fun other member => defined other (List.mem_cons_of_mem _ member)
    rw [List.forM_cons]
    refine Emission.bind_ok_iff.mpr ⟨_, _, first, ?_⟩
    rw [others]
    simp

/-- The positions of the secret input leaves, in declaration order. -/
def secretPositions (nodes : List (Node F)) : List ℕ :=
  marked (fun n => nodes[n]?.any Node.isSecretInput) nodes.length

/-- The positions of the public input leaves, in declaration order. -/
def publicPositions (nodes : List (Node F)) : List ℕ :=
  marked (fun n => nodes[n]?.any Node.isPublicInput) nodes.length

private theorem marked_append (nodes : List (Node F)) (node : Node F) (test : Node F → Bool) :
    marked (fun n => (nodes ++ [node])[n]?.any test) (nodes ++ [node]).length =
      marked (fun n => nodes[n]?.any test) nodes.length ++ if test node then [nodes.length] else [] := by
  have before : marked (fun n => (nodes ++ [node])[n]?.any test) nodes.length =
      marked (fun n => nodes[n]?.any test) nodes.length :=
    List.filter_congr fun n member => by rw [List.getElem?_append_left (List.mem_range.mp member)]
  rw [List.length_append, List.length_singleton]
  cases passes : test node with
  | false => rw [marked_succ_of_not (by simp [passes]), before]; simp
  | true => rw [marked_succ_of (by simp [passes]), before]; simp

@[simp] theorem secretPositions_append (nodes : List (Node F)) (node : Node F) :
    secretPositions (nodes ++ [node]) =
      secretPositions nodes ++ if node.isSecretInput then [nodes.length] else [] :=
  marked_append nodes node Node.isSecretInput

@[simp] theorem publicPositions_append (nodes : List (Node F)) (node : Node F) :
    publicPositions (nodes ++ [node]) =
      publicPositions nodes ++ if node.isPublicInput then [nodes.length] else [] :=
  marked_append nodes node Node.isPublicInput

/-- What every step of a construction keeps true. -/
structure WellBuilt (builder : CircuitBuilder F) : Prop where
  operands : ∀ (n : ℕ) (node : Node F) (a b : NodeId), builder.nodes[n]? = some node →
    node.operands = some (a, b) → a.asUsize < n ∧ b.asUsize < n
  secretInputs : builder.nodes.countP Node.isSecretInput = builder.numSecretInputs
  publicInputs : builder.nodes.countP Node.isPublicInput = builder.numPublicInputs
  outputs : ∀ id ∈ builder.outputs, id.asUsize < builder.nodes.length

theorem new_wellBuilt : (new : CircuitBuilder F).WellBuilt := ⟨by simp [new], rfl, rfl, by simp [new]⟩

/-- A well-built builder stays so when it marks defined nodes as outputs. -/
theorem WellBuilt.mark {builder : CircuitBuilder F} (built : builder.WellBuilt) {ids : List NodeId}
    (defined : ∀ id ∈ ids, id.asUsize < builder.nodes.length) :
    WellBuilt { builder with outputs := builder.outputs ++ ids } where
  operands := built.operands
  secretInputs := built.secretInputs
  publicInputs := built.publicInputs
  outputs id member := (List.mem_append.mp member).elim (built.outputs id) (defined id)

/-- Building succeeds once there is an output. -/
theorem WellBuilt.build_ok {builder : CircuitBuilder F} (built : builder.WellBuilt)
    (nonempty : builder.outputs ≠ []) : ∃ circuit, builder.build = .ok circuit :=
  ⟨_, build_ok_iff.mpr ⟨⟨built.operands, built.secretInputs, built.publicInputs, nonempty, built.outputs⟩, rfl⟩⟩

theorem append_wellBuilt {builder : CircuitBuilder F} (built : builder.WellBuilt) {node : Node F}
    (earlier : ∀ a b, node.operands = some (a, b) →
      a.asUsize < builder.nodes.length ∧ b.asUsize < builder.nodes.length) :
    WellBuilt { builder with
      nodes := builder.nodes ++ [node]
      numSecretInputs := builder.numSecretInputs + if node.isSecretInput then 1 else 0
      numPublicInputs := builder.numPublicInputs + if node.isPublicInput then 1 else 0 } where
  operands n other a b found gate := by
    by_cases old : n < builder.nodes.length
    · rw [List.getElem?_append_left old] at found
      exact built.operands n other a b found gate
    · have bound := (List.getElem?_eq_some_iff.mp found).1
      obtain rfl : n = builder.nodes.length := by simp at bound; omega
      obtain rfl : node = other := by simpa using found
      exact earlier a b gate
  secretInputs := by simp [List.countP_append, List.countP_singleton, built.secretInputs]
  publicInputs := by simp [List.countP_append, List.countP_singleton, built.publicInputs]
  outputs id member := (built.outputs id member).trans (by simp)

/-- The input leaves that a builder has declared, by position. -/
structure Ports where
  secrets : List ℕ
  publics : List ℕ

instance : Zero Ports := ⟨⟨[], []⟩⟩

instance : Add Ports := ⟨fun left right => ⟨left.secrets ++ right.secrets, left.publics ++ right.publics⟩⟩

instance : AddMonoid Ports where
  add_assoc a b c := congrArg₂ Ports.mk (List.append_assoc _ _ _) (List.append_assoc _ _ _)
  zero_add _ := rfl
  add_zero a := congrArg₂ Ports.mk (List.append_nil _) (List.append_nil _)
  nsmul := nsmulRec

/-- The input that a node declares at a position. -/
def nodePorts (node : Node F) (n : ℕ) : Ports :=
  ⟨if node.isSecretInput then [n] else [], if node.isPublicInput then [n] else []⟩

instance : Refers NodeId := ⟨fun id => [id.asUsize]⟩

@[simp] theorem points_nodeId (id : NodeId) : Refers.points id = [id.asUsize] := rfl

theorem points_nodes (ids : List NodeId) : Refers.points ids = ids.map NodeId.asUsize := List.map_eq_flatMap.symm

section Emissions

variable [CommRing F] {operands : List ℕ}

/-- The equation a node imposes on a valuation; inputs are free. -/
def Equation (value : ℕ → F) (n : ℕ) : Node F → Prop
  | .secretInput | .publicInput => True
  | .constant constant => value n = constant
  | .add a b => value n = value a.asUsize + value b.asUsize
  | .mul a b => value n = value a.asUsize * value b.asUsize

/-- A valuation of the nodes that satisfies every gate and constant. -/
def Satisfies (nodes : List (Node F)) (value : ℕ → F) : Prop :=
  ∀ (n : ℕ) (node : Node F), nodes[n]? = some node → Equation value n node

theorem satisfies_append_singleton {nodes : List (Node F)} {node : Node F} {value : ℕ → F} :
    Satisfies (nodes ++ [node]) value ↔ Satisfies nodes value ∧ Equation value nodes.length node := by
  constructor
  · intro held
    refine ⟨fun n earlier found => held n earlier ?_, held _ node (by simp)⟩
    rw [List.getElem?_append_left (List.getElem?_eq_some_iff.mp found).1]
    exact found
  · rintro ⟨before, last⟩ n other found
    by_cases earlier : n < nodes.length
    · rw [List.getElem?_append_left earlier] at found
      exact before n other found
    · have bound := (List.getElem?_eq_some_iff.mp found).1
      obtain rfl : n = nodes.length := by simp at bound; omega
      obtain rfl : node = other := by simpa using found
      exact last

/-- What is observed of a builder while gates are emitted: valuations solve them, and no
output is marked yet. -/
def observer : Observer (CircuitBuilder F) (ℕ → F) Ports where
  holds builder value := Satisfies builder.nodes value
  log builder := ⟨secretPositions builder.nodes, publicPositions builder.nodes⟩
  size builder := builder.nodes.length
  weight builder := viewWeights builder.nodes
  sound builder := builder.WellBuilt ∧ builder.outputs = []
  limit := 2 ^ 32

/-- Appending one node, whose kind is counted. -/
private theorem append_emits {node : Node F} {weight : ℕ} {action : Build F ε NodeId}
    (appends : ∀ builder : CircuitBuilder F, action builder = push node { builder with
      numSecretInputs := builder.numSecretInputs + if node.isSecretInput then 1 else 0
      numPublicInputs := builder.numPublicInputs + if node.isPublicInput then 1 else 0 })
    (given : ∀ a b, node.operands = some (a, b) → a.asUsize ∈ operands ∧ b.asUsize ∈ operands)
    (light : ∀ before, viewWeight before node ≤ weight) :
    Emits observer action operands 1 weight (fun id added => added = nodePorts node id.asUsize)
      fun value id => Equation value id.asUsize node where
  runs builder _ room := by
    have small : builder.nodes.length < 2 ^ 32 := room
    exact ⟨_, _, (appends builder).trans (push_ok_iff.mpr ⟨small, rfl, rfl⟩)⟩
  extension builder final id run := by
    rw [appends] at run
    obtain ⟨small, rfl, rfl⟩ := push_ok_iff.mp run
    refine ⟨_, ⟨fun value held => (satisfies_append_singleton.mp held).1, ?_, ?_, ?_⟩, rfl⟩
    · rw [NodeId.asUsize_ofIndex small]
      exact congrArg₂ Ports.mk (secretPositions_append _ _) (publicPositions_append _ _)
    · exact List.length_append
    · exact (viewWeights_concat _ _).trans_le (Nat.add_le_add_left (light _) _)
  ready builder final id run ready := by
    rw [appends] at run
    obtain ⟨small, rfl, rfl⟩ := push_ok_iff.mp run
    obtain ⟨⟨built, unmarked⟩, defined⟩ := ready
    refine ⟨⟨append_wellBuilt built fun a b gate => ?_, unmarked⟩, ?_⟩
    · exact ⟨defined _ (given a b gate).1, defined _ (given a b gate).2⟩
    · rw [points_nodeId, NodeId.asUsize_ofIndex small]
      simp [observer]
  meaning builder final id run value held := by
    rw [appends] at run
    obtain ⟨small, rfl, rfl⟩ := push_ok_iff.mp run
    simpa only [NodeId.asUsize_ofIndex small] using (satisfies_append_singleton.mp held).2

theorem secretInput_emits : Emits observer (secretInput : Build F ε NodeId) operands 1 32
    (fun id added => added = ⟨[id.asUsize], []⟩) fun _ _ => True :=
  append_emits (fun _ => rfl) (by simp [Node.operands]) fun _ => Nat.le_refl _

theorem publicInput_emits : Emits observer (publicInput : Build F ε NodeId) operands 1 0
    (fun id added => added = ⟨[], [id.asUsize]⟩) fun _ _ => True :=
  append_emits (fun _ => rfl) (by simp [Node.operands]) fun _ => Nat.le_refl _

theorem constant_emits (constant : F) : Gate observer (CircuitBuilder.constant constant : Build F ε NodeId) operands 1 0
    fun value id => value id.asUsize = constant :=
  (append_emits (fun _ => rfl) (by simp [Node.operands]) fun _ => Nat.le_refl _).ensuring
    fun _ _ declared => ⟨declared, trivial⟩

theorem checkDefined_emits {id : NodeId} (given : id.asUsize ∈ operands) :
    Gate (observer (F := F)) (checkDefined id) operands 0 0 fun _ _ => True where
  runs builder ready _ := ⟨(), builder, checkDefined_ok_iff.mpr ⟨ready.defined _ given, rfl⟩⟩
  extension builder final result run := by
    obtain ⟨_, rfl⟩ := checkDefined_ok_iff.mp run
    exact ⟨0, Extends.refl builder, rfl, trivial⟩
  ready builder final result run ready := by
    obtain ⟨_, rfl⟩ := checkDefined_ok_iff.mp run
    exact ready.restrict fun k member => by cases member
  meaning _ _ _ _ _ _ := trivial

/-- A gate over two defined operands. -/
private theorem gate_emits {a b : NodeId} (left : a.asUsize ∈ operands) (right : b.asUsize ∈ operands) {node : Node F}
    {weight : ℕ} (secret : node.isSecretInput = false) (plain : node.isPublicInput = false)
    (gate : node.operands = some (a, b)) (light : ∀ before, viewWeight before node ≤ weight) :
    Gate observer (do checkDefined a; checkDefined b; push node : Build F CircuitError NodeId) operands 1 weight
      fun value id => Equation value id.asUsize node := by
  have pushed : Gate observer (push node : Build F CircuitError NodeId) operands 1 weight
      fun value id => Equation value id.asUsize node := by
    refine (append_emits (fun builder => ?_) (fun a' b' operands' => ?_) light).ensuring fun id added declared => ?_
    · rw [secret, plain]
      rfl
    · rw [gate, Option.some.injEq, Prod.mk.injEq] at operands'
      obtain ⟨rfl, rfl⟩ := operands'
      exact ⟨left, right⟩
    · rw [declared, nodePorts, secret, plain]
      exact ⟨rfl, trivial⟩
  refine ((checkDefined_emits left).bind fun _ _ => (checkDefined_emits right).bind fun _ _ =>
    pushed.implies ?_).within rfl (by omega)
  exact fun _ _ equation _ _ => equation

theorem add_emits {a b : NodeId} (left : a.asUsize ∈ operands) (right : b.asUsize ∈ operands) :
    Gate observer (add a b : Build F CircuitError NodeId) operands 1 37
      fun value id => value id.asUsize = value a.asUsize + value b.asUsize :=
  gate_emits left right rfl rfl rfl fun _ => Nat.le_refl _

theorem mul_emits {a b : NodeId} (left : a.asUsize ∈ operands) (right : b.asUsize ∈ operands) :
    Gate observer (mul a b : Build F CircuitError NodeId) operands 1 265
      fun value id => value id.asUsize = value a.asUsize * value b.asUsize :=
  gate_emits left right rfl rfl rfl fun before => viewWeight_mul_le before a b

end Emissions

/-- A product with a constant that was just declared. -/
theorem weight_scaled {value : F} {node c id : NodeId} {builder middle final : CircuitBuilder F}
    (declared : (constant value : Build F ε NodeId) builder = .ok (c, middle))
    (multiplied : mul node c middle = .ok (id, final)) : viewWeights final.nodes ≤ viewWeights builder.nodes + 69 := by
  obtain ⟨small, rfl, rfl⟩ := push_ok_iff.mp declared
  obtain ⟨_, _, defined, run⟩ := Emission.bind_ok_iff.mp multiplied
  obtain ⟨_, rfl⟩ := checkDefined_ok_iff.mp defined
  obtain ⟨_, _, defined', run⟩ := Emission.bind_ok_iff.mp run
  obtain ⟨_, rfl⟩ := checkDefined_ok_iff.mp defined'
  obtain ⟨-, -, rfl⟩ := push_ok_iff.mp run
  have known : (builder.nodes ++ [Node.constant value])[(NodeId.ofIndex builder.nodes.length).asUsize]?.any
      Node.isConstant = true := by
    rw [NodeId.asUsize_ofIndex small]
    simp [Node.isConstant]
  have light :
      viewWeight (builder.nodes ++ [Node.constant value]) (.mul node (.ofIndex builder.nodes.length)) = 69 := by
    rw [viewWeight, known, Bool.or_true, if_pos rfl]
  rw [viewWeights_concat, light, viewWeights_concat]
  exact Nat.le_refl _

end CircuitBuilder

end PaymentAuth
