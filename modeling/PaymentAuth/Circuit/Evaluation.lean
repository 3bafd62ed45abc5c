import Mathlib.Algebra.Ring.Defs
import PaymentAuth.Circuit.Semantics
import PaymentAuth.Library.ForwardPass

namespace PaymentAuth

open Library

variable {F : Type} [CommRing F]

/-- The positions of the next unread secret and public inputs. -/
structure InputCursor where
  nextSecret : ℕ
  nextPublic : ℕ

/-- Evaluates one node over the values of the earlier nodes. -/
def evaluateNode (secretInputs publicInputs values : List F) (cursor : InputCursor) :
    Node F → Outcome CircuitError (F × InputCursor)
  | .secretInput => do
    let value ← Outcome.expect secretInputs[cursor.nextSecret]?
    .ok (value, { cursor with nextSecret := cursor.nextSecret + 1 })
  | .publicInput => do
    let value ← Outcome.expect publicInputs[cursor.nextPublic]?
    .ok (value, { cursor with nextPublic := cursor.nextPublic + 1 })
  | .constant value => .ok (value, cursor)
  | .add a b => do
    let left ← Outcome.expect values[a.asUsize]?
    let right ← Outcome.expect values[b.asUsize]?
    .ok (left + right, cursor)
  | .mul a b => do
    let left ← Outcome.expect values[a.asUsize]?
    let right ← Outcome.expect values[b.asUsize]?
    .ok (left * right, cursor)

/-- Evaluates a circuit over plaintext field elements, in one forward pass. -/
def evaluateReference (circuit : Circuit F) (secretInputs publicInputs : List F) :
    Outcome CircuitError (List F) := do
  Outcome.reject
    (secretInputs.length ≠ circuit.numSecretInputs ∨ publicInputs.length ≠ circuit.numPublicInputs)
    .invalidInputCount
  let (values, _) ← forwardPass (evaluateNode secretInputs publicInputs) circuit.nodes [] ⟨0, 0⟩
  circuit.outputs.mapM fun id => Outcome.expect values[id.asUsize]?

/-- The plaintext interpretation of a circuit. -/
def Circuit.plaintext (circuit : Circuit F) (secrets publics : ℕ → F) : Interpretation F F where
  secretInput n := secrets (circuit.secretRank n)
  publicInput n := publics (circuit.publicRank n)
  constant value := value
  add _ left right := left + right
  mul _ left right := left * right

/-- Missing inputs read as zero; a validated circuit never reads one. -/
def inputAt (inputs : List F) (index : ℕ) : F := inputs.getD index 0

theorem inputAt_of_lt {inputs : List F} {index : ℕ} (bound : index < inputs.length) :
    inputs[index]? = some (inputAt inputs index) := by
  simp [inputAt, bound]

section Refinement

variable {circuit : Circuit F} {secretInputs publicInputs values : List F}

/-- Each node advances the cursor past the input it reads. -/
private theorem evaluateNode_next {cursor next : InputCursor} {node : Node F} {value : F}
    (success : evaluateNode secretInputs publicInputs values cursor node = .ok (value, next)) :
    next = ⟨cursor.nextSecret + if node.isSecretInput then 1 else 0,
      cursor.nextPublic + if node.isPublicInput then 1 else 0⟩ := by
  cases node <;>
    simp only [evaluateNode, Outcome.bind_ok_iff, Outcome.ok.injEq, Prod.mk.injEq] at success
  case secretInput | publicInput => obtain ⟨_, _, _, rfl⟩ := success; rfl
  case constant => obtain ⟨_, rfl⟩ := success; rfl
  case add | mul => obtain ⟨_, _, _, _, _, rfl⟩ := success; rfl

/-- The values of a completed pass solve the circuit's equations. -/
private theorem solves_of_trace {states : ℕ → InputCursor}
    (trace : Trace (evaluateNode secretInputs publicInputs) circuit.nodes values states)
    (start : states 0 = ⟨0, 0⟩) :
    circuit.Solves (circuit.plaintext (inputAt secretInputs) (inputAt publicInputs)) (inputAt values) := by
  have cursors := trace.invariant
    (fun n cursor => cursor = ⟨circuit.secretRank n, circuit.publicRank n⟩) (by rw [start]; rfl) (by
      intro n node value found here cursor success
      rw [evaluateNode_next success, cursor, Circuit.secretRank_succ found,
        Circuit.publicRank_succ found])
  intro n node found
  obtain ⟨value, here, success⟩ := trace.step n node found
  rw [cursors n (List.getElem?_eq_some_iff.mp found).1.le] at success
  have read_getD {items : List F} {k : ℕ} {item : F} (read : items[k]? = some item) :
      inputAt items k = item := by
    simp [inputAt, read]
  have read_take {k : ℕ} {item : F} (read : (values.take n)[k]? = some item) :
      inputAt values k = item := by
    rw [List.getElem?_take] at read
    split at read
    · exact read_getD read
    · cases read
  rw [read_getD here]
  cases node with
  | secretInput | publicInput =>
    simp only [evaluateNode, Outcome.bind_ok_iff, Outcome.expect_ok_iff, Outcome.ok.injEq,
      Prod.mk.injEq] at success
    obtain ⟨input, read, rfl, -⟩ := success
    exact (read_getD read).symm
  | constant =>
    simp only [evaluateNode, Outcome.ok.injEq, Prod.mk.injEq] at success
    exact success.1.symm
  | add a b | mul a b =>
    simp only [evaluateNode, Outcome.bind_ok_iff, Outcome.expect_ok_iff, Outcome.ok.injEq,
      Prod.mk.injEq] at success
    obtain ⟨left, readLeft, right, readRight, rfl, -⟩ := success
    rw [Interpretation.rule, read_take readLeft, read_take readRight]
    rfl

/-- An assignment that solves the equations is what the pass computes. -/
theorem forwardPass_of_solves (valid : circuit.WellFormed)
    (secretCount : secretInputs.length = circuit.numSecretInputs)
    (publicCount : publicInputs.length = circuit.numPublicInputs) {value : ℕ → F}
    (solved : circuit.Solves (circuit.plaintext (inputAt secretInputs) (inputAt publicInputs)) value) :
    ∃ final, forwardPass (evaluateNode secretInputs publicInputs) circuit.nodes [] ⟨0, 0⟩ =
      .ok ((List.range circuit.nodes.length).map value, final) := by
  refine ⟨_, forwardPass_ok_iff.mpr
    ⟨fun n => ⟨circuit.secretRank n, circuit.publicRank n⟩, ⟨by simp, ?_⟩, rfl, rfl⟩⟩
  intro n node found
  have bound := (List.getElem?_eq_some_iff.mp found).1
  refine ⟨value n, by simp [bound], ?_⟩
  rw [solved n node found, Circuit.secretRank_succ found, Circuit.publicRank_succ found]
  have earlier {k : ℕ} (small : k < n) :
      (((List.range circuit.nodes.length).map value).take n)[k]? = some (value k) := by
    simp [small, show k < circuit.nodes.length by omega]
  cases node with
  | secretInput =>
    have read := inputAt_of_lt (secretCount ▸ valid.secretRank_lt found)
    simp [evaluateNode, read, Interpretation.rule, Circuit.plaintext, Node.isSecretInput, Node.isPublicInput]
  | publicInput =>
    have read := inputAt_of_lt (publicCount ▸ valid.publicRank_lt found)
    simp [evaluateNode, read, Interpretation.rule, Circuit.plaintext, Node.isSecretInput, Node.isPublicInput]
  | constant => simp [evaluateNode, Interpretation.rule, Circuit.plaintext, Node.isSecretInput, Node.isPublicInput]
  | add a b | mul a b =>
    obtain ⟨left, right⟩ := valid.operands n _ a b found rfl
    simp [evaluateNode, earlier left, earlier right, Interpretation.rule, Circuit.plaintext, Node.isSecretInput,
      Node.isPublicInput]

/-- A pass over a validated circuit succeeds exactly with the values that solve its equations. -/
theorem forwardPass_evaluateNode_iff (valid : circuit.WellFormed)
    (secretCount : secretInputs.length = circuit.numSecretInputs)
    (publicCount : publicInputs.length = circuit.numPublicInputs) :
    (∃ final, forwardPass (evaluateNode secretInputs publicInputs) circuit.nodes [] ⟨0, 0⟩ = .ok (values, final)) ↔
      values.length = circuit.nodes.length ∧
        circuit.Solves (circuit.plaintext (inputAt secretInputs) (inputAt publicInputs)) (inputAt values) := by
  constructor
  · rintro ⟨final, run⟩
    obtain ⟨states, trace, start, -⟩ := forwardPass_ok_iff.mp run
    exact ⟨trace.length, solves_of_trace trace start⟩
  · rintro ⟨size, solved⟩
    obtain ⟨final, run⟩ := forwardPass_of_solves valid secretCount publicCount solved
    have same : (List.range circuit.nodes.length).map (inputAt values) = values := by
      refine List.ext_getElem (by simp [size]) fun n below _ => ?_
      have inside : n < values.length := by simpa [size] using below
      simp [inputAt, inside]
    exact ⟨final, by rw [run, same]⟩

/-- Evaluation of a validated circuit returns the outputs of the unique
assignment that solves its equations. -/
theorem evaluateReference_ok_iff (valid : circuit.WellFormed) {outputs : List F} :
    evaluateReference circuit secretInputs publicInputs = .ok outputs ↔
      secretInputs.length = circuit.numSecretInputs ∧
        publicInputs.length = circuit.numPublicInputs ∧
        ∃ value, circuit.Solves (circuit.plaintext (inputAt secretInputs) (inputAt publicInputs)) value ∧
          outputs = circuit.outputs.map fun id => value id.asUsize := by
  simp only [evaluateReference, Outcome.bind_ok_iff, Outcome.reject_ok_iff, exists_const, not_or,
    not_not, and_assoc, Prod.exists]
  refine and_congr_right fun secretCount => and_congr_right fun publicCount => ?_
  constructor
  · rintro ⟨values, final, run, read⟩
    obtain ⟨states, trace, start, -⟩ := forwardPass_ok_iff.mp run
    refine ⟨inputAt values, solves_of_trace trace start, ?_⟩
    refine Outcome.eq_map_of_mapM_ok _ read fun id result found => ?_
    rw [Outcome.expect_ok_iff] at found
    simp [inputAt, found]
  · rintro ⟨value, solved, rfl⟩
    obtain ⟨final, run⟩ := forwardPass_of_solves valid secretCount publicCount solved
    refine ⟨_, final, run, Outcome.mapM_ok_of_forall _ ?_⟩
    intro id member
    simp [valid.outputs id member]

theorem evaluateReference_of_solves (valid : circuit.WellFormed)
    (secretCount : secretInputs.length = circuit.numSecretInputs)
    (publicCount : publicInputs.length = circuit.numPublicInputs) {value : ℕ → F}
    (solved : circuit.Solves (circuit.plaintext (inputAt secretInputs) (inputAt publicInputs)) value) :
    evaluateReference circuit secretInputs publicInputs =
      .ok (circuit.outputs.map fun id => value id.asUsize) :=
  (evaluateReference_ok_iff valid).mpr ⟨secretCount, publicCount, value, solved, rfl⟩

/-- The secret inputs are the values of the secret input leaves, in order. -/
theorem Circuit.Solves.secretInputs_eq (valid : circuit.WellFormed)
    (secretCount : secretInputs.length = circuit.numSecretInputs) {publics value : ℕ → F}
    (solved : circuit.Solves (circuit.plaintext (inputAt secretInputs) publics) value) :
    secretInputs = (marked circuit.isSecretInput circuit.nodes.length).map value := by
  refine eq_map_marked_iff.mpr ⟨secretCount.trans valid.secretRank_length.symm, fun n bound here => ?_⟩
  have found := List.getElem?_eq_getElem bound
  rw [Circuit.isSecretInput, found, Option.any_some] at here
  cases shape : circuit.nodes[n] with
  | secretInput =>
    rw [shape] at found
    rw [solved n _ found]
    exact inputAt_of_lt (secretCount ▸ valid.secretRank_lt found)
  | publicInput | constant | add | mul => simp [shape, Node.isSecretInput] at here

/-- The public inputs are the values of the public input leaves, in order. -/
theorem Circuit.Solves.publicInputs_eq (valid : circuit.WellFormed)
    (publicCount : publicInputs.length = circuit.numPublicInputs) {secrets value : ℕ → F}
    (solved : circuit.Solves (circuit.plaintext secrets (inputAt publicInputs)) value) :
    publicInputs = (marked circuit.isPublicInput circuit.nodes.length).map value := by
  refine eq_map_marked_iff.mpr ⟨publicCount.trans valid.publicRank_length.symm, fun n bound here => ?_⟩
  have found := List.getElem?_eq_getElem bound
  rw [Circuit.isPublicInput, found, Option.any_some] at here
  cases shape : circuit.nodes[n] with
  | publicInput =>
    rw [shape] at found
    rw [solved n _ found]
    exact inputAt_of_lt (publicCount ▸ valid.publicRank_lt found)
  | secretInput | constant | add | mul => simp [shape, Node.isPublicInput] at here

end Refinement

end PaymentAuth
