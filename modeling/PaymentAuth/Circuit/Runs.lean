import PaymentAuth.Circuit.Builder
import PaymentAuth.Circuit.Evaluation

/-! Evaluations as valuations of the nodes that read their inputs in order. -/

namespace PaymentAuth

open Library CircuitBuilder

variable {F : Type} [CommRing F]

/-- A valuation that satisfies every gate and holds the inputs at the input leaves. -/
structure Circuit.Runs (circuit : Circuit F) (secrets publics : List F) (value : ℕ → F) : Prop where
  satisfies : Satisfies circuit.nodes value
  secrets : secrets = (secretPositions circuit.nodes).map value
  publics : publics = (publicPositions circuit.nodes).map value

namespace Circuit

variable {circuit : Circuit F} {secrets publics : List F} {value value' : ℕ → F}

omit [CommRing F] in
theorem WellFormed.secretPositions_length (valid : circuit.WellFormed) :
    (secretPositions circuit.nodes).length = circuit.numSecretInputs :=
  valid.secretRank_length

omit [CommRing F] in
theorem WellFormed.publicPositions_length (valid : circuit.WellFormed) :
    (publicPositions circuit.nodes).length = circuit.numPublicInputs :=
  valid.publicRank_length

/-- A run is a solution of the plaintext interpretation of its inputs. -/
theorem Runs.solves (runs : circuit.Runs secrets publics value) :
    circuit.Solves (circuit.plaintext (inputAt secrets) (inputAt publics)) value := by
  intro n node found
  have bound := (List.getElem?_eq_some_iff.mp found).1
  cases node with
  | secretInput =>
    have read : secrets[circuit.secretRank n]? = some (value n) :=
      (eq_map_marked_iff.mp runs.secrets).2 n bound (by simp [found, Node.isSecretInput])
    simp [Interpretation.rule, plaintext, inputAt, read]
  | publicInput =>
    have read : publics[circuit.publicRank n]? = some (value n) :=
      (eq_map_marked_iff.mp runs.publics).2 n bound (by simp [found, Node.isPublicInput])
    simp [Interpretation.rule, plaintext, inputAt, read]
  | constant | add | mul => exact runs.satisfies n _ found

theorem runs_iff (valid : circuit.WellFormed) :
    circuit.Runs secrets publics value ↔
      secrets.length = circuit.numSecretInputs ∧ publics.length = circuit.numPublicInputs ∧
        circuit.Solves (circuit.plaintext (inputAt secrets) (inputAt publics)) value := by
  constructor
  · intro runs
    refine ⟨?_, ?_, runs.solves⟩
    · rw [runs.secrets, List.length_map, valid.secretPositions_length]
    · rw [runs.publics, List.length_map, valid.publicPositions_length]
  · rintro ⟨secretCount, publicCount, solved⟩
    refine ⟨?_, solved.secretInputs_eq valid secretCount, solved.publicInputs_eq valid publicCount⟩
    intro n node found
    have rule := solved n node found
    cases node with
    | secretInput | publicInput => trivial
    | constant | add | mul => exact rule

/-- Inputs lead to at most one value of a node. -/
theorem Runs.unique (valid : circuit.WellFormed) (runs : circuit.Runs secrets publics value)
    (runs' : circuit.Runs secrets publics value') {n : ℕ} (bound : n < circuit.nodes.length) : value n = value' n :=
  runs.solves.unique valid runs'.solves bound

/-- Evaluation returns the outputs of a run. -/
theorem evaluateReference_iff_runs (valid : circuit.WellFormed) {outputs : List F} :
    evaluateReference circuit secrets publics = .ok outputs ↔
      ∃ value, circuit.Runs secrets publics value ∧ outputs = circuit.outputs.map fun id => value id.asUsize := by
  rw [evaluateReference_ok_iff valid]
  constructor
  · rintro ⟨secretCount, publicCount, value, solved, read⟩
    exact ⟨value, (runs_iff valid).mpr ⟨secretCount, publicCount, solved⟩, read⟩
  · rintro ⟨value, runs, read⟩
    obtain ⟨secretCount, publicCount, solved⟩ := (runs_iff valid).mp runs
    exact ⟨secretCount, publicCount, value, solved, read⟩

/-- Inputs in the declared numbers have a run. -/
theorem WellFormed.exists_runs (valid : circuit.WellFormed) (secretCount : secrets.length = circuit.numSecretInputs)
    (publicCount : publics.length = circuit.numPublicInputs) : ∃ value, circuit.Runs secrets publics value :=
  ⟨_, (runs_iff valid).mpr ⟨secretCount, publicCount, valid.valueOf_solves _ 0⟩⟩

end Circuit

end PaymentAuth
