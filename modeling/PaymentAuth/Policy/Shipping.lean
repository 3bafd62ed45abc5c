import PaymentAuth.Circuit.Decoding
import PaymentAuth.Policy.Solving
import PaymentAuth.Policy.Totality

/-! Which compiled policies survive the circuit decoder, whose limit on the number of
nodes is set apart from the limits on policies. -/

namespace PaymentAuth

open Library

/-- The decoder refuses a circuit over its limit by the announced number of nodes. -/
theorem Circuit.deserialize_excessive {p : ℕ} {circuit : Circuit (ZMod p)}
    (many : maxCircuitNodes < circuit.nodes.length) (counted : circuit.nodes.length < 2 ^ 32) :
    (deserialize circuit.encode : Outcome CircuitError (Circuit (ZMod p))) = .error .excessiveSize := by
  have kept : (UInt32.ofNat circuit.nodes.length).toNat = circuit.nodes.length := UInt32.toNat_ofNat_of_lt' counted
  have version (rest : Bytes) : Reader.readU8 CircuitError.unexpectedEnd (circuitEncodingVersion :: rest) =
      .ok (circuitEncodingVersion, rest) := (Reader.readU8_canonical _ _ _ _).mpr ⟨trivial, rfl⟩
  have count (rest : Bytes) : Reader.readU32 CircuitError.unexpectedEnd (toBeBytes 4 circuit.nodes.length ++ rest) =
      .ok (UInt32.ofNat circuit.nodes.length, rest) := by
    apply (Reader.readU32_canonical _ _ _ _).mpr
    constructor
    · trivial
    · dsimp only
      rw [kept]
  have current : Emission.reject (circuitEncodingVersion ≠ circuitEncodingVersion) CircuitError.unsupportedVersion
      (toBeBytes 4 circuit.nodes.length ++ circuit.nodes.flatMap Node.encode ++
        Reader.encodeList NodeId.encode circuit.outputs) = .ok ((), _) :=
    Emission.reject_ok_iff.mpr ⟨not_not.mpr rfl, rfl⟩
  have sections : (readSections : Reader CircuitError (List (Node (ZMod p)) × List NodeId)) circuit.encode =
      .error .excessiveSize := by
    rw [encode_eq, readSections, Emission.bind_of_ok (version _), Reader.encodeList, Emission.bind_of_ok current,
      List.append_assoc, Emission.bind_of_ok (count _)]
    apply Emission.reject_bind_of
    rwa [kept]
  rw [deserialize, Reader.readWhole, sections]
  rfl

section Ships

variable {p : ℕ} [Fact p.Prime] {policy : Policy} {compiled : CompiledPolicy (ZMod p)}

/-- A compiled policy publishes one constraint for each threshold, and its root. -/
theorem Compiled.outputs_length_le {root : NodeId} {wiring : Wiring}
    (correct : Compiled policy compiled root wiring) : compiled.circuit.outputs.length ≤ maxPolicyNodes + 1 := by
  have thresholds : wiring.thresholds.length ≤ wiring.subformulas.length := List.length_filterMap_le _ _
  have nodes := correct.valid.nodes
  rw [← correct.formula, Formula.subformulas_map, List.length_map] at nodes
  rw [correct.outputs, wiring.constraints_eq, List.length_append, List.length_map, List.length_singleton]
  omega

/-- The circuit decoder reads back what the circuit encoder writes. -/
def Circuit.Ships (circuit : Circuit (ZMod p)) : Prop :=
  ∃ bytes, (circuit.serialize : Outcome CircuitError Bytes) = .ok bytes ∧ Circuit.deserialize bytes = .ok circuit

/-- The circuit of a policy can be shipped exactly when the nodes that its normal form
takes keep within the decoder's limit. -/
theorem CompiledPolicy.ships_iff (compiles : compileWithLayout policy = .ok compiled) :
    compiled.circuit.Ships ↔ Compiler.policySize p policy.normalizeNode ≤ maxCircuitNodes := by
  have positive : NeZero p := ⟨(Fact.out : p.Prime).ne_zero⟩
  obtain ⟨root, wiring, correct⟩ := compileWithLayout_ok compiles
  rw [← correct.size]
  constructor
  · rintro ⟨bytes, -, read⟩
    exact (Circuit.deserialize_ok_iff.mp read).2.1
  · intro bounded
    have nodes : compiled.circuit.nodes.length < 2 ^ 32 := bounded.trans_lt (by decide)
    have outputs : compiled.circuit.outputs.length < 2 ^ 32 := correct.outputs_length_le.trans_lt (by decide)
    refine ⟨compiled.circuit.encode, Circuit.serialize_ok_iff.mpr ⟨nodes, outputs, rfl⟩, ?_⟩
    exact Circuit.deserialize_ok_iff.mpr ⟨correct.wellFormed, bounded, outputs, rfl⟩

end Ships

section Crowded

/-- Some of several equal amount caps. -/
def Policy.caps (count : ℕ) : Policy := .threshold ⟨1⟩ (List.replicate count (.amountAtMost ⟨0⟩))

private theorem formula_caps (count : ℕ) :
    (Policy.caps count).formula = .atLeast 1 () (List.replicate count (.leaf (.amountAtMost ⟨0⟩))) := by
  rw [Policy.caps, Policy.formula_threshold, List.map_replicate]
  rfl

private theorem subformulas_caps (count : ℕ) :
    (Policy.caps count).formula.subformulas =
      List.replicate count (.leaf (.amountAtMost ⟨0⟩)) ++ [(Policy.caps count).formula] := by
  rw [formula_caps, Formula.subformulas_atLeast]
  congr 1
  induction count with
  | zero => rfl
  | succ count ih =>
    rw [List.replicate_succ, List.flatMap_cons, ih]
    rfl

/-- Equal members are in order already. -/
private theorem normalizeNode_caps (count : ℕ) : (Policy.caps count).normalizeNode = Policy.caps count := by
  have members : (List.replicate count (Policy.amountAtMost ⟨0⟩)).map Policy.normalizeNode =
      List.replicate count (.amountAtMost ⟨0⟩) := List.map_replicate
  rw [Policy.caps, Policy.normalizeNode_threshold, members]
  exact congrArg _ (List.perm_replicate.mp (Policy.sortByEncoding_perm _))

private theorem validate_caps {count : ℕ} (some : 1 ≤ count) (few : count ≤ maxThresholdMembers) :
    (Policy.caps count).validate = .ok () := by
  rw [maxThresholdMembers] at few
  apply Policy.validate_ok_iff.mpr
  constructor
  · rw [formula_caps, Formula.height_atLeast_le_iff]
    intro member listed
    rw [List.eq_of_mem_replicate listed]
    decide
  · rw [subformulas_caps, List.length_append, List.length_replicate, List.length_singleton, maxPolicyNodes]
    omega
  · rw [subformulas_caps, List.countP_append, List.countP_replicate, formula_caps]
    simp [Policy.isCredential, Policy.directCredential?]
  · intro node inside
    rw [subformulas_caps, formula_caps] at inside
    rcases List.mem_append.mp inside with leaf | root
    · rw [List.eq_of_mem_replicate leaf]
      exact ⟨trivial, trivial⟩
    · rw [List.mem_singleton.mp root]
      constructor
      · simp only [Policy.NodeValid, List.length_replicate, maxThresholdMembers]
        omega
      · simp [Policy.DistinctCredentials, Policy.directCredential?, List.filterMap_replicate]

private theorem policySize_caps (count : ℕ) :
    Compiler.policySize fieldOrder (Policy.caps count) = count * 2608 + (count - 1 + 9) := by
  have each : Compiler.policySize fieldOrder (.amountAtMost ⟨0⟩) = 2608 := by
    rw [Compiler.policySize_amountAtMost, Compiler.fermatCost_fieldOrder, amountBitLen]
  rw [Policy.caps, Compiler.policySize_threshold, List.map_replicate, List.sum_replicate, each, List.length_replicate,
    smul_eq_mul]
  rfl

end Crowded

/-- A credential takes 332 nodes, which the decoder accepts. -/
theorem CompiledPolicy.ships_credential :
    ∃ compiled : CompiledPolicy FieldElement,
      compileWithLayout (.credential (.filled 1)) = .ok compiled ∧ compiled.circuit.Ships := by
  obtain ⟨compiled, compiles⟩ := @compileWithLayout_succeeds (.credential (.filled 1)) (by decide)
  have size : Compiler.policySize fieldOrder (Policy.credential (.filled 1)).normalizeNode = 332 := by
    rw [Policy.normalizeNode, Compiler.policySize_credential, Compiler.fermatCost_fieldOrder]
  refine ⟨compiled, compiles, (CompiledPolicy.ships_iff compiles).mpr ?_⟩
  rw [size]
  decide

/-- A policy of 401 nodes that is valid and compiles to a circuit that is written
but not read: 400 amount caps take 2608 nodes each. -/
theorem CompiledPolicy.not_ships_caps :
    ∃ compiled : CompiledPolicy FieldElement, (Policy.caps 400).validate = .ok () ∧
      compileWithLayout (Policy.caps 400) = .ok compiled ∧ compiled.circuit.nodes.length = 1043608 ∧
      ¬compiled.circuit.Ships ∧
      ∃ bytes, (compiled.circuit.serialize : Outcome CircuitError Bytes) = .ok bytes ∧
        (Circuit.deserialize bytes : Outcome CircuitError (Circuit FieldElement)) = .error .excessiveSize := by
  have valid : (Policy.caps 400).validate = .ok () := validate_caps (by decide) (by decide)
  obtain ⟨compiled, compiles⟩ := @compileWithLayout_succeeds (Policy.caps 400) ((normalizeNode_caps 400).symm ▸ valid)
  obtain ⟨root, wiring, correct⟩ := compileWithLayout_ok compiles
  have size : compiled.circuit.nodes.length = 1043608 := by
    rw [correct.size, normalizeNode_caps, policySize_caps]
  have many : maxCircuitNodes < compiled.circuit.nodes.length := by
    rw [size]
    decide
  have counted : compiled.circuit.nodes.length < 2 ^ 32 := by
    rw [size]
    decide
  have outputs : compiled.circuit.outputs.length < 2 ^ 32 := correct.outputs_length_le.trans_lt (by decide)
  refine ⟨compiled, valid, compiles, size, ?_, compiled.circuit.encode,
    Circuit.serialize_ok_iff.mpr ⟨counted, outputs, rfl⟩, Circuit.deserialize_excessive many counted⟩
  rintro ⟨bytes, -, read⟩
  exact absurd (Circuit.deserialize_ok_iff.mp read).2.1 many.not_ge

end PaymentAuth
