import PaymentAuth.Policy.Compiled

/-! Compilation never fails on a valid policy. -/

namespace PaymentAuth

open Library

/-- Publishing defined wires and validating a well-built circuit succeeds. -/
theorem Compiler.finish_succeeds {F : Type} [CommRing F] {compiler : Compiler F} {root : NodeId}
    (ready : observer.Ready [root.asUsize] compiler) : ∃ compiled, compiler.finish root = .ok compiled := by
  obtain ⟨⟨⟨built, _⟩, recorded⟩, defined⟩ := ready
  have constraints := fun id member => recorded id (List.mem_append_left _ member)
  have single : ∀ id ∈ [root], id.asUsize < compiler.builder.nodes.length := by simpa [observer] using defined
  have published : ((do
      forM compiler.constraintOutputs CircuitBuilder.output
      CircuitBuilder.output root : CircuitBuilder.Build F CircuitError Unit) compiler.builder) =
        .ok ((), { compiler.builder with
          outputs := compiler.builder.outputs ++ compiler.constraintOutputs ++ [root] }) := by
    refine Emission.bind_ok_iff.mpr ⟨_, _, CircuitBuilder.forM_output_of_defined constraints, ?_⟩
    exact Emission.bind_ok_iff.mpr
      ⟨(), _, CircuitBuilder.checkDefined_ok_iff.mpr ⟨single root (List.mem_singleton_self root), rfl⟩, rfl⟩
  have marked := (built.mark constraints).mark single
  obtain ⟨circuit, finished⟩ := marked.build_ok (by simp)
  unfold finish
  rw [published, Outcome.mapError_ok, Outcome.ok_bind]
  dsimp only
  rw [finished, Outcome.mapError_ok, Outcome.ok_bind]
  exact ⟨_, rfl⟩

/-- Emitting a valid policy succeeds and leaves a compiler that is ready to finish. -/
theorem emitPolicy_of_valid {policy : Policy} (valid : policy.Valid) :
    ∃ (root : NodeId) (compiler : Compiler FieldElement),
      Compiler.emitPolicy policy Compiler.new = .ok (root, compiler) ∧
        Compiler.observer.Ready [root.asUsize] compiler := by
  have emits := @Compiler.wirePolicy_emits fieldOrder _ _ valid.each
  have room := Compiler.policySize_le valid
  rw [maxPolicyNodes] at room
  obtain ⟨⟨root, wiring⟩, compiler, run⟩ := emits.runs Compiler.new Compiler.new_ready
    (show 0 + Compiler.policySize fieldOrder policy ≤ 2 ^ 32 by omega)
  refine ⟨root, compiler, ?_, (emits.ready _ _ _ run Compiler.new_ready).restrict (by simp)⟩
  rw [Compiler.wirePolicy_erase]
  exact Emission.map_ok_iff.mpr ⟨_, run, rfl⟩

/-- A valid policy compiles. -/
theorem compileWithLayout_succeeds {policy : Policy} (valid : policy.normalizeNode.validate = .ok ()) :
    ∃ compiled : CompiledPolicy FieldElement, compileWithLayout policy = .ok compiled := by
  obtain ⟨root, compiler, emits, ready⟩ := emitPolicy_of_valid (Policy.valid_of_validate valid)
  obtain ⟨compiled, finished⟩ := Compiler.finish_succeeds ready
  exact ⟨compiled, by simp [compileWithLayout, Policy.normalize, valid, emits, finished]⟩

end PaymentAuth
