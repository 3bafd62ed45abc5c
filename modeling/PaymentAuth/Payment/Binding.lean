import PaymentAuth.Circuit.Runs
import PaymentAuth.Payment.Wiring

/-! What the bound circuit computes: the constraints of the compiled policy and
its root times the product of the binding values. -/

namespace PaymentAuth

open Library CircuitBuilder

section Append

variable {F : Type}

/-- Every gate reads earlier nodes only. -/
def ReadsEarlier (nodes : List (Node F)) : Prop :=
  ∀ (n : ℕ) (node : Node F) (a b : NodeId), nodes[n]? = some node → node.operands = some (a, b) →
    a.asUsize < n ∧ b.asUsize < n

theorem readsEarlier_append_singleton {nodes : List (Node F)} {node : Node F} :
    ReadsEarlier (nodes ++ [node]) ↔ ReadsEarlier nodes ∧ ∀ a b, node.operands = some (a, b) →
      a.asUsize < nodes.length ∧ b.asUsize < nodes.length := by
  constructor
  · intro held
    refine ⟨fun n earlier a b found => held n earlier a b ?_, fun a b => held _ node a b (by simp)⟩
    rw [List.getElem?_append_left (List.getElem?_eq_some_iff.mp found).1]
    exact found
  · rintro ⟨before, last⟩ n other a b found
    by_cases inside : n < nodes.length
    · rw [List.getElem?_append_left inside] at found
      exact before n other a b found
    · have bound := (List.getElem?_eq_some_iff.mp found).1
      obtain rfl : n = nodes.length := by
        rw [List.length_append, List.length_singleton] at bound
        omega
      rw [List.getElem?_concat_length] at found
      cases found
      exact last a b

end Append

variable {base : Circuit FieldElement} {root : NodeId}

theorem boundCircuit_length (base : Circuit FieldElement) (root : NodeId) :
    (boundCircuit base root).nodes.length = base.nodes.length + 8 := by
  simp [boundCircuit]

/-- Binding a well-formed circuit gives a well-formed circuit. -/
theorem boundCircuit_wellFormed (valid : base.WellFormed) (last : base.outputs.getLast? = some root)
    (room : base.nodes.length + 8 ≤ 2 ^ 32) : (boundCircuit base root).WellFormed := by
  have rootBound := valid.outputs root (List.mem_of_getLast? last)
  have placed (k : ℕ) (small : k < 8) :
      (NodeId.ofIndex (base.nodes.length + k)).asUsize = base.nodes.length + k :=
    NodeId.asUsize_ofIndex (by omega)
  have first : (NodeId.ofIndex base.nodes.length).asUsize = base.nodes.length := placed 0 (by omega)
  have operands : ReadsEarlier (boundCircuit base root).nodes := by
    simp only [boundCircuit, readsEarlier_append_singleton, Node.operands, Option.some.injEq, Prod.mk.injEq,
      List.length_append, List.length_singleton, reduceCtorEq, false_implies, implies_true, and_true]
    refine ⟨⟨⟨⟨valid.operands, ?_⟩, ?_⟩, ?_⟩, ?_⟩
    all_goals
      rintro a b ⟨rfl, rfl⟩
      simp only [placed, first, Nat.reduceLT]
      omega
  refine ⟨operands, ?_, ?_, ?_, ?_⟩
  · simp [boundCircuit, List.countP_append, Node.isSecretInput, valid.secretInputs]
  · simp [boundCircuit, List.countP_append, List.countP_cons, Node.isPublicInput, valid.publicInputs]
  · simp [boundCircuit]
  · intro id member
    rw [boundCircuit_length]
    rcases List.mem_append.mp member with earlier | final
    · exact (valid.outputs id (List.mem_of_mem_dropLast earlier)).trans (by omega)
    · obtain rfl := List.mem_singleton.mp final
      rw [placed 7 (by omega)]
      omega

/-- A run of the bound circuit is a run of the unbound one whose root the binding values multiply. -/
theorem boundCircuit_runs (valid : base.WellFormed)
    (room : base.nodes.length + 8 ≤ 2 ^ 32) {secrets publics : List FieldElement} {b₁ b₂ b₃ b₄ : FieldElement}
    {value : ℕ → FieldElement} (publicCount : publics.length = base.numPublicInputs)
    (runs : (boundCircuit base root).Runs secrets (publics ++ [b₁, b₂, b₃, b₄]) value) :
    base.Runs secrets publics value ∧
      value (base.nodes.length + 7) = value root.asUsize * (b₁ * b₂ * b₃ * b₄) := by
  have placed (k : ℕ) (small : k < 8) :
      (NodeId.ofIndex (base.nodes.length + k)).asUsize = base.nodes.length + k :=
    NodeId.asUsize_ofIndex (by omega)
  have first : (NodeId.ofIndex base.nodes.length).asUsize = base.nodes.length := placed 0 (by omega)
  obtain ⟨satisfies, secretValues, publicValues⟩ := runs
  simp only [boundCircuit, satisfies_append_singleton, Equation, List.length_append, List.length_singleton, placed,
    first, Nat.reduceLT, and_true, Nat.add_assoc, Nat.reduceAdd] at satisfies
  obtain ⟨⟨⟨⟨held, product⟩, product'⟩, product''⟩, final⟩ := satisfies
  simp only [boundCircuit, secretPositions_append, Node.isSecretInput, Bool.false_eq_true, if_false,
    List.append_nil] at secretValues
  simp only [boundCircuit, publicPositions_append, Node.isPublicInput, Bool.false_eq_true, if_false, if_true,
    List.append_nil, List.length_append, List.length_singleton, Nat.add_assoc, Nat.reduceAdd] at publicValues
  simp only [List.append_assoc, List.map_append, List.map_cons, List.map_nil, List.cons_append, List.nil_append]
    at publicValues
  obtain ⟨policyValues, bindings⟩ := List.append_inj publicValues
    (by rw [List.length_map, valid.publicPositions_length, publicCount])
  simp only [List.cons.injEq, and_true] at bindings
  obtain ⟨rfl, rfl, rfl, rfl⟩ := bindings
  exact ⟨⟨held, secretValues, policyValues⟩, by rw [final, product'', product', product]⟩

/-- The bound circuit evaluates to the constraints of the unbound one and its root
times the product of the binding values. -/
theorem boundCircuit_evaluates (valid : base.WellFormed) (last : base.outputs.getLast? = some root)
    (room : base.nodes.length + 8 ≤ 2 ^ 32) {secrets publics outputs : List FieldElement}
    {b₁ b₂ b₃ b₄ : FieldElement} (publicCount : publics.length = base.numPublicInputs) :
    evaluateReference (boundCircuit base root) secrets (publics ++ [b₁, b₂, b₃, b₄]) = .ok outputs ↔
      ∃ constraints r, evaluateReference base secrets publics = .ok (constraints ++ [r]) ∧
        outputs = constraints ++ [r * (b₁ * b₂ * b₃ * b₄)] := by
  have bound := boundCircuit_wellFormed valid last room
  have split : base.outputs = base.outputs.dropLast ++ [root] :=
    (List.dropLast_append_getLast? root last).symm
  have placed : (NodeId.ofIndex (base.nodes.length + 7)).asUsize = base.nodes.length + 7 :=
    NodeId.asUsize_ofIndex (by omega)
  have forward {outputs : List FieldElement}
      (evaluated : evaluateReference (boundCircuit base root) secrets (publics ++ [b₁, b₂, b₃, b₄]) = .ok outputs) :
      ∃ constraints r, evaluateReference base secrets publics = .ok (constraints ++ [r]) ∧
        outputs = constraints ++ [r * (b₁ * b₂ * b₃ * b₄)] := by
    obtain ⟨value, runs, rfl⟩ := (Circuit.evaluateReference_iff_runs bound).mp evaluated
    obtain ⟨inner, final⟩ := boundCircuit_runs valid room publicCount runs
    refine ⟨base.outputs.dropLast.map fun id => value id.asUsize, value root.asUsize, ?_, ?_⟩
    · refine (Circuit.evaluateReference_iff_runs valid).mpr ⟨value, inner, ?_⟩
      conv_rhs => rw [split, List.map_append]
      rfl
    · rw [← final, boundCircuit, List.map_append, List.map_singleton, placed]
  constructor
  · exact forward
  · rintro ⟨constraints, r, evaluated, rfl⟩
    obtain ⟨value, inner, _⟩ := (Circuit.evaluateReference_iff_runs valid).mp evaluated
    have secretCount := ((Circuit.runs_iff valid).mp inner).1
    obtain ⟨value', runs⟩ := @Circuit.WellFormed.exists_runs _ _ (boundCircuit base root) secrets
      (publics ++ [b₁, b₂, b₃, b₄]) bound secretCount (by rw [List.length_append, publicCount]; rfl)
    have evaluated' := (Circuit.evaluateReference_iff_runs bound).mpr ⟨value', runs, rfl⟩
    obtain ⟨constraints', r', evaluatedBase, same⟩ := forward evaluated'
    rw [evaluated, Outcome.ok.injEq] at evaluatedBase
    obtain ⟨rfl, last⟩ := List.append_inj' evaluatedBase rfl
    obtain rfl := List.singleton_inj.mp last
    rw [evaluated', same]

end PaymentAuth
