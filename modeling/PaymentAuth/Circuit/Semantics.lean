import PaymentAuth.Circuit.Basic

/-! Interpretations of circuits: every forward pass over the nodes assigns them
values by the rules of one interpretation. -/

namespace PaymentAuth

variable {F : Type} {α β : Type}

/-- How an interpretation values leaves and gates; positions tell inputs,
triples and operations apart. -/
structure Interpretation (F α : Type) where
  secretInput : ℕ → α
  publicInput : ℕ → α
  constant : F → α
  add : ℕ → α → α → α
  mul : ℕ → α → α → α

/-- The value of a node from the values of the nodes before it. -/
def Interpretation.rule (meaning : Interpretation F α) (value : ℕ → α) (n : ℕ) : Node F → α
  | .secretInput => meaning.secretInput n
  | .publicInput => meaning.publicInput n
  | .constant constant => meaning.constant constant
  | .add a b => meaning.add n (value a.asUsize) (value b.asUsize)
  | .mul a b => meaning.mul n (value a.asUsize) (value b.asUsize)

namespace Circuit

variable {circuit : Circuit F} {n : ℕ}

/-- An assignment of values to nodes that follows the rule at every node. -/
def Solves (circuit : Circuit F) (meaning : Interpretation F α) (value : ℕ → α) : Prop :=
  ∀ (n : ℕ) (node : Node F), circuit.nodes[n]? = some node → value n = meaning.rule value n node

/-- Induction over the nodes of a validated circuit: a property of positions that
every node inherits from its operands holds at every node. -/
theorem WellFormed.node_induction (valid : circuit.WellFormed) (Holds : ℕ → Prop)
    (secretInput : ∀ n, circuit.nodes[n]? = some .secretInput → Holds n)
    (publicInput : ∀ n, circuit.nodes[n]? = some .publicInput → Holds n)
    (constant : ∀ n c, circuit.nodes[n]? = some (.constant c) → Holds n)
    (add : ∀ n a b, circuit.nodes[n]? = some (.add a b) → Holds a.asUsize → Holds b.asUsize → Holds n)
    (mul : ∀ n a b, circuit.nodes[n]? = some (.mul a b) → Holds a.asUsize → Holds b.asUsize → Holds n)
    (bound : n < circuit.nodes.length) : Holds n := by
  induction n using Nat.strong_induction_on with
  | _ n ih =>
    have found := List.getElem?_eq_getElem bound
    have earlier (a b : NodeId) (gate : circuit.nodes[n].operands = some (a, b)) :
        Holds a.asUsize ∧ Holds b.asUsize := by
      obtain ⟨left, right⟩ := valid.operands n _ a b found gate
      exact ⟨ih _ left (by omega), ih _ right (by omega)⟩
    cases shape : circuit.nodes[n] with
    | secretInput => exact secretInput n (by rw [found, shape])
    | publicInput => exact publicInput n (by rw [found, shape])
    | constant c => exact constant n c (by rw [found, shape])
    | add a b =>
      obtain ⟨left, right⟩ := earlier a b (by rw [shape]; rfl)
      exact add n a b (by rw [found, shape]) left right
    | mul a b =>
      obtain ⟨left, right⟩ := earlier a b (by rw [shape]; rfl)
      exact mul n a b (by rw [found, shape]) left right

/-- At most one assignment follows an interpretation. -/
theorem Solves.unique (valid : circuit.WellFormed) {meaning : Interpretation F α} {first second : ℕ → α}
    (solved : circuit.Solves meaning first) (solved' : circuit.Solves meaning second)
    (bound : n < circuit.nodes.length) : first n = second n := by
  refine valid.node_induction (fun n => first n = second n)
    ?secretInput ?publicInput ?constant ?add ?mul bound
  case secretInput | publicInput => exact fun n found => (solved n _ found).trans (solved' n _ found).symm
  case constant => exact fun n c found => (solved n _ found).trans (solved' n _ found).symm
  case add | mul =>
    intro n a b found left right
    rw [solved n _ found, solved' n _ found, Interpretation.rule, Interpretation.rule, left, right]

/-- The assignment that follows an interpretation, read off node by node. -/
def valueOf (circuit : Circuit F) (meaning : Interpretation F α) (default : α) (n : ℕ) : α :=
  let earlier := fun id : NodeId =>
    if id.asUsize < n then valueOf circuit meaning default id.asUsize else default
  match circuit.nodes[n]? with
  | none => default
  | some .secretInput => meaning.secretInput n
  | some .publicInput => meaning.publicInput n
  | some (.constant constant) => meaning.constant constant
  | some (.add a b) => meaning.add n (earlier a) (earlier b)
  | some (.mul a b) => meaning.mul n (earlier a) (earlier b)

theorem WellFormed.valueOf_solves (valid : circuit.WellFormed) (meaning : Interpretation F α)
    (default : α) : circuit.Solves meaning (circuit.valueOf meaning default) := by
  intro n node found
  rw [valueOf]
  cases node with
  | secretInput | publicInput | constant => simp [found, Interpretation.rule]
  | add a b | mul a b =>
    obtain ⟨left, right⟩ := valid.operands n _ a b found rfl
    simp [found, Interpretation.rule, left, right]

end Circuit

end PaymentAuth
