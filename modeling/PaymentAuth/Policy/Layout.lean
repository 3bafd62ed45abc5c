import PaymentAuth.Policy.Compiler

/-! What a compiler declares while it emits gates: inputs with their slots, inversion
targets and constraints. -/

namespace PaymentAuth

open Library

def SecretSlot.isAuxiliary : SecretSlot → Bool
  | .auxiliary => true
  | _ => false

def PublicSlot.isAmountLimit : PublicSlot → Bool
  | .amountLimit => true
  | _ => false

/-- The declared inputs, inversion targets and constraints, each in order. -/
structure Layout where
  secretNodes : List ℕ
  publicNodes : List ℕ
  auxiliarySlots : List Bool
  limitSlots : List Bool
  targets : List NodeId
  constraints : List NodeId

namespace Layout

/-- The layout of inputs that are given by position only. -/
def ofPorts (ports : CircuitBuilder.Ports) : Layout := ⟨ports.secrets, ports.publics, [], [], [], []⟩

instance : Zero Layout := ⟨⟨[], [], [], [], [], []⟩⟩

instance : Add Layout where
  add left right :=
    ⟨left.secretNodes ++ right.secretNodes, left.publicNodes ++ right.publicNodes,
      left.auxiliarySlots ++ right.auxiliarySlots, left.limitSlots ++ right.limitSlots,
      left.targets ++ right.targets, left.constraints ++ right.constraints⟩

theorem zero_def : (0 : Layout) = ⟨[], [], [], [], [], []⟩ := rfl

theorem add_def (left right : Layout) : left + right =
    ⟨left.secretNodes ++ right.secretNodes, left.publicNodes ++ right.publicNodes,
      left.auxiliarySlots ++ right.auxiliarySlots, left.limitSlots ++ right.limitSlots,
      left.targets ++ right.targets, left.constraints ++ right.constraints⟩ := rfl

instance : AddMonoid Layout where
  add_assoc a b c := by simp only [add_def, List.append_assoc]
  zero_add _ := rfl
  add_zero a := by simp only [add_def, zero_def, List.append_nil]
  nsmul := nsmulRec

/-- Each list of a sum joins the lists of its parts. -/
theorem sum_eq (layouts : List Layout) : layouts.sum =
    ⟨layouts.flatMap secretNodes, layouts.flatMap publicNodes, layouts.flatMap auxiliarySlots,
      layouts.flatMap limitSlots, layouts.flatMap targets, layouts.flatMap constraints⟩ := by
  induction layouts with
  | nil => rfl
  | cons layout rest ih => rw [List.sum_cons, ih, add_def]; rfl

end Layout

namespace Compiler

/-- What a compiler has declared so far. -/
def layout {F : Type} (compiler : Compiler F) : Layout where
  secretNodes := CircuitBuilder.secretPositions compiler.builder.nodes
  publicNodes := CircuitBuilder.publicPositions compiler.builder.nodes
  auxiliarySlots := compiler.secretSlots.map SecretSlot.isAuxiliary
  limitSlots := compiler.publicSlots.map PublicSlot.isAmountLimit
  targets := compiler.auxiliaryTargets
  constraints := compiler.constraintOutputs

end Compiler

end PaymentAuth
