import PaymentAuth.Policy.Gadgets

/-! The compiler annotated with the nodes it emits: each policy leaf and each
threshold is paired with its wires and its declared inputs. -/

namespace PaymentAuth

open Library

/-- The nodes of one compiled leaf. -/
inductive LeafWiring where
  | amount (limit : AmountLimit) (inputs : Compiler.AmountInputs) (wire : NodeId)
  | credential (id : CredentialId) (secret commitment wire : NodeId)

/-- The nodes of one compiled threshold. -/
structure ThresholdWiring where
  discriminant : NodeId
  auxiliary : NodeId
  wire : NodeId
  booleanity : NodeId

/-- A policy tree whose leaves and thresholds carry their nodes. -/
abbrev Wiring := Formula LeafWiring ThresholdWiring

namespace LeafWiring

/-- The policy leaf that a compiled leaf stands for. -/
def leaf : LeafWiring → PolicyLeaf
  | .amount limit _ _ => .amountAtMost limit
  | .credential id _ _ _ => .credential id

def wire : LeafWiring → NodeId
  | .amount _ _ wire => wire
  | .credential _ _ _ wire => wire

end LeafWiring

namespace Wiring

/-- What one node of a wiring declares. -/
def partLayout : Wiring → Layout
  | .leaf (.amount _ inputs _) =>
    { secretNodes := inputs.amount.asUsize ::
        (inputs.bits.valueBits ++ inputs.bits.differenceBits).map NodeId.asUsize
      publicNodes := [inputs.limit.asUsize]
      auxiliarySlots := false :: (inputs.bits.valueBits ++ inputs.bits.differenceBits).map fun _ => false
      limitSlots := [true]
      targets := []
      constraints := [] }
  | .leaf (.credential _ secret commitment _) =>
    ⟨[secret.asUsize], [commitment.asUsize], [false], [false], [], []⟩
  | .atLeast _ nodes _ => ⟨[nodes.auxiliary.asUsize], [], [true], [], [nodes.discriminant], [nodes.booleanity]⟩
  | .all _ | .any _ => 0

def layout (wiring : Wiring) : Layout := (wiring.subformulas.map partLayout).sum

section Layouts

variable (members : List Wiring)

theorem layout_leaf (leaf : LeafWiring) : layout (.leaf leaf) = partLayout (.leaf leaf) :=
  Formula.sum_leaf partLayout leaf

theorem layout_atLeast (k : ℕ) (nodes : ThresholdWiring) : layout (.atLeast k nodes members) =
    (members.map layout).sum + partLayout (.atLeast k nodes members) :=
  Formula.sum_atLeast partLayout k nodes members

theorem layout_node (combinator : Combinator) : layout (combinator.node members) = (members.map layout).sum := by
  have whole := Formula.sum_node partLayout (combinator.subformulas_node members)
  cases combinator with
  | and | or => exact whole.trans (add_zero _)

end Layouts

/-- The annotation of a wire refers to no node that is read later. -/
instance : Refers Wiring := ⟨fun _ => []⟩

@[simp] theorem points_wiring (wiring : Wiring) : Refers.points wiring = [] := rfl

variable {p : ℕ} [Fact p.Prime]

/-- The value of a wiring's root under a valuation of the nodes. -/
def valueAt (value : ℕ → ZMod p) (wiring : Wiring) : ZMod p :=
  wiring.wire (fun leaf => value leaf.wire.asUsize) (fun threshold => value threshold.auxiliary.asUsize)

/-- Joining the values of wirings computes the value of their combinator. -/
theorem valueAt_node {combinator : Combinator} {wirings : List Wiring} {value : ℕ → ZMod p} {joined : ZMod p}
    (folded : some joined =
      Compiler.joinValues (Compiler.joinValue combinator) none (wirings.map (valueAt value))) :
    joined = valueAt value (combinator.node wirings) := by
  cases wirings with
  | nil => cases folded
  | cons first rest =>
    unfold valueAt
    cases combinator with
    | and =>
      rw [Combinator.node, Formula.wire_all]
      exact Option.some.inj (folded.trans (Compiler.joinValues_mul _ _))
    | or =>
      rw [Combinator.node, Formula.wire_any]
      refine Option.some.inj (folded.trans ((Compiler.joinValues_or _ _).trans ?_))
      rw [List.map_map]
      rfl

/-- What one node of a wiring establishes in a valuation that satisfies the gates. -/
def PartHolds (value : ℕ → ZMod p) : Wiring → Prop
  | .leaf (.amount _ inputs wire) =>
    value wire.asUsize = Compiler.amountValue (value inputs.amount.asUsize) (value inputs.limit.asUsize)
      (inputs.bits.valueBits.map fun id => value id.asUsize)
      (inputs.bits.differenceBits.map fun id => value id.asUsize)
  | .leaf (.credential _ secret commitment wire) =>
    value wire.asUsize = Compiler.zeroIndicator (value secret.asUsize - value commitment.asUsize)
  | .atLeast k nodes members =>
    value nodes.discriminant.asUsize = Formula.discriminant k (members.map (valueAt value)).sum ∧
      value nodes.wire.asUsize = value nodes.discriminant.asUsize * value nodes.auxiliary.asUsize ∧
      value nodes.booleanity.asUsize = value nodes.wire.asUsize * (1 - value nodes.wire.asUsize)
  | .all _ | .any _ => True

/-- Amount leaves declare one digit for each bit of their width. -/
def PartShape : Wiring → Prop
  | .leaf (.amount _ inputs _) =>
    inputs.bits.valueBits.length = amountBitLen ∧ inputs.bits.differenceBits.length = amountBitLen
  | _ => True

/-- A combinator establishes nothing of its own. -/
theorem partHolds_node (combinator : Combinator) (wirings : List Wiring) (value : ℕ → ZMod p) :
    PartHolds value (combinator.node wirings) := by
  cases combinator <;> trivial

theorem partShape_node (combinator : Combinator) (wirings : List Wiring) : PartShape (combinator.node wirings) := by
  cases combinator <;> trivial

end Wiring

namespace Compiler

variable {p : ℕ}

/-- Joins the wires of annotated emissions, keeping their annotations. -/
def joinWirings (gate : NodeId → NodeId → Emit (ZMod p) NodeId) :
    Option NodeId → List (Emit (ZMod p) (NodeId × Wiring)) → Emit (ZMod p) (Option NodeId × List Wiring)
  | wire, [] => pure (wire, [])
  | wire, emission :: rest => do
    let (subWire, wiring) ← emission
    let next ← joinWire gate wire subWire
    let (joined, wirings) ← joinWirings gate (some next) rest
    pure (joined, wiring :: wirings)

mutual

/-- `emitPolicy`, returning the emitted nodes beside the root wire. -/
def wirePolicy : Policy → Emit (ZMod p) (NodeId × Wiring)
  | .amountAtMost limit => do
    let inputs ← declareAmount
    let wire ← matchAmount inputs
    pure (wire, .leaf (.amount limit inputs wire))
  | .credential id => do
    let (secret, commitment) ← declareCredential
    let wire ← matchCredential secret commitment
    pure (wire, .leaf (.credential id secret commitment wire))
  | .threshold k members => do
    let (joined, wirings) ← joinWirings addGate none (wireMembers members)
    let sum ← required .emptyPolicy joined
    let discriminant ← emitDiscriminant k sum
    let auxiliary ← auxiliaryInput discriminant
    let (w, booleanity) ← emitBooleanWire discriminant auxiliary
    pure (w, .atLeast k.get.toNat ⟨discriminant, auxiliary, w, booleanity⟩ wirings)
  | .and members => do
    let (joined, wirings) ← joinWirings (combineGate .and) none (wireMembers members)
    let wire ← required .emptyPolicy joined
    pure (wire, .all wirings)
  | .or members => do
    let (joined, wirings) ← joinWirings (combineGate .or) none (wireMembers members)
    let wire ← required .emptyPolicy joined
    pure (wire, .any wirings)

def wireMembers : List Policy → List (Emit (ZMod p) (NodeId × Wiring))
  | [] => []
  | member :: rest => wirePolicy member :: wireMembers rest

end

section Erasure

@[simp] theorem emitMembers_eq_map (members : List Policy) :
    (emitMembers members : List (Emit (ZMod p) NodeId)) = members.map emitPolicy := by
  induction members with
  | nil => rfl
  | cons member rest ih => rw [emitMembers, ih, List.map_cons]

@[simp] theorem wireMembers_eq_map (members : List Policy) :
    (wireMembers members : List (Emit (ZMod p) (NodeId × Wiring))) = members.map wirePolicy := by
  induction members with
  | nil => rfl
  | cons member rest ih => rw [wireMembers, ih, List.map_cons]

private theorem joinWirings_erase (gate : NodeId → NodeId → Emit (ZMod p) NodeId) (wire : Option NodeId)
    (emissions : List (Emit (ZMod p) (NodeId × Wiring))) :
    joinWires gate wire (emissions.map fun emission => Prod.fst <$> emission) =
      Prod.fst <$> joinWirings gate wire emissions := by
  induction emissions generalizing wire with
  | nil => simp [joinWires, joinWirings]
  | cons emission rest ih =>
    simp only [List.map_cons, joinWires, joinWirings, ih, map_bind, bind_map_left, bind_pure_comp,
      Functor.map_map]

/-- Forgetting the annotations of a wiring leaves the compiler's emission. -/
theorem wirePolicy_erase (policy : Policy) :
    (emitPolicy policy : Emit (ZMod p) NodeId) = Prod.fst <$> wirePolicy policy := by
  have members_erase (members : List Policy)
      (ih : ∀ member ∈ members, (emitPolicy member : Emit (ZMod p) NodeId) = Prod.fst <$> wirePolicy member) :
      (emitMembers members : List (Emit (ZMod p) NodeId)) =
        (wireMembers members).map fun emission => Prod.fst <$> emission := by
    rw [emitMembers_eq_map, wireMembers_eq_map, List.map_map]
    exact List.map_congr_left ih
  induction policy with
  | amountAtMost limit => simp only [emitPolicy, wirePolicy, emitAmount, map_bind, map_pure, bind_pure]
  | credential id => simp only [emitPolicy, wirePolicy, emitCredential, map_bind, map_pure, bind_pure]
  | threshold k members ih =>
    simp only [emitPolicy, wirePolicy, members_erase members ih, joinWirings_erase, map_bind, bind_map_left, map_pure]
  | and members ih =>
    simp only [emitPolicy, wirePolicy, members_erase members ih, joinWirings_erase, map_bind, bind_map_left,
      map_pure, bind_pure]
  | or members ih =>
    simp only [emitPolicy, wirePolicy, members_erase members ih, joinWirings_erase, map_bind, bind_map_left,
      map_pure, bind_pure]

end Erasure

end Compiler

end PaymentAuth
