import PaymentAuth.Policy.Size
import PaymentAuth.Policy.Wiring

/-! What compiling a policy emits: the equations of its wires, the layout of its
inputs and constraints, and the nodes it takes. -/

namespace PaymentAuth

open Library

namespace Compiler

section Inputs

variable {p : ℕ} {operands : List ℕ}

theorem declareCredential_emits : Emits observer (declareCredential : Emit (ZMod p) (NodeId × NodeId)) operands 2 32
    (fun inputs added => ∀ id wire, added = Wiring.partLayout (.leaf (.credential id inputs.1 inputs.2 wire)))
    fun _ _ => True := by
  have inputs (index : ℕ) : Emits observer (do
        let secret ← secretInput (.credential index)
        let commitment ← publicInput (.credentialCommitment index)
        pure (secret, commitment) : Emit (ZMod p) (NodeId × NodeId)) operands 2 32
      (fun inputs added => ∀ id wire, added = Wiring.partLayout (.leaf (.credential id inputs.1 inputs.2 wire)))
      fun _ _ => True := by
    refine (secretInput_emits _).bind fun secret _ first => (publicInput_emits _).bind fun commitment _ second =>
      Emits.pure (by simp) ?_ fun _ _ _ => trivial
    intro id wire
    rw [first, second]
    rfl
  -- the counter of credentials is no part of what is observed
  refine ⟨fun compiler ready room => ?_, fun compiler final result run => ?_, fun compiler final result run ready => ?_,
    fun _ _ _ _ _ _ => trivial⟩
  · exact (inputs compiler.credentialCounter).runs { compiler with credentialCounter := _ }
      ⟨ready.sound, ready.defined⟩ room
  · obtain ⟨added, extension, ensured⟩ := (inputs compiler.credentialCounter).extension _ _ _ run
    exact ⟨added, ⟨extension.holds, extension.log, extension.size, extension.weight⟩, ensured⟩
  · exact (inputs compiler.credentialCounter).ready _ _ _ run ⟨ready.sound, ready.defined⟩

private theorem sum_bits (ids : List NodeId) :
    (ids.map fun id => (⟨[id.asUsize], [], [false], [], [], []⟩ : Layout)).sum =
      ⟨ids.map NodeId.asUsize, [], ids.map fun _ => false, [], [], []⟩ := by
  induction ids with
  | nil => rfl
  | cons id rest ih =>
    rw [List.map_cons, List.sum_cons, ih]
    rfl

theorem declareAmount_emits : Emits observer (declareAmount : Emit (ZMod p) AmountInputs) operands
    (2 + 2 * amountBitLen) (32 + 64 * amountBitLen)
    (fun inputs added =>
      (inputs.bits.valueBits.length = amountBitLen ∧ inputs.bits.differenceBits.length = amountBitLen) ∧
        ∀ limit wire, added = Wiring.partLayout (.leaf (.amount limit inputs wire))) fun _ _ => True := by
  have digits {operands : List ℕ} (slot : ℕ → SecretSlot) (plain : ∀ index, (slot index).isAuxiliary = false) :
      Emits observer
        ((List.range amountBitLen).mapM fun index => secretInput (slot index) : Emit (ZMod p) (List NodeId))
        operands amountBitLen (amountBitLen * 32)
        (fun ids added => ids.length = amountBitLen ∧
          added = ⟨ids.map NodeId.asUsize, [], ids.map fun _ => false, [], [], []⟩) fun _ _ => True := by
    have each (index : ℕ) (_ : index ∈ List.range amountBitLen) : Emits observer
        (secretInput (slot index) : Emit (ZMod p) NodeId) operands 1 32
        (fun id added => added = ⟨[id.asUsize], [], [false], [], [], []⟩) fun _ _ => True :=
      plain index ▸ secretInput_emits (slot index)
    refine ((Emits.mapM each).within (by simp) (by simp)).ensuring fun ids added declared => ?_
    rw [declared.1, declared.2, List.length_range, sum_bits]
    exact ⟨rfl, rfl⟩
  refine ((secretInput_emits .amount).bind fun amount _ first => (publicInput_emits .amountLimit).bind
    fun limit _ second => (digits .amountBit fun _ => rfl).bind fun valueBits _ values =>
    (digits .differenceBit fun _ => rfl).bind fun differenceBits _ differences => Emits.pure ?_
      ⟨⟨values.1, differences.1⟩, fun limit' wire => ?_⟩ fun _ _ _ _ _ => trivial).within (by omega) (by omega)
  · intro node member
    rw [points_amount, RangeCheck.points_bits, List.map_append] at member
    simp only [CircuitBuilder.points_nodes, CircuitBuilder.points_nodeId, List.mem_append, List.mem_cons,
      List.not_mem_nil, or_false] at member ⊢
    tauto
  · rw [first, second, values.2, differences.2]
    simp [Wiring.partLayout, Layout.add_def, SecretSlot.isAuxiliary, PublicSlot.isAmountLimit]

end Inputs

section Wired

variable {p : ℕ} [Fact p.Prime]

/-- A wiring that copies the formula of a policy; amount leaves have a digit for each bit. -/
structure WiringOf (policy : Policy) (wiring : Wiring) : Prop where
  shape : ∀ part ∈ wiring.subformulas, Wiring.PartShape part
  formula : wiring.map LeafWiring.leaf (fun _ => ()) = policy.formula

/-- In a valuation every part of a wiring holds, and its root wire carries its value. -/
structure Carries (value : ℕ → ZMod p) (wire : NodeId) (wiring : Wiring) : Prop where
  holds : ∀ part ∈ wiring.subformulas, Wiring.PartHolds value part
  root : value wire.asUsize = wiring.valueAt value

/-- The specification of a policy's annotated emission. -/
def Wires (p : ℕ) [Fact p.Prime] (policy : Policy) : Prop :=
  Emits observer (wirePolicy policy : Emit (ZMod p) (NodeId × Wiring)) [] (policySize p policy) (policyWeight p policy)
    (fun result added => added = result.2.layout ∧ WiringOf policy result.2) fun value result =>
      Carries value result.1 result.2

/-- Emitting the members of a combinator and joining their wires. -/
theorem joinWirings_emits {gate : NodeId → NodeId → Emit (ZMod p) NodeId} {join : ZMod p → ZMod p → ZMod p}
    {size weight : ℕ} (joins : Joins gate join size weight) {members : List Policy}
    (each : ∀ member ∈ members, Wires p member) (start : Option NodeId) :
    Emits observer (joinWirings gate start (members.map wirePolicy)) (Refers.points start)
      ((members.map (policySize p)).sum + (members.length + start.toList.length - 1) * size)
      ((members.map (policyWeight p)).sum + (members.length + start.toList.length - 1) * weight)
      (fun result added => added = (result.2.map Wiring.layout).sum ∧ List.Forall₂ WiringOf members result.2 ∧
        (members ≠ [] ∨ start.isSome = true → result.1.isSome = true))
      fun value result => (∀ wiring ∈ result.2, ∀ part ∈ wiring.subformulas, Wiring.PartHolds value part) ∧
        result.1.map (fun id => value id.asUsize) =
          joinValues join (start.map fun id => value id.asUsize) (result.2.map (Wiring.valueAt value)) := by
  induction members generalizing start with
  | nil =>
    refine Emits.within (Emits.pure (by simp) ⟨rfl, .nil, fun present => ?_⟩ fun value => ⟨by simp, ?_⟩) ?_
      (Nat.zero_le _)
    · exact present.resolve_left fun nonempty => nonempty rfl
    · cases start <;> rfl
    · cases start <;> simp
  | cons member rest ih =>
    have later (subWire next : NodeId) (wiring : Wiring) (first : Layout) (laid : first = wiring.layout)
        (copied : WiringOf member wiring) : Emits observer (do
          let result ← joinWirings gate (some next) (rest.map wirePolicy)
          pure (result.1, wiring :: result.2) : Emit (ZMod p) (Option NodeId × List Wiring)) (Refers.points next)
        ((rest.map (policySize p)).sum + rest.length * size) ((rest.map (policyWeight p)).sum + rest.length * weight)
        (fun result added => first + added = (result.2.map Wiring.layout).sum ∧
          List.Forall₂ WiringOf (member :: rest) result.2 ∧
          (member :: rest ≠ [] ∨ start.isSome = true → result.1.isSome = true))
        fun value result => some (value next.asUsize) =
            joinValues join (start.map fun id => value id.asUsize) [value subWire.asUsize] →
          Carries value subWire wiring →
          (∀ wiring ∈ result.2, ∀ part ∈ wiring.subformulas, Wiring.PartHolds value part) ∧
            result.1.map (fun id => value id.asUsize) =
              joinValues join (start.map fun id => value id.asUsize) (result.2.map (Wiring.valueAt value)) := by
      have others := ih (fun other inside => each other (List.mem_cons_of_mem _ inside)) (some next)
      refine (Emits.bind others fun result added declared =>
        Emits.pure (by simp +contextual) ?_ ?_).within rfl (Nat.le_refl _)
      · obtain ⟨laid', copies, present⟩ := declared
        refine ⟨?_, .cons copied copies, fun _ => present (Or.inr rfl)⟩
        rw [add_zero, laid, laid', List.map_cons, List.sum_cons]
      · rintro value ⟨holds, folded⟩ here carried
        refine ⟨List.forall_mem_cons.mpr ⟨carried.holds, holds⟩, ?_⟩
        rw [folded, Option.map_some, here, List.map_cons, carried.root]
        cases start <;> rfl
    refine (Emits.bind ((each member List.mem_cons_self).widen (by simp)) fun result first declared =>
      (joinWire_emits joins (fun k given => List.mem_append_right _ given) (by simp)).bind fun next _ =>
      ((later result.1 next result.2 first declared.1 declared.2).widen (by simp +contextual)).implies ?_).within
        (joined_cost start _ _ _ _) (joined_cost start _ _ _ _).le
    exact fun value result held here carried => held here carried

/-- The members of a combinator with the wire that joins them. -/
def joinedMembers (gate : NodeId → NodeId → Emit (ZMod p) NodeId) (members : List Policy) :
    Emit (ZMod p) (NodeId × List Wiring) := do
  let result ← joinWirings gate none (members.map wirePolicy)
  let root ← required .emptyPolicy result.1
  pure (root, result.2)

theorem joinedMembers_emits {gate : NodeId → NodeId → Emit (ZMod p) NodeId} {join : ZMod p → ZMod p → ZMod p}
    {size weight : ℕ} (joins : Joins gate join size weight) {members : List Policy} (nonempty : members ≠ [])
    (each : ∀ member ∈ members, Wires p member) :
    Emits observer (joinedMembers gate members) [] ((members.map (policySize p)).sum + (members.length - 1) * size)
      ((members.map (policyWeight p)).sum + (members.length - 1) * weight)
      (fun result added => added = (result.2.map Wiring.layout).sum ∧ List.Forall₂ WiringOf members result.2)
      fun value result => (∀ wiring ∈ result.2, ∀ part ∈ wiring.subformulas, Wiring.PartHolds value part) ∧
        some (value result.1.asUsize) = joinValues join none (result.2.map (Wiring.valueAt value)) := by
  refine (Emits.bind (joinWirings_emits joins each none) fun result added declared =>
    (required_emits .emptyPolicy (declared.2.2 (Or.inl nonempty)) fun k given => ?_).bind fun root _ =>
    Emits.pure (by simp) ?_ ?_).within rfl (Nat.le_refl _)
  · exact List.mem_append_left _ (List.mem_append_left _ given)
  · exact ⟨(add_zero _).trans declared.1, declared.2.1⟩
  · intro value same held
    have folded := held.2
    rw [same, Option.map_some] at folded
    exact ⟨held.1, folded⟩

section Members

variable {members : List Policy} {wirings : List Wiring}

private theorem shape_of_copies (copies : List.Forall₂ WiringOf members wirings) :
    ∀ part ∈ wirings.flatMap Formula.subformulas, Wiring.PartShape part := by
  induction copies with
  | nil => exact List.forall_mem_nil _
  | cons copied _ ih =>
    rw [List.flatMap_cons]
    exact List.forall_mem_append.mpr ⟨copied.shape, ih⟩

private theorem formula_of_copies (copies : List.Forall₂ WiringOf members wirings) :
    wirings.map (Formula.map LeafWiring.leaf fun _ => ()) = members.map Policy.formula := by
  induction copies with
  | nil => rfl
  | cons copied _ ih => rw [List.map_cons, List.map_cons, copied.formula, ih]

end Members

/-- A combinator of wired members is wired. -/
private theorem combinator_emits (combinator : Combinator) {members : List Policy} (nonempty : members ≠ [])
    (each : ∀ member ∈ members, Wires p member) : Wires p (combinator.make members) := by
  have emission : (wirePolicy (combinator.make members) : Emit (ZMod p) (NodeId × Wiring)) = (do
        let result ← joinedMembers (combineGate combinator) members
        pure (result.1, combinator.node result.2)) := by
    cases combinator with
    | and | or =>
      rw [Combinator.make, wirePolicy, wireMembers_eq_map, joinedMembers]
      simp only [bind_assoc, pure_bind]
      rfl
  have joins : Joins (F := ZMod p) (combineGate combinator) (joinValue combinator) (combineCost combinator)
      (combineWeight combinator) := fun _ _ _ left right => combineGate_emits combinator left right
  unfold Wires
  rw [emission, policySize_make, policyWeight_make]
  refine (Emits.bind (joinedMembers_emits joins nonempty each) fun result added copies =>
    Emits.pure (by simp) ⟨?laid, ?shape, ?formula⟩ fun value held => ⟨?holds, Wiring.valueAt_node held.2⟩).within rfl
      (Nat.le_refl _)
  case laid => rw [add_zero, copies.1, Wiring.layout_node]
  case shape =>
    rw [combinator.subformulas_node]
    exact List.forall_mem_append.mpr
      ⟨shape_of_copies copies.2, List.forall_mem_singleton.mpr (Wiring.partShape_node combinator _)⟩
  case formula => rw [combinator.map_node, formula_of_copies copies.2, combinator.formula_make]
  case holds =>
    rw [combinator.subformulas_node]
    exact List.forall_mem_append.mpr
      ⟨List.forall_mem_flatMap.mpr held.1, List.forall_mem_singleton.mpr (Wiring.partHolds_node combinator _ value)⟩

/-- The wire of a threshold over its joined members. -/
private theorem threshold_emits {k : ThresholdK} {members : List Policy} (positive : 1 ≤ k.get.toNat)
    (few : k.get.toNat ≤ members.length) (each : ∀ member ∈ members, Wires p member) :
    Wires p (.threshold k members) := by
  have emission : (wirePolicy (.threshold k members) : Emit (ZMod p) (NodeId × Wiring)) =
      (do
        let result ← joinedMembers addGate members
        let discriminant ← emitDiscriminant k result.1
        let auxiliary ← auxiliaryInput discriminant
        let nodes ← emitBooleanWire discriminant auxiliary
        pure (nodes.1, .atLeast k.get.toNat ⟨discriminant, auxiliary, nodes.1, nodes.2⟩ result.2)) := by
    rw [wirePolicy, wireMembers_eq_map, joinedMembers]
    simp only [bind_assoc, pure_bind]
  have nonempty : members ≠ [] := by
    rintro rfl
    exact absurd (positive.trans few) (Nat.not_succ_le_zero 0)
  have joins : Joins (F := ZMod p) addGate (fun x y => x + y) 1 37 := fun _ _ _ left right => addGate_emits left right
  unfold Wires
  rw [emission, policySize_threshold, policyWeight_threshold]
  refine (Emits.bind (joinedMembers_emits joins nonempty each) fun result inside copies =>
    (emitDiscriminant_emits positive (by simp)).bind fun discriminant _ =>
    (auxiliaryInput_emits (by simp)).bind fun auxiliary inverted declared =>
    (emitBooleanWire_emits (by simp) (by simp)).bind fun nodes constrained published =>
    Emits.pure (by simp) ⟨?laid, ?shape, ?formula⟩ ?holds).within ?size ?weight
  case laid =>
    rw [copies.1, declared, published, Wiring.layout_atLeast, add_zero]
    rfl
  case shape =>
    rw [Formula.subformulas_atLeast]
    exact List.forall_mem_append.mpr ⟨shape_of_copies copies.2, List.forall_mem_singleton.mpr trivial⟩
  case formula => rw [Formula.map_atLeast, formula_of_copies copies.2, Policy.formula_threshold]
  case holds =>
    intro value wires _ root held
    have sum : value result.1.asUsize = (result.2.map (Wiring.valueAt value)).sum := by
      cases shape : result.2 with
      | nil => rw [shape] at held; cases held.2
      | cons first rest =>
        rw [shape] at held
        rw [Option.some.inj (held.2.trans (joinValues_add _ _)), List.map_cons, List.sum_cons]
    rw [sum] at root
    constructor
    · rw [Formula.subformulas_atLeast]
      exact List.forall_mem_append.mpr ⟨List.forall_mem_flatMap.mpr held.1, List.forall_mem_singleton.mpr ⟨root, wires⟩⟩
    · unfold Wiring.valueAt
      rw [Formula.wire_atLeast, wires.1, root]
      rfl
  case size => omega
  case weight => omega

/-- The annotated emission of a valid leaf. -/
private theorem leaf_emits (leaf : LeafWiring) {operands : List ℕ} {added : Layout}
    (declared : added = Wiring.partLayout (.leaf leaf)) (shape : Wiring.PartShape (.leaf leaf))
    (defined : leaf.wire.asUsize ∈ operands) {policy : Policy} (formula : .leaf leaf.leaf = policy.formula) :
    Emits observer (pure (leaf.wire, .leaf leaf) : Emit (ZMod p) (NodeId × Wiring)) operands 0 0
      (fun result added' => added + added' = result.2.layout ∧ WiringOf policy result.2)
      fun value result => Wiring.PartHolds value (.leaf leaf) → Carries value result.1 result.2 := by
  refine Emits.pure (by simpa using defined) ⟨?_, ?_, ?_⟩ fun value holds => ⟨?_, rfl⟩
  · rw [add_zero, declared, Wiring.layout_leaf]
  · rw [Formula.subformulas_leaf]
    exact List.forall_mem_singleton.mpr shape
  · exact formula
  · rw [Formula.subformulas_leaf]
    exact List.forall_mem_singleton.mpr holds

/-- Every valid policy is emitted as a copy of its formula. -/
theorem wirePolicy_emits {policy : Policy} (valid : ∀ node ∈ policy.formula.subformulas, Policy.NodeValid node) :
    Wires p policy := by
  induction policy using Policy.combinatorInduction with
  | amountAtMost limit =>
    unfold Wires
    rw [wirePolicy, policySize_amountAtMost, policyWeight_amountAtMost]
    refine (declareAmount_emits.bind fun inputs added declared =>
      (matchAmount_emits (by simp) declared.1.1 declared.1.2).bind fun wire _ =>
      (leaf_emits (.amount limit inputs wire) (declared.2 limit wire) declared.1 (by simp [LeafWiring.wire])
        ?_).implies ?_).within ?_ ?_
    · rfl
    · exact fun value result carries holds _ => carries holds
    · omega
    · simp only [amountBitLen]
      omega
  | credential id =>
    unfold Wires
    rw [wirePolicy, policySize_credential, policyWeight_credential]
    refine (declareCredential_emits.bind fun inputs added declared =>
      (matchCredential_emits (by simp) (by simp)).bind fun wire _ =>
      (leaf_emits (.credential id inputs.1 inputs.2 wire) (declared id wire) trivial (by simp [LeafWiring.wire])
        ?_).implies ?_).within ?_ ?_
    · rfl
    · exact fun value result carries holds _ => carries holds
    · omega
    · omega
  | threshold k members ih =>
    rw [Policy.formula_threshold] at valid
    have bounds := valid _ (Formula.mem_subformulas_self _)
    rw [Policy.NodeValid, List.length_map] at bounds
    exact threshold_emits bounds.1 bounds.2.1 fun member inside => ih member inside fun node below =>
      valid node (Formula.mem_subformulas_atLeast (List.mem_map_of_mem inside) below)
  | combinator combinator members ih =>
    rw [combinator.formula_make] at valid
    have nonempty : members.map Policy.formula ≠ [] := by
      have node := valid _ (Formula.mem_subformulas_self _)
      cases combinator with
      | and | or => exact node.1
    refine combinator_emits combinator (by simpa using nonempty) fun member inside => ih member inside fun node below => ?_
    rw [combinator.subformulas_node] at valid
    exact valid node (List.mem_append_left _ (List.mem_flatMap.mpr ⟨_, List.mem_map_of_mem inside, below⟩))

end Wired

end Compiler

end PaymentAuth
