import PaymentAuth.Policy.Layout

/-! What the gates of the compiler cost, declare and compute. -/

namespace PaymentAuth

open Library

namespace Compiler

section Observation

variable {F α : Type} [CommRing F] {operands : List ℕ} {size weight : ℕ}

/-- What is observed of a compiler: its builder, and what it has recorded beside it. The
recorded nodes are defined. -/
def observer : Observer (Compiler F) (ℕ → F) Layout where
  holds compiler value := CircuitBuilder.Satisfies compiler.builder.nodes value
  log := layout
  size compiler := compiler.builder.nodes.length
  weight compiler := viewWeights compiler.builder.nodes
  sound compiler := CircuitBuilder.observer.sound compiler.builder ∧
    ∀ id ∈ compiler.constraintOutputs ++ compiler.auxiliaryTargets, id.asUsize < compiler.builder.nodes.length
  limit := 2 ^ 32

private theorem focus : Focus CircuitBuilder.observer (observer (F := F)) Compiler.builder
    (fun builder compiler => { compiler with builder := builder }) Layout.ofPorts where
  get_set _ _ := rfl
  holds _ _ := Iff.rfl
  log part compiler added grown := by
    obtain ⟨secrets, publics⟩ := CircuitBuilder.Ports.mk.inj grown
    simp only [observer, layout, secrets, publics, Layout.ofPorts, Layout.add_def, List.append_nil]
    rfl
  size _ := rfl
  weight _ := rfl
  limit := rfl
  inner_sound _ sound := sound.1
  sound part compiler sound built grows :=
    ⟨built, fun id member => Nat.lt_of_lt_of_le (sound.2 id member) grows⟩
  lift_zero := rfl

theorem onBuilder_emits {action : RangeCheck.Build F α} [Refers α] {ensures : α → Prop} {post : (ℕ → F) → α → Prop}
    (gate : Gate CircuitBuilder.observer action operands size weight post ensures) :
    Gate observer (onBuilder action) operands size weight post ensures :=
  gate.zoom focus

/-- Recording a declaration of defined nodes. -/
private theorem modify_emits {f : Compiler F → Compiler F} {declared : Layout}
    (builder : ∀ compiler, (f compiler).builder = compiler.builder)
    (laid : ∀ compiler, (f compiler).layout = compiler.layout + declared)
    (recorded : ∀ compiler, ∀ id ∈ (f compiler).constraintOutputs ++ (f compiler).auxiliaryTargets,
      id ∈ compiler.constraintOutputs ++ compiler.auxiliaryTargets ∨ id.asUsize ∈ operands) :
    Emits observer (modify f : Emit F Unit) operands 0 0 (fun _ added => added = declared) fun _ _ => True where
  runs compiler _ _ := ⟨(), f compiler, rfl⟩
  extension compiler final result run := by
    cases run
    refine ⟨declared, ⟨fun value held => ?_, laid compiler, ?_, ?_⟩, rfl⟩
    · simpa only [observer, builder] using held
    · simp only [observer, builder, Nat.add_zero]
    · simp only [observer, builder, Nat.add_zero, Nat.le_refl]
  ready compiler final result run ready := by
    cases run
    obtain ⟨⟨built, kept⟩, defined⟩ := ready
    refine ⟨⟨?_, fun id member => ?_⟩, fun k member => by cases member⟩
    · rw [builder]
      exact built
    · rw [builder]
      rcases recorded compiler id member with old | new
      · exact kept id old
      · exact defined _ new
  meaning _ _ _ _ _ _ := trivial

/-- Recording a declaration and then emitting an input leaf. -/
private theorem declare_emits {f : Compiler F → Compiler F} {declare : RangeCheck.Build F NodeId}
    {ports : NodeId → CircuitBuilder.Ports} (declared : Layout)
    (emits : Emits CircuitBuilder.observer declare operands 1 weight (fun id added => added = ports id) fun _ _ => True)
    (builder : ∀ compiler, (f compiler).builder = compiler.builder)
    (laid : ∀ compiler, (f compiler).layout = compiler.layout + declared)
    (recorded : ∀ compiler, ∀ id ∈ (f compiler).constraintOutputs ++ (f compiler).auxiliaryTargets,
      id ∈ compiler.constraintOutputs ++ compiler.auxiliaryTargets ∨ id.asUsize ∈ operands) :
    Emits observer (do modify f; onBuilder declare : Emit F NodeId) operands 1 weight
      (fun id added => added = declared + .ofPorts (ports id)) fun _ _ => True := by
  refine ((modify_emits builder laid recorded).bind fun _ added first => ?_).within (Nat.zero_add 1)
    (Nat.zero_add weight).le
  apply ((emits.zoom focus).ensuring ?_).implies fun _ _ _ _ => trivial
  rintro id _ ⟨_, rfl, rfl⟩
  rw [first]

theorem secretInput_emits (slot : SecretSlot) : Emits observer (secretInput slot : Emit F NodeId) operands 1 32
    (fun id added => added = ⟨[id.asUsize], [], [slot.isAuxiliary], [], [], []⟩) fun _ _ => True := by
  refine declare_emits ⟨[], [], [slot.isAuxiliary], [], [], []⟩ CircuitBuilder.secretInput_emits (fun _ => rfl) ?_ ?_
  · intro compiler
    simp [layout, Layout.add_def]
  · exact fun _ _ member => Or.inl member

theorem publicInput_emits (slot : PublicSlot) : Emits observer (publicInput slot : Emit F NodeId) operands 1 0
    (fun id added => added = ⟨[], [id.asUsize], [], [slot.isAmountLimit], [], []⟩) fun _ _ => True := by
  refine declare_emits ⟨[], [], [], [slot.isAmountLimit], [], []⟩ CircuitBuilder.publicInput_emits (fun _ => rfl) ?_ ?_
  · intro compiler
    simp [layout, Layout.add_def]
  · exact fun _ _ member => Or.inl member

theorem auxiliaryInput_emits {target : NodeId} (given : target.asUsize ∈ operands) :
    Emits observer (auxiliaryInput target : Emit F NodeId) operands 1 32
      (fun id added => added = ⟨[id.asUsize], [], [true], [], [target], []⟩) fun _ _ => True := by
  refine declare_emits ⟨[], [], [true], [], [target], []⟩ CircuitBuilder.secretInput_emits (fun _ => rfl) ?_ ?_
  · intro compiler
    simp [layout, Layout.add_def, SecretSlot.isAuxiliary]
  · intro compiler id member
    simp only [List.mem_append, List.mem_singleton] at member ⊢
    rcases member with old | old | rfl
    · exact Or.inl (Or.inl old)
    · exact Or.inl (Or.inr old)
    · exact Or.inr given

theorem pushConstraint_emits {node : NodeId} (given : node.asUsize ∈ operands) :
    Emits observer (pushConstraint node : Emit F Unit) operands 0 0
      (fun _ added => added = ⟨[], [], [], [], [], [node]⟩) fun _ _ => True := by
  refine modify_emits (fun _ => rfl) (fun compiler => ?_) fun compiler id member => ?_
  · simp [layout, Layout.add_def]
  · simp only [List.mem_append, List.mem_singleton] at member ⊢
    rcases member with (old | rfl) | old
    · exact Or.inl (Or.inl old)
    · exact Or.inr given
    · exact Or.inl (Or.inr old)

/-- A wire that is there. -/
theorem required_emits (failure : PolicyError) {wire : Option NodeId} (present : wire.isSome = true)
    (given : ∀ k ∈ Refers.points wire, k ∈ operands) :
    Gate (observer (F := F)) (required failure wire) operands 0 0 fun _ id => wire = some id := by
  obtain ⟨id, rfl⟩ := Option.isSome_iff_exists.mp present
  exact Gate.pure given trivial fun _ => rfl

theorem constant_emits (constant : F) :
    Gate observer (Compiler.constant constant) operands 1 0 fun value id => value id.asUsize = constant :=
  onBuilder_emits (CircuitBuilder.constant_emits constant)

theorem addGate_emits {a b : NodeId} (left : a.asUsize ∈ operands) (right : b.asUsize ∈ operands) :
    Gate observer (addGate a b : Emit F NodeId) operands 1 37
      fun value id => value id.asUsize = value a.asUsize + value b.asUsize :=
  onBuilder_emits (CircuitBuilder.add_emits left right).mapError

theorem mulGate_emits {a b : NodeId} (left : a.asUsize ∈ operands) (right : b.asUsize ∈ operands) :
    Gate observer (mulGate a b : Emit F NodeId) operands 1 265
      fun value id => value id.asUsize = value a.asUsize * value b.asUsize := by
  have recorded : Emits (observer (F := F)) (modify fun compiler => { compiler with
      multiplicationCount := compiler.multiplicationCount + 1 } : Emit F Unit) operands 0 0
      (fun _ added => added = 0) fun _ _ => True :=
    modify_emits (fun _ => rfl) (fun _ => (add_zero _).symm) fun _ _ member => Or.inl member
  have counted : Gate (observer (F := F)) _ operands 0 0 fun _ _ => True :=
    recorded.ensuring fun _ _ declared => ⟨declared, trivial⟩
  refine (counted.bind fun _ _ =>
    (onBuilder_emits (CircuitBuilder.mul_emits left right).mapError).implies ?_).within rfl (by simp)
  exact fun _ _ product _ => product

/-- A product with a constant weighs less than another product. -/
theorem scaled_emits (factor : F) {node : NodeId} (given : node.asUsize ∈ operands) :
    Gate observer (constant factor >>= mulGate node : Emit F NodeId) operands 2 69
      fun value id => value id.asUsize = value node.asUsize * factor := by
  have gates : Gate observer (constant factor >>= mulGate node : Emit F NodeId) operands 2 (0 + 265)
      fun value id => value id.asUsize = value node.asUsize * factor := by
    refine (constant_emits factor).bind fun c _ => (mulGate_emits (by simp [given]) (by simp)).implies ?_
    intro value id product constant
    rw [product, constant]
  refine gates.reweigh fun compiler final id run => ?_
  obtain ⟨c, middle, declared, multiplied⟩ := Emission.bind_ok_iff.mp run
  rw [constant] at declared
  obtain ⟨_, first, rfl⟩ := Emission.zoom_ok_iff.mp declared
  obtain ⟨_, _, counted, run⟩ := Emission.bind_ok_iff.mp multiplied
  cases counted
  obtain ⟨_, second, rfl⟩ := Emission.zoom_ok_iff.mp run
  exact CircuitBuilder.weight_scaled first (Emission.mapError_ok_iff.mp second)

theorem subGate_emits {a b : NodeId} (left : a.asUsize ∈ operands) (right : b.asUsize ∈ operands) :
    Gate observer (subGate a b : Emit F NodeId) operands 3 106
      fun value id => value id.asUsize = value a.asUsize - value b.asUsize := by
  refine (scaled_emits (-1) right).pair fun negB _ => (addGate_emits (by simp [left]) (by simp)).implies ?_
  intro value id sum product
  rw [sum, product]
  ring

theorem oneMinus_emits {x : NodeId} (given : x.asUsize ∈ operands) :
    Gate observer (oneMinus x : Emit F NodeId) operands 4 106
      fun value id => value id.asUsize = 1 - value x.asUsize := by
  refine ((scaled_emits (-1) given).pair fun negated _ => (constant_emits 1).bind fun one _ =>
    (addGate_emits (by simp) (by simp)).implies ?_).within rfl (by simp)
  intro value id sum one product
  rw [sum, product, one]
  ring

/-- The value of a combinator over two wires. -/
def joinValue : Combinator → F → F → F
  | .and, a, b => a * b
  | .or, a, b => a + b - a * b

/-- The number of gates that join two wires. -/
def combineCost : Combinator → ℕ
  | .and => 1
  | .or => 5

/-- What the gates that join two wires weigh. -/
def combineWeight : Combinator → ℕ
  | .and => 265
  | .or => 408

theorem combineGate_emits (combinator : Combinator) {a b : NodeId} (left : a.asUsize ∈ operands)
    (right : b.asUsize ∈ operands) :
    Gate observer (combineGate combinator a b : Emit F NodeId) operands (combineCost combinator)
      (combineWeight combinator)
      fun value id => value id.asUsize = joinValue combinator (value a.asUsize) (value b.asUsize) := by
  cases combinator with
  | and => exact mulGate_emits left right
  | or =>
    refine (mulGate_emits left right).bind fun product _ =>
      (addGate_emits (by simp [left]) (by simp [right])).bind fun summed _ =>
      (subGate_emits (by simp) (by simp)).implies ?_
    intro value id difference sum product
    rw [difference, sum, product]
    rfl

/-- Joining wires folds their values, from left to right. -/
def joinValues (join : F → F → F) : Option F → List F → Option F
  | joined, [] => joined
  | none, value :: rest => joinValues join (some value) rest
  | some previous, value :: rest => joinValues join (some (join previous value)) rest

/-- A gate over two wires that joins their values. -/
def Joins (gate : NodeId → NodeId → Emit F NodeId) (join : F → F → F) (size weight : ℕ) : Prop :=
  ∀ (a b : NodeId) (operands : List ℕ), a.asUsize ∈ operands → b.asUsize ∈ operands →
    Gate observer (gate a b) operands size weight
      fun value id => value id.asUsize = join (value a.asUsize) (value b.asUsize)

variable {gate : NodeId → NodeId → Emit F NodeId} {join : F → F → F}

theorem joinWire_emits (joins : Joins gate join size weight) {wire : Option NodeId} {subWire : NodeId}
    (given : ∀ k ∈ Refers.points wire, k ∈ operands) (sub : subWire.asUsize ∈ operands) :
    Gate observer (joinWire gate wire subWire) operands (wire.toList.length * size) (wire.toList.length * weight)
      fun value id => some (value id.asUsize) =
        joinValues join (wire.map fun id => value id.asUsize) [value subWire.asUsize] := by
  cases wire with
  | none =>
    rw [Option.toList_none, List.length_nil, Nat.zero_mul, Nat.zero_mul]
    exact Gate.pure (by simpa using sub) trivial fun _ => rfl
  | some previous =>
    rw [Option.toList_some, List.length_singleton, Nat.one_mul, Nat.one_mul]
    exact (joins previous subWire operands (given _ (by simp)) sub).implies fun _ _ joined => congrArg some joined

theorem joined_cost (wire : Option NodeId) (first others count cost : ℕ) :
    first + (wire.toList.length * cost + (others + count * cost)) =
      first + others + (count + 1 + wire.toList.length - 1) * cost := by
  have gates : count + 1 + wire.toList.length - 1 = count + wire.toList.length := by omega
  rw [gates, Nat.add_mul]
  omega

/-- Joining wires takes one gate less than there are wires, and folds their values. -/
theorem joinWires_emits {γ : Type} (joins : Joins gate join size weight) {emission : γ → Emit F NodeId}
    {sizes weights : γ → ℕ} (meaning : (ℕ → F) → γ → F) {items : List γ}
    (emitted : ∀ item ∈ items, Gate observer (emission item) operands (sizes item) (weights item)
      fun value id => value id.asUsize = meaning value item)
    {wire : Option NodeId} (given : ∀ k ∈ Refers.points wire, k ∈ operands) :
    Gate observer (joinWires gate wire (items.map emission)) operands
      ((items.map sizes).sum + (items.length + wire.toList.length - 1) * size)
      ((items.map weights).sum + (items.length + wire.toList.length - 1) * weight)
      (fun value result => result.map (fun id => value id.asUsize) =
        joinValues join (wire.map fun id => value id.asUsize) (items.map (meaning value)))
      fun result => items ≠ [] ∨ wire.isSome = true → result.isSome = true := by
  induction items generalizing wire operands with
  | nil =>
    have alone : Gate observer (joinWires gate wire []) operands 0 0
        (fun value result => result.map (fun id => value id.asUsize) =
          joinValues join (wire.map fun id => value id.asUsize) [])
        fun result => ([] : List γ) ≠ [] ∨ wire.isSome = true → result.isSome = true := by
      refine Gate.pure given (fun present => present.resolve_left fun nonempty => nonempty rfl) fun value => ?_
      cases wire <;> rfl
    refine alone.within ?_ (Nat.zero_le _)
    cases wire <;> simp
  | cons item rest ih =>
    have others (subWire next : NodeId) : Gate observer (joinWires gate (some next) (rest.map emission))
        ([next.asUsize] ++ ([subWire.asUsize] ++ operands)) ((rest.map sizes).sum + rest.length * size)
        ((rest.map weights).sum + rest.length * weight)
        (fun value result => result.map (fun id => value id.asUsize) =
          joinValues join (some (value next.asUsize)) (rest.map (meaning value)))
        fun result => item :: rest ≠ [] ∨ wire.isSome = true → result.isSome = true := by
      have each : ∀ other ∈ rest, Gate observer (emission other) ([next.asUsize] ++ ([subWire.asUsize] ++ operands))
          (sizes other) (weights other) fun value id => value id.asUsize = meaning value other :=
        fun other inside => (emitted other (List.mem_cons_of_mem item inside)).widen (by simp +contextual)
      have present : ∀ k ∈ Refers.points (some next), k ∈ [next.asUsize] ++ ([subWire.asUsize] ++ operands) := by simp
      exact (ih each present).ensuring fun _ _ declared => ⟨declared.1, fun _ => declared.2 (Or.inr rfl)⟩
    refine ((emitted item List.mem_cons_self).bind fun subWire _ =>
      (joinWire_emits joins (fun k member => List.mem_append_right _ (given k member)) (by simp)).bind fun next _ =>
      (others subWire next).implies ?_).within ?_ ?_
    · intro value result folded here subValue
      rw [folded, here, List.map_cons, subValue]
      cases wire <;> rfl
    · exact joined_cost wire _ _ _ _
    · exact (joined_cost wire _ _ _ _).le

theorem joinValues_mul (a : F) (values : List F) :
    joinValues (fun x y => x * y) (some a) values = some (a * values.prod) := by
  induction values generalizing a with
  | nil => rw [joinValues, List.prod_nil, mul_one]
  | cons value rest ih => rw [joinValues, ih, List.prod_cons, mul_assoc]

theorem joinValues_add (a : F) (values : List F) :
    joinValues (fun x y => x + y) (some a) values = some (a + values.sum) := by
  induction values generalizing a with
  | nil => rw [joinValues, List.sum_nil, add_zero]
  | cons value rest ih => rw [joinValues, ih, List.sum_cons, add_assoc]

theorem joinValues_or (a : F) (values : List F) :
    joinValues (joinValue .or) (some a) values =
      some (1 - (1 - a) * (values.map fun value => 1 - value).prod) := by
  induction values generalizing a with
  | nil =>
    rw [joinValues, List.map_nil, List.prod_nil]
    congr 1
    ring
  | cons value rest ih =>
    rw [joinValues, ih, List.map_cons, List.prod_cons, joinValue]
    congr 1
    ring

theorem emitBooleanWire_emits {discriminant auxiliary : NodeId} (left : discriminant.asUsize ∈ operands)
    (right : auxiliary.asUsize ∈ operands) :
    Emits observer (emitBooleanWire discriminant auxiliary : Emit F (NodeId × NodeId)) operands 6 636
      (fun nodes added => added = ⟨[], [], [], [], [], [nodes.2]⟩) fun value nodes =>
        value nodes.1.asUsize = value discriminant.asUsize * value auxiliary.asUsize ∧
          value nodes.2.asUsize = value nodes.1.asUsize * (1 - value nodes.1.asUsize) := by
  have gates : Gate observer (booleanGates discriminant auxiliary : Emit F (NodeId × NodeId)) operands 6 636
      fun value nodes =>
        value nodes.1.asUsize = value discriminant.asUsize * value auxiliary.asUsize ∧
          value nodes.2.asUsize = value nodes.1.asUsize * (1 - value nodes.1.asUsize) := by
    refine ((mulGate_emits left right).bind fun w _ => (scaled_emits (-1) (by simp)).pair fun negated _ =>
      (constant_emits 1).bind fun one _ => (addGate_emits (by simp) (by simp)).bind fun complement _ =>
      (mulGate_emits (by simp) (by simp)).bind fun booleanity _ => Gate.pure (by simp) trivial ?_).within rfl (by simp)
    intro value product sum one negated wire
    refine ⟨wire, ?_⟩
    rw [product, sum, one, negated]
    ring
  refine gates.bind fun nodes _ => (pushConstraint_emits (by simp)).bind fun _ added pushed =>
    Emits.pure (by simp) ?_ ?_
  · rw [pushed, add_zero]
  · exact fun _ _ held => held

end Observation

section Field

variable {F : Type} [Field F] {operands : List ℕ}

theorem emitDiscriminant_emits {k : ThresholdK} (positive : 1 ≤ k.get.toNat) {sum : NodeId}
    (given : sum.asUsize ∈ operands) :
    Gate observer (emitDiscriminant k sum : Emit F NodeId) operands (2 * k.get.toNat + (k.get.toNat - 1))
      (302 * k.get.toNat) fun value id => value id.asUsize = Formula.discriminant k.get.toNat (value sum.asUsize) := by
  have factor (t : ℕ) : Gate (observer (F := F)) (do
        let offset ← Compiler.constant (-(t : F))
        addGate sum offset : Emit F NodeId) operands 2 37
      fun value id => value id.asUsize = value sum.asUsize - t := by
    refine ((constant_emits (-(t : F))).bind fun offset _ =>
      (addGate_emits (by simp [given]) (by simp)).implies ?_).within rfl (by simp)
    intro value id added constant
    rw [added, constant, sub_eq_add_neg]
  have joins : Joins (F := F) mulGate (fun x y => x * y) 1 265 := fun _ _ _ left right => mulGate_emits left right
  have nonempty : List.range k.get.toNat ≠ [] := by
    intro empty
    rw [List.range_eq_nil] at empty
    omega
  have product : Gate observer (joinWires mulGate none ((List.range k.get.toNat).map fun t : ℕ => do
        let offset ← Compiler.constant (-(t : F))
        addGate sum offset) : Emit F (Option NodeId)) operands _ _ _ _ :=
    joinWires_emits joins (fun (value : ℕ → F) (t : ℕ) => value sum.asUsize - t) (fun t _ => factor t) (by simp)
  refine (product.bind fun discriminant present =>
    (required_emits .invalidThreshold (present (Or.inl nonempty)) fun _ member =>
      List.mem_append_left _ member).implies ?_).within ?_ ?_
  · rintro value id rfl joined
    unfold Formula.discriminant
    cases shape : List.range k.get.toNat with
    | nil => exact absurd shape nonempty
    | cons t rest =>
      rw [shape, List.map_cons, Option.map_some, Option.map_none, joinValues, joinValues_mul] at joined
      rw [Option.some.inj joined, List.map_cons, List.prod_cons]
  · simp [Nat.mul_comm]
  · simp
    omega

end Field

section Fermat

variable {p : ℕ} {operands : List ℕ}

theorem rposition_none {bits : List Bool} (missing : rposition bits = none) (index : ℕ) :
    bits.getD index false = false := by
  induction bits generalizing index with
  | nil => cases index <;> rfl
  | cons bit rest ih =>
    rw [rposition] at missing
    cases later : rposition rest with
    | some position => rw [later] at missing; cases missing
    | none =>
      rw [later] at missing
      cases bit with
      | true => cases missing
      | false =>
        cases index with
        | zero => rfl
        | succ index => exact ih later index

theorem rposition_some {bits : List Bool} {highest : ℕ} (found : rposition bits = some highest) :
    bits.getD highest false = true ∧ ∀ index > highest, bits.getD index false = false := by
  induction bits generalizing highest with
  | nil => cases found
  | cons bit rest ih =>
    rw [rposition] at found
    cases later : rposition rest with
    | some position =>
      rw [later] at found
      cases found
      obtain ⟨set, above⟩ := ih later
      refine ⟨set, fun index larger => ?_⟩
      cases index with
      | zero => omega
      | succ index => exact above index (by omega)
    | none =>
      rw [later] at found
      cases bit with
      | false => cases found
      | true =>
        cases found
        refine ⟨rfl, fun index larger => ?_⟩
        cases index with
        | zero => omega
        | succ index => exact rposition_none later index

/-- The bits of a field element are those of its canonical representative. -/
theorem toBitsLe_getD [NeZero p] (value : ZMod p) (index : ℕ) :
    (toBitsLe value).getD index false = value.val.testBit index := by
  by_cases inside : index < 8 * elementWidth p
  · simp [toBitsLe, inside]
  · have small : value.val < 2 ^ index := by
      refine value.val_lt.trans (Nat.lt_of_lt_of_le Nat.lt_log2_self (Nat.pow_le_pow_right (by omega) ?_))
      unfold elementWidth at inside
      omega
    rw [Nat.testBit_lt_two_pow small]
    simp [toBitsLe, inside]

private theorem shiftRight_step (v index : ℕ) :
    v >>> index = 2 * (v >>> (index + 1)) + (v.testBit index).toNat := by
  rw [Nat.shiftRight_succ, Nat.toNat_testBit, Nat.shiftRight_eq_div_pow]
  omega

private theorem shiftRight_highest {v highest : ℕ} (set : v.testBit highest = true)
    (above : ∀ index > highest, v.testBit index = false) : v >>> highest = 1 := by
  apply Nat.eq_of_testBit_eq
  intro index
  rw [Nat.testBit_shiftRight]
  cases index with
  | zero => simpa using set
  | succ index => rw [above _ (by omega), Nat.testBit_lt_two_pow (Nat.one_lt_two_pow (by omega))]

/-- The multiplications of the exact indicator: one for each bit of `p - 1` below
the highest, and another one where the bit is set. -/
def fermatCost (p : ℕ) : ℕ :=
  let bits := toBitsLe (-1 : ZMod p)
  ((List.range ((rposition bits).getD 0)).map fun index => if bits.getD index false then 2 else 1).sum

theorem fermatStep_emits (bits : List Bool) {x acc : NodeId} (index : ℕ) (left : x.asUsize ∈ operands)
    (right : acc.asUsize ∈ operands) :
    Gate observer (fermatStep bits x acc index : Emit (ZMod p) NodeId) operands (if bits.getD index false then 2 else 1)
      (265 * if bits.getD index false then 2 else 1)
      fun value id => value id.asUsize =
        value acc.asUsize ^ 2 * value x.asUsize ^ (bits.getD index false).toNat := by
  have rest (squared : NodeId) : Gate (observer (F := ZMod p))
      (if bits.getD index false then mulGate squared x else pure squared) ([squared.asUsize] ++ operands)
      (if bits.getD index false then 1 else 0) (265 * if bits.getD index false then 1 else 0)
      fun value id => value id.asUsize = value squared.asUsize * value x.asUsize ^ (bits.getD index false).toNat := by
    cases bits.getD index false with
    | false => exact Gate.pure (by simp) trivial fun value => by simp
    | true => exact (mulGate_emits (by simp) (by simp [left])).implies fun value id product => by simp [product]
  refine ((mulGate_emits right right).bind fun squared _ => (rest squared).implies ?_).within ?_ ?_
  · intro value id product square
    rw [product, square, sq]
  · cases bits.getD index false <;> rfl
  · cases bits.getD index false <;> simp

/-- The highest set bit of `p - 1` is found. -/
private theorem exists_highest [Fact p.Prime] : ∃ highest, rposition (toBitsLe (-1 : ZMod p)) = some highest := by
  apply Option.ne_none_iff_exists'.mp
  intro missing
  have zero : (-1 : ZMod p).val = 0 := by
    apply Nat.eq_of_testBit_eq
    intro index
    rw [← toBitsLe_getD, rposition_none missing, Nat.zero_testBit]
  rw [ZMod.val_eq_zero, neg_eq_zero] at zero
  exact absurd zero one_ne_zero

theorem fermatNonzero_emits [Fact p.Prime] {x : NodeId} (given : x.asUsize ∈ operands) :
    Gate observer (fermatNonzero x : Emit (ZMod p) NodeId) operands (fermatCost p) (265 * fermatCost p)
      fun value id => value id.asUsize = value x.asUsize ^ (p - 1) := by
  have exponent : (-1 : ZMod p).val = p - 1 := by
    cases p with
    | zero => exact absurd rfl (Fact.out : Nat.Prime 0).ne_zero
    | succ n => exact ZMod.val_neg_one n
  obtain ⟨highest, found⟩ := @exists_highest p _
  obtain ⟨set, above⟩ := rposition_some found
  simp only [toBitsLe_getD, exponent] at set above
  have loop : Gate observer
      ((List.range highest).reverse.foldlM (fermatStep (toBitsLe (-1 : ZMod p)) x) x : Emit (ZMod p) NodeId) operands
      (fermatCost p) (265 * fermatCost p) fun (value : ℕ → ZMod p) acc =>
        value acc.asUsize = value x.asUsize ^ ((p - 1) >>> (highest - (List.range highest).reverse.length)) := by
    refine (Gate.foldlM (fun index => if (toBitsLe (-1 : ZMod p)).getD index false then 2 else 1)
      (fun index => 265 * if (toBitsLe (-1 : ZMod p)).getD index false then 2 else 1)
      (fun n (value : ℕ → ZMod p) (acc : NodeId) =>
        value acc.asUsize = value x.asUsize ^ ((p - 1) >>> (highest - n))) ?_ ?_ ?_).within ?_ ?_
    · simpa using given
    · intro value
      rw [Nat.sub_zero, shiftRight_highest set above, pow_one]
    · intro n index listed acc
      have position : n < highest := by simpa using (List.getElem?_eq_some_iff.mp listed).1
      obtain rfl : highest - (n + 1) = index := by
        rw [List.getElem?_reverse (by simpa using position), List.length_range,
          List.getElem?_range (by omega), Option.some.injEq] at listed
        omega
      refine (fermatStep_emits _ _ (by simp [given]) (by simp)).implies ?_
      intro value id step before
      have split := shiftRight_step (p - 1) (highest - (n + 1))
      have next : highest - (n + 1) + 1 = highest - n := by omega
      rw [next] at split
      rw [step, before, toBitsLe_getD, exponent, split, pow_add, ← pow_mul, Nat.mul_comm 2]
    · rw [List.map_reverse, List.sum_reverse, fermatCost, found, Option.getD_some]
    · rw [List.sum_map_mul_left, List.map_reverse, List.sum_reverse, fermatCost, found, Option.getD_some]
  unfold fermatNonzero
  simp only [found, Outcome.okOr_some]
  refine Emits.implies loop fun value acc power => ?_
  rwa [List.length_reverse, List.length_range, Nat.sub_self, Nat.shiftRight_zero] at power

/-- One exactly on zero, by Fermat's little theorem. -/
def zeroIndicator (x : ZMod p) : ZMod p := 1 - x ^ (p - 1)

theorem zeroIndicator_eq_bit [Fact p.Prime] (x : ZMod p) : zeroIndicator x = Formula.bit (decide (x = 0)) := by
  unfold zeroIndicator
  by_cases zero : x = 0
  · have positive : p - 1 ≠ 0 := by
      have := (Fact.out : p.Prime).one_lt
      omega
    simp [zero, zero_pow positive]
  · simp [zero, ZMod.pow_card_sub_one_eq_one zero]

variable [Fact p.Prime]

theorem matchCredential_emits {secret commitment : NodeId} (left : secret.asUsize ∈ operands)
    (right : commitment.asUsize ∈ operands) :
    Gate observer (matchCredential secret commitment : Emit (ZMod p) NodeId) operands (fermatCost p + 7)
      (265 * fermatCost p + 212)
      fun value id => value id.asUsize = zeroIndicator (value secret.asUsize - value commitment.asUsize) := by
  refine ((subGate_emits left right).bind fun difference _ => (fermatNonzero_emits (by simp)).bind fun nonzero _ =>
    (oneMinus_emits (by simp)).implies ?_).within (by omega) (by omega)
  intro value id complement power difference
  rw [complement, power, difference]
  rfl

theorem conjoinZero_emits {b c : NodeId} (left : b.asUsize ∈ operands) (right : c.asUsize ∈ operands) :
    Gate observer (conjoinZero b c : Emit (ZMod p) NodeId) operands (fermatCost p + 5) (265 * fermatCost p + 371)
      fun value id => value id.asUsize = value b.asUsize * zeroIndicator (value c.asUsize) := by
  refine (fermatNonzero_emits right).bind fun fermat _ => (oneMinus_emits (by simp)).bind fun satisfied _ =>
    (mulGate_emits (by simp [left]) (by simp)).implies ?_
  intro value id product complement power
  rw [product, complement, power]
  rfl

instance : Refers AmountInputs :=
  ⟨fun inputs => [inputs.amount.asUsize, inputs.limit.asUsize] ++ Refers.points inputs.bits⟩

@[simp] theorem points_amount (inputs : AmountInputs) :
    Refers.points inputs = [inputs.amount.asUsize, inputs.limit.asUsize] ++ Refers.points inputs.bits := rfl

/-- The value of an amount leaf: the product of the indicators of its constraints. -/
def amountValue (amount limit : ZMod p) (valueBits differenceBits : List (ZMod p)) : ZMod p :=
  ((RangeCheck.constraintValues amount limit valueBits differenceBits).map zeroIndicator).prod

theorem matchAmount_emits {inputs : AmountInputs} (given : ∀ k ∈ Refers.points inputs, k ∈ operands)
    (values : inputs.bits.valueBits.length = amountBitLen)
    (differences : inputs.bits.differenceBits.length = amountBitLen) :
    Gate observer (matchAmount inputs : Emit (ZMod p) NodeId) operands (4 * fermatCost p + (18 * amountBitLen + 34))
      (4 * (265 * fermatCost p + 371) + (1028 * amountBitLen + 318))
      fun value id => value id.asUsize =
        amountValue (value inputs.amount.asUsize) (value inputs.limit.asUsize)
          (inputs.bits.valueBits.map fun id => value id.asUsize)
          (inputs.bits.differenceBits.map fun id => value id.asUsize) := by
  have checks : Gate observer (onBuilder (RangeCheck.proveBoundedDifference inputs.amount inputs.limit inputs.bits) :
      Emit (ZMod p) RangeCheckOutputs) operands _ _ _ :=
    onBuilder_emits (RangeCheck.proveBoundedDifference_emits (given _ (by simp)) (given _ (by simp))
      (fun k member => given k (List.mem_append_right _ member)) values differences)
  have loop (outputs : RangeCheckOutputs) (one : NodeId) : Gate observer
      (outputs.toList.foldlM conjoinZero one : Emit (ZMod p) NodeId)
      ([one.asUsize] ++ (outputs.toList.map NodeId.asUsize ++ operands)) (4 * (fermatCost p + 5))
      (4 * (265 * fermatCost p + 371)) fun (value : ℕ → ZMod p) b => value one.asUsize = 1 →
        value b.asUsize =
          ((outputs.toList.take outputs.toList.length).map fun c => zeroIndicator (value c.asUsize)).prod := by
    refine (Gate.foldlM (fun _ => fermatCost p + 5) (fun _ => 265 * fermatCost p + 371)
      (fun n (value : ℕ → ZMod p) (b : NodeId) => value one.asUsize = 1 →
        value b.asUsize = ((outputs.toList.take n).map fun c => zeroIndicator (value c.asUsize)).prod) ?_ ?_ ?_).within
          ?_ ?_
    · simp
    · intro value start
      simpa using start
    · intro n c listed b
      have defined : c.asUsize ∈ outputs.toList.map NodeId.asUsize := List.mem_map_of_mem (List.mem_of_getElem? listed)
      refine (conjoinZero_emits (by simp) (by simp [defined])).implies ?_
      intro value id product before start
      rw [product, before start, List.take_add_one, listed]
      simp
    · simp [RangeCheckOutputs.toList]
      omega
    · simp [RangeCheckOutputs.toList]
      omega
  refine (checks.bind fun outputs _ => (constant_emits 1).bind fun one _ =>
    (loop outputs one).implies ?_).within (by omega) (by omega)
  intro value id product one outputs
  rw [product one, List.take_length, amountValue, ← outputs, List.map_map]
  rfl

end Fermat

end Compiler

end PaymentAuth
