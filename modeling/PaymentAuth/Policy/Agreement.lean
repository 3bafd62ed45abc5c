import PaymentAuth.Policy.Solving

/-! Reference evaluation of a compiled policy agrees with the evaluator. -/

namespace PaymentAuth

open Library

section Digits

/-- A `u64` difference is the difference of field elements exactly when it does not wrap. -/
theorem wrappedDifference_eq_iff (amount limit : UInt64) :
    ((limit - amount).toNat : FieldElement) - ((limit.toNat : FieldElement) - (amount.toNat : FieldElement)) = 0 ↔
      amount ≤ limit := by
  have order : UInt64.size < fieldOrder := by decide +kernel
  have small := amount.toNat_lt
  have small' := limit.toNat_lt
  rw [UInt64.le_iff_toNat_le]
  by_cases le : amount.toNat ≤ limit.toNat
  · have exact : (limit - amount).toNat = limit.toNat - amount.toNat :=
      UInt64.toNat_sub_of_le _ _ (UInt64.le_iff_toNat_le.mpr le)
    rw [exact, Nat.cast_sub le, sub_self]
    simp [le]
  · have wraps : (limit - amount).toNat + amount.toNat = limit.toNat + UInt64.size := by
      rw [UInt64.toNat_sub]
      simp only [UInt64.size] at *
      omega
    constructor
    · intro zero
      have cast : ((UInt64.size : ℕ) : FieldElement) = 0 := by
        have lifted := congrArg (Nat.cast : ℕ → FieldElement) wraps
        rw [Nat.cast_add, Nat.cast_add] at lifted
        linear_combination zero - lifted
      rw [ZMod.natCast_eq_zero_iff] at cast
      exact absurd (Nat.le_of_dvd (by decide) cast) (by omega)
    · exact fun le' => absurd le' le

private theorem decompose_bits (value : UInt64) :
    ((decompose value).map fun bit => (bit.toNat : FieldElement)) =
      (List.range amountBitLen).map fun i => Formula.bit (value.toNat.testBit i) := by
  rw [decompose, List.map_map]
  refine List.map_congr_left fun i _ => ?_
  cases digit : value.toNat.testBit i <;> simp [digit]

private theorem booleanitySum_decompose (value : UInt64) :
    RangeCheck.booleanitySum ((decompose value).map fun bit => (bit.toNat : FieldElement)) = 0 := by
  have digits := RangeCheck.booleanitySum_bits (F := FieldElement) ((List.range amountBitLen).map value.toNat.testBit)
  rw [List.map_map] at digits
  rw [decompose_bits]
  exact digits

theorem recombine_decompose (value : UInt64) :
    RangeCheck.recombine ((decompose value).map fun bit => (bit.toNat : FieldElement)) = value.toNat := by
  rw [decompose_bits, RangeCheck.recombine_testBit, amountBitLen, Nat.mod_eq_of_lt value.toNat_lt]

private theorem prod_indicators {p : ℕ} [Fact p.Prime] (x : ZMod p) :
    (([0, 0, 0, x] : List (ZMod p)).map Compiler.zeroIndicator).prod = Compiler.zeroIndicator x := by
  have zero : Compiler.zeroIndicator (0 : ZMod p) = 1 := by
    rw [Compiler.zeroIndicator_eq_bit]
    simp
  simp [zero]

/-- Filled with the digits of the amount and of the wrapped difference, an amount
leaf decides its cap. -/
theorem amountValue_filled (amount limit : UInt64) :
    Compiler.amountValue (amount.toNat : FieldElement) (limit.toNat : FieldElement)
      ((decompose amount).map fun bit => (bit.toNat : FieldElement))
      ((decompose (limit - amount)).map fun bit => (bit.toNat : FieldElement)) =
      Formula.bit (decide (amount ≤ limit)) := by
  unfold Compiler.amountValue RangeCheck.constraintValues
  rw [booleanitySum_decompose, booleanitySum_decompose, recombine_decompose, recombine_decompose, sub_self,
    prod_indicators, Compiler.zeroIndicator_eq_bit]
  exact congrArg Formula.bit (decide_eq_decide.mpr (wrappedDifference_eq_iff amount limit))

end Digits

/-- Distinct digests in play are told apart in the field. -/
def NoCongruence (digests : List Digest) : Prop :=
  ∀ left ∈ digests, ∀ right ∈ digests,
    (digestToField left : FieldElement) = digestToField right → left = right

/-- The digests that a policy and a witness bring into play: the credential ids
and the commitments of the secrets. -/
def digestsInPlay (sha256 : Bytes → Digest) (policy : Policy) (witness : PolicyWitness) : List Digest :=
  policy.collectRequirements.1.map CredentialId.toDigest ++
    witness.credentialSecrets.map fun entry => credentialCommitment sha256 entry.2

/-- Every credential of a policy has a secret. -/
def PolicyWitness.Covers (witness : PolicyWitness) (policy : Policy) : Prop :=
  ∀ id, .credential id ∈ policy.formula.leaves → ∃ secret, witness.secretFor id = some secret

/-- Whether the circuit of a leaf holds on its filled inputs: digests are
compared in the field, and a missing amount is zero. -/
def Policy.leafMatched (sha256 : Bytes → Digest) (witness : PolicyWitness) : PolicyLeaf → Bool
  | .amountAtMost limit => decide (witness.amountOrZero ≤ limit.value)
  | .credential id => (witness.secretFor id).any fun secret =>
      decide ((digestToField (credentialCommitment sha256 secret) : FieldElement) = digestToField id.toDigest)

namespace Compiled

variable {policy : Policy} {compiled : CompiledPolicy FieldElement} {root : NodeId} {wiring : Wiring}
  {sha256 : Bytes → Digest} {witness : PolicyWitness} {value : ℕ → FieldElement}

/-- A leaf of the wiring is a leaf of the policy. -/
theorem leaf_mem {p : ℕ} [Fact p.Prime] {compiled : CompiledPolicy (ZMod p)}
    (correct : Compiled policy compiled root wiring) {leaf : LeafWiring}
    (inside : .leaf leaf ∈ wiring.subformulas) : leaf.leaf ∈ policy.formula.leaves := by
  refine (correct.equivalent.leaves _).mpr (Formula.mem_leaves.mpr ?_)
  rw [← correct.formula, Formula.subformulas_map]
  exact List.mem_map.mpr ⟨_, inside, rfl⟩

/-- On the inputs filled from a witness a leaf wire tells whether the leaf is matched. -/
theorem leaf_value (correct : Compiled policy compiled root wiring) (covered : witness.Covers policy)
    (held : CircuitBuilder.Satisfies compiled.circuit.nodes value) {leaf : LeafWiring}
    (inside : .leaf leaf ∈ wiring.subformulas)
    (secrets : (Wiring.partLayout (.leaf leaf)).secretNodes.map value = leafSecrets sha256 witness leaf.leaf)
    (publics : (Wiring.partLayout (.leaf leaf)).publicNodes.map value = leafPublics leaf.leaf) :
    value leaf.wire.asUsize = Formula.bit (Policy.leafMatched sha256 witness leaf.leaf) := by
  have holds := correct.holds value held _ inside
  cases leaf with
  | amount limit inputs wire =>
    obtain ⟨values, differences⟩ := correct.shape _ inside
    simp only [Wiring.partLayout, LeafWiring.leaf, leafSecrets, leafPublics, List.map_cons, List.map_append,
      List.map_map, List.map_nil, List.cons.injEq, and_true] at secrets publics
    obtain ⟨amountValue, digits⟩ := secrets
    obtain ⟨valueDigits, differenceDigits⟩ := List.append_inj digits (by simp [values, decompose])
    rw [show value (LeafWiring.amount limit inputs wire).wire.asUsize = _ from holds, amountValue, publics]
    have decided := amountValue_filled witness.amountOrZero limit.value
    rw [← valueDigits, ← differenceDigits] at decided
    exact decided
  | credential id secret commitment wire =>
    obtain ⟨bytes, found⟩ := covered id (correct.leaf_mem inside)
    simp only [Wiring.partLayout, LeafWiring.leaf, leafSecrets, leafPublics, List.map_cons, List.map_nil,
      List.cons.injEq, and_true, found, Option.getD_some] at secrets publics
    rw [show value (LeafWiring.credential id secret commitment wire).wire.asUsize = _ from holds, secrets, publics,
      Compiler.zeroIndicator_eq_bit, LeafWiring.leaf, Policy.leafMatched, found, Option.any_some]
    exact congrArg Formula.bit (decide_eq_decide.mpr sub_eq_zero)

end Compiled

/-- Inputs that hold what a witness fills at every leaf, and the values they lead to. -/
structure Prepared {p : ℕ} (sha256 : Bytes → Digest) (witness : PolicyWitness) (compiled : CompiledPolicy (ZMod p))
    (wiring : Wiring) (secrets publics values : List (ZMod p)) : Prop where
  evaluated : evalAllNodes compiled.circuit secrets publics = .ok values
  leaves : ∀ leaf, .leaf leaf ∈ wiring.subformulas →
    (Wiring.partLayout (.leaf leaf)).secretNodes.map (inputAt values) = leafSecrets sha256 witness leaf.leaf
  publics : publics = wiring.subformulas.flatMap partPublics

/-- Auxiliary inputs that invert their discriminants. -/
def Settled {p : ℕ} (values : List (ZMod p)) (thresholds : List ThresholdWiring) : Prop :=
  ∀ nodes ∈ thresholds, inputAt values nodes.auxiliary.asUsize = (inputAt values nodes.discriminant.asUsize)⁻¹

section Rounds

variable {p : ℕ} [Fact p.Prime] {policy : Policy} {compiled : CompiledPolicy (ZMod p)} {root : NodeId}
  {wiring : Wiring} {sha256 : Bytes → Digest} {witness : PolicyWitness} {secrets publics values : List (ZMod p)}

theorem Prepared.satisfies (correct : Compiled policy compiled root wiring)
    (prepared : Prepared sha256 witness compiled wiring secrets publics values) :
    CircuitBuilder.Satisfies compiled.circuit.nodes (inputAt values) :=
  ((evalAllNodes_ok_iff correct.wellFormed).mp prepared.evaluated).2.2.2.satisfies

/-- In prepared inputs every leaf reads its own public inputs. -/
theorem Prepared.leaf_publics (correct : Compiled policy compiled root wiring)
    (prepared : Prepared sha256 witness compiled wiring secrets publics values) {leaf : LeafWiring}
    (inside : .leaf leaf ∈ wiring.subformulas) :
    (Wiring.partLayout (.leaf leaf)).publicNodes.map (inputAt values) = leafPublics leaf.leaf := by
  have whole := (correct.inputs_eq prepared.evaluated).2
  rw [prepared.publics, wiring.publicNodes_eq, List.map_flatMap] at whole
  exact (eq_of_flatMap_eq (fun part _ => by rw [partPublics_length, List.length_map]) whole _ inside).symm

/-- In prepared inputs every leaf wire tells whether its leaf is matched. -/
theorem Prepared.leaf_value {compiled : CompiledPolicy FieldElement} {secrets publics values : List FieldElement}
    (correct : Compiled policy compiled root wiring) (covered : witness.Covers policy)
    (prepared : Prepared sha256 witness compiled wiring secrets publics values) {leaf : LeafWiring}
    (inside : .leaf leaf ∈ wiring.subformulas) :
    inputAt values leaf.wire.asUsize = Formula.bit (Policy.leafMatched sha256 witness leaf.leaf) :=
  correct.leaf_value covered (prepared.satisfies correct) inside (prepared.leaves leaf inside)
    (prepared.leaf_publics correct inside)

/-- A leaf wire does not depend on the auxiliary inputs. -/
theorem Prepared.leaf_congr (correct : Compiled policy compiled root wiring) {secrets' values' : List (ZMod p)}
    (prepared : Prepared sha256 witness compiled wiring secrets publics values)
    (prepared' : Prepared sha256 witness compiled wiring secrets' publics values') {leaf : LeafWiring}
    (inside : .leaf leaf ∈ wiring.subformulas) :
    inputAt values leaf.wire.asUsize = inputAt values' leaf.wire.asUsize := by
  have here := correct.holds _ (prepared.satisfies correct) _ inside
  have there := correct.holds _ (prepared'.satisfies correct) _ inside
  have secretNodes := (prepared.leaves leaf inside).trans (prepared'.leaves leaf inside).symm
  have publicNodes := (prepared.leaf_publics correct inside).trans (prepared'.leaf_publics correct inside).symm
  cases leaf with
  | amount limit inputs wire =>
    simp only [Wiring.partLayout, List.map_cons, List.map_nil, List.map_append, List.map_map, List.cons.injEq,
      and_true] at secretNodes publicNodes
    obtain ⟨amountValue, digits⟩ := secretNodes
    obtain ⟨valueDigits, differenceDigits⟩ := List.append_inj digits (by simp)
    have valueBits : inputs.bits.valueBits.map (fun id => inputAt values id.asUsize) =
        inputs.bits.valueBits.map fun id => inputAt values' id.asUsize := valueDigits
    have differenceBits : inputs.bits.differenceBits.map (fun id => inputAt values id.asUsize) =
        inputs.bits.differenceBits.map fun id => inputAt values' id.asUsize := differenceDigits
    rw [Wiring.PartHolds, amountValue, publicNodes, valueBits, differenceBits] at here
    exact here.trans there.symm
  | credential id secret commitment wire =>
    simp only [Wiring.partLayout, List.map_cons, List.map_nil, List.cons.injEq, and_true] at secretNodes publicNodes
    rw [Wiring.PartHolds, secretNodes, publicNodes] at here
    exact here.trans there.symm

/-- A discriminant depends on the auxiliary inputs of earlier thresholds only. -/
theorem Prepared.discriminant_congr (correct : Compiled policy compiled root wiring)
    {secrets' values' : List (ZMod p)}
    (prepared : Prepared sha256 witness compiled wiring secrets publics values)
    (prepared' : Prepared sha256 witness compiled wiring secrets' publics values') {r : ℕ} {nodes : ThresholdWiring}
    (found : wiring.thresholds[r]? = some nodes)
    (same : ∀ earlier ∈ wiring.thresholds.take r,
      inputAt values earlier.auxiliary.asUsize = inputAt values' earlier.auxiliary.asUsize) :
    inputAt values nodes.discriminant.asUsize = inputAt values' nodes.discriminant.asUsize := by
  obtain ⟨k, members, inside, below⟩ := Wiring.thresholds_below found
  rw [(correct.holds _ (prepared.satisfies correct) _ inside).1,
    (correct.holds _ (prepared'.satisfies correct) _ inside).1]
  congr 2
  refine List.map_congr_left fun member listed => ?_
  refine Formula.wire_congr (fun leaf leafInside => ?_) fun k' nodes' members' thresholdInside => ?_
  · have whole := Formula.mem_subformulas_trans inside (Formula.mem_subformulas_atLeast listed leafInside)
    exact prepared.leaf_congr correct prepared' whole
  · exact same nodes' (below k' nodes' members' member listed thresholdInside)

/-- The given positions of the secret inputs hold the auxiliary inputs, in order. -/
def Placed (wiring : Wiring) (positions : List ℕ) : Prop :=
  positions.map (fun i => wiring.layout.secretNodes[i]?) =
    wiring.thresholds.map fun nodes => some nodes.auxiliary.asUsize

/-- The thresholds and the entries of a round correspond. -/
private theorem Placed.correspond {positions : List ℕ} (placed : Placed wiring positions) :
    (∀ nodes ∈ wiring.thresholds, ∃ i,
        (i, nodes.discriminant) ∈ positions.zip (wiring.thresholds.map ThresholdWiring.discriminant) ∧
          wiring.layout.secretNodes[i]? = some nodes.auxiliary.asUsize) ∧
      ∀ entry ∈ positions.zip (wiring.thresholds.map ThresholdWiring.discriminant), ∃ nodes ∈ wiring.thresholds,
        entry.2 = nodes.discriminant ∧ wiring.layout.secretNodes[entry.1]? = some nodes.auxiliary.asUsize := by
  have aligned (j : ℕ) : positions[j]?.map (fun i => wiring.layout.secretNodes[i]?) =
      wiring.thresholds[j]?.map fun nodes => some nodes.auxiliary.asUsize := by
    rw [← List.getElem?_map, ← List.getElem?_map]
    exact congrArg (fun list : List (Option ℕ) => list[j]?) placed
  constructor
  · intro nodes listed
    obtain ⟨j, found⟩ := List.mem_iff_getElem?.mp listed
    have here := aligned j
    rw [found, Option.map_some, Option.map_eq_some_iff] at here
    obtain ⟨i, position, held⟩ := here
    refine ⟨i, List.mem_iff_getElem?.mpr ⟨j, List.getElem?_zip_eq_some.mpr ⟨position, ?_⟩⟩, held⟩
    rw [List.getElem?_map, found, Option.map_some]
  · intro entry listed
    obtain ⟨j, found⟩ := List.mem_iff_getElem?.mp listed
    obtain ⟨position, target⟩ := List.getElem?_zip_eq_some.mp found
    rw [List.getElem?_map, Option.map_eq_some_iff] at target
    obtain ⟨nodes, threshold, same⟩ := target
    have here := aligned j
    rw [position, threshold, Option.map_some, Option.map_some, Option.some.injEq] at here
    exact ⟨nodes, List.mem_of_getElem? threshold, same.symm, here⟩

theorem Compiled.secretNodes_nodup (correct : Compiled policy compiled root wiring) :
    wiring.layout.secretNodes.Nodup := by
  rw [← correct.secretNodes]
  exact List.nodup_range.filter _

private theorem Placed.nodup (correct : Compiled policy compiled root wiring) {positions : List ℕ}
    (placed : Placed wiring positions) : positions.Nodup := by
  refine List.Nodup.of_map (fun i => wiring.layout.secretNodes[i]?) ?_
  have distinct := (Wiring.auxiliary_nodup correct.secretNodes_nodup).map (Option.some_injective ℕ)
  rw [List.map_map] at distinct
  exact placed ▸ distinct

/-- One round inverts the discriminants of the round before and keeps the leaves' inputs. -/
theorem Prepared.solveRound_ok (correct : Compiled policy compiled root wiring)
    (defined : ∀ id ∈ compiled.auxiliaryTargets, id.asUsize < compiled.circuit.nodes.length) {positions : List ℕ}
    (placed : Placed wiring positions) (prepared : Prepared sha256 witness compiled wiring secrets publics values) :
    ∃ next changed values', compiled.solveRound publics positions secrets = .ok (next, changed) ∧
      Prepared sha256 witness compiled wiring next publics values' ∧
      (∀ nodes ∈ wiring.thresholds,
        inputAt values' nodes.auxiliary.asUsize = (inputAt values nodes.discriminant.asUsize)⁻¹) ∧
      (changed = false → next = secrets) := by
  obtain ⟨secretCount, publicCount, size, _⟩ := (evalAllNodes_ok_iff correct.wellFormed).mp prepared.evaluated
  have before := (correct.inputs_eq prepared.evaluated).1
  have targets : compiled.auxiliaryTargets = wiring.thresholds.map ThresholdWiring.discriminant :=
    correct.targets.trans wiring.targets_eq
  obtain ⟨covered, listed⟩ := placed.correspond
  rw [← targets] at covered listed
  have read {secrets values : List (ZMod p)} (whole : secrets = wiring.layout.secretNodes.map (inputAt values))
      {i n : ℕ} (found : wiring.layout.secretNodes[i]? = some n) : secrets[i]? = some (inputAt values n) := by
    rw [whole, List.getElem?_map, found, Option.map_some]
  have inside : ∀ entry ∈ positions.zip compiled.auxiliaryTargets,
      entry.1 < secrets.length ∧ entry.2.asUsize < values.length := by
    intro entry member
    obtain ⟨nodes, _, _, held⟩ := listed entry member
    refine ⟨(List.getElem?_eq_some_iff.mp (read before held)).1, ?_⟩
    rw [size]
    exact defined entry.2 (List.of_mem_zip member).2
  have distinct : ((positions.zip compiled.auxiliaryTargets).map Prod.fst).Nodup := by
    have count : positions.length = compiled.auxiliaryTargets.length := by
      simpa [targets] using congrArg List.length placed
    rw [List.map_fst_zip count.le]
    exact placed.nodup correct
  obtain ⟨next, changed, run, length, solved, others, unchanged⟩ :=
    @CompiledPolicy.solveAuxiliaries_ok _ values _ secrets false inside distinct
  obtain ⟨values', evaluated⟩ := @exists_evalAllNodes _ _ compiled.circuit correct.wellFormed next publics
    (length.trans secretCount) publicCount
  have after := (correct.inputs_eq evaluated).1
  refine ⟨next, changed, values', ?_, ⟨evaluated, fun leaf member => ?_, prepared.publics⟩, fun nodes member => ?_,
    fun same => (unchanged same).2⟩
  · rw [CompiledPolicy.solveRound, prepared.evaluated, Outcome.ok_bind, run]
  · rw [← prepared.leaves leaf member]
    refine List.map_congr_left fun n declared => ?_
    have node : n ∈ wiring.layout.secretNodes := by
      rw [wiring.secretNodes_eq]
      exact List.mem_flatMap.mpr ⟨_, member, declared⟩
    obtain ⟨i, found⟩ := List.mem_iff_getElem?.mp node
    have untouched : i ∉ (positions.zip compiled.auxiliaryTargets).map Prod.fst := by
      rw [List.mem_map]
      rintro ⟨entry, zipped, rfl⟩
      obtain ⟨nodes, threshold, _, held⟩ := listed entry zipped
      rw [found, Option.some.injEq] at held
      exact Wiring.auxiliary_not_mem_leaf correct.secretNodes_nodup member threshold (held ▸ declared)
    have same := others i untouched
    rwa [read after found, read before found, Option.some.injEq] at same
  · obtain ⟨i, entry, held⟩ := covered nodes member
    have here := solved _ entry
    rw [read after held, Option.some.injEq] at here
    exact here

/-- Each round settles one more threshold. -/
private theorem Settled.step (correct : Compiled policy compiled root wiring)
    {next values' : List (ZMod p)} (prepared : Prepared sha256 witness compiled wiring secrets publics values)
    (prepared' : Prepared sha256 witness compiled wiring next publics values') {r : ℕ}
    (inverted : ∀ nodes ∈ wiring.thresholds,
      inputAt values' nodes.auxiliary.asUsize = (inputAt values nodes.discriminant.asUsize)⁻¹)
    (settled : Settled values (wiring.thresholds.take r)) : Settled values' (wiring.thresholds.take (r + 1)) := by
  intro nodes member
  obtain ⟨j, found⟩ := List.mem_iff_getElem?.mp member
  have early : j < r + 1 := (List.getElem?_eq_some_iff.mp found).1.trans_le (List.length_take_le _ _)
  rw [List.getElem?_take_of_lt early] at found
  rw [inverted nodes (List.mem_of_mem_take member)]
  refine congrArg (·⁻¹) (prepared.discriminant_congr correct prepared' found fun earlier before => ?_)
  have settledBefore : earlier ∈ wiring.thresholds.take r :=
    (List.take_sublist_take_left (by omega)).subset before
  rw [settled earlier settledBefore, inverted earlier (List.mem_of_mem_take before)]

/-- Enough rounds settle every threshold. -/
theorem Prepared.solveRounds_ok (correct : Compiled policy compiled root wiring)
    (defined : ∀ id ∈ compiled.auxiliaryTargets, id.asUsize < compiled.circuit.nodes.length) {positions : List ℕ}
    (placed : Placed wiring positions) {rounds r : ℕ} (enough : wiring.thresholds.length ≤ r + rounds)
    (prepared : Prepared sha256 witness compiled wiring secrets publics values)
    (settled : Settled values (wiring.thresholds.take r)) :
    ∃ solved values', compiled.solveRounds publics positions rounds secrets = .ok solved ∧
      Prepared sha256 witness compiled wiring solved publics values' ∧ Settled values' wiring.thresholds := by
  induction rounds generalizing r secrets values with
  | zero =>
    rw [List.take_of_length_le (by omega)] at settled
    exact ⟨secrets, values, rfl, prepared, settled⟩
  | succ rounds ih =>
    obtain ⟨next, changed, values', run, prepared', inverted, unchanged⟩ :=
      prepared.solveRound_ok correct defined placed
    rw [CompiledPolicy.solveRounds, run, Outcome.ok_bind]
    cases changed with
    | true => exact ih (by omega) prepared' (settled.step correct prepared prepared' inverted)
    | false =>
      refine ⟨next, values', rfl, prepared', ?_⟩
      have same := unchanged rfl
      subst same
      have equal : values = values' := by
        have evaluated := prepared.evaluated.symm.trans prepared'.evaluated
        cases evaluated
        rfl
      subst equal
      exact inverted

end Rounds

section Agreement

variable {policy : Policy} {compiled : CompiledPolicy FieldElement} {root : NodeId} {wiring : Wiring}
  {sha256 : Bytes → Digest} {witness : PolicyWitness}

/-- Filling the normal form of a covered policy prepares the inputs of its circuit. -/
theorem Compiled.fill_ok {p : ℕ} [Fact p.Prime] {compiled : CompiledPolicy (ZMod p)}
    (correct : Compiled policy compiled root wiring) (sha256 : Bytes → Digest) (covered : witness.Covers policy) :
    ∃ filled values, fill sha256 witness policy.normalizeNode ⟨[], [], []⟩ = .ok ((), filled) ∧
      Prepared sha256 witness compiled wiring filled.secrets filled.publics values ∧
      Placed wiring filled.auxPositions := by
  have each : Covered witness wiring.subformulas := fun id secret commitment wire inside =>
    covered id (correct.leaf_mem inside)
  have erased : wiring.subformulas.map Wiring.erase = policy.normalizeNode.formula.subformulas := by
    rw [← correct.formula, Formula.subformulas_map]
    rfl
  have run := @fillParts_ok p sha256 witness _ each ⟨[], [], []⟩
  rw [erased, ← fill_eq_forM] at run
  obtain ⟨secrets, publics⟩ := @extend_inputs p sha256 witness wiring.subformulas ⟨[], [], []⟩
  obtain ⟨positions, noted, placed⟩ :=
    @extend_auxPositions p sha256 witness _ correct.shape ⟨[], [], []⟩ [] rfl
  rw [List.nil_append] at secrets publics noted
  generalize wiring.subformulas.foldl (FilledInputs.extend sha256 witness) ⟨[], [], []⟩ = filled at *
  have secretLengths : ∀ part ∈ wiring.subformulas,
      (partSecrets sha256 witness part : List (ZMod p)).length = (Wiring.partLayout part).secretNodes.length :=
    fun part inside => partSecrets_length sha256 witness (correct.shape part inside)
  have secretCount : filled.secrets.length = compiled.circuit.numSecretInputs := by
    rw [correct.secretCount, wiring.secretNodes_eq, secrets, List.length_flatMap, List.length_flatMap,
      List.map_congr_left secretLengths]
  have publicCount : filled.publics.length = compiled.circuit.numPublicInputs := by
    rw [correct.publicCount, wiring.publicNodes_eq, publics, List.length_flatMap, List.length_flatMap,
      List.map_congr_left fun part _ => partPublics_length part]
  obtain ⟨values, evaluated⟩ := exists_evalAllNodes correct.wellFormed secretCount publicCount
  have whole := (correct.inputs_eq evaluated).1
  rw [secrets, wiring.secretNodes_eq, List.map_flatMap] at whole
  refine ⟨filled, values, run, ⟨evaluated, fun leaf inside => ?_, publics⟩, ?_⟩
  · exact (eq_of_flatMap_eq (fun part member => by rw [secretLengths part member, List.length_map]) whole _ inside).symm
  · rw [noted, Placed, wiring.secretNodes_eq]
    exact placed

/-- The root of settled inputs decides the policy over its matched leaves. -/
theorem Prepared.root_value (correct : Compiled policy compiled root wiring) (covered : witness.Covers policy)
    {secrets publics values : List FieldElement}
    (prepared : Prepared sha256 witness compiled wiring secrets publics values)
    (settled : Settled values wiring.thresholds) :
    inputAt values root.asUsize = Formula.bit (policy.formula.eval (Policy.leafMatched sha256 witness)) ∧
      ∀ id ∈ wiring.layout.constraints, inputAt values id.asUsize = 0 := by
  have held := prepared.satisfies correct
  have discriminants (k : ℕ) (nodes : ThresholdWiring) (members : List Wiring)
      (inside : .atLeast k nodes members ∈ wiring.subformulas) :
      inputAt values nodes.auxiliary.asUsize =
        (Formula.discriminant k (members.map (Wiring.valueAt (inputAt values))).sum)⁻¹ := by
    rw [settled nodes (Wiring.mem_thresholds.mpr ⟨k, members, inside⟩), (correct.holds _ held _ inside).1]
  refine ⟨?_, fun id member => ?_⟩
  · rw [correct.value _ held, ← correct.eval_leaf]
    refine Formula.wire_eq_bit _ fieldElement_wide (fun leaf inside => prepared.leaf_value correct covered inside)
      fun k nodes members inside => ?_
    exact ⟨(correct.threshold_bounds inside).2.2, discriminants k nodes members inside⟩
  · rw [wiring.constraints_eq, List.mem_map] at member
    obtain ⟨nodes, listed, rfl⟩ := member
    obtain ⟨k, members, inside⟩ := Wiring.mem_thresholds.mp listed
    obtain ⟨_, product, booleanity⟩ := correct.holds _ held _ inside
    rw [booleanity, product, settled nodes listed]
    by_cases zero : inputAt values nodes.discriminant.asUsize = 0
    · rw [zero, zero_mul, zero_mul]
    · rw [mul_inv_cancel₀ zero, sub_self, mul_zero]

end Agreement

theorem CompiledPolicy.anyNonzero_false_iff {p : ℕ} {values : List (ZMod p)} {ids : List NodeId}
    (inside : ∀ id ∈ ids, id.asUsize < values.length) :
    anyNonzero values ids = .ok false ↔ ∀ id ∈ ids, inputAt values id.asUsize = 0 := by
  induction ids with
  | nil => simp [anyNonzero]
  | cons id rest ih =>
    have others := ih fun other member => inside other (List.mem_cons_of_mem _ member)
    rw [anyNonzero, inputAt_of_lt (inside id List.mem_cons_self), Outcome.expect_some, Outcome.ok_bind,
      List.forall_mem_cons, ← others]
    by_cases zero : inputAt values id.asUsize = 0
    · rw [if_neg (not_not.mpr zero)]
      simp [zero]
    · rw [if_pos zero]
      simp [zero]

section Building

variable {sha256 : Bytes → Digest} {policy : Policy} {compiled : CompiledPolicy FieldElement} {root : NodeId}
  {wiring : Wiring} {witness : PolicyWitness}

/-- The inputs built for a covered policy are prepared and their auxiliary inputs settled. -/
theorem Compiled.buildInputs_ok {p : ℕ} [Fact p.Prime] {compiled : CompiledPolicy (ZMod p)}
    (correct : Compiled policy compiled root wiring) (sha256 : Bytes → Digest) (covered : witness.Covers policy) :
    ∃ secrets publics values, compiled.buildInputs sha256 policy witness = .ok (secrets, publics) ∧
      Prepared sha256 witness compiled wiring secrets publics values ∧ Settled values wiring.thresholds := by
  obtain ⟨filled, values, fills, prepared, placed⟩ := correct.fill_ok sha256 covered
  have rounds : wiring.thresholds.length ≤ 0 + (compiled.auxiliaryTargets.length + 1) := by
    rw [correct.targets, wiring.targets_eq, List.length_map]
    omega
  obtain ⟨secrets, values', solves, prepared', settled⟩ :=
    prepared.solveRounds_ok correct correct.solvable placed rounds (by simp [Settled])
  refine ⟨secrets, filled.publics, values', ?_, prepared', settled⟩
  rw [CompiledPolicy.buildInputs, Policy.normalize, Outcome.ok_bind, fills]
  simp only [Outcome.ok_bind, solves]

/-- Reference evaluation of a covered policy decides it over its matched leaves. -/
theorem CompiledPolicy.referenceEvaluate_eq (compiles : compileWithLayout policy = .ok compiled)
    (covered : witness.Covers policy) :
    compiled.referenceEvaluate sha256 policy witness =
      .ok (policy.formula.eval (Policy.leafMatched sha256 witness)) := by
  obtain ⟨root, wiring, correct⟩ := compileWithLayout_ok compiles
  obtain ⟨secrets, publics, values, built, prepared, settled⟩ := correct.buildInputs_ok sha256 covered
  obtain ⟨one, zeros⟩ := prepared.root_value correct covered settled
  have size := ((evalAllNodes_ok_iff correct.wellFormed).mp prepared.evaluated).2.2.1
  have outputs : ∀ id ∈ compiled.circuit.outputs, id.asUsize < values.length := by
    rw [size]
    exact correct.wellFormed.outputs
  have published : compiled.circuit.outputs.take compiled.rangeCheckOutputs = wiring.layout.constraints := by
    rw [correct.outputs, correct.rangeCheckOutputs, List.take_left]
  have last : compiled.circuit.outputs.getLast? = some root := by
    rw [correct.outputs, List.getLast?_concat]
  have constraints : anyNonzero values wiring.layout.constraints = .ok false :=
    (anyNonzero_false_iff fun id member => outputs id (List.mem_of_mem_take (published.symm ▸ member))).mpr zeros
  have rootInside : root.asUsize < values.length := outputs root (List.mem_of_getLast? last)
  rw [referenceEvaluate, built]
  simp only [Outcome.ok_bind, prepared.evaluated, published, constraints, last, Outcome.okOr_some,
    inputAt_of_lt rootInside, Outcome.expect_some, one, Bool.false_eq_true, if_false]
  cases policy.formula.eval (Policy.leafMatched sha256 witness) <;> rfl

end Building

section Matching

variable {sha256 : Bytes → Digest} {policy : Policy} {witness : PolicyWitness}

theorem PolicyWitness.covers_of_matched (matched : witness.validateAgainst policy = .ok ()) : witness.Covers policy :=
  (PolicyWitness.validateAgainst_ok_iff.mp matched).1

/-- Over a matched policy the field tells leaves apart as the evaluator does. -/
theorem Policy.eval_leafMatched (matched : witness.validateAgainst policy = .ok ())
    (apart : NoCongruence (digestsInPlay sha256 policy witness)) :
    policy.formula.eval (leafMatched sha256 witness) = policy.formula.eval (leafSatisfied sha256 witness) := by
  obtain ⟨credentials, amounts⟩ := PolicyWitness.validateAgainst_ok_iff.mp matched
  have same : ∀ leaf ∈ policy.formula.leaves, leafMatched sha256 witness leaf = leafSatisfied sha256 witness leaf := by
    intro leaf listed
    cases leaf with
    | amountAtMost limit =>
      obtain ⟨amount, given⟩ := amounts limit listed
      simp [leafMatched, leafSatisfied, PolicyWitness.amountOrZero, given]
    | credential id =>
      obtain ⟨bytes, found⟩ := credentials id listed
      have known : id.toDigest ∈ digestsInPlay sha256 policy witness :=
        List.mem_append_left _ (List.mem_map_of_mem ((policy.collectRequirements_iff.1 id).mpr listed))
      have committed : credentialCommitment sha256 bytes ∈ digestsInPlay sha256 policy witness := by
        refine List.mem_append_right _ ?_
        obtain ⟨entry, chosen, rfl⟩ := Option.map_eq_some_iff.mp found
        exact List.mem_map.mpr ⟨entry, List.mem_of_find?_eq_some chosen, rfl⟩
      rw [leafMatched, leafSatisfied, found, Option.any_some, Option.any_some, Bool.eq_iff_iff, decide_eq_true_eq,
        beq_iff_eq]
      exact ⟨apart _ committed _ known, congrArg digestToField⟩
  rw [Bool.eq_iff_iff]
  exact ⟨Formula.eval_mono fun leaf inside held => (same leaf (Formula.mem_leaves.mpr inside)) ▸ held,
    Formula.eval_mono fun leaf inside held => (same leaf (Formula.mem_leaves.mpr inside)).symm ▸ held⟩

/-- What the evaluator satisfies the circuit matches. -/
theorem Policy.eval_leafMatched_of_satisfied
    (satisfied : policy.formula.eval (leafSatisfied sha256 witness) = true) :
    policy.formula.eval (leafMatched sha256 witness) = true := by
  refine Formula.eval_mono (fun leaf _ held => ?_) satisfied
  cases leaf with
  | amountAtMost limit =>
    cases given : witness.amount with
    | none => simp [leafSatisfied, given] at held
    | some amount => simpa [leafSatisfied, leafMatched, PolicyWitness.amountOrZero, given] using held
  | credential id =>
    cases found : witness.secretFor id with
    | none => simp [leafSatisfied, found] at held
    | some secret =>
      have opened : credentialCommitment sha256 secret = id.toDigest := by simpa [leafSatisfied, found] using held
      simp [leafMatched, found, opened]

/-- The evaluator decides a matched policy over its satisfied leaves. -/
theorem Policy.evaluate_eq (matched : witness.validateAgainst policy = .ok ()) :
    ∃ result, policy.evaluate sha256 witness = .ok result ∧
      result.authorized = policy.formula.eval (leafSatisfied sha256 witness) :=
  ⟨⟨_, policy.evalNode sha256 witness⟩, by rw [evaluate, matched]; rfl, policy.evalNode_isSatisfied sha256 witness⟩

end Matching

/-- Compiler and evaluator agree: reference evaluation of a compiled policy
returns what the evaluator returns, unless digests in play collide in the field. -/
theorem CompiledPolicy.referenceEvaluate_agrees {sha256 : Bytes → Digest} {policy : Policy}
    {compiled : CompiledPolicy FieldElement} {witness : PolicyWitness}
    (compiles : compileWithLayout policy = .ok compiled) (matched : witness.validateAgainst policy = .ok ())
    (apart : NoCongruence (digestsInPlay sha256 policy witness)) :
    ∃ result, policy.evaluate sha256 witness = .ok result ∧
      compiled.referenceEvaluate sha256 policy witness = .ok result.authorized := by
  obtain ⟨result, evaluated, authorized⟩ := @Policy.evaluate_eq sha256 _ _ matched
  refine ⟨result, evaluated, ?_⟩
  rw [authorized, ← Policy.eval_leafMatched matched apart]
  exact CompiledPolicy.referenceEvaluate_eq compiles (PolicyWitness.covers_of_matched matched)

/-- An amount cap or a credential, with a witness for both. -/
theorem CompiledPolicy.referenceEvaluate_agrees_threshold :
    ∃ compiled : CompiledPolicy FieldElement,
      compileWithLayout (.threshold ⟨1⟩ [.amountAtMost ⟨5⟩, .credential (credentialOf [7])]) = .ok compiled ∧
        compiled.referenceEvaluate PaymentAuth.sha256
          (.threshold ⟨1⟩ [.amountAtMost ⟨5⟩, .credential (credentialOf [7])])
          ⟨[(credentialOf [7], [7])], some ⟨3⟩⟩ = .ok true := by
  let policy : Policy := .threshold ⟨1⟩ [.amountAtMost ⟨5⟩, .credential (credentialOf [7])]
  let witness : PolicyWitness := ⟨[(credentialOf [7], [7])], some ⟨3⟩⟩
  obtain ⟨compiled, compiles⟩ := @compileWithLayout_succeeds policy (by decide +kernel)
  have apart : NoCongruence (digestsInPlay PaymentAuth.sha256 policy witness) := by
    intro left first right second _
    have single : ∀ digest ∈ digestsInPlay PaymentAuth.sha256 policy witness,
        digest = credentialCommitment PaymentAuth.sha256 [7] := by decide +kernel
    rw [single left first, single right second]
  obtain ⟨result, evaluated, agrees⟩ :=
    CompiledPolicy.referenceEvaluate_agrees compiles (show witness.validateAgainst policy = .ok () by decide +kernel) apart
  have authorized : AuthorizationResult.authorized <$> policy.evaluate PaymentAuth.sha256 witness = .ok true := by
    decide +kernel
  rw [evaluated, Outcome.map_ok, Outcome.ok.injEq] at authorized
  exact ⟨compiled, compiles, agrees.trans (congrArg Outcome.ok authorized)⟩

end PaymentAuth
