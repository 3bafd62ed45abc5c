import Mathlib.FieldTheory.Finite.Basic
import PaymentAuth.Circuit.Runs
import PaymentAuth.Crypto.FieldPrime
import PaymentAuth.Policy.Totality

/-! What the range-check gadget proves: the booleanity of the digits is checked in
sum only, and the sum vanishes on digits that are not boolean. -/

namespace PaymentAuth

open Library

namespace RangeCheck

/-- Declares the digit inputs of a range check. -/
def declareBits {F : Type} : Build F RangeCheckBits := do
  let valueBits ← (List.range amountBitLen).mapM fun _ => CircuitBuilder.secretInput
  let differenceBits ← (List.range amountBitLen).mapM fun _ => CircuitBuilder.secretInput
  pure ⟨valueBits, differenceBits⟩

/-- The gates of the standalone range check against a limit. -/
def emitRangeCheck (limit : UInt64) : Build FieldElement RangeCheckOutputs := do
  let amount ← CircuitBuilder.secretInput
  let limitNode ← CircuitBuilder.constant (limit.toNat : FieldElement)
  let bits ← declareBits
  proveBoundedDifference amount limitNode bits

/-- The circuit that publishes the wires of an emission; its construction is expected to succeed. -/
def publish {ε : Type} (emit : Build FieldElement RangeCheckOutputs) : Outcome ε (Circuit FieldElement) := do
  let (outputs, builder) ← (emit CircuitBuilder.new).unwrap
  let (_, marked) ← ((forM outputs.toList CircuitBuilder.output : CircuitBuilder.Build _ _ PUnit) builder).unwrap
  marked.build.unwrap

/-- The published values of an emission on secret inputs. -/
def publishedOutputs (emit : Build FieldElement RangeCheckOutputs) (secrets : List FieldElement) :
    Outcome CircuitError (List FieldElement) := do
  let circuit ← publish emit
  evaluateReference circuit secrets []

/-- The four published outputs of the standalone circuit on a value and its digits. -/
def rangeCheckOutputs (limit : UInt64) (value : FieldElement) (valueDigits differenceDigits : List FieldElement) :
    Outcome CircuitError (List FieldElement) :=
  publishedOutputs (emitRangeCheck limit) (value :: (valueDigits ++ differenceDigits))

/-- Little-endian binary decomposition. -/
def decompose (value : UInt64) : List Bool := (List.range amountBitLen).map value.toNat.testBit

/-- The published outputs with an honest digit witness. -/
def circuitRangeCheckOutputs (value limit : UInt64) : Outcome CircuitError (List FieldElement) :=
  rangeCheckOutputs limit (value.toNat : FieldElement) ((decompose value).map Formula.bit)
    ((decompose (limit - value)).map Formula.bit)

inductive RangeCheckError where
  | valueAboveLimit
deriving DecidableEq, Repr

/-- The plaintext range check that the circuit mirrors. -/
def referenceRangeCheck (value limit : UInt64) : Outcome RangeCheckError Unit :=
  Outcome.reject (limit < value) .valueAboveLimit

/-- The image of an integer between zero and the limit. -/
def InRange (value : FieldElement) (limit : UInt64) : Prop := ∃ n ≤ limit.toNat, value = (n : FieldElement)

/-- Digits that recombine to the image of an integer of their width. -/
def Fits (digits : List FieldElement) : Prop := ∃ n : ℕ, n < 2 ^ amountBitLen ∧ recombine digits = (n : FieldElement)

section Digits

variable {value : FieldElement} {limit : UInt64} {digits valueDigits differenceDigits : List FieldElement}

/-- Accepted digits keep the value in range exactly when they recombine to integers of their width. -/
theorem inRange_iff_fits
    (accepted : constraintValues value (limit.toNat : FieldElement) valueDigits differenceDigits = [0, 0, 0, 0]) :
    InRange value limit ↔ Fits valueDigits ∧ Fits differenceDigits := by
  simp only [constraintValues, List.cons.injEq, and_true] at accepted
  obtain ⟨-, reconstructed, -, reconstructed'⟩ := accepted
  have amount := sub_eq_zero.mp reconstructed
  have difference := sub_eq_zero.mp reconstructed'
  have width : limit.toNat < 2 ^ amountBitLen := limit.toNat_lt
  constructor
  · rintro ⟨n, bounded, rfl⟩
    refine ⟨⟨n, bounded.trans_lt width, amount⟩, limit.toNat - n, (Nat.sub_le _ _).trans_lt width, ?_⟩
    rw [difference, Nat.cast_sub bounded]
  · rintro ⟨⟨n, small, here⟩, m, small', there⟩
    have total : (limit.toNat : FieldElement) = ((n + m : ℕ) : FieldElement) := by
      rw [Nat.cast_add, ← here, ← there, amount, difference]
      abel
    have sum : limit.toNat = n + m := by
      rw [amountBitLen] at small small' width
      exact natCast_injective_of_lt (by omega) (by omega) total
    exact ⟨n, by omega, amount.symm.trans here⟩

/-- Boolean digits recombine to an integer of their width. -/
theorem recombine_of_boolean (boolean : ∀ digit ∈ digits, Formula.IsBoolean digit) :
    ∃ n : ℕ, n < 2 ^ digits.length ∧ recombine digits = (n : FieldElement) := by
  induction digits with
  | nil => exact ⟨0, Nat.one_pos, Nat.cast_zero.symm⟩
  | cons digit rest ih =>
    obtain ⟨here, others⟩ := List.forall_mem_cons.mp boolean
    obtain ⟨n, small, tail⟩ := ih others
    have step : recombine (digit :: rest) = digit + 2 * recombine rest := rfl
    rw [step, tail, List.length_cons, pow_succ]
    rcases here with rfl | rfl
    · exact ⟨2 * n, by omega, by push_cast; ring⟩
    · exact ⟨1 + 2 * n, by omega, by push_cast; ring⟩

theorem recombine_replicate_zero (n : ℕ) : recombine (List.replicate n (0 : FieldElement)) = 0 := by
  induction n with
  | zero => rfl
  | succ n ih =>
    have step : recombine (List.replicate (n + 1) (0 : FieldElement)) = 0 + 2 * recombine (List.replicate n 0) := rfl
    rw [step, ih, mul_zero, add_zero]

/-- Digits that are not boolean pass the booleanity sum for every number. -/
theorem exists_digits (target : FieldElement) :
    ∃ digits : List FieldElement,
      digits.length = amountBitLen ∧ booleanitySum digits = 0 ∧ recombine digits = target := by
  have leading : (-5 : FieldElement) ≠ 0 := by
    rw [neg_ne_zero]
    intro zero
    have same : ((5 : ℕ) : FieldElement) = ((0 : ℕ) : FieldElement) := by exact_mod_cast zero
    exact absurd (natCast_injective_of_lt (by decide) (by decide) same) (by decide)
  have odd : Fintype.card FieldElement % 2 = 1 := by
    rw [ZMod.card]
    decide +kernel
  obtain ⟨a, b, root⟩ := FiniteField.exists_root_sum_quadratic
    (Polynomial.degree_quadratic (b := 4 * target - 1) (c := target - target ^ 2) leading)
    (Polynomial.degree_quadratic (b := -1) (c := 0) leading) odd
  simp only [Polynomial.eval_add, Polynomial.eval_mul, Polynomial.eval_C, Polynomial.eval_pow,
    Polynomial.eval_X] at root
  refine ⟨[target - 2 * a, a, -2 * b, b] ++ List.replicate 60 0, rfl, ?_, ?_⟩
  · have zeros : booleanitySum (List.replicate 60 (0 : FieldElement)) = 0 := by simp [booleanitySum]
    have sum : booleanitySum ([target - 2 * a, a, -2 * b, b] ++ List.replicate 60 0) =
        booleanitySum [target - 2 * a, a, -2 * b, b] + booleanitySum (List.replicate 60 0) := by
      simp [booleanitySum]
    rw [sum, zeros]
    simp only [booleanitySum, List.map_cons, List.map_nil, List.sum_cons, List.sum_nil]
    linear_combination root
  · have zeros := recombine_replicate_zero 60
    have sum : recombine ([target - 2 * a, a, -2 * b, b] ++ List.replicate 60 0) =
        target - 2 * a + 2 * (a + 2 * (-2 * b + 2 * (b + 2 * recombine (List.replicate 60 0)))) := rfl
    rw [sum, zeros]
    ring

end Digits

section Circuit

variable {limit : UInt64}

theorem declareBits_emits {F : Type} [CommRing F] {operands : List ℕ} : Emits CircuitBuilder.observer
    (declareBits : Build F RangeCheckBits) operands (2 * amountBitLen) (64 * amountBitLen)
    (fun bits added => added = ⟨(bits.valueBits ++ bits.differenceBits).map NodeId.asUsize, []⟩ ∧
      bits.valueBits.length = amountBitLen ∧ bits.differenceBits.length = amountBitLen) fun _ _ => True := by
  have sum (ids : List NodeId) : (ids.map fun id => (⟨[id.asUsize], []⟩ : CircuitBuilder.Ports)).sum =
      ⟨ids.map NodeId.asUsize, []⟩ := by
    induction ids with
    | nil => rfl
    | cons id rest ih =>
      rw [List.map_cons, List.sum_cons, ih]
      rfl
  have digits {operands : List ℕ} : Emits CircuitBuilder.observer
      ((List.range amountBitLen).mapM fun _ => CircuitBuilder.secretInput : Build F (List NodeId)) operands amountBitLen
      (amountBitLen * 32) (fun ids added => ids.length = amountBitLen ∧ added = ⟨ids.map NodeId.asUsize, []⟩)
      fun _ _ => True := by
    refine ((Emits.mapM fun _ _ => CircuitBuilder.secretInput_emits).within (by simp) (by simp)).ensuring ?_
    intro ids added declared
    rw [declared.1, declared.2, List.length_range, sum]
    exact ⟨rfl, rfl⟩
  refine (digits.bind fun valueBits _ values => digits.bind fun differenceBits _ differences =>
    Emits.pure ?_ ⟨?_, values.1, differences.1⟩ fun _ _ _ => trivial).within (by omega) (by omega)
  · intro k member
    rw [points_bits, List.map_append] at member
    simp only [CircuitBuilder.points_nodes, List.mem_append] at member ⊢
    tauto
  · rw [values.2, differences.2, add_zero, List.map_append]
    rfl

/-- What the emission of the standalone range check leaves behind. -/
structure Emitted (limit : UInt64) (amount limitNode : NodeId) (bits : RangeCheckBits) (outputs : RangeCheckOutputs)
    (final : CircuitBuilder FieldElement) : Prop where
  ready : CircuitBuilder.observer.Ready (Refers.points outputs) final
  ports : CircuitBuilder.observer.log final =
    ⟨(amount :: (bits.valueBits ++ bits.differenceBits)).map NodeId.asUsize, []⟩
  values : bits.valueBits.length = amountBitLen
  differences : bits.differenceBits.length = amountBitLen
  capped : ∀ value, CircuitBuilder.Satisfies final.nodes value → value limitNode.asUsize = (limit.toNat : FieldElement)

private theorem check_emits {amount limitNode : NodeId} {bits : RangeCheckBits}
    (values : bits.valueBits.length = amountBitLen) (differences : bits.differenceBits.length = amountBitLen) :
    Gate CircuitBuilder.observer (proveBoundedDifference amount limitNode bits : Build FieldElement RangeCheckOutputs)
      (Refers.points (amount, limitNode, bits)) (18 * amountBitLen + 13) (1028 * amountBitLen + 318)
      fun value outputs => outputs.toList.map (fun id => value id.asUsize) =
        constraintValues (value amount.asUsize) (value limitNode.asUsize)
          (bits.valueBits.map fun id => value id.asUsize) (bits.differenceBits.map fun id => value id.asUsize) := by
  refine proveBoundedDifference_emits (by simp) (by simp) (fun k member => ?_) values differences
  exact List.mem_append_right _ (List.mem_append_right _ member)

/-- The check computes the constraint values in every circuit that emits it. -/
theorem proveBoundedDifference_ok {amount limitNode : NodeId} {bits : RangeCheckBits}
    {builder final : CircuitBuilder FieldElement} {outputs : RangeCheckOutputs}
    (values : bits.valueBits.length = amountBitLen) (differences : bits.differenceBits.length = amountBitLen)
    (run : proveBoundedDifference amount limitNode bits builder = .ok (outputs, final)) {value : ℕ → FieldElement}
    (held : CircuitBuilder.Satisfies final.nodes value) :
    outputs.toList.map (fun id => value id.asUsize) =
      constraintValues (value amount.asUsize) (value limitNode.asUsize) (bits.valueBits.map fun id => value id.asUsize)
        (bits.differenceBits.map fun id => value id.asUsize) :=
  (check_emits values differences).meaning _ _ _ run value held

/-- The standalone range check is emitted. -/
theorem emitRangeCheck_succeeds (limit : UInt64) : ∃ amount limitNode bits builder outputs final,
    emitRangeCheck limit CircuitBuilder.new = .ok (outputs, final) ∧
      proveBoundedDifference amount limitNode bits builder = .ok (outputs, final) ∧
      Emitted limit amount limitNode bits outputs final := by
  have declares : Emits CircuitBuilder.observer (do
        let amount ← CircuitBuilder.secretInput
        let limitNode ← CircuitBuilder.constant (limit.toNat : FieldElement)
        let bits ← declareBits
        pure (amount, limitNode, bits) : Build FieldElement (NodeId × NodeId × RangeCheckBits)) []
      (2 * amountBitLen + 2) (64 * amountBitLen + 32)
      (fun inputs added =>
        added = ⟨(inputs.1 :: (inputs.2.2.valueBits ++ inputs.2.2.differenceBits)).map NodeId.asUsize, []⟩ ∧
          inputs.2.2.valueBits.length = amountBitLen ∧ inputs.2.2.differenceBits.length = amountBitLen)
      fun value inputs => value inputs.2.1.asUsize = (limit.toNat : FieldElement) := by
    refine (CircuitBuilder.secretInput_emits.bind fun amount _ first => (CircuitBuilder.constant_emits _).bind
      fun limitNode _ => declareBits_emits.bind fun bits _ digits =>
      Emits.pure ?_ ⟨?_, digits.2⟩ fun _ _ constant _ => constant).within (by omega) (by omega)
    · intro k member
      simp only [points_pair, points_bits, CircuitBuilder.points_nodeId, List.mem_append] at member ⊢
      tauto
    · rw [first, digits.1, add_zero]
      rfl
  have new : CircuitBuilder.observer.Ready [] (CircuitBuilder.new : CircuitBuilder FieldElement) :=
    ⟨⟨CircuitBuilder.new_wellBuilt, rfl⟩, by simp⟩
  obtain ⟨⟨amount, limitNode, bits⟩, builder, declared⟩ := declares.runs CircuitBuilder.new new (by decide)
  obtain ⟨added, extension, laid, values, differences⟩ := declares.extension _ _ _ declared
  have inputs := declares.ready _ _ _ declared new
  have check := @check_emits amount limitNode bits values differences
  have room : CircuitBuilder.observer.size builder + (18 * amountBitLen + 13) ≤ 2 ^ 32 := by
    rw [extension.size]
    decide
  obtain ⟨outputs, final, checked⟩ := check.runs builder inputs room
  obtain ⟨_, extension', rfl, -⟩ := check.extension _ _ _ checked
  refine ⟨amount, limitNode, bits, builder, outputs, final, ?_, checked, check.ready _ _ _ checked inputs, ?_, values,
    differences, fun value held => declares.meaning _ _ _ declared value (extension'.holds value held)⟩
  · obtain ⟨_, _, first, run⟩ := Emission.bind_ok_iff.mp declared
    obtain ⟨_, _, second, run⟩ := Emission.bind_ok_iff.mp run
    obtain ⟨_, _, third, run⟩ := Emission.bind_ok_iff.mp run
    cases run
    rw [emitRangeCheck, Emission.bind_of_ok first, Emission.bind_of_ok second, Emission.bind_of_ok third]
    exact checked
  · rw [extension'.log, extension.log, laid, add_zero]
    rfl

/-- An emission that leaves defined wires and no public inputs publishes the values of a run. -/
theorem publishedOutputs_eq {emit : Build FieldElement RangeCheckOutputs} {outputs : RangeCheckOutputs}
    {final : CircuitBuilder FieldElement} {secrets results : List FieldElement}
    (run : emit CircuitBuilder.new = .ok (outputs, final))
    (ready : CircuitBuilder.observer.Ready (Refers.points outputs) final)
    (publics : CircuitBuilder.publicPositions final.nodes = [])
    (count : secrets.length = (CircuitBuilder.secretPositions final.nodes).length)
    (computes : ∀ value, CircuitBuilder.Satisfies final.nodes value →
      secrets = (CircuitBuilder.secretPositions final.nodes).map value →
        outputs.toList.map (fun id => value id.asUsize) = results) :
    publishedOutputs emit secrets = .ok results := by
  obtain ⟨⟨built, unmarked⟩, defined⟩ := ready
  rw [points_outputs, List.forall_mem_map] at defined
  obtain ⟨circuit, finished⟩ := (built.mark defined).build_ok (by simp [RangeCheckOutputs.toList])
  obtain ⟨valid, same⟩ := CircuitBuilder.build_ok_iff.mp finished
  have published : (publish emit : Outcome CircuitError (Circuit FieldElement)) = .ok circuit := by
    unfold publish
    rw [Outcome.unwrap_ok_iff.mpr run, Outcome.ok_bind]
    dsimp only
    rw [Outcome.unwrap_ok_iff.mpr (CircuitBuilder.forM_output_of_defined defined), Outcome.ok_bind]
    exact Outcome.unwrap_ok_iff.mpr finished
  have nodes : circuit.nodes = final.nodes := by rw [same]
  have exposed : circuit.outputs = outputs.toList := by rw [same, unmarked, List.nil_append]
  have secretCount : secrets.length = circuit.numSecretInputs := by rw [← valid.secretPositions_length, nodes, count]
  have publicCount : ([] : List FieldElement).length = circuit.numPublicInputs := by
    rw [← valid.publicPositions_length, nodes, publics]
    rfl
  obtain ⟨value, runs⟩ := valid.exists_runs secretCount publicCount
  have values := computes value (nodes ▸ runs.satisfies) (nodes ▸ runs.secrets)
  unfold publishedOutputs
  rw [published, Outcome.ok_bind]
  refine (Circuit.evaluateReference_iff_runs valid).mpr ⟨value, runs, ?_⟩
  rw [exposed, values]

/-- The published outputs of the standalone circuit are the constraint values. -/
theorem rangeCheckOutputs_eq {value : FieldElement} {valueDigits differenceDigits : List FieldElement}
    (size : valueDigits.length = amountBitLen) (size' : differenceDigits.length = amountBitLen) :
    rangeCheckOutputs limit value valueDigits differenceDigits =
      .ok (constraintValues value (limit.toNat : FieldElement) valueDigits differenceDigits) := by
  obtain ⟨amount, limitNode, bits, builder, outputs, final, run, emits, emitted⟩ := emitRangeCheck_succeeds limit
  obtain ⟨secrets, publics⟩ := CircuitBuilder.Ports.mk.inj emitted.ports
  refine publishedOutputs_eq run emitted.ready publics ?_ fun valuation held read => ?_
  · rw [secrets]
    simp [size, size', emitted.values, emitted.differences]
  · rw [secrets, List.map_map, List.map_cons, List.map_append, List.cons.injEq] at read
    obtain ⟨here, rest⟩ := read
    obtain ⟨first, second⟩ := List.append_inj rest (by rw [size, List.length_map, emitted.values])
    rw [proveBoundedDifference_ok emitted.values emitted.differences emits held, emitted.capped valuation held, here,
      first, second]
    simp only [Function.comp_def]

@[simp] theorem decompose_length (value : UInt64) : (decompose value).length = amountBitLen := by
  rw [decompose, List.length_map, List.length_range]

/-- The digits of an integer recombine to its image. -/
theorem recombine_digits (value : UInt64) :
    recombine ((decompose value).map Formula.bit : List FieldElement) = (value.toNat : FieldElement) := by
  rw [decompose, List.map_map]
  exact (recombine_testBit value.toNat amountBitLen).trans (by rw [amountBitLen, Nat.mod_eq_of_lt value.toNat_lt])

theorem constraintValues_digits (value limit difference : UInt64) :
    constraintValues (value.toNat : FieldElement) (limit.toNat : FieldElement) ((decompose value).map Formula.bit)
      ((decompose difference).map Formula.bit) =
        [0, 0, 0, (difference.toNat : FieldElement) - ((limit.toNat : FieldElement) - (value.toNat : FieldElement))] := by
  simp only [constraintValues, booleanitySum_bits, recombine_digits, sub_self]

/-- With honest digits only the last output can be nonzero: it compares the wrapped difference with the exact one. -/
theorem circuitRangeCheckOutputs_eq (value limit : UInt64) : circuitRangeCheckOutputs value limit = .ok [0, 0, 0,
    ((limit - value).toNat : FieldElement) - ((limit.toNat : FieldElement) - (value.toNat : FieldElement))] := by
  rw [circuitRangeCheckOutputs, rangeCheckOutputs_eq (by simp) (by simp), constraintValues_digits]

/-- With honest digits the outputs are zero exactly within the limit. -/
theorem circuitRangeCheckOutputs_zero_iff {value : UInt64} :
    circuitRangeCheckOutputs value limit = .ok [0, 0, 0, 0] ↔ value ≤ limit := by
  rw [circuitRangeCheckOutputs_eq, Outcome.ok.injEq]
  simp only [List.cons.injEq, true_and, and_true]
  rw [sub_eq_zero, UInt64.le_iff_toNat_le]
  constructor
  · intro same
    have total : (((limit - value).toNat + value.toNat : ℕ) : FieldElement) = (limit.toNat : FieldElement) := by
      rw [Nat.cast_add, same, sub_add_cancel]
    have sum := natCast_injective_of_lt (by have := (limit - value).toNat_lt; have := value.toNat_lt; omega)
      (by have := limit.toNat_lt; omega) total
    exact sum ▸ Nat.le_add_left _ _
  · intro bounded
    rw [UInt64.toNat_sub_of_le _ _ (UInt64.le_iff_toNat_le.mpr bounded), Nat.cast_sub bounded]

/-- Above the limit the wrapped difference is too large by `2 ^ 64`. -/
theorem circuitRangeCheckOutputs_above {value : UInt64} (above : limit < value) :
    circuitRangeCheckOutputs value limit = .ok [0, 0, 0, ((2 ^ amountBitLen : ℕ) : FieldElement)] := by
  have wrapped : (limit - value).toNat + value.toNat = 2 ^ amountBitLen + limit.toNat := by
    have bounds := value.toNat_lt
    have order := UInt64.lt_iff_toNat_lt.mp above
    rw [UInt64.toNat_sub, amountBitLen]
    omega
  have image := congrArg (Nat.cast : ℕ → FieldElement) wrapped
  rw [Nat.cast_add, Nat.cast_add] at image
  have miss : ((limit - value).toNat : FieldElement) - ((limit.toNat : FieldElement) - (value.toNat : FieldElement)) =
      ((2 ^ amountBitLen : ℕ) : FieldElement) := by
    linear_combination image
  rw [circuitRangeCheckOutputs_eq, miss]

/-- The circuit agrees with the reference on every pair: its outputs are zero where the
reference accepts, and the last one is `2 ^ 64` where it refuses. -/
theorem circuitRangeCheckOutputs_reference (value limit : UInt64) :
    (circuitRangeCheckOutputs value limit = .ok [0, 0, 0, 0] ↔ referenceRangeCheck value limit = .ok ()) ∧
      (circuitRangeCheckOutputs value limit = .ok [0, 0, 0, ((2 ^ amountBitLen : ℕ) : FieldElement)] ↔
        referenceRangeCheck value limit = .error .valueAboveLimit) := by
  by_cases above : limit < value
  · have refused : referenceRangeCheck value limit = .error .valueAboveLimit := if_pos above
    refine ⟨?_, iff_of_true (circuitRangeCheckOutputs_above above) refused⟩
    rw [circuitRangeCheckOutputs_zero_iff, refused]
    exact iff_of_false (UInt64.not_le.mpr above) nofun
  · have accepted : referenceRangeCheck value limit = .ok () := if_neg above
    have zeros := circuitRangeCheckOutputs_zero_iff.mpr (UInt64.not_lt.mp above)
    refine ⟨iff_of_true zeros accepted, ?_⟩
    rw [zeros, accepted]
    refine iff_of_false (fun same => ?_) nofun
    have vanishes : ((2 ^ amountBitLen : ℕ) : FieldElement) = ((0 : ℕ) : FieldElement) := by
      rw [Nat.cast_zero]
      simp only [Outcome.ok.injEq, List.cons.injEq, true_and, and_true] at same
      exact same.symm
    exact absurd (natCast_injective_of_lt (by decide) (by decide) vanishes) (by decide)

/-- Boolean digits recombine to a 64-bit integer. -/
theorem fits_of_boolean {digits : List FieldElement} (size : digits.length = amountBitLen)
    (boolean : ∀ digit ∈ digits, Formula.IsBoolean digit) : Fits digits := by
  obtain ⟨n, small, same⟩ := recombine_of_boolean boolean
  exact ⟨n, size ▸ small, same⟩

/-- The check accepts some digits for every value and every limit. -/
theorem exists_rangeCheckOutputs_zero (value : FieldElement) : ∃ valueDigits differenceDigits : List FieldElement,
    valueDigits.length = amountBitLen ∧ differenceDigits.length = amountBitLen ∧
      rangeCheckOutputs limit value valueDigits differenceDigits = .ok [0, 0, 0, 0] := by
  obtain ⟨valueDigits, size, boolean, reconstructed⟩ := exists_digits value
  obtain ⟨differenceDigits, size', boolean', reconstructed'⟩ := exists_digits ((limit.toNat : FieldElement) - value)
  refine ⟨valueDigits, differenceDigits, size, size', ?_⟩
  rw [rangeCheckOutputs_eq size size', constraintValues, boolean, boolean', reconstructed, reconstructed',
    sub_self, sub_self]

/-- The nodes under construction have a solution for every choice of their inputs once some wire is defined. -/
theorem exists_valuation {builder : CircuitBuilder FieldElement} (built : builder.WellBuilt) {id : NodeId}
    (defined : id.asUsize < builder.nodes.length) {secrets publics : List FieldElement}
    (secretCount : secrets.length = (CircuitBuilder.secretPositions builder.nodes).length)
    (publicCount : publics.length = (CircuitBuilder.publicPositions builder.nodes).length) :
    ∃ valuation, CircuitBuilder.Satisfies builder.nodes valuation ∧
      secrets = (CircuitBuilder.secretPositions builder.nodes).map valuation ∧
        publics = (CircuitBuilder.publicPositions builder.nodes).map valuation := by
  obtain ⟨circuit, finished⟩ := (built.mark (List.forall_mem_singleton.mpr defined)).build_ok (by simp)
  obtain ⟨valid, same⟩ := CircuitBuilder.build_ok_iff.mp finished
  have nodes : circuit.nodes = builder.nodes := by rw [same]
  rw [← nodes] at secretCount publicCount ⊢
  rw [valid.secretPositions_length] at secretCount
  rw [valid.publicPositions_length] at publicCount
  obtain ⟨valuation, runs⟩ := valid.exists_runs secretCount publicCount
  exact ⟨valuation, runs.satisfies, runs.secrets, runs.publics⟩

/-- The range check pins down a value against adversarial digits only where the value is
in range already: outside, some digits pass. Boolean digits pass for values in range only,
in every circuit that emits the check. -/
theorem rangeCheck_sound_iff (value : FieldElement) (limit : UInt64) :
    ((∀ valueDigits differenceDigits : List FieldElement,
        valueDigits.length = amountBitLen → differenceDigits.length = amountBitLen →
        rangeCheckOutputs limit value valueDigits differenceDigits = .ok [0, 0, 0, 0] → InRange value limit) ↔
      InRange value limit) ∧
    ∀ (amount limitNode : NodeId) (bits : RangeCheckBits) (builder final : CircuitBuilder FieldElement)
      (outputs : RangeCheckOutputs) (valuation : ℕ → FieldElement),
      bits.valueBits.length = amountBitLen → bits.differenceBits.length = amountBitLen →
      proveBoundedDifference amount limitNode bits builder = .ok (outputs, final) →
      CircuitBuilder.Satisfies final.nodes valuation →
      valuation amount.asUsize = value → valuation limitNode.asUsize = (limit.toNat : FieldElement) →
      (∀ id ∈ bits.valueBits ++ bits.differenceBits, Formula.IsBoolean (valuation id.asUsize)) →
      (∀ id ∈ outputs.toList, valuation id.asUsize = 0) → InRange value limit := by
  constructor
  · constructor
    · intro sound
      obtain ⟨valueDigits, differenceDigits, size, size', accepted⟩ := @exists_rangeCheckOutputs_zero limit value
      exact sound valueDigits differenceDigits size size' accepted
    · exact fun inside _ _ _ _ _ => inside
  · rintro amount limitNode bits builder final outputs valuation size size' emits held rfl capped boolean zero
    have values := proveBoundedDifference_ok size size' emits held
    rw [capped] at values
    obtain ⟨boolean, boolean'⟩ := List.forall_mem_append.mp boolean
    refine (inRange_iff_fits (values.symm.trans ?_)).mpr ⟨?_, ?_⟩
    · simpa [RangeCheckOutputs.toList] using zero
    · exact fits_of_boolean (by simpa using size) (List.forall_mem_map.mpr boolean)
    · exact fits_of_boolean (by simpa using size') (List.forall_mem_map.mpr boolean')

/-- Five is checked against seven with its own digits; eight has digits that pass. -/
theorem rangeCheck_sound_iff_five :
    (∃ (amount limitNode : NodeId) (bits : RangeCheckBits) (builder final : CircuitBuilder FieldElement)
      (outputs : RangeCheckOutputs) (valuation : ℕ → FieldElement),
      proveBoundedDifference amount limitNode bits builder = .ok (outputs, final) ∧
        CircuitBuilder.Satisfies final.nodes valuation ∧ valuation amount.asUsize = 5 ∧
        bits.valueBits.map (fun id => valuation id.asUsize) = (decompose 5).map Formula.bit ∧
        bits.differenceBits.map (fun id => valuation id.asUsize) = (decompose 2).map Formula.bit ∧
        (∀ id ∈ outputs.toList, valuation id.asUsize = 0) ∧ InRange (valuation amount.asUsize) 7) ∧
      ¬ ∀ valueDigits differenceDigits : List FieldElement,
        valueDigits.length = amountBitLen → differenceDigits.length = amountBitLen →
        rangeCheckOutputs 7 8 valueDigits differenceDigits = .ok [0, 0, 0, 0] → InRange 8 7 := by
  constructor
  · obtain ⟨amount, limitNode, bits, builder, outputs, final, -, emits, ready, ports, size, size', capped⟩ :=
      emitRangeCheck_succeeds 7
    obtain ⟨secrets, publics⟩ := CircuitBuilder.Ports.mk.inj ports
    obtain ⟨valuation, held, read, -⟩ := @exists_valuation final ready.sound.1 _ (ready.defined _ List.mem_cons_self)
      (5 :: ((decompose 5).map Formula.bit ++ (decompose 2).map Formula.bit)) []
      (by rw [secrets]; simp [size, size']) (by rw [publics]; rfl)
    rw [secrets, List.map_map, List.map_cons, List.cons.injEq] at read
    obtain ⟨here, digits⟩ := read
    have boolean : ∀ id ∈ bits.valueBits ++ bits.differenceBits, Formula.IsBoolean (valuation id.asUsize) := by
      intro id inside
      have listed : valuation id.asUsize ∈ (decompose 5 ++ decompose 2).map Formula.bit := by
        rw [List.map_append, digits]
        exact List.mem_map_of_mem inside
      obtain ⟨bit, -, same⟩ := List.mem_map.mp listed
      exact same ▸ Formula.bit_isBoolean bit
    rw [List.map_append] at digits
    obtain ⟨first, second⟩ := List.append_inj digits (by simp [size])
    have zero : ∀ id ∈ outputs.toList, valuation id.asUsize = 0 := by
      have values : _ = constraintValues _ _ (bits.valueBits.map (valuation ∘ NodeId.asUsize))
        (bits.differenceBits.map (valuation ∘ NodeId.asUsize)) := proveBoundedDifference_ok size size' emits held
      rw [capped valuation held, ← first, ← second, show valuation amount.asUsize = ((5 : UInt64).toNat : FieldElement)
        from here.symm, constraintValues_digits 5 7 2] at values
      have difference : (((2 : UInt64).toNat : ℕ) : FieldElement) -
          ((((7 : UInt64).toNat : ℕ) : FieldElement) - (((5 : UInt64).toNat : ℕ) : FieldElement)) = 0 := by
        simp only [UInt64.reduceToNat]
        norm_num
      rw [difference] at values
      simpa [RangeCheckOutputs.toList] using values
    exact ⟨amount, limitNode, bits, builder, final, outputs, valuation, emits, held, here.symm, first.symm, second.symm,
      zero, (rangeCheck_sound_iff (valuation amount.asUsize) 7).2 amount limitNode bits builder final outputs valuation
        size size' emits held rfl (capped valuation held) boolean zero⟩
  · intro sound
    obtain ⟨n, bounded, same⟩ := (rangeCheck_sound_iff 8 7).1.mp sound
    have small : n ≤ 7 := bounded
    have eight : ((8 : ℕ) : FieldElement) = (n : FieldElement) := by exact_mod_cast same
    have equal := natCast_injective_of_lt (by decide) (by omega) eight
    omega

/-- One passes the check against zero: halves and their negative cancel in the booleanity sum. -/
theorem rangeCheck_not_sound :
    ¬ ∀ (limit : UInt64) (value : FieldElement) (valueDigits differenceDigits : List FieldElement),
      valueDigits.length = amountBitLen → differenceDigits.length = amountBitLen →
      rangeCheckOutputs limit value valueDigits differenceDigits = .ok [0, 0, 0, 0] → InRange value limit := by
  intro sound
  have two : (2 : FieldElement) ≠ 0 := by
    intro zero
    have same : ((2 : ℕ) : FieldElement) = ((0 : ℕ) : FieldElement) := by exact_mod_cast zero
    exact absurd (natCast_injective_of_lt (by decide) (by decide) same) (by decide)
  have half : (2 : FieldElement) * 2⁻¹ = 1 := mul_inv_cancel₀ two
  have passes : rangeCheckOutputs 0 1 (1 :: List.replicate 63 0)
      ([0, 2⁻¹, 2⁻¹, 2⁻¹, -2⁻¹] ++ List.replicate 59 0) = .ok [0, 0, 0, 0] := by
    rw [rangeCheckOutputs_eq (by simp [amountBitLen]) (by simp [amountBitLen])]
    have zeros' (n : ℕ) : booleanitySum (List.replicate n (0 : FieldElement)) = 0 := by simp [booleanitySum]
    have step (digit : FieldElement) (rest : List FieldElement) :
        recombine (digit :: rest) = digit + 2 * recombine rest := rfl
    have step' (digit : FieldElement) (rest : List FieldElement) :
        booleanitySum (digit :: rest) = digit * (1 - digit) + booleanitySum rest := by simp [booleanitySum]
    simp only [constraintValues, List.cons_append, List.nil_append, step, step', recombine_replicate_zero, zeros',
      Outcome.ok.injEq, List.cons.injEq, and_true]
    refine ⟨by ring, by ring, ?_, ?_⟩
    · linear_combination -2 * (2⁻¹ : FieldElement) * half
    · have zero : (((0 : UInt64).toNat : ℕ) : FieldElement) = 0 := Nat.cast_zero
      rw [zero]
      linear_combination -half
  obtain ⟨n, bounded, same⟩ := sound 0 1 _ _ (by simp [amountBitLen]) (by simp [amountBitLen]) passes
  obtain rfl : n = 0 := Nat.le_zero.mp bounded
  rw [Nat.cast_zero] at same
  exact one_ne_zero same

end Circuit

end RangeCheck

end PaymentAuth
