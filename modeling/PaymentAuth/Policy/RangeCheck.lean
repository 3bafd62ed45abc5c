import Mathlib.Algebra.BigOperators.Group.List.Basic
import Mathlib.Data.Nat.Bitwise
import Mathlib.Tactic.LinearCombination
import PaymentAuth.Circuit.Builder
import PaymentAuth.Library.Arithmetization
import PaymentAuth.Policy.Ast

/-! The range-check gadget: dual bit-decomposition in the prime field. -/

namespace PaymentAuth

open Library

/-- Number of binary digits proven for each value. -/
def amountBitLen : ℕ := 64

/-- The declared digit inputs of one range check, little-endian. -/
structure RangeCheckBits where
  valueBits : List NodeId
  differenceBits : List NodeId

/-- The four constraint wires of a range check, all zero exactly when it holds. -/
structure RangeCheckOutputs where
  valueBooleanity : NodeId
  valueReconstruction : NodeId
  differenceBooleanity : NodeId
  differenceReconstruction : NodeId

def RangeCheckOutputs.toList (outputs : RangeCheckOutputs) : List NodeId :=
  [outputs.valueBooleanity, outputs.valueReconstruction, outputs.differenceBooleanity,
    outputs.differenceReconstruction]

namespace RangeCheck

variable {F : Type} [CommRing F]

abbrev Build (F α : Type) := CircuitBuilder.Build F PolicyError α

def addGate (a b : NodeId) : Build F NodeId :=
  Emission.mapError (fun _ => .compilationFailure) (CircuitBuilder.add a b)

def mulGate (a b : NodeId) : Build F NodeId :=
  Emission.mapError (fun _ => .compilationFailure) (CircuitBuilder.mul a b)

def mulByConstant (node : NodeId) (factor : F) : Build F NodeId := do
  let c ← CircuitBuilder.constant factor
  mulGate node c

def addConstant (node : NodeId) (constant : F) : Build F NodeId := do
  let c ← CircuitBuilder.constant constant
  addGate node c

/-- `a - b` as `a + (-1) * b`. -/
def subtract (a b : NodeId) : Build F NodeId := do
  let negated ← mulByConstant b (-1)
  addGate a negated

/-- Adds one digit to the booleanity sum and to the weighted sum. -/
def emitDigit (sums : NodeId × NodeId) (digit : NodeId × ℕ) : Build F (NodeId × NodeId) := do
  let negated ← mulByConstant digit.1 (-1)
  let oneMinus ← addConstant negated 1
  let term ← mulGate digit.1 oneMinus
  let booleanity ← addGate sums.1 term
  Emission.reject (digit.2 ≥ 64) .compilationFailure
  let weighted ← mulByConstant digit.1 (2 ^ digit.2)
  let reconstruction ← addGate sums.2 weighted
  pure (booleanity, reconstruction)

/-- Emits the booleanity sum and the reconstruction difference of one side. -/
def emitSide (target : NodeId) (bits : List NodeId) : Build F (NodeId × NodeId) := do
  let booleanity ← CircuitBuilder.constant 0
  let reconstruction ← CircuitBuilder.constant 0
  let sums ← bits.zipIdx.foldlM emitDigit (booleanity, reconstruction)
  let reconstructionDiff ← subtract sums.2 target
  pure (sums.1, reconstructionDiff)

/-- Emits the four constraint wires of `value ≤ limit`. -/
def proveBoundedDifference (value limit : NodeId) (bits : RangeCheckBits) : Build F RangeCheckOutputs := do
  let valueChecks ← emitSide value bits.valueBits
  let difference ← subtract limit value
  let differenceChecks ← emitSide difference bits.differenceBits
  pure ⟨valueChecks.1, valueChecks.2, differenceChecks.1, differenceChecks.2⟩

/-- The sum of `b * (1 - b)`, zero when every digit is boolean. -/
def booleanitySum (digits : List F) : F := (digits.map fun b => b * (1 - b)).sum

/-- The number with the given binary digits, least significant first. -/
def recombine (digits : List F) : F := digits.foldr (fun b rest => b + 2 * rest) 0

theorem recombine_append_singleton (digits : List F) (b : F) :
    recombine (digits ++ [b]) = recombine digits + b * 2 ^ digits.length := by
  induction digits with
  | nil => simp [recombine]
  | cons first rest ih =>
    have step (tail : List F) : recombine (first :: tail) = first + 2 * recombine tail := rfl
    rw [List.cons_append, step, ih, step, List.length_cons, pow_succ]
    ring

instance : Refers RangeCheckBits := ⟨fun bits => (bits.valueBits ++ bits.differenceBits).map NodeId.asUsize⟩

instance : Refers RangeCheckOutputs := ⟨fun outputs => outputs.toList.map NodeId.asUsize⟩

@[simp] theorem points_bits (bits : RangeCheckBits) :
    Refers.points bits = (bits.valueBits ++ bits.differenceBits).map NodeId.asUsize := rfl

@[simp] theorem points_outputs (outputs : RangeCheckOutputs) :
    Refers.points outputs = outputs.toList.map NodeId.asUsize := rfl

section Gadgets

variable {operands : List ℕ}

theorem addGate_emits {a b : NodeId} (left : a.asUsize ∈ operands) (right : b.asUsize ∈ operands) :
    Gate CircuitBuilder.observer (addGate a b : Build F NodeId) operands 1 37
      fun value id => value id.asUsize = value a.asUsize + value b.asUsize :=
  (CircuitBuilder.add_emits left right).mapError

theorem mulGate_emits {a b : NodeId} (left : a.asUsize ∈ operands) (right : b.asUsize ∈ operands) :
    Gate CircuitBuilder.observer (mulGate a b : Build F NodeId) operands 1 265
      fun value id => value id.asUsize = value a.asUsize * value b.asUsize :=
  (CircuitBuilder.mul_emits left right).mapError

/-- A product with a constant weighs less than another product. -/
theorem mulByConstant_emits {node : NodeId} (given : node.asUsize ∈ operands) (factor : F) :
    Gate CircuitBuilder.observer (mulByConstant node factor : Build F NodeId) operands 2 69
      fun value id => value id.asUsize = value node.asUsize * factor := by
  have gates : Gate CircuitBuilder.observer (mulByConstant node factor : Build F NodeId) operands 2 (0 + 265)
      fun value id => value id.asUsize = value node.asUsize * factor := by
    refine (CircuitBuilder.constant_emits factor).bind fun c _ => (mulGate_emits (by simp [given]) (by simp)).implies ?_
    intro value id product constant
    rw [product, constant]
  refine gates.reweigh fun builder final id run => ?_
  obtain ⟨c, middle, declared, multiplied⟩ := Emission.bind_ok_iff.mp run
  exact CircuitBuilder.weight_scaled declared (Emission.mapError_ok_iff.mp multiplied)

theorem addConstant_emits {node : NodeId} (given : node.asUsize ∈ operands) (constant : F) :
    Gate CircuitBuilder.observer (addConstant node constant : Build F NodeId) operands 2 37
      fun value id => value id.asUsize = value node.asUsize + constant := by
  refine ((CircuitBuilder.constant_emits constant).bind fun c _ =>
    (addGate_emits (by simp [given]) (by simp)).implies ?_).within rfl (by simp)
  intro value id sum constant
  rw [sum, constant]

theorem subtract_emits {a b : NodeId} (left : a.asUsize ∈ operands) (right : b.asUsize ∈ operands) :
    Gate CircuitBuilder.observer (subtract a b : Build F NodeId) operands 3 106
      fun value id => value id.asUsize = value a.asUsize - value b.asUsize := by
  refine (mulByConstant_emits right (-1)).bind fun negated _ =>
    (addGate_emits (by simp [left]) (by simp)).implies ?_
  intro value id sum product
  rw [sum, product]
  ring

theorem emitDigit_emits {sums : NodeId × NodeId} {digit : NodeId × ℕ} (first : sums.1.asUsize ∈ operands)
    (second : sums.2.asUsize ∈ operands) (given : digit.1.asUsize ∈ operands) (narrow : digit.2 < 64) :
    Gate CircuitBuilder.observer (emitDigit sums digit : Build F (NodeId × NodeId)) operands 9 514
      fun value result =>
        value result.1.asUsize =
            value sums.1.asUsize + value digit.1.asUsize * (1 - value digit.1.asUsize) ∧
          value result.2.asUsize = value sums.2.asUsize + value digit.1.asUsize * 2 ^ digit.2 := by
  refine (mulByConstant_emits given (-1)).bind fun negated _ =>
    (addConstant_emits (by simp) 1).bind fun oneMinus _ =>
    (mulGate_emits (by simp [given]) (by simp)).bind fun term _ =>
    (addGate_emits (by simp [first]) (by simp)).bind fun booleanity _ =>
    (Gate.reject (Nat.not_le.mpr narrow)).bind fun _ _ =>
    (mulByConstant_emits (by simp [given]) (2 ^ digit.2)).bind fun weighted _ =>
    (addGate_emits (by simp [second]) (by simp)).bind fun reconstruction _ => Gate.pure (by simp) trivial ?_
  intro value third weight _ sum product complement negation
  refine ⟨?_, by rw [third, weight]⟩
  rw [sum, product, complement, negation]
  ring

theorem emitSide_emits {target : NodeId} {bits : List NodeId} (given : target.asUsize ∈ operands)
    (digits : ∀ id ∈ bits, id.asUsize ∈ operands) (narrow : bits.length ≤ 64) :
    Gate CircuitBuilder.observer (emitSide target bits : Build F (NodeId × NodeId)) operands (9 * bits.length + 5)
      (514 * bits.length + 106) fun value result =>
        value result.1.asUsize = booleanitySum (bits.map fun id => value id.asUsize) ∧
          value result.2.asUsize = recombine (bits.map fun id => value id.asUsize) - value target.asUsize := by
  have loop (booleanity reconstruction : NodeId) : Gate (CircuitBuilder.observer (F := F))
      (bits.zipIdx.foldlM emitDigit (booleanity, reconstruction) : Build F (NodeId × NodeId))
      ([reconstruction.asUsize] ++ ([booleanity.asUsize] ++ operands)) (9 * bits.length) (514 * bits.length)
      fun (value : ℕ → F) (sums : NodeId × NodeId) =>
        value booleanity.asUsize = 0 → value reconstruction.asUsize = 0 →
          value sums.1.asUsize = booleanitySum ((bits.take bits.zipIdx.length).map fun id => value id.asUsize) ∧
            value sums.2.asUsize = recombine ((bits.take bits.zipIdx.length).map fun id => value id.asUsize) := by
    refine (Gate.foldlM (fun _ => 9) (fun _ => 514) (fun n (value : ℕ → F) (sums : NodeId × NodeId) =>
        value booleanity.asUsize = 0 → value reconstruction.asUsize = 0 →
          value sums.1.asUsize = booleanitySum ((bits.take n).map fun id => value id.asUsize) ∧
            value sums.2.asUsize = recombine ((bits.take n).map fun id => value id.asUsize)) ?_ ?_ ?_).within ?_ ?_
    · simp
    · intro value zero zero'
      exact ⟨zero, zero'⟩
    · intro n digit found sums
      obtain ⟨id, here, rfl⟩ : ∃ id, bits[n]? = some id ∧ digit = (id, n) := by
        simpa [List.getElem?_zipIdx, eq_comm] using found
      have bound := (List.getElem?_eq_some_iff.mp here).1
      refine (emitDigit_emits (by simp) (by simp) (by simp [digits id (List.mem_of_getElem? here)])
        (bound.trans_le narrow)).implies ?_
      intro value result emitted before zero zero'
      obtain ⟨first, second⟩ := before zero zero'
      rw [List.take_add_one, here, Option.toList_some, List.map_append, List.map_singleton,
        recombine_append_singleton, List.length_map, List.length_take, Nat.min_eq_left bound.le]
      refine ⟨?_, by rw [emitted.2, second]⟩
      rw [emitted.1, first]
      simp [booleanitySum]
    · simp [Nat.mul_comm]
    · simp [Nat.mul_comm]
  refine ((CircuitBuilder.constant_emits 0).bind fun booleanity _ =>
    (CircuitBuilder.constant_emits 0).bind fun reconstruction _ =>
    (loop booleanity reconstruction).bind fun sums _ =>
    (subtract_emits (by simp) (by simp [given])).bind fun diff _ => Gate.pure (by simp) trivial ?_).within
      (by omega) (by omega)
  intro value difference summed zero' zero
  obtain ⟨first, second⟩ := summed zero zero'
  simp only [List.length_zipIdx, List.take_length] at first second
  exact ⟨first, by rw [difference, second]⟩

/-- The constraint values of a range check from the values of its inputs. -/
def constraintValues (amount limit : F) (valueBits differenceBits : List F) : List F :=
  [booleanitySum valueBits, recombine valueBits - amount, booleanitySum differenceBits,
    recombine differenceBits - (limit - amount)]

theorem proveBoundedDifference_emits {amount limit : NodeId} {bits : RangeCheckBits}
    (left : amount.asUsize ∈ operands) (right : limit.asUsize ∈ operands)
    (digits : ∀ k ∈ Refers.points bits, k ∈ operands) (values : bits.valueBits.length = amountBitLen)
    (differences : bits.differenceBits.length = amountBitLen) :
    Gate CircuitBuilder.observer (proveBoundedDifference amount limit bits : Build F RangeCheckOutputs) operands
      (18 * amountBitLen + 13) (1028 * amountBitLen + 318)
      fun value outputs =>
        outputs.toList.map (fun id => value id.asUsize) =
          constraintValues (value amount.asUsize) (value limit.asUsize)
            (bits.valueBits.map fun id => value id.asUsize)
            (bits.differenceBits.map fun id => value id.asUsize) := by
  rw [points_bits, List.forall_mem_map] at digits
  have first : ∀ id ∈ bits.valueBits, id.asUsize ∈ operands := fun id member => digits id (by simp [member])
  have second : ∀ id ∈ bits.differenceBits, id.asUsize ∈ operands := fun id member => digits id (by simp [member])
  refine ((emitSide_emits left first values.le).bind fun valueChecks _ =>
    (subtract_emits (by simp [right]) (by simp [left])).bind fun difference _ =>
    (emitSide_emits (by simp) (fun id member => by simp [second id member]) differences.le).bind
      fun differenceChecks _ => Gate.pure (by simp [RangeCheckOutputs.toList]) trivial ?_).within ?_ ?_
  · intro value later subtracted earlier
    simp [RangeCheckOutputs.toList, constraintValues, earlier, later, subtracted]
  · rw [values, differences]
    omega
  · rw [values, differences]
    omega

end Gadgets

section Digits

variable {F : Type} [Field F]

/-- The binary digits of a number recombine to it, up to their width. -/
theorem recombine_testBit (n width : ℕ) :
    recombine ((List.range width).map fun i => (Formula.bit (n.testBit i) : F)) = (n % 2 ^ width : ℕ) := by
  induction width with
  | zero => simp [recombine, Nat.mod_one]
  | succ width ih =>
    rw [List.range_succ, List.map_append, List.map_singleton, recombine_append_singleton, ih,
      List.length_map, List.length_range, Nat.mod_pow_succ, ← Nat.toNat_testBit, Nat.cast_add, Nat.cast_mul,
      Nat.cast_pow]
    cases n.testBit width <;> simp

theorem booleanitySum_bits (digits : List Bool) :
    booleanitySum (digits.map fun digit => (Formula.bit digit : F)) = 0 := by
  induction digits with
  | nil => rfl
  | cons digit rest ih =>
    have step : booleanitySum ((digit :: rest).map fun digit => (Formula.bit digit : F)) =
        Formula.bit digit * (1 - Formula.bit digit) +
          booleanitySum (rest.map fun digit => (Formula.bit digit : F)) := by
      simp [booleanitySum]
    rw [step, ih]
    cases digit <;> simp

end Digits

end RangeCheck

end PaymentAuth
