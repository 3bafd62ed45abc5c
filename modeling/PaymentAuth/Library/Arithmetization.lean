import Mathlib.Algebra.BigOperators.Group.List.Basic
import Mathlib.Algebra.Field.Basic
import Mathlib.Algebra.GroupWithZero.Units.Basic
import Mathlib.Algebra.BigOperators.GroupWithZero.Action
import Mathlib.Tactic.LinearCombination
import PaymentAuth.Library.Formula

/-! Monotone formulas as field arithmetic: conjunctions multiply, disjunctions
take complements, and a threshold multiplies a discriminant, which vanishes on
counts below the threshold, by an auxiliary value of the prover's choice. -/

namespace Library

namespace Formula

variable {F α β : Type} [Field F]

/-- The product of `sum - t` for `t < k`: zero exactly on the counts below `k`. -/
def discriminant (k : ℕ) (sum : F) : F := ((List.range k).map fun t : ℕ => sum - t).prod

/-- The wire of a formula from the wires of its leaves and the auxiliary values. -/
def wire (leaf : α → F) (aux : β → F) : Formula α β → F :=
  fold leaf (fun k label wires => discriminant k wires.sum * aux label) (fun wires => wires.prod)
    (fun wires => 1 - (wires.map fun value => 1 - value).prod)

/-- A truth value as a field element. -/
def bit (truth : Bool) : F := if truth then 1 else 0

def IsBoolean (value : F) : Prop := value = 0 ∨ value = 1

variable {leaf : α → F} {aux : β → F} {members : List (Formula α β)}

@[simp] theorem wire_leaf (label : α) : (Formula.leaf label : Formula α β).wire leaf aux = leaf label := rfl

@[simp] theorem wire_atLeast (k : ℕ) (label : β) :
    (atLeast k label members).wire leaf aux =
      discriminant k (members.map (wire leaf aux)).sum * aux label := by
  rw [wire, fold, foldMembers_eq_map]

@[simp] theorem wire_all : (all members).wire leaf aux = (members.map (wire leaf aux)).prod := by
  rw [wire, fold, foldMembers_eq_map]

@[simp] theorem wire_any :
    (any members).wire leaf aux = 1 - (members.map fun member => 1 - member.wire leaf aux).prod := by
  rw [wire, fold, foldMembers_eq_map, List.map_map]
  rfl

@[simp] theorem bit_true : (bit true : F) = 1 := rfl

@[simp] theorem bit_false : (bit false : F) = 0 := rfl

/-- Relabelling reads leaves and auxiliary values through the labels. -/
theorem wire_map {α' β' : Type} (f : α' → α) (g : β' → β) (formula : Formula α' β') :
    (formula.map f g).wire leaf aux = formula.wire (fun label => leaf (f label)) fun label => aux (g label) := by
  induction formula with
  | leaf label => rfl
  | atLeast k label members ih =>
    rw [map_atLeast, wire_atLeast, wire_atLeast, List.map_map]
    congr 3
    exact List.map_congr_left ih
  | all members ih =>
    rw [map_all, wire_all, wire_all, List.map_map]
    exact congrArg List.prod (List.map_congr_left ih)
  | any members ih =>
    rw [map_any, wire_any, wire_any, List.map_map]
    congr 2
    exact List.map_congr_left fun member inside => congrArg (1 - ·) (ih member inside)

/-- A wire depends on the leaves and auxiliary values of its formula only. -/
theorem wire_congr {leaf' : α → F} {aux' : β → F} {formula : Formula α β}
    (leaves : ∀ label, .leaf label ∈ formula.subformulas → leaf label = leaf' label)
    (thresholds : ∀ k label members, atLeast k label members ∈ formula.subformulas → aux label = aux' label) :
    formula.wire leaf aux = formula.wire leaf' aux' := by
  induction formula with
  | leaf label => exact leaves label (by simp)
  | atLeast k label members ih =>
    rw [wire_atLeast, wire_atLeast, thresholds k label members (mem_subformulas_self _)]
    congr 3
    exact List.map_congr_left fun member inside => ih member inside
      (fun label found => leaves label (mem_subformulas_atLeast inside found))
      (fun k label members found => thresholds k label members (mem_subformulas_atLeast inside found))
  | all members ih =>
    rw [wire_all, wire_all]
    congr 1
    exact List.map_congr_left fun member inside => ih member inside
      (fun label found => leaves label (mem_subformulas_all inside found))
      (fun k label members found => thresholds k label members (mem_subformulas_all inside found))
  | any members ih =>
    rw [wire_any, wire_any]
    congr 2
    refine List.map_congr_left fun member inside => congrArg (1 - ·) (ih member inside
      (fun label found => leaves label (mem_subformulas_any inside found))
      (fun k label members found => thresholds k label members (mem_subformulas_any inside found)))

theorem sum_bits {γ : Type} (items : List γ) (test : γ → Bool) :
    (items.map fun item => (bit (test item) : F)).sum = (items.countP test : ℕ) := by
  induction items with
  | nil => simp
  | cons item rest ih => cases passes : test item <;> simp [ih, passes, add_comm]

theorem prod_bits {γ : Type} (items : List γ) (test : γ → Bool) :
    (items.map fun item => (bit (test item) : F)).prod = bit (items.all test) := by
  induction items with
  | nil => rfl
  | cons item rest ih => cases passes : test item <;> simp [ih, passes]

theorem prod_one_sub_bits {γ : Type} (items : List γ) (test : γ → Bool) :
    (items.map fun item => 1 - (bit (test item) : F)).prod = 1 - bit (items.any test) := by
  induction items with
  | nil => simp
  | cons item rest ih => cases passes : test item <;> simp [ih, passes]

theorem bit_isBoolean (truth : Bool) : IsBoolean (bit truth : F) := by
  cases truth
  · exact Or.inl rfl
  · exact Or.inr rfl

theorem bit_eq_one_iff {truth : Bool} : (bit truth : F) = 1 ↔ truth = true := by
  cases truth <;> simp [bit]

theorem isBoolean_of_mul_sub {value : F} (product : value * (1 - value) = 0) : IsBoolean value := by
  rcases mul_eq_zero.mp product with zero | one
  · exact Or.inl zero
  · exact Or.inr (sub_eq_zero.mp one).symm

theorem IsBoolean.one_sub {value : F} (boolean : IsBoolean value) : IsBoolean (1 - value) := by
  rcases boolean with rfl | rfl
  · exact Or.inr (sub_zero 1)
  · exact Or.inl (sub_self 1)

theorem isBoolean_prod {values : List F} (boolean : ∀ value ∈ values, IsBoolean value) :
    IsBoolean values.prod := by
  by_cases zero : (0 : F) ∈ values
  · exact Or.inl (List.prod_eq_zero zero)
  · refine Or.inr (List.prod_eq_one fun value member => ?_)
    rcases boolean value member with rfl | one
    · exact absurd member zero
    · exact one

/-- A product of boolean values is one exactly when all of them are. -/
theorem prod_eq_one_iff {values : List F} (boolean : ∀ value ∈ values, IsBoolean value) :
    values.prod = 1 ↔ ∀ value ∈ values, value = 1 := by
  constructor
  · intro product value member
    rcases boolean value member with rfl | one
    · exact absurd (product.symm.trans (List.prod_eq_zero member)) one_ne_zero
    · exact one
  · exact fun ones => List.prod_eq_one ones

/-- A sum of boolean values counts those that are one. -/
theorem sum_eq_countP [DecidableEq F] {values : List F} (boolean : ∀ value ∈ values, IsBoolean value) :
    values.sum = (values.countP fun value => decide (value = 1) : ℕ) := by
  induction values with
  | nil => simp
  | cons value rest ih =>
    have others := ih fun item member => boolean item (List.mem_cons_of_mem _ member)
    rcases boolean value List.mem_cons_self with rfl | rfl
    · simp [others]
    · simp [others, add_comm]

/-- On small counts the discriminant vanishes exactly below the threshold. -/
theorem discriminant_eq_zero_iff {k count bound : ℕ} (wide : ∀ n ≤ bound, (n : F) = 0 → n = 0)
    (small : count ≤ bound) : discriminant k (count : F) = 0 ↔ count < k := by
  constructor
  · intro vanishes
    obtain ⟨t, below, root⟩ := List.mem_map.mp (List.prod_eq_zero_iff.mp vanishes)
    have inside : t < k := List.mem_range.mp below
    by_cases order : t ≤ count
    · rw [← Nat.cast_sub order] at root
      have same := wide (count - t) (by omega) root
      omega
    · omega
  · intro below
    exact List.prod_eq_zero (List.mem_map.mpr ⟨count, List.mem_range.mpr below, sub_self _⟩)

section Soundness

variable {bound : ℕ} {formula : Formula α β}

/-- Against arbitrary auxiliary values: with boolean leaves and boolean
thresholds every wire is boolean, and a wire of one proves the formula true. -/
theorem wire_sound [DecidableEq F] (wide : ∀ n ≤ bound, (n : F) = 0 → n = 0)
    (leaves : ∀ label, .leaf label ∈ formula.subformulas → IsBoolean (leaf label))
    (thresholds : ∀ k label members, atLeast k label members ∈ formula.subformulas →
      members.length ≤ bound ∧ IsBoolean ((atLeast k label members).wire leaf aux)) :
    IsBoolean (formula.wire leaf aux) ∧
      (formula.wire leaf aux = 1 → formula.eval (fun label => decide (leaf label = 1)) = true) := by
  induction formula with
  | leaf label => exact ⟨leaves label (by simp), by simp⟩
  | atLeast k label members ih =>
    obtain ⟨size, boolean⟩ := thresholds k label members (mem_subformulas_self _)
    have each (member) (inside : member ∈ members) := ih member inside
      (fun label found => leaves label (mem_subformulas_atLeast inside found))
      (fun k label members found => thresholds k label members (mem_subformulas_atLeast inside found))
    refine ⟨boolean, fun one => ?_⟩
    rw [eval_atLeast, decide_eq_true_eq]
    rw [wire_atLeast, sum_eq_countP (by simpa using fun member inside => (each member inside).1)] at one
    have nonzero := left_ne_zero_of_mul_eq_one one
    rw [Ne, discriminant_eq_zero_iff wide (List.countP_le_length.trans (by simpa using size)), not_lt,
      List.countP_map] at nonzero
    refine nonzero.trans (List.countP_mono_left fun member inside holds => ?_)
    exact (each member inside).2 (by simpa using holds)
  | all members ih =>
    have each (member) (inside : member ∈ members) := ih member inside
      (fun label found => leaves label (mem_subformulas_all inside found))
      (fun k label members found => thresholds k label members (mem_subformulas_all inside found))
    have booleans : ∀ value ∈ members.map (wire leaf aux), IsBoolean value := by
      simpa using fun member inside => (each member inside).1
    rw [wire_all, prod_eq_one_iff booleans, eval_all, List.all_eq_true]
    exact ⟨isBoolean_prod booleans, fun ones member inside =>
      (each member inside).2 (ones _ (List.mem_map_of_mem inside))⟩
  | any members ih =>
    have each (member) (inside : member ∈ members) := ih member inside
      (fun label found => leaves label (mem_subformulas_any inside found))
      (fun k label members found => thresholds k label members (mem_subformulas_any inside found))
    have booleans : ∀ value ∈ members.map (fun member => 1 - member.wire leaf aux), IsBoolean value := by
      simpa using fun member inside => (each member inside).1.one_sub
    rw [wire_any]
    refine ⟨(isBoolean_prod booleans).one_sub, fun one => ?_⟩
    have zero : (0 : F) ∈ members.map fun member => 1 - member.wire leaf aux := by
      rw [← List.prod_eq_zero_iff]
      linear_combination -one
    obtain ⟨member, inside, root⟩ := List.mem_map.mp zero
    rw [eval_any, List.any_eq_true]
    exact ⟨member, inside, (each member inside).2 (sub_eq_zero.mp root).symm⟩

end Soundness

section Completeness

variable {bound : ℕ} {formula : Formula α β}

/-- A threshold's auxiliary value needs to invert the discriminant only at the
number of true members. -/
theorem wire_eq_bit_of_count (truth : α → Bool) (wide : ∀ n ≤ bound, (n : F) = 0 → n = 0)
    (leaves : ∀ label, .leaf label ∈ formula.subformulas → leaf label = bit (truth label))
    (thresholds : ∀ k label members, atLeast k label members ∈ formula.subformulas →
      members.length ≤ bound ∧
        ((members.map (wire leaf aux)).sum = (members.countP (eval truth) : ℕ) →
          aux label = (discriminant k (members.countP (eval truth) : F))⁻¹)) :
    formula.wire leaf aux = bit (formula.eval truth) := by
  induction formula with
  | leaf label => exact leaves label (by simp)
  | atLeast k label members ih =>
    obtain ⟨size, inverse⟩ := thresholds k label members (mem_subformulas_self _)
    have each (member) (inside : member ∈ members) := ih member inside
      (fun label found => leaves label (mem_subformulas_atLeast inside found))
      (fun k label members found => thresholds k label members (mem_subformulas_atLeast inside found))
    have count : (members.map (wire leaf aux)).sum = (members.countP (eval truth) : ℕ) := by
      rw [List.map_congr_left each, sum_bits]
    have decides := discriminant_eq_zero_iff (k := k) wide
      ((List.countP_le_length (p := eval truth) (l := members)).trans size)
    rw [wire_atLeast, inverse count, count, eval_atLeast]
    by_cases reached : k ≤ members.countP (eval truth)
    · rw [mul_inv_cancel₀ (fun zero => absurd (decides.mp zero) (by omega))]
      simp [reached]
    · rw [decides.mpr (by omega)]
      simp [reached]
  | all members ih =>
    have each (member) (inside : member ∈ members) := ih member inside
      (fun label found => leaves label (mem_subformulas_all inside found))
      (fun k label members found => thresholds k label members (mem_subformulas_all inside found))
    rw [wire_all, eval_all, List.map_congr_left each, prod_bits]
  | any members ih =>
    have each (member) (inside : member ∈ members) := ih member inside
      (fun label found => leaves label (mem_subformulas_any inside found))
      (fun k label members found => thresholds k label members (mem_subformulas_any inside found))
    have complements : members.map (fun member => 1 - member.wire leaf aux) =
        members.map fun member => 1 - bit (member.eval truth) :=
      List.map_congr_left fun member inside => by rw [each member inside]
    rw [wire_any, eval_any, complements, prod_one_sub_bits, sub_sub_cancel]

/-- With the inverse discriminants as auxiliary values a wire carries exactly
the truth value of its formula. -/
theorem wire_eq_bit (truth : α → Bool) (wide : ∀ n ≤ bound, (n : F) = 0 → n = 0)
    (leaves : ∀ label, .leaf label ∈ formula.subformulas → leaf label = bit (truth label))
    (thresholds : ∀ k label members, atLeast k label members ∈ formula.subformulas →
      members.length ≤ bound ∧
        aux label = (discriminant k (members.map (wire leaf aux)).sum)⁻¹) :
    formula.wire leaf aux = bit (formula.eval truth) := by
  refine wire_eq_bit_of_count truth wide leaves fun k label members inside => ?_
  obtain ⟨size, inverse⟩ := thresholds k label members inside
  exact ⟨size, fun count => by rw [inverse, count]⟩

end Completeness

end Formula

end Library
