import Mathlib.Algebra.Ring.Parity
import Mathlib.Data.List.Induction
import Mathlib.Order.Monotone.Basic

/-! Lists with one entry for each marked position of a longer list. -/

namespace Library

universe u

variable {α : Type u} {mark : ℕ → Bool} {n bound : ℕ}

/-- The marked positions below a bound, in order. -/
def marked (mark : ℕ → Bool) (bound : ℕ) : List ℕ := (List.range bound).filter mark

/-- The number of marked positions below a bound. -/
def rank (mark : ℕ → Bool) (bound : ℕ) : ℕ := (marked mark bound).length

@[simp] theorem marked_zero : marked mark 0 = [] := rfl

@[simp] theorem rank_zero : rank mark 0 = 0 := rfl

@[simp] theorem marked_length : (marked mark bound).length = rank mark bound := rfl

/-- Positions below a sum are those below the first summand and the shifted later ones. -/
theorem marked_add (mark : ℕ → Bool) (a b : ℕ) :
    marked mark (a + b) = marked mark a ++ (marked (fun n => mark (a + n)) b).map (a + ·) := by
  rw [marked, List.range_add, List.filter_append, List.filter_map]
  rfl

theorem marked_congr {mark' : ℕ → Bool} (same : ∀ n < bound, mark n = mark' n) :
    marked mark bound = marked mark' bound := by
  apply List.filter_congr
  intro n member
  exact same n (List.mem_range.mp member)

theorem rank_le (mark : ℕ → Bool) (bound : ℕ) : rank mark bound ≤ bound :=
  (List.length_filter_le _ _).trans List.length_range.le

theorem marked_succ_of (here : mark n = true) : marked mark (n + 1) = marked mark n ++ [n] := by
  simp [marked, List.range_succ, here]

theorem marked_succ_of_not (here : mark n = false) : marked mark (n + 1) = marked mark n := by
  simp [marked, List.range_succ, here]

theorem rank_succ_of (here : mark n = true) : rank mark (n + 1) = rank mark n + 1 := by
  rw [← marked_length, marked_succ_of here, List.length_append, marked_length, List.length_singleton]

theorem rank_succ_of_not (here : mark n = false) : rank mark (n + 1) = rank mark n := by
  rw [← marked_length, marked_succ_of_not here, marked_length]

theorem rank_succ : rank mark (n + 1) = rank mark n + if mark n then 1 else 0 := by
  cases here : mark n with
  | false => exact rank_succ_of_not here
  | true => exact rank_succ_of here

theorem rank_monotone (mark : ℕ → Bool) : Monotone (rank mark) := by
  refine monotone_nat_of_le_succ fun n => ?_
  cases here : mark n with
  | false => exact (rank_succ_of_not here).ge
  | true => rw [rank_succ_of here]; omega

theorem rank_lt (here : mark n = true) (below : n < bound) : rank mark n < rank mark bound := by
  have next : rank mark (n + 1) ≤ rank mark bound := rank_monotone mark below
  rw [rank_succ_of here] at next
  omega

theorem rank_congr {mark' : ℕ → Bool} (same : ∀ n < bound, mark n = mark' n) :
    rank mark bound = rank mark' bound := by
  rw [rank, marked_congr same, rank]

/-- Every index below the rank of a bound is the rank of one marked position. -/
theorem exists_rank_eq {k : ℕ} (below : k < rank mark bound) :
    ∃ n < bound, mark n = true ∧ rank mark n = k := by
  induction bound with
  | zero => simp at below
  | succ bound ih =>
    cases here : mark bound with
    | false =>
      rw [rank_succ_of_not here] at below
      obtain ⟨n, small, found⟩ := ih below
      exact ⟨n, by omega, found⟩
    | true =>
      rw [rank_succ_of here] at below
      by_cases last : k = rank mark bound
      · exact ⟨bound, by omega, here, last.symm⟩
      · obtain ⟨n, small, found⟩ := ih (by omega)
        exact ⟨n, by omega, found⟩

theorem marked_getElem? (here : mark n = true) (below : n < bound) :
    (marked mark bound)[rank mark n]? = some n := by
  induction bound with
  | zero => omega
  | succ bound ih =>
    by_cases last : n = bound
    · subst last
      rw [marked_succ_of here, List.getElem?_append_right (by simp)]
      simp
    · have earlier := ih (by omega)
      cases marking : mark bound with
      | false => rwa [marked_succ_of_not marking]
      | true =>
        rw [marked_succ_of marking, List.getElem?_append_left (by simpa using rank_lt here (by omega))]
        exact earlier

/-- A list is the image of the marked positions exactly when it has as many
entries and its entry at the rank of each marked position is that image. -/
theorem eq_map_marked_iff {items : List α} {image : ℕ → α} :
    items = (marked mark bound).map image ↔
      items.length = rank mark bound ∧
        ∀ n < bound, mark n = true → items[rank mark n]? = some (image n) := by
  constructor
  · rintro rfl
    exact ⟨by simp, fun n below here => by simp [marked_getElem? here below]⟩
  · rintro ⟨size, entries⟩
    refine List.ext_getElem? fun k => ?_
    by_cases below : k < rank mark bound
    · obtain ⟨n, small, here, rfl⟩ := exists_rank_eq below
      rw [entries n small here, List.getElem?_map, marked_getElem? here small, Option.map_some]
    · rw [List.getElem?_eq_none (by omega), List.getElem?_eq_none (by simpa using below)]

/-- The same for two entries at each marked position. -/
theorem eq_flatMap_marked_iff {items : List α} {first second : ℕ → α} :
    items = (marked mark bound).flatMap (fun n => [first n, second n]) ↔
      items.length = 2 * rank mark bound ∧
        ∀ n < bound, mark n = true →
          items[2 * rank mark n]? = some (first n) ∧ items[2 * rank mark n + 1]? = some (second n) := by
  have pairs (positions : List ℕ) (k : ℕ) :
      (positions.flatMap fun n => [first n, second n])[2 * k]? = positions[k]?.map first ∧
        (positions.flatMap fun n => [first n, second n])[2 * k + 1]? = positions[k]?.map second := by
    induction positions generalizing k with
    | nil => simp
    | cons n rest ih =>
      cases k with
      | zero => simp
      | succ k => simpa [Nat.mul_add] using ih k
  have total (positions : List ℕ) :
      (positions.flatMap fun n => [first n, second n]).length = 2 * positions.length := by
    induction positions with
    | nil => rfl
    | cons n rest ih => simp at ih ⊢; omega
  constructor
  · rintro rfl
    refine ⟨total _, fun n below here => ?_⟩
    simp [pairs, marked_getElem? here below]
  · rintro ⟨size, entries⟩
    refine List.ext_getElem? fun k => ?_
    by_cases below : k / 2 < rank mark bound
    · obtain ⟨n, small, here, half⟩ := exists_rank_eq below
      obtain ⟨even, odd⟩ := entries n small here
      rcases Nat.even_or_odd' k with ⟨j, rfl | rfl⟩
      · obtain rfl : rank mark n = j := by omega
        rw [even, (pairs _ _).1, marked_getElem? here small, Option.map_some]
      · obtain rfl : rank mark n = j := by omega
        rw [odd, (pairs _ _).2, marked_getElem? here small, Option.map_some]
    · rw [List.getElem?_eq_none (by omega), List.getElem?_eq_none (by rw [total]; simp; omega)]

/-- Counting the items that pass a test ranks the end of the list. -/
theorem countP_eq_rank (items : List α) (test : α → Bool) :
    items.countP test = rank (fun n => items[n]?.any test) items.length := by
  induction items using List.reverseRecOn with
  | nil => rfl
  | append_singleton items item ih =>
    have before : rank (fun n => (items ++ [item])[n]?.any test) items.length = items.countP test := by
      rw [ih]
      exact rank_congr fun n below => by rw [List.getElem?_append_left below]
    rw [List.countP_append, List.length_append, List.length_singleton]
    cases passes : test item with
    | false => rw [rank_succ_of_not (by simp [passes]), before]; simp [passes]
    | true => rw [rank_succ_of (by simp [passes]), before]; simp [passes]

/-- What stands at the flagged positions of a list. -/
def flagged (flags : List Bool) (items : List α) : List (Option α) :=
  (marked (fun n => flags[n]? = some true) flags.length).map fun n => items[n]?

theorem flagged_append {flags flags' : List Bool} {items items' : List α} (same : flags.length = items.length) :
    flagged (flags ++ flags') (items ++ items') = flagged flags items ++ flagged flags' items' := by
  rw [flagged, List.length_append, marked_add, List.map_append, List.map_map]
  congr 1
  · have first : marked (fun n => decide ((flags ++ flags')[n]? = some true)) flags.length =
        marked (fun n => decide (flags[n]? = some true)) flags.length := by
      apply marked_congr
      intro n below
      rw [List.getElem?_append_left below]
    rw [first, flagged]
    apply List.map_congr_left
    intro n member
    have below : n < flags.length := List.mem_range.mp (List.mem_filter.mp member).1
    exact List.getElem?_append_left (same ▸ below)
  · have second : (fun n => decide ((flags ++ flags')[flags.length + n]? = some true)) =
        fun n => decide (flags'[n]? = some true) := by
      funext n
      rw [List.getElem?_append_right (Nat.le_add_right _ _), Nat.add_sub_cancel_left]
    rw [second, flagged]
    apply List.map_congr_left
    intro n _
    rw [Function.comp_apply, same, List.getElem?_append_right (Nat.le_add_right _ _), Nat.add_sub_cancel_left]

/-- Without flags nothing is selected. -/
theorem flagged_eq_nil {flags : List Bool} (plain : ∀ flag ∈ flags, flag = false) (items : List α) :
    flagged flags items = [] := by
  rw [flagged, List.map_eq_nil_iff, marked, List.filter_eq_nil_iff]
  intro n _ chosen
  have found := List.mem_of_getElem? (of_decide_eq_true chosen)
  exact Bool.noConfusion (plain true found)

/-- Lists of lists of equal lengths are equal part by part. -/
theorem eq_of_flatMap_eq {β : Type*} {items : List α} {f g : α → List β}
    (lengths : ∀ item ∈ items, (f item).length = (g item).length) (same : items.flatMap f = items.flatMap g) :
    ∀ item ∈ items, f item = g item := by
  induction items with
  | nil => simp
  | cons item rest ih =>
    rw [List.flatMap_cons, List.flatMap_cons] at same
    obtain ⟨here, others⟩ := List.append_inj same (lengths item List.mem_cons_self)
    intro other inside
    rcases List.mem_cons.mp inside with rfl | later
    · exact here
    · exact ih (fun item member => lengths item (List.mem_cons_of_mem _ member)) others other later

end Library
