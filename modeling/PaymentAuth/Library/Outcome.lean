import Mathlib.Data.List.Forall2

namespace Library

universe u v w

/-- What a call does: it returns a value, returns an error, or aborts. -/
inductive Outcome (ε : Type u) (α : Type v) where
  | ok (value : α)
  | error (failure : ε)
  | aborted
deriving DecidableEq, Repr

namespace Outcome

variable {ε : Type u} {ε' : Type w} {α β γ : Type v}

instance : Monad (Outcome ε) where
  pure := ok
  bind
    | ok value, next => next value
    | error failure, _ => error failure
    | aborted, _ => aborted

@[simp] theorem pure_eq (value : α) : (pure value : Outcome ε α) = ok value := rfl

@[simp] theorem ok_bind (value : α) (next : α → Outcome ε β) : (ok value >>= next) = next value := rfl

@[simp] theorem error_bind (failure : ε) (next : α → Outcome ε β) :
    ((error failure : Outcome ε α) >>= next) = error failure := rfl

@[simp] theorem aborted_bind (next : α → Outcome ε β) :
    ((aborted : Outcome ε α) >>= next) = aborted := rfl

instance : LawfulMonad (Outcome ε) :=
  LawfulMonad.mk' _ (fun call => by cases call <;> rfl) (fun _ _ => rfl)
    (fun call _ _ => by cases call <;> rfl)

/-- A sequence succeeds exactly when both of its calls do. -/
theorem bind_ok_iff {call : Outcome ε α} {next : α → Outcome ε β} {result : β} :
    (call >>= next) = ok result ↔ ∃ value, call = ok value ∧ next value = ok result := by
  cases call <;> simp

@[simp] theorem map_ok (f : α → β) (value : α) : (f <$> (ok value : Outcome ε α)) = ok (f value) := rfl

theorem map_ok_iff {call : Outcome ε α} {f : α → β} {result : β} :
    (f <$> call) = ok result ↔ ∃ value, call = ok value ∧ f value = result := by
  cases call <;> simp [Functor.map]

/-- An absent value becomes the given error. -/
def okOr (failure : ε) : Option α → Outcome ε α
  | some value => ok value
  | none => error failure

/-- An absent value aborts: an index out of range or a failed unwrap. -/
def expect : Option α → Outcome ε α
  | some value => ok value
  | none => aborted

/-- Return the given error when the condition holds. -/
def reject (condition : Prop) [Decidable condition] (failure : ε) : Outcome ε PUnit.{v + 1} :=
  if condition then error failure else ok ⟨⟩

/-- Abort unless the condition holds. -/
def assert (condition : Prop) [Decidable condition] : Outcome ε PUnit.{v + 1} :=
  if condition then ok ⟨⟩ else aborted

def mapError (f : ε → ε') : Outcome ε α → Outcome ε' α
  | ok value => ok value
  | error failure => error (f failure)
  | aborted => aborted

/-- A failed call aborts its caller. -/
def unwrap : Outcome ε α → Outcome ε' α
  | ok value => ok value
  | error _ | aborted => aborted

@[simp] theorem unwrap_ok_iff {call : Outcome ε α} {value : α} :
    (call.unwrap : Outcome ε' α) = ok value ↔ call = ok value := by
  cases call <;> simp [unwrap]

@[simp] theorem okOr_some (failure : ε) (value : α) : okOr failure (some value) = ok value := rfl

@[simp] theorem expect_some (value : α) : (expect (some value) : Outcome ε α) = ok value := rfl

@[simp] theorem okOr_ok_iff {failure : ε} {found : Option α} {value : α} :
    okOr failure found = ok value ↔ found = some value := by
  cases found <;> simp [okOr]

@[simp] theorem expect_ok_iff {found : Option α} {value : α} :
    (expect found : Outcome ε α) = ok value ↔ found = some value := by
  cases found <;> simp [expect]

@[simp] theorem reject_ok_iff {condition : Prop} [Decidable condition] {failure : ε} {result : PUnit} :
    reject condition failure = ok result ↔ ¬condition := by
  by_cases held : condition <;> simp [reject, held]

@[simp] theorem assert_ok_iff {condition : Prop} [Decidable condition] {result : PUnit} :
    (assert condition : Outcome ε PUnit) = ok result ↔ condition := by
  by_cases held : condition <;> simp [assert, held]

theorem reject_of_not {condition : Prop} [Decidable condition] (held : ¬condition) (failure : ε) :
    (reject condition failure : Outcome ε PUnit) = ok ⟨⟩ := reject_ok_iff.mpr held

theorem assert_of {condition : Prop} [Decidable condition] (held : condition) :
    (assert condition : Outcome ε PUnit) = ok ⟨⟩ := assert_ok_iff.mpr held

theorem reject_cases (condition : Prop) [Decidable condition] (failure : ε) :
    reject condition failure = ok ⟨⟩ ∨ reject condition failure = error failure := by
  unfold reject
  split
  · exact Or.inr rfl
  · exact Or.inl rfl

theorem ok_ne_aborted (value : α) : (ok value : Outcome ε α) ≠ aborted := by
  intro same
  cases same

theorem error_ne_aborted (failure : ε) : (error failure : Outcome ε α) ≠ aborted := by
  intro same
  cases same

theorem reject_ne_aborted {condition : Prop} [Decidable condition] {failure : ε} :
    (reject condition failure : Outcome ε PUnit) ≠ aborted := by
  rcases reject_cases condition failure with passed | failed
  · rw [passed]
    exact ok_ne_aborted _
  · rw [failed]
    exact error_ne_aborted failure

/-- Sequences agree where what follows agrees on what the first call returns. -/
theorem bind_congr {call : Outcome ε α} {next next' : α → Outcome ε β}
    (same : ∀ value, call = ok value → next value = next' value) : (call >>= next) = (call >>= next') := by
  cases result : call with
  | ok value => exact same value result
  | error failure => rfl
  | aborted => rfl

/-- A sequence of calls that do not abort does not abort. -/
theorem bind_ne_aborted {call : Outcome ε α} {next : α → Outcome ε β} (first : call ≠ aborted)
    (later : ∀ value, call = ok value → next value ≠ aborted) : (call >>= next) ≠ aborted := by
  cases result : call with
  | ok value => exact later value result
  | error failure => exact error_ne_aborted failure
  | aborted => exact absurd result first

theorem mapError_ne_aborted {f : ε → ε'} {call : Outcome ε α} (returns : call ≠ aborted) :
    mapError f call ≠ aborted := by
  cases call with
  | ok value => exact ok_ne_aborted value
  | error failure => exact error_ne_aborted (f failure)
  | aborted => exact absurd rfl returns

theorem okOr_ne_aborted {failure : ε} {found : Option α} : okOr failure found ≠ aborted := by
  cases found with
  | none => exact error_ne_aborted failure
  | some value => exact ok_ne_aborted value

theorem expect_ne_aborted {found : Option α} (present : ∃ value, found = some value) :
    (expect found : Outcome ε α) ≠ aborted := by
  obtain ⟨value, rfl⟩ := present
  exact ok_ne_aborted value

theorem forM_ne_aborted {f : α → Outcome ε PUnit.{v + 1}} {items : List α}
    (returns : ∀ item ∈ items, f item ≠ aborted) : forM items f ≠ aborted := by
  induction items with
  | nil => exact ok_ne_aborted PUnit.unit
  | cons item rest ih =>
    rw [List.forM_cons]
    apply bind_ne_aborted (returns item List.mem_cons_self)
    intro _ _
    exact ih fun other inside => returns other (List.mem_cons_of_mem item inside)

theorem mapM_ne_aborted {f : α → Outcome ε β} {items : List α} (returns : ∀ item ∈ items, f item ≠ aborted) :
    items.mapM f ≠ aborted := by
  induction items with
  | nil => exact ok_ne_aborted []
  | cons item rest ih =>
    rw [List.mapM_cons]
    apply bind_ne_aborted (returns item List.mem_cons_self)
    intro value _
    apply bind_ne_aborted (ih fun other inside => returns other (List.mem_cons_of_mem item inside))
    intro values _
    exact ok_ne_aborted (value :: values)

theorem foldlM_ne_aborted {f : β → α → Outcome ε β} {items : List α} {start : β}
    (returns : ∀ total, ∀ item ∈ items, f total item ≠ aborted) : items.foldlM f start ≠ aborted := by
  induction items generalizing start with
  | nil => exact ok_ne_aborted start
  | cons item rest ih =>
    rw [List.foldlM_cons]
    apply bind_ne_aborted (returns start item List.mem_cons_self)
    intro next _
    exact ih fun total other inside => returns total other (List.mem_cons_of_mem item inside)

theorem allM_ne_aborted {f : α → Outcome ε Bool} {items : List α} (returns : ∀ item ∈ items, f item ≠ aborted) :
    items.allM f ≠ aborted := by
  induction items with
  | nil => exact ok_ne_aborted true
  | cons item rest ih =>
    rw [List.allM]
    apply bind_ne_aborted (returns item List.mem_cons_self)
    intro holds _
    cases holds with
    | false => exact ok_ne_aborted false
    | true => exact ih fun other inside => returns other (List.mem_cons_of_mem item inside)

/-- A call that neither returns a value nor aborts returns an error. -/
theorem exists_error {call : Outcome ε α} (returns : call ≠ aborted) (fails : ∀ value, call ≠ ok value) :
    ∃ failure, call = error failure := by
  cases call with
  | ok value => exact absurd rfl (fails value)
  | error failure => exact ⟨failure, rfl⟩
  | aborted => exact absurd rfl returns

/-- A list of checks with one error gives that error or none. -/
theorem forM_cases {f : α → Outcome ε PUnit.{v + 1}} {failure : ε}
    (each : ∀ item, f item = ok ⟨⟩ ∨ f item = error failure) (items : List α) :
    forM items f = ok ⟨⟩ ∨ forM items f = error failure := by
  induction items with
  | nil => exact Or.inl rfl
  | cons item rest ih =>
    rw [List.forM_cons]
    rcases each item with passed | failed
    · rwa [passed]
    · rw [failed]
      exact Or.inr rfl

@[simp] theorem mapError_ok (f : ε → ε') (value : α) : mapError f (ok value : Outcome ε α) = ok value := rfl

@[simp] theorem mapError_ok_iff {f : ε → ε'} {call : Outcome ε α} {value : α} :
    mapError f call = ok value ↔ call = ok value := by
  cases call <;> simp [mapError]

/-- A traversal succeeds exactly when every call does, in order. -/
theorem mapM_ok_iff {f : α → Outcome ε β} {items : List α} {results : List β} :
    items.mapM f = ok results ↔ List.Forall₂ (fun item result => f item = ok result) items results := by
  induction items generalizing results with
  | nil => cases results <;> simp
  | cons item rest ih =>
    rw [List.mapM_cons, bind_ok_iff]
    constructor
    · rintro ⟨result, first, others⟩
      obtain ⟨tail, success, same⟩ := bind_ok_iff.mp others
      cases same
      exact .cons first (ih.mp success)
    · rintro (_ | ⟨first, others⟩)
      exact ⟨_, first, bind_ok_iff.mpr ⟨_, ih.mpr others, rfl⟩⟩

/-- A pass over items succeeds exactly when it does on every item. -/
theorem forM_ok_iff {f : α → Outcome ε PUnit} {items : List α} {result : PUnit} :
    forM items f = ok result ↔ ∀ item ∈ items, f item = ok ⟨⟩ := by
  induction items with
  | nil => exact ⟨by simp, fun _ => rfl⟩
  | cons item rest ih =>
    rw [List.forM_cons, bind_ok_iff, List.forall_mem_cons, ih]
    constructor
    · rintro ⟨_, first, others⟩
      exact ⟨first, others⟩
    · rintro ⟨first, others⟩
      exact ⟨_, first, others⟩

/-- A short-circuiting conjunction succeeds with `true` exactly when every call does. -/
theorem allM_ok_true_iff {f : α → Outcome ε Bool} {items : List α} :
    items.allM f = ok true ↔ ∀ item ∈ items, f item = ok true := by
  induction items with
  | nil => simp [List.allM]
  | cons item rest ih =>
    rw [List.allM, bind_ok_iff, List.forall_mem_cons, ← ih]
    constructor
    · rintro ⟨(_ | _), first, others⟩
      · cases others
      · exact ⟨first, others⟩
    · rintro ⟨first, others⟩
      exact ⟨true, first, others⟩

/-- A check all of whose steps answer is a pure check. -/
theorem allM_ok_of_forall {f : α → Outcome ε Bool} {items : List α} (holds : α → Bool)
    (each : ∀ item ∈ items, f item = ok (holds item)) : items.allM f = ok (items.all holds) := by
  induction items with
  | nil => rfl
  | cons item rest ih =>
    rw [List.allM, each item List.mem_cons_self, ok_bind, List.all_cons]
    cases holds item with
    | false => rfl
    | true => exact ih fun other inside => each other (List.mem_cons_of_mem item inside)

/-- A loop all of whose steps succeed is a pure loop. -/
theorem foldlM_ok_of_forall {f : β → α → Outcome ε β} {items : List α} {start : β} (step : β → α → β)
    (each : ∀ item ∈ items, ∀ value, f value item = ok (step value item)) :
    items.foldlM f start = ok (items.foldl step start) := by
  induction items generalizing start with
  | nil => rfl
  | cons item rest ih =>
    rw [List.foldlM_cons, each item List.mem_cons_self, ok_bind, List.foldl_cons]
    exact ih fun other inside => each other (List.mem_cons_of_mem _ inside)

/-- The same for a loop that also counts its steps. -/
theorem foldlM_zipIdx_ok {f : β → α × ℕ → Outcome ε β} {items : List α} {start : β} (step : β → α → β)
    (each : ∀ item k, items[k]? = some item → ∀ value, f value (item, k) = ok (step value item)) :
    items.zipIdx.foldlM f start = ok (items.foldl step start) := by
  rw [foldlM_ok_of_forall (fun value pair => step value pair.1) fun pair inside =>
    each pair.1 pair.2 (List.mk_mem_zipIdx_iff_getElem?.mp inside)]
  conv_rhs => rw [← List.zipIdx_map_fst 0 items, List.foldl_map]

theorem mapM_ok_of_forall {f : α → Outcome ε β} {items : List α} (value : α → β)
    (each : ∀ item ∈ items, f item = ok (value item)) : items.mapM f = ok (items.map value) :=
  mapM_ok_iff.mpr (List.forall₂_map_right_iff.mpr (List.forall₂_same.mpr each))

theorem mapM_exists {f : α → Outcome ε β} {Holds : α → β → Prop} {items : List α}
    (each : ∀ item ∈ items, ∃ result, f item = ok result ∧ Holds item result) :
    ∃ results, items.mapM f = ok results ∧ List.Forall₂ Holds items results := by
  induction items with
  | nil => exact ⟨[], rfl, .nil⟩
  | cons item rest ih =>
    obtain ⟨result, first, holds⟩ := each item List.mem_cons_self
    obtain ⟨results, others, pointwise⟩ := ih fun item inside => each item (List.mem_cons_of_mem _ inside)
    exact ⟨result :: results, by rw [List.mapM_cons, first, others]; rfl, .cons holds pointwise⟩

theorem eq_map_of_mapM_ok {f : α → Outcome ε β} {items : List α} {results : List β} (value : α → β)
    (success : items.mapM f = ok results) (each : ∀ item result, f item = ok result → result = value item) :
    results = items.map value := by
  have pointwise := mapM_ok_iff.mp success
  clear success
  induction pointwise with
  | nil => rfl
  | cons first _ ih => rw [List.map_cons, ← ih, each _ _ first]

theorem exists_of_mapM_ok {f : α → Outcome ε β} {items : List α} {results : List β}
    (success : items.mapM f = ok results) {item : α} (member : item ∈ items) :
    ∃ result, f item = ok result := by
  have pointwise := mapM_ok_iff.mp success
  clear success
  induction pointwise with
  | nil => cases member
  | cons first _ ih =>
    rcases List.mem_cons.mp member with rfl | later
    · exact ⟨_, first⟩
    · exact ih later

/-- Every result of a traversal is the result of one of its calls. -/
theorem exists_call_of_mapM_ok {f : α → Outcome ε β} {items : List α} {results : List β}
    (success : items.mapM f = ok results) {result : β} (member : result ∈ results) :
    ∃ item ∈ items, f item = ok result := by
  have pointwise := mapM_ok_iff.mp success
  clear success
  induction pointwise with
  | nil => cases member
  | cons first _ ih =>
    rcases List.mem_cons.mp member with rfl | later
    · exact ⟨_, List.mem_cons_self, first⟩
    · obtain ⟨item, inside, here⟩ := ih later
      exact ⟨item, List.mem_cons_of_mem _ inside, here⟩

end Outcome

end Library
