import PaymentAuth.Library.Outcome

/-! Actions on a program under construction, and when their runs succeed. -/

namespace Library

/-- An action on a program under construction. -/
abbrev Emission (σ ε α : Type) := StateT σ (Outcome ε) α

namespace Emission

variable {σ τ ε ε' α β : Type}

/-- The same action with its errors replaced. -/
def mapError (f : ε → ε') (action : Emission σ ε α) : Emission σ ε' α :=
  fun state => (action state).mapError f

/-- Run an action on one component of the state. -/
def zoom (get : τ → σ) (set : σ → τ → τ) (action : Emission σ ε α) : Emission τ ε α := fun state => do
  let (value, inner) ← action (get state)
  .ok (value, set inner state)

/-- Return the given error when the condition holds. -/
def reject (condition : Prop) [Decidable condition] (failure : ε) : Emission σ ε Unit := fun state => do
  Outcome.reject condition failure
  .ok ((), state)

theorem reject_ok_iff {condition : Prop} [Decidable condition] {failure : ε} {state final : σ} {result : Unit} :
    (reject condition failure : Emission σ ε Unit) state = .ok (result, final) ↔
      ¬condition ∧ state = final := by
  simp only [reject, Outcome.bind_ok_iff, Outcome.reject_ok_iff, exists_const, Outcome.ok.injEq, Prod.mk.injEq,
    true_and]

theorem bind_ok_iff {action : Emission σ ε α} {next : α → Emission σ ε β} {state final : σ} {result : β} :
    (action >>= next) state = .ok (result, final) ↔
      ∃ value middle, action state = .ok (value, middle) ∧ next value middle = .ok (result, final) := by
  have run : (action >>= next) state = (action state >>= fun pair => next pair.1 pair.2) := rfl
  rw [run, Outcome.bind_ok_iff]
  simp only [Prod.exists]

/-- An action that succeeds hands its state on. -/
theorem bind_of_ok {action : Emission σ ε α} {next : α → Emission σ ε β} {state middle : σ} {value : α}
    (run : action state = .ok (value, middle)) : (action >>= next) state = next value middle := by
  have whole : (action >>= next) state = (action state >>= fun pair => next pair.1 pair.2) := rfl
  rw [whole, run, Outcome.ok_bind]

/-- Nothing follows an action that fails. -/
theorem bind_of_error {action : Emission σ ε α} {next : α → Emission σ ε β} {state : σ} {failure : ε}
    (fails : action state = .error failure) : (action >>= next) state = .error failure := by
  have whole : (action >>= next) state = (action state >>= fun pair => next pair.1 pair.2) := rfl
  rw [whole, fails, Outcome.error_bind]

/-- Nothing follows a rejection. -/
theorem reject_bind_of {condition : Prop} [Decidable condition] (held : condition) (failure : ε)
    (next : Unit → Emission σ ε β) (state : σ) : (reject condition failure >>= next) state = .error failure := by
  have whole : (reject condition failure >>= next) state =
      (reject condition failure state >>= fun pair => next pair.1 pair.2) := rfl
  rw [whole, reject, Outcome.reject, if_pos held]
  rfl

theorem reject_bind {condition : Prop} [Decidable condition] (failure : ε) (next : Unit → Emission σ ε β) (state : σ) :
    (reject condition failure >>= next) state = (Outcome.reject condition failure >>= fun _ => next () state) := by
  have whole : (reject condition failure >>= next) state =
      ((Outcome.reject condition failure >>= fun _ => Outcome.ok ((), state)) >>= fun pair => next pair.1 pair.2) := rfl
  rw [whole, bind_assoc]
  rfl

theorem liftM_bind (call : Outcome ε α) (next : α → Emission σ ε β) (state : σ) :
    ((liftM call : Emission σ ε α) >>= next) state = (call >>= fun value => next value state) := by
  have whole : ((liftM call : Emission σ ε α) >>= next) state =
      ((call >>= fun value => Outcome.ok (value, state)) >>= fun pair => next pair.1 pair.2) := rfl
  rw [whole, bind_assoc]
  rfl

/-- No run of the action aborts. -/
def Halts (action : Emission σ ε α) : Prop := ∀ state, action state ≠ .aborted

theorem Halts.bind {action : Emission σ ε α} {next : α → Emission σ ε β} (first : action.Halts)
    (later : ∀ value, (next value).Halts) : (action >>= next).Halts :=
  fun state => Outcome.bind_ne_aborted (first state) fun pair _ => later pair.1 pair.2

theorem halts_pure (value : α) : (pure value : Emission σ ε α).Halts := fun _ => Outcome.ok_ne_aborted _

theorem halts_get : (get : Emission σ ε σ).Halts := fun _ => Outcome.ok_ne_aborted _

theorem halts_set (state : σ) : (set state : Emission σ ε PUnit).Halts := fun _ => Outcome.ok_ne_aborted _

theorem halts_modify (f : σ → σ) : (modify f : Emission σ ε PUnit).Halts := fun _ => Outcome.ok_ne_aborted _

theorem halts_reject {condition : Prop} [Decidable condition] {failure : ε} :
    (reject condition failure : Emission σ ε Unit).Halts :=
  fun _ => Outcome.bind_ne_aborted Outcome.reject_ne_aborted fun _ _ => Outcome.ok_ne_aborted _

theorem halts_liftM {call : Outcome ε α} (returns : call ≠ .aborted) : (liftM call : Emission σ ε α).Halts :=
  fun _ => Outcome.bind_ne_aborted returns fun _ _ => Outcome.ok_ne_aborted _

theorem pure_ok_iff {value result : α} {state final : σ} :
    (pure value : Emission σ ε α) state = .ok (result, final) ↔ value = result ∧ state = final := by
  refine (Outcome.ok.injEq _ _).to_iff.trans ?_
  rw [Prod.mk.injEq]

theorem liftM_ok_iff {call : Outcome ε α} {state final : σ} {result : α} :
    (liftM call : Emission σ ε α) state = .ok (result, final) ↔ call = .ok result ∧ state = final := by
  have run : (liftM call : Emission σ ε α) state = (call >>= fun value => .ok (value, state)) := rfl
  rw [run, Outcome.bind_ok_iff]
  constructor
  · rintro ⟨_, success, same⟩
    cases same
    exact ⟨success, rfl⟩
  · rintro ⟨success, rfl⟩
    exact ⟨_, success, rfl⟩

theorem get_ok_iff {state final value : σ} :
    (get : Emission σ ε σ) state = .ok (value, final) ↔ state = value ∧ state = final := by
  refine (Outcome.ok.injEq _ _).to_iff.trans ?_
  rw [Prod.mk.injEq]

theorem set_ok_iff {next state final : σ} {result : PUnit} :
    (set next : Emission σ ε PUnit) state = .ok (result, final) ↔ next = final := by
  refine (Outcome.ok.injEq _ _).to_iff.trans ?_
  rw [Prod.mk.injEq, and_iff_right rfl]

theorem map_of_ok {f : α → β} {action : Emission σ ε α} {state final : σ} {value : α}
    (run : action state = .ok (value, final)) : (f <$> action) state = .ok (f value, final) := by
  rw [map_eq_pure_bind, bind_of_ok run]
  rfl

theorem map_of_error {f : α → β} {action : Emission σ ε α} {state : σ} {failure : ε}
    (fails : action state = .error failure) : (f <$> action) state = .error failure := by
  rw [map_eq_pure_bind, bind_of_error fails]

theorem map_ok_iff {f : α → β} {action : Emission σ ε α} {state final : σ} {result : β} :
    (f <$> action) state = .ok (result, final) ↔ ∃ value, action state = .ok (value, final) ∧ f value = result := by
  rw [map_eq_pure_bind, bind_ok_iff]
  constructor
  · rintro ⟨value, middle, run, returned⟩
    obtain ⟨rfl, rfl⟩ := pure_ok_iff.mp returned
    exact ⟨value, run, rfl⟩
  · rintro ⟨value, run, rfl⟩
    exact ⟨value, final, run, rfl⟩

/-- A traversal that succeeds returns one result for each item. -/
theorem length_of_mapM_ok {f : α → Emission σ ε β} {items : List α} {state final : σ} {results : List β}
    (run : items.mapM f state = .ok (results, final)) : results.length = items.length := by
  induction items generalizing state final results with
  | nil =>
    obtain ⟨rfl, -⟩ := pure_ok_iff.mp run
    rfl
  | cons item rest ih =>
    rw [List.mapM_cons, bind_ok_iff] at run
    obtain ⟨result, middle, -, later⟩ := run
    obtain ⟨others, _, run, returned⟩ := bind_ok_iff.mp later
    obtain ⟨rfl, -⟩ := pure_ok_iff.mp returned
    rw [List.length_cons, List.length_cons, ih run]

theorem mapError_ok_iff {f : ε → ε'} {action : Emission σ ε α} {state : σ} {result : α × σ} :
    mapError f action state = .ok result ↔ action state = .ok result :=
  Outcome.mapError_ok_iff

theorem zoom_ok_iff {get : τ → σ} {set : σ → τ → τ} {action : Emission σ ε α} {state final : τ} {result : α} :
    zoom get set action state = .ok (result, final) ↔
      ∃ inner, action (get state) = .ok (result, inner) ∧ set inner state = final := by
  simp only [zoom, Outcome.bind_ok_iff, Prod.exists, Outcome.ok.injEq, Prod.mk.injEq]
  constructor
  · rintro ⟨_, inner, run, rfl, rfl⟩
    exact ⟨inner, run, rfl⟩
  · rintro ⟨inner, run, rfl⟩
    exact ⟨result, inner, run, rfl, rfl⟩

end Emission

end Library
