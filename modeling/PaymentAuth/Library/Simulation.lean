import Mathlib.Algebra.GroupWithZero.Nat
import PaymentAuth.Library.ForwardPass

/-! Two programs that go the same way: where one returns, fails or aborts so does the
other, and what they return is related. -/

namespace Library.Outcome

universe u v

/-- Calls with related values, the same error or no return at all. -/
inductive Related {ε : Type u} {α β : Type v} (relation : α → β → Prop) : Outcome ε α → Outcome ε β → Prop where
  | ok {value : α} {value' : β} (related : relation value value') : Related relation (ok value) (ok value')
  | error (failure : ε) : Related relation (error failure) (error failure)
  | aborted : Related relation aborted aborted

namespace Related

variable {ε : Type u} {α β γ δ : Type v} {relation : α → β → Prop} {relation' : γ → δ → Prop}

theorem bind {call : Outcome ε α} {call' : Outcome ε β} {next : α → Outcome ε γ} {next' : β → Outcome ε δ}
    (related : Related relation call call')
    (later : ∀ value value', relation value value' → Related relation' (next value) (next' value')) :
    Related relation' (call >>= next) (call' >>= next') := by
  cases related with
  | ok held => exact later _ _ held
  | error failure => exact .error failure
  | aborted => exact .aborted

/-- What a call is related to returns only where the call does. -/
theorem exists_ok {call : Outcome ε α} {value' : β} (related : Related relation call (.ok value')) :
    ∃ value, call = .ok value ∧ relation value value' := by
  cases related with
  | ok held => exact ⟨_, rfl, held⟩

theorem eq_error {call : Outcome ε α} {failure : ε} (related : Related relation call (.error failure : Outcome ε β)) :
    call = .error failure := by
  cases related with
  | error => rfl

theorem eq_aborted {call : Outcome ε α} (related : Related relation call (.aborted : Outcome ε β)) :
    call = .aborted := by
  cases related with
  | aborted => rfl

/-- A call is related to itself where its own values are. -/
theorem refl {kept : α → α → Prop} {call : Outcome ε α} (held : ∀ value, call = .ok value → kept value value) :
    Related kept call call := by
  cases call with
  | ok value => exact .ok (held value rfl)
  | error failure => exact .error failure
  | aborted => exact .aborted

/-- Related calls agree on whatever related values agree on. -/
theorem map_eq {call : Outcome ε α} {call' : Outcome ε β} {f : α → γ} {g : β → γ}
    (related : Related relation call call') (same : ∀ value value', relation value value' → f value = g value') :
    f <$> call = g <$> call' := by
  cases related with
  | ok held => exact congrArg Outcome.ok (same _ _ held)
  | error failure => rfl
  | aborted => rfl

theorem expect {found : Option α} {found' : Option β} (related : Option.Rel relation found found') :
    Related relation (Outcome.expect found : Outcome ε α) (Outcome.expect found') := by
  cases related with
  | some held => exact .ok held
  | none => exact .aborted

/-- Loops are related when each round is. The budget that a round may rely on is what
the items so far have not used up. -/
theorem foldlM {σ τ ι κ : Type v} {step : σ → ι → Outcome ε σ} {step' : τ → κ → Outcome ε τ}
    {kept : ℕ → σ → τ → Prop} {paired : ι → κ → Prop} {cost : ι → ℕ} {items : List ι} {items' : List κ} {budget : ℕ}
    (round : ∀ used state state' item item', used + cost item ≤ budget → kept used state state' → paired item item' →
      Related (kept (used + cost item)) (step state item) (step' state' item'))
    (pairs : List.Forall₂ paired items items') {used : ℕ} (room : used + (items.map cost).sum ≤ budget) {state : σ}
    {state' : τ} (start : kept used state state') :
    Related (kept (used + (items.map cost).sum)) (items.foldlM step state) (items'.foldlM step' state') := by
  induction pairs generalizing used state state' with
  | nil => exact .ok start
  | cons held _ ih =>
    rw [List.map_cons, List.sum_cons, ← Nat.add_assoc] at room
    rw [List.foldlM_cons, List.foldlM_cons, List.map_cons, List.sum_cons, ← Nat.add_assoc]
    exact (round used state state' _ _ (by omega) start held).bind fun _ _ next => ih room next

end Related

/-- Related lists are related at every position. -/
theorem found_of_forall₂ {α β : Type v} {relation : α → β → Prop} {items : List α} {items' : List β}
    (pairs : List.Forall₂ relation items items') (x : ℕ) : Option.Rel relation items[x]? items'[x]? := by
  induction pairs generalizing x with
  | nil => exact .none
  | cons held _ ih =>
    cases x with
    | zero => exact .some held
    | succ x => exact ih x

theorem related_of_found {α β : Type v} {relation : α → β → Prop} {items : List α} {items' : List β}
    (pairs : List.Forall₂ relation items items') {x : ℕ} {item : α} {item' : β} (found : items[x]? = some item)
    (found' : items'[x]? = some item') : relation item item' := by
  have held := found_of_forall₂ pairs x
  rw [found, found'] at held
  cases held with
  | some held => exact held

/-- A forward pass next to a fold over what its instructions are turned into. -/
theorem forwardPass_foldlM {ε' : Type u} {Instr κ : Type v} {Value State τ : Type v}
    {step : List Value → State → Instr → Outcome ε (Value × State)} {call : τ → κ → Outcome ε' τ}
    {turn : Instr × ℕ → κ} {kept : List Value → State → τ → Prop} {instrs : List Instr}
    (round : ∀ values state abstract instr value next, kept values state abstract →
      instrs[values.length]? = some instr → step values state instr = .ok (value, next) →
        ∃ later, call abstract (turn (instr, values.length)) = .ok later ∧ kept (values ++ [value]) next later)
    {state final : State} {values : List Value} {abstract : τ} (start : kept [] state abstract)
    (run : forwardPass step instrs [] state = .ok (values, final)) :
    ∃ later, (instrs.zipIdx.map turn).foldlM call abstract = .ok later ∧ kept values final later := by
  have general : ∀ (rest : List Instr) (done : List Value) (state : State) (abstract : τ), kept done state abstract →
      instrs.drop done.length = rest → forwardPass step rest done state = .ok (values, final) →
        ∃ later, ((rest.zipIdx done.length).map turn).foldlM call abstract = .ok later ∧ kept values final later := by
    intro rest
    induction rest with
    | nil =>
      intro done state abstract held _ run
      obtain ⟨rfl, rfl⟩ := Prod.mk.inj (Outcome.ok.inj run)
      exact ⟨abstract, rfl, held⟩
    | cons instr rest ih =>
      intro done state abstract held remaining run
      have found : instrs[done.length]? = some instr := by
        rw [← List.head?_drop, remaining]
        rfl
      obtain ⟨⟨value, next⟩, success, others⟩ := Outcome.bind_ok_iff.mp run
      obtain ⟨later, calls, held'⟩ := round done state abstract instr value next held found success
      have length : (done ++ [value]).length = done.length + 1 := by simp
      have remaining' : instrs.drop (done ++ [value]).length = rest := by
        rw [length, ← List.tail_drop, remaining]
        rfl
      obtain ⟨last, more, held⟩ := ih (done ++ [value]) next later held' remaining' others
      refine ⟨last, ?_, held⟩
      rw [List.zipIdx_cons, List.map_cons, List.foldlM_cons, calls, Outcome.ok_bind, ← length]
      exact more
  exact general instrs [] state abstract start rfl run

theorem map_eq_of_forall₂ {α β γ : Type v} {relation : α → β → Prop} {f : α → γ} {g : β → γ}
    (same : ∀ item item', relation item item' → f item = g item') {items : List α} {items' : List β}
    (pairs : List.Forall₂ relation items items') : items.map f = items'.map g := by
  induction pairs with
  | nil => rfl
  | cons held _ ih => rw [List.map_cons, List.map_cons, same _ _ held, ih]

end Library.Outcome
