import PaymentAuth.Library.Outcome

/-! Forward passes over a list of instructions: every instruction computes one
value from the values computed before it and from a threaded state. -/

namespace Library

universe u v w x

variable {ε : Type u} {Instr : Type v} {Value State : Type w}

/-- Run `step` over the instructions in order, appending one value for each. -/
def forwardPass (step : List Value → State → Instr → Outcome ε (Value × State)) :
    List Instr → List Value → State → Outcome ε (List Value × State)
  | [], values, state => .ok (values, state)
  | instr :: rest, values, state => do
    let (value, next) ← step values state instr
    forwardPass step rest (values ++ [value]) next

variable {step : List Value → State → Instr → Outcome ε (Value × State)}

/-- The states of a completed pass, one before each instruction and one at the
end. Each recorded value is what the step computes from the earlier values. -/
structure Trace (step : List Value → State → Instr → Outcome ε (Value × State))
    (instrs : List Instr) (values : List Value) (states : ℕ → State) : Prop where
  length : values.length = instrs.length
  step : ∀ (n : ℕ) (instr : Instr), instrs[n]? = some instr →
    ∃ value, values[n]? = some value ∧
      step (values.take n) (states n) instr = .ok (value, states (n + 1))

private theorem forwardPass_states {instrs : List Instr} {before values : List Value}
    {state final : State} (run : forwardPass step instrs before state = .ok (values, final)) :
    ∃ states : ℕ → State, states 0 = state ∧ states instrs.length = final ∧
      values.length = before.length + instrs.length ∧ values.take before.length = before ∧
      ∀ (n : ℕ) (instr : Instr), instrs[n]? = some instr →
        ∃ value, values[before.length + n]? = some value ∧
          step (values.take (before.length + n)) (states n) instr = .ok (value, states (n + 1)) := by
  induction instrs generalizing before state with
  | nil =>
    cases run
    exact ⟨fun _ => final, rfl, rfl, by simp, by simp, by simp⟩
  | cons instr rest ih =>
    obtain ⟨⟨value, next⟩, first, others⟩ := Outcome.bind_ok_iff.mp run
    obtain ⟨states, start, finish, size, kept, steps⟩ := ih others
    have size' : values.length = before.length + (rest.length + 1) := by simp at size; omega
    have kept' : values.take before.length = before := by
      have shorter := congrArg (List.take before.length) kept
      simpa [List.take_take] using shorter
    have here : values[before.length]? = some value := by
      have last := congrArg (fun items => items[before.length]?) kept
      simpa [List.getElem?_take] using last
    refine ⟨fun n => if n = 0 then state else states (n - 1), rfl, by simpa using finish,
      by simpa using size', kept', ?_⟩
    intro n item found
    cases n with
    | zero =>
      have same : instr = item := by simpa using found
      subst same
      exact ⟨value, by simpa using here, by simpa [kept', start] using first⟩
    | succ n =>
      have found' : rest[n]? = some item := by simpa using found
      have moved : before.length + (n + 1) = (before ++ [value]).length + n := by simp; omega
      simpa [moved] using steps n item found'

private theorem forwardPass_of_states {instrs : List Instr} {before values : List Value}
    {states : ℕ → State} (size : values.length = before.length + instrs.length)
    (kept : values.take before.length = before)
    (steps : ∀ (n : ℕ) (instr : Instr), instrs[n]? = some instr →
      ∃ value, values[before.length + n]? = some value ∧
        step (values.take (before.length + n)) (states n) instr = .ok (value, states (n + 1))) :
    forwardPass step instrs before (states 0) = .ok (values, states instrs.length) := by
  induction instrs generalizing before states with
  | nil =>
    have whole : values = before := by
      have full : values.take before.length = values := List.take_of_length_le (by simp at size; omega)
      exact full.symm.trans kept
    simp [forwardPass, whole]
  | cons instr rest ih =>
    obtain ⟨value, here, first⟩ := steps 0 instr rfl
    simp only [Nat.add_zero, kept] at here first
    have kept' : values.take (before ++ [value]).length = before ++ [value] := by
      simp only [List.length_append, List.length_singleton, List.take_add_one, kept, here,
        Option.toList_some]
    have others := @ih (before ++ [value]) (fun n => states (n + 1))
      (by simp at size ⊢; omega) kept' (by
        intro n item found
        have moved : before.length + (n + 1) = (before ++ [value]).length + n := by simp; omega
        simpa only [moved] using steps (n + 1) item (by simpa using found))
    simp only [forwardPass, first, Outcome.ok_bind]
    simpa using others

/-- A pass succeeds exactly when it has a trace from its initial state. -/
theorem forwardPass_ok_iff {instrs : List Instr} {values : List Value} {state final : State} :
    forwardPass step instrs [] state = .ok (values, final) ↔
      ∃ states, Trace step instrs values states ∧ states 0 = state ∧ states instrs.length = final := by
  constructor
  · intro run
    obtain ⟨states, start, finish, size, _, steps⟩ := forwardPass_states run
    exact ⟨states, ⟨by simpa using size, by simpa using steps⟩, start, finish⟩
  · rintro ⟨states, trace, rfl, rfl⟩
    exact forwardPass_of_states (by simpa using trace.length) (by simp) (by simpa using trace.step)

/-- A pass goes one instruction further when its next step succeeds. -/
theorem forwardPass_concat {instrs : List Instr} {before values : List Value} {state middle next : State}
    {instr : Instr} {value : Value} (run : forwardPass step instrs before state = .ok (values, middle))
    (success : step values middle instr = .ok (value, next)) :
    forwardPass step (instrs ++ [instr]) before state = .ok (values ++ [value], next) := by
  induction instrs generalizing before state with
  | nil =>
    obtain ⟨rfl, rfl⟩ := Prod.mk.inj (Outcome.ok.inj run)
    simp only [List.nil_append, forwardPass, success, Outcome.ok_bind]
  | cons first rest ih =>
    obtain ⟨⟨head, after⟩, here, others⟩ := Outcome.bind_ok_iff.mp run
    simp only [List.cons_append, forwardPass, here, Outcome.ok_bind, ih others]

/-- A property of positions and states that every step keeps holds along the trace. -/
theorem Trace.invariant {instrs : List Instr} {values : List Value} {states : ℕ → State}
    (trace : Trace step instrs values states) (Holds : ℕ → State → Prop)
    (initial : Holds 0 (states 0))
    (kept : ∀ (n : ℕ) (instr : Instr) (value : Value), instrs[n]? = some instr →
      values[n]? = some value → Holds n (states n) →
      step (values.take n) (states n) instr = .ok (value, states (n + 1)) → Holds (n + 1) (states (n + 1))) :
    ∀ n ≤ instrs.length, Holds n (states n) := by
  intro n
  induction n with
  | zero => exact fun _ => initial
  | succ n ih =>
    intro bound
    obtain ⟨value, here, success⟩ := trace.step n instrs[n] (List.getElem?_eq_getElem (by omega))
    exact kept n _ value (List.getElem?_eq_getElem (by omega)) here (ih (by omega)) success

/-- A pass whose steps succeed from every state an invariant allows succeeds. -/
theorem forwardPass_total {instrs : List Instr} {state : State} (Holds : List Value → State → Prop)
    (initial : Holds [] state)
    (progress : ∀ (values : List Value) (current : State) (instr : Instr), Holds values current →
      instrs[values.length]? = some instr →
      ∃ value next, step values current instr = .ok (value, next) ∧ Holds (values ++ [value]) next) :
    ∃ values final, forwardPass step instrs [] state = .ok (values, final) ∧ Holds values final := by
  have general : ∀ (rest : List Instr) (values : List Value) (current : State), Holds values current →
      instrs.drop values.length = rest →
      ∃ all final, forwardPass step rest values current = .ok (all, final) ∧ Holds all final := by
    intro rest
    induction rest with
    | nil => exact fun values current held _ => ⟨values, current, rfl, held⟩
    | cons instr rest ih =>
      intro values current held remaining
      have found : instrs[values.length]? = some instr := by
        have first := congrArg List.head? remaining
        simpa [List.head?_drop] using first
      obtain ⟨value, next, success, held'⟩ := progress values current instr held found
      have remaining' : instrs.drop (values ++ [value]).length = rest := by
        have later := congrArg List.tail remaining
        simpa [List.tail_drop] using later
      obtain ⟨all, final, others, done⟩ := ih (values ++ [value]) next held' remaining'
      exact ⟨all, final, by simp [forwardPass, success, others], done⟩
  exact general instrs [] state initial (by simp)

/-- A pass does not abort when no step does on as many values as precede its instruction. -/
theorem forwardPass_ne_aborted {instrs : List Instr} {state : State}
    (returns : ∀ (values : List Value) (current : State) (instr : Instr),
      instrs[values.length]? = some instr → step values current instr ≠ .aborted) :
    forwardPass step instrs [] state ≠ .aborted := by
  have general (done rest : List Instr) (values : List Value) (current : State) (split : instrs = done ++ rest)
      (size : values.length = done.length) : forwardPass step rest values current ≠ .aborted := by
    induction rest generalizing done values current with
    | nil => exact Outcome.ok_ne_aborted (values, current)
    | cons instr rest ih =>
      have here : instrs[values.length]? = some instr := by
        rw [split, size, List.getElem?_append_right (Nat.le_refl _), Nat.sub_self]
        rfl
      rw [forwardPass]
      apply Outcome.bind_ne_aborted (returns values current instr here)
      intro pair _
      apply ih (done ++ [instr])
      · rw [split, List.append_assoc, List.singleton_append]
      · rw [List.length_append, List.length_append, size, List.length_singleton, List.length_singleton]
  exact general [] instrs [] state rfl rfl

end Library
