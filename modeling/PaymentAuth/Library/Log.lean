import PaymentAuth.Library.Emission

/-! Actions that keep a log of what they compute on the way. -/

namespace Library

/-- An action that appends entries to a log. -/
abbrev Logged (ω ε α : Type) := Emission (List ω) ε α

namespace Logged

variable {ω ε α β : Type}

def tell (entry : ω) : Logged ω ε Unit := fun log => .ok ((), log ++ [entry])

/-- Abort unless the condition holds. -/
def assert (condition : Prop) [Decidable condition] : Logged ω ε Unit := fun log => do
  Outcome.assert condition
  .ok ((), log)

/-- From every log the action returns the value and appends allowed entries only. -/
def Returns (allowed : ω → Prop) (action : Logged ω ε α) (value : α) : Prop :=
  ∀ log, ∃ entries, action log = .ok (value, log ++ entries) ∧ ∀ entry ∈ entries, allowed entry

variable {allowed : ω → Prop}

theorem returns_pure (value : α) : Returns allowed (pure value : Logged ω ε α) value := by
  intro log
  exact ⟨[], by rw [List.append_nil]; rfl, List.forall_mem_nil allowed⟩

theorem Returns.bind {action : Logged ω ε α} {next : α → Logged ω ε β} {value : α} {result : β}
    (first : Returns allowed action value) (later : Returns allowed (next value) result) :
    Returns allowed (action >>= next) result := by
  intro log
  obtain ⟨before, run, fine⟩ := first log
  obtain ⟨after, run', fine'⟩ := later (log ++ before)
  refine ⟨before ++ after, ?_, List.forall_mem_append.mpr ⟨fine, fine'⟩⟩
  rw [← List.append_assoc]
  exact Emission.bind_ok_iff.mpr ⟨value, log ++ before, run, run'⟩

theorem returns_tell {entry : ω} (fine : allowed entry) : Returns allowed (tell entry : Logged ω ε Unit) () :=
  fun _ => ⟨[entry], rfl, List.forall_mem_singleton.mpr fine⟩

theorem returns_assert {condition : Prop} [Decidable condition] (held : condition) :
    Returns allowed (assert condition : Logged ω ε Unit) () := by
  intro log
  refine ⟨[], ?_, List.forall_mem_nil allowed⟩
  rw [assert, Outcome.assert_of held, List.append_nil]
  rfl

theorem returns_reject {condition : Prop} [Decidable condition] {failure : ε} (passed : ¬condition) :
    Returns allowed (Emission.reject condition failure : Logged ω ε Unit) () := by
  intro log
  refine ⟨[], ?_, List.forall_mem_nil allowed⟩
  rw [List.append_nil]
  exact Emission.reject_ok_iff.mpr ⟨passed, rfl⟩

/-- A traversal returns what its calls return. -/
theorem returns_mapM {items : List α} {body : α → Logged ω ε β} {f : α → β}
    (each : ∀ item ∈ items, Returns allowed (body item) (f item)) :
    Returns allowed (items.mapM body) (items.map f) := by
  induction items with
  | nil => exact returns_pure []
  | cons item rest ih =>
    have others := ih fun other inside => each other (List.mem_cons_of_mem item inside)
    rw [List.mapM_cons]
    exact (each item List.mem_cons_self).bind (others.bind (returns_pure _))

/-- A loop returns what its body accumulates under an invariant of the accumulator. -/
theorem returns_foldlM {items : List α} {body : β → α → Logged ω ε β} {f : β → α → β} {start : β}
    (Holds : β → Prop) (initial : Holds start)
    (each : ∀ (value : β), ∀ item ∈ items, Holds value →
      Returns allowed (body value item) (f value item) ∧ Holds (f value item)) :
    Returns allowed (items.foldlM body start) (items.foldl f start) := by
  induction items generalizing start with
  | nil => exact returns_pure start
  | cons item rest ih =>
    obtain ⟨first, held⟩ := each start item List.mem_cons_self initial
    rw [List.foldlM_cons]
    apply first.bind
    apply ih held
    exact fun value other inside => each value other (List.mem_cons_of_mem item inside)

end Logged

end Library
