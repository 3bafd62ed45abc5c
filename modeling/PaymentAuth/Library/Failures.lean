import PaymentAuth.Library.Wire

/-! Calls that do not abort, and the errors they may return. -/

namespace Library

namespace Outcome

variable {ε ε' α β : Type} {allowed : ε → Prop}

/-- A call that does not abort and returns allowed errors only. -/
structure FailsOnly (allowed : ε → Prop) (call : Outcome ε α) : Prop where
  returns : call ≠ aborted
  errors : ∀ failure, call = error failure → allowed failure

namespace FailsOnly

theorem ok (value : α) : FailsOnly allowed (Outcome.ok value : Outcome ε α) where
  returns := ok_ne_aborted value
  errors failure same := by cases same

theorem error {failure : ε} (held : allowed failure) : FailsOnly allowed (Outcome.error failure : Outcome ε α) where
  returns := error_ne_aborted failure
  errors other same := by
    cases same
    exact held

theorem reject {condition : Prop} [Decidable condition] {failure : ε} (held : allowed failure) :
    FailsOnly allowed (Outcome.reject condition failure : Outcome ε PUnit) := by
  rcases reject_cases condition failure with passed | failed
  · rw [passed]
    exact ok _
  · rw [failed]
    exact error held

theorem okOr {failure : ε} (held : allowed failure) (value : Option α) :
    FailsOnly allowed (Outcome.okOr failure value) := by
  cases value with
  | none => exact error held
  | some value => exact ok value

/-- A sequence fails as its parts may fail. -/
theorem bind {call : Outcome ε α} {next : α → Outcome ε β} (first : FailsOnly allowed call)
    (later : ∀ value, call = .ok value → FailsOnly allowed (next value)) : FailsOnly allowed (call >>= next) := by
  cases result : call with
  | ok value => exact later value result
  | error failure => exact error (first.errors failure result)
  | aborted => exact absurd result first.returns

/-- A call whose errors are all renamed to allowed ones. -/
theorem mapError {f : ε' → ε} {call : Outcome ε' α} (returns : call ≠ aborted)
    (renamed : ∀ failure, call = .error failure → allowed (f failure)) : FailsOnly allowed (call.mapError f) := by
  cases result : call with
  | ok value => exact ok value
  | error failure => exact error (renamed failure result)
  | aborted => exact absurd result returns

theorem forM {f : α → Outcome ε PUnit} {items : List α} (each : ∀ item ∈ items, FailsOnly allowed (f item)) :
    FailsOnly allowed (forM items f) := by
  induction items with
  | nil => exact ok PUnit.unit
  | cons item rest ih =>
    rw [List.forM_cons]
    apply (each item List.mem_cons_self).bind
    intro _ _
    exact ih fun other inside => each other (List.mem_cons_of_mem item inside)

end FailsOnly

end Outcome

namespace Emission

variable {σ ε α β : Type} {allowed : ε → Prop}

/-- An action no run of which aborts or returns another error than the allowed ones. -/
def FailsOnly (allowed : ε → Prop) (action : Emission σ ε α) : Prop :=
  ∀ state, Outcome.FailsOnly allowed (action state)

namespace FailsOnly

theorem pure (value : α) : FailsOnly allowed (Pure.pure value : Emission σ ε α) := fun _ => Outcome.FailsOnly.ok _

theorem bind {action : Emission σ ε α} {next : α → Emission σ ε β} (first : FailsOnly allowed action)
    (later : ∀ value, FailsOnly allowed (next value)) : FailsOnly allowed (action >>= next) := by
  intro state
  apply (first state).bind
  intro pair _
  exact later pair.1 pair.2

theorem reject {condition : Prop} [Decidable condition] {failure : ε} (held : allowed failure) :
    FailsOnly allowed (reject condition failure : Emission σ ε Unit) := by
  intro state
  apply (Outcome.FailsOnly.reject held).bind
  intro _ _
  exact Outcome.FailsOnly.ok _

theorem liftM {call : Outcome ε α} (fails : Outcome.FailsOnly allowed call) :
    FailsOnly allowed (liftM call : Emission σ ε α) := by
  intro state
  apply fails.bind
  intro _ _
  exact Outcome.FailsOnly.ok _

end FailsOnly

end Emission

namespace Reader

variable {ε α : Type} (malformed : ε)

/-- A reader of raw bytes fails for lack of bytes alone. -/
theorem readBytes_failsOnly (len : ℕ) (bytes : Bytes) :
    Outcome.FailsOnly (· = malformed) (readBytes malformed len bytes) := by
  unfold readBytes
  split
  · exact Outcome.FailsOnly.error rfl
  · exact Outcome.FailsOnly.ok _

theorem readBytes_halts (len : ℕ) : (readBytes malformed len).Halts :=
  fun bytes => (readBytes_failsOnly malformed len bytes).returns

theorem readU8_failsOnly (bytes : Bytes) : Outcome.FailsOnly (· = malformed) (readU8 malformed bytes) := by
  apply (readBytes_failsOnly malformed 1 bytes).bind
  rintro ⟨raw, rest⟩ reads
  obtain ⟨size, -⟩ := (readBytes_canonical malformed 1 _ _ _).mp reads
  have present : ∃ value, raw[0]? = some value := ⟨_, List.getElem?_eq_getElem (size.symm ▸ Nat.one_pos)⟩
  obtain ⟨value, present⟩ := present
  simp only [present]
  exact Outcome.FailsOnly.ok _

theorem readU8_halts : (readU8 malformed).Halts := fun bytes => (readU8_failsOnly malformed bytes).returns

theorem readU32_halts : (readU32 malformed).Halts :=
  (readBytes_halts malformed 4).bind fun _ => Emission.halts_pure _

/-- A reader that turns the bytes it takes into a value or an error. -/
theorem readSized_failsOnly {len : ℕ} {make : (raw : Bytes) → raw.length = len → α} (bytes : Bytes) :
    Outcome.FailsOnly (· = malformed) ((do
      let raw ← readBytes malformed len
      if size : raw.length = len then return make raw size
      else liftM (.error malformed : Outcome ε α) : Reader ε α) bytes) := by
  apply (readBytes_failsOnly malformed len bytes).bind
  rintro ⟨raw, rest⟩ _
  by_cases size : raw.length = len
  · simp only [size, ↓reduceDIte]
    exact Outcome.FailsOnly.ok _
  · simp only [size, ↓reduceDIte]
    exact Outcome.FailsOnly.error rfl

theorem readU32_failsOnly : Emission.FailsOnly (· = malformed) (readU32 malformed) :=
  Emission.FailsOnly.bind (readBytes_failsOnly malformed 4) fun _ => Emission.FailsOnly.pure _

theorem readMany_failsOnly {allowed : ε → Prop} {read : Reader ε α} (fails : Emission.FailsOnly allowed read)
    (count : ℕ) : Emission.FailsOnly allowed (readMany read count) := by
  induction count with
  | zero => exact Emission.FailsOnly.pure []
  | succ count ih => exact fails.bind fun value => ih.bind fun others => Emission.FailsOnly.pure (value :: others)

theorem readList_failsOnly {read : Reader ε α} (fails : Emission.FailsOnly (· = malformed) read) :
    Emission.FailsOnly (· = malformed) (readList malformed read) :=
  (readU32_failsOnly malformed).bind fun count => readMany_failsOnly fails count.toNat

/-- A canonical reader reads an encoding from the front of its input or refuses it. -/
theorem Canonical.reads_or_refuses {allowed : ε → Prop} {read : Reader ε α} {encode : α → Bytes} {Valid : α → Prop}
    (canonical : Canonical read encode Valid) (fails : Emission.FailsOnly allowed read) (bytes : Bytes) :
    (∃ value rest, Valid value ∧ bytes = encode value ++ rest ∧ read bytes = .ok (value, rest)) ∨
      ∃ failure, allowed failure ∧ read bytes = .error failure := by
  cases result : read bytes with
  | ok pair =>
    obtain ⟨valid, front⟩ := (canonical _ _ _).mp result
    exact .inl ⟨pair.1, pair.2, valid, front, rfl⟩
  | error failure => exact .inr ⟨failure, (fails bytes).errors failure result, rfl⟩
  | aborted => exact absurd result (fails bytes).returns

theorem readMany_halts {read : Reader ε α} (halts : read.Halts) (count : ℕ) : (readMany read count).Halts := by
  induction count with
  | zero => exact Emission.halts_pure []
  | succ count ih => exact halts.bind fun value => ih.bind fun others => Emission.halts_pure (value :: others)

theorem readList_halts {read : Reader ε α} (halts : read.Halts) : (readList malformed read).Halts :=
  (readU32_halts malformed).bind fun count => readMany_halts halts count.toNat

end Reader

end Library
