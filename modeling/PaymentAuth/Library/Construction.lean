import Mathlib.Algebra.BigOperators.Group.List.Basic
import Mathlib.Algebra.GroupWithZero.Nat
import Mathlib.Data.List.Induction
import PaymentAuth.Library.Emission

/-! Actions that extend a program under construction. One judgement says when an
action runs, what it costs, what it declares and what its result means. -/

namespace Library

/-- The points of a program that a value refers to. -/
class Refers (α : Type) where
  points : α → List ℕ

open Refers (points)

section Instances

variable {α β : Type} [Refers α] [Refers β]

instance : Refers Unit := ⟨fun _ => []⟩

instance : Refers (α × β) := ⟨fun pair => points pair.1 ++ points pair.2⟩

instance : Refers (List α) := ⟨fun values => values.flatMap points⟩

instance : Refers (Option α) := ⟨fun value => value.elim [] points⟩

@[simp] theorem points_unit (value : Unit) : points value = [] := rfl

@[simp] theorem points_pair (pair : α × β) : points pair = points pair.1 ++ points pair.2 := rfl

@[simp] theorem points_list (values : List α) : points values = values.flatMap points := rfl

@[simp] theorem points_none : points (none : Option α) = [] := rfl

@[simp] theorem points_some (value : α) : points (some value) = points value := rfl

end Instances

/-- What is observed of a program under construction: the worlds in which it holds, what
it has declared, how many instructions it has, what they weigh, whether it is well
formed, and how many instructions it can have. -/
structure Observer (σ World Φ : Type) where
  holds : σ → World → Prop
  log : σ → Φ
  size : σ → ℕ
  weight : σ → ℕ
  sound : σ → Prop
  limit : ℕ

/-- A well-formed program in which the given points are defined. -/
structure Observer.Ready {σ World Φ : Type} (observer : Observer σ World Φ) (operands : List ℕ) (state : σ) : Prop where
  sound : observer.sound state
  defined : ∀ k ∈ operands, k < observer.size state

/-- Fewer points may be asked for. -/
theorem Observer.Ready.restrict {σ World Φ : Type} {observer : Observer σ World Φ} {operands operands' : List ℕ}
    {state : σ} (ready : observer.Ready operands state) (fewer : ∀ k ∈ operands', k ∈ operands) :
    observer.Ready operands' state :=
  ⟨ready.sound, fun k member => ready.defined k (fewer k member)⟩

/-- A later state of a program, with what has been spent and declared since. -/
structure Extends {σ World Φ : Type} [Add Φ] (observer : Observer σ World Φ) (before after : σ) (size weight : ℕ)
    (added : Φ) : Prop where
  holds : ∀ world, observer.holds after world → observer.holds before world
  log : observer.log after = observer.log before + added
  size : observer.size after = observer.size before + size
  weight : observer.weight after ≤ observer.weight before + weight

/-- An action over given operands. It runs where there is room; every run adds exactly
`size` instructions and at most `weight`, ensures a relation between its result and what
it declares, defines what it returns, and establishes what its result means in the
worlds of the program. -/
structure Emits {σ ε World Φ α : Type} [Add Φ] [Refers α] (observer : Observer σ World Φ) (action : Emission σ ε α)
    (operands : List ℕ) (size weight : ℕ) (ensures : α → Φ → Prop) (post : World → α → Prop) : Prop where
  runs : ∀ state, observer.Ready operands state → observer.size state + size ≤ observer.limit →
    ∃ result final, action state = .ok (result, final)
  extension : ∀ state final result, action state = .ok (result, final) →
    ∃ added, Extends observer state final size weight added ∧ ensures result added
  ready : ∀ state final result, action state = .ok (result, final) → observer.Ready operands state →
    observer.Ready (points result) final
  meaning : ∀ state final result, action state = .ok (result, final) →
    ∀ world, observer.holds final world → post world result

/-- An action that declares nothing. -/
abbrev Gate {σ ε World Φ α : Type} [AddMonoid Φ] [Refers α] (observer : Observer σ World Φ) (action : Emission σ ε α)
    (operands : List ℕ) (size weight : ℕ) (post : World → α → Prop) (ensures : α → Prop := fun _ => True) : Prop :=
  Emits observer action operands size weight (fun result added => added = 0 ∧ ensures result) post

section Rules

variable {σ ε ε' World Φ α β γ : Type} [AddMonoid Φ] [Refers α] [Refers β] {observer : Observer σ World Φ}
  {operands operands' : List ℕ} {size size' weight weight' : ℕ}

theorem Extends.refl (state : σ) : Extends observer state state 0 0 0 :=
  ⟨fun _ held => held, (add_zero _).symm, rfl, Nat.le_refl _⟩

theorem Extends.trans {first second third : σ} {added added' : Φ}
    (earlier : Extends observer first second size weight added)
    (later : Extends observer second third size' weight' added') :
    Extends observer first third (size + size') (weight + weight') (added + added') where
  holds world held := earlier.holds world (later.holds world held)
  log := by rw [later.log, earlier.log, add_assoc]
  size := by rw [later.size, earlier.size, Nat.add_assoc]
  weight := by
    have first := earlier.weight
    have second := later.weight
    omega

/-- What was defined stays so while the program grows. -/
theorem Observer.Ready.grow {before after : σ} {added : Φ} (ready : observer.Ready operands before)
    (extension : Extends observer before after size weight added) (later : observer.Ready operands' after) :
    observer.Ready (operands' ++ operands) after where
  sound := later.sound
  defined k member := by
    rcases List.mem_append.mp member with new | old
    · exact later.defined k new
    · rw [extension.size]
      exact Nat.lt_add_right size (ready.defined k old)

namespace Emits

variable {action : Emission σ ε α} {ensures ensures₁ : α → Φ → Prop} {post post₁ : World → α → Prop}
  {ensures' : β → Φ → Prop} {post' : World → β → Prop}

theorem pure {value : α} (given : ∀ k ∈ points value, k ∈ operands) (ensured : ensures value 0)
    (holds : ∀ world, post world value) :
    Emits observer (Pure.pure value : Emission σ ε α) operands 0 0 ensures post where
  runs state _ _ := ⟨value, state, rfl⟩
  extension state final result run := by
    obtain ⟨rfl, rfl⟩ := Emission.pure_ok_iff.mp run
    exact ⟨0, Extends.refl state, ensured⟩
  ready state final result run ready := by
    obtain ⟨rfl, rfl⟩ := Emission.pure_ok_iff.mp run
    exact ready.restrict given
  meaning state final result run world _ := by
    obtain ⟨rfl, rfl⟩ := Emission.pure_ok_iff.mp run
    exact holds world

/-- The second action may use what the first defines, ensures and means. -/
theorem bind {next : α → Emission σ ε β} (head : Emits observer action operands size weight ensures post)
    (tail : ∀ value added, ensures value added →
      Emits observer (next value) (points value ++ operands) size' weight'
        (fun result added' => ensures' result (added + added')) fun world result =>
          post world value → post' world result) :
    Emits observer (action >>= next) operands (size + size') (weight + weight') ensures' post' where
  runs state ready room := by
    obtain ⟨value, middle, first⟩ := head.runs state ready (by omega)
    obtain ⟨added, extension, ensured⟩ := head.extension _ _ _ first
    obtain ⟨result, final, later⟩ := (tail value added ensured).runs middle
      (ready.grow extension (head.ready _ _ _ first ready)) (by rw [extension.size]; omega)
    exact ⟨result, final, Emission.bind_ok_iff.mpr ⟨value, middle, first, later⟩⟩
  extension state final result run := by
    obtain ⟨value, middle, first, later⟩ := Emission.bind_ok_iff.mp run
    obtain ⟨added, extension, ensured⟩ := head.extension _ _ _ first
    obtain ⟨added', extension', ensured'⟩ := (tail value added ensured).extension _ _ _ later
    exact ⟨added + added', extension.trans extension', ensured'⟩
  ready state final result run ready := by
    obtain ⟨value, middle, first, later⟩ := Emission.bind_ok_iff.mp run
    obtain ⟨added, extension, ensured⟩ := head.extension _ _ _ first
    exact (tail value added ensured).ready _ _ _ later (ready.grow extension (head.ready _ _ _ first ready))
  meaning state final result run world held := by
    obtain ⟨value, middle, first, later⟩ := Emission.bind_ok_iff.mp run
    obtain ⟨added, _, ensured⟩ := head.extension _ _ _ first
    obtain ⟨_, extension', _⟩ := (tail value added ensured).extension _ _ _ later
    exact (tail value added ensured).meaning _ _ _ later world held
      (head.meaning _ _ _ first world (extension'.holds world held))

/-- More operands may be given. -/
theorem widen (emits : Emits observer action operands size weight ensures post)
    (fewer : ∀ k ∈ operands, k ∈ operands') : Emits observer action operands' size weight ensures post where
  runs state ready := emits.runs state (ready.restrict fewer)
  extension := emits.extension
  ready state final result run ready := emits.ready state final result run (ready.restrict fewer)
  meaning := emits.meaning

/-- The weight may be bounded in another way. -/
theorem reweigh (emits : Emits observer action operands size weight ensures post)
    (light : ∀ state final result, action state = .ok (result, final) →
      observer.weight final ≤ observer.weight state + weight') :
    Emits observer action operands size weight' ensures post where
  runs := emits.runs
  extension state final result run := by
    obtain ⟨added, extension, ensured⟩ := emits.extension state final result run
    exact ⟨added, { extension with weight := light state final result run }, ensured⟩
  ready := emits.ready
  meaning := emits.meaning

/-- The size may be written in another way, and the weight only bounds. -/
theorem within (emits : Emits observer action operands size weight ensures post) (same : size = size')
    (enough : weight ≤ weight') : Emits observer action operands size' weight' ensures post := by
  subst same
  apply emits.reweigh
  intro state final result run
  obtain ⟨_, extension, _⟩ := emits.extension state final result run
  exact Nat.le_trans extension.weight (Nat.add_le_add_left enough _)

theorem ensuring (emits : Emits observer action operands size weight ensures post)
    (weaker : ∀ result added, ensures result added → ensures₁ result added) :
    Emits observer action operands size weight ensures₁ post where
  runs := emits.runs
  extension state final result run := by
    obtain ⟨added, extension, ensured⟩ := emits.extension state final result run
    exact ⟨added, extension, weaker result added ensured⟩
  ready := emits.ready
  meaning := emits.meaning

theorem implies (emits : Emits observer action operands size weight ensures post)
    (weaker : ∀ world result, post world result → post₁ world result) :
    Emits observer action operands size weight ensures post₁ where
  runs := emits.runs
  extension := emits.extension
  ready := emits.ready
  meaning state final result run world held := weaker world result (emits.meaning state final result run world held)

theorem mapError {f : ε → ε'} (emits : Emits observer action operands size weight ensures post) :
    Emits observer (Emission.mapError f action) operands size weight ensures post where
  runs state ready room := by
    obtain ⟨result, final, run⟩ := emits.runs state ready room
    exact ⟨result, final, Emission.mapError_ok_iff.mpr run⟩
  extension state final result run := emits.extension state final result (Emission.mapError_ok_iff.mp run)
  ready state final result run := emits.ready state final result (Emission.mapError_ok_iff.mp run)
  meaning state final result run := emits.meaning state final result (Emission.mapError_ok_iff.mp run)

/-- Running an action for each item declares what every run declares. -/
theorem mapM {items : List γ} {body : γ → Emission σ ε α} {declares : α → Φ}
    (step : ∀ item ∈ items, Emits observer (body item) operands size weight
      (fun value added => added = declares value) fun _ _ => True) :
    Emits observer (items.mapM body) operands (items.length * size) (items.length * weight)
      (fun values added => values.length = items.length ∧ added = (values.map declares).sum) fun _ _ => True := by
  induction items generalizing operands with
  | nil =>
    rw [List.length_nil, Nat.zero_mul, Nat.zero_mul]
    exact pure (fun k member => by cases member) ⟨rfl, rfl⟩ fun _ => trivial
  | cons item rest ih =>
    rw [List.mapM_cons, List.length_cons, Nat.succ_mul, Nat.succ_mul, Nat.add_comm _ size, Nat.add_comm _ weight]
    apply (step item List.mem_cons_self).bind
    intro value added declared
    have others := ih fun other inside => (step other (List.mem_cons_of_mem item inside)).widen
      fun k member => List.mem_append_right (points value) member
    apply (others.bind ?_).within (Nat.add_zero _) (Nat.le_of_eq (Nat.add_zero _))
    rintro values added' ⟨length, declared'⟩
    refine pure (fun k member => ?_) ⟨congrArg (· + 1) length, ?_⟩ fun _ _ _ => trivial
    · rw [points_list, List.flatMap_cons] at member
      rcases List.mem_append.mp member with first | later
      · exact List.mem_append_right _ (List.mem_append_left _ first)
      · exact List.mem_append_left _ later
    · rw [declared, declared', add_zero, List.map_cons, List.sum_cons]

end Emits

namespace Gate

variable {action : Emission σ ε α} {ensures : α → Prop} {post : World → α → Prop} {ensures' : β → Φ → Prop}
  {post' : World → β → Prop}

theorem pure {value : α} (given : ∀ k ∈ points value, k ∈ operands) (ensured : ensures value)
    (holds : ∀ world, post world value) :
    Gate observer (Pure.pure value : Emission σ ε α) operands 0 0 post ensures :=
  Emits.pure given ⟨rfl, ensured⟩ holds

/-- Nothing is declared before the second action. -/
theorem bind {next : α → Emission σ ε β} (head : Gate observer action operands size weight post ensures)
    (tail : ∀ value, ensures value → Emits observer (next value) (points value ++ operands) size' weight' ensures'
      fun world result => post world value → post' world result) :
    Emits observer (action >>= next) operands (size + size') (weight + weight') ensures' post' := by
  apply Emits.bind head
  rintro value added ⟨rfl, ensured⟩
  apply (tail value ensured).ensuring
  intro result added' ensured'
  rwa [zero_add]

/-- Two actions with one specification, and a third one. -/
theorem pair {first : Emission σ ε γ} {next : γ → Emission σ ε α} {last : α → Emission σ ε β}
    (head : Gate observer (first >>= next) operands size weight post ensures)
    (tail : ∀ value, ensures value → Emits observer (last value) (points value ++ operands) size' weight' ensures'
      fun world result => post world value → post' world result) :
    Emits observer (first >>= fun value => next value >>= last) operands (size + size') (weight + weight') ensures'
      post' := by
  rw [← bind_assoc]
  exact bind head tail

theorem reject {condition : Prop} [Decidable condition] {failure : ε} (passes : ¬condition) :
    Gate observer (Emission.reject condition failure : Emission σ ε Unit) operands 0 0 fun _ _ => True where
  runs state _ _ := ⟨(), state, Emission.reject_ok_iff.mpr ⟨passes, rfl⟩⟩
  extension state final result run := by
    obtain ⟨_, rfl⟩ := Emission.reject_ok_iff.mp run
    exact ⟨0, Extends.refl state, rfl, trivial⟩
  ready state final result run ready := by
    obtain ⟨_, rfl⟩ := Emission.reject_ok_iff.mp run
    exact ready.restrict fun k member => by cases member
  meaning _ _ _ _ _ _ := trivial

/-- A loop whose body establishes an invariant of its accumulator costs what its items cost. -/
theorem foldlM {items : List γ} {body : α → γ → Emission σ ε α} {start : α} (sizes weights : γ → ℕ)
    (invariant : ℕ → World → α → Prop) (given : ∀ k ∈ points start, k ∈ operands)
    (initial : ∀ world, invariant 0 world start)
    (step : ∀ (n : ℕ) (item : γ), items[n]? = some item → ∀ value,
      Gate observer (body value item) (points value ++ operands) (sizes item) (weights item) fun world result =>
        invariant n world value → invariant (n + 1) world result) :
    Gate observer (items.foldlM body start) operands (items.map sizes).sum (items.map weights).sum
      (invariant items.length) := by
  induction items using List.reverseRecOn with
  | nil => exact pure given trivial initial
  | append_singleton items item ih =>
    rw [List.foldlM_append, List.length_append, List.length_singleton]
    simp only [List.map_append, List.map_singleton, List.sum_append, List.sum_singleton]
    have earlier := ih fun n other found => step n other <| by
      rw [List.getElem?_append_left (List.getElem?_eq_some_iff.mp found).1]
      exact found
    refine bind earlier fun value _ => ?_
    rw [List.foldlM_cons]
    simp only [List.foldlM_nil, bind_pure]
    exact step items.length item (by simp) value

end Gate

/-- An observer of a whole that sees of one component what another observer sees. -/
structure Focus {σ τ World Φ Ψ : Type} [AddMonoid Φ] [AddMonoid Ψ] (inner : Observer σ World Φ)
    (outer : Observer τ World Ψ) (get : τ → σ) (set : σ → τ → τ) (lift : Φ → Ψ) : Prop where
  get_set : ∀ part state, get (set part state) = part
  holds : ∀ state world, outer.holds state world ↔ inner.holds (get state) world
  log : ∀ part state added, inner.log part = inner.log (get state) + added →
    outer.log (set part state) = outer.log state + lift added
  size : ∀ state, outer.size state = inner.size (get state)
  weight : ∀ state, outer.weight state = inner.weight (get state)
  limit : outer.limit = inner.limit
  inner_sound : ∀ state, outer.sound state → inner.sound (get state)
  sound : ∀ part state, outer.sound state → inner.sound part → inner.size (get state) ≤ inner.size part →
    outer.sound (set part state)
  lift_zero : lift 0 = 0

/-- An action on one component of the state. -/
theorem Emits.zoom {τ Ψ : Type} [AddMonoid Ψ] {outer : Observer τ World Ψ} {get : τ → σ} {set : σ → τ → τ}
    {lift : Φ → Ψ} {action : Emission σ ε α} {ensures : α → Φ → Prop} {post : World → α → Prop}
    (focus : Focus observer outer get set lift) (emits : Emits observer action operands size weight ensures post) :
    Emits outer (Emission.zoom get set action) operands size weight
      (fun result added => ∃ inside, ensures result inside ∧ added = lift inside) post := by
  have enter (state : τ) (ready : outer.Ready operands state) : observer.Ready operands (get state) :=
    ⟨focus.inner_sound state ready.sound, fun k member => focus.size state ▸ ready.defined k member⟩
  constructor
  · intro state ready room
    rw [focus.size, focus.limit] at room
    obtain ⟨result, part, run⟩ := emits.runs (get state) (enter state ready) room
    exact ⟨result, set part state, Emission.zoom_ok_iff.mpr ⟨part, run, rfl⟩⟩
  · intro state final result run
    obtain ⟨part, here, rfl⟩ := Emission.zoom_ok_iff.mp run
    obtain ⟨inside, extension, ensured⟩ := emits.extension _ _ _ here
    refine ⟨lift inside, ⟨?_, focus.log part state inside extension.log, ?_, ?_⟩, inside, ensured, rfl⟩
    · intro world held
      rw [focus.holds, focus.get_set] at held
      exact (focus.holds state world).mpr (extension.holds world held)
    · rw [focus.size, focus.size, focus.get_set, extension.size]
    · rw [focus.weight, focus.weight, focus.get_set]
      exact extension.weight
  · intro state final result run ready
    obtain ⟨part, here, rfl⟩ := Emission.zoom_ok_iff.mp run
    obtain ⟨_, extension, _⟩ := emits.extension _ _ _ here
    obtain ⟨sound, defined⟩ := emits.ready _ _ _ here (enter state ready)
    refine ⟨focus.sound part state ready.sound sound (extension.size ▸ Nat.le_add_right _ _), fun k member => ?_⟩
    rw [focus.size, focus.get_set]
    exact defined k member
  · intro state final result run world held
    obtain ⟨part, here, rfl⟩ := Emission.zoom_ok_iff.mp run
    rw [focus.holds, focus.get_set] at held
    exact emits.meaning _ _ _ here world held

/-- A gate of a component is one of the whole. -/
theorem Gate.zoom {τ Ψ : Type} [AddMonoid Ψ] {outer : Observer τ World Ψ} {get : τ → σ} {set : σ → τ → τ}
    {lift : Φ → Ψ} {action : Emission σ ε α} {ensures : α → Prop} {post : World → α → Prop}
    (focus : Focus observer outer get set lift) (gate : Gate observer action operands size weight post ensures) :
    Gate outer (Emission.zoom get set action) operands size weight post ensures := by
  apply (Emits.zoom focus gate).ensuring
  rintro result _ ⟨_, ⟨rfl, ensured⟩, rfl⟩
  exact ⟨focus.lift_zero, ensured⟩

end Rules

end Library
