import PaymentAuth.Circuit.Dependence
import PaymentAuth.Mpcith.Verifier

/-! The explicit-stack traversal terminates and finds the nodes that depend on
secret inputs. -/

namespace PaymentAuth.Mpcith

open Library

variable {circuit : Circuit FieldElement} {cache cache' : List (Option Bool)} {idx steps : ℕ}

/-- One cache entry for each node, and every resolved entry is right. -/
structure CacheCorrect (circuit : Circuit FieldElement) (cache : List (Option Bool)) : Prop where
  length : cache.length = circuit.nodes.length
  entries : ∀ (k : ℕ) (result : Bool), cache[k]? = some (some result) →
    result = circuit.dependsOnSecrets k

/-- Working off what was pushed for a node resolves it, in a number of iterations
that the entries it fills pay for, and leaves the entries of later nodes alone. -/
structure Resolves (circuit : Circuit FieldElement) (cache cache' : List (Option Bool)) (idx : ℕ)
    (pushed : TraversalStack) (steps : ℕ) : Prop where
  correct : CacheCorrect circuit cache'
  here : cache'[idx]? = some (some (circuit.dependsOnSecrets idx))
  kept : ∀ (k : ℕ) (result : Bool), cache[k]? = some (some result) → cache'[k]? = some (some result)
  later : ∀ k > idx, cache'[k]? = cache[k]?
  cost : steps + 3 * cache'.count none ≤ 3 * cache.count none + 1
  run : ∀ (fuel : ℕ) (rest : TraversalStack),
    traverse circuit (fuel + steps) cache (pushed ++ rest) = traverse circuit fuel cache' rest

private theorem Resolves.of_cached (correct : CacheCorrect circuit cache) {result : Bool}
    (found : cache[idx]? = some (some result)) : Resolves circuit cache cache idx [(idx, false)] 1 where
  correct := correct
  here := by rw [found, correct.entries idx result found]
  kept _ _ same := same
  later _ _ := rfl
  cost := by omega
  run fuel rest := by simp [traverse, traversalStep, found]

/-- Filling the entry of an unresolved node keeps the cache correct. -/
private theorem CacheCorrect.set (correct : CacheCorrect circuit cache) (unresolved : cache[idx]? = some none) :
    CacheCorrect circuit (cache.set idx (some (circuit.dependsOnSecrets idx))) ∧
      (cache.set idx (some (circuit.dependsOnSecrets idx))).count none + 1 = cache.count none := by
  obtain ⟨bound, entry⟩ := List.getElem?_eq_some_iff.mp unresolved
  refine ⟨⟨by simp [correct.length], fun k result found => ?_⟩, ?_⟩
  · by_cases same : idx = k
    · subst same
      simp only [List.getElem?_set_self bound, Option.some.injEq] at found
      exact found.symm
    · rw [List.getElem?_set_ne same] at found
      exact correct.entries k result found
  · have member : none ∈ cache := entry ▸ List.getElem_mem bound
    have positive : 0 < cache.count none := List.count_pos_iff.mpr member
    rw [List.count_set bound]
    simp [entry]
    omega

/-- A pushed operand gets resolved; an operand already resolved was not pushed. -/
private theorem pushUnresolved_resolves (correct : CacheCorrect circuit cache)
    (correct' : CacheCorrect circuit cache') (bound : idx < circuit.nodes.length)
    (grown : ∀ (k : ℕ) (result : Bool), cache[k]? = some (some result) → cache'[k]? = some (some result))
    (resolve : ∃ final steps, Resolves circuit cache' final idx [(idx, false)] steps) :
    ∃ final pushed steps, Resolves circuit cache' final idx pushed steps ∧
      ∀ rest, pushUnresolved cache idx rest = .ok (pushed ++ rest) := by
  obtain ⟨entry, read⟩ : ∃ entry, cache[idx]? = some entry :=
    ⟨_, List.getElem?_eq_getElem (by rw [correct.length]; exact bound)⟩
  cases entry with
  | none =>
    obtain ⟨final, steps, resolved⟩ := resolve
    exact ⟨final, _, steps, resolved, fun rest => by simp [pushUnresolved, read]⟩
  | some result =>
    have there := grown idx result read
    have resolved : Resolves circuit cache' cache' idx [] 0 :=
      ⟨correct', by rw [there, correct.entries idx result read], fun _ _ same => same, fun _ _ => rfl,
        by omega, fun _ _ => rfl⟩
    exact ⟨cache', [], 0, resolved, fun rest => by simp [pushUnresolved, read]⟩

/-- Once both operands are resolved, the gate is. -/
private theorem traversalStep_gate {a b : NodeId} {node : Node FieldElement} (valid : circuit.WellFormed)
    (found : circuit.nodes[idx]? = some node) (gate : node.operands = some (a, b))
    (unresolved : cache[idx]? = some none)
    (left : cache[a.asUsize]? = some (some (circuit.dependsOnSecrets a.asUsize)))
    (right : cache[b.asUsize]? = some (some (circuit.dependsOnSecrets b.asUsize)))
    (rest : TraversalStack) :
    traversalStep circuit cache idx true rest =
      .ok (cache.set idx (some (circuit.dependsOnSecrets idx)), rest) := by
  have result := valid.dependsOnSecrets_solves idx node found
  cases node <;> cases gate <;>
    simp only [Interpretation.rule, Circuit.dependence] at result <;>
    cases leftDepends : circuit.dependsOnSecrets a.asUsize <;>
    simp_all [traversalStep, cachedDependence]

/-- Every node of a validated circuit is resolved from any correct cache. -/
private theorem resolves_of_lt (valid : circuit.WellFormed) (bound : idx < circuit.nodes.length)
    (correct : CacheCorrect circuit cache) :
    ∃ cache' steps, Resolves circuit cache cache' idx [(idx, false)] steps := by
  induction idx using Nat.strong_induction_on generalizing cache with
  | _ idx ih =>
    have found := List.getElem?_eq_getElem bound
    obtain ⟨entry, read⟩ : ∃ entry, cache[idx]? = some entry :=
      ⟨_, List.getElem?_eq_getElem (by rw [correct.length]; exact bound)⟩
    cases entry with
    | some result => exact ⟨_, _, .of_cached correct read⟩
    | none =>
      cases gate : circuit.nodes[idx].operands with
      | none =>
        obtain ⟨filled, fewer⟩ := correct.set read
        refine ⟨_, 2, filled, by simp [correct.length, bound], ?_, ?_, by omega, ?_⟩
        · intro k result same
          rw [List.getElem?_set_ne (by rintro rfl; simp [read] at same)]
          exact same
        · intro k later
          exact List.getElem?_set_ne (by omega)
        · intro fuel rest
          have result := valid.dependsOnSecrets_solves idx _ found
          rw [show fuel + 2 = fuel + 1 + 1 by omega]
          cases shape : circuit.nodes[idx] <;> rw [shape] at gate <;> cases gate <;>
            simp_all [traverse, traversalStep, Interpretation.rule, Circuit.dependence]
      | some operands =>
        obtain ⟨a, b⟩ := operands
        obtain ⟨left, right⟩ := valid.operands idx _ a b found gate
        obtain ⟨cacheB, pushedB, stepsB, resolvedB, pushB⟩ :=
          pushUnresolved_resolves correct correct (by omega) (fun _ _ same => same)
            (ih b.asUsize right (by omega) correct)
        obtain ⟨cacheA, pushedA, stepsA, resolvedA, pushA⟩ :=
          pushUnresolved_resolves correct resolvedB.correct (by omega) resolvedB.kept
            (ih a.asUsize left (by omega) resolvedB.correct)
        have unresolved : cacheA[idx]? = some none := by
          rw [resolvedA.later idx (by omega), resolvedB.later idx (by omega), read]
        obtain ⟨filled, fewer⟩ := resolvedA.correct.set unresolved
        have costA := resolvedA.cost
        have costB := resolvedB.cost
        refine ⟨_, stepsB + stepsA + 2, filled, ?_, ?_, ?_, by omega, ?_⟩
        · simp [resolvedA.correct.length, bound]
        · intro k result same
          rw [List.getElem?_set_ne (by rintro rfl; simp [read] at same)]
          exact resolvedA.kept k result (resolvedB.kept k result same)
        · intro k later
          rw [List.getElem?_set_ne (by omega), resolvedA.later k (by omega), resolvedB.later k (by omega)]
        · intro fuel rest
          have expand : traversalStep circuit cache idx false rest =
              .ok (cache, pushedB ++ (pushedA ++ ((idx, true) :: rest))) := by
            cases shape : circuit.nodes[idx] <;> rw [shape] at gate <;> cases gate <;>
              simp [traversalStep, read, found, shape, pushA, pushB]
          have resolve := traversalStep_gate valid found gate unresolved resolvedA.here
            (resolvedA.kept _ _ resolvedB.here) rest
          calc traverse circuit (fuel + (stepsB + stepsA + 2)) cache ((idx, false) :: rest)
              = traverse circuit (fuel + 1 + stepsA + stepsB) cache
                  (pushedB ++ (pushedA ++ ((idx, true) :: rest))) := by
                rw [show fuel + (stepsB + stepsA + 2) = fuel + 1 + stepsA + stepsB + 1 by omega]
                simp only [traverse, expand, Outcome.ok_bind]
            _ = traverse circuit (fuel + 1 + stepsA) cacheB (pushedA ++ ((idx, true) :: rest)) :=
              resolvedB.run _ _
            _ = traverse circuit (fuel + 1) cacheA ((idx, true) :: rest) := resolvedA.run _ _
            _ = _ := by simp only [traverse, resolve, Outcome.ok_bind]

/-- On a validated circuit the traversal ends within its fuel and tells whether a
node depends on a secret input. -/
theorem nodeDependsOnSecrets_eq (valid : circuit.WellFormed) {id : NodeId}
    (bound : id.asUsize < circuit.nodes.length) :
    nodeDependsOnSecrets circuit id = .ok (circuit.dependsOnSecrets id.asUsize) := by
  have empty : CacheCorrect circuit (List.replicate circuit.nodes.length none) := by
    refine ⟨by simp, fun k result found => ?_⟩
    rw [List.getElem?_replicate] at found
    split at found <;> simp at found
  obtain ⟨cache, steps, resolved⟩ := resolves_of_lt valid bound empty
  have enough : steps ≤ 3 * circuit.nodes.length + 1 := by
    have cost := resolved.cost
    simp only [List.count_replicate_self] at cost
    omega
  have run := resolved.run (3 * circuit.nodes.length + 1 - steps) []
  rw [Nat.sub_add_cancel enough, List.append_nil] at run
  have finished : ∀ fuel, traverse circuit fuel cache [] = .ok cache := by
    intro fuel
    cases fuel <;> rfl
  simp [nodeDependsOnSecrets, run, finished, resolved.here]

end PaymentAuth.Mpcith
