import PaymentAuth.Policy.Filling
import PaymentAuth.Policy.Soundness

/-! Solving the auxiliary inputs: each round settles one more threshold, because
a threshold depends on the thresholds below it only. -/

namespace PaymentAuth

open Library

namespace Wiring

/-- The thresholds of a wiring, in the order they are compiled. -/
def thresholds (wiring : Wiring) : List ThresholdWiring := wiring.subformulas.filterMap threshold?

theorem targets_eq (wiring : Wiring) :
    wiring.layout.targets = wiring.thresholds.map ThresholdWiring.discriminant := by
  rw [layout, Layout.sum_eq, thresholds]
  dsimp only
  induction wiring.subformulas with
  | nil => rfl
  | cons part rest ih =>
    rw [List.map_cons, List.flatMap_cons, ih]
    cases part with
    | leaf leaf => cases leaf <;> simp [partLayout, threshold?, List.filterMap_cons]
    | atLeast | all | any => simp [partLayout, threshold?, List.filterMap_cons, Layout.zero_def]

theorem constraints_eq (wiring : Wiring) :
    wiring.layout.constraints = wiring.thresholds.map ThresholdWiring.booleanity := by
  rw [layout, Layout.sum_eq, thresholds]
  dsimp only
  induction wiring.subformulas with
  | nil => rfl
  | cons part rest ih =>
    rw [List.map_cons, List.flatMap_cons, ih]
    cases part with
    | leaf leaf => cases leaf <;> simp [partLayout, threshold?, List.filterMap_cons]
    | atLeast | all | any => simp [partLayout, threshold?, List.filterMap_cons, Layout.zero_def]

theorem secretNodes_eq (wiring : Wiring) :
    wiring.layout.secretNodes = wiring.subformulas.flatMap fun part : Wiring => part.partLayout.secretNodes := by
  rw [layout, Layout.sum_eq]
  exact List.flatMap_map _ _ _

theorem publicNodes_eq (wiring : Wiring) :
    wiring.layout.publicNodes = wiring.subformulas.flatMap fun part : Wiring => part.partLayout.publicNodes := by
  rw [layout, Layout.sum_eq]
  exact List.flatMap_map _ _ _

theorem mem_thresholds {wiring : Wiring} {nodes : ThresholdWiring} :
    nodes ∈ wiring.thresholds ↔ ∃ k members, .atLeast k nodes members ∈ wiring.subformulas := by
  rw [thresholds, List.mem_filterMap]
  constructor
  · rintro ⟨_ | ⟨k, _, members⟩ | _ | _, found, selected⟩
    all_goals cases selected
    exact ⟨k, members, found⟩
  · rintro ⟨k, members, found⟩
    exact ⟨_, found, rfl⟩

private theorem auxiliary_sublist (parts : List Wiring) :
    ((parts.filterMap threshold?).map fun nodes => nodes.auxiliary.asUsize).Sublist
      (parts.flatMap fun part : Wiring => part.partLayout.secretNodes) := by
  induction parts with
  | nil => exact List.Sublist.refl _
  | cons part rest ih =>
    rw [List.flatMap_cons]
    cases part with
    | leaf | all | any => exact ih.trans (List.sublist_append_right _ _)
    | atLeast k nodes members => exact ih.cons_cons nodes.auxiliary.asUsize

/-- Declared at different nodes: no two thresholds share their auxiliary input. -/
theorem auxiliary_nodup {wiring : Wiring} (distinct : wiring.layout.secretNodes.Nodup) :
    (wiring.thresholds.map fun nodes => nodes.auxiliary.asUsize).Nodup := by
  rw [secretNodes_eq] at distinct
  exact distinct.sublist (auxiliary_sublist _)

/-- No leaf declares the auxiliary input of a threshold. -/
theorem auxiliary_not_mem_leaf {wiring : Wiring} (distinct : wiring.layout.secretNodes.Nodup) {leaf : LeafWiring}
    (inside : .leaf leaf ∈ wiring.subformulas) {nodes : ThresholdWiring} (listed : nodes ∈ wiring.thresholds) :
    nodes.auxiliary.asUsize ∉ (partLayout (.leaf leaf)).secretNodes := by
  obtain ⟨k, members, found⟩ := mem_thresholds.mp listed
  rw [secretNodes_eq, List.nodup_flatMap] at distinct
  have symmetric : Std.Symm (Function.onFun List.Disjoint fun part : Wiring => part.partLayout.secretNodes) :=
    ⟨fun _ _ disjoint => disjoint.symm⟩
  have apart := distinct.2.forall inside found (by simp)
  exact fun shared => apart shared (List.mem_singleton_self _)

/-- Below a threshold there are only thresholds compiled before it. -/
theorem thresholds_below {wiring : Wiring} {r : ℕ} {nodes : ThresholdWiring}
    (found : wiring.thresholds[r]? = some nodes) :
    ∃ k members, .atLeast k nodes members ∈ wiring.subformulas ∧
      ∀ k' nodes' members', ∀ member ∈ members, .atLeast k' nodes' members' ∈ member.subformulas →
        nodes' ∈ wiring.thresholds.take r := by
  have split : ∀ (parts : List Wiring) (r : ℕ), (parts.filterMap threshold?)[r]? = some nodes →
      ∃ before k members after, parts = before ++ .atLeast k nodes members :: after ∧
        before.filterMap threshold? = (parts.filterMap threshold?).take r := by
    intro parts
    induction parts with
    | nil => intro r found; simp at found
    | cons part rest ih =>
      intro r found
      cases selected : threshold? part with
      | none =>
        rw [List.filterMap_cons_none selected] at found ⊢
        obtain ⟨before, k, members, after, rfl, earlier⟩ := ih r found
        exact ⟨part :: before, k, members, after, rfl, by rw [List.filterMap_cons_none selected, earlier]⟩
      | some first =>
        rw [List.filterMap_cons_some selected] at found ⊢
        cases r with
        | zero =>
          obtain rfl : first = nodes := by simpa using found
          cases part with
          | atLeast k _ members =>
            cases selected
            exact ⟨[], k, members, rest, rfl, rfl⟩
          | leaf | all | any => cases selected
        | succ r =>
          obtain ⟨before, k, members, after, rfl, earlier⟩ := ih r (by simpa using found)
          refine ⟨part :: before, k, members, after, rfl, ?_⟩
          rw [List.filterMap_cons_some selected, earlier, List.take_succ_cons]
  obtain ⟨before, k, members, after, whole, earlier⟩ := split _ r found
  refine ⟨k, members, by rw [whole]; simp, fun k' nodes' members' member inside below => ?_⟩
  have listed : .atLeast k' nodes' members' ∈ (Formula.atLeast k nodes members).subformulas.dropLast := by
    rw [Formula.subformulas_atLeast, List.dropLast_concat]
    exact List.mem_flatMap.mpr ⟨member, inside, below⟩
  rw [thresholds, ← earlier, List.mem_filterMap]
  exact ⟨_, wiring.subformulas_belowPrecedes before _ after whole _ listed, rfl⟩

end Wiring

namespace CompiledPolicy

variable {p : ℕ}

/-- One pass over the auxiliary inputs sets each to the inverse of its target. -/
theorem solveAuxiliaries_ok {values : List (ZMod p)} {entries : List (ℕ × NodeId)} {secrets : List (ZMod p)}
    {changed : Bool} (inside : ∀ entry ∈ entries, entry.1 < secrets.length ∧ entry.2.asUsize < values.length)
    (distinct : (entries.map Prod.fst).Nodup) :
    ∃ next changed', entries.foldlM (solveAuxiliary values) (secrets, changed) = .ok (next, changed') ∧
      next.length = secrets.length ∧
      (∀ entry ∈ entries, next[entry.1]? = some (inputAt values entry.2.asUsize)⁻¹) ∧
      (∀ i, i ∉ entries.map Prod.fst → next[i]? = secrets[i]?) ∧
      (changed' = false → changed = false ∧ next = secrets) := by
  induction entries generalizing secrets changed with
  | nil => exact ⟨secrets, changed, rfl, rfl, by simp, fun _ _ => rfl, fun same => ⟨same, rfl⟩⟩
  | cons entry rest ih =>
    obtain ⟨position, target⟩ := entry
    obtain ⟨bound, bound'⟩ := inside (position, target) List.mem_cons_self
    rw [List.map_cons, List.nodup_cons] at distinct
    have step : solveAuxiliary values (secrets, changed) (position, target) =
        .ok (secrets.set position (inputAt values target.asUsize)⁻¹,
          changed || decide (secrets[position] ≠ (inputAt values target.asUsize)⁻¹)) := by
      simp only [solveAuxiliary, inputAt_of_lt bound', List.getElem?_eq_getElem bound, Outcome.expect_some,
        Outcome.ok_bind]
      by_cases same : secrets[position] = (inputAt values target.asUsize)⁻¹
      · simp [← same]
      · simp [same]
    obtain ⟨next, changed', run, size, solved, others, unchanged⟩ := @ih
      (secrets.set position (inputAt values target.asUsize)⁻¹)
      (changed || decide (secrets[position] ≠ (inputAt values target.asUsize)⁻¹))
      (by simpa using fun other listed => inside other (List.mem_cons_of_mem _ listed)) distinct.2
    refine ⟨next, changed', ?_, by simpa using size, ?_, fun i absent => ?_, fun same => ?_⟩
    · rw [List.foldlM_cons, step, Outcome.ok_bind, run]
    · intro other listed
      rcases List.mem_cons.mp listed with rfl | later
      · rw [others position distinct.1, List.getElem?_set_self bound]
      · exact solved other later
    · rw [List.map_cons, List.mem_cons, not_or] at absent
      rw [others i absent.2, List.getElem?_set_ne (Ne.symm absent.1)]
    · obtain ⟨same, kept⟩ := unchanged same
      simp only [Bool.or_eq_false_iff, decide_eq_false_iff_not, not_not] at same
      exact ⟨same.1, by rw [kept, ← same.2, List.set_getElem_self]⟩

end CompiledPolicy

end PaymentAuth
