import Mathlib.Algebra.BigOperators.Group.List.Basic
import Mathlib.Data.List.Basic

/-! Monotone formulas over labelled leaves: conjunctions, disjunctions and
labelled thresholds of any arity. -/

namespace Library

inductive Formula (α β : Type) where
  | leaf (label : α)
  | atLeast (k : ℕ) (label : β) (members : List (Formula α β))
  | all (members : List (Formula α β))
  | any (members : List (Formula α β))

namespace Formula

variable {α β γ α' β' : Type}

/-- Induction with one hypothesis for every member of a combinator. -/
@[elab_as_elim, induction_eliminator]
theorem induction {motive : Formula α β → Prop} (leaf : ∀ label, motive (.leaf label))
    (atLeast : ∀ k label members, (∀ member ∈ members, motive member) → motive (.atLeast k label members))
    (all : ∀ members, (∀ member ∈ members, motive member) → motive (.all members))
    (any : ∀ members, (∀ member ∈ members, motive member) → motive (.any members))
    (formula : Formula α β) : motive formula :=
  @Formula.rec α β motive (fun members => ∀ member ∈ members, motive member)
    leaf atLeast all any (by simp) (fun _ _ first others => by simpa using ⟨first, others⟩) formula

mutual

/-- Evaluate every node from the values of its members. -/
def fold (leaf : α → γ) (atLeast : ℕ → β → List γ → γ) (all any : List γ → γ) : Formula α β → γ
  | .leaf label => leaf label
  | .atLeast k label members => atLeast k label (foldMembers leaf atLeast all any members)
  | .all members => all (foldMembers leaf atLeast all any members)
  | .any members => any (foldMembers leaf atLeast all any members)

def foldMembers (leaf : α → γ) (atLeast : ℕ → β → List γ → γ) (all any : List γ → γ) :
    List (Formula α β) → List γ
  | [] => []
  | member :: rest => fold leaf atLeast all any member :: foldMembers leaf atLeast all any rest

end

@[simp] theorem foldMembers_eq_map (leaf : α → γ) (atLeast : ℕ → β → List γ → γ) (all any : List γ → γ)
    (members : List (Formula α β)) :
    foldMembers leaf atLeast all any members = members.map (fold leaf atLeast all any) := by
  induction members with
  | nil => rfl
  | cons member rest ih => rw [foldMembers, ih, List.map_cons]

/-- The truth value of a formula from the truth values of its leaves. -/
def eval (truth : α → Bool) : Formula α β → Bool :=
  fold truth (fun k _ values => k ≤ values.count true) (fun values => values.all id) (fun values => values.any id)

@[simp] theorem eval_leaf (truth : α → Bool) (label : α) :
    (leaf label : Formula α β).eval truth = truth label := rfl

@[simp] theorem eval_atLeast (truth : α → Bool) (k : ℕ) (label : β) (members : List (Formula α β)) :
    (atLeast k label members).eval truth = decide (k ≤ members.countP (eval truth)) := by
  simp [eval, fold, List.count_eq_countP, List.countP_map, Function.comp_def]

@[simp] theorem eval_all (truth : α → Bool) (members : List (Formula α β)) :
    (all members).eval truth = members.all (eval truth) := by
  simp [eval, fold]

@[simp] theorem eval_any (truth : α → Bool) (members : List (Formula α β)) :
    (any members).eval truth = members.any (eval truth) := by
  simp [eval, fold]

mutual

/-- The nodes of a formula, members before the combinator that joins them. -/
def subformulas : Formula α β → List (Formula α β)
  | .leaf label => [.leaf label]
  | .atLeast k label members => memberSubformulas members ++ [.atLeast k label members]
  | .all members => memberSubformulas members ++ [.all members]
  | .any members => memberSubformulas members ++ [.any members]

def memberSubformulas : List (Formula α β) → List (Formula α β)
  | [] => []
  | member :: rest => subformulas member ++ memberSubformulas rest

end

@[simp] theorem memberSubformulas_eq_flatMap (members : List (Formula α β)) :
    memberSubformulas members = members.flatMap subformulas := by
  induction members with
  | nil => rfl
  | cons member rest ih => rw [memberSubformulas, ih, List.flatMap_cons]

@[simp] theorem subformulas_leaf (label : α) :
    (leaf label : Formula α β).subformulas = [leaf label] := rfl

@[simp] theorem subformulas_atLeast (k : ℕ) (label : β) (members : List (Formula α β)) :
    (atLeast k label members).subformulas = members.flatMap subformulas ++ [atLeast k label members] := by
  rw [subformulas, memberSubformulas_eq_flatMap]

@[simp] theorem subformulas_all (members : List (Formula α β)) :
    (all members).subformulas = members.flatMap subformulas ++ [all members] := by
  rw [subformulas, memberSubformulas_eq_flatMap]

@[simp] theorem subformulas_any (members : List (Formula α β)) :
    (any members).subformulas = members.flatMap subformulas ++ [any members] := by
  rw [subformulas, memberSubformulas_eq_flatMap]

section Sums

variable {M : Type} [AddMonoid M] (value : Formula α β → M)

/-- A node's sum is that of its members and its own value. -/
theorem sum_node {node : Formula α β} {members : List (Formula α β)}
    (shape : node.subformulas = members.flatMap subformulas ++ [node]) :
    (node.subformulas.map value).sum =
      (members.map fun member => (member.subformulas.map value).sum).sum + value node := by
  rw [shape, List.map_append, List.sum_append, List.map_singleton, List.sum_singleton, List.map_flatMap,
    List.flatMap_def, List.sum_flatten, List.map_map]
  rfl

theorem sum_leaf (label : α) : ((leaf label : Formula α β).subformulas.map value).sum = value (leaf label) := by
  rw [subformulas_leaf, List.map_singleton, List.sum_singleton]

theorem sum_atLeast (k : ℕ) (label : β) (members : List (Formula α β)) :
    ((atLeast k label members).subformulas.map value).sum =
      (members.map fun member => (member.subformulas.map value).sum).sum + value (atLeast k label members) :=
  sum_node value (subformulas_atLeast k label members)

end Sums

/-- The length of the longest path down from the root. -/
def height : Formula α β → ℕ :=
  fold (fun _ => 0) (fun _ _ heights => heights.foldr (fun height => max (height + 1)) 0)
    (fun heights => heights.foldr (fun height => max (height + 1)) 0)
    (fun heights => heights.foldr (fun height => max (height + 1)) 0)

private theorem foldr_max_le_iff {heights : List ℕ} {n : ℕ} :
    heights.foldr (fun height => max (height + 1)) 0 ≤ n ↔ ∀ height ∈ heights, height + 1 ≤ n := by
  induction heights with
  | nil => simp
  | cons first rest ih => rw [List.foldr_cons, Nat.max_le, ih, List.forall_mem_cons]

@[simp] theorem height_leaf (label : α) : (leaf label : Formula α β).height = 0 := rfl

theorem height_atLeast_le_iff {k n : ℕ} {label : β} {members : List (Formula α β)} :
    (atLeast k label members).height ≤ n ↔ ∀ member ∈ members, member.height + 1 ≤ n := by
  rw [height, fold, foldMembers_eq_map, foldr_max_le_iff, List.forall_mem_map]

theorem height_all_le_iff {n : ℕ} {members : List (Formula α β)} :
    (all members).height ≤ n ↔ ∀ member ∈ members, member.height + 1 ≤ n := by
  rw [height, fold, foldMembers_eq_map, foldr_max_le_iff, List.forall_mem_map]

theorem height_any_le_iff {n : ℕ} {members : List (Formula α β)} :
    (any members).height ≤ n ↔ ∀ member ∈ members, member.height + 1 ≤ n := by
  rw [height, fold, foldMembers_eq_map, foldr_max_le_iff, List.forall_mem_map]

theorem mem_subformulas_self (formula : Formula α β) : formula ∈ formula.subformulas := by
  cases formula <;> simp

/-- In a list of nodes, everything below a node comes before it. -/
def BelowPrecedes (nodes : List (Formula α β)) : Prop :=
  ∀ before node after, nodes = before ++ node :: after → ∀ below ∈ node.subformulas.dropLast, below ∈ before

theorem BelowPrecedes.append {left right : List (Formula α β)} (first : BelowPrecedes left)
    (second : BelowPrecedes right) : BelowPrecedes (left ++ right) := by
  intro before node after split below inside
  rcases List.append_eq_append_iff.mp split with ⟨between, rfl, rest⟩ | ⟨between, rfl, rest⟩
  · exact List.mem_append_right _ (second between node after rest below inside)
  · cases between with
    | nil => exact absurd (second [] node after rest.symm below inside) List.not_mem_nil
    | cons other between =>
      obtain ⟨rfl, rfl⟩ := List.cons.inj rest
      exact first before node between rfl below inside

private theorem BelowPrecedes.root {members : List (Formula α β)} {node : Formula α β}
    (each : ∀ member ∈ members, BelowPrecedes member.subformulas)
    (shape : node.subformulas = members.flatMap subformulas ++ [node]) :
    BelowPrecedes node.subformulas := by
  have flat : BelowPrecedes (members.flatMap subformulas) := by
    clear shape
    induction members with
    | nil => intro before other after split; simp at split
    | cons member rest ih =>
      rw [List.flatMap_cons]
      exact (each member List.mem_cons_self).append
        (ih fun other inside => each other (List.mem_cons_of_mem _ inside))
  intro before other after split below inside
  rw [shape] at split
  rcases List.eq_nil_or_concat after with rfl | ⟨rest, last, rfl⟩
  · obtain ⟨rfl, same⟩ := List.append_inj' split rfl
    cases List.singleton_inj.mp same
    rwa [shape, List.dropLast_concat] at inside
  · rw [List.concat_eq_append, ← List.cons_append, ← List.append_assoc] at split
    obtain ⟨split, _⟩ := List.append_inj' split rfl
    exact flat before other rest split below inside

theorem subformulas_belowPrecedes (formula : Formula α β) : BelowPrecedes formula.subformulas := by
  induction formula with
  | leaf label =>
    intro before node after split below inside
    obtain ⟨rfl, single⟩ : before = [] ∧ leaf label = node := by
      cases before <;> simp_all
    rw [← single, subformulas_leaf] at inside
    exact inside
  | atLeast k label members ih => exact .root ih (subformulas_atLeast k label members)
  | all members ih => exact .root ih (subformulas_all members)
  | any members ih => exact .root ih (subformulas_any members)

theorem mem_subformulas_trans {formula node below : Formula α β} (inside : node ∈ formula.subformulas)
    (deeper : below ∈ node.subformulas) : below ∈ formula.subformulas := by
  have last : below = node ∨ below ∈ node.subformulas.dropLast := by
    cases node with
    | leaf label => exact Or.inl (List.mem_singleton.mp deeper)
    | atLeast | all | any =>
      simp only [subformulas, List.mem_append, List.mem_singleton, List.dropLast_concat] at deeper ⊢
      exact deeper.symm
  obtain ⟨before, after, split⟩ := List.append_of_mem inside
  rcases last with rfl | proper
  · exact inside
  · rw [split]
    exact List.mem_append_left _ (formula.subformulas_belowPrecedes before node after split below proper)

/-- The leaves of a formula, from left to right. -/
def leaves (formula : Formula α β) : List α :=
  formula.subformulas.filterMap fun
    | .leaf label => some label
    | _ => none

theorem mem_leaves {formula : Formula α β} {label : α} :
    label ∈ formula.leaves ↔ leaf label ∈ formula.subformulas := by
  rw [leaves, List.mem_filterMap]
  constructor
  · rintro ⟨_ | _ | _ | _, found, selected⟩
    all_goals cases selected
    exact found
  · exact fun found => ⟨_, found, rfl⟩

@[simp] theorem leaves_leaf (label : α) : (leaf label : Formula α β).leaves = [label] := rfl

theorem leaves_members (members : List (Formula α β)) :
    (members.flatMap subformulas).filterMap (fun | .leaf label => some label | _ => none) =
      members.flatMap leaves := by
  rw [List.filterMap_flatMap]
  rfl

@[simp] theorem leaves_atLeast (k : ℕ) (label : β) (members : List (Formula α β)) :
    (atLeast k label members).leaves = members.flatMap leaves := by
  rw [leaves, subformulas_atLeast, List.filterMap_append, leaves_members]
  exact List.append_nil _

@[simp] theorem leaves_all (members : List (Formula α β)) : (all members).leaves = members.flatMap leaves := by
  rw [leaves, subformulas_all, List.filterMap_append, leaves_members]
  exact List.append_nil _

@[simp] theorem leaves_any (members : List (Formula α β)) : (any members).leaves = members.flatMap leaves := by
  rw [leaves, subformulas_any, List.filterMap_append, leaves_members]
  exact List.append_nil _

section Members

variable {members : List (Formula α β)} {member formula : Formula α β}

theorem mem_subformulas_atLeast {k : ℕ} {label : β} (inside : member ∈ members)
    (found : formula ∈ member.subformulas) : formula ∈ (atLeast k label members).subformulas := by
  rw [subformulas_atLeast]
  exact List.mem_append_left _ (List.mem_flatMap.mpr ⟨member, inside, found⟩)

theorem mem_subformulas_all (inside : member ∈ members) (found : formula ∈ member.subformulas) :
    formula ∈ (all members).subformulas := by
  rw [subformulas_all]
  exact List.mem_append_left _ (List.mem_flatMap.mpr ⟨member, inside, found⟩)

theorem mem_subformulas_any (inside : member ∈ members) (found : formula ∈ member.subformulas) :
    formula ∈ (any members).subformulas := by
  rw [subformulas_any]
  exact List.mem_append_left _ (List.mem_flatMap.mpr ⟨member, inside, found⟩)

end Members

/-- Relabel the leaves and the thresholds. -/
def map (f : α → α') (g : β → β') : Formula α β → Formula α' β' :=
  fold (fun label => leaf (f label)) (fun k label members => atLeast k (g label) members) all any

@[simp] theorem map_leaf (f : α → α') (g : β → β') (label : α) :
    (leaf label).map f g = leaf (f label) := rfl

@[simp] theorem map_atLeast (f : α → α') (g : β → β') (k : ℕ) (label : β) (members : List (Formula α β)) :
    (atLeast k label members).map f g = atLeast k (g label) (members.map (map f g)) := by
  simp [map, fold]

@[simp] theorem map_all (f : α → α') (g : β → β') (members : List (Formula α β)) :
    (all members).map f g = all (members.map (map f g)) := by
  simp [map, fold]

@[simp] theorem map_any (f : α → α') (g : β → β') (members : List (Formula α β)) :
    (any members).map f g = any (members.map (map f g)) := by
  simp [map, fold]

theorem map_eq_leaf_iff {f : α → α'} {g : β → β'} {formula : Formula α β} {label' : α'} :
    formula.map f g = leaf label' ↔ ∃ label, formula = leaf label ∧ f label = label' := by
  cases formula <;> simp

theorem map_eq_atLeast_iff {f : α → α'} {g : β → β'} {formula : Formula α β} {k : ℕ} {label' : β'}
    {members' : List (Formula α' β')} :
    formula.map f g = atLeast k label' members' ↔
      ∃ label members, formula = atLeast k label members ∧ g label = label' ∧
        members.map (map f g) = members' := by
  cases formula <;> simp [and_assoc]

theorem map_eq_all_iff {f : α → α'} {g : β → β'} {formula : Formula α β} {members' : List (Formula α' β')} :
    formula.map f g = all members' ↔ ∃ members, formula = all members ∧ members.map (map f g) = members' := by
  cases formula <;> simp

/-- Relabelling leaves reads their truth through the labels. -/
theorem eval_map (truth : α' → Bool) (f : α → α') (g : β → β') (formula : Formula α β) :
    (formula.map f g).eval truth = formula.eval fun label => truth (f label) := by
  induction formula with
  | leaf label => rfl
  | atLeast k label members ih =>
    simp only [map_atLeast, eval_atLeast, List.countP_map]
    congr 2
    exact List.countP_congr fun member inside => by rw [Function.comp_apply, ih member inside]
  | all members ih =>
    rw [Bool.eq_iff_iff]
    simp +contextual [ih]
  | any members ih =>
    have same : (members.map (map f g)).map (eval truth) = members.map (eval fun label => truth (f label)) := by
      simpa using ih
    simpa [List.any_map, Function.comp_def] using congrArg (List.any · id) same

theorem map_self (formula : Formula α β) : formula.map (fun label => label) (fun label => label) = formula := by
  induction formula with
  | leaf label => rfl
  | atLeast k label members ih => rw [map_atLeast, List.map_congr_left ih, List.map_id']
  | all members ih => rw [map_all, List.map_congr_left ih, List.map_id']
  | any members ih => rw [map_any, List.map_congr_left ih, List.map_id']

theorem map_map {α'' β'' : Type} (f : α → α') (g : β → β') (f' : α' → α'') (g' : β' → β'') (formula : Formula α β) :
    (formula.map f g).map f' g' = formula.map (fun label => f' (f label)) fun label => g' (g label) := by
  induction formula with
  | leaf label => rfl
  | atLeast k label members ih => simpa using ih
  | all members ih => simpa using ih
  | any members ih => simpa using ih

private theorem exists_members {δ ε : Type} {f : δ → γ} {g : ε → γ} {left : List δ} {right : List ε}
    {η : Type} {toLeft : η → δ} {toRight : η → ε}
    (each : ∀ x ∈ left, ∀ y, f x = g y → ∃ z, toLeft z = x ∧ toRight z = y) (same : left.map f = right.map g) :
    ∃ joint : List η, joint.map toLeft = left ∧ joint.map toRight = right := by
  induction left generalizing right with
  | nil =>
    rw [List.map_nil, eq_comm, List.map_eq_nil_iff] at same
    exact ⟨[], rfl, same.symm⟩
  | cons x rest ih =>
    cases right with
    | nil => cases same
    | cons y others =>
      rw [List.map_cons, List.map_cons, List.cons.injEq] at same
      obtain ⟨z, rfl, rfl⟩ := each x List.mem_cons_self y same.1
      obtain ⟨joint, rfl, rfl⟩ := ih (fun item inside => each item (List.mem_cons_of_mem _ inside)) same.2
      exact ⟨z :: joint, rfl, rfl⟩

/-- A decoration of a relabelled formula is a relabelled decoration. -/
theorem exists_decoration {τ : Type} {f : α → α'} {g : β → β'} {formula : Formula α β}
    {tree : Formula (α' × τ) β'} (same : tree.map Prod.fst id = formula.map f g) :
    ∃ lifted : Formula (α × τ) β, lifted.map Prod.fst id = formula ∧
      lifted.map (fun entry => (f entry.1, entry.2)) g = tree := by
  induction formula generalizing tree with
  | leaf label =>
    cases tree with
    | leaf entry =>
      rw [map_leaf, map_leaf, leaf.injEq] at same
      exact ⟨.leaf (label, entry.2), rfl, by rw [map_leaf, ← same]⟩
    | atLeast | all | any => simp at same
  | atLeast k label members ih =>
    cases tree with
    | leaf | all | any => simp at same
    | atLeast k' label' members' =>
      rw [map_atLeast, map_atLeast, atLeast.injEq] at same
      obtain ⟨rfl, rfl, same⟩ := same
      obtain ⟨joint, rfl, rfl⟩ := exists_members (fun member inside _ here => ih member inside here.symm) same.symm
      exact ⟨.atLeast k' label joint, by simp, by simp⟩
  | all members ih =>
    cases tree with
    | leaf | atLeast | any => simp at same
    | all members' =>
      rw [map_all, map_all, all.injEq] at same
      obtain ⟨joint, rfl, rfl⟩ := exists_members (fun member inside _ here => ih member inside here.symm) same.symm
      exact ⟨.all joint, by simp, by simp⟩
  | any members ih =>
    cases tree with
    | leaf | atLeast | all => simp at same
    | any members' =>
      rw [map_any, map_any, any.injEq] at same
      obtain ⟨joint, rfl, rfl⟩ := exists_members (fun member inside _ here => ih member inside here.symm) same.symm
      exact ⟨.any joint, by simp, by simp⟩

theorem subformulas_map (f : α → α') (g : β → β') (formula : Formula α β) :
    (formula.map f g).subformulas = formula.subformulas.map (map f g) := by
  have members_map (members : List (Formula α β))
      (ih : ∀ member ∈ members, (member.map f g).subformulas = member.subformulas.map (map f g)) :
      (members.map (map f g)).flatMap subformulas = (members.flatMap subformulas).map (map f g) := by
    rw [List.flatMap_map, List.map_flatMap]
    exact List.flatMap_congr ih
  induction formula with
  | leaf label => rfl
  | atLeast k label members ih => simp [members_map members ih]
  | all members ih => simp [members_map members ih]
  | any members ih => simp [members_map members ih]

theorem leaves_map (f : α → α') (g : β → β') (formula : Formula α β) :
    (formula.map f g).leaves = formula.leaves.map f := by
  rw [leaves, leaves, subformulas_map, List.filterMap_map, List.map_filterMap]
  congr 1
  funext node
  cases node <;> simp

/-- What only leaves contribute is collected along the leaves. -/
theorem flatMap_subformulas {δ : Type} {collect : Formula α β → List δ} (formula : Formula α β)
    (silent : ∀ node ∈ formula.subformulas, (∀ label, node ≠ leaf label) → collect node = []) :
    formula.subformulas.flatMap collect = formula.leaves.flatMap fun label => collect (leaf label) := by
  rw [leaves, List.filterMap_eq_flatMap_toList, List.flatMap_assoc]
  refine List.flatMap_congr fun node inside => ?_
  cases node with
  | leaf label => simp
  | atLeast | all | any => simpa using silent _ inside (by simp)

/-- Making more leaves true keeps a true formula true. -/
theorem eval_mono {truth truth' : α → Bool} {formula : Formula α β}
    (weaker : ∀ label, leaf label ∈ formula.subformulas → truth label = true → truth' label = true)
    (held : formula.eval truth = true) : formula.eval truth' = true := by
  induction formula with
  | leaf label => exact weaker label (by simp) held
  | atLeast k label members ih =>
    simp only [eval_atLeast, decide_eq_true_eq] at held ⊢
    refine Nat.le_trans held (List.countP_mono_left fun member inside => ih member inside fun label found => ?_)
    exact weaker label (mem_subformulas_atLeast inside found)
  | all members ih =>
    simp only [eval_all, List.all_eq_true] at held ⊢
    intro member inside
    exact ih member inside (fun label found => weaker label (mem_subformulas_all inside found)) (held member inside)
  | any members ih =>
    simp only [eval_any, List.any_eq_true] at held ⊢
    obtain ⟨member, inside, holds⟩ := held
    exact ⟨member, inside, ih member inside (fun label found => weaker label (mem_subformulas_any inside found)) holds⟩

/-- No true leaf makes no formula true, when no conjunction is empty and every
threshold asks for a member. -/
theorem eval_false {formula : Formula α β} (nonempty : all [] ∉ formula.subformulas)
    (positive : ∀ k label members, atLeast k label members ∈ formula.subformulas → 1 ≤ k) :
    formula.eval (fun _ => false) = false := by
  induction formula with
  | leaf label => rfl
  | atLeast k label members ih =>
    have each : ∀ member ∈ members, ¬ member.eval (fun _ => false) = true := fun member inside held => by
      rw [ih member inside (fun found => nonempty (mem_subformulas_atLeast inside found))
        fun k label members found => positive k label members (mem_subformulas_atLeast inside found)] at held
      cases held
    rw [eval_atLeast, List.countP_eq_zero.mpr each, decide_eq_false_iff_not, Nat.not_le]
    exact positive k label members (mem_subformulas_self _)
  | all members ih =>
    cases members with
    | nil => exact absurd (mem_subformulas_self _) nonempty
    | cons member rest =>
      have inside : member ∈ member :: rest := List.mem_cons_self
      rw [eval_all, List.all_cons, ih member inside (fun found => nonempty (mem_subformulas_all inside found))
        (fun k label members found => positive k label members (mem_subformulas_all inside found)), Bool.false_and]
  | any members ih =>
    rw [eval_any, List.any_eq_false]
    intro member inside
    rw [ih member inside (fun found => nonempty (mem_subformulas_any inside found))
      fun k label members found => positive k label members (mem_subformulas_any inside found)]
    exact Bool.false_ne_true

/-- True leaves make a formula true, when no disjunction is empty and no
threshold asks for more members than it has. -/
theorem eval_true {formula : Formula α β} (nonempty : any [] ∉ formula.subformulas)
    (attainable : ∀ k label members, atLeast k label members ∈ formula.subformulas → k ≤ members.length) :
    formula.eval (fun _ => true) = true := by
  induction formula with
  | leaf label => rfl
  | atLeast k label members ih =>
    have each : ∀ member ∈ members, member.eval (fun _ => true) = true := fun member inside =>
      ih member inside (fun found => nonempty (mem_subformulas_atLeast inside found))
        fun k label members found => attainable k label members (mem_subformulas_atLeast inside found)
    rw [eval_atLeast, List.countP_eq_length.mpr each, decide_eq_true_eq]
    exact attainable k label members (mem_subformulas_self _)
  | all members ih =>
    rw [eval_all, List.all_eq_true]
    intro member inside
    exact ih member inside (fun found => nonempty (mem_subformulas_all inside found))
      fun k label members found => attainable k label members (mem_subformulas_all inside found)
  | any members ih =>
    cases members with
    | nil => exact absurd (mem_subformulas_self _) nonempty
    | cons member rest =>
      have inside : member ∈ member :: rest := List.mem_cons_self
      rw [eval_any, List.any_cons, ih member inside (fun found => nonempty (mem_subformulas_any inside found))
        (fun k label members found => attainable k label members (mem_subformulas_any inside found)), Bool.true_or]

end Formula

end Library
