import Mathlib.Data.List.Perm.Subperm
import Mathlib.Data.List.Sort
import PaymentAuth.Policy.Encoding

namespace PaymentAuth

open Library

/-- The commutative combinators. -/
inductive Combinator where
  | and
  | or
deriving DecidableEq

namespace Policy

/-- Splices a policy into the members of a parent of the same combinator. -/
def flattenInto (tag : UInt8) (policy : Policy) : List Policy :=
  match policy with
  | .and inner => if tag = 4 then inner else [policy]
  | .or inner => if tag = 5 then inner else [policy]
  | _ => [policy]

/-- Appends a policy unless one with the same encoding is present. -/
def pushUnique (unique : List Policy) (policy : Policy) : List Policy :=
  if unique.any fun earlier => earlier.encode == policy.encode then unique else unique ++ [policy]

/-- Sorts policies by their canonical encoding, in byte order. -/
def sortByEncoding (policies : List Policy) : List Policy :=
  policies.insertionSort fun left right => left.encode ≤ right.encode

/-- Flattens nested combinators of the parent's kind, drops duplicates and sorts. -/
def uniqueMembers (parentTag : UInt8) (normalized : List Policy) : List Policy :=
  let flat := normalized.flatMap (flattenInto parentTag)
  sortByEncoding (flat.foldl pushUnique [])

/-- Normalizes a commutative combinator over normalized members; a single
remaining member replaces the combinator. -/
def normalizeCombinator (make : List Policy → Policy) (parentTag : UInt8) (normalized : List Policy) : Policy :=
  match uniqueMembers parentTag normalized with
  | [single] => single
  | unique => make unique

mutual

def normalizeNode : Policy → Policy
  | .amountAtMost limit => .amountAtMost limit
  | .credential id => .credential id
  | .threshold k members => .threshold k (sortByEncoding (normalizeMembers members))
  | .and members => normalizeCombinator .and 4 (normalizeMembers members)
  | .or members => normalizeCombinator .or 5 (normalizeMembers members)

def normalizeMembers : List Policy → List Policy
  | [] => []
  | member :: rest => normalizeNode member :: normalizeMembers rest

end

/-- Returns the canonical form of a policy; it never fails. -/
def normalize (policy : Policy) : Outcome PolicyError Policy := .ok policy.normalizeNode

@[simp] theorem normalizeMembers_eq_map (members : List Policy) :
    normalizeMembers members = members.map normalizeNode := by
  induction members with
  | nil => rfl
  | cons member rest ih => rw [normalizeMembers, ih, List.map_cons]

end Policy

namespace Combinator

/-- The policy constructor of a combinator. -/
def make : Combinator → List Policy → Policy
  | .and => .and
  | .or => .or

def tag : Combinator → UInt8
  | .and => 4
  | .or => 5

section Nodes

variable {α β : Type} (combinator : Combinator)

/-- The formula of a combinator over the formulas of its members. -/
def node : Combinator → List (Formula α β) → Formula α β
  | .and => .all
  | .or => .any

theorem formula_make (members : List Policy) :
    (combinator.make members).formula = combinator.node (members.map Policy.formula) := by
  cases combinator with
  | and => exact Policy.formula_and members
  | or => exact Policy.formula_or members

theorem subformulas_node (members : List (Formula α β)) :
    (combinator.node members).subformulas = members.flatMap Formula.subformulas ++ [combinator.node members] := by
  cases combinator with
  | and => exact Formula.subformulas_all members
  | or => exact Formula.subformulas_any members

theorem map_node {α' β' : Type} (f : α → α') (g : β → β') (members : List (Formula α β)) :
    (combinator.node members).map f g = combinator.node (members.map (Formula.map f g)) := by
  cases combinator with
  | and => exact Formula.map_all f g members
  | or => exact Formula.map_any f g members

end Nodes

theorem flattenInto_make (combinator : Combinator) (inner : List Policy) :
    (combinator.make inner).flattenInto combinator.tag = inner := by
  cases combinator <;> rfl

theorem flattenInto_of_ne (combinator : Combinator) {policy : Policy}
    (other : ∀ inner, policy ≠ combinator.make inner) : policy.flattenInto combinator.tag = [policy] := by
  cases combinator <;> cases policy <;> first | rfl | exact absurd rfl (other _)

theorem make_injective (combinator : Combinator) : Function.Injective combinator.make := by
  intro left right same
  cases combinator <;> cases same <;> rfl

theorem normalizeNode_make (combinator : Combinator) (members : List Policy) :
    (combinator.make members).normalizeNode =
      Policy.normalizeCombinator combinator.make combinator.tag (members.map Policy.normalizeNode) := by
  cases combinator with
  | and => rw [make, Policy.normalizeNode, Policy.normalizeMembers_eq_map]; rfl
  | or => rw [make, Policy.normalizeNode, Policy.normalizeMembers_eq_map]; rfl

theorem short_make (combinator : Combinator) {members : List Policy} :
    (combinator.make members).Short ↔ members.length < 2 ^ 32 ∧ ∀ member ∈ members, member.Short := by
  constructor
  · intro short
    cases combinator with
    | and => cases short with | and _ size each => exact ⟨size, each⟩
    | or => cases short with | or _ size each => exact ⟨size, each⟩
  · rintro ⟨size, each⟩
    cases combinator with
    | and => exact .and members size each
    | or => exact .or members size each

theorem height_make_le_iff (combinator : Combinator) {members : List Policy} {n : ℕ} :
    (combinator.make members).formula.height ≤ n ↔ ∀ member ∈ members, member.formula.height + 1 ≤ n := by
  cases combinator with
  | and => rw [make, Policy.formula_and, Formula.height_all_le_iff, List.forall_mem_map]
  | or => rw [make, Policy.formula_or, Formula.height_any_le_iff, List.forall_mem_map]

end Combinator

namespace Policy

/-- Induction with one case for both commutative combinators. -/
@[elab_as_elim]
theorem combinatorInduction {motive : Policy → Prop} (amountAtMost : ∀ limit, motive (.amountAtMost limit))
    (credential : ∀ id, motive (.credential id))
    (threshold : ∀ k members, (∀ member ∈ members, motive member) → motive (.threshold k members))
    (combinator : ∀ (combinator : Combinator) members, (∀ member ∈ members, motive member) →
      motive (combinator.make members))
    (policy : Policy) : motive policy := by
  induction policy with
  | amountAtMost limit => exact amountAtMost limit
  | credential id => exact credential id
  | threshold k members ih => exact threshold k members ih
  | and members ih => exact combinator .and members ih
  | or members ih => exact combinator .or members ih

theorem normalizeNode_threshold (k : ThresholdK) (members : List Policy) :
    (threshold k members).normalizeNode = threshold k (sortByEncoding (members.map normalizeNode)) := by
  rw [normalizeNode, normalizeMembers_eq_map]

/-- Policies in the order of their encodings. -/
def Ordered (policies : List Policy) : Prop :=
  policies.Pairwise fun left right => left.encode ≤ right.encode

section Unique

variable {policies : List Policy} {policy : Policy}

theorem sortByEncoding_perm (policies : List Policy) : (sortByEncoding policies).Perm policies :=
  List.perm_insertionSort _ policies

theorem sortByEncoding_ordered (policies : List Policy) : Ordered (sortByEncoding policies) := by
  have : Std.Total fun left right : Policy => left.encode ≤ right.encode :=
    ⟨fun left right => List.le_total left.encode right.encode⟩
  have : IsTrans Policy fun left right => left.encode ≤ right.encode :=
    ⟨fun _ _ _ first second => List.le_trans first second⟩
  exact List.pairwise_insertionSort _ policies

theorem sortByEncoding_eq (ordered : Ordered policies) : sortByEncoding policies = policies :=
  ordered.insertionSort_eq

private theorem mem_pushUnique {unique : List Policy} {other : Policy} :
    other ∈ pushUnique unique policy → other ∈ unique ∨ other = policy := by
  intro member
  unfold pushUnique at member
  split at member
  · exact Or.inl member
  · simpa using member

private theorem encode_mem_pushUnique {unique : List Policy} {bytes : Bytes} :
    bytes ∈ (pushUnique unique policy).map encode ↔ bytes ∈ unique.map encode ∨ bytes = policy.encode := by
  unfold pushUnique
  split
  · rename_i present
    constructor
    · exact Or.inl
    · rintro (member | rfl)
      · exact member
      · simpa using present
  · simp [eq_comm]

private theorem nodup_pushUnique {unique : List Policy} (distinct : (unique.map encode).Nodup) :
    ((pushUnique unique policy).map encode).Nodup := by
  unfold pushUnique
  split
  · exact distinct
  · rename_i absent
    simp only [List.any_eq_true, beq_iff_eq, not_exists, not_and] at absent
    rw [List.map_append, List.nodup_append]
    refine ⟨distinct, by simp, ?_⟩
    intro bytes member other single same
    obtain ⟨earlier, inside, rfl⟩ := List.mem_map.mp member
    exact absent earlier inside (by simpa using same.trans (List.mem_singleton.mp single))

/-- Dropping duplicates keeps only given policies. -/
private theorem mem_foldl_pushUnique {unique : List Policy} {other : Policy}
    (member : other ∈ policies.foldl pushUnique unique) : other ∈ unique ∨ other ∈ policies := by
  induction policies generalizing unique with
  | nil => exact Or.inl member
  | cons first rest ih =>
    rcases ih member with earlier | later
    · rcases mem_pushUnique earlier with kept | rfl
      · exact Or.inl kept
      · exact Or.inr List.mem_cons_self
    · exact Or.inr (List.mem_cons_of_mem _ later)

/-- Dropping duplicates keeps every encoding. -/
private theorem encode_mem_foldl_pushUnique {unique : List Policy} {bytes : Bytes} :
    bytes ∈ (policies.foldl pushUnique unique).map encode ↔
      bytes ∈ unique.map encode ∨ bytes ∈ policies.map encode := by
  induction policies generalizing unique with
  | nil => simp
  | cons first rest ih => rw [List.foldl_cons, ih, encode_mem_pushUnique, List.map_cons, List.mem_cons, or_assoc]

private theorem nodup_foldl_pushUnique {unique : List Policy} (distinct : (unique.map encode).Nodup) :
    ((policies.foldl pushUnique unique).map encode).Nodup := by
  induction policies generalizing unique with
  | nil => exact distinct
  | cons first rest ih => exact ih (nodup_pushUnique distinct)

/-- Dropping duplicates keeps the policies in their order. -/
private theorem foldl_pushUnique_sublist {unique : List Policy} :
    (policies.foldl pushUnique unique).Sublist (unique ++ policies) := by
  induction policies generalizing unique with
  | nil => simp
  | cons first rest ih =>
    have kept : (pushUnique unique first).Sublist (unique ++ [first]) := by
      unfold pushUnique
      split
      · exact List.sublist_append_left _ _
      · exact List.Sublist.refl _
    rw [List.foldl_cons, List.append_cons unique first rest]
    exact ih.trans (kept.append_right rest)

private theorem foldl_pushUnique_eq {unique : List Policy}
    (distinct : ((unique ++ policies).map encode).Nodup) :
    policies.foldl pushUnique unique = unique ++ policies := by
  induction policies generalizing unique with
  | nil => rw [List.foldl_nil, List.append_nil]
  | cons first rest ih =>
    have absent : ¬ unique.any (fun earlier => earlier.encode == first.encode) = true := by
      intro present
      obtain ⟨earlier, inside, same⟩ := List.any_eq_true.mp present
      rw [List.map_append, List.nodup_append] at distinct
      exact distinct.2.2 earlier.encode (List.mem_map_of_mem inside) first.encode
        (List.mem_map_of_mem List.mem_cons_self) (beq_iff_eq.mp same)
    rw [List.foldl_cons, pushUnique, if_neg absent, ih (by simpa using distinct), List.append_assoc,
      List.singleton_append]

end Unique

section Combinator

variable {tag : UInt8} {normalized : List Policy}

theorem mem_of_mem_uniqueMembers {policy : Policy} (member : policy ∈ uniqueMembers tag normalized) :
    policy ∈ normalized.flatMap (flattenInto tag) := by
  have unsorted := (sortByEncoding_perm _).mem_iff.mp member
  simpa using mem_foldl_pushUnique unsorted

theorem encode_mem_uniqueMembers {bytes : Bytes} :
    bytes ∈ (uniqueMembers tag normalized).map encode ↔
      bytes ∈ (normalized.flatMap (flattenInto tag)).map encode := by
  rw [uniqueMembers, ((sortByEncoding_perm _).map encode).mem_iff, encode_mem_foldl_pushUnique]
  simp

theorem uniqueMembers_nodup : ((uniqueMembers tag normalized).map encode).Nodup := by
  rw [uniqueMembers, ((sortByEncoding_perm _).map encode).nodup_iff]
  exact nodup_foldl_pushUnique (by simp)

/-- A combinator keeps some of its pieces, in another order. -/
theorem uniqueMembers_subperm : (uniqueMembers tag normalized).Subperm (normalized.flatMap (flattenInto tag)) :=
  (sortByEncoding_perm _).subperm.trans foldl_pushUnique_sublist.subperm

theorem uniqueMembers_ordered : Ordered (uniqueMembers tag normalized) := sortByEncoding_ordered _

/-- Distinct pieces that are in order already are left as they are. -/
theorem uniqueMembers_eq (distinct : ((normalized.flatMap (flattenInto tag)).map encode).Nodup)
    (ordered : Ordered (normalized.flatMap (flattenInto tag))) :
    uniqueMembers tag normalized = normalized.flatMap (flattenInto tag) := by
  rw [uniqueMembers, foldl_pushUnique_eq (by simpa using distinct), List.nil_append, sortByEncoding_eq ordered]

theorem normalizeCombinator_cases (make : List Policy → Policy) :
    (∃ single, uniqueMembers tag normalized = [single] ∧ normalizeCombinator make tag normalized = single) ∨
      (uniqueMembers tag normalized).length ≠ 1 ∧
        normalizeCombinator make tag normalized = make (uniqueMembers tag normalized) := by
  by_cases single : (uniqueMembers tag normalized).length = 1
  · obtain ⟨policy, only⟩ := List.length_eq_one_iff.mp single
    exact Or.inl ⟨policy, only, by rw [normalizeCombinator, only]⟩
  · refine Or.inr ⟨single, ?_⟩
    unfold normalizeCombinator
    split
    · rename_i policy only
      exact absurd (congrArg List.length only) single
    · rfl

end Combinator

/-- What normalization leaves: ordered members, and combinators whose members are
distinct, of another kind, and more than one unless there are none. -/
inductive Normal : Policy → Prop where
  | amountAtMost (limit : AmountLimit) : Normal (.amountAtMost limit)
  | credential (id : CredentialId) : Normal (.credential id)
  | threshold (k : ThresholdK) (members : List Policy) (each : ∀ member ∈ members, Normal member)
      (ordered : Ordered members) : Normal (.threshold k members)
  | combinator (combinator : Combinator) (members : List Policy) (each : ∀ member ∈ members, Normal member)
      (apart : ∀ member ∈ members, ∀ inner, member ≠ combinator.make inner) (ordered : Ordered members)
      (distinct : (members.map encode).Nodup) (several : members.length ≠ 1) : Normal (combinator.make members)

theorem Normal.members {combinator : Combinator} {members : List Policy}
    (normal : Normal (combinator.make members)) :
    (∀ member ∈ members, Normal member ∧ ∀ inner, member ≠ combinator.make inner) ∧ Ordered members ∧
      (members.map encode).Nodup ∧ members.length ≠ 1 := by
  generalize shape : combinator.make members = policy at normal
  cases normal with
  | amountAtMost | credential | threshold => cases combinator <;> cases shape
  | combinator combinator' members' each apart ordered distinct several =>
    cases combinator <;> cases combinator' <;> cases shape
    all_goals exact ⟨fun member inside => ⟨each member inside, apart member inside⟩, ordered, distinct, several⟩

theorem Normal.flattenInto {policy : Policy} (normal : Normal policy) (combinator : Combinator) :
    ∀ piece ∈ policy.flattenInto combinator.tag, Normal piece ∧ ∀ inner, piece ≠ combinator.make inner := by
  by_cases same : ∃ inner, policy = combinator.make inner
  · obtain ⟨inner, rfl⟩ := same
    rw [combinator.flattenInto_make]
    exact normal.members.1
  · have other := fun inner same' => same ⟨inner, same'⟩
    rw [combinator.flattenInto_of_ne other]
    intro piece single
    rw [List.mem_singleton.mp single]
    exact ⟨normal, other⟩

theorem uniqueMembers_normal (combinator : Combinator) {normalized : List Policy}
    (each : ∀ member ∈ normalized, Normal member) :
    ∀ member ∈ uniqueMembers combinator.tag normalized,
      Normal member ∧ ∀ inner, member ≠ combinator.make inner := by
  intro member inside
  obtain ⟨policy, listed, piece⟩ := List.mem_flatMap.mp (mem_of_mem_uniqueMembers inside)
  exact (each policy listed).flattenInto combinator member piece

theorem normalizeNode_normal (policy : Policy) : policy.normalizeNode.Normal := by
  induction policy using combinatorInduction with
  | amountAtMost limit => exact .amountAtMost limit
  | credential id => exact .credential id
  | threshold k members ih =>
    rw [normalizeNode_threshold]
    refine .threshold k _ (fun member inside => ?_) (sortByEncoding_ordered _)
    obtain ⟨original, listed, rfl⟩ := List.mem_map.mp ((sortByEncoding_perm _).mem_iff.mp inside)
    exact ih original listed
  | combinator combinator members ih =>
    have each := uniqueMembers_normal combinator (List.forall_mem_map.mpr ih)
    rw [combinator.normalizeNode_make]
    rcases normalizeCombinator_cases combinator.make with ⟨single, only, result⟩ | ⟨several, result⟩
    · rw [result]
      exact (each single (by rw [only]; exact List.mem_singleton_self single)).1
    · rw [result]
      exact .combinator combinator _ (fun member inside => (each member inside).1)
        (fun member inside => (each member inside).2) uniqueMembers_ordered uniqueMembers_nodup several

/-- A combinator whose normalized members are the pieces of a normal combinator
normalizes to it. -/
theorem normalizeNode_of_pieces {combinator : Combinator} {members pieces : List Policy}
    (normal : Normal (combinator.make pieces))
    (flat : (members.map normalizeNode).flatMap (Policy.flattenInto combinator.tag) = pieces) :
    (combinator.make members).normalizeNode = combinator.make pieces := by
  obtain ⟨_, ordered, distinct, several⟩ := normal.members
  have unique := (uniqueMembers_eq (by rwa [flat]) (by rwa [flat])).trans flat
  rw [combinator.normalizeNode_make]
  rcases normalizeCombinator_cases combinator.make with ⟨single, only, _⟩ | ⟨_, result⟩
  · exact absurd (congrArg List.length (unique.symm.trans only)) several
  · rw [result, unique]

theorem flatMap_flattenInto {combinator : Combinator} {members : List Policy}
    (apart : ∀ member ∈ members, ∀ inner, member ≠ combinator.make inner) :
    members.flatMap (Policy.flattenInto combinator.tag) = members := by
  rw [List.flatMap_congr fun member inside => combinator.flattenInto_of_ne (apart member inside),
    List.flatMap_singleton']

theorem map_normalizeNode {members : List Policy} (fixed : ∀ member ∈ members, member.normalizeNode = member) :
    members.map normalizeNode = members :=
  (List.map_congr_left fixed).trans (List.map_id members)

/-- A policy in normal form is its own normalization. -/
theorem Normal.normalizeNode_eq {policy : Policy} (normal : policy.Normal) : policy.normalizeNode = policy := by
  induction normal with
  | amountAtMost | credential => rfl
  | threshold k members each ordered ih =>
    rw [normalizeNode_threshold, map_normalizeNode ih, sortByEncoding_eq ordered]
  | combinator combinator members each apart ordered distinct several ih =>
    refine normalizeNode_of_pieces (.combinator combinator members each apart ordered distinct several) ?_
    rw [map_normalizeNode ih, flatMap_flattenInto apart]

/-- Normalization is idempotent. -/
theorem normalizeNode_idempotent (policy : Policy) : policy.normalizeNode.normalizeNode = policy.normalizeNode :=
  policy.normalizeNode_normal.normalizeNode_eq

end Policy

end PaymentAuth
