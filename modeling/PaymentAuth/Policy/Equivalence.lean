import PaymentAuth.Policy.Evaluator
import PaymentAuth.Policy.Normalize

namespace PaymentAuth

open Library

namespace Policy

/-- The least congruence that permutes members, splices nested combinators of one
kind, drops duplicate members of a combinator and replaces a one-member combinator
by its member. -/
inductive Equivalent : Policy → Policy → Prop where
  | refl (policy : Policy) : Equivalent policy policy
  | symm {left right : Policy} (same : Equivalent left right) : Equivalent right left
  | trans {left middle right : Policy} (first : Equivalent left middle) (second : Equivalent middle right) :
      Equivalent left right
  | threshold_congr (k : ThresholdK) (before after : List Policy) {left right : Policy}
      (same : Equivalent left right) :
      Equivalent (.threshold k (before ++ left :: after)) (.threshold k (before ++ right :: after))
  | combinator_congr (combinator : Combinator) (before after : List Policy) {left right : Policy}
      (same : Equivalent left right) :
      Equivalent (combinator.make (before ++ left :: after)) (combinator.make (before ++ right :: after))
  | threshold_perm (k : ThresholdK) {left right : List Policy} (perm : left.Perm right) :
      Equivalent (.threshold k left) (.threshold k right)
  | combinator_perm (combinator : Combinator) {left right : List Policy} (perm : left.Perm right) :
      Equivalent (combinator.make left) (combinator.make right)
  | splice (combinator : Combinator) (inner rest : List Policy) :
      Equivalent (combinator.make (combinator.make inner :: rest)) (combinator.make (inner ++ rest))
  | duplicate (combinator : Combinator) (member : Policy) (rest : List Policy) :
      Equivalent (combinator.make (member :: member :: rest)) (combinator.make (member :: rest))
  | single (combinator : Combinator) (member : Policy) : Equivalent (combinator.make [member]) member

namespace Equivalent

variable {left right : Policy}

/-- Equivalent policies have the same truth. -/
theorem eval (same : Equivalent left right) (truth : PolicyLeaf → Bool) :
    left.formula.eval truth = right.formula.eval truth := by
  induction same with
  | refl => rfl
  | symm _ ih => exact ih.symm
  | trans _ _ first second => exact first.trans second
  | threshold_congr k before after _ ih => simp [List.countP_cons, ih]
  | combinator_congr combinator before after _ ih => cases combinator <;> simp [Combinator.make, ih]
  | threshold_perm k perm =>
    rw [formula_threshold, formula_threshold, Formula.eval_atLeast, Formula.eval_atLeast, (perm.map formula).countP_eq]
  | combinator_perm combinator perm =>
    cases combinator with
    | and => rw [Combinator.make, formula_and, formula_and, Formula.eval_all, Formula.eval_all, (perm.map formula).all_eq]
    | or => rw [Combinator.make, formula_or, formula_or, Formula.eval_any, Formula.eval_any, (perm.map formula).any_eq]
  | splice combinator inner rest => cases combinator <;> simp [Combinator.make]
  | duplicate combinator member rest =>
    cases combinator <;> cases held : member.formula.eval truth <;> simp [Combinator.make, held]
  | single combinator member => cases combinator <;> simp [Combinator.make]

/-- Equivalent policies have the same leaves. -/
theorem leaves (same : Equivalent left right) (leaf : PolicyLeaf) :
    leaf ∈ left.formula.leaves ↔ leaf ∈ right.formula.leaves := by
  have leaves_make (combinator : Combinator) (members : List Policy) :
      (combinator.make members).formula.leaves = members.flatMap fun member => member.formula.leaves := by
    cases combinator <;> simp [Combinator.make, List.flatMap_map]
  induction same with
  | refl => rfl
  | symm _ ih => exact ih.symm
  | trans _ _ first second => exact first.trans second
  | threshold_congr k before after _ ih => simp [ih]
  | combinator_congr combinator before after _ ih => simp [leaves_make, ih]
  | threshold_perm k perm =>
    rw [formula_threshold, formula_threshold, Formula.leaves_atLeast, Formula.leaves_atLeast]
    exact ((perm.map formula).flatMap_right Formula.leaves).mem_iff
  | combinator_perm combinator perm =>
    rw [leaves_make, leaves_make]
    exact (perm.flatMap_right _).mem_iff
  | splice combinator inner rest => simp [leaves_make]
  | duplicate combinator member rest => simp [leaves_make]
  | single combinator member => simp [leaves_make]

end Equivalent

section Members

variable {combinator : Combinator} {members normalized : List Policy} {f : Policy → Policy}

private theorem congr_map (make : List Policy → Policy)
    (congr : ∀ before after {left right : Policy}, Equivalent left right →
      Equivalent (make (before ++ left :: after)) (make (before ++ right :: after)))
    (each : ∀ member ∈ members, Equivalent member (f member)) (before : List Policy) :
    Equivalent (make (before ++ members)) (make (before ++ members.map f)) := by
  induction members generalizing before with
  | nil => exact .refl _
  | cons member rest ih =>
    have first := congr before rest (each member List.mem_cons_self)
    have others := ih (fun other inside => each other (List.mem_cons_of_mem _ inside)) (before ++ [f member])
    rw [List.append_assoc, List.append_assoc] at others
    exact first.trans others

/-- A combinator absorbs members that it already has. -/
private theorem absorb {extra : List Policy} (listed : ∀ policy ∈ extra, policy ∈ members) :
    Equivalent (combinator.make (extra ++ members)) (combinator.make members) := by
  induction extra with
  | nil => exact .refl _
  | cons policy rest ih =>
    have others := ih fun other inside => listed other (List.mem_cons_of_mem _ inside)
    have inside : policy ∈ rest ++ members := List.mem_append_right _ (listed policy List.mem_cons_self)
    obtain ⟨before, after, split⟩ := List.append_of_mem inside
    have front : (rest ++ members).Perm (policy :: (before ++ after)) := split ▸ List.perm_middle
    have doubled := (Equivalent.combinator_perm combinator (front.cons policy)).trans
      (.duplicate combinator policy (before ++ after))
    exact (doubled.trans (.symm (.combinator_perm combinator front))).trans others

/-- Combinators of the same set of members are equivalent. -/
private theorem equivalent_of_mem_iff {members' : List Policy} (same : ∀ policy, policy ∈ members ↔ policy ∈ members') :
    Equivalent (combinator.make members) (combinator.make members') := by
  have right : Equivalent (combinator.make (members ++ members')) (combinator.make members') :=
    absorb fun policy inside => (same policy).mp inside
  have left : Equivalent (combinator.make (members' ++ members)) (combinator.make members) :=
    absorb fun policy inside => (same policy).mpr inside
  exact (left.symm.trans (.combinator_perm combinator List.perm_append_comm)).trans right

private theorem splice_all (rest : List Policy) :
    Equivalent (combinator.make (members ++ rest))
      (combinator.make (members.flatMap (flattenInto combinator.tag) ++ rest)) := by
  induction members generalizing rest with
  | nil => exact .refl _
  | cons member others ih =>
    have first : Equivalent (combinator.make (member :: (others ++ rest)))
        (combinator.make (member.flattenInto combinator.tag ++ (others ++ rest))) := by
      by_cases same : ∃ inner, member = combinator.make inner
      · obtain ⟨inner, rfl⟩ := same
        rw [combinator.flattenInto_make]
        exact .splice combinator inner (others ++ rest)
      · rw [combinator.flattenInto_of_ne fun inner same' => same ⟨inner, same'⟩]
        exact .refl _
    have moved : (member.flattenInto combinator.tag ++ (others ++ rest)).Perm
        (others ++ (member.flattenInto combinator.tag ++ rest)) := by
      rw [← List.append_assoc, ← List.append_assoc]
      exact List.perm_append_comm.append_right rest
    have back : (others.flatMap (flattenInto combinator.tag) ++ (member.flattenInto combinator.tag ++ rest)).Perm
        ((member :: others).flatMap (flattenInto combinator.tag) ++ rest) := by
      rw [List.flatMap_cons, ← List.append_assoc]
      exact List.perm_append_comm.append_right rest
    exact ((first.trans (.combinator_perm combinator moved)).trans (ih _)).trans (.combinator_perm combinator back)

end Members

section Short

variable {combinator : Combinator} {members members' normalized : List Policy}

private theorem eq_of_encodings {left right : List Policy} (short : ∀ policy ∈ left, policy.Short)
    (same : left.map encode = right.map encode) : left = right := by
  induction left generalizing right with
  | nil => simpa using same.symm
  | cons policy rest ih =>
    cases right with
    | nil => simp at same
    | cons other others =>
      rw [List.map_cons, List.map_cons, List.cons.injEq] at same
      rw [encode_injective (short policy List.mem_cons_self) same.1,
        ih (fun member inside => short member (List.mem_cons_of_mem _ inside)) same.2]

/-- Ordered lists of short policies are told apart by the encodings they hold. -/
private theorem Ordered.eq_of_perm {left right : List Policy} (ordered : Ordered left) (ordered' : Ordered right)
    (short : ∀ policy ∈ left, policy.Short) (perm : (left.map encode).Perm (right.map encode)) : left = right := by
  refine eq_of_encodings short (perm.eq_of_pairwise (fun _ _ _ _ first second => List.le_antisymm first second) ?_ ?_)
  · exact List.pairwise_map.mpr ordered
  · exact List.pairwise_map.mpr ordered'

private theorem uniqueMembers_congr {normalized' : List Policy}
    (short : ∀ policy ∈ uniqueMembers combinator.tag normalized, policy.Short)
    (same : ∀ bytes, bytes ∈ (normalized.flatMap (flattenInto combinator.tag)).map encode ↔
      bytes ∈ (normalized'.flatMap (flattenInto combinator.tag)).map encode) :
    uniqueMembers combinator.tag normalized = uniqueMembers combinator.tag normalized' := by
  refine uniqueMembers_ordered.eq_of_perm uniqueMembers_ordered short ?_
  rw [List.perm_ext_iff_of_nodup uniqueMembers_nodup uniqueMembers_nodup]
  intro bytes
  rw [encode_mem_uniqueMembers, encode_mem_uniqueMembers, same]

theorem uniqueMembers_short
    (short : (normalizeCombinator combinator.make combinator.tag normalized).Short) :
    (uniqueMembers combinator.tag normalized).length < 2 ^ 32 ∧
      ∀ policy ∈ uniqueMembers combinator.tag normalized, policy.Short := by
  rcases normalizeCombinator_cases combinator.make with ⟨single, only, result⟩ | ⟨_, result⟩
  · rw [result] at short
    rw [only]
    exact ⟨by norm_num, by simpa using short⟩
  · rw [result] at short
    exact combinator.short_make.mp short

/-- A piece that survives under some encoding survives itself. -/
theorem mem_uniqueMembers (short : ∀ policy ∈ uniqueMembers combinator.tag normalized, policy.Short)
    {piece : Policy} (inside : piece ∈ normalized.flatMap (flattenInto combinator.tag)) :
    piece ∈ uniqueMembers combinator.tag normalized := by
  obtain ⟨kept, listed, same⟩ := List.mem_map.mp (encode_mem_uniqueMembers.mpr (List.mem_map_of_mem inside))
  exact encode_injective (short kept listed) same ▸ listed

/-- The pieces of a nested normal combinator survive, each once. -/
theorem nested_uniqueMembers (short : ∀ policy ∈ uniqueMembers combinator.tag normalized, policy.Short)
    {inner : List Policy} (listed : combinator.make inner ∈ normalized) (normal : Normal (combinator.make inner)) :
    (∀ piece ∈ inner, piece ∈ uniqueMembers combinator.tag normalized) ∧
      inner.length ≤ (uniqueMembers combinator.tag normalized).length := by
  have kept (piece) (part : piece ∈ inner) : piece ∈ uniqueMembers combinator.tag normalized := by
    refine mem_uniqueMembers short (List.mem_flatMap.mpr ⟨_, listed, ?_⟩)
    rwa [combinator.flattenInto_make]
  obtain ⟨_, _, distinct, _⟩ := normal.members
  have fewer := (List.subperm_of_subset distinct (List.map_subset encode kept)).length_le
  rw [List.length_map, List.length_map] at fewer
  exact ⟨kept, fewer⟩

/-- Members of a combinator with a short normal form have short normal forms. -/
theorem normalizeNode_short (short : (combinator.make members).normalizeNode.Short) {member : Policy}
    (inside : member ∈ members) : member.normalizeNode.Short := by
  rw [combinator.normalizeNode_make] at short
  obtain ⟨size, each⟩ := uniqueMembers_short short
  have listed : member.normalizeNode ∈ members.map normalizeNode := List.mem_map_of_mem inside
  by_cases same : ∃ inner, member.normalizeNode = combinator.make inner
  · obtain ⟨inner, shape⟩ := same
    have normal := member.normalizeNode_normal
    rw [shape] at normal listed ⊢
    obtain ⟨kept, fewer⟩ := nested_uniqueMembers each listed normal
    exact combinator.short_make.mpr
      ⟨Nat.lt_of_le_of_lt fewer size, fun policy part => each policy (kept policy part)⟩
  · refine each _ (mem_uniqueMembers each (List.mem_flatMap.mpr ⟨_, listed, ?_⟩))
    rw [combinator.flattenInto_of_ne fun inner same' => same ⟨inner, same'⟩]
    exact List.mem_singleton_self _

/-- A policy with a short normal form is equivalent to it. -/
theorem equivalent_normalizeNode {policy : Policy} (short : policy.normalizeNode.Short) :
    Equivalent policy policy.normalizeNode := by
  induction policy using combinatorInduction with
  | amountAtMost | credential => exact .refl _
  | threshold k members ih =>
    rw [normalizeNode_threshold] at short ⊢
    cases short with
    | threshold _ _ _ each =>
      have perm := sortByEncoding_perm (members.map normalizeNode)
      have inside : ∀ member ∈ members, Equivalent member member.normalizeNode := by
        intro member listed
        exact ih member listed (each _ (perm.mem_iff.mpr (List.mem_map_of_mem listed)))
      have normalized := congr_map (threshold k) (fun before after => .threshold_congr k before after) inside []
      exact normalized.trans (.threshold_perm k perm.symm)
  | combinator combinator members ih =>
    have normalized := congr_map combinator.make (fun before after => .combinator_congr combinator before after)
      (fun member inside => ih member inside (normalizeNode_short short inside)) []
    have spliced : Equivalent (combinator.make (members.map normalizeNode))
        (combinator.make ((members.map normalizeNode).flatMap (flattenInto combinator.tag))) := by
      simpa using @splice_all combinator (members.map normalizeNode) []
    rw [combinator.normalizeNode_make] at short ⊢
    obtain ⟨_, each⟩ := uniqueMembers_short short
    have unique := @equivalent_of_mem_iff combinator _ (uniqueMembers combinator.tag (members.map normalizeNode))
      fun policy => ⟨mem_uniqueMembers each, mem_of_mem_uniqueMembers⟩
    refine ((normalized.trans spliced).trans unique).trans ?_
    rcases normalizeCombinator_cases combinator.make with ⟨single, only, result⟩ | ⟨_, result⟩
    · rw [only, result]
      exact .single combinator single
    · rw [result]
      exact .refl _

/-- Combinators whose normalized members have the same pieces normalize alike. -/
private theorem normalizeNode_congr
    (short : (combinator.make members).normalizeNode.Short ∨ (combinator.make members').normalizeNode.Short)
    (same : ∀ bytes, bytes ∈ ((members.map normalizeNode).flatMap (flattenInto combinator.tag)).map encode ↔
      bytes ∈ ((members'.map normalizeNode).flatMap (flattenInto combinator.tag)).map encode) :
    (combinator.make members).normalizeNode = (combinator.make members').normalizeNode := by
  rw [combinator.normalizeNode_make, combinator.normalizeNode_make] at *
  have unique : uniqueMembers combinator.tag (members.map normalizeNode) =
      uniqueMembers combinator.tag (members'.map normalizeNode) := by
    rcases short with left | right
    · exact uniqueMembers_congr (uniqueMembers_short left).2 same
    · exact (uniqueMembers_congr (uniqueMembers_short right).2 fun bytes => (same bytes).symm).symm
  rw [normalizeCombinator, unique, normalizeCombinator]

/-- Normalizing a combinator first leaves the pieces of its normalized members. -/
private theorem pieces_make (combinator : Combinator) (inner : List Policy) (bytes : Bytes) :
    bytes ∈ ((combinator.make inner).normalizeNode.flattenInto combinator.tag).map encode ↔
      bytes ∈ ((inner.map normalizeNode).flatMap (flattenInto combinator.tag)).map encode := by
  rw [combinator.normalizeNode_make, ← encode_mem_uniqueMembers]
  rcases normalizeCombinator_cases combinator.make with ⟨single, only, result⟩ | ⟨_, result⟩
  · have each := uniqueMembers_normal combinator
      (List.forall_mem_map.mpr fun member (_ : member ∈ inner) => member.normalizeNode_normal)
    have apart := (each single (by rw [only]; exact List.mem_singleton_self single)).2
    rw [result, only, combinator.flattenInto_of_ne apart]
  · rw [result, combinator.flattenInto_make]

/-- A one-member combinator normalizes to what its member does. -/
private theorem normalizeNode_single (combinator : Combinator) (member : Policy) :
    (combinator.make [member]).normalizeNode = member.normalizeNode := by
  have normal := member.normalizeNode_normal
  by_cases same : ∃ inner, member.normalizeNode = combinator.make inner
  · obtain ⟨inner, shape⟩ := same
    rw [shape] at normal ⊢
    refine normalizeNode_of_pieces normal ?_
    rw [List.map_singleton, shape, List.flatMap_singleton, combinator.flattenInto_make]
  · have flat := @flatMap_flattenInto combinator [member.normalizeNode] (by simpa using same)
    have unique : uniqueMembers combinator.tag [member.normalizeNode] = [member.normalizeNode] :=
      (uniqueMembers_eq (by rw [flat]; simp) (by rw [flat]; exact List.pairwise_singleton _ _)).trans flat
    rw [combinator.normalizeNode_make, List.map_singleton, normalizeCombinator, unique]

/-- Thresholds over permuted normalized members normalize alike. -/
private theorem sortByEncoding_congr (perm : normalized.Perm members)
    (short : ∀ policy ∈ normalized, policy.Short) : sortByEncoding normalized = sortByEncoding members := by
  have sorted := ((sortByEncoding_perm normalized).trans perm).trans (sortByEncoding_perm members).symm
  exact (sortByEncoding_ordered normalized).eq_of_perm (sortByEncoding_ordered members)
    (fun policy inside => short policy ((sortByEncoding_perm normalized).mem_iff.mp inside)) (sorted.map encode)

theorem normalizeNode_threshold_short {k : ThresholdK} (short : (threshold k members).normalizeNode.Short) :
    ∀ member ∈ members, member.normalizeNode.Short := by
  intro member inside
  rw [normalizeNode_threshold] at short
  cases short with
  | threshold _ _ _ each => exact each _ ((sortByEncoding_perm _).mem_iff.mpr (List.mem_map_of_mem inside))

/-- Equivalent policies of which one has a short normal form normalize alike. -/
theorem Equivalent.normalizeNode_eq {left right : Policy} (same : Equivalent left right)
    (short : left.normalizeNode.Short ∨ right.normalizeNode.Short) :
    left.normalizeNode = right.normalizeNode := by
  induction same with
  | refl => rfl
  | symm _ ih => exact (ih short.symm).symm
  | trans _ _ first second =>
    rcases short with short | short
    · have equal := first (Or.inl short)
      exact equal.trans (second (Or.inl (equal ▸ short)))
    · have equal := second (Or.inr short)
      exact (first (Or.inr (equal ▸ short))).trans equal
  | threshold_congr k before after _ ih =>
    have equal := ih (short.imp (fun short => normalizeNode_threshold_short short _ (by simp))
      fun short => normalizeNode_threshold_short short _ (by simp))
    simp only [normalizeNode_threshold, List.map_append, List.map_cons, equal]
  | combinator_congr combinator before after _ ih =>
    have equal := ih (short.imp (fun short => normalizeNode_short short (by simp))
      fun short => normalizeNode_short short (by simp))
    simp only [combinator.normalizeNode_make, List.map_append, List.map_cons, equal]
  | @threshold_perm k left right perm =>
    rw [normalizeNode_threshold, normalizeNode_threshold]
    congr 1
    have each : ∀ policy ∈ left.map normalizeNode, policy.Short := by
      rcases short with short | short
      · exact List.forall_mem_map.mpr (normalizeNode_threshold_short short)
      · exact List.forall_mem_map.mpr fun member inside =>
          normalizeNode_threshold_short short member (perm.mem_iff.mp inside)
    exact sortByEncoding_congr (perm.map normalizeNode) each
  | combinator_perm combinator perm =>
    refine normalizeNode_congr short fun bytes => List.Perm.mem_iff ?_
    exact ((perm.map normalizeNode).flatMap_right _).map encode
  | splice combinator inner rest =>
    refine normalizeNode_congr short fun bytes => ?_
    rw [List.map_cons, List.flatMap_cons, List.map_append, List.map_append, List.flatMap_append, List.map_append,
      List.mem_append, List.mem_append, pieces_make]
  | duplicate combinator member rest =>
    refine normalizeNode_congr short fun bytes => ?_
    simp only [List.map_cons, List.flatMap_cons, List.map_append, List.mem_append, or_self_left]
  | single combinator member => exact normalizeNode_single combinator member

/-- Normalization decides the equivalence wherever a normal form is short. -/
theorem normalizeNode_eq_iff {left right : Policy}
    (short : left.normalizeNode.Short ∨ right.normalizeNode.Short) :
    left.normalizeNode = right.normalizeNode ↔ Equivalent left right := by
  constructor
  · intro equal
    have both : left.normalizeNode.Short ∧ right.normalizeNode.Short :=
      short.elim (fun short => ⟨short, equal ▸ short⟩) fun short => ⟨equal ▸ short, short⟩
    exact (equivalent_normalizeNode both.1).trans (equal ▸ (equivalent_normalizeNode both.2).symm)
  · intro same
    exact same.normalizeNode_eq short

end Short

end Policy

end PaymentAuth
