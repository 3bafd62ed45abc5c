import PaymentAuth.Policy.Equivalence
import PaymentAuth.Policy.Totality

/-! What validation asks of a normalized policy. -/

namespace PaymentAuth

open Library

namespace Policy

section Measures

variable {combinator : Combinator} {members normalized : List Policy} {counts : Formula PolicyLeaf Unit → Bool}

theorem subformulas_make (combinator : Combinator) (members : List Policy) :
    (combinator.make members).formula.subformulas =
      (members.map formula).flatMap Formula.subformulas ++ [(combinator.make members).formula] := by
  rw [combinator.formula_make, combinator.subformulas_node]

theorem height_threshold_le_iff {k : ThresholdK} {n : ℕ} :
    (threshold k members).formula.height ≤ n ↔ ∀ member ∈ members, member.formula.height + 1 ≤ n := by
  rw [formula_threshold, Formula.height_atLeast_le_iff, List.forall_mem_map]

/-- The nodes of a policy of one kind. -/
def tally (counts : Formula PolicyLeaf Unit → Bool) (policy : Policy) : ℕ := policy.formula.subformulas.countP counts

private theorem countP_members (members : List Policy) :
    ((members.map formula).flatMap Formula.subformulas).countP counts = (members.map (tally counts)).sum := by
  rw [List.countP_flatMap, List.map_map]
  rfl

theorem tally_make :
    (combinator.make members).tally counts =
      (members.map (tally counts)).sum + [(combinator.make members).formula].countP counts := by
  rw [tally, subformulas_make, List.countP_append, countP_members]

theorem tally_threshold {k : ThresholdK} :
    (threshold k members).tally counts =
      (members.map (tally counts)).sum + [(threshold k members).formula].countP counts := by
  rw [tally, formula_threshold, Formula.subformulas_atLeast, List.countP_append, countP_members]

private theorem tally_flattenInto_le (combinator : Combinator) (policy : Policy) :
    ((policy.flattenInto combinator.tag).map (tally counts)).sum ≤ policy.tally counts := by
  by_cases same : ∃ inner, policy = combinator.make inner
  · obtain ⟨inner, rfl⟩ := same
    rw [combinator.flattenInto_make, tally_make]
    exact Nat.le_add_right _ _
  · rw [combinator.flattenInto_of_ne fun inner same' => same ⟨inner, same'⟩]
    simp

private theorem tally_uniqueMembers_le :
    ((uniqueMembers combinator.tag normalized).map (tally counts)).sum ≤ (normalized.map (tally counts)).sum := by
  have pieces : ((normalized.flatMap (Policy.flattenInto combinator.tag)).map (tally counts)).sum ≤
      (normalized.map (tally counts)).sum := by
    induction normalized with
    | nil => simp
    | cons first rest ih =>
      have spliced := @tally_flattenInto_le counts combinator first
      rw [List.flatMap_cons, List.map_append, List.sum_append, List.map_cons, List.sum_cons]
      omega
  obtain ⟨kept, perm, sublist⟩ := @uniqueMembers_subperm combinator.tag normalized
  have fewer := (sublist.map (tally counts)).sum_le_sum fun _ _ => Nat.zero_le _
  rw [(perm.map (tally counts)).sum_eq] at fewer
  exact fewer.trans pieces

/-- Normalization adds no node of a kind that does not depend on the members. -/
theorem tally_normalizeNode_le
    (ofThreshold : ∀ k left right, counts (threshold k left).formula = counts (threshold k right).formula)
    (ofCombinator : ∀ (combinator : Combinator) left right,
      counts (combinator.make left).formula = counts (combinator.make right).formula) (policy : Policy) :
    policy.normalizeNode.tally counts ≤ policy.tally counts := by
  have members_le (members : List Policy)
      (each : ∀ member ∈ members, member.normalizeNode.tally counts ≤ member.tally counts) :
      ((members.map normalizeNode).map (tally counts)).sum ≤ (members.map (tally counts)).sum := by
    rw [List.map_map]
    exact List.sum_le_sum each
  induction policy using combinatorInduction with
  | amountAtMost | credential => exact Nat.le_refl _
  | threshold k members ih =>
    have sorted := ((sortByEncoding_perm (members.map normalizeNode)).map (tally counts)).sum_eq
    have below := members_le members ih
    rw [normalizeNode_threshold, tally_threshold, tally_threshold, sorted, List.countP_singleton,
      List.countP_singleton, ofThreshold k _ members]
    omega
  | combinator combinator members ih =>
    have kept := @tally_uniqueMembers_le combinator (members.map normalizeNode) counts
    have below := members_le members ih
    rw [combinator.normalizeNode_make]
    rcases normalizeCombinator_cases combinator.make with ⟨single, only, result⟩ | ⟨_, result⟩
    · rw [only, List.map_singleton, List.sum_singleton] at kept
      rw [result, tally_make]
      omega
    · rw [result, tally_make, tally_make, List.countP_singleton, List.countP_singleton,
        ofCombinator combinator _ members]
      omega

private theorem height_flattenInto_le {policy piece : Policy} (inside : piece ∈ policy.flattenInto combinator.tag) :
    piece.formula.height ≤ policy.formula.height := by
  by_cases same : ∃ inner, policy = combinator.make inner
  · obtain ⟨inner, rfl⟩ := same
    rw [combinator.flattenInto_make] at inside
    exact Nat.le_of_succ_le (combinator.height_make_le_iff.mp (Nat.le_refl _) piece inside)
  · rw [combinator.flattenInto_of_ne fun inner same' => same ⟨inner, same'⟩, List.mem_singleton] at inside
    rw [inside]

theorem height_normalizeNode_le (policy : Policy) : policy.normalizeNode.formula.height ≤ policy.formula.height := by
  induction policy using combinatorInduction with
  | amountAtMost | credential => exact Nat.le_refl _
  | threshold k members ih =>
    rw [normalizeNode_threshold, height_threshold_le_iff]
    intro piece inside
    obtain ⟨member, listed, rfl⟩ := List.mem_map.mp ((sortByEncoding_perm _).mem_iff.mp inside)
    have deep := height_threshold_le_iff.mp (Nat.le_refl (threshold k members).formula.height) member listed
    have below := ih member listed
    omega
  | combinator combinator members ih =>
    have piece_lt : ∀ piece ∈ uniqueMembers combinator.tag (members.map normalizeNode),
        piece.formula.height + 1 ≤ (combinator.make members).formula.height := by
      intro piece inside
      obtain ⟨_, normalized, part⟩ := List.mem_flatMap.mp (mem_of_mem_uniqueMembers inside)
      obtain ⟨member, listed, rfl⟩ := List.mem_map.mp normalized
      have deep := combinator.height_make_le_iff.mp (Nat.le_refl (combinator.make members).formula.height) member listed
      have below := ih member listed
      have part_le := height_flattenInto_le part
      omega
    rw [combinator.normalizeNode_make]
    rcases normalizeCombinator_cases combinator.make with ⟨single, only, result⟩ | ⟨_, result⟩
    · rw [result]
      exact Nat.le_of_succ_le (piece_lt single (by rw [only]; exact List.mem_singleton_self single))
    · rw [result, combinator.height_make_le_iff]
      exact piece_lt

end Measures

/-- Every node of a policy keeps to the rules on single nodes. -/
def Ruled (policy : Policy) : Prop := ∀ node ∈ policy.formula.subformulas, NodeAdmitted node

/-- No combinator of a policy is without members. -/
def Populated (policy : Policy) : Prop :=
  ∀ combinator : Combinator, (combinator.make []).formula ∉ policy.formula.subformulas

section Rules

variable {combinator : Combinator} {k : ThresholdK} {members normalized : List Policy} {policy : Policy}

private theorem forall_mem_members {holds : Formula PolicyLeaf Unit → Prop} :
    (∀ node ∈ (members.map formula).flatMap Formula.subformulas, holds node) ↔
      ∀ member ∈ members, ∀ node ∈ member.formula.subformulas, holds node := by
  simp only [List.flatMap_map, List.mem_flatMap, forall_exists_index, and_imp]
  constructor
  · exact fun each member listed node inside => each node member listed inside
  · exact fun each node member listed inside => each member listed node inside

theorem ruled_make_iff :
    (combinator.make members).Ruled ↔
      (∀ member ∈ members, member.Ruled) ∧ members ≠ [] ∧ members.length ≤ maxCombinatorChildren := by
  have self : NodeAdmitted (combinator.make members).formula ↔
      members ≠ [] ∧ members.length ≤ maxCombinatorChildren := by
    cases combinator <;> simp [Combinator.make, NodeAdmitted, NodeValid, DistinctCredentials]
  unfold Ruled
  rw [subformulas_make, List.forall_mem_append, List.forall_mem_singleton, self, forall_mem_members]

theorem ruled_threshold_iff :
    (threshold k members).Ruled ↔
      (∀ member ∈ members, member.Ruled) ∧ NodeAdmitted (threshold k members).formula := by
  unfold Ruled
  rw [formula_threshold, Formula.subformulas_atLeast, List.forall_mem_append, List.forall_mem_singleton,
    forall_mem_members]

theorem populated_make_iff :
    (combinator.make members).Populated ↔ (∀ member ∈ members, member.Populated) ∧ members ≠ [] := by
  have self : (∀ other : Combinator, (other.make []).formula ≠ (combinator.make members).formula) ↔ members ≠ [] := by
    constructor
    · intro apart none
      exact apart combinator (by rw [none])
    · intro some other
      cases combinator <;> cases other <;> simp [Combinator.make, eq_comm, some]
  unfold Populated
  simp only [subformulas_make, List.mem_append, List.mem_singleton, not_or, forall_and, self, List.flatMap_map,
    List.mem_flatMap, not_exists, not_and]
  refine and_congr_left fun _ => ?_
  constructor
  · exact fun each member inside other => each other member inside
  · exact fun each other member inside => each member inside other

theorem populated_threshold_iff : (threshold k members).Populated ↔ ∀ member ∈ members, member.Populated := by
  have self : ∀ other : Combinator, (other.make []).formula ≠ (threshold k members).formula := by
    intro other
    cases other <;> simp [Combinator.make]
  unfold Populated
  rw [formula_threshold] at self ⊢
  simp only [Formula.subformulas_atLeast, List.mem_append, List.mem_singleton, self, or_false, List.flatMap_map,
    List.mem_flatMap, not_exists, not_and]
  constructor
  · exact fun each member inside other => each other member inside
  · exact fun each other member inside => each member inside other

theorem Ruled.populated (ruled : policy.Ruled) : policy.Populated := by
  intro combinator inside
  have empty := (ruled _ inside).1
  cases combinator <;> simp [Combinator.make, NodeValid] at empty

/-- The nodes of a piece are nodes of a policy that it came from. -/
theorem subformulas_of_mem_uniqueMembers {piece : Policy} (inside : piece ∈ uniqueMembers combinator.tag normalized) :
    ∃ source ∈ normalized, piece.formula.subformulas ⊆ source.formula.subformulas := by
  obtain ⟨source, listed, part⟩ := List.mem_flatMap.mp (mem_of_mem_uniqueMembers inside)
  refine ⟨source, listed, ?_⟩
  by_cases same : ∃ inner, source = combinator.make inner
  · obtain ⟨inner, rfl⟩ := same
    rw [combinator.flattenInto_make] at part
    intro node below
    rw [subformulas_make]
    exact List.mem_append_left _ (List.mem_flatMap.mpr ⟨_, List.mem_map_of_mem part, below⟩)
  · rw [combinator.flattenInto_of_ne fun inner same' => same ⟨inner, same'⟩, List.mem_singleton] at part
    rw [part]
    exact List.Subset.refl _

theorem uniqueMembers_ne_nil (some : normalized ≠ []) (populated : ∀ source ∈ normalized, source.Populated) :
    uniqueMembers combinator.tag normalized ≠ [] := by
  obtain ⟨source, listed⟩ := List.exists_mem_of_ne_nil normalized some
  have pieces : source.flattenInto combinator.tag ≠ [] := by
    by_cases same : ∃ inner, source = combinator.make inner
    · obtain ⟨inner, rfl⟩ := same
      rw [combinator.flattenInto_make]
      exact (populated_make_iff.mp (populated _ listed)).2
    · rw [combinator.flattenInto_of_ne fun inner same' => same ⟨inner, same'⟩]
      exact List.cons_ne_nil _ _
  obtain ⟨piece, part⟩ := List.exists_mem_of_ne_nil _ pieces
  have kept : piece.encode ∈ (uniqueMembers combinator.tag normalized).map encode :=
    encode_mem_uniqueMembers.mpr (List.mem_map_of_mem (List.mem_flatMap.mpr ⟨source, listed, part⟩))
  intro none
  rw [none] at kept
  exact List.not_mem_nil kept

theorem normalizeNode_populated (populated : policy.Populated) : policy.normalizeNode.Populated := by
  induction policy using combinatorInduction with
  | amountAtMost | credential => exact populated
  | threshold k members ih =>
    rw [populated_threshold_iff] at populated
    rw [normalizeNode_threshold, populated_threshold_iff]
    intro piece inside
    obtain ⟨member, listed, rfl⟩ := List.mem_map.mp ((sortByEncoding_perm _).mem_iff.mp inside)
    exact ih member listed (populated member listed)
  | combinator combinator members ih =>
    obtain ⟨each, some⟩ := populated_make_iff.mp populated
    have sources : ∀ source ∈ members.map normalizeNode, source.Populated :=
      List.forall_mem_map.mpr fun member listed => ih member listed (each member listed)
    have pieces : ∀ piece ∈ uniqueMembers combinator.tag (members.map normalizeNode), piece.Populated := by
      intro piece inside other node
      obtain ⟨source, listed, below⟩ := subformulas_of_mem_uniqueMembers inside
      exact sources source listed other (below node)
    rw [combinator.normalizeNode_make]
    rcases normalizeCombinator_cases combinator.make with ⟨single, only, result⟩ | ⟨_, result⟩
    · rw [result]
      exact pieces single (by rw [only]; exact List.mem_singleton_self single)
    · rw [result]
      exact populated_make_iff.mpr ⟨pieces, uniqueMembers_ne_nil (by simpa using some) sources⟩

end Rules

/-- A policy that is no combination of others by a combinator: whatever combination
it is equivalent to has it as a member already. -/
def Irreducible (combinator : Combinator) (policy : Policy) : Prop :=
  ∀ inner, Equivalent policy (combinator.make inner) → ∃ member ∈ inner, Equivalent policy member

/-- A combination of these members is one of at most so many irreducible pieces. -/
def PiecesWithin (combinator : Combinator) (members : List Policy) (limit : ℕ) : Prop :=
  ∃ pieces : List Policy, pieces.length ≤ limit ∧ (∀ piece ∈ pieces, Irreducible combinator piece) ∧
    Equivalent (combinator.make members) (combinator.make pieces)

/-- No two members of a list are equivalent to one credential. -/
def CredentialsApart (members : List Policy) : Prop :=
  members.Pairwise fun left right => ∀ id, ¬ (Equivalent left (.credential id) ∧ Equivalent right (.credential id))

/-- Policies whose thresholds and combinators stay within the limits up to equivalence. -/
inductive Compact : Policy → Prop where
  | amountAtMost (limit : AmountLimit) : Compact (.amountAtMost limit)
  | credential (id : CredentialId) : Compact (.credential id)
  | threshold (k : ThresholdK) (members : List Policy) (each : ∀ member ∈ members, Compact member)
      (apart : CredentialsApart members) : Compact (.threshold k members)
  | combinator (combinator : Combinator) (members : List Policy) (each : ∀ member ∈ members, Compact member)
      (few : PiecesWithin combinator members maxCombinatorChildren) : Compact (combinator.make members)

section Compact

variable {combinator : Combinator} {k : ThresholdK} {members : List Policy} {policy : Policy}

theorem compact_make_iff :
    (combinator.make members).Compact ↔
      (∀ member ∈ members, member.Compact) ∧ PiecesWithin combinator members maxCombinatorChildren := by
  constructor
  · intro compact
    generalize shape : combinator.make members = policy at compact
    cases compact with
    | amountAtMost | credential | threshold => cases combinator <;> cases shape
    | combinator combinator' members' each few =>
      cases combinator <;> cases combinator' <;> cases shape
      all_goals exact ⟨each, few⟩
  · rintro ⟨each, few⟩
    exact .combinator combinator members each few

theorem compact_threshold_iff :
    (threshold k members).Compact ↔ (∀ member ∈ members, member.Compact) ∧ CredentialsApart members := by
  constructor
  · intro compact
    generalize shape : threshold k members = policy at compact
    cases compact with
    | amountAtMost | credential => cases shape
    | threshold k' members' each apart =>
      cases shape
      exact ⟨each, apart⟩
    | combinator combinator members' each few => cases combinator <;> cases shape
  · rintro ⟨each, apart⟩
    exact .threshold k members each apart

/-- A policy is irreducible when its normal form is of another kind. -/
theorem irreducible_iff (short : policy.normalizeNode.Short) :
    Irreducible combinator policy ↔ ∀ inner, policy.normalizeNode ≠ combinator.make inner := by
  constructor
  · intro irreducible inner shape
    have normal := policy.normalizeNode_normal
    have same := equivalent_normalizeNode short
    rw [shape] at normal same
    obtain ⟨member, listed, equal⟩ := irreducible inner same
    obtain ⟨normal', apart⟩ := normal.members.1 member listed
    have reduced := equal.normalizeNode_eq (Or.inl short)
    rw [normal'.normalizeNode_eq] at reduced
    exact apart inner (reduced.symm.trans shape)
  · intro other inner same
    have equal := same.normalizeNode_eq (Or.inl short)
    rw [combinator.normalizeNode_make] at equal
    rcases normalizeCombinator_cases combinator.make with ⟨single, only, result⟩ | ⟨_, result⟩
    · rw [result] at equal
      have kept : single ∈ uniqueMembers combinator.tag (inner.map normalizeNode) := by simp [only]
      obtain ⟨_, normalized, part⟩ := List.mem_flatMap.mp (mem_of_mem_uniqueMembers kept)
      obtain ⟨member, listed, rfl⟩ := List.mem_map.mp normalized
      refine ⟨member, listed, (normalizeNode_eq_iff (Or.inl short)).mp ?_⟩
      by_cases nested : ∃ inside, member.normalizeNode = combinator.make inside
      · obtain ⟨inside, shape⟩ := nested
        have normal := member.normalizeNode_normal
        rw [shape] at normal normalized part
        rw [combinator.flattenInto_make] at part
        have alone : ∀ policy ∈ uniqueMembers combinator.tag (inner.map normalizeNode), policy.Short := by
          rw [only]
          simpa [← equal] using short
        -- At most as many pieces as the single one are left, while a normal combination has none or several.
        obtain ⟨_, atMost⟩ := nested_uniqueMembers alone normalized normal
        rw [only, List.length_singleton] at atMost
        have atLeast := List.length_pos_of_mem part
        have several := normal.members.2.2.2
        omega
      · rw [combinator.flattenInto_of_ne fun inside same' => nested ⟨inside, same'⟩, List.mem_singleton] at part
        rw [equal, part]
    · exact absurd (equal.trans result) (other _)

/-- The pieces of a combination are the members that normalization leaves. -/
theorem piecesWithin_iff {limit : ℕ} (short : (combinator.make members).normalizeNode.Short) (positive : 1 ≤ limit) :
    PiecesWithin combinator members limit ↔
      (uniqueMembers combinator.tag (members.map normalizeNode)).length ≤ limit := by
  have apart := uniqueMembers_normal combinator
    (List.forall_mem_map.mpr fun member (_ : member ∈ members) => member.normalizeNode_normal)
  constructor
  · rintro ⟨pieces, few, irreducible, same⟩
    have equal := same.normalizeNode_eq (Or.inl short)
    have other : ∀ piece ∈ pieces.map normalizeNode, ∀ inner, piece ≠ combinator.make inner := by
      rw [List.forall_mem_map]
      intro piece listed
      exact (irreducible_iff (normalizeNode_short (equal ▸ short) listed)).mp (irreducible piece listed)
    have kept := (@uniqueMembers_subperm combinator.tag (pieces.map normalizeNode)).length_le
    rw [flatMap_flattenInto other, List.length_map] at kept
    rw [combinator.normalizeNode_make, combinator.normalizeNode_make] at equal
    rcases normalizeCombinator_cases combinator.make with ⟨single, only, _⟩ | ⟨_, result⟩
    · rwa [only, List.length_singleton]
    · rw [result] at equal
      rcases @normalizeCombinator_cases combinator.tag (pieces.map normalizeNode) combinator.make with
        ⟨single, only, result'⟩ | ⟨_, result'⟩
      · have inside : single ∈ uniqueMembers combinator.tag (pieces.map normalizeNode) := by simp [only]
        have each := uniqueMembers_normal combinator
          (List.forall_mem_map.mpr fun piece (_ : piece ∈ pieces) => piece.normalizeNode_normal)
        exact absurd (equal.trans result').symm ((each single inside).2 _)
      · rw [combinator.make_injective (equal.trans result')]
        exact kept.trans few
  · intro few
    refine ⟨uniqueMembers combinator.tag (members.map normalizeNode), few, fun piece inside => ?_, ?_⟩
    · obtain ⟨normal, other⟩ := apart piece inside
      have pieceShort : piece.normalizeNode.Short := by
        rw [normal.normalizeNode_eq]
        rw [combinator.normalizeNode_make] at short
        exact (uniqueMembers_short short).2 piece inside
      rw [irreducible_iff pieceShort, normal.normalizeNode_eq]
      exact other
    · have same := equivalent_normalizeNode short
      rw [combinator.normalizeNode_make] at same
      rcases normalizeCombinator_cases combinator.make with ⟨single, only, result⟩ | ⟨_, result⟩
      · rw [result] at same
        rw [only]
        exact same.trans (.symm (.single combinator single))
      · rwa [result] at same

private theorem directCredential?_formula {id : CredentialId} :
    directCredential? policy.formula = some id ↔ policy = .credential id := by
  cases policy <;> simp [directCredential?]

/-- The credentials among normalized members are apart when those of the members are up to equivalence. -/
theorem credentialsApart_iff :
    (((members.map normalizeNode).map formula).filterMap directCredential?).Nodup ↔ CredentialsApart members := by
  unfold List.Nodup CredentialsApart
  rw [List.pairwise_filterMap, List.pairwise_map, List.pairwise_map]
  have same (member : Policy) (id : CredentialId) :
      directCredential? member.normalizeNode.formula = some id ↔ Equivalent member (.credential id) := by
    rw [directCredential?_formula]
    exact @normalizeNode_eq_iff member (.credential id) (Or.inr (.credential id))
  simp only [same]
  refine List.Pairwise.iff ?_
  intro left right
  constructor
  · rintro distinct id ⟨first, second⟩
    exact distinct id first id second rfl
  · rintro apart id first other second rfl
    exact apart id ⟨first, second⟩

end Compact

section Exact

variable {combinator : Combinator} {k : ThresholdK} {members : List Policy} {policy : Policy}

private theorem ruled_combination_iff (populated : (combinator.make members).Populated)
    (short : (combinator.make members).normalizeNode.Short) :
    (combinator.make members).normalizeNode.Ruled ↔
      (∀ member ∈ members, member.normalizeNode.Ruled) ∧
        (uniqueMembers combinator.tag (members.map normalizeNode)).length ≤ maxCombinatorChildren := by
  obtain ⟨each, some⟩ := populated_make_iff.mp populated
  have sources : ∀ source ∈ members.map normalizeNode, source.Populated :=
    List.forall_mem_map.mpr fun member listed => normalizeNode_populated (each member listed)
  have pieces : (combinator.make members).normalizeNode.Ruled ↔
      (∀ piece ∈ uniqueMembers combinator.tag (members.map normalizeNode), piece.Ruled) ∧
        (uniqueMembers combinator.tag (members.map normalizeNode)).length ≤ maxCombinatorChildren := by
    rw [combinator.normalizeNode_make]
    rcases normalizeCombinator_cases combinator.make with ⟨single, only, result⟩ | ⟨_, result⟩
    · rw [result, only]
      simp [maxCombinatorChildren]
    · rw [result, ruled_make_iff]
      have left := @uniqueMembers_ne_nil combinator _ (by simpa using some) sources
      simp [left]
  rw [pieces]
  refine and_congr_left fun few => ?_
  rw [combinator.normalizeNode_make] at short
  obtain ⟨_, shorts⟩ := uniqueMembers_short short
  constructor
  · intro ruled member inside
    have listed : member.normalizeNode ∈ members.map normalizeNode := List.mem_map_of_mem inside
    by_cases nested : ∃ inner, member.normalizeNode = combinator.make inner
    · obtain ⟨inner, shape⟩ := nested
      have normal := member.normalizeNode_normal
      have filled := sources _ listed
      rw [shape] at normal listed filled ⊢
      obtain ⟨kept, fewer⟩ := nested_uniqueMembers shorts listed normal
      exact ruled_make_iff.mpr
        ⟨fun piece part => ruled piece (kept piece part), (populated_make_iff.mp filled).2, fewer.trans few⟩
    · refine ruled _ (mem_uniqueMembers shorts (List.mem_flatMap.mpr ⟨_, listed, ?_⟩))
      rw [combinator.flattenInto_of_ne fun inner same => nested ⟨inner, same⟩]
      exact List.mem_singleton_self _
  · intro ruled piece inside node below
    obtain ⟨source, listed, part⟩ := subformulas_of_mem_uniqueMembers inside
    obtain ⟨member, given, rfl⟩ := List.mem_map.mp listed
    exact ruled member given node (part below)

private theorem ruled_threshold_members_iff (ruled : (threshold k members).Ruled) :
    (threshold k members).normalizeNode.Ruled ↔
      (∀ member ∈ members, member.normalizeNode.Ruled) ∧ CredentialsApart members := by
  have perm := sortByEncoding_perm (members.map normalizeNode)
  have bounds := (ruled_threshold_iff.mp ruled).2.1
  rw [formula_threshold, NodeValid, List.length_map] at bounds
  rw [normalizeNode_threshold, ruled_threshold_iff, formula_threshold, NodeAdmitted, NodeValid, DistinctCredentials,
    List.length_map, perm.length_eq, List.length_map, ((perm.map formula).filterMap directCredential?).nodup_iff,
    credentialsApart_iff]
  refine and_congr ?_ (and_iff_right bounds)
  simp only [perm.mem_iff, List.forall_mem_map]

/-- The normal form of a policy that keeps to the rules does so exactly when the policy is compact. -/
theorem ruled_normalizeNode_iff (ruled : policy.Ruled) (short : policy.normalizeNode.Short) :
    policy.normalizeNode.Ruled ↔ policy.Compact := by
  induction policy using combinatorInduction with
  | amountAtMost limit => exact ⟨fun _ => .amountAtMost limit, fun _ => ruled⟩
  | credential id => exact ⟨fun _ => .credential id, fun _ => ruled⟩
  | threshold k members ih =>
    rw [ruled_threshold_members_iff ruled, compact_threshold_iff]
    refine and_congr_left fun _ => forall₂_congr fun member inside => ?_
    exact ih member inside ((ruled_threshold_iff.mp ruled).1 member inside)
      (normalizeNode_threshold_short short member inside)
  | combinator combinator members ih =>
    rw [ruled_combination_iff ruled.populated short, compact_make_iff, piecesWithin_iff short (by decide)]
    refine and_congr_left fun _ => forall₂_congr fun member inside => ?_
    exact ih member inside ((ruled_make_iff.mp ruled).1 member inside) (normalizeNode_short short inside)

end Exact

/-- Of a valid policy, normalization can break only the rules on single nodes. -/
theorem validate_normalizeNode_iff {policy : Policy} {result : Unit} (accepted : policy.validate = .ok result) :
    policy.normalizeNode.validate = .ok () ↔ policy.Compact := by
  obtain ⟨height, nodes, credentials, each⟩ := validate_ok_iff.mp accepted
  have fewNodes : policy.normalizeNode.formula.subformulas.length ≤ policy.formula.subformulas.length := by
    simpa [tally] using @tally_normalizeNode_le (fun _ => true) (fun _ _ _ => rfl) (fun _ _ _ => rfl) policy
  have fewCredentials := @tally_normalizeNode_le isCredential (fun _ _ _ => by simp [isCredential, directCredential?])
    (fun combinator _ _ => by cases combinator <;> simp [Combinator.make, isCredential, directCredential?]) policy
  have size := policy.normalizeNode.encodeNode_length_le
  have small : policy.normalizeNode.encodeNode.length < 2 ^ 32 := by
    rw [maxPolicyNodes] at nodes
    omega
  rw [validate_ok_iff, ← ruled_normalizeNode_iff each (short_of_length small)]
  constructor
  · exact fun admitted => admitted.each
  · intro ruled
    exact ⟨policy.height_normalizeNode_le.trans height, fewNodes.trans nodes, fewCredentials.trans credentials, ruled⟩

/-- A valid policy stays valid under normalization, and compiles, exactly when it is compact. -/
theorem normalize_validate_iff {policy : Policy} (accepted : policy.validate = .ok ()) :
    ((do let normalized ← policy.normalize; normalized.validate) = .ok () ↔ policy.Compact) ∧
      ((∃ compiled : CompiledPolicy FieldElement, compileWithLayout policy = .ok compiled) ↔ policy.Compact) := by
  have exact := validate_normalizeNode_iff accepted
  refine ⟨exact, ?_⟩
  constructor
  · rintro ⟨compiled, compiles⟩
    obtain ⟨_, normalizes, compiles⟩ := Outcome.bind_ok_iff.mp compiles
    obtain ⟨_, validates, _⟩ := Outcome.bind_ok_iff.mp compiles
    cases normalizes
    exact exact.mp validates
  · intro compact
    exact compileWithLayout_succeeds (exact.mpr compact)

/-- One of two credentials. -/
def either : Policy := .threshold ⟨1⟩ [.credential (.filled 1), .credential (.filled 2)]

private theorem either_compact : either.Compact := by
  refine .threshold ⟨1⟩ _ ?_ (credentialsApart_iff.mp (by decide))
  rw [List.forall_mem_cons, List.forall_mem_singleton]
  exact ⟨.credential _, .credential _⟩

theorem normalize_validate_either :
    (do let normalized ← either.normalize; normalized.validate) = .ok () ∧
      ∃ compiled : CompiledPolicy FieldElement, compileWithLayout either = .ok compiled :=
  ⟨(normalize_validate_iff rfl).1.mpr either_compact, (normalize_validate_iff rfl).2.mpr either_compact⟩

/-- A credential beside a conjunction of the same credential alone. -/
def doubled : Policy := .threshold ⟨1⟩ [.credential (.filled 1), .and [.credential (.filled 1)]]

/-- Normalization can leave a valid policy with a threshold that validation rejects. -/
theorem normalize_validate_doubled :
    doubled.validate = .ok () ∧
      (do let normalized ← doubled.normalize; normalized.validate) = .error .duplicateCredential ∧
        (compileWithLayout doubled : Outcome PolicyError (CompiledPolicy FieldElement)) =
          .error .duplicateCredential :=
  ⟨rfl, rfl, rfl⟩

end Policy

end PaymentAuth
