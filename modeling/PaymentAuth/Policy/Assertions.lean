import PaymentAuth.Crypto.Sha256
import PaymentAuth.Library.Log
import PaymentAuth.Policy.Identity
import PaymentAuth.Policy.Limits

/-! Normalization and policy ids with the debug assertion of the encoder, and the
encodings they compute on the way. -/

namespace PaymentAuth

open Library

namespace Policy

/-- An action that logs every encoding it computes. -/
abbrev Encodings (α : Type) := Logged Bytes PolicyError α

/-- `encode` with its debug assertion. -/
def encodeChecked (policy : Policy) : Encodings Bytes := do
  let out := policy.encode
  Logged.tell out
  Logged.assert (out.length ≤ maxEncodedSize)
  return out

/-- Sorts by encodings that are computed once for each policy. -/
def sortByCachedKey (policies : List Policy) : Encodings (List Policy) := do
  let keyed ← policies.mapM fun policy => do
    let key ← policy.encodeChecked
    return (key, policy)
  return (keyed.insertionSort fun left right => left.1 ≤ right.1).map Prod.snd

/-- Whether one of the policies has the encoding; the search stops at the first. -/
def anyEncodes (encoding : Bytes) : List Policy → Encodings Bool
  | [] => return false
  | earlier :: rest => do
    let bytes ← earlier.encodeChecked
    if bytes = encoding then return true else anyEncodes encoding rest

/-- Appends a policy unless one with the same encoding is present. -/
def pushUniqueChecked (unique : List Policy) (policy : Policy) : Encodings (List Policy) := do
  let encoding ← policy.encodeChecked
  let present ← anyEncodes encoding unique
  return if present then unique else unique ++ [policy]

/-- Normalizes a commutative combinator over normalized members. -/
def normalizeCombinatorChecked (make : List Policy → Policy) (parentTag : UInt8) (normalized : List Policy) :
    Encodings Policy := do
  let flat := normalized.flatMap (flattenInto parentTag)
  let unique ← flat.foldlM pushUniqueChecked []
  let sorted ← sortByCachedKey unique
  return match sorted with
    | [single] => single
    | unique => make unique

mutual

def normalizeNodeChecked : Policy → Encodings Policy
  | .amountAtMost limit => return .amountAtMost limit
  | .credential id => return .credential id
  | .threshold k members => do
    let normalized ← normalizeMembersChecked members
    let sorted ← sortByCachedKey normalized
    return .threshold k sorted
  | .and members => do
    let normalized ← normalizeMembersChecked members
    normalizeCombinatorChecked .and 4 normalized
  | .or members => do
    let normalized ← normalizeMembersChecked members
    normalizeCombinatorChecked .or 5 normalized

def normalizeMembersChecked : List Policy → Encodings (List Policy)
  | [] => return []
  | member :: rest => do
    let first ← normalizeNodeChecked member
    let others ← normalizeMembersChecked rest
    return first :: others

end

/-- Hashes the encoding of the normal form. -/
def policyIdChecked (sha256 : Bytes → Digest) (policy : Policy) : Encodings PolicyId := do
  let normalized ← policy.normalizeNodeChecked
  let bytes ← normalized.encodeChecked
  Emission.reject (bytes.length > maxEncodedSize) .encodedSizeExceeded
  return (sha256Backend sha256).hashDomain domainPolicy bytes

/-- An encoding that passes the assertion. -/
def Fits (bytes : Bytes) : Prop := bytes.length ≤ maxEncodedSize

/-- A policy with no more nodes than validation allows. -/
def Small (policy : Policy) : Prop := policy.tally (fun _ => true) ≤ maxPolicyNodes

theorem small_iff {policy : Policy} : policy.Small ↔ policy.formula.subformulas.length ≤ maxPolicyNodes := by
  rw [Small, tally, List.countP_true]

/-- The node limit keeps encodings below the size limit. -/
theorem Small.fits {policy : Policy} (small : policy.Small) : Fits policy.encode := by
  have nodes := small_iff.mp small
  have bytes := policy.encodeNode_length_le
  rw [Fits, encode, List.length_cons]
  unfold maxPolicyNodes at nodes
  unfold maxEncodedSize
  omega

section Members

variable {combinator : Combinator} {k : ThresholdK} {members : List Policy} {policy : Policy}

theorem Small.of_tally_le {other : Policy} (small : policy.Small)
    (fewer : other.tally (fun _ => true) ≤ policy.tally (fun _ => true)) : other.Small :=
  fewer.trans small

theorem Small.normalizeNode (small : policy.Small) : policy.normalizeNode.Small :=
  small.of_tally_le (tally_normalizeNode_le (fun _ _ _ => rfl) (fun _ _ _ => rfl) policy)

/-- A member has at most as many nodes as the policy around it. -/
theorem Small.members_threshold (small : (threshold k members).Small) : ∀ member ∈ members, member.Small := by
  intro member inside
  apply small.of_tally_le
  rw [tally_threshold]
  exact (List.single_le_sum (fun _ _ => Nat.zero_le _) _ (List.mem_map_of_mem inside)).trans (Nat.le_add_right _ _)

theorem Small.members_make (small : (combinator.make members).Small) : ∀ member ∈ members, member.Small := by
  intro member inside
  apply small.of_tally_le
  rw [tally_make]
  exact (List.single_le_sum (fun _ _ => Nat.zero_le _) _ (List.mem_map_of_mem inside)).trans (Nat.le_add_right _ _)

/-- Splicing takes a policy apart or leaves it as it is. -/
theorem Small.flattenInto (small : policy.Small) :
    ∀ piece ∈ policy.flattenInto combinator.tag, piece.Small := by
  by_cases same : ∃ inner, policy = combinator.make inner
  · obtain ⟨inner, rfl⟩ := same
    rw [combinator.flattenInto_make]
    exact small.members_make
  · rw [combinator.flattenInto_of_ne fun inner equal => same ⟨inner, equal⟩]
    exact List.forall_mem_singleton.mpr small

end Members

section Runs

variable {policies unique : List Policy} {policy : Policy}

theorem encodeChecked_returns (small : policy.Small) : Logged.Returns Fits policy.encodeChecked policy.encode := by
  have held : policy.encode.length ≤ maxEncodedSize := small.fits
  exact (Logged.returns_tell small.fits).bind ((Logged.returns_assert held).bind (Logged.returns_pure _))

theorem sortByCachedKey_returns (small : ∀ policy ∈ policies, policy.Small) :
    Logged.Returns Fits (sortByCachedKey policies) (sortByEncoding policies) := by
  have keyed : Logged.Returns Fits (policies.mapM fun policy => (do
      let key ← policy.encodeChecked
      return (key, policy) : Encodings (Bytes × Policy))) (policies.map fun policy => (policy.encode, policy)) :=
    Logged.returns_mapM fun policy inside =>
      (encodeChecked_returns (small policy inside)).bind (Logged.returns_pure _)
  have sorted : ((policies.map fun policy => (policy.encode, policy)).insertionSort
      fun left right => left.1 ≤ right.1).map Prod.snd = sortByEncoding policies := by
    rw [sortByEncoding, ← List.map_insertionSort (r := fun left right : Policy => left.encode ≤ right.encode)]
    · rw [List.map_map]
      exact List.map_id _
    · exact fun _ _ _ _ => Iff.rfl
  rw [← sorted]
  exact keyed.bind (Logged.returns_pure _)

theorem anyEncodes_returns (small : ∀ earlier ∈ unique, earlier.Small) (encoding : Bytes) :
    Logged.Returns Fits (anyEncodes encoding unique) (unique.any fun earlier => earlier.encode == encoding) := by
  induction unique with
  | nil => exact Logged.returns_pure false
  | cons earlier rest ih =>
    have others := ih fun other inside => small other (List.mem_cons_of_mem earlier inside)
    rw [anyEncodes, List.any_cons]
    apply (encodeChecked_returns (small earlier List.mem_cons_self)).bind
    by_cases same : earlier.encode = encoding
    · rw [if_pos same, beq_iff_eq.mpr same, Bool.true_or]
      exact Logged.returns_pure true
    · rw [if_neg same, beq_false_of_ne same, Bool.false_or]
      exact others

theorem pushUniqueChecked_returns (small : ∀ earlier ∈ unique, earlier.Small) (piece : policy.Small) :
    Logged.Returns Fits (pushUniqueChecked unique policy) (pushUnique unique policy) :=
  (encodeChecked_returns piece).bind ((anyEncodes_returns small _).bind (Logged.returns_pure _))

/-- Dropping duplicates adds no policy but the one at hand. -/
private theorem small_pushUnique (small : ∀ earlier ∈ unique, earlier.Small) (piece : policy.Small) :
    ∀ earlier ∈ pushUnique unique policy, earlier.Small := by
  unfold pushUnique
  split
  · exact small
  · exact List.forall_mem_append.mpr ⟨small, List.forall_mem_singleton.mpr piece⟩

theorem normalizeCombinatorChecked_returns {combinator : Combinator} {normalized : List Policy}
    (small : ∀ member ∈ normalized, member.Small) :
    Logged.Returns Fits (normalizeCombinatorChecked combinator.make combinator.tag normalized)
      (normalizeCombinator combinator.make combinator.tag normalized) := by
  have pieces : ∀ piece ∈ normalized.flatMap (flattenInto combinator.tag), piece.Small := by
    intro piece inside
    obtain ⟨member, listed, part⟩ := List.mem_flatMap.mp inside
    exact (small member listed).flattenInto piece part
  have unique : Logged.Returns Fits
      ((normalized.flatMap (flattenInto combinator.tag)).foldlM pushUniqueChecked [])
      ((normalized.flatMap (flattenInto combinator.tag)).foldl pushUnique []) := by
    apply Logged.returns_foldlM (fun unique => ∀ earlier ∈ unique, Small earlier)
    · exact List.forall_mem_nil _
    · intro unique piece inside held
      exact ⟨pushUniqueChecked_returns held (pieces piece inside), small_pushUnique held (pieces piece inside)⟩
  have kept : ∀ piece ∈ (normalized.flatMap (flattenInto combinator.tag)).foldl pushUnique [], piece.Small := by
    intro piece inside
    apply pieces
    apply mem_of_mem_uniqueMembers
    exact (sortByEncoding_perm _).mem_iff.mpr inside
  exact unique.bind ((sortByCachedKey_returns kept).bind (Logged.returns_pure _))

/-- On a policy within the node limit the assertion holds at every encoding. -/
theorem normalizeNodeChecked_returns (small : policy.Small) :
    Logged.Returns Fits policy.normalizeNodeChecked policy.normalizeNode := by
  have members_return (members : List Policy)
      (each : ∀ member ∈ members, Logged.Returns Fits member.normalizeNodeChecked member.normalizeNode) :
      Logged.Returns Fits (normalizeMembersChecked members) (members.map Policy.normalizeNode) := by
    induction members with
    | nil =>
      rw [normalizeMembersChecked]
      exact Logged.returns_pure []
    | cons member rest ih =>
      have others := ih fun other inside => each other (List.mem_cons_of_mem member inside)
      rw [normalizeMembersChecked]
      exact (each member List.mem_cons_self).bind (others.bind (Logged.returns_pure _))
  induction policy using combinatorInduction with
  | amountAtMost limit =>
    rw [normalizeNodeChecked]
    exact Logged.returns_pure _
  | credential id =>
    rw [normalizeNodeChecked]
    exact Logged.returns_pure _
  | threshold k members ih =>
    have inner := small.members_threshold
    have run := members_return members fun member inside => ih member inside (inner member inside)
    have sorted := @sortByCachedKey_returns (members.map Policy.normalizeNode)
      (List.forall_mem_map.mpr fun member inside => (inner member inside).normalizeNode)
    rw [normalizeNodeChecked, normalizeNode_threshold]
    exact run.bind (sorted.bind (Logged.returns_pure _))
  | combinator combinator members ih =>
    have inner := small.members_make
    have run := members_return members fun member inside => ih member inside (inner member inside)
    have combined := @normalizeCombinatorChecked_returns combinator (members.map Policy.normalizeNode)
      (List.forall_mem_map.mpr fun member inside => (inner member inside).normalizeNode)
    rw [combinator.normalizeNode_make]
    cases combinator with
    | and | or =>
      rw [Combinator.make, normalizeNodeChecked]
      exact run.bind combined

end Runs

/-- A valid policy has an id: every encoding computed for it passes the assertion,
the one of its normal form included. -/
theorem policyId_total {policy : Policy} (valid : policy.validate = .ok ()) (sha256 : Bytes → Digest) :
    ∃ id encodings, policy.policyIdChecked sha256 [] = .ok (id, encodings) ∧
      (∀ bytes ∈ encodings, bytes.length ≤ maxEncodedSize) ∧
      policy.normalizeNode.encode.length ≤ maxEncodedSize ∧
      (policy.policyId sha256 : Outcome PolicyError PolicyId) = .ok id := by
  have small : policy.Small := small_iff.mpr (validate_ok_iff.mp valid).nodes
  have fits : policy.normalizeNode.encode.length ≤ maxEncodedSize := small.normalizeNode.fits
  have run : Logged.Returns Fits (policy.policyIdChecked sha256)
      ((sha256Backend sha256).hashDomain domainPolicy policy.normalizeNode.encode) := by
    apply (normalizeNodeChecked_returns small).bind
    apply (encodeChecked_returns small.normalizeNode).bind
    exact (Logged.returns_reject fits.not_gt).bind (Logged.returns_pure _)
  obtain ⟨encodings, computed, each⟩ := run []
  refine ⟨_, encodings, computed, each, fits, ?_⟩
  exact Policy.policyId_ok_iff.mpr (PaymentAuth.policyId_ok_iff.mpr ⟨fits, rfl⟩)

theorem policyId_total_conjunction :
    ∃ id encodings,
      (Policy.and [.credential (.filled 2), .credential (.filled 1)]).policyIdChecked PaymentAuth.sha256 [] =
        .ok (id, encodings) ∧ ∀ bytes ∈ encodings, bytes.length ≤ maxEncodedSize := by
  obtain ⟨id, encodings, computed, each, -⟩ :=
    @policyId_total (.and [.credential (.filled 2), .credential (.filled 1)]) (by decide) PaymentAuth.sha256
  exact ⟨id, encodings, computed, each⟩

end Policy

end PaymentAuth
