import Mathlib.Algebra.Order.BigOperators.Group.List
import Mathlib.Data.List.Flatten
import PaymentAuth.Policy.Ast

namespace PaymentAuth

open Library

/-- Canonical encoding version. -/
def encodingVersion : UInt8 := 1

namespace Policy

mutual

/-- A node as a tag, its data and its members; member counts keep their low 32 bits. -/
def encodeNode : Policy → Bytes
  | .amountAtMost limit => 1 :: toBeBytes 8 limit.value.toNat
  | .credential id => 2 :: id.bytes
  | .threshold k members =>
    3 :: (toBeBytes 2 k.get.toNat ++ (toBeBytes 4 members.length ++ encodeMembers members))
  | .and members => 4 :: (toBeBytes 4 members.length ++ encodeMembers members)
  | .or members => 5 :: (toBeBytes 4 members.length ++ encodeMembers members)

def encodeMembers : List Policy → Bytes
  | [] => []
  | member :: rest => encodeNode member ++ encodeMembers rest

end

/-- Returns the canonical encoding of a policy. -/
def encode (policy : Policy) : Bytes := encodingVersion :: policy.encodeNode

@[simp] theorem encodeMembers_eq_flatMap (members : List Policy) :
    encodeMembers members = members.flatMap encodeNode := by
  induction members with
  | nil => rfl
  | cons member rest ih => rw [encodeMembers, ih, List.flatMap_cons]

theorem encode_inj {left right : Policy} : left.encode = right.encode ↔ left.encodeNode = right.encodeNode := by
  simp [encode]

theorem five_le_encodeNode_length (policy : Policy) : 5 ≤ policy.encodeNode.length := by
  cases policy with
  | credential id =>
    have size := id.size
    simp only [encodeNode, List.length_cons, size, credentialIdLen]
    omega
  | amountAtMost | threshold | and | or => simp [encodeNode] <;> omega

theorem length_le_encodeMembers_length (members : List Policy) :
    members.length ≤ (members.flatMap encodeNode).length := by
  induction members with
  | nil => simp
  | cons member rest ih =>
    have first := five_le_encodeNode_length member
    simp only [List.length_cons, List.flatMap_cons, List.length_append]
    omega

/-- Every member list is shorter than `2^32`, so that its count fits the field. -/
inductive Short : Policy → Prop where
  | amountAtMost (limit : AmountLimit) : Short (.amountAtMost limit)
  | credential (id : CredentialId) : Short (.credential id)
  | threshold (k : ThresholdK) (members : List Policy) (size : members.length < 2 ^ 32)
      (each : ∀ member ∈ members, Short member) : Short (.threshold k members)
  | and (members : List Policy) (size : members.length < 2 ^ 32) (each : ∀ member ∈ members, Short member) :
      Short (.and members)
  | or (members : List Policy) (size : members.length < 2 ^ 32) (each : ∀ member ∈ members, Short member) :
      Short (.or members)

private theorem count_le {small large : ℕ} (short : small < 2 ^ 32)
    (same : toBeBytes 4 small = toBeBytes 4 large) : small ≤ large := by
  have residues := congrArg fromBeBytes same
  rw [fromBeBytes_toBeBytes, fromBeBytes_toBeBytes] at residues
  norm_num at short residues
  omega

/-- The member lists of two encodings with leftovers: the longer list leaves whole members. -/
private theorem members_append {left right : List Policy} {s t : Bytes}
    (each : ∀ member ∈ left, ∀ (other : Policy) (s t : Bytes),
      member.encodeNode ++ s = other.encodeNode ++ t →
        ∃ extra, s = extra.flatMap encodeNode ++ t ∧ (extra = [] → member = other))
    (fewer : left.length ≤ right.length)
    (same : left.flatMap encodeNode ++ s = right.flatMap encodeNode ++ t) :
    ∃ extra, s = extra.flatMap encodeNode ++ t ∧ (extra = [] → left = right) := by
  induction left generalizing right with
  | nil => exact ⟨right, by simpa using same, Eq.symm⟩
  | cons member rest ih =>
    cases right with
    | nil => simp at fewer
    | cons other others =>
      simp only [List.flatMap_cons, List.append_assoc, List.length_cons] at same fewer
      obtain ⟨first, continued, firstSame⟩ := each member List.mem_cons_self other _ _ same
      rw [← List.append_assoc, ← List.flatMap_append] at continued
      obtain ⟨extra, ended, restSame⟩ := ih (fun member inside => each member (List.mem_cons_of_mem _ inside))
        (by rw [List.length_append]; omega) continued
      refine ⟨extra, ended, fun none => ?_⟩
      have lengths := congrArg List.length (restSame none)
      rw [List.length_append] at lengths
      have empty : first = [] := List.length_eq_zero_iff.mp (by omega)
      rw [firstSame empty, restSame none, empty, List.nil_append]

/-- Reading a short policy where another was written leaves whole members of the other. -/
theorem encodeNode_append {left right : Policy} {s t : Bytes} (short : left.Short)
    (same : left.encodeNode ++ s = right.encodeNode ++ t) :
    ∃ extra, s = extra.flatMap encodeNode ++ t ∧ (extra = [] → left = right) := by
  have combinator {members others : List Policy} {s t : Bytes} (size : members.length < 2 ^ 32)
      (each : ∀ member ∈ members, ∀ (other : Policy) (s t : Bytes),
        member.encodeNode ++ s = other.encodeNode ++ t →
          ∃ extra, s = extra.flatMap encodeNode ++ t ∧ (extra = [] → member = other))
      (same : toBeBytes 4 members.length ++ (members.flatMap encodeNode ++ s) =
        toBeBytes 4 others.length ++ (others.flatMap encodeNode ++ t)) :
      ∃ extra, s = extra.flatMap encodeNode ++ t ∧ (extra = [] → members = others) := by
    obtain ⟨counts, rest⟩ := List.append_inj same (by simp)
    exact members_append each (count_le size counts) rest
  induction short generalizing right s t with
  | amountAtMost limit =>
    cases right with
    | amountAtMost limit' =>
      simp only [encodeNode, List.cons_append, List.cons.injEq, true_and] at same
      obtain ⟨values, rest⟩ := List.append_inj same (by simp)
      have equal := toBeBytes_injective (by simpa using limit.value.toNat_lt)
        (by simpa using limit'.value.toNat_lt) values
      cases limit
      cases limit'
      cases UInt64.toNat_inj.mp equal
      exact ⟨[], rest, fun _ => rfl⟩
    | credential | threshold | and | or => simp [encodeNode] at same
  | credential id =>
    cases right with
    | credential id' =>
      simp only [encodeNode, List.cons_append, List.cons.injEq, true_and] at same
      obtain ⟨values, rest⟩ := List.append_inj same (id.size.trans id'.size.symm)
      cases id
      cases id'
      cases values
      exact ⟨[], rest, fun _ => rfl⟩
    | amountAtMost | threshold | and | or => simp [encodeNode] at same
  | threshold k members size each ih =>
    cases right with
    | threshold k' members' =>
      simp only [encodeNode, List.cons_append, List.cons.injEq, true_and, List.append_assoc,
        encodeMembers_eq_flatMap] at same
      obtain ⟨arities, rest⟩ := List.append_inj same (by simp)
      have equal := toBeBytes_injective (by simpa using k.get.toNat_lt) (by simpa using k'.get.toNat_lt) arities
      obtain ⟨extra, ended, sameMembers⟩ := combinator size (fun member inside _ _ _ => ih member inside) rest
      cases k
      cases k'
      cases UInt16.toNat_inj.mp equal
      exact ⟨extra, ended, fun none => by rw [sameMembers none]⟩
    | amountAtMost | credential | and | or => simp [encodeNode] at same
  | and members size each ih =>
    cases right with
    | and members' =>
      simp only [encodeNode, List.cons_append, List.cons.injEq, true_and, List.append_assoc,
        encodeMembers_eq_flatMap] at same
      obtain ⟨extra, ended, sameMembers⟩ := combinator size (fun member inside _ _ _ => ih member inside) same
      exact ⟨extra, ended, fun none => by rw [sameMembers none]⟩
    | amountAtMost | credential | threshold | or => simp [encodeNode] at same
  | or members size each ih =>
    cases right with
    | or members' =>
      simp only [encodeNode, List.cons_append, List.cons.injEq, true_and, List.append_assoc,
        encodeMembers_eq_flatMap] at same
      obtain ⟨extra, ended, sameMembers⟩ := combinator size (fun member inside _ _ _ => ih member inside) same
      exact ⟨extra, ended, fun none => by rw [sameMembers none]⟩
    | amountAtMost | credential | threshold | and => simp [encodeNode] at same

/-- A short policy is the only policy with its encoding. -/
theorem encode_injective {left right : Policy} (short : left.Short) (same : left.encode = right.encode) :
    left = right := by
  obtain ⟨extra, ended, equal⟩ := encodeNode_append short (congrArg (· ++ ([] : Bytes)) (encode_inj.mp same))
  refine equal (List.length_eq_zero_iff.mp ?_)
  have bound := length_le_encodeMembers_length extra
  rw [List.append_nil] at ended
  rwa [← ended, List.length_nil, Nat.le_zero] at bound

/-- Encodings below `2^32` bytes leave no room for a longer member list. -/
theorem short_of_length {policy : Policy} (small : policy.encodeNode.length < 2 ^ 32) : policy.Short := by
  have bounded {members : List Policy} {room : ℕ} (fits : room + (members.flatMap encodeNode).length < 2 ^ 32)
      (ih : ∀ member ∈ members, member.encodeNode.length < 2 ^ 32 → member.Short) :
      members.length < 2 ^ 32 ∧ ∀ member ∈ members, member.Short := by
    have bound := length_le_encodeMembers_length members
    refine ⟨by omega, fun member inside => ih member inside ?_⟩
    have part := List.single_le_sum (fun _ _ => Nat.zero_le _) _
      (List.mem_map_of_mem (f := fun policy => policy.encodeNode.length) inside)
    rw [List.length_flatMap] at fits
    omega
  induction policy with
  | amountAtMost limit => exact .amountAtMost limit
  | credential id => exact .credential id
  | threshold k list ih =>
    simp only [encodeNode, encodeMembers_eq_flatMap, List.length_cons, List.length_append, toBeBytes_length] at small
    obtain ⟨size, each⟩ := @bounded list 7 (by omega) ih
    exact .threshold k list size each
  | and list ih =>
    simp only [encodeNode, encodeMembers_eq_flatMap, List.length_cons, List.length_append, toBeBytes_length] at small
    obtain ⟨size, each⟩ := @bounded list 5 (by omega) ih
    exact .and list size each
  | or list ih =>
    simp only [encodeNode, encodeMembers_eq_flatMap, List.length_cons, List.length_append, toBeBytes_length] at small
    obtain ⟨size, each⟩ := @bounded list 5 (by omega) ih
    exact .or list size each

end Policy

end PaymentAuth
