import PaymentAuth.Library.Wire
import PaymentAuth.Policy.Normalize
import PaymentAuth.Policy.Validation

/-! Reading policies back from their canonical encodings. -/

namespace PaymentAuth

open Library

def readCredentialId : Reader PolicyError CredentialId := do
  let raw ← Reader.readBytes .malformedEncoding credentialIdLen
  if size : raw.length = credentialIdLen then return ⟨raw, size⟩
  else liftM (.error .malformedEncoding : Outcome PolicyError CredentialId)

namespace Policy

/-- Reads one node and its members; the fuel bounds the depth. -/
def takeNode : ℕ → Reader PolicyError Policy
  | 0 => liftM (.error .malformedEncoding : Outcome PolicyError Policy)
  | fuel + 1 => do
    let tag ← Reader.readU8 .malformedEncoding
    if tag = 1 then do
      let limit ← Reader.readU64 .malformedEncoding
      return .amountAtMost ⟨limit⟩
    else if tag = 2 then do
      let id ← readCredentialId
      return .credential id
    else if tag = 3 then do
      let k ← Reader.readU16 .malformedEncoding
      let members ← Reader.readList .malformedEncoding (takeNode fuel)
      return .threshold ⟨k⟩ members
    else if tag = 4 then do
      let members ← Reader.readList .malformedEncoding (takeNode fuel)
      return .and members
    else if tag = 5 then do
      let members ← Reader.readList .malformedEncoding (takeNode fuel)
      return .or members
    else liftM (.error .malformedEncoding : Outcome PolicyError Policy)

/-- Reads the version and one policy. -/
def takePolicy (fuel : ℕ) : Reader PolicyError Policy := do
  let version ← Reader.readU8 .malformedEncoding
  Emission.reject (version ≠ encodingVersion) .unknownVersion
  takeNode fuel

/-- Decodes a policy from its canonical encoding. A node takes at least one byte,
so that no policy in the bytes is deeper than they are long. -/
def decode (bytes : Bytes) : Outcome PolicyError Policy :=
  Reader.readWhole .trailingBytes (takePolicy bytes.length) bytes

theorem readCredentialId_canonical : readCredentialId.Canonical CredentialId.bytes fun _ => True :=
  Reader.readSized_canonical _ CredentialId.size (fun _ => rfl) fun _ _ => rfl

/-- A policy that a reader with the given fuel returns. -/
def Readable (fuel : ℕ) (policy : Policy) : Prop := policy.Short ∧ policy.formula.height < fuel

section Combinators

variable {fuel : ℕ} {members : List Policy} {policy : Policy}

theorem readable_threshold_iff {k : ThresholdK} : (threshold k members).Readable (fuel + 1) ↔
    members.length < 2 ^ 32 ∧ ∀ member ∈ members, member.Readable fuel := by
  rw [Readable, formula_threshold, Nat.lt_succ_iff, Formula.height_atLeast_le_iff, List.forall_mem_map]
  constructor
  · rintro ⟨short, deep⟩
    cases short with
    | threshold _ _ size each => exact ⟨size, fun member inside => ⟨each member inside, deep member inside⟩⟩
  · rintro ⟨size, each⟩
    exact ⟨.threshold k members size fun member inside => (each member inside).1, fun member inside => (each member inside).2⟩

theorem readable_make_iff (combinator : Combinator) : (combinator.make members).Readable (fuel + 1) ↔
    members.length < 2 ^ 32 ∧ ∀ member ∈ members, member.Readable fuel := by
  rw [Readable, combinator.short_make, Nat.lt_succ_iff, combinator.height_make_le_iff, and_assoc]
  exact and_congr_right fun _ => forall₂_and.symm

end Combinators

/-- A reader of nodes accepts the encodings of policies within its fuel, and consumes no more. -/
theorem takeNode_canonical (fuel : ℕ) : (takeNode fuel).Canonical encodeNode (Readable fuel) := by
  induction fuel with
  | zero =>
    intro bytes policy rest
    rw [takeNode, Emission.liftM_ok_iff]
    exact iff_of_false (fun read => nomatch read.1) fun read => absurd read.1.2 (Nat.not_lt_zero _)
  | succ fuel ih =>
    have readMembers := Reader.readList_canonical PolicyError.malformedEncoding ih
    intro bytes policy rest
    simp only [takeNode, Emission.bind_ok_iff, (Reader.readU8_canonical PolicyError.malformedEncoding) _ _ _, true_and]
    constructor
    · rintro ⟨tag, fields, rfl, reads⟩
      by_cases amount : tag = 1
      · subst amount
        simp only [if_true, Emission.bind_ok_iff, (Reader.readU64_canonical PolicyError.malformedEncoding) _ _ _,
          Emission.pure_ok_iff, true_and] at reads
        obtain ⟨limit, _, rfl, rfl, rfl⟩ := reads
        exact ⟨⟨.amountAtMost ⟨limit⟩, Nat.succ_pos fuel⟩, rfl⟩
      rw [if_neg amount] at reads
      by_cases credential : tag = 2
      · subst credential
        simp only [if_true, Emission.bind_ok_iff, readCredentialId_canonical _ _ _, Emission.pure_ok_iff,
          true_and] at reads
        obtain ⟨id, _, rfl, rfl, rfl⟩ := reads
        exact ⟨⟨.credential id, Nat.succ_pos fuel⟩, rfl⟩
      rw [if_neg credential] at reads
      by_cases threshold : tag = 3
      · subst threshold
        simp only [if_true, Emission.bind_ok_iff, (Reader.readU16_canonical PolicyError.malformedEncoding) _ _ _,
          readMembers _ _ _, Emission.pure_ok_iff, true_and] at reads
        obtain ⟨k, _, rfl, members, _, ⟨readable, rfl⟩, rfl, rfl⟩ := reads
        exact ⟨readable_threshold_iff.mpr readable, by simp [encodeNode, Reader.encodeList]⟩
      rw [if_neg threshold] at reads
      by_cases conjunction : tag = 4
      · subst conjunction
        simp only [if_true, Emission.bind_ok_iff, readMembers _ _ _, Emission.pure_ok_iff] at reads
        obtain ⟨members, _, ⟨readable, rfl⟩, rfl, rfl⟩ := reads
        exact ⟨(readable_make_iff .and).mpr readable, by simp [encodeNode, Reader.encodeList]⟩
      rw [if_neg conjunction] at reads
      by_cases disjunction : tag = 5
      · subst disjunction
        simp only [if_true, Emission.bind_ok_iff, readMembers _ _ _, Emission.pure_ok_iff] at reads
        obtain ⟨members, _, ⟨readable, rfl⟩, rfl, rfl⟩ := reads
        exact ⟨(readable_make_iff .or).mpr readable, by simp [encodeNode, Reader.encodeList]⟩
      rw [if_neg disjunction, Emission.liftM_ok_iff] at reads
      cases reads.1
    · rintro ⟨readable, rfl⟩
      cases policy with
      | amountAtMost limit =>
        refine ⟨1, _, rfl, ?_⟩
        simp only [if_true, Emission.bind_ok_iff, (Reader.readU64_canonical PolicyError.malformedEncoding) _ _ _,
          Emission.pure_ok_iff, true_and]
        exact ⟨limit.value, rest, rfl, rfl, rfl⟩
      | credential id =>
        refine ⟨2, _, rfl, ?_⟩
        rw [if_neg (by decide), if_pos rfl]
        simp only [Emission.bind_ok_iff, readCredentialId_canonical _ _ _, Emission.pure_ok_iff, true_and]
        exact ⟨id, rest, rfl, rfl, rfl⟩
      | threshold k members =>
        refine ⟨3, toBeBytes 2 k.get.toNat ++ (Reader.encodeList encodeNode members ++ rest),
          by simp [encodeNode, Reader.encodeList], ?_⟩
        rw [if_neg (by decide), if_neg (by decide), if_pos rfl]
        simp only [Emission.bind_ok_iff, (Reader.readU16_canonical PolicyError.malformedEncoding) _ _ _,
          readMembers _ _ _, Emission.pure_ok_iff, true_and]
        exact ⟨k.get, _, rfl, members, rest, ⟨readable_threshold_iff.mp readable, rfl⟩, rfl, rfl⟩
      | and members =>
        refine ⟨4, Reader.encodeList encodeNode members ++ rest, by simp [encodeNode, Reader.encodeList], ?_⟩
        rw [if_neg (by decide), if_neg (by decide), if_neg (by decide), if_pos rfl]
        simp only [Emission.bind_ok_iff, readMembers _ _ _, Emission.pure_ok_iff]
        exact ⟨members, rest, ⟨(readable_make_iff .and).mp readable, rfl⟩, rfl, rfl⟩
      | or members =>
        refine ⟨5, Reader.encodeList encodeNode members ++ rest, by simp [encodeNode, Reader.encodeList], ?_⟩
        rw [if_neg (by decide), if_neg (by decide), if_neg (by decide), if_neg (by decide), if_pos rfl]
        simp only [Emission.bind_ok_iff, readMembers _ _ _, Emission.pure_ok_iff]
        exact ⟨members, rest, ⟨(readable_make_iff .or).mp readable, rfl⟩, rfl, rfl⟩

theorem takePolicy_canonical (fuel : ℕ) : (takePolicy fuel).Canonical encode (Readable fuel) := by
  intro bytes policy rest
  simp only [takePolicy, Emission.bind_ok_iff, (Reader.readU8_canonical PolicyError.malformedEncoding) _ _ _, true_and,
    Emission.reject_ok_iff, not_not, takeNode_canonical fuel _ _ _]
  constructor
  · rintro ⟨version, _, rfl, _, _, ⟨rfl, rfl⟩, readable, rfl⟩
    exact ⟨readable, rfl⟩
  · rintro ⟨readable, rfl⟩
    exact ⟨encodingVersion, _, rfl, (), _, ⟨rfl, rfl⟩, readable, rfl⟩

/-- An encoding is longer than its policy is high. -/
theorem height_lt_encodeNode_length (policy : Policy) : policy.formula.height < policy.encodeNode.length := by
  have deepest {members : List Policy} {height : ℕ}
      (each : ∀ member ∈ members, member.formula.height < member.encodeNode.length)
      (tall : ∀ n, height ≤ n ↔ ∀ member ∈ members, member.formula.height + 1 ≤ n) :
      height ≤ (members.flatMap encodeNode).length := by
    refine (tall _).mpr fun member inside => ?_
    have part := List.single_le_sum (fun _ _ => Nat.zero_le _) _
      (List.mem_map_of_mem (f := fun policy => policy.encodeNode.length) inside)
    rw [List.length_flatMap]
    exact (each member inside).trans_le part
  induction policy with
  | amountAtMost limit => simp [encodeNode]
  | credential id => simp [encodeNode]
  | threshold k members ih =>
    have bound := deepest ih fun n =>
      (@Formula.height_atLeast_le_iff _ _ k.get.toNat n () (members.map formula)).trans List.forall_mem_map
    rw [formula_threshold, encodeNode, encodeMembers_eq_flatMap]
    simp only [List.length_cons, List.length_append]
    omega
  | and members ih =>
    have bound := deepest ih fun n => (@Formula.height_all_le_iff _ Unit n (members.map formula)).trans List.forall_mem_map
    rw [formula_and, encodeNode, encodeMembers_eq_flatMap]
    simp only [List.length_cons, List.length_append]
    omega
  | or members ih =>
    have bound := deepest ih fun n => (@Formula.height_any_le_iff _ Unit n (members.map formula)).trans List.forall_mem_map
    rw [formula_or, encodeNode, encodeMembers_eq_flatMap]
    simp only [List.length_cons, List.length_append]
    omega

/-- The accepted byte strings are the encodings of the policies with short member lists. -/
theorem decode_ok_iff {bytes : Bytes} {policy : Policy} :
    decode bytes = .ok policy ↔ policy.Short ∧ bytes = policy.encode := by
  rw [decode, (takePolicy_canonical bytes.length).readWhole_ok_iff]
  constructor
  · rintro ⟨readable, same⟩
    exact ⟨readable.1, same⟩
  · rintro ⟨short, rfl⟩
    refine ⟨⟨short, ?_⟩, rfl⟩
    rw [encode, List.length_cons]
    exact policy.height_lt_encodeNode_length.trans (Nat.lt_succ_self _)

/-- Encoding and decoding are inverse on the policies with short member lists, and
no encoding continues another. -/
theorem encode_bijective :
    (∀ policy : Policy, policy.Short → decode policy.encode = .ok policy) ∧
      (∀ (bytes : Bytes) (policy : Policy), decode bytes = .ok policy → policy.encode = bytes) ∧
      (∀ left right : Policy, left.Short → right.Short → left.encode = right.encode → left = right) ∧
      ∀ (short long : Bytes) (left right : Policy), decode short = .ok left → decode long = .ok right →
        short <+: long → short = long := by
  refine ⟨fun policy short => decode_ok_iff.mpr ⟨short, rfl⟩, fun bytes policy read => (decode_ok_iff.mp read).2.symm,
    fun left right short _ same => encode_injective short same, fun short long left right first second within => ?_⟩
  obtain ⟨fits, rfl⟩ := decode_ok_iff.mp first
  obtain ⟨fits', rfl⟩ := decode_ok_iff.mp second
  obtain ⟨rest, extended⟩ := within
  have deep (policy : Policy) (fuel : ℕ) (enough : policy.encode.length ≤ fuel) : policy.formula.height < fuel := by
    rw [encode, List.length_cons] at enough
    exact policy.height_lt_encodeNode_length.trans enough
  have readable : left.Readable (left.encode.length + right.encode.length) := ⟨fits, deep _ _ (Nat.le_add_right _ _)⟩
  have readable' : right.Readable (left.encode.length + right.encode.length) :=
    ⟨fits', deep _ _ (Nat.le_add_left _ _)⟩
  rw [((takePolicy_canonical _).append_inj readable readable' (extended.trans (List.append_nil _).symm)).1]

/-- A threshold of a cap and a credential is read back. -/
theorem encode_bijective_threshold :
    decode (threshold ⟨1⟩ [.amountAtMost ⟨5⟩, .credential (.filled 1)]).encode =
      .ok (threshold ⟨1⟩ [.amountAtMost ⟨5⟩, .credential (.filled 1)]) :=
  encode_bijective.1 _ (short_of_length (by decide))

/-- The ways in which one node of a policy breaks the structural rules. -/
inductive NodeBreach : Formula PolicyLeaf Unit → Prop where
  | zeroCredential {id : CredentialId} (zero : id.isZero = true) : NodeBreach (.leaf (.credential id))
  | zeroThreshold (members : List (Formula PolicyLeaf Unit)) : NodeBreach (.atLeast 0 () members)
  | unreachableThreshold {k : ℕ} {members : List (Formula PolicyLeaf Unit)} (few : members.length < k) :
      NodeBreach (.atLeast k () members)
  | crowdedThreshold {k : ℕ} {members : List (Formula PolicyLeaf Unit)}
      (many : maxThresholdMembers < members.length) : NodeBreach (.atLeast k () members)
  | repeatedCredential {k : ℕ} {members : List (Formula PolicyLeaf Unit)}
      (twice : ¬(members.filterMap directCredential?).Nodup) : NodeBreach (.atLeast k () members)
  | emptyConjunction : NodeBreach (.all [])
  | crowdedConjunction {members : List (Formula PolicyLeaf Unit)}
      (many : maxCombinatorChildren < members.length) : NodeBreach (.all members)
  | emptyDisjunction : NodeBreach (.any [])
  | crowdedDisjunction {members : List (Formula PolicyLeaf Unit)}
      (many : maxCombinatorChildren < members.length) : NodeBreach (.any members)

/-- The ways in which a policy breaks the documented bounds. -/
inductive Breach (policy : Policy) : Prop where
  | tooDeep (deep : maxPolicyDepth < policy.formula.height)
  | tooManyNodes (many : maxPolicyNodes < policy.formula.subformulas.length)
  | tooManyCredentials (many : maxCredentialCount < policy.formula.subformulas.countP isCredential)
  | node {node : Formula PolicyLeaf Unit} (inside : node ∈ policy.formula.subformulas) (breach : NodeBreach node)

theorem nodeBreach_iff {node : Formula PolicyLeaf Unit} : NodeBreach node ↔ ¬NodeAdmitted node := by
  constructor
  · intro breach
    cases breach with
    | zeroCredential zero => exact fun admitted => absurd admitted.1 (ne_false_of_eq_true zero)
    | zeroThreshold members => exact fun admitted => absurd admitted.1.1 (Nat.not_succ_le_zero 0)
    | unreachableThreshold few => exact fun admitted => absurd admitted.1.2.1 few.not_ge
    | crowdedThreshold many => exact fun admitted => absurd admitted.1.2.2 many.not_ge
    | repeatedCredential twice => exact fun admitted => twice admitted.2
    | emptyConjunction | emptyDisjunction => exact fun admitted => admitted.1.1 rfl
    | crowdedConjunction many | crowdedDisjunction many => exact fun admitted => absurd admitted.1.2 many.not_ge
  · intro rejected
    cases node with
    | leaf leaf =>
      cases leaf with
      | amountAtMost limit => exact absurd ⟨trivial, trivial⟩ rejected
      | credential id =>
        apply NodeBreach.zeroCredential
        by_contra nonzero
        exact rejected ⟨Bool.eq_false_of_not_eq_true nonzero, trivial⟩
    | atLeast k note members =>
      by_cases zero : k = 0
      · subst zero
        exact .zeroThreshold members
      by_cases few : members.length < k
      · exact .unreachableThreshold few
      by_cases many : maxThresholdMembers < members.length
      · exact .crowdedThreshold many
      apply NodeBreach.repeatedCredential
      intro apart
      exact rejected ⟨⟨Nat.one_le_iff_ne_zero.mpr zero, not_lt.mp few, not_lt.mp many⟩, apart⟩
    | all members =>
      by_cases empty : members = []
      · subst empty
        exact .emptyConjunction
      apply NodeBreach.crowdedConjunction
      by_contra few
      exact rejected ⟨⟨empty, not_lt.mp few⟩, trivial⟩
    | any members =>
      by_cases empty : members = []
      · subst empty
        exact .emptyDisjunction
      apply NodeBreach.crowdedDisjunction
      by_contra few
      exact rejected ⟨⟨empty, not_lt.mp few⟩, trivial⟩

/-- Validation turns away exactly the policies that break a bound. -/
theorem breach_iff {policy : Policy} : policy.Breach ↔ policy.validate ≠ .ok () := by
  rw [ne_eq, validate_ok_iff]
  constructor
  · rintro (deep | many | many | ⟨inside, breach⟩) admitted
    · exact absurd admitted.height deep.not_ge
    · exact absurd admitted.nodes many.not_ge
    · exact absurd admitted.credentials many.not_ge
    · exact nodeBreach_iff.mp breach (admitted.each _ inside)
  · intro rejected
    by_cases deep : maxPolicyDepth < policy.formula.height
    · exact .tooDeep deep
    by_cases nodes : maxPolicyNodes < policy.formula.subformulas.length
    · exact .tooManyNodes nodes
    by_cases credentials : maxCredentialCount < policy.formula.subformulas.countP isCredential
    · exact .tooManyCredentials credentials
    by_contra kept
    refine rejected ⟨not_lt.mp deep, not_lt.mp nodes, not_lt.mp credentials, fun node inside => ?_⟩
    by_contra breach
    exact kept (.node inside (nodeBreach_iff.mpr breach))

/-- What decoding returns for a byte string is valid exactly when the string encodes
no policy that breaks a bound. -/
theorem decode_valid_iff (bytes : Bytes) :
    (∀ policy, decode bytes = .ok policy → policy.validate = .ok ()) ↔
      ¬∃ policy : Policy, policy.Short ∧ policy.Breach ∧ bytes = policy.encode := by
  constructor
  · rintro valid ⟨policy, short, breach, same⟩
    have accepted := valid policy (decode_ok_iff.mpr ⟨short, same⟩)
    exact breach_iff.mp breach accepted
  · intro kept policy read
    obtain ⟨short, same⟩ := decode_ok_iff.mp read
    by_contra rejected
    exact kept ⟨policy, short, breach_iff.mpr rejected, same⟩

/-- Decoding returns a threshold of arity zero. -/
theorem decode_not_valid :
    decode [encodingVersion, 3, 0, 0, 0, 0, 0, 1, 1, 0, 0, 0, 0, 0, 0, 0, 5] =
        .ok (threshold ⟨0⟩ [.amountAtMost ⟨5⟩]) ∧
      (threshold ⟨0⟩ [.amountAtMost ⟨5⟩]).validate = .error .invalidThreshold := by
  refine ⟨decode_ok_iff.mpr ⟨short_of_length (by decide), by decide⟩, by decide⟩

end Policy

end PaymentAuth
