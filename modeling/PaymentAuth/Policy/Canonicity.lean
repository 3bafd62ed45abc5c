import PaymentAuth.Policy.Equivalence

/-! Normal forms as identifiers of meaning, and where their encodings overflow. -/

namespace PaymentAuth

open Library

/-- A witness that does not match is reported as such. -/
theorem PolicyWitness.validateAgainst_cases (witness : PolicyWitness) (policy : Policy) :
    witness.validateAgainst policy = .ok () ∨ witness.validateAgainst policy = .error .witnessMismatch := by
  unfold validateAgainst
  obtain ⟨ids, needsAmount⟩ := policy.collectRequirements
  rcases @Outcome.forM_cases PolicyError _ _ .witnessMismatch
    (fun id => Outcome.reject_cases ((witness.credentialSecrets.any fun entry => entry.1 == id) = false) _)
    ids with covered | missing
  · simp only [covered]
    exact Outcome.reject_cases _ _
  · simp only [missing]
    exact Or.inr rfl

namespace Policy

/-- The evaluator checks the witness and decides the formula. -/
theorem authorized_evaluate (sha256 : Bytes → Digest) (witness : PolicyWitness) (policy : Policy) :
    AuthorizationResult.authorized <$> policy.evaluate sha256 witness =
      (fun _ => policy.formula.eval (leafSatisfied sha256 witness)) <$> witness.validateAgainst policy := by
  rw [evaluate]
  rcases witness.validateAgainst_cases policy with matched | mismatch
  · rw [matched, ← policy.evalNode_isSatisfied]
    rfl
  · rw [mismatch]
    rfl

theorem Equivalent.validateAgainst_eq {left right : Policy} (same : Equivalent left right)
    (witness : PolicyWitness) : witness.validateAgainst left = witness.validateAgainst right := by
  have iff : witness.validateAgainst left = .ok () ↔ witness.validateAgainst right = .ok () := by
    rw [PolicyWitness.validateAgainst_ok_iff, PolicyWitness.validateAgainst_ok_iff]
    simp only [same.leaves]
  rcases witness.validateAgainst_cases left with matched | mismatch
  · rw [matched, iff.mp matched]
  · rcases witness.validateAgainst_cases right with matched' | mismatch'
    · exact absurd (mismatch.symm.trans (iff.mpr matched')) (by simp)
    · rw [mismatch, mismatch']

section Overflow

/-- A threshold that nothing meets, told apart by its limit. -/
def unmet (limit : ℕ) : Policy := .threshold ⟨2⟩ [.amountAtMost ⟨UInt64.ofNat limit⟩]

def unmets (start count : ℕ) : List Policy := (List.range' start count).map unmet

/-- A conjunction with a conjunction below a threshold that asks nothing. -/
def nested (inner outer : List Policy) : Policy :=
  .and (.amountAtMost ⟨0⟩ :: .threshold ⟨0⟩ [.and inner] :: outer)

/-- Two conjunctions that splice into one list of twice the length. -/
def halves (count : ℕ) : List Policy := [.and (unmets 0 count), .and (unmets count count)]

/-- A disjunction of two policies that differ in where the spliced members go. -/
def confusable (count : ℕ) : Policy := .or [nested [] (halves count), nested (halves count) []]

variable {inner outer : List Policy} {start count : ℕ}

private theorem normal_unmet (limit : ℕ) : Normal (unmet limit) :=
  .threshold _ _ (by simpa using .amountAtMost _) (List.pairwise_singleton _ _)

private theorem encode_unmet (limit : ℕ) :
    (unmet limit).encode = [1, 3, 0, 2, 0, 0, 0, 1, 1] ++ toBeBytes 8 (limit % 2 ^ 64) := by
  simp [unmet, encode, encodeNode, encodingVersion, toBeBytes]

private theorem unmets_ordered (small : start + count ≤ 2 ^ 64) : Ordered (unmets start count) := by
  refine List.pairwise_map.mpr ((List.pairwise_lt_range' 1).imp_of_mem ?_)
  intro left right first second less
  rw [List.mem_range'_1] at first second
  rw [encode_unmet, encode_unmet, Nat.mod_eq_of_lt (by omega), Nat.mod_eq_of_lt (by omega)]
  refine List.append_left_le (toBeBytes_le ?_)
  rw [Nat.mod_eq_of_lt (by norm_num; omega), Nat.mod_eq_of_lt (by norm_num; omega)]
  exact less.le

private theorem unmets_distinct (small : start + count ≤ 2 ^ 64) : ((unmets start count).map encode).Nodup := by
  rw [unmets, List.map_map]
  refine List.Nodup.map_on ?_ List.nodup_range'
  intro left first right second same
  rw [List.mem_range'_1] at first second
  rw [Function.comp_apply, Function.comp_apply, encode_unmet, encode_unmet, Nat.mod_eq_of_lt (by omega),
    Nat.mod_eq_of_lt (by omega)] at same
  exact toBeBytes_injective (by norm_num; omega) (by norm_num; omega) (List.append_cancel_left same)

private theorem unmets_apart : ∀ policy ∈ unmets start count,
    Normal policy ∧ ∀ inner, policy ≠ Combinator.and.make inner := by
  intro policy inside
  obtain ⟨limit, _, rfl⟩ := List.mem_map.mp inside
  exact ⟨normal_unmet limit, fun _ same => by cases same⟩

private theorem normal_and (wide : count ≠ 1) (small : start + count ≤ 2 ^ 64) : Normal (.and (unmets start count)) :=
  .combinator .and _ (fun policy inside => (unmets_apart policy inside).1)
    (fun policy inside => (unmets_apart policy inside).2) (unmets_ordered small) (unmets_distinct small)
    (by simpa [unmets] using wide)

private theorem normal_nested (normal : Normal (.and inner)) (small : count ≤ 2 ^ 64) :
    Normal (nested inner (unmets 0 count)) := by
  have shapes : ∀ policy ∈ unmets 0 count, ∃ rest, policy.encode = 1 :: 3 :: 0 :: 2 :: rest := by
    intro policy inside
    obtain ⟨limit, _, rfl⟩ := List.mem_map.mp inside
    exact ⟨_, encode_unmet limit⟩
  obtain ⟨cap, capped⟩ : ∃ rest, (amountAtMost ⟨0⟩).encode = 1 :: 1 :: rest := ⟨_, rfl⟩
  obtain ⟨below, threshold⟩ : ∃ rest, (Policy.threshold ⟨0⟩ [.and inner]).encode = 1 :: 3 :: 0 :: 0 :: rest :=
    ⟨_, rfl⟩
  refine .combinator .and _ ?_ ?_ ?_ ?_ (by simp)
  · intro policy inside
    rcases List.mem_cons.mp inside with rfl | inside
    · exact .amountAtMost _
    · rcases List.mem_cons.mp inside with rfl | inside
      · exact .threshold _ _ (by simpa using normal) (List.pairwise_singleton _ _)
      · exact (unmets_apart policy inside).1
  · intro policy inside
    rcases List.mem_cons.mp inside with rfl | inside
    · exact fun _ same => by cases same
    · rcases List.mem_cons.mp inside with rfl | inside
      · exact fun _ same => by cases same
      · exact (unmets_apart policy inside).2
  · refine List.pairwise_cons.mpr ⟨?_, List.pairwise_cons.mpr ⟨?_, unmets_ordered (by omega)⟩⟩
    · intro policy inside
      rcases List.mem_cons.mp inside with rfl | inside
      · rw [capped, threshold]
        exact List.le_of_lt (.cons (.rel (by decide)))
      · obtain ⟨rest, shape⟩ := shapes policy inside
        rw [capped, shape]
        exact List.le_of_lt (.cons (.rel (by decide)))
    · intro policy inside
      obtain ⟨rest, shape⟩ := shapes policy inside
      rw [threshold, shape]
      exact List.le_of_lt (.cons (.cons (.cons (.rel (by decide)))))
  · rw [List.map_cons, List.map_cons, List.nodup_cons, List.nodup_cons]
    refine ⟨?_, ?_, unmets_distinct (by omega)⟩
    · intro listed
      rcases List.mem_cons.mp listed with same | listed
      · rw [capped, threshold] at same
        simp at same
      · obtain ⟨policy, inside, same⟩ := List.mem_map.mp listed
        obtain ⟨rest, shape⟩ := shapes policy inside
        rw [capped, shape] at same
        simp at same
    · intro listed
      obtain ⟨policy, inside, same⟩ := List.mem_map.mp listed
      obtain ⟨rest, shape⟩ := shapes policy inside
      rw [threshold, shape] at same
      simp at same

/-- Normalization splices the two halves wherever they stand. -/
private theorem halves_pieces (wide : count ≠ 1) (small : count + count ≤ 2 ^ 64) :
    ((halves count).map normalizeNode).flatMap (flattenInto Combinator.and.tag) = unmets 0 (count + count) := by
  have first := (@normal_and 0 count wide (by omega)).normalizeNode_eq
  have second := (@normal_and count count wide (by omega)).normalizeNode_eq
  have whole : unmets 0 (count + count) = unmets 0 count ++ unmets count count := by
    simp only [unmets, ← List.range'_append_1, List.map_append, Nat.zero_add]
  rw [halves, List.map_cons, List.map_singleton, first, second, whole]
  simp [flattenInto, Combinator.tag]

private theorem normalizeNode_nested {members rest : List Policy} (normal : Normal (.and inner))
    (normal' : Normal (nested inner outer))
    (pieces : (members.map normalizeNode).flatMap (flattenInto Combinator.and.tag) = inner)
    (pieces' : (rest.map normalizeNode).flatMap (flattenInto Combinator.and.tag) = outer) :
    (nested members rest).normalizeNode = nested inner outer := by
  have below : (and members).normalizeNode = .and inner := @normalizeNode_of_pieces .and _ _ normal pieces
  refine @normalizeNode_of_pieces .and _ _ normal' ?_
  rw [List.map_cons, List.map_cons, List.flatMap_cons, List.flatMap_cons, pieces', normalizeNode_threshold,
    List.map_singleton, below]
  rfl

/-- Member counts that overflow make the two policies share an encoding. -/
private theorem nested_encode (overflow : count % 2 ^ 32 = 0) :
    (nested [] (unmets 0 count)).encode = (nested (unmets 0 count) []).encode := by
  have size : (unmets 0 count).length = count := by simp [unmets]
  have outerCount : toBeBytes 4 (count + 1 + 1) = toBeBytes 4 2 := toBeBytes_congr (by norm_num; omega)
  have innerCount : toBeBytes 4 count = toBeBytes 4 0 := toBeBytes_congr (by norm_num; omega)
  simp [nested, encode, encodeNode, size, outerCount, innerCount]

/-- Of two members that share an encoding the first is kept. -/
private theorem normalizeNode_same {combinator : Combinator} {left right : Policy}
    (apart : ∀ inner, left.normalizeNode ≠ combinator.make inner)
    (apart' : ∀ inner, right.normalizeNode ≠ combinator.make inner)
    (shared : left.normalizeNode.encode = right.normalizeNode.encode) :
    (combinator.make [left, right]).normalizeNode = left.normalizeNode := by
  have flat : [left.normalizeNode, right.normalizeNode].flatMap (flattenInto combinator.tag) =
      [left.normalizeNode, right.normalizeNode] := flatMap_flattenInto (by simpa using ⟨apart, apart'⟩)
  have kept : [left.normalizeNode, right.normalizeNode].foldl pushUnique [] = [left.normalizeNode] := by
    simp only [List.foldl_cons, List.foldl_nil, pushUnique, List.any_nil, Bool.false_eq_true, if_false,
      List.nil_append, List.any_cons, shared, beq_self_eq_true, Bool.or_false, if_true]
  have unique : uniqueMembers combinator.tag [left.normalizeNode, right.normalizeNode] = [left.normalizeNode] := by
    rw [uniqueMembers, flat, kept]
    rfl
  rw [combinator.normalizeNode_make, List.map_cons, List.map_singleton, normalizeCombinator, unique]

/-- The disjunction of both normalizes to the first alone. -/
private theorem normalizeNode_confusable (wide : count ≠ 1) (size : count + count = 2 ^ 32) :
    (confusable count).normalizeNode = nested [] (unmets 0 (2 ^ 32)) ∧
      (nested [] (halves count)).normalizeNode = nested [] (unmets 0 (2 ^ 32)) := by
  have pieces := halves_pieces wide (by omega)
  have empty : (([] : List Policy).map normalizeNode).flatMap (flattenInto Combinator.and.tag) = unmets 0 0 := rfl
  have none : Normal (.and (unmets 0 0)) := normal_and (by decide) (by decide)
  have all : Normal (.and (unmets 0 (count + count))) := normal_and (by omega) (by omega)
  have first : (nested [] (halves count)).normalizeNode = nested [] (unmets 0 (count + count)) :=
    normalizeNode_nested none (normal_nested none (by omega)) empty pieces
  have second : (nested (halves count) []).normalizeNode = nested (unmets 0 (count + count)) [] :=
    normalizeNode_nested all (normal_nested all (Nat.zero_le _)) pieces empty
  rw [size] at first second
  refine ⟨?_, first⟩
  have shared := nested_encode (by norm_num : 2 ^ 32 % 2 ^ 32 = 0)
  rw [← first, ← second] at shared
  rw [← first]
  refine @normalizeNode_same .or _ _ ?_ ?_ shared
  · rw [first]
    exact fun _ same => by cases same
  · rw [second]
    exact fun _ same => by cases same

/-- Only the second policy, whose nested conjunction is under a threshold that asks
nothing, is ever true. -/
private theorem eval_nested (wide : count ≠ 0) (truth : PolicyLeaf → Bool)
    (capped : truth (.amountAtMost ⟨0⟩) = true) :
    (confusable count).formula.eval truth = true ∧ (nested [] (halves count)).formula.eval truth = false ∧
      (nested [] (unmets 0 (2 ^ 32))).formula.eval truth = false := by
  have never (limit : ℕ) : (unmet limit).formula.eval truth = false := by
    have few := List.countP_le_length (p := Formula.eval truth)
      (l := [(amountAtMost ⟨UInt64.ofNat limit⟩).formula])
    rw [List.length_singleton] at few
    rw [unmet, formula_threshold, Formula.eval_atLeast, decide_eq_false_iff_not]
    exact fun enough => absurd (enough.trans few) (by decide)
  have conjunction (start : ℕ) {count : ℕ} (wide : count ≠ 0) :
      (unmets start count).all (fun policy => policy.formula.eval truth) = false := by
    rw [List.all_eq_false]
    exact ⟨unmet start, List.mem_map_of_mem (List.mem_range'_1.mpr (by omega)), by simp [never]⟩
  have nested_eval (inner outer : List Policy) :
      (nested inner outer).formula.eval truth = outer.all fun policy => policy.formula.eval truth := by
    simp [nested, capped, Function.comp_def]
  refine ⟨?_, ?_, ?_⟩
  · simp [confusable, nested_eval]
  · rw [nested_eval, halves, List.all_cons, formula_and, Formula.eval_all, List.all_map]
    exact Bool.and_eq_false_imp.mpr fun held => absurd held (by simpa using conjunction 0 wide)
  · rw [nested_eval]
    exact conjunction 0 (by norm_num)

/-- An amount is all that the disjunction asks for. -/
private theorem validateAgainst_confusable (amount : AmountLimit) :
    (⟨[], some amount⟩ : PolicyWitness).validateAgainst (confusable count) = .ok () := by
  refine PolicyWitness.validateAgainst_ok_iff.mpr ⟨fun id listed => ?_, fun _ _ => ⟨amount, rfl⟩⟩
  simp [confusable, nested, halves, unmets, unmet] at listed

private theorem confusable_short (small : count < 2 ^ 32) :
    (confusable count).Short ∧ (nested [] (halves count)).Short := by
  have each (start : ℕ) : (and (unmets start count)).Short := by
    refine .and _ (by simpa [unmets] using small) fun policy inside => ?_
    obtain ⟨limit, _, rfl⟩ := List.mem_map.mp inside
    exact .threshold _ _ (by norm_num) (by simpa using .amountAtMost _)
  have halved : ∀ policy ∈ halves count, policy.Short := by simp [halves, each]
  have built {inner outer : List Policy} (first : inner.length ≤ 2 ∧ ∀ policy ∈ inner, policy.Short)
      (second : outer.length ≤ 2 ∧ ∀ policy ∈ outer, policy.Short) : (nested inner outer).Short := by
    refine .and _ (by simp only [List.length_cons]; omega) fun policy inside => ?_
    rcases List.mem_cons.mp inside with rfl | inside
    · exact .amountAtMost _
    · rcases List.mem_cons.mp inside with rfl | inside
      · exact .threshold _ _ (by norm_num) (by simpa using .and inner (by omega) first.2)
      · exact second.2 policy inside
  have outside := @built [] _ ⟨by decide, by simp⟩ ⟨by simp [halves], halved⟩
  have within := @built _ [] ⟨by simp [halves], halved⟩ ⟨by decide, by simp⟩
  exact ⟨.or _ (by norm_num) (by simpa using ⟨outside, within⟩), outside⟩

end Overflow

/-- Where a normal form is short, normalization decides the rewriting equivalence;
it is idempotent and keeps every member of a threshold. -/
theorem normalize_decides (left right : Policy) :
    (left.normalizeNode.Short ∨ right.normalizeNode.Short →
      (left.normalize = right.normalize ↔ Equivalent left right)) ∧
    (∀ normalized, left.normalize = .ok normalized → normalized.normalize = .ok normalized) ∧
    ∀ (k : ThresholdK) (members : List Policy), ∃ kept,
      (threshold k members).normalize = .ok (.threshold k kept) ∧
        kept.Perm (members.map normalizeNode) := by
  refine ⟨fun short => ?_, ?_, fun k members => ?_⟩
  · rw [normalize, normalize, Outcome.ok.injEq]
    exact normalizeNode_eq_iff short
  · intro normalized result
    cases result
    rw [normalize, left.normalizeNode_idempotent]
  · exact ⟨_, congrArg Outcome.ok (normalizeNode_threshold k members), sortByEncoding_perm _⟩

/-- A conjunction with a repeated and a nested member. -/
theorem normalize_decides_conjunction :
    Equivalent (.and [.credential (.filled 2), .and [.amountAtMost ⟨5⟩, .credential (.filled 2)]])
      (.and [.amountAtMost ⟨5⟩, .credential (.filled 2)]) :=
  ((normalize_decides _ _).1 (Or.inl (short_of_length (by decide)))).mp rfl

/-- Short member lists can splice into a longer one, whose count overflows: then
policies that are not equivalent normalize alike. -/
theorem normalize_overflow_equivalent :
    ¬ ∀ left right : Policy, left.Short → right.Short → (left.normalize = right.normalize ↔ Equivalent left right) := by
  intro decides
  obtain ⟨short, short'⟩ := @confusable_short (2 ^ 31) (by norm_num)
  obtain ⟨first, second⟩ := @normalizeNode_confusable (2 ^ 31) (by norm_num) (by norm_num)
  obtain ⟨held, missed, _⟩ := @eval_nested (2 ^ 31) (by norm_num) (fun _ => true) rfl
  have equal : (confusable (2 ^ 31)).normalize = (nested [] (halves (2 ^ 31))).normalize := by
    rw [normalize, normalize, first, second]
  have same := ((decides _ _ short short').mp equal).eval fun _ => true
  rw [held, missed] at same
  cases same

/-- Evaluating a short normal form gives the same error or the same answer. -/
theorem normalize_evaluate {policy normalized : Policy} (normalizes : policy.normalize = .ok normalized)
    (short : normalized.Short) (sha256 : Bytes → Digest) (witness : PolicyWitness) :
    AuthorizationResult.authorized <$> normalized.evaluate sha256 witness =
      AuthorizationResult.authorized <$> policy.evaluate sha256 witness := by
  cases normalizes
  have same := equivalent_normalizeNode short
  rw [authorized_evaluate, authorized_evaluate, same.eval, same.validateAgainst_eq]

/-- A threshold of two members is evaluated after sorting them. -/
theorem normalize_evaluate_threshold :
    ∃ normalized, (threshold ⟨1⟩ [.credential (credentialOf [7]), .amountAtMost ⟨5⟩]).normalize = .ok normalized ∧
      AuthorizationResult.authorized <$> normalized.evaluate PaymentAuth.sha256
          ⟨[(credentialOf [7], [7])], some ⟨9⟩⟩ = .ok true := by
  refine ⟨_, rfl, (normalize_evaluate rfl (short_of_length ?_) _ _).trans ?_⟩ <;> decide +kernel

/-- Short member lists can splice into a longer one, whose count overflows: then
normalization can turn an authorized policy into one that is not. -/
theorem normalize_overflow_evaluate :
    ¬ ∀ (witness : PolicyWitness) (policy normalized : Policy), policy.Short → policy.normalize = .ok normalized →
      AuthorizationResult.authorized <$> normalized.evaluate PaymentAuth.sha256 witness =
        AuthorizationResult.authorized <$> policy.evaluate PaymentAuth.sha256 witness := by
  intro preserves
  have same := preserves ⟨[], some ⟨0⟩⟩ _ _ (@confusable_short (2 ^ 31) (by norm_num)).1 rfl
  obtain ⟨held, _, missed⟩ := @eval_nested (2 ^ 31) (by norm_num)
    (leafSatisfied PaymentAuth.sha256 ⟨[], some ⟨0⟩⟩) (by decide)
  rw [(@normalizeNode_confusable (2 ^ 31) (by norm_num) (by norm_num)).1, authorized_evaluate, authorized_evaluate,
    held, missed, validateAgainst_confusable] at same
  obtain ⟨_, _, impossible⟩ := Outcome.map_ok_iff.mp same
  cases impossible

end Policy

end PaymentAuth
