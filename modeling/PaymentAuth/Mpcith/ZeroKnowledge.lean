import Mathlib.Tactic.LinearCombination
import PaymentAuth.Mpcith.Completeness

/-! Zero knowledge of one repetition: two witnesses with the same outputs leave the
same opened views, once the draws behind the hidden party's shares are corrected. -/

namespace PaymentAuth.Mpcith

open Library

/-- Sharings that agree outside the hidden party differ by what they open to. -/
theorem Shares.hidden_sub {hidden : PartyId} {shares shares' : Shares}
    (same : ∀ p ≠ hidden, shares p = shares' p) :
    shares hidden - shares' hidden = shares.total - shares'.total := by
  match hidden with
  | 0 => rw [total, total, same 1 (by decide), same 2 (by decide)]; ring
  | 1 => rw [total, total, same 0 (by decide), same 2 (by decide)]; ring
  | 2 => rw [total, total, same 0 (by decide), same 1 (by decide)]; ring

namespace JointData

/-- Two joint executions whose difference only the hidden party's shares carry. -/
structure Conceals (circuit : Circuit FieldElement) (hidden : PartyId) (data data' : JointData)
    (value value' : ℕ → NodeVal Shares) : Prop where
  inputs : ∀ i < circuit.numSecretInputs, ∀ p ≠ hidden, data.inputs i p = data'.inputs i p
  a : ∀ t < circuit.tripleCount, ∀ p ≠ hidden, (data.triples t).a p = (data'.triples t).a p
  b : ∀ t < circuit.tripleCount, ∀ p ≠ hidden, (data.triples t).b p = (data'.triples t).b p
  c : ∀ t < circuit.tripleCount, ∀ p ≠ hidden, (data.triples t).c p = (data'.triples t).c p
  factors : ∀ (n : ℕ) (left right : NodeId), circuit.nodes[n]? = some (.mul left right) →
    circuit.isSharedMul n = true →
    (data.triples (circuit.tripleRank n)).a hidden - (data'.triples (circuit.tripleRank n)).a hidden =
        (value left.asUsize).reveal - (value' left.asUsize).reveal ∧
      (data.triples (circuit.tripleRank n)).b hidden - (data'.triples (circuit.tripleRank n)).b hidden =
        (value right.asUsize).reveal - (value' right.asUsize).reveal

namespace Conceals

variable {circuit : Circuit FieldElement} {hidden : PartyId} {data data' : JointData}
  {value value' : ℕ → NodeVal Shares} {publics : ℕ → FieldElement}

/-- A factor's mask contribution is the same for every party, the hidden one included. -/
private theorem contribution_eq {factor factor' : NodeVal Shares} {mask mask' : Shares}
    (kind : factor.isShared = true) (kind' : factor'.isShared = true)
    (same : ∀ p ≠ hidden, factor.ofParty p = factor'.ofParty p) (masks : ∀ p ≠ hidden, mask p = mask' p)
    (difference : mask hidden - mask' hidden = factor.reveal - factor'.reveal) (p : PartyId) :
    operand factor p - mask p = operand factor' p - mask' p := by
  cases factor with
  | plain x => cases kind
  | shared x =>
    cases factor' with
    | plain y => cases kind'
    | shared y =>
      have agree : ∀ p ≠ hidden, x p = y p := fun p shown => NodeVal.shared.inj (same p shown)
      simp only [operand]
      by_cases shown : p = hidden
      · subst shown
        have both := Shares.hidden_sub agree
        simp only [NodeVal.reveal] at difference
        linear_combination both - difference
      · rw [agree p shown, masks p shown]

/-- Both executions open the same masks at a node whose operands agree. -/
private theorem contributions_eq (conceals : Conceals circuit hidden data data' value value')
    (valid : circuit.WellFormed) (solved : circuit.Solves (data.meaning circuit publics) value)
    (solved' : circuit.Solves (data'.meaning circuit publics) value') {n : ℕ} {left right : NodeId}
    (found : circuit.nodes[n]? = some (.mul left right)) (here : circuit.isSharedMul n = true)
    (sameLeft : ∀ p ≠ hidden, (value left.asUsize).ofParty p = (value' left.asUsize).ofParty p)
    (sameRight : ∀ p ≠ hidden, (value right.asUsize).ofParty p = (value' right.asUsize).ofParty p)
    (p : PartyId) :
    operand (value left.asUsize) p - (data.triples (circuit.tripleRank n)).a p =
        operand (value' left.asUsize) p - (data'.triples (circuit.tripleRank n)).a p ∧
      operand (value right.asUsize) p - (data.triples (circuit.tripleRank n)).b p =
        operand (value' right.asUsize) p - (data'.triples (circuit.tripleRank n)).b p := by
  have bound := (List.getElem?_eq_some_iff.mp found).1
  have below : circuit.tripleRank n < circuit.tripleCount := rank_lt here bound
  obtain ⟨earlierLeft, earlierRight⟩ := valid.operands n _ left right found rfl
  have both : circuit.dependsOnSecrets left.asUsize = true ∧ circuit.dependsOnSecrets right.asUsize = true := by
    simpa [Circuit.isSharedMul, found] using here
  have kind {k : ℕ} (small : k < circuit.nodes.length) : (value k).isShared = circuit.dependsOnSecrets k :=
    isShared_eq valid solved small
  have kind' {k : ℕ} (small : k < circuit.nodes.length) : (value' k).isShared = circuit.dependsOnSecrets k :=
    isShared_eq valid solved' small
  obtain ⟨first, second⟩ := conceals.factors n left right found here
  constructor
  · exact contribution_eq ((kind (by omega)).trans both.1) ((kind' (by omega)).trans both.1) sameLeft
      (conceals.a _ below) first p
  · exact contribution_eq ((kind (by omega)).trans both.2) ((kind' (by omega)).trans both.2) sameRight
      (conceals.b _ below) second p

private theorem masksAt_eq (conceals : Conceals circuit hidden data data' value value')
    (valid : circuit.WellFormed) (solved : circuit.Solves (data.meaning circuit publics) value)
    (solved' : circuit.Solves (data'.meaning circuit publics) value') {n : ℕ} {left right : NodeId}
    (found : circuit.nodes[n]? = some (.mul left right)) (here : circuit.isSharedMul n = true)
    (sameLeft : ∀ p ≠ hidden, (value left.asUsize).ofParty p = (value' left.asUsize).ofParty p)
    (sameRight : ∀ p ≠ hidden, (value right.asUsize).ofParty p = (value' right.asUsize).ofParty p) :
    data.masksAt circuit value n = data'.masksAt circuit value' n := by
  have each := conceals.contributions_eq valid solved solved' found here sameLeft sameRight
  simp only [masksAt, found, SharedTriple.masks, (each _).1, (each _).2]

/-- The opened parties hold the same values in both executions. -/
theorem ofParty_eq (conceals : Conceals circuit hidden data data' value value')
    (valid : circuit.WellFormed) (solved : circuit.Solves (data.meaning circuit publics) value)
    (solved' : circuit.Solves (data'.meaning circuit publics) value') {n : ℕ}
    (bound : n < circuit.nodes.length) :
    ∀ p ≠ hidden, (value n).ofParty p = (value' n).ofParty p := by
  have held := ofParty_solves valid solved
  have held' := ofParty_solves valid solved'
  refine valid.node_induction (fun n => ∀ p ≠ hidden, (value n).ofParty p = (value' n).ofParty p)
    ?secretInput ?publicInput ?constant ?add ?mul bound
  case secretInput =>
    intro n found p shown
    have same := conceals.inputs _ (valid.secretRank_lt found) p shown
    exact (held p n _ found).trans ((congrArg NodeVal.shared same).trans (held' p n _ found).symm)
  case publicInput => exact fun n found p _ => (held p n _ found).trans (held' p n _ found).symm
  case constant => exact fun n _ found p _ => (held p n _ found).trans (held' p n _ found).symm
  case add =>
    intro n left right found sameLeft sameRight p shown
    refine (held p n _ found).trans (Eq.trans ?_ (held' p n _ found).symm)
    simp only [Interpretation.rule, PartyData.meaning, sameLeft p shown, sameRight p shown]
    rfl
  case mul =>
    intro n left right found sameLeft sameRight p shown
    have bound := (List.getElem?_eq_some_iff.mp found).1
    refine (held p n _ found).trans (Eq.trans ?_ (held' p n _ found).symm)
    simp only [Interpretation.rule, PartyData.meaning, sameLeft p shown, sameRight p shown]
    cases here : circuit.isSharedMul n with
    | true =>
      have below : circuit.tripleRank n < circuit.tripleCount := rank_lt here bound
      have masks := conceals.masksAt_eq valid solved solved' found here sameLeft sameRight
      have product : (data.partyData circuit value p).product (circuit.tripleRank n) =
          (data'.partyData circuit value' p).product (circuit.tripleRank n) := by
        simp only [PartyData.product, partyData_masks here bound, masks]
        simp only [partyData, conceals.a _ below p shown, conceals.b _ below p shown,
          conceals.c _ below p shown]
        rfl
      rw [product]
    | false =>
      obtain ⟨earlierLeft, earlierRight⟩ := valid.operands n _ left right found rfl
      have kindLeft := isShared_eq valid solved' (show left.asUsize < circuit.nodes.length by omega)
      have kindRight := isShared_eq valid solved' (show right.asUsize < circuit.nodes.length by omega)
      simp only [Circuit.isSharedMul, found, ← kindLeft, ← kindRight] at here
      cases leftValue : value' left.asUsize <;> cases rightValue : value' right.asUsize <;>
        simp_all [NodeVal.isShared, NodeVal.ofParty, PartyData.mulValue]

/-- An opened party's computation reads the same data in both executions. -/
private theorem agrees (conceals : Conceals circuit hidden data data' value value')
    (valid : circuit.WellFormed) (solved : circuit.Solves (data.meaning circuit publics) value)
    (solved' : circuit.Solves (data'.meaning circuit publics) value') {p : PartyId} (shown : p ≠ hidden) :
    (data.partyData circuit value p).Agrees circuit (data'.partyData circuit value' p) where
  party := rfl
  inputs i small := conceals.inputs i small p shown
  triples t small := by
    simp only [partyData, conceals.a t small p shown, conceals.b t small p shown, conceals.c t small p shown]
  masks t small := by
    obtain ⟨n, bound, here, rfl⟩ := exists_rank_eq small
    have found := List.getElem?_eq_getElem bound
    rw [show rank circuit.isSharedMul n = circuit.tripleRank n from rfl, partyData_masks here bound,
      partyData_masks here bound]
    cases shape : circuit.nodes[n] with
    | mul left right =>
      rw [shape] at found
      obtain ⟨earlierLeft, earlierRight⟩ := valid.operands n _ left right found rfl
      exact conceals.masksAt_eq valid solved solved' found here
        (conceals.ofParty_eq valid solved solved' (by omega))
        (conceals.ofParty_eq valid solved solved' (by omega))
    | _ => simp [Circuit.isSharedMul, found, shape] at here

/-- Every party, the hidden one included, broadcasts the same mask contributions. -/
private theorem openedAt_eq (conceals : Conceals circuit hidden data data' value value')
    (valid : circuit.WellFormed) (solved : circuit.Solves (data.meaning circuit publics) value)
    (solved' : circuit.Solves (data'.meaning circuit publics) value') {n : ℕ}
    (bound : n < circuit.nodes.length) (here : circuit.isSharedMul n = true) (p : PartyId) :
    (data.partyData circuit value p).openedAt circuit (fun n => (value n).ofParty p) n =
      (data'.partyData circuit value' p).openedAt circuit (fun n => (value' n).ofParty p) n := by
  have found := List.getElem?_eq_getElem bound
  cases shape : circuit.nodes[n] with
  | mul left right =>
    rw [shape] at found
    obtain ⟨earlierLeft, earlierRight⟩ := valid.operands n _ left right found rfl
    have each := conceals.contributions_eq valid solved solved' found here
      (conceals.ofParty_eq valid solved solved' (by omega))
      (conceals.ofParty_eq valid solved solved' (by omega)) p
    have held (v : NodeVal Shares) : (v.ofParty p).asField = operand v p := by
      cases v <;> rfl
    simp only [PartyData.openedAt, found, held]
    exact Prod.ext each.1 each.2
  | _ => simp [Circuit.isSharedMul, found, shape] at here

theorem openedValues_eq (conceals : Conceals circuit hidden data data' value value')
    (valid : circuit.WellFormed) (solved : circuit.Solves (data.meaning circuit publics) value)
    (solved' : circuit.Solves (data'.meaning circuit publics) value') (p : PartyId) :
    (data.partyStateAt circuit value circuit.nodes.length p).openedValues =
      (data'.partyStateAt circuit value' circuit.nodes.length p).openedValues := by
  refine List.flatMap_congr fun n member => ?_
  obtain ⟨below, here⟩ := List.mem_filter.mp member
  simp only [conceals.openedAt_eq valid solved solved' (List.mem_range.mp below) here p]

/-- An opened party records the same view in both executions. -/
theorem partyStateAt_eq (conceals : Conceals circuit hidden data data' value value')
    (valid : circuit.WellFormed) (solved : circuit.Solves (data.meaning circuit publics) value)
    (solved' : circuit.Solves (data'.meaning circuit publics) value') {p : PartyId} (shown : p ≠ hidden) :
    data.partyStateAt circuit value circuit.nodes.length p =
      data'.partyStateAt circuit value' circuit.nodes.length p := by
  have agrees := conceals.agrees valid solved solved' shown
  have opened := conceals.openedValues_eq valid solved solved' p
  simp only [partyStateAt, PartyState.mk.injEq] at opened ⊢
  refine ⟨?_, ?_, ?_, opened⟩
  · refine List.map_congr_left fun i member => ?_
    exact conceals.inputs i (List.mem_range.mp member) p shown
  · refine List.map_congr_left fun n member => ?_
    obtain ⟨below, records⟩ := List.mem_filter.mp member
    rw [agrees.operationAt_eq valid (ofParty_solves valid solved p) (List.mem_range.mp below) records]
    exact PartyData.operationAt_congr valid _ (List.mem_range.mp below) fun k small =>
      conceals.ofParty_eq valid solved solved' small p shown
  · refine List.map_congr_left fun t member => ?_
    exact agrees.triples t (List.mem_range.mp member)

end Conceals

end JointData

/-- How far the values behind a repetition's draws move: its inputs by input order
and the factors of its Beaver products by multiplication order. -/
structure Drift where
  inputs : ℕ → FieldElement
  factors : ℕ → FieldElement × FieldElement

namespace Drift

def reverse (drift : Drift) : Drift where
  inputs i := -drift.inputs i
  factors t := (-(drift.factors t).1, -(drift.factors t).2)

/-- What each draw of a repetition has to change by. A drawn triple moves with its
factors; of the two draws behind a sharing only the hidden party's moves, and
neither does when the hidden party's share is the derived one. -/
def correction (drift : Drift) (hidden : PartyId) (drawn inputs : ℕ) (elements : ℕ → FieldElement)
    (k : ℕ) : FieldElement :=
  if k < drawn then 0
  else if k < drawn + 2 * inputs then
    if (k - drawn) % 2 = hidden.val then drift.inputs ((k - drawn) / 2) else 0
  else
    let offset := k - (drawn + 2 * inputs)
    let (x, y) := drift.factors (offset / 8)
    if offset % 8 = 0 then x
    else if offset % 8 = 1 then y
    else if offset % 8 % 2 ≠ hidden.val then 0
    else if offset % 8 / 2 = 1 then x
    else if offset % 8 / 2 = 2 then y
    else
      let a := elements (drawn + 2 * inputs + 8 * (offset / 8))
      let b := elements (drawn + 2 * inputs + 8 * (offset / 8) + 1)
      (a + x) * (b + y) - a * b

variable {drift : Drift} {hidden : PartyId} {drawn inputs : ℕ} {elements : ℕ → FieldElement}

theorem reverse_reverse (drift : Drift) : drift.reverse.reverse = drift := by
  simp [reverse]

theorem correction_input {i j : ℕ} (small : i < inputs) (side : j < 2) :
    drift.correction hidden drawn inputs elements (drawn + 2 * i + j) =
      if j = hidden.val then drift.inputs i else 0 := by
  have offset : drawn + 2 * i + j - drawn = 2 * i + j := by omega
  rw [correction, if_neg (by omega), if_pos (by omega), offset, show (2 * i + j) % 2 = j by omega,
    show (2 * i + j) / 2 = i by omega]

/-- The correction of the draw at offset `j` of a triple. -/
theorem correction_triple {t j : ℕ} (side : j < 8) :
    drift.correction hidden drawn inputs elements (drawn + 2 * inputs + 8 * t + j) =
      if j = 0 then (drift.factors t).1
      else if j = 1 then (drift.factors t).2
      else if j % 2 ≠ hidden.val then 0
      else if j / 2 = 1 then (drift.factors t).1
      else if j / 2 = 2 then (drift.factors t).2
      else
        (elements (drawn + 2 * inputs + 8 * t) + (drift.factors t).1) *
            (elements (drawn + 2 * inputs + 8 * t + 1) + (drift.factors t).2) -
          elements (drawn + 2 * inputs + 8 * t) * elements (drawn + 2 * inputs + 8 * t + 1) := by
  have offset : drawn + 2 * inputs + 8 * t + j - (drawn + 2 * inputs) = 8 * t + j := by omega
  rw [correction, if_neg (by omega), if_neg (by omega)]
  simp only [offset, show (8 * t + j) % 8 = j by omega, show (8 * t + j) / 8 = t by omega]

/-- Correcting by the reverse drift takes a correction back. -/
private theorem correction_reverse (k : ℕ) :
    drift.reverse.correction hidden drawn inputs
        (fun k => elements k + drift.correction hidden drawn inputs elements k) k =
      -drift.correction hidden drawn inputs elements k := by
  by_cases before : k < drawn
  · simp [correction, before]
  · by_cases input : k < drawn + 2 * inputs
    · obtain ⟨i, j, side, rfl⟩ : ∃ i j, j < 2 ∧ k = drawn + 2 * i + j :=
        ⟨(k - drawn) / 2, (k - drawn) % 2, Nat.mod_lt _ (by omega), by omega⟩
      rw [correction_input (by omega) side, correction_input (by omega) side, reverse]
      split <;> simp
    · obtain ⟨t, j, side, rfl⟩ : ∃ t j, j < 8 ∧ k = drawn + 2 * inputs + 8 * t + j :=
        ⟨(k - (drawn + 2 * inputs)) / 8, (k - (drawn + 2 * inputs)) % 8, Nat.mod_lt _ (by omega), by omega⟩
      have first : drift.correction hidden drawn inputs elements (drawn + 2 * inputs + 8 * t) =
          (drift.factors t).1 := correction_triple (j := 0) (by omega)
      have second : drift.correction hidden drawn inputs elements (drawn + 2 * inputs + 8 * t + 1) =
          (drift.factors t).2 := correction_triple (by omega)
      rw [correction_triple side, correction_triple side, first, second, reverse]
      split_ifs <;> simp

/-- The corrected tapes of a repetition, one for each tape. -/
def correct (drift : Drift) (hidden : PartyId) (drawn inputs : ℕ) : Tape ≃ Tape where
  toFun tape := { tape with
    elements := fun k => tape.elements k + drift.correction hidden drawn inputs tape.elements k }
  invFun tape := { tape with
    elements := fun k => tape.elements k + drift.reverse.correction hidden drawn inputs tape.elements k }
  left_inv tape := by
    simp only [correction_reverse, add_neg_cancel_right]
  right_inv tape := by
    have back (k : ℕ) := @correction_reverse drift.reverse hidden drawn inputs tape.elements k
    rw [reverse_reverse] at back
    simp only [back, add_neg_cancel_right]

/-- A sharing whose draws are corrected by what its value moves by moves in the
hidden party's share alone. -/
private theorem sharesAt_correct {tape tape' : Tape} {position : ℕ} {value value' moved : FieldElement}
    (whole : value' = value + moved)
    (side : ∀ j < 2, tape'.elements (position + j) =
      tape.elements (position + j) + if j = hidden.val then moved else 0) (p : PartyId) :
    sharesAt tape' position value' p =
      sharesAt tape position value p + if p = hidden then moved else 0 := by
  have first := side 0 (by omega)
  have second := side 1 (by omega)
  rw [Nat.add_zero] at first
  match hidden, p with
  | 0, 0 | 0, 1 | 0, 2 | 1, 0 | 1, 1 | 1, 2 | 2, 0 | 2, 1 | 2, 2 =>
    simp [sharesAt, whole, first, second] <;> ring

theorem correct_input (tape : Tape) {i j : ℕ} (small : i < inputs) (side : j < 2) :
    (drift.correct hidden drawn inputs tape).elements (drawn + 2 * i + j) =
      tape.elements (drawn + 2 * i + j) + if j = hidden.val then drift.inputs i else 0 :=
  congrArg (tape.elements (drawn + 2 * i + j) + ·) (correction_input small side)

theorem correct_triple (tape : Tape) {t j : ℕ} (side : j < 8) :
    (drift.correct hidden drawn inputs tape).elements (drawn + 2 * inputs + 8 * t + j) =
      tape.elements (drawn + 2 * inputs + 8 * t + j) +
        if j = 0 then (drift.factors t).1
        else if j = 1 then (drift.factors t).2
        else if j % 2 ≠ hidden.val then 0
        else if j / 2 = 1 then (drift.factors t).1
        else if j / 2 = 2 then (drift.factors t).2
        else
          (tape.elements (drawn + 2 * inputs + 8 * t) + (drift.factors t).1) *
              (tape.elements (drawn + 2 * inputs + 8 * t + 1) + (drift.factors t).2) -
            tape.elements (drawn + 2 * inputs + 8 * t) * tape.elements (drawn + 2 * inputs + 8 * t + 1) :=
  congrArg (tape.elements (drawn + 2 * inputs + 8 * t + j) + ·) (correction_triple side)

/-- A corrected triple moves with its factors, in the hidden party's shares alone. -/
theorem tripleAt_correct (tape : Tape) (t : ℕ) (p : PartyId) :
    let triple := tripleAt tape (drawn + 2 * inputs + 8 * t)
    let corrected := tripleAt (drift.correct hidden drawn inputs tape) (drawn + 2 * inputs + 8 * t)
    corrected.a p = triple.a p + (if p = hidden then (drift.factors t).1 else 0) ∧
      corrected.b p = triple.b p + (if p = hidden then (drift.factors t).2 else 0) ∧
      (p ≠ hidden → corrected.c p = triple.c p) := by
  have a : (drift.correct hidden drawn inputs tape).elements (drawn + 2 * inputs + 8 * t) =
      tape.elements (drawn + 2 * inputs + 8 * t) + (drift.factors t).1 := correct_triple tape (j := 0) (by omega)
  have b : (drift.correct hidden drawn inputs tape).elements (drawn + 2 * inputs + 8 * t + 1) =
      tape.elements (drawn + 2 * inputs + 8 * t + 1) + (drift.factors t).2 := correct_triple tape (by omega)
  have offset (first : ℕ) {j : ℕ} (even : first % 2 = 0) (small : j < 2) : (first + j) % 2 = j := by omega
  refine ⟨sharesAt_correct a (fun j side => ?_) p, sharesAt_correct b (fun j side => ?_) p, fun shown => ?_⟩
  · rw [Nat.add_assoc _ 2 j, correct_triple tape (by omega), if_neg (by omega), if_neg (by omega),
      offset 2 rfl side, show (2 + j) / 2 = 1 by omega]
    simp only [ne_eq, ite_not, if_true]
  · rw [Nat.add_assoc _ 4 j, correct_triple tape (by omega), if_neg (by omega), if_neg (by omega),
      offset 4 rfl side, show (4 + j) / 2 = 2 by omega]
    simp only [ne_eq, ite_not, if_true, OfNat.ofNat_ne_one, if_false]
  · have whole := congrArg₂ (· * ·) a b
    refine (sharesAt_correct (whole.trans (add_sub_cancel _ _).symm) (fun j side => ?_) p).trans
      (by rw [if_neg shown, add_zero]; rfl)
    rw [Nat.add_assoc _ 6 j, correct_triple tape (by omega), if_neg (by omega), if_neg (by omega),
      offset 6 rfl side, show (6 + j) / 2 = 3 by omega]
    simp only [ne_eq, ite_not, OfNat.ofNat_ne_one, Nat.reduceEqDiff, if_false]

end Drift

/-- The drift from one witness to another: the change of each input and of the
plaintext factors of each Beaver product. -/
def Drift.between (circuit : Circuit FieldElement) (publics : ℕ → FieldElement)
    (witness witness' : List FieldElement) : Drift where
  inputs i := inputAt witness' i - inputAt witness i
  factors t :=
    let change (n : ℕ) := circuit.valueOf (circuit.plaintext (inputAt witness') publics) 0 n -
      circuit.valueOf (circuit.plaintext (inputAt witness) publics) 0 n
    match (marked circuit.isSharedMul circuit.nodes.length)[t]? with
    | none => (0, 0)
    | some n =>
      match circuit.nodes[n]? with
      | some (.mul left right) => (change left.asUsize, change right.asUsize)
      | _ => (0, 0)

theorem Drift.between_factors {circuit : Circuit FieldElement} {publics : ℕ → FieldElement}
    {witness witness' : List FieldElement} {n : ℕ} {left right : NodeId}
    (found : circuit.nodes[n]? = some (.mul left right)) (here : circuit.isSharedMul n = true) :
    let change (n : ℕ) := circuit.valueOf (circuit.plaintext (inputAt witness') publics) 0 n -
      circuit.valueOf (circuit.plaintext (inputAt witness) publics) 0 n
    (between circuit publics witness witness').factors (circuit.tripleRank n) =
      (change left.asUsize, change right.asUsize) := by
  have entry := marked_getElem? here (List.getElem?_eq_some_iff.mp found).1
  simp only [between, Circuit.tripleRank, entry, found]

/-- Draws outside a repetition's own are not corrected. -/
theorem Drift.between_outside {circuit : Circuit FieldElement} {publics : ℕ → FieldElement}
    {witness witness' : List FieldElement} {hidden : PartyId} {drawn inputs k : ℕ} (tape : Tape)
    (outside : k < drawn ∨ drawn + 2 * inputs + 8 * circuit.tripleCount ≤ k) :
    (((between circuit publics witness witness').correct hidden drawn inputs tape).elements k) =
      tape.elements k := by
  by_cases before : k < drawn
  · simp [correct, correction, before]
  · have past : drawn + 2 * inputs + 8 * circuit.tripleCount ≤ k := by omega
    obtain ⟨t, j, side, rfl⟩ : ∃ t j, j < 8 ∧ k = drawn + 2 * inputs + 8 * t + j :=
      ⟨(k - (drawn + 2 * inputs)) / 8, (k - (drawn + 2 * inputs)) % 8, Nat.mod_lt _ (by omega), by omega⟩
    have none : (marked circuit.isSharedMul circuit.nodes.length)[t]? = none :=
      List.getElem?_eq_none (show circuit.tripleCount ≤ t by omega)
    rw [correct_triple tape side]
    simp [between, none]

/-- One repetition under a challenge fixed in advance. -/
def MpcithProver.repetition (backend : CryptoBackend) (prover : MpcithProver) (id : RepetitionId)
    (challenge : Challenge) (rng : Rng) : Outcome MpcithError Repetition := do
  let (committed, _) ← prover.commitRepetition backend id rng
  finishRepetition committed challenge

/-- A repetition less the commitment to the hidden party's view. -/
def Repetition.withoutHiddenCommitment (repetition : Repetition) : Repetition :=
  { repetition with
    commitments := repetition.commitments.eraseIdx repetition.challenge.hiddenParty.val }

namespace MpcithProver

variable {prover : MpcithProver} {backend : CryptoBackend}

/-- A repetition either commits all three simulated views or aborts on their length. -/
theorem repetition_eq (valid : prover.circuit.WellFormed)
    (witnessCount : prover.witness.length = prover.circuit.numSecretInputs)
    (publicInputs : prover.statement.publicInputs.length = prover.circuit.numPublicInputs)
    (backend : CryptoBackend) (id : RepetitionId) (challenge : Challenge) (rng : Rng) :
    prover.repetition backend id challenge rng =
      if ∀ p, commitmentSize prover.circuit p < 2 ^ 32 then
        finishRepetition (prover.honestPartial id rng (prover.honestCommitment backend id rng)) challenge
      else .aborted := by
  have each (p : PartyId) := commitView_honestView valid backend id rng p
  rw [repetition, commitRepetition_eq valid witnessCount publicInputs,
    show commitView _ _ (rng.tape.fills rng.filled) = _ from each 0,
    show commitView _ _ (rng.tape.fills (rng.filled + 1)) = _ from each 1,
    show commitView _ _ (rng.tape.fills (rng.filled + 2)) = _ from each 2]
  have large (p : PartyId) (exceeds : ¬commitmentSize prover.circuit p < 2 ^ 32) :
      ¬∀ p, commitmentSize prover.circuit p < 2 ^ 32 := fun sizes => exceeds (sizes p)
  by_cases first : commitmentSize prover.circuit 0 < 2 ^ 32
  · by_cases second : commitmentSize prover.circuit 1 < 2 ^ 32
    · by_cases third : commitmentSize prover.circuit 2 < 2 ^ 32
      · have sizes (p : PartyId) : commitmentSize prover.circuit p < 2 ^ 32 := by
          match p with
          | 0 => exact first
          | 1 => exact second
          | 2 => exact third
        rw [if_pos first, if_pos second, if_pos third, if_pos sizes]
        rfl
      · rw [if_pos first, if_pos second, if_neg third, if_neg (large 2 third)]
        rfl
    · rw [if_pos first, if_neg second, if_neg (large 1 second)]
      rfl
  · rw [if_neg first, if_neg (large 0 first)]
    rfl

section Witnesses

variable {circuit : Circuit FieldElement} {statement : Statement} {witness witness' : List FieldElement}
  {hidden : PartyId}

/-- Under a corrected tape the other witness's joint execution differs from the
first one's in the hidden party's shares alone. -/
theorem conceals_between (valid : circuit.WellFormed)
    (witnessCount : witness.length = circuit.numSecretInputs)
    (witnessCount' : witness'.length = circuit.numSecretInputs) (tape : Tape) (drawn filled : ℕ) :
    let drift := Drift.between circuit (inputAt statement.publicInputs) witness witness'
    let corrected := drift.correct hidden drawn circuit.numSecretInputs tape
    JointData.Conceals circuit hidden (drawnData witness ⟨tape, drawn, filled⟩)
      (drawnData witness' ⟨corrected, drawn, filled⟩)
      (execution ⟨circuit, statement, witness⟩ ⟨tape, drawn, filled⟩)
      (execution ⟨circuit, statement, witness'⟩ ⟨corrected, drawn, filled⟩) := by
  intro drift corrected
  have input (i : ℕ) (small : i < circuit.numSecretInputs) (p : PartyId) :
      sharesAt corrected (drawn + 2 * i) (inputAt witness' i) p =
        sharesAt tape (drawn + 2 * i) (inputAt witness i) p + if p = hidden then drift.inputs i else 0 :=
    Drift.sharesAt_correct (add_sub_cancel _ _).symm
      (fun j side => Drift.correct_input tape small side) p
  have triple (t : ℕ) (p : PartyId) :=
    @Drift.tripleAt_correct drift hidden drawn circuit.numSecretInputs tape t p
  have reveal (own : List FieldElement) (tape : Tape) {k : ℕ} (small : k < circuit.nodes.length) :
      (execution ⟨circuit, statement, own⟩ ⟨tape, drawn, filled⟩ k).reveal =
        circuit.valueOf (circuit.plaintext (inputAt own) (inputAt statement.publicInputs)) 0 k :=
    (@execution_reveal ⟨circuit, statement, own⟩ valid _).unique valid
      (valid.valueOf_solves _ _) small
  refine ⟨fun i small p shown => ?_, fun t _ p shown => ?_, fun t _ p shown => ?_, fun t _ p shown => ?_,
    fun n left right found here => ?_⟩
  · simp only [drawnData, input i small p, if_neg shown, add_zero]
  · simp only [drawnData, witnessCount, witnessCount', corrected, (triple t p).1, if_neg shown, add_zero]
  · simp only [drawnData, witnessCount, witnessCount', corrected, (triple t p).2.1, if_neg shown, add_zero]
  · simp only [drawnData, witnessCount, witnessCount', corrected, (triple t p).2.2 shown]
  · have bound := (List.getElem?_eq_some_iff.mp found).1
    obtain ⟨earlierLeft, earlierRight⟩ := valid.operands n _ left right found rfl
    have moved : drift.factors (circuit.tripleRank n) = (_, _) := Drift.between_factors found here
    simp only [drawnData, witnessCount, witnessCount', corrected, (triple _ _).1, (triple _ _).2.1, moved,
      if_true, reveal _ _ (show left.asUsize < circuit.nodes.length by omega),
      reveal _ _ (show right.asUsize < circuit.nodes.length by omega)]
    constructor <;> ring

theorem eraseIdx_congr {commitments commitments' : PartyId → ViewCommitment}
    (same : ∀ p ≠ hidden, commitments p = commitments' p) :
    [commitments 0, commitments 1, commitments 2].eraseIdx hidden.val =
      [commitments' 0, commitments' 1, commitments' 2].eraseIdx hidden.val := by
  match hidden with
  | 0 => simp [same 1 (by decide), same 2 (by decide)]
  | 1 => simp [same 0 (by decide), same 2 (by decide)]
  | 2 => simp [same 0 (by decide), same 1 (by decide)]

/-- Witnesses with the same outputs leave the hidden party the same output shares. -/
theorem outputShare_eq {left right : NodeVal Shares} (kind : left.isShared = right.isShared)
    (same : ∀ p ≠ hidden, left.ofParty p = right.ofParty p) (opened : left.reveal = right.reveal) :
    left.outputShare hidden = right.outputShare hidden := by
  cases left with
  | plain x =>
    cases right with
    | plain y => rfl
    | shared y => cases kind
  | shared x =>
    cases right with
    | plain y => cases kind
    | shared y =>
      have difference := Shares.hidden_sub fun p shown => NodeVal.shared.inj (same p shown)
      rw [show x.total = y.total from opened, sub_self] at difference
      exact sub_eq_zero.mp difference

/-- Zero knowledge of one repetition, the commitment to the hidden view excepted:
for witnesses with the same outputs, correcting the tape is a bijection of tapes
under which everything the repetition shows is the same. The correction leaves the
commitment randomness and every draw of other repetitions alone. -/
theorem zero_knowledge {sha256 : Bytes → Digest} (backend : CryptoBackend)
    (validated : statement.validate sha256 circuit = .ok ())
    (witnessCount : witness.length = circuit.numSecretInputs)
    (witnessCount' : witness'.length = circuit.numSecretInputs)
    (outputs : evaluateReference circuit witness statement.publicInputs =
      evaluateReference circuit witness' statement.publicInputs)
    (id : RepetitionId) (challenge : Challenge) (drawn filled : ℕ) :
    ∃ image : Tape ≃ Tape,
      (∀ tape, (image tape).fills = tape.fills) ∧
      (∀ (tape : Tape) (k : ℕ),
        k < drawn ∨ drawn + 2 * circuit.numSecretInputs + 8 * circuit.tripleCount ≤ k →
          (image tape).elements k = tape.elements k) ∧
      ∀ tape, Repetition.withoutHiddenCommitment <$>
          repetition backend ⟨circuit, statement, witness⟩ id challenge ⟨tape, drawn, filled⟩ =
        Repetition.withoutHiddenCommitment <$>
          repetition backend ⟨circuit, statement, witness'⟩ id challenge ⟨image tape, drawn, filled⟩ := by
  obtain ⟨valid, -, publicInputs, -⟩ := Statement.validate_ok_iff.mp validated
  refine ⟨(Drift.between circuit (inputAt statement.publicInputs) witness witness').correct
    challenge.hiddenParty drawn circuit.numSecretInputs, fun _ => rfl,
    fun tape _ outside => Drift.between_outside tape outside, fun tape => ?_⟩
  let prover (own : List FieldElement) : MpcithProver := ⟨circuit, statement, own⟩
  let rng : Rng := ⟨tape, drawn, filled⟩
  let rng' : Rng := ⟨(Drift.between circuit (inputAt statement.publicInputs) witness witness').correct
    challenge.hiddenParty drawn circuit.numSecretInputs tape, drawn, filled⟩
  have conceals : JointData.Conceals circuit challenge.hiddenParty _ _ ((prover witness).execution rng)
      ((prover witness').execution rng') := conceals_between valid witnessCount witnessCount' tape drawn filled
  have solved : circuit.Solves _ ((prover witness).execution rng) := @execution_solves (prover witness) valid rng
  have solved' : circuit.Solves _ ((prover witness').execution rng') :=
    @execution_solves (prover witness') valid rng'
  have views (p : PartyId) (shown : p ≠ challenge.hiddenParty) :
      (prover witness).honestView id rng p = (prover witness').honestView id rng' p :=
    congrArg (buildView id p fun _ => ·) (conceals.partyStateAt_eq valid solved solved' shown)
  have broadcasts : ((prover witness).honestView id rng challenge.hiddenParty).openedValues =
      ((prover witness').honestView id rng' challenge.hiddenParty).openedValues :=
    conceals.openedValues_eq valid solved solved' challenge.hiddenParty
  have opened : ∀ output ∈ circuit.outputs, ((prover witness).execution rng output.asUsize).reveal =
      ((prover witness').execution rng' output.asUsize).reveal := by
    have first : evaluateReference circuit witness statement.publicInputs = _ :=
      evaluateReference_of_solves valid witnessCount publicInputs (@execution_reveal (prover witness) valid rng)
    have second : evaluateReference circuit witness' statement.publicInputs = _ :=
      evaluateReference_of_solves valid witnessCount' publicInputs (@execution_reveal (prover witness') valid rng')
    exact List.map_inj_left.mp (Outcome.ok.inj (first.symm.trans (outputs.trans second)))
  have shares : (circuit.outputs.map fun output =>
        ((prover witness).execution rng output.asUsize).outputShare challenge.hiddenParty) =
      circuit.outputs.map fun output =>
        ((prover witness').execution rng' output.asUsize).outputShare challenge.hiddenParty := by
    refine List.map_congr_left fun output member => ?_
    have bound := valid.outputs output member
    exact outputShare_eq
      ((JointData.isShared_eq valid solved bound).trans (JointData.isShared_eq valid solved' bound).symm)
      (conceals.ofParty_eq valid solved solved' bound) (opened output member)
  have first := @repetition_eq (prover witness) valid witnessCount publicInputs backend id challenge rng
  have second := @repetition_eq (prover witness') valid witnessCount' publicInputs backend id challenge rng'
  rw [first, second]
  split
  · rw [finishRepetition_eq, finishRepetition_eq, Outcome.map_ok, Outcome.map_ok]
    simp only [Repetition.withoutHiddenCommitment, response, JointData.response, Outcome.ok.injEq,
      Repetition.mk.injEq, true_and]
    refine ⟨?_, ?_, shares, broadcasts⟩
    · refine eraseIdx_congr fun p shown => ?_
      exact congrArg (fun view => backend.hash (lengthPrefixed (tape.fills (filled + p.val)).val ++
        lengthPrefixed (commitmentMessage view))) (views p shown)
    · refine List.map_congr_left fun p member => ?_
      exact congrArg (OpenedView.mk · _) (views p (PartyId.mem_others_iff.mp member))
  · rfl

/-- Two factorisations of six are told apart by nothing the repetition shows. -/
theorem zero_knowledge_product :
    ∃ image : Tape ≃ Tape, ∀ tape, Repetition.withoutHiddenCommitment <$>
        repetition (sha256Backend sha256) ⟨productCircuit, productStatement, [2, 3]⟩ ⟨0⟩ ⟨1⟩ ⟨tape, 0, 0⟩ =
      Repetition.withoutHiddenCommitment <$>
        repetition (sha256Backend sha256) ⟨productCircuit, productStatement, [6, 1]⟩ ⟨0⟩ ⟨1⟩
          ⟨image tape, 0, 0⟩ := by
  obtain ⟨image, -, -, same⟩ := @zero_knowledge productCircuit productStatement [2, 3] [6, 1] sha256
    (sha256Backend sha256) (by decide +kernel) rfl rfl (by decide +kernel) ⟨0⟩ ⟨1⟩ 0 0
  exact ⟨image, same⟩

end Witnesses

end MpcithProver

end PaymentAuth.Mpcith
