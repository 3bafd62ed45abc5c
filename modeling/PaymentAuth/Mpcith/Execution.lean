import PaymentAuth.Circuit.Dependence
import PaymentAuth.Circuit.Evaluation
import PaymentAuth.Mpcith.Verifier

/-! What one party computes in an execution: its value of every node and the
operations and mask contributions it records, as functions of its inputs, its
triples and the global masks. -/

namespace PaymentAuth.Mpcith

open Library

namespace NodeVal

variable {Share : Type}

def isShared : NodeVal Share → Bool
  | .plain _ => false
  | .shared _ => true

/-- The value one party holds of a node of the joint execution. -/
def ofParty (p : PartyId) : NodeVal Shares → NodeVal FieldElement
  | .plain value => .plain value
  | .shared shares => .shared (shares p)

@[simp] theorem isShared_ofParty (p : PartyId) (value : NodeVal Shares) :
    (value.ofParty p).isShared = value.isShared := by
  cases value <;> rfl

end NodeVal

/-- Everything a party's computation reads: its input shares by input order, its
triples and the opened masks by multiplication order. -/
structure PartyData where
  party : PartyId
  inputs : ℕ → FieldElement
  triples : ℕ → TripleShare
  masks : ℕ → FieldElement × FieldElement

namespace PartyData

/-- The share of a Beaver product; only party 0 adds the product of the masks. -/
def product (data : PartyData) (t : ℕ) : FieldElement :=
  let (d, e) := data.masks t
  (data.triples t).c + d * (data.triples t).b + e * (data.triples t).a +
    if data.party = 0 then d * e else 0

def addValue (party : PartyId) : NodeVal FieldElement → NodeVal FieldElement → NodeVal FieldElement
  | .plain x, .plain y => .plain (x + y)
  | .shared x, .shared y => .shared (x + y)
  | .shared s, .plain v | .plain v, .shared s => .shared (if party = 0 then s + v else s)

def mulValue (product : FieldElement) :
    NodeVal FieldElement → NodeVal FieldElement → NodeVal FieldElement
  | .plain x, .plain y => .plain (x * y)
  | .shared s, .plain v | .plain v, .shared s => .shared (s * v)
  | .shared _, .shared _ => .shared product

/-- The party's interpretation of the circuit. -/
def meaning (data : PartyData) (circuit : Circuit FieldElement) (publics : ℕ → FieldElement) :
    Interpretation FieldElement (NodeVal FieldElement) where
  secretInput n := .shared (data.inputs (circuit.secretRank n))
  publicInput n := .plain (publics (circuit.publicRank n))
  constant value := .plain value
  add _ va vb := addValue data.party va vb
  mul n va vb := mulValue (data.product (circuit.tripleRank n)) va vb

/-- The operation a multiplication records, when it records one. -/
def mulOperation (data : PartyData) (out : NodeId) (t : ℕ) :
    NodeVal FieldElement → NodeVal FieldElement → LocalOperation
  | .shared s, .plain v | .plain v, .shared s => .mulPublic out v (s * v)
  | _, _ => .beaverMul out t (data.masks t).1 (data.masks t).2 (data.product t)

/-- The operation a gate records under an assignment of the party's values. -/
def operationAt (data : PartyData) (circuit : Circuit FieldElement) (value : ℕ → NodeVal FieldElement)
    (n : ℕ) : LocalOperation :=
  match circuit.nodes[n]? with
  | some (.mul a b) =>
    data.mulOperation (.ofIndex n) (circuit.tripleRank n) (value a.asUsize) (value b.asUsize)
  | some (.add a b) => .add (.ofIndex n) ((value a.asUsize).asField + (value b.asUsize).asField)
  | _ => .add (.ofIndex n) 0

/-- The mask contributions a Beaver multiplication broadcasts. -/
def openedAt (data : PartyData) (circuit : Circuit FieldElement) (value : ℕ → NodeVal FieldElement)
    (n : ℕ) : FieldElement × FieldElement :=
  match circuit.nodes[n]? with
  | some (.mul a b) =>
    ((value a.asUsize).asField - (data.triples (circuit.tripleRank n)).a,
      (value b.asUsize).asField - (data.triples (circuit.tripleRank n)).b)
  | _ => (0, 0)

end PartyData

/-- Whether a party records an operation when its operands are shared as given. -/
def recordsAdd (party : PartyId) (left right : Bool) : Bool :=
  (left && right) || (decide (party = 0) && (left || right))

/-- Whether a party records an operation for a node. -/
def recordsOperation (circuit : Circuit FieldElement) (party : PartyId) (n : ℕ) : Bool :=
  match circuit.nodes[n]? with
  | some (.add a b) =>
    recordsAdd party (circuit.dependsOnSecrets a.asUsize) (circuit.dependsOnSecrets b.asUsize)
  | some (.mul a b) => circuit.dependsOnSecrets a.asUsize || circuit.dependsOnSecrets b.asUsize
  | _ => false

theorem recordsOperation_leaf {circuit : Circuit FieldElement} {n : ℕ} {node : Node FieldElement}
    (found : circuit.nodes[n]? = some node) (leaf : node.operands = none) (party : PartyId) :
    recordsOperation circuit party n = false := by
  cases node <;> cases leaf <;> simp [recordsOperation, found]

theorem recordsOperation_of_isSharedMul {circuit : Circuit FieldElement} {n : ℕ}
    (here : circuit.isSharedMul n = true) (party : PartyId) : recordsOperation circuit party n = true := by
  simp only [Circuit.isSharedMul] at here
  split at here
  · rename_i found
    simp only [Bool.and_eq_true] at here
    simp [recordsOperation, found, here.1]
  · cases here

/-- The number of operations a party records before a node. -/
def operationRank (circuit : Circuit FieldElement) (party : PartyId) (n : ℕ) : ℕ :=
  rank (recordsOperation circuit party) n

section Sharing

variable {data : PartyData} {circuit : Circuit FieldElement} {publics : ℕ → FieldElement}
  {value : ℕ → NodeVal FieldElement} {n : ℕ}

/-- A gate's value is shared when one of its operands is. -/
theorem PartyData.isShared_rule (depends : ℕ → Bool) {node : Node FieldElement}
    (operands : ∀ a b, node.operands = some (a, b) →
      (value a.asUsize).isShared = depends a.asUsize ∧ (value b.asUsize).isShared = depends b.asUsize) :
    ((data.meaning circuit publics).rule value n node).isShared =
      Circuit.dependence.rule depends n node := by
  cases node with
  | secretInput | publicInput | constant => rfl
  | add a b | mul a b =>
    obtain ⟨left, right⟩ := operands a b rfl
    simp only [Interpretation.rule, Circuit.dependence, PartyData.meaning, ← left, ← right]
    cases value a.asUsize <;> cases value b.asUsize <;> rfl

/-- Nodes are shared exactly when they depend on secret inputs. -/
theorem PartyData.isShared_eq (valid : circuit.WellFormed)
    (solved : circuit.Solves (data.meaning circuit publics) value) (bound : n < circuit.nodes.length) :
    (value n).isShared = circuit.dependsOnSecrets n := by
  have classified : circuit.Solves Circuit.dependence fun n => (value n).isShared := by
    intro n node found
    simp only [solved n node found]
    exact isShared_rule _ fun _ _ _ => ⟨rfl, rfl⟩
  exact classified.unique valid valid.dependsOnSecrets_solves bound

/-- Every party holds the same plaintext of a node that depends on no secret input. -/
theorem PartyData.value_of_public (valid : circuit.WellFormed)
    (solved : circuit.Solves (data.meaning circuit publics) value) (bound : n < circuit.nodes.length)
    (plain : circuit.dependsOnSecrets n = false) : value n = .plain (circuit.publicValue publics n) := by
  have solved' := valid.valueOf_solves (circuit.plaintext (fun _ => 0) publics) 0
  revert plain
  refine valid.node_induction
    (fun n => circuit.dependsOnSecrets n = false → value n = .plain (circuit.publicValue publics n))
    ?secretInput ?publicInput ?constant ?add ?mul bound
  case secretInput =>
    intro n found plain
    have depends : circuit.dependsOnSecrets n = true := valid.dependsOnSecrets_solves n _ found
    simp [depends] at plain
  case publicInput =>
    exact fun n found _ => (solved n _ found).trans (congrArg NodeVal.plain (solved' n _ found).symm)
  case constant =>
    exact fun n _ found _ => (solved n _ found).trans (congrArg NodeVal.plain (solved' n _ found).symm)
  case add | mul =>
    intro n a b found left right plain
    rw [valid.dependsOnSecrets_gate found rfl, Bool.or_eq_false_iff] at plain
    rw [solved n _ found, Circuit.publicValue, solved' n _ found]
    simp only [Interpretation.rule, left plain.1, right plain.2]
    rfl

/-- A Beaver multiplication records the global masks and its product. -/
theorem PartyData.operationAt_beaver (valid : circuit.WellFormed)
    (solved : circuit.Solves (data.meaning circuit publics) value) (bound : n < circuit.nodes.length)
    (here : circuit.isSharedMul n = true) :
    data.operationAt circuit value n = .beaverMul (.ofIndex n) (circuit.tripleRank n)
      (data.masks (circuit.tripleRank n)).1 (data.masks (circuit.tripleRank n)).2
      (data.product (circuit.tripleRank n)) := by
  have found := List.getElem?_eq_getElem bound
  cases shape : circuit.nodes[n] with
  | mul a b =>
    rw [shape] at found
    obtain ⟨left, right⟩ := valid.operands n _ a b found rfl
    have sharedLeft := isShared_eq valid solved (show a.asUsize < circuit.nodes.length by omega)
    have sharedRight := isShared_eq valid solved (show b.asUsize < circuit.nodes.length by omega)
    simp only [Circuit.isSharedMul, found, ← sharedLeft, ← sharedRight, Bool.and_eq_true] at here
    simp only [operationAt, found]
    cases leftValue : value a.asUsize with
    | plain x => simp [leftValue, NodeVal.isShared] at here
    | shared x =>
      cases rightValue : value b.asUsize with
      | plain y => simp [rightValue, NodeVal.isShared] at here
      | shared y => rfl
  | _ => simp [Circuit.isSharedMul, found, shape] at here

/-- What a node records reads the party's values below the end of the circuit only. -/
theorem PartyData.operationAt_congr (valid : circuit.WellFormed) (data : PartyData)
    (bound : n < circuit.nodes.length) {value' : ℕ → NodeVal FieldElement}
    (same : ∀ k < circuit.nodes.length, value k = value' k) :
    data.operationAt circuit value n = data.operationAt circuit value' n := by
  have found := List.getElem?_eq_getElem bound
  cases shape : circuit.nodes[n] with
  | secretInput | publicInput | constant => simp [operationAt, found, shape]
  | add a b | mul a b =>
    rw [shape] at found
    obtain ⟨left, right⟩ := valid.operands n _ a b found rfl
    simp only [operationAt, found, same a.asUsize (by omega), same b.asUsize (by omega)]

theorem PartyData.openedAt_congr (valid : circuit.WellFormed) (data : PartyData)
    (bound : n < circuit.nodes.length) {value' : ℕ → NodeVal FieldElement}
    (same : ∀ k < circuit.nodes.length, value k = value' k) :
    data.openedAt circuit value n = data.openedAt circuit value' n := by
  have found := List.getElem?_eq_getElem bound
  cases shape : circuit.nodes[n] with
  | mul a b =>
    rw [shape] at found
    obtain ⟨left, right⟩ := valid.operands n _ a b found rfl
    simp only [openedAt, found, same a.asUsize (by omega), same b.asUsize (by omega)]
  | _ => simp [openedAt, found, shape]

end Sharing

/-- Two descriptions of a party that agree on everything the circuit reads. -/
structure PartyData.Agrees (circuit : Circuit FieldElement) (data data' : PartyData) : Prop where
  party : data.party = data'.party
  inputs : ∀ i < circuit.numSecretInputs, data.inputs i = data'.inputs i
  triples : ∀ t < circuit.tripleCount, data.triples t = data'.triples t
  masks : ∀ t < circuit.tripleCount, data.masks t = data'.masks t

namespace PartyData.Agrees

variable {circuit : Circuit FieldElement} {data data' : PartyData} {publics : ℕ → FieldElement}
  {value : ℕ → NodeVal FieldElement} {n : ℕ}

private theorem product_eq (agrees : data.Agrees circuit data') {t : ℕ} (below : t < circuit.tripleCount) :
    data.product t = data'.product t := by
  simp only [product, agrees.triples t below, agrees.masks t below, agrees.party]

/-- At a multiplication either the triple exists or the operands are not both shared. -/
private theorem triple_or (valid : circuit.WellFormed)
    (solved : circuit.Solves (data.meaning circuit publics) value) {a b : NodeId}
    (found : circuit.nodes[n]? = some (.mul a b)) :
    circuit.tripleRank n < circuit.tripleCount ∨
      (value a.asUsize).isShared = false ∨ (value b.asUsize).isShared = false := by
  have bound := (List.getElem?_eq_some_iff.mp found).1
  obtain ⟨left, right⟩ := valid.operands n _ a b found rfl
  rw [isShared_eq valid solved (by omega), isShared_eq valid solved (by omega)]
  by_cases both : circuit.isSharedMul n = true
  · exact .inl (rank_lt both bound)
  · simp only [Circuit.isSharedMul, found, Bool.and_eq_true, not_and, Bool.not_eq_true] at both
    cases depends : circuit.dependsOnSecrets a.asUsize with
    | false => exact .inr (.inl rfl)
    | true => exact .inr (.inr (both depends))

theorem solves (agrees : data.Agrees circuit data') (valid : circuit.WellFormed)
    (solved : circuit.Solves (data.meaning circuit publics) value) :
    circuit.Solves (data'.meaning circuit publics) value := by
  intro n node found
  rw [solved n node found]
  cases node with
  | secretInput =>
    simp only [Interpretation.rule, meaning, agrees.inputs _ (valid.secretRank_lt found)]
  | publicInput | constant => rfl
  | add a b => simp only [Interpretation.rule, meaning, agrees.party]
  | mul a b =>
    simp only [Interpretation.rule, meaning]
    rcases triple_or valid solved found with below | unshared | unshared
    · rw [agrees.product_eq below]
    · cases leftValue : value a.asUsize with
      | plain x => cases value b.asUsize <;> rfl
      | shared x => simp [leftValue, NodeVal.isShared] at unshared
    · cases rightValue : value b.asUsize with
      | plain y => cases value a.asUsize <;> rfl
      | shared y => simp [rightValue, NodeVal.isShared] at unshared

/-- A recorded operation depends only on what the circuit reads. -/
theorem operationAt_eq (agrees : data.Agrees circuit data') (valid : circuit.WellFormed)
    (solved : circuit.Solves (data.meaning circuit publics) value) (bound : n < circuit.nodes.length)
    {party : PartyId} (records : recordsOperation circuit party n = true) :
    data.operationAt circuit value n = data'.operationAt circuit value n := by
  have found := List.getElem?_eq_getElem bound
  cases shape : circuit.nodes[n] with
  | secretInput | publicInput | constant => simp [recordsOperation, found, shape] at records
  | add a b => simp [operationAt, found, shape]
  | mul a b =>
    rw [shape] at found
    obtain ⟨left, right⟩ := valid.operands n _ a b found rfl
    have sharedLeft := isShared_eq valid solved (show a.asUsize < circuit.nodes.length by omega)
    have sharedRight := isShared_eq valid solved (show b.asUsize < circuit.nodes.length by omega)
    simp only [recordsOperation, found, ← sharedLeft, ← sharedRight] at records
    simp only [operationAt, found]
    rcases triple_or valid solved found with below | unshared | unshared
    · simp only [mulOperation, agrees.masks _ below, agrees.product_eq below]
    · cases leftValue : value a.asUsize <;> cases rightValue : value b.asUsize <;>
        simp_all [NodeVal.isShared, mulOperation]
    · cases leftValue : value a.asUsize <;> cases rightValue : value b.asUsize <;>
        simp_all [NodeVal.isShared, mulOperation]

theorem openedAt_eq (agrees : data.Agrees circuit data') (bound : n < circuit.nodes.length)
    (beaver : circuit.isSharedMul n = true) :
    data.openedAt circuit value n = data'.openedAt circuit value n := by
  have below : circuit.tripleRank n < circuit.tripleCount := rank_lt beaver bound
  simp only [openedAt, agrees.triples _ below]

end PartyData.Agrees

/-- What a view contributes to its replay. -/
def PartyView.data (view : PartyView) (globals : List FieldElement) : PartyData where
  party := view.partyId
  inputs := inputAt view.inputShares
  triples := fun t => view.tripleShares.getD t ⟨0, 0, 0⟩
  masks := fun t => (inputAt globals (2 * t), inputAt globals (2 * t + 1))

/-- A view that records exactly the computation its inputs, triples and the
global masks determine. -/
structure PartyView.Coherent (view : PartyView) (circuit : Circuit FieldElement)
    (publics : ℕ → FieldElement) (globals : List FieldElement) (value : ℕ → NodeVal FieldElement) :
    Prop where
  inputShares : view.inputShares.length = circuit.numSecretInputs
  solves : circuit.Solves ((view.data globals).meaning circuit publics) value
  localOperations : view.localOperations =
    (marked (recordsOperation circuit view.partyId) circuit.nodes.length).map
      ((view.data globals).operationAt circuit value)
  tripleShares : view.tripleShares.length = circuit.tripleCount
  openedValues : view.openedValues =
    (marked circuit.isSharedMul circuit.nodes.length).flatMap fun n =>
      [((view.data globals).openedAt circuit value n).1, ((view.data globals).openedAt circuit value n).2]
  globals : 2 * circuit.tripleCount ≤ globals.length

/-- The encoded size of the operation a gate records. -/
def operationSize (circuit : Circuit FieldElement) (n : ℕ) : ℕ :=
  match circuit.nodes[n]? with
  | some (.add _ _) => 37
  | some (.mul _ _) => if circuit.isSharedMul n then 105 else 69
  | _ => 0

/-- The length of the message a party's view commitment hashes. -/
def commitmentSize (circuit : Circuit FieldElement) (party : PartyId) : ℕ :=
  60 + 32 * circuit.numSecretInputs +
    ((marked (recordsOperation circuit party) circuit.nodes.length).map (operationSize circuit)).sum +
    160 * circuit.tripleCount

/-- Coherent views of a party all have the same encoded size. -/
theorem PartyView.Coherent.commitmentMessage_length {view : PartyView} {circuit : Circuit FieldElement}
    {publics : ℕ → FieldElement} {globals : List FieldElement} {value : ℕ → NodeVal FieldElement}
    (coherent : view.Coherent circuit publics globals value) (valid : circuit.WellFormed) :
    (commitmentMessage view).length = commitmentSize circuit view.partyId := by
  have sizes : view.localOperations.map LocalOperation.size =
      (marked (recordsOperation circuit view.partyId) circuit.nodes.length).map (operationSize circuit) := by
    rw [coherent.localOperations, List.map_map]
    refine List.map_congr_left fun n member => ?_
    obtain ⟨below, records⟩ := List.mem_filter.mp member
    have bound := List.mem_range.mp below
    have found := List.getElem?_eq_getElem bound
    cases shape : circuit.nodes[n] with
    | secretInput | publicInput | constant => simp [recordsOperation, found, shape] at records
    | add a b => simp [PartyData.operationAt, operationSize, found, shape, LocalOperation.size]
    | mul a b =>
      rw [shape] at found
      obtain ⟨left, right⟩ := valid.operands n _ a b found rfl
      have sharedLeft :=
        PartyData.isShared_eq valid coherent.solves (show a.asUsize < circuit.nodes.length by omega)
      have sharedRight :=
        PartyData.isShared_eq valid coherent.solves (show b.asUsize < circuit.nodes.length by omega)
      simp only [recordsOperation, found, ← sharedLeft, ← sharedRight] at records
      simp only [Function.comp, PartyData.operationAt, operationSize, found, Circuit.isSharedMul,
        ← sharedLeft, ← sharedRight]
      cases leftValue : value a.asUsize <;> cases rightValue : value b.asUsize <;>
        rw [leftValue, rightValue] at records <;>
        simp_all [NodeVal.isShared, PartyData.mulOperation, LocalOperation.size]
  have opened := (eq_flatMap_marked_iff.mp coherent.openedValues).1
  rw [Mpcith.commitmentMessage_length, sizes, coherent.inputShares, coherent.tripleShares, opened,
    commitmentSize, Circuit.tripleCount, Circuit.tripleRank]
  omega

end PaymentAuth.Mpcith
