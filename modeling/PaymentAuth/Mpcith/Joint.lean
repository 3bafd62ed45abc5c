import PaymentAuth.Mpcith.Execution

/-! The joint execution of the three parties from their input shares and triples,
its projection to each party and the plaintext it opens to. -/

namespace PaymentAuth.Mpcith

open Library

/-- The three parties' shares of one Beaver triple. -/
structure SharedTriple where
  a : Shares
  b : Shares
  c : Shares

/-- The shares of the inputs, by input order, and of the triples, by multiplication order. -/
structure JointData where
  inputs : ℕ → Shares
  triples : ℕ → SharedTriple

/-- The value a joint value opens to. -/
def NodeVal.reveal : NodeVal Shares → FieldElement
  | .plain value => value
  | .shared shares => shares.total

namespace SharedTriple

/-- The masks that open two factors against a triple. -/
def masks (triple : SharedTriple) (x y : Shares) : FieldElement × FieldElement :=
  (Shares.total fun p => x p - triple.a p, Shares.total fun p => y p - triple.b p)

/-- The shares of a Beaver product under given masks. -/
def product (triple : SharedTriple) (masks : FieldElement × FieldElement) : Shares := fun p =>
  triple.c p + masks.1 * triple.b p + masks.2 * triple.a p + if p = 0 then masks.1 * masks.2 else 0

/-- What is missing from a triple and its masks to multiply two factors. -/
theorem product_total (triple : SharedTriple) (masks : FieldElement × FieldElement) :
    (triple.product masks).total =
      triple.c.total + masks.1 * triple.b.total + masks.2 * triple.a.total + masks.1 * masks.2 := by
  simp [product, Shares.total]
  ring

theorem product_total_of_multiplies {triple : SharedTriple}
    (multiplies : triple.c.total = triple.a.total * triple.b.total) (x y : Shares) :
    (triple.product (triple.masks x y)).total = x.total * y.total := by
  rw [product_total, multiplies]
  simp only [masks, Shares.total]
  ring

end SharedTriple

namespace JointData

def addValues : NodeVal Shares → NodeVal Shares → NodeVal Shares
  | .plain x, .plain y => .plain (x + y)
  | .shared x, .shared y => .shared fun p => x p + y p
  | .shared x, .plain v | .plain v, .shared x => .shared fun p => if p = 0 then x 0 + v else x p

def mulValues (triple : SharedTriple) : NodeVal Shares → NodeVal Shares → NodeVal Shares
  | .plain x, .plain y => .plain (x * y)
  | .shared x, .plain v | .plain v, .shared x => .shared fun p => x p * v
  | .shared x, .shared y => .shared (triple.product (triple.masks x y))

/-- The joint interpretation of the circuit. -/
def meaning (data : JointData) (circuit : Circuit FieldElement) (publics : ℕ → FieldElement) :
    Interpretation FieldElement (NodeVal Shares) where
  secretInput n := .shared (data.inputs (circuit.secretRank n))
  publicInput n := .plain (publics (circuit.publicRank n))
  constant value := .plain value
  add _ va vb := addValues va vb
  mul n va vb := mulValues (data.triples (circuit.tripleRank n)) va vb

/-- The values of the joint execution. -/
def execution (data : JointData) (circuit : Circuit FieldElement) (publics : ℕ → FieldElement) (n : ℕ) :
    NodeVal Shares :=
  circuit.valueOf (data.meaning circuit publics) (.plain 0) n

variable {data : JointData} {circuit : Circuit FieldElement} {publics : ℕ → FieldElement}
  {value : ℕ → NodeVal Shares} {n : ℕ}

theorem isShared_eq (valid : circuit.WellFormed) (solved : circuit.Solves (data.meaning circuit publics) value)
    (bound : n < circuit.nodes.length) : (value n).isShared = circuit.dependsOnSecrets n := by
  have classified : circuit.Solves Circuit.dependence fun n => (value n).isShared := by
    intro n node found
    simp only [solved n node found]
    cases node with
    | secretInput | publicInput | constant => rfl
    | add a b | mul a b =>
      simp only [Interpretation.rule, Circuit.dependence, meaning]
      cases value a.asUsize <;> cases value b.asUsize <;> rfl
  exact classified.unique valid valid.dependsOnSecrets_solves bound

theorem reveal_addValues (va vb : NodeVal Shares) : (addValues va vb).reveal = va.reveal + vb.reveal := by
  cases va <;> cases vb <;> simp [addValues, NodeVal.reveal, Shares.total] <;> ring

theorem reveal_mulValues {triple : SharedTriple}
    (multiplies : triple.c.total = triple.a.total * triple.b.total) (va vb : NodeVal Shares) :
    (mulValues triple va vb).reveal = va.reveal * vb.reveal := by
  cases va with
  | plain x => cases vb <;> simp [mulValues, NodeVal.reveal, Shares.total]; ring
  | shared x =>
    cases vb with
    | plain y => simp [mulValues, NodeVal.reveal, Shares.total]; ring
    | shared y => exact SharedTriple.product_total_of_multiplies multiplies x y

/-- With proper triples the joint execution opens to the plaintext evaluation. -/
theorem reveal_solves (multiplies : ∀ t, (data.triples t).c.total =
      (data.triples t).a.total * (data.triples t).b.total)
    (solved : circuit.Solves (data.meaning circuit publics) value) :
    circuit.Solves (circuit.plaintext (fun i => (data.inputs i).total) publics) fun n =>
      (value n).reveal := by
  intro n node found
  simp only [solved n node found]
  cases node with
  | secretInput | publicInput | constant => rfl
  | add a b => exact reveal_addValues _ _
  | mul a b => exact reveal_mulValues (multiplies _) _ _

/-- The masks opened at a node. -/
def masksAt (data : JointData) (circuit : Circuit FieldElement) (value : ℕ → NodeVal Shares) (n : ℕ) :
    FieldElement × FieldElement :=
  match circuit.nodes[n]? with
  | some (.mul a b) =>
    (data.triples (circuit.tripleRank n)).masks (operand (value a.asUsize)) (operand (value b.asUsize))
  | _ => (0, 0)

/-- One party's part of the joint execution. -/
def partyData (data : JointData) (circuit : Circuit FieldElement) (value : ℕ → NodeVal Shares)
    (p : PartyId) : PartyData where
  party := p
  inputs i := data.inputs i p
  triples t := ⟨(data.triples t).a p, (data.triples t).b p, (data.triples t).c p⟩
  masks t := data.masksAt circuit value ((marked circuit.isSharedMul circuit.nodes.length).getD t 0)

theorem partyData_masks (here : circuit.isSharedMul n = true) (bound : n < circuit.nodes.length)
    (p : PartyId) :
    (data.partyData circuit value p).masks (circuit.tripleRank n) = data.masksAt circuit value n := by
  have entry := marked_getElem? here bound
  simp [partyData, Circuit.tripleRank, entry]

private theorem ofParty_addValues (va vb : NodeVal Shares) (p : PartyId) :
    (addValues va vb).ofParty p = PartyData.addValue p (va.ofParty p) (vb.ofParty p) := by
  cases va <;> cases vb <;> simp only [addValues, NodeVal.ofParty, PartyData.addValue] <;>
    split <;> simp_all

/-- Each party's values follow its own interpretation. -/
theorem ofParty_solves (valid : circuit.WellFormed)
    (solved : circuit.Solves (data.meaning circuit publics) value) (p : PartyId) :
    circuit.Solves ((data.partyData circuit value p).meaning circuit publics) fun n =>
      (value n).ofParty p := by
  intro n node found
  have bound := (List.getElem?_eq_some_iff.mp found).1
  simp only [solved n node found]
  cases node with
  | secretInput | publicInput | constant => rfl
  | add a b => exact ofParty_addValues _ _ _
  | mul a b =>
    obtain ⟨left, right⟩ := valid.operands n _ a b found rfl
    have sharedLeft := isShared_eq valid solved (show a.asUsize < circuit.nodes.length by omega)
    have sharedRight := isShared_eq valid solved (show b.asUsize < circuit.nodes.length by omega)
    simp only [Interpretation.rule, meaning, PartyData.meaning]
    cases leftValue : value a.asUsize with
    | plain x => cases value b.asUsize <;> rfl
    | shared x =>
      cases rightValue : value b.asUsize with
      | plain y => rfl
      | shared y =>
        have here : circuit.isSharedMul n = true := by
          rw [leftValue] at sharedLeft
          rw [rightValue] at sharedRight
          simp [Circuit.isSharedMul, found, ← sharedLeft, ← sharedRight, NodeVal.isShared]
        have masks : (data.partyData circuit value p).masks (circuit.tripleRank n) =
            (data.triples (circuit.tripleRank n)).masks x y := by
          rw [partyData_masks here bound]
          simp only [masksAt, found, leftValue, rightValue]
          rfl
        simp only [mulValues, NodeVal.ofParty, PartyData.mulValue, PartyData.product, masks]
        rfl

end JointData

end PaymentAuth.Mpcith
