import PaymentAuth.Mpcith.Multiplication

/-! Special soundness: what three accepted transcripts say of the statement. -/

namespace PaymentAuth.Mpcith

open Library

/-- The secret inputs that three views share. -/
def extractedWitness (circuit : Circuit FieldElement) (views : PartyId → PartyView) : List FieldElement :=
  (List.range circuit.numSecretInputs).map fun i => Shares.total fun p => inputAt (views p).inputShares i

/-- What three parties' values of a node open to. -/
def opening (circuit : Circuit FieldElement) (publics : ℕ → FieldElement)
    (value : PartyId → ℕ → NodeVal FieldElement) (n : ℕ) : FieldElement :=
  if circuit.dependsOnSecrets n then Shares.total fun p => (value p n).asField
  else circuit.publicValue publics n

section Openings

variable {circuit : Circuit FieldElement} {publics : ℕ → FieldElement} {data : PartyId → PartyData}
  {value : PartyId → ℕ → NodeVal FieldElement} {n : ℕ} {a b : NodeId}

private theorem addValue_asField (p : PartyId) (va vb : NodeVal FieldElement) :
    (PartyData.addValue p va vb).asField =
      (if va.isShared || !vb.isShared || decide (p = 0) then va.asField else 0) +
        if vb.isShared || !va.isShared || decide (p = 0) then vb.asField else 0 := by
  cases va <;> cases vb <;> by_cases zero : p = 0 <;>
    simp [PartyData.addValue, NodeVal.asField, NodeVal.isShared, zero, add_comm]

private theorem mulValue_asField (product : FieldElement) (va vb : NodeVal FieldElement) :
    (PartyData.mulValue product va vb).asField =
      if va.isShared && vb.isShared then product else va.asField * vb.asField := by
  cases va <;> cases vb <;> simp [PartyData.mulValue, NodeVal.asField, NodeVal.isShared, mul_comm]

private theorem isShared_of_solved (valid : circuit.WellFormed)
    (solved : ∀ p, circuit.Solves ((data p).meaning circuit publics) (value p))
    (bound : n < circuit.nodes.length) (p : PartyId) : (value p n).isShared = circuit.dependsOnSecrets n :=
  PartyData.isShared_eq valid (solved p) bound

private theorem asField_of_public (valid : circuit.WellFormed)
    (solved : ∀ p, circuit.Solves ((data p).meaning circuit publics) (value p))
    (bound : n < circuit.nodes.length) (plain : circuit.dependsOnSecrets n = false) (p : PartyId) :
    (value p n).asField = circuit.publicValue publics n := by
  rw [PartyData.value_of_public valid (solved p) bound plain]
  rfl

/-- The shares of a sum open to the sum. -/
private theorem opening_add (valid : circuit.WellFormed) (party : ∀ p, (data p).party = p)
    (solved : ∀ p, circuit.Solves ((data p).meaning circuit publics) (value p))
    (found : circuit.nodes[n]? = some (.add a b)) :
    opening circuit publics value n =
      opening circuit publics value a.asUsize + opening circuit publics value b.asUsize := by
  have bound := (List.getElem?_eq_some_iff.mp found).1
  obtain ⟨left, right⟩ := valid.operands n _ a b found rfl
  have gate := valid.dependsOnSecrets_gate found rfl
  have kindLeft := isShared_of_solved valid solved (show a.asUsize < circuit.nodes.length by omega)
  have kindRight := isShared_of_solved valid solved (show b.asUsize < circuit.nodes.length by omega)
  have plainLeft := asField_of_public valid solved (show a.asUsize < circuit.nodes.length by omega)
  have plainRight := asField_of_public valid solved (show b.asUsize < circuit.nodes.length by omega)
  have sum (p : PartyId) : (value p n).asField = _ :=
    (congrArg NodeVal.asField (solved p n _ found)).trans (addValue_asField _ _ _)
  simp only [party, kindLeft, kindRight] at sum
  have plain : circuit.publicValue publics n = _ := valid.valueOf_solves _ _ n _ found
  simp only [opening, gate, Shares.total, sum]
  cases dependsLeft : circuit.dependsOnSecrets a.asUsize <;>
    cases dependsRight : circuit.dependsOnSecrets b.asUsize
  · exact plain
  · simp [plainLeft dependsLeft]
    ring
  · simp [plainRight dependsRight]
    ring
  · simp
    ring

/-- The shares of a product by a public factor open to the product. -/
private theorem opening_mul (valid : circuit.WellFormed)
    (solved : ∀ p, circuit.Solves ((data p).meaning circuit publics) (value p))
    (found : circuit.nodes[n]? = some (.mul a b)) (here : circuit.isSharedMul n = false) :
    opening circuit publics value n =
      opening circuit publics value a.asUsize * opening circuit publics value b.asUsize := by
  have bound := (List.getElem?_eq_some_iff.mp found).1
  obtain ⟨left, right⟩ := valid.operands n _ a b found rfl
  have gate := valid.dependsOnSecrets_gate found rfl
  have kindLeft := isShared_of_solved valid solved (show a.asUsize < circuit.nodes.length by omega)
  have kindRight := isShared_of_solved valid solved (show b.asUsize < circuit.nodes.length by omega)
  have plainLeft := asField_of_public valid solved (show a.asUsize < circuit.nodes.length by omega)
  have plainRight := asField_of_public valid solved (show b.asUsize < circuit.nodes.length by omega)
  simp only [Circuit.isSharedMul, found] at here
  have product (p : PartyId) : (value p n).asField = _ :=
    (congrArg NodeVal.asField (solved p n _ found)).trans (mulValue_asField _ _ _)
  simp only [kindLeft, kindRight, here, Bool.false_eq_true, if_false] at product
  have plain : circuit.publicValue publics n = _ := valid.valueOf_solves _ _ n _ found
  simp only [opening, gate, Shares.total, product]
  cases dependsLeft : circuit.dependsOnSecrets a.asUsize <;>
    cases dependsRight : circuit.dependsOnSecrets b.asUsize
  · exact plain
  · simp [plainLeft dependsLeft]
    ring
  · simp [plainRight dependsRight]
    ring
  · simp [dependsLeft, dependsRight] at here

end Openings

namespace Transcripts

variable {backend : CryptoBackend} {statement : Statement} {circuit : Circuit FieldElement}
  {repetitions : PartyId → Repetition}

/-- When no product misses anything, the views open to the evaluation of the inputs
they share. -/
theorem opening_solves (transcripts : Transcripts backend statement circuit repetitions)
    {views : PartyId → PartyView} {randomness : PartyId → PartyId → Bytes} {globals : List FieldElement}
    {value : PartyId → ℕ → NodeVal FieldElement}
    (accepted : ∀ h, Accepted backend statement circuit (repetitions h) views (randomness h) globals value)
    (valid : circuit.WellFormed)
    (products : ∀ t < circuit.tripleCount, productDefect views (repetitions 0).hiddenBroadcasts t = 0) :
    circuit.Solves
      (circuit.plaintext (inputAt (extractedWitness circuit views)) (inputAt statement.publicInputs))
      (opening circuit (inputAt statement.publicInputs) value) := by
  have solved (p : PartyId) := (transcripts.coherent accepted p).2.solves
  have party (p : PartyId) : ((views p).data globals).party = p := (transcripts.coherent accepted p).1
  intro n node found
  have bound := (List.getElem?_eq_some_iff.mp found).1
  cases node with
  | secretInput =>
    have depends : circuit.dependsOnSecrets n = true := valid.dependsOnSecrets_solves n _ found
    have below := valid.secretRank_lt found
    have share (p : PartyId) : value p n = .shared (inputAt (views p).inputShares (circuit.secretRank n)) :=
      solved p n _ found
    simp only [opening, depends, if_true, share, NodeVal.asField]
    simp [Interpretation.rule, Circuit.plaintext, extractedWitness, inputAt, below]
  | publicInput =>
    have plain : circuit.dependsOnSecrets n = false := valid.dependsOnSecrets_solves n _ found
    simp only [opening, plain, Bool.false_eq_true, if_false]
    exact valid.valueOf_solves _ _ n _ found
  | constant c =>
    have plain : circuit.dependsOnSecrets n = false := valid.dependsOnSecrets_solves n _ found
    simp only [opening, plain, Bool.false_eq_true, if_false]
    exact valid.valueOf_solves _ _ n _ found
  | add a b => exact opening_add valid party solved found
  | mul a b =>
    cases here : circuit.isSharedMul n with
    | false => exact opening_mul valid solved found here
    | true =>
      have both := here
      simp only [Circuit.isSharedMul, found, Bool.and_eq_true] at both
      have depends : circuit.dependsOnSecrets n = true := by
        rw [valid.dependsOnSecrets_gate found rfl, both.1, Bool.true_or]
      have product := transcripts.product_total accepted valid found here
      rw [products (circuit.tripleRank n) (rank_lt here bound), add_zero] at product
      simp only [Interpretation.rule, Circuit.plaintext, opening, depends, both, if_true]
      exact product

/-- When no product misses anything, the shared inputs satisfy the statement exactly
when the first response's output shares are those the hidden view leads to and the
public outputs are the expected ones. -/
theorem extractedWitness_evaluates_iff (transcripts : Transcripts backend statement circuit repetitions)
    {views : PartyId → PartyView} {randomness : PartyId → PartyId → Bytes} {globals : List FieldElement}
    {value : PartyId → ℕ → NodeVal FieldElement}
    (accepted : ∀ h, Accepted backend statement circuit (repetitions h) views (randomness h) globals value)
    (valid : circuit.WellFormed) (publicInputs : statement.publicInputs.length = circuit.numPublicInputs)
    (expectedOutputs : statement.expectedOutputs.length = circuit.outputs.length)
    (products : ∀ t < circuit.tripleCount, productDefect views (repetitions 0).hiddenBroadcasts t = 0) :
    evaluateReference circuit (extractedWitness circuit views) statement.publicInputs =
        .ok statement.expectedOutputs ↔
      ∀ (k : ℕ) (output : NodeId), circuit.outputs[k]? = some output →
        if circuit.dependsOnSecrets output.asUsize then
          inputAt (repetitions 0).hiddenOutputShares k = (value 0 output.asUsize).asField
        else inputAt statement.expectedOutputs k =
          circuit.publicValue (inputAt statement.publicInputs) output.asUsize := by
  have solved := transcripts.opening_solves accepted valid products
  rw [evaluateReference_of_solves valid (by simp [extractedWitness]) publicInputs solved, Outcome.ok.injEq]
  have each (k : ℕ) (output : NodeId) (found : circuit.outputs[k]? = some output) :
      opening circuit (inputAt statement.publicInputs) value output.asUsize =
          inputAt statement.expectedOutputs k ↔
        if circuit.dependsOnSecrets output.asUsize then
          inputAt (repetitions 0).hiddenOutputShares k = (value 0 output.asUsize).asField
        else inputAt statement.expectedOutputs k =
          circuit.publicValue (inputAt statement.publicInputs) output.asUsize := by
    have completed := (accepted 0).outputs k output found
    rw [transcripts.hiddenParty] at completed
    unfold opening
    split
    · rename_i depends
      rw [if_pos depends] at completed
      rw [← completed, ← openedTotal_add 0]
      exact ⟨fun same => (add_right_cancel same).symm, fun same => by rw [same]⟩
    · exact eq_comm
  constructor
  · intro same k output found
    refine (each k output found).mp ?_
    rw [← same]
    simp [inputAt, found]
  · intro honest
    refine List.ext_getElem (by simp [expectedOutputs]) fun k bound bound' => ?_
    rw [List.length_map] at bound
    have found := List.getElem?_eq_getElem bound
    simpa [inputAt, bound'] using (each k _ found).mpr (honest k _ found)

/-- A party whose views cannot be encoded is never opened. -/
theorem commitmentSize_lt (transcripts : Transcripts backend statement circuit repetitions)
    (valid : circuit.WellFormed) (publicInputs : statement.publicInputs.length = circuit.numPublicInputs)
    (expectedOutputs : statement.expectedOutputs.length = circuit.outputs.length) (p : PartyId) :
    commitmentSize circuit p < 2 ^ 32 := by
  obtain ⟨views, randomness, globals, value, accepted⟩ :=
    transcripts.exists_accepted valid publicInputs expectedOutputs
  obtain ⟨party, coherent⟩ := transcripts.coherent accepted p
  obtain ⟨commitment, -, committed⟩ := (accepted _).committed p (transcripts.hiddenParty_ne p)
  obtain ⟨-, small, -⟩ := commitView_ok_iff.mp committed
  rwa [coherent.commitmentMessage_length valid, party] at small

/-- Three accepted transcripts exist for every statement whose views can be encoded,
so they establish exactly the statements that are true anyway. Only transcripts
whose products miss nothing lead to a witness, and only with honest output shares
and true public outputs. -/
theorem special_soundness_iff {sha256 : Bytes → Digest} (backend : CryptoBackend)
    (validated : statement.validate sha256 circuit = .ok ()) :
    ((∀ repetitions, Transcripts backend statement circuit repetitions →
        ∃ witness, evaluateReference circuit witness statement.publicInputs = .ok statement.expectedOutputs) ↔
      (∃ witness, evaluateReference circuit witness statement.publicInputs = .ok statement.expectedOutputs) ∨
        ∃ p, 2 ^ 32 ≤ commitmentSize circuit p) ∧
    ∀ repetitions, Transcripts backend statement circuit repetitions →
      ∃ views value, Replayed statement circuit repetitions views value ∧
        ((∀ t < circuit.tripleCount, productDefect views (repetitions 0).hiddenBroadcasts t = 0) →
          (evaluateReference circuit (extractedWitness circuit views) statement.publicInputs =
              .ok statement.expectedOutputs ↔
            ∀ (k : ℕ) (output : NodeId), circuit.outputs[k]? = some output →
              if circuit.dependsOnSecrets output.asUsize then
                inputAt (repetitions 0).hiddenOutputShares k = (value 0 output.asUsize).asField
              else inputAt statement.expectedOutputs k =
                circuit.publicValue (inputAt statement.publicInputs) output.asUsize)) := by
  obtain ⟨valid, -, publicInputs, expectedOutputs⟩ := Statement.validate_ok_iff.mp validated
  refine ⟨⟨fun sound => ?_, fun either repetitions transcripts => ?_⟩, fun repetitions transcripts => ?_⟩
  · by_cases large : ∃ p, 2 ^ 32 ≤ commitmentSize circuit p
    · exact .inr large
    · simp only [not_exists, not_le] at large
      exact .inl (sound _ (JointData.forged_transcripts .zero backend valid publicInputs expectedOutputs ⟨0⟩
        JointData.zeroRandomness_length large))
  · rcases either with holds | ⟨p, large⟩
    · exact holds
    · exact absurd (transcripts.commitmentSize_lt valid publicInputs expectedOutputs p) (by omega)
  · obtain ⟨views, randomness, globals, value, accepted⟩ :=
      transcripts.exists_accepted valid publicInputs expectedOutputs
    exact ⟨views, value, transcripts.replayed accepted valid publicInputs,
      transcripts.extractedWitness_evaluates_iff accepted valid publicInputs expectedOutputs⟩

/-- A secret times the constant zero, expected to be one. -/
def zeroedCircuit : Circuit FieldElement where
  nodes := [.secretInput, .constant 0, .mul ⟨0⟩ ⟨1⟩]
  numSecretInputs := 1
  numPublicInputs := 0
  outputs := [⟨2⟩]

def zeroedStatement : Statement where
  circuitId := sha256HashDomain PaymentAuth.sha256 circuitIdDomain zeroedCircuit.encode
  publicInputs := []
  expectedOutputs := [1]

/-- No secret input satisfies the statement. -/
private theorem zeroed_unsatisfiable :
    ¬∃ witness, evaluateReference zeroedCircuit witness zeroedStatement.publicInputs =
      .ok zeroedStatement.expectedOutputs := by
  have checked : zeroedCircuit.validate = .ok () := by decide +kernel
  rintro ⟨witness, evaluated⟩
  obtain ⟨-, -, value, solved, outputs⟩ := (evaluateReference_ok_iff (Circuit.validate_ok_iff.mp checked)).mp evaluated
  have factor : value 1 = 0 := solved 1 _ rfl
  have product : value 2 = value 0 * value 1 := solved 2 _ rfl
  have expected : (1 : FieldElement) = value 2 := (List.cons.inj outputs).1
  rw [product, factor, mul_zero] at expected
  exact one_ne_zero expected

/-- Three transcripts forged for the statement. -/
def zeroedTranscripts : PartyId → Repetition :=
  JointData.zero.forgedRepetition (sha256Backend PaymentAuth.sha256) zeroedStatement zeroedCircuit ⟨0⟩
    JointData.zeroRandomness

private theorem zeroedTranscripts_accepted :
    Transcripts (sha256Backend PaymentAuth.sha256) zeroedStatement zeroedCircuit zeroedTranscripts := by
  have checked : zeroedCircuit.validate = .ok () := by decide +kernel
  exact JointData.forged_transcripts _ _ (Circuit.validate_ok_iff.mp checked) rfl rfl _ JointData.zeroRandomness_length
    (by decide +kernel)

/-- Transcripts of a false statement lead to no witness, and show another output share
than the hidden view leads to. -/
theorem special_soundness_iff_zeroed :
    ((∀ repetitions, Transcripts (sha256Backend PaymentAuth.sha256) zeroedStatement zeroedCircuit repetitions →
        ∃ witness, evaluateReference zeroedCircuit witness [] = .ok [1]) ↔
      (∃ witness, evaluateReference zeroedCircuit witness [] = .ok [1]) ∨
        ∃ p, 2 ^ 32 ≤ commitmentSize zeroedCircuit p) ∧
      ∃ views value, Replayed zeroedStatement zeroedCircuit zeroedTranscripts views value ∧
        inputAt (zeroedTranscripts 0).hiddenOutputShares 0 ≠ (value 0 2).asField := by
  have exact := @special_soundness_iff zeroedStatement zeroedCircuit PaymentAuth.sha256
    (sha256Backend PaymentAuth.sha256) (by decide +kernel)
  obtain ⟨views, value, replayed, extracts⟩ := exact.2 _ zeroedTranscripts_accepted
  refine ⟨exact.1, views, value, replayed, fun honest => zeroed_unsatisfiable ⟨_, (extracts ?_).mpr ?_⟩⟩
  · have none : zeroedCircuit.tripleCount = 0 := by decide +kernel
    rw [none]
    exact fun t bound => absurd bound (Nat.not_lt_zero t)
  · intro k output found
    cases k with
    | zero =>
      obtain rfl : ⟨2⟩ = output := Option.some.inj found
      rw [if_pos (by decide +kernel)]
      exact honest
    | succ k => cases found

/-- Three accepted transcripts for a statement that no secret input satisfies. -/
theorem special_soundness_fails :
    zeroedStatement.validate PaymentAuth.sha256 zeroedCircuit = .ok () ∧
      Transcripts (sha256Backend PaymentAuth.sha256) zeroedStatement zeroedCircuit zeroedTranscripts ∧
      ¬∃ witness, evaluateReference zeroedCircuit witness zeroedStatement.publicInputs =
        .ok zeroedStatement.expectedOutputs :=
  ⟨by decide +kernel, zeroedTranscripts_accepted, zeroed_unsatisfiable⟩

end Transcripts

end PaymentAuth.Mpcith
