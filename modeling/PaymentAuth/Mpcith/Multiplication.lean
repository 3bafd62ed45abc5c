import Mathlib.Tactic.LinearCombination
import PaymentAuth.Crypto.Sha256
import PaymentAuth.Mpcith.Forgery

/-! What three accepted views say of a multiplication of two secret-dependent values. -/

namespace PaymentAuth.Mpcith

open Library

/-- What the parties' shares of a Beaver product miss. The first summand is what
the committed triple misses of multiplying; the others come from a response whose
hidden broadcasts differ from what the hidden party's view recorded. -/
def productDefect (views : PartyId → PartyView) (hiddenBroadcasts : List FieldElement) (t : ℕ) :
    FieldElement :=
  let triple (p : PartyId) := (views p).tripleShares.getD t ⟨0, 0, 0⟩
  let opened (k : ℕ) := Shares.total fun p => inputAt (views p).openedValues k
  let changed (k : ℕ) := inputAt hiddenBroadcasts k - inputAt (views 0).openedValues k
  let a := Shares.total fun p => (triple p).a
  let b := Shares.total fun p => (triple p).b
  let c := Shares.total fun p => (triple p).c
  c - a * b + changed (2 * t) * (b + opened (2 * t + 1)) + changed (2 * t + 1) * (a + opened (2 * t)) +
    changed (2 * t) * changed (2 * t + 1)

section Products

variable {circuit : Circuit FieldElement} {publics : ℕ → FieldElement} {globals : List FieldElement}
  {view : PartyView} {value : ℕ → NodeVal FieldElement} {n : ℕ} {a b : NodeId}

/-- A coherent view's product of two shared factors, and the masks it contributes. -/
private theorem PartyView.Coherent.product_eq (coherent : view.Coherent circuit publics globals value)
    (valid : circuit.WellFormed) (found : circuit.nodes[n]? = some (.mul a b))
    (here : circuit.isSharedMul n = true) :
    let t := circuit.tripleRank n
    let triple := view.tripleShares.getD t ⟨0, 0, 0⟩
    (value n).asField =
        triple.c + inputAt globals (2 * t) * triple.b + inputAt globals (2 * t + 1) * triple.a +
          (if view.partyId = 0 then inputAt globals (2 * t) * inputAt globals (2 * t + 1) else 0) ∧
      inputAt view.openedValues (2 * t) = (value a.asUsize).asField - triple.a ∧
      inputAt view.openedValues (2 * t + 1) = (value b.asUsize).asField - triple.b := by
  have bound := (List.getElem?_eq_some_iff.mp found).1
  obtain ⟨left, right⟩ := valid.operands n _ a b found rfl
  have sharedLeft := PartyData.isShared_eq valid coherent.solves (show a.asUsize < circuit.nodes.length by omega)
  have sharedRight := PartyData.isShared_eq valid coherent.solves (show b.asUsize < circuit.nodes.length by omega)
  have both := here
  simp only [Circuit.isSharedMul, found, ← sharedLeft, ← sharedRight, Bool.and_eq_true] at both
  obtain ⟨first, second⟩ := (eq_flatMap_marked_iff.mp coherent.openedValues).2 n bound here
  refine ⟨?_, ?_, ?_⟩
  · rw [coherent.solves n _ found]
    cases leftValue : value a.asUsize with
    | plain x => simp [leftValue, NodeVal.isShared] at both
    | shared x =>
      cases rightValue : value b.asUsize with
      | plain y => simp [rightValue, NodeVal.isShared] at both
      | shared y =>
        simp only [Interpretation.rule, PartyData.meaning, leftValue, rightValue]
        rfl
  · rw [inputAt, List.getD_eq_getElem?_getD, Circuit.tripleRank, first]
    simp only [PartyData.openedAt, found]
    rfl
  · rw [inputAt, List.getD_eq_getElem?_getD, Circuit.tripleRank, second]
    simp only [PartyData.openedAt, found]
    rfl

end Products

namespace Transcripts

variable {backend : CryptoBackend} {statement : Statement} {circuit : Circuit FieldElement}
  {repetitions : PartyId → Repetition} {views : PartyId → PartyView} {randomness : PartyId → PartyId → Bytes}
  {globals : List FieldElement} {value : PartyId → ℕ → NodeVal FieldElement}

/-- The shares of a product of two shared factors miss the product by the defect. -/
theorem product_total (transcripts : Transcripts backend statement circuit repetitions)
    (accepted : ∀ h, Accepted backend statement circuit (repetitions h) views (randomness h) globals value)
    (valid : circuit.WellFormed) {n : ℕ} {a b : NodeId} (found : circuit.nodes[n]? = some (.mul a b))
    (here : circuit.isSharedMul n = true) :
    (Shares.total fun p => (value p n).asField) =
      (Shares.total fun p => (value p a.asUsize).asField) *
          (Shares.total fun p => (value p b.asUsize).asField) +
        productDefect views (repetitions 0).hiddenBroadcasts (circuit.tripleRank n) := by
  have bound := (List.getElem?_eq_some_iff.mp found).1
  have small : circuit.tripleRank n < circuit.tripleCount := rank_lt here bound
  have mask (k : ℕ) (below : k < 2 * circuit.tripleCount) :
      inputAt globals k = inputAt (repetitions 0).hiddenBroadcasts k - inputAt (views 0).openedValues k +
        Shares.total fun p => inputAt (views p).openedValues k := by
    rw [(accepted 0).masks, transcripts.hiddenParty, ← openedTotal_add 0]
    simp [inputAt, below]
    ring
  have first := mask (2 * circuit.tripleRank n) (by omega)
  have second := mask (2 * circuit.tripleRank n + 1) (by omega)
  have each (p : PartyId) := (transcripts.coherent accepted p).2.product_eq valid found here
  have party (p : PartyId) := (transcripts.coherent accepted p).1
  simp only [party] at each
  obtain ⟨product0, left0, right0⟩ := each 0
  obtain ⟨product1, left1, right1⟩ := each 1
  obtain ⟨product2, left2, right2⟩ := each 2
  simp only [Shares.total, eq_sub_iff_add_eq] at first second left0 right0 left1 right1 left2 right2
  simp only [Shares.total, productDefect, product0, product1, product2, first, second, ← left0, ← right0,
    ← left1, ← right1, ← left2, ← right2, if_true, one_ne_zero, if_false, Fin.reduceEq]
  ring

/-- At a multiplication of two secret-dependent values the replayed shares multiply
exactly when the defect of the committed triple and of the response vanishes. -/
theorem multiplication_verified_iff {sha256 : Bytes → Digest}
    (validated : statement.validate sha256 circuit = .ok ())
    (transcripts : Transcripts backend statement circuit repetitions) :
    ∃ (views : PartyId → PartyView) (value : PartyId → ℕ → NodeVal FieldElement),
      Replayed statement circuit repetitions views value ∧
        ∀ (n : ℕ) (a b : NodeId), circuit.nodes[n]? = some (.mul a b) →
          circuit.dependsOnSecrets a.asUsize = true → circuit.dependsOnSecrets b.asUsize = true →
            ((Shares.total fun p => (value p n).asField) =
                (Shares.total fun p => (value p a.asUsize).asField) *
                  (Shares.total fun p => (value p b.asUsize).asField) ↔
              productDefect views (repetitions 0).hiddenBroadcasts (circuit.tripleRank n) = 0) := by
  obtain ⟨valid, -, publicInputs, expectedOutputs⟩ := Statement.validate_ok_iff.mp validated
  obtain ⟨views, randomness, globals, value, accepted⟩ :=
    transcripts.exists_accepted valid publicInputs expectedOutputs
  refine ⟨views, value, transcripts.replayed accepted valid publicInputs, fun n a b found left right => ?_⟩
  have here : circuit.isSharedMul n = true := by simp [Circuit.isSharedMul, found, left, right]
  rw [transcripts.product_total accepted valid found here]
  exact add_eq_left

/-- One product of two secrets. -/
def mulCircuit : Circuit FieldElement where
  nodes := [.secretInput, .secretInput, .mul ⟨0⟩ ⟨1⟩]
  numSecretInputs := 2
  numPublicInputs := 0
  outputs := [⟨2⟩]

def mulStatement : Statement where
  circuitId := sha256HashDomain PaymentAuth.sha256 circuitIdDomain mulCircuit.encode
  publicInputs := []
  expectedOutputs := [1]

/-- Zero inputs and a triple of zero factors whose product opens to one. -/
def brokenTriple : JointData where
  inputs _ _ := 0
  triples _ := ⟨fun _ => 0, fun _ => 0, fun p => if p = 0 then 1 else 0⟩

/-- The responses of a prover that committed to the broken triple. -/
def brokenRepetitions : PartyId → Repetition :=
  brokenTriple.forgedRepetition (sha256Backend PaymentAuth.sha256) mulStatement mulCircuit ⟨0⟩
    JointData.zeroRandomness

theorem mulCircuit_wellFormed : mulCircuit.WellFormed := by
  have checked : mulCircuit.validate = .ok () := by decide
  exact Circuit.validate_ok_iff.mp checked

theorem mulCircuit_sizes (p : PartyId) : commitmentSize mulCircuit p < 2 ^ 32 := by
  revert p
  decide +kernel

private theorem brokenRepetitions_transcripts :
    Transcripts (sha256Backend PaymentAuth.sha256) mulStatement mulCircuit brokenRepetitions :=
  JointData.forged_transcripts brokenTriple (sha256Backend PaymentAuth.sha256) mulCircuit_wellFormed rfl rfl ⟨0⟩
    JointData.zeroRandomness_length mulCircuit_sizes

theorem multiplication_verified_iff_broken :
    ∃ views value, Replayed mulStatement mulCircuit brokenRepetitions views value ∧
      ((Shares.total fun p => (value p 2).asField) =
          (Shares.total fun p => (value p 0).asField) * (Shares.total fun p => (value p 1).asField) ↔
        productDefect views (brokenRepetitions 0).hiddenBroadcasts 0 = 0) := by
  obtain ⟨views, value, replayed, each⟩ := @multiplication_verified_iff (sha256Backend PaymentAuth.sha256)
    mulStatement mulCircuit brokenRepetitions PaymentAuth.sha256 (by decide +kernel)
    brokenRepetitions_transcripts
  exact ⟨views, value, replayed, each 2 ⟨0⟩ ⟨1⟩ rfl (by decide +kernel) (by decide +kernel)⟩

/-- Accepted transcripts whose product of zeros opens to one. -/
theorem multiplication_unverified :
    mulStatement.validate PaymentAuth.sha256 mulCircuit = .ok () ∧
      Transcripts (sha256Backend PaymentAuth.sha256) mulStatement mulCircuit brokenRepetitions ∧
      ∃ views value, Replayed mulStatement mulCircuit brokenRepetitions views value ∧
        (Shares.total fun p => (value p 2).asField) ≠
          (Shares.total fun p => (value p 0).asField) * (Shares.total fun p => (value p 1).asField) := by
  have accepted (h : PartyId) := @JointData.forgedRepetition_accepted mulStatement mulCircuit
    JointData.zeroRandomness brokenTriple (sha256Backend PaymentAuth.sha256) mulCircuit_wellFormed ⟨0⟩
    JointData.zeroRandomness_length h fun p _ => mulCircuit_sizes p
  refine ⟨by decide +kernel, brokenRepetitions_transcripts, _, _,
    brokenRepetitions_transcripts.replayed accepted mulCircuit_wellFormed rfl, ?_⟩
  decide +kernel

end Transcripts

end PaymentAuth.Mpcith
