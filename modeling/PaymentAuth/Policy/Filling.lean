import PaymentAuth.Policy.Compiled
import PaymentAuth.Policy.Inputs

/-! What filling the inputs of a policy leaves: the inputs of every leaf at the
nodes its compilation declares, and a place for every auxiliary input. -/

namespace PaymentAuth

open Library

/-- The threshold wires of a wiring that is a threshold. -/
def Wiring.threshold? : Wiring → Option ThresholdWiring
  | .atLeast _ nodes _ => some nodes
  | _ => none

section Fill

variable {p : ℕ} (sha256 : Bytes → Digest) (witness : PolicyWitness)

/-- Fills the inputs that one node of a policy declares itself. -/
def fillPart : Formula PolicyLeaf Unit → Fill (ZMod p) Unit
  | .leaf (.credential id) => fillCredential sha256 witness id
  | .leaf (.amountAtMost limit) => fillAmount witness limit
  | .atLeast _ _ _ => pushAuxiliary
  | .all _ | .any _ => pure ()

theorem fillMembers_eq_forM (members : List Policy)
    (each : ∀ member ∈ members, (fill sha256 witness member : Fill (ZMod p) Unit) =
      forM member.formula.subformulas (fillPart sha256 witness)) :
    (fillMembers sha256 witness members : Fill (ZMod p) Unit) =
      forM ((members.map Policy.formula).flatMap Formula.subformulas) (fillPart sha256 witness) := by
  induction members with
  | nil => rfl
  | cons member rest ih =>
    rw [fillMembers, each member List.mem_cons_self,
      ih fun other inside => each other (List.mem_cons_of_mem _ inside), List.map_cons, List.flatMap_cons,
      List.forM_append]

/-- Filling a policy fills its nodes, members before the node that joins them. -/
theorem fill_eq_forM (policy : Policy) :
    (fill sha256 witness policy : Fill (ZMod p) Unit) =
      forM policy.formula.subformulas (fillPart sha256 witness) := by
  induction policy with
  | amountAtMost limit => simp [fill, fillPart]
  | credential id => simp [fill, fillPart]
  | threshold k members ih =>
    rw [fill, fillMembers_eq_forM sha256 witness members ih, Policy.formula_threshold, Formula.subformulas_atLeast,
      List.forM_append]
    simp [fillPart]
  | and members ih =>
    rw [fill, fillMembers_eq_forM sha256 witness members ih, Policy.formula_and, Formula.subformulas_all,
      List.forM_append]
    simp [fillPart]
  | or members ih =>
    rw [fill, fillMembers_eq_forM sha256 witness members ih, Policy.formula_or, Formula.subformulas_any,
      List.forM_append]
    simp [fillPart]

/-- The secret inputs of a leaf. -/
def leafSecrets : PolicyLeaf → List (ZMod p)
  | .credential id => [digestToField (credentialCommitment sha256 ((witness.secretFor id).getD []))]
  | .amountAtMost limit => (witness.amountOrZero.toNat : ZMod p) ::
      (decompose witness.amountOrZero ++ decompose (limit.value - witness.amountOrZero)).map
        fun bit => (bit.toNat : ZMod p)

/-- The public inputs of a leaf. -/
def leafPublics : PolicyLeaf → List (ZMod p)
  | .credential id => [digestToField id.toDigest]
  | .amountAtMost limit => [(limit.value.toNat : ZMod p)]

def partSecrets : Wiring → List (ZMod p)
  | .leaf leaf => leafSecrets sha256 witness leaf.leaf
  | .atLeast _ _ _ => [0]
  | .all _ | .any _ => []

def partPublics : Wiring → List (ZMod p)
  | .leaf leaf => leafPublics leaf.leaf
  | .atLeast _ _ _ | .all _ | .any _ => []

theorem partSecrets_length {part : Wiring} (shape : part.PartShape) :
    (partSecrets sha256 witness part : List (ZMod p)).length = part.partLayout.secretNodes.length := by
  cases part with
  | leaf leaf =>
    cases leaf with
    | amount limit inputs wire =>
      obtain ⟨values, differences⟩ := shape
      simp [partSecrets, leafSecrets, LeafWiring.leaf, Wiring.partLayout, decompose, values, differences]
    | credential => rfl
  | atLeast | all | any => rfl

theorem partPublics_length (part : Wiring) :
    (partPublics part : List (ZMod p)).length = part.partLayout.publicNodes.length := by
  cases part with
  | leaf leaf => cases leaf <;> rfl
  | atLeast | all | any => rfl

/-- The policy node that a wiring node stands for. -/
def Wiring.erase (part : Wiring) : Formula PolicyLeaf Unit := part.map LeafWiring.leaf fun _ => ()

/-- The inputs after filling one more node. -/
def FilledInputs.extend (init : FilledInputs (ZMod p)) (part : Wiring) : FilledInputs (ZMod p) where
  secrets := init.secrets ++ partSecrets sha256 witness part
  publics := init.publics ++ partPublics part
  auxPositions := init.auxPositions ++ if part.threshold?.isSome then [init.secrets.length] else []

/-- Every credential leaf has a secret in the witness. -/
def Covered (parts : List Wiring) : Prop :=
  ∀ id secret commitment wire, .leaf (.credential id secret commitment wire) ∈ parts →
    ∃ bytes, witness.secretFor id = some bytes

theorem fillPart_ok {part : Wiring} (covered : Covered witness [part]) (init : FilledInputs (ZMod p)) :
    fillPart sha256 witness part.erase init = .ok ((), init.extend sha256 witness part) := by
  cases part with
  | leaf leaf =>
    cases leaf with
    | amount limit inputs wire =>
      simp [Wiring.erase, fillPart, LeafWiring.leaf, fillAmount, pushInputs, FilledInputs.extend, partSecrets,
        leafSecrets, partPublics, leafPublics, Wiring.threshold?]
      rfl
    | credential id secret commitment wire =>
      obtain ⟨bytes, found⟩ := covered id secret commitment wire (List.mem_singleton_self _)
      simp [Wiring.erase, fillPart, LeafWiring.leaf, fillCredential, pushInputs, FilledInputs.extend, partSecrets,
        leafSecrets, partPublics, leafPublics, Wiring.threshold?, found]
      rfl
  | atLeast k nodes members =>
    simp [Wiring.erase, fillPart, pushAuxiliary, FilledInputs.extend, partSecrets, partPublics, Wiring.threshold?]
    rfl
  | all members | any members =>
    simp [Wiring.erase, fillPart, FilledInputs.extend, partSecrets, partPublics, Wiring.threshold?]
    rfl

theorem fillParts_ok {parts : List Wiring} (covered : Covered witness parts) (init : FilledInputs (ZMod p)) :
    forM (parts.map Wiring.erase) (fillPart sha256 witness) init =
      .ok ((), parts.foldl (FilledInputs.extend sha256 witness) init) := by
  induction parts generalizing init with
  | nil => rfl
  | cons part rest ih =>
    have first := fillPart_ok sha256 witness (fun id secret commitment wire found =>
      covered id secret commitment wire (List.mem_cons.mpr (Or.inl (List.mem_singleton.mp found)))) init
    have others := ih (fun id secret commitment wire found =>
      covered id secret commitment wire (List.mem_cons_of_mem _ found)) (init.extend sha256 witness part)
    rw [List.map_cons, List.forM_cons]
    exact Emission.bind_ok_iff.mpr ⟨_, _, first, others⟩

theorem extend_inputs (parts : List Wiring) (init : FilledInputs (ZMod p)) :
    (parts.foldl (FilledInputs.extend sha256 witness) init).secrets =
        init.secrets ++ parts.flatMap (partSecrets sha256 witness) ∧
      (parts.foldl (FilledInputs.extend sha256 witness) init).publics =
        init.publics ++ parts.flatMap partPublics := by
  induction parts generalizing init with
  | nil => simp
  | cons part rest ih =>
    obtain ⟨secrets, publics⟩ := ih (init.extend sha256 witness part)
    rw [List.foldl_cons, secrets, publics]
    simp [FilledInputs.extend]

/-- The positions noted for auxiliary inputs are those of the auxiliary nodes. -/
theorem extend_auxPositions {parts : List Wiring} (shape : ∀ part ∈ parts, part.PartShape)
    {init : FilledInputs (ZMod p)} {nodes : List ℕ} (aligned : nodes.length = init.secrets.length) :
    ∃ positions, (parts.foldl (FilledInputs.extend sha256 witness) init).auxPositions =
        init.auxPositions ++ positions ∧
      positions.map (fun i => (nodes ++ parts.flatMap fun part => part.partLayout.secretNodes)[i]?) =
        (parts.filterMap Wiring.threshold?).map fun threshold => some threshold.auxiliary.asUsize := by
  induction parts generalizing init nodes with
  | nil => exact ⟨[], by simp, rfl⟩
  | cons part rest ih =>
    have next : (nodes ++ part.partLayout.secretNodes).length =
        (init.extend sha256 witness part).secrets.length := by
      rw [FilledInputs.extend, List.length_append, List.length_append, aligned,
        partSecrets_length sha256 witness (shape part List.mem_cons_self)]
    obtain ⟨positions, filled, placed⟩ := ih (fun other inside => shape other (List.mem_cons_of_mem _ inside)) next
    rw [List.foldl_cons, filled, FilledInputs.extend]
    rw [List.append_assoc] at placed
    refine ⟨(if part.threshold?.isSome then [init.secrets.length] else []) ++ positions, by simp, ?_⟩
    rw [List.map_append, List.flatMap_cons, placed]
    cases part with
    | leaf | all | any => simp [Wiring.threshold?, List.filterMap_cons]
    | atLeast k wires members => simp [Wiring.threshold?, ← aligned, Wiring.partLayout]

end Fill

end PaymentAuth
