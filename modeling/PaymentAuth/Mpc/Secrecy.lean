import Mathlib.Algebra.Field.ZMod
import PaymentAuth.Library.Mask
import PaymentAuth.Mpc.Dealer
import PaymentAuth.Mpc.Session

/-! What all parties but one see of a session: nothing that the revealed values do not
already determine. The randomness of a run hides the rest perfectly. -/

namespace PaymentAuth.Mpc

open Library

variable {F : Type} [CommRing F] {hidden parties : ℕ}

section Shares

/-- The same shares for everyone but one party. -/
def SharedValue.Matches (hidden : ℕ) (x x' : SharedValue F) : Prop :=
  ∀ party, party ≠ hidden → x.shares[party]? = x'.shares[party]?

variable {x x' y y' : SharedValue F} {value value' : F}

theorem SharedValue.Matches.addPublic (same : x.Matches hidden x') (value : F) :
    (x.addPublic value).Matches hidden (x'.addPublic value) := by
  intro party other
  rw [SharedValue.addPublic, SharedValue.addPublic, List.getElem?_modifyHead, List.getElem?_modifyHead,
    same party other]

theorem SharedValue.Matches.mulPublic (same : x.Matches hidden x') (value : F) :
    (x.mulPublic value).Matches hidden (x'.mulPublic value) := by
  intro party other
  rw [SharedValue.mulPublic, SharedValue.mulPublic, List.getElem?_map, List.getElem?_map, same party other]

theorem SharedValue.Matches.addSecret {sum sum' : SharedValue F} (same : x.Matches hidden x')
    (same' : y.Matches hidden y') (adds : x.addSecret y = .ok sum) (adds' : x'.addSecret y' = .ok sum') :
    sum.Matches hidden sum' := by
  simp only [SharedValue.addSecret, Outcome.bind_ok_iff, Outcome.reject_ok_iff, Outcome.ok.injEq] at adds adds'
  obtain ⟨_, _, rfl⟩ := adds
  obtain ⟨_, _, rfl⟩ := adds'
  intro party other
  rw [List.getElem?_zipWith', List.getElem?_zipWith', same party other, same' party other]

/-- The hidden party's share absorbs the change of the shared value. -/
theorem additive_matches {count : ℕ} {draws draws' : ℕ → F} (inside : hidden ≤ count)
    (masked : ∀ j < count, draws' j = draws j + if j = hidden then value' - value else 0) :
    (additive count value draws).Matches hidden (additive count value' draws') := by
  intro party other
  rcases Nat.lt_trichotomy party count with below | rfl | beyond
  · rw [additive, additive, List.getElem?_append_left (by simpa using below),
      List.getElem?_append_left (by simpa using below), List.getElem?_map, List.getElem?_map,
      List.getElem?_range below, Option.map_some, Option.map_some, masked party below, if_neg other, add_zero]
  · have sums : ((List.range party).map draws').sum = ((List.range party).map draws).sum + (value' - value) := by
      change ∑ j ∈ Finset.range party, draws' j = ∑ j ∈ Finset.range party, draws j + (value' - value)
      have absorbed : hidden ∈ Finset.range party := Finset.mem_range.mpr (by omega)
      rw [Finset.sum_congr rfl fun j member => masked j (Finset.mem_range.mp member), Finset.sum_add_distrib,
        Finset.sum_ite_eq' (Finset.range party) hidden, if_pos absorbed]
    have last : value' - ((List.range party).map draws').sum = value - ((List.range party).map draws).sum := by
      rw [sums]
      ring
    simp [additive, last]
  · have length : ∀ (value : F) (draws : ℕ → F), (additive count value draws).shares.length ≤ party := by
      intro value draws
      rw [additive_holds.length]
      exact beyond
    rw [List.getElem?_eq_none (length value draws), List.getElem?_eq_none (length value' draws')]

/-- The shares of a product, given the triple it takes. -/
def SharedValue.productShares (x y : SharedValue F) (triple : BeaverTriple F) : List F :=
  (triple.c.shares.zipIdx.zip (triple.b.shares.zip triple.a.shares)).map
    (productShare (x.differences y triple).1 (x.differences y triple).2)

theorem SharedValue.mulSecret_ok {provider next : LocalTrustedTripleProvider F} {product : SharedValue F}
    (multiplies : x.mulSecret y provider = .ok (product, next)) :
    ∃ triple, provider.nextTriple = .ok (triple, next) ∧ product.shares = x.productShares y triple := by
  simp only [SharedValue.mulSecret, Outcome.bind_ok_iff, Outcome.ok.injEq, Prod.mk.injEq] at multiplies
  obtain ⟨_, _, ⟨triple, _⟩, supplied, _, _, rfl, rfl⟩ := multiplies
  exact ⟨triple, supplied, rfl⟩

/-- Everyone but the hidden party sees the same of two triples. -/
structure BeaverTriple.Matches (hidden : ℕ) (triple triple' : BeaverTriple F) : Prop where
  a : triple.a.Matches hidden triple'.a
  b : triple.b.Matches hidden triple'.b
  c : triple.c.Matches hidden triple'.c

theorem BeaverTriple.Matches.productShares {triple triple' : BeaverTriple F} (same : triple.Matches hidden triple')
    (opened : x.differences y triple = x'.differences y' triple') {party : ℕ} (other : party ≠ hidden) :
    (x.productShares y triple)[party]? = (x'.productShares y' triple')[party]? := by
  simp only [SharedValue.productShares, List.getElem?_map, List.zip, List.getElem?_zipWith', List.getElem?_zipIdx,
    same.a party other, same.b party other, same.c party other, opened]

/-- What is opened are the factors less the factors of the triple. -/
theorem SharedValue.Holds.differences {triple : BeaverTriple F} {left right a b : F} (first : x.Holds parties left)
    (second : y.Holds parties right) (holdsA : triple.a.Holds parties a) (holdsB : triple.b.Holds parties b) :
    x.differences y triple = (left - a, right - b) := by
  rw [SharedValue.differences, ← List.sum_eq_foldl, ← List.sum_eq_foldl,
    sum_zipWith_sub (first.length.trans holdsA.length.symm), sum_zipWith_sub (second.length.trans holdsB.length.symm),
    first.sum, second.sum, holdsA.sum, holdsB.sum]

end Shares

section Masks

/-- Draws of the dealer on the left and of the client on the right. The shares of the
product in a triple come after its other draws and are the only ones not steady. -/
def Steady (parties : ℕ) : Set (ℕ ⊕ ℕ) :=
  {position | ∀ k, position = .inl k → k % tripleDraws parties < 2 + (parties - 1) + (parties - 1)}

/-- The draws that a later call may take. -/
def Fresh (parties issued drawn : ℕ) : ℕ ⊕ ℕ → Prop
  | .inl k => issued * tripleDraws parties ≤ k
  | .inr k => drawn ≤ k

/-- Hides the change of one input in the hidden party's share. -/
def inputMask (parties hidden drawn : ℕ) (change : F) : Mask F (Steady parties) where
  amount _ position := if hidden < parties - 1 ∧ position = .inr (drawn + hidden) then change else 0
  fixed _ _ _ _ := rfl
  reads _ _ _ := rfl

/-- What changes with two factors: the factors of a triple, its product, and the hidden
party's share of each. -/
def tripleAmount (parties hidden start : ℕ) (changeX changeY : F) (draws : ℕ ⊕ ℕ → F) (position : ℕ ⊕ ℕ) : F :=
  if position = .inl start then changeX
  else if position = .inl (start + 1) then changeY
  else if hidden < parties - 1 then
    if position = .inl (start + 2 + hidden) then changeX
    else if position = .inl (start + 2 + (parties - 1) + hidden) then changeY
    else if position = .inl (start + 2 + (parties - 1) + (parties - 1) + hidden) then
      (draws (.inl start) + changeX) * (draws (.inl (start + 1)) + changeY) -
        draws (.inl start) * draws (.inl (start + 1))
    else 0
  else 0

section Amount

variable {start : ℕ} (changeX changeY : F) (aligned : start % tripleDraws parties = 0)

include aligned

/-- Only the share of the product is not steady. -/
theorem tripleAmount_fixed (draws draws' : ℕ ⊕ ℕ → F) (position : ℕ ⊕ ℕ) (steady : position ∈ Steady parties) :
    tripleAmount parties hidden start changeX changeY draws position =
      tripleAmount parties hidden start changeX changeY draws' position := by
  rw [tripleAmount, tripleAmount]
  split_ifs with _ _ below _ _ last
  all_goals try rfl
  obtain ⟨turn, rfl⟩ := Nat.dvd_of_mod_eq_zero aligned
  have late := steady _ last
  rw [Nat.add_assoc, Nat.add_assoc, Nat.add_assoc, Nat.mul_add_mod,
    Nat.mod_eq_of_lt (by rw [tripleDraws]; omega)] at late
  omega

/-- The amounts depend on the factors of the triple, and these are steady. -/
theorem tripleAmount_reads (draws draws' : ℕ ⊕ ℕ → F) (same : ∀ position ∈ Steady parties, draws position = draws' position) :
    tripleAmount parties hidden start changeX changeY draws =
      tripleAmount parties hidden start changeX changeY draws' := by
  have steady : ∀ offset < 2, .inl (start + offset) ∈ Steady parties := by
    rintro offset small _ ⟨⟩
    obtain ⟨turn, rfl⟩ := Nat.dvd_of_mod_eq_zero aligned
    rw [Nat.mul_add_mod, Nat.mod_eq_of_lt (by rw [tripleDraws]; omega)]
    omega
  have first := same _ (steady 0 (by decide))
  rw [Nat.add_zero] at first
  funext position
  rw [tripleAmount, tripleAmount, first, same _ (steady 1 (by decide))]

end Amount

/-- Hides the change of two factors in the triple that multiplies them. -/
def tripleMask (parties hidden start : ℕ) (changeX changeY : F) (aligned : start % tripleDraws parties = 0) :
    Mask F (Steady parties) where
  amount := tripleAmount parties hidden start changeX changeY
  fixed := tripleAmount_fixed changeX changeY aligned
  reads := tripleAmount_reads changeX changeY aligned

variable {drawn issued start : ℕ} {change changeX changeY : F} {draws : ℕ ⊕ ℕ → F}

theorem inputMask_share {j : ℕ} (below : j < parties - 1) :
    (inputMask parties hidden drawn change).amount draws (.inr (drawn + j)) = if j = hidden then change else 0 := by
  by_cases same : j = hidden
  · rw [if_pos same]
    exact if_pos ⟨same ▸ below, same ▸ rfl⟩
  · rw [if_neg same]
    apply if_neg
    rintro ⟨_, moved⟩
    exact same (Nat.add_left_cancel (Sum.inr.inj moved))

theorem inputMask_outside {position : ℕ ⊕ ℕ} (outside : ¬Fresh parties issued drawn position ∨
    Fresh parties issued (drawn + (parties - 1)) position) :
    (inputMask parties hidden drawn change).amount draws position = 0 := by
  apply if_neg
  rintro ⟨below, rfl⟩
  simp only [Fresh] at outside
  omega

section Triple

variable (aligned : start % tripleDraws parties = 0)

theorem tripleMask_factors :
    (tripleMask parties hidden start changeX changeY aligned).amount draws (.inl start) = changeX ∧
      (tripleMask parties hidden start changeX changeY aligned).amount draws (.inl (start + 1)) = changeY := by
  constructor
  · exact if_pos rfl
  · simp [tripleMask, tripleAmount]

theorem tripleMask_shareX {j : ℕ} (below : j < parties - 1) :
    (tripleMask parties hidden start changeX changeY aligned).amount draws (.inl (start + 2 + j)) =
      if j = hidden then changeX else 0 := by
  simp only [tripleMask, tripleAmount, Sum.inl.injEq]
  split_ifs <;> first | rfl | omega

theorem tripleMask_shareY {j : ℕ} (below : j < parties - 1) :
    (tripleMask parties hidden start changeX changeY aligned).amount draws
        (.inl (start + 2 + (parties - 1) + j)) = if j = hidden then changeY else 0 := by
  simp only [tripleMask, tripleAmount, Sum.inl.injEq]
  split_ifs <;> first | rfl | omega

theorem tripleMask_shareProduct {j : ℕ} (below : j < parties - 1) :
    (tripleMask parties hidden start changeX changeY aligned).amount draws
        (.inl (start + 2 + (parties - 1) + (parties - 1) + j)) =
      if j = hidden then (draws (.inl start) + changeX) * (draws (.inl (start + 1)) + changeY) -
        draws (.inl start) * draws (.inl (start + 1)) else 0 := by
  simp only [tripleMask, tripleAmount, Sum.inl.injEq]
  split_ifs <;> first | rfl | omega

theorem tripleMask_outside {position : ℕ ⊕ ℕ}
    (outside : ∀ k, position = .inl k → k < start ∨ start + tripleDraws parties ≤ k) :
    (tripleMask parties hidden start changeX changeY aligned).amount draws position = 0 := by
  simp only [tripleMask, tripleAmount]
  split_ifs with x y below hiddenX hiddenY hiddenProduct
  all_goals try rfl
  all_goals
    have away := outside _ (by assumption)
    rw [tripleDraws] at away
    omega

/-- Two triples from draws that differ by the mask look the same. -/
theorem dealtTriple_matches (missing : hidden < parties) {draws' : ℕ ⊕ ℕ → F}
    (masked : ∀ k, start ≤ k → k < start + tripleDraws parties → draws' (.inl k) =
      draws (.inl k) + (tripleMask parties hidden start changeX changeY aligned).amount draws (.inl k)) :
    (dealtTriple parties (fun k => draws (.inl k)) start).Matches hidden
      (dealtTriple parties (fun k => draws' (.inl k)) start) := by
  have inside : hidden ≤ parties - 1 := by omega
  obtain ⟨factorX, factorY⟩ := @tripleMask_factors F _ hidden parties start changeX changeY draws aligned
  have movedX := masked start le_rfl (by rw [tripleDraws]; omega)
  have movedY := masked (start + 1) (by omega) (by rw [tripleDraws]; omega)
  rw [factorX] at movedX
  rw [factorY] at movedY
  constructor
  · apply additive_matches inside
    intro j below
    have moved := masked (start + 2 + j) (by omega) (by rw [tripleDraws]; omega)
    beta_reduce
    rw [moved, tripleMask_shareX aligned below, movedX, add_sub_cancel_left]
  · apply additive_matches inside
    intro j below
    have moved := masked (start + 2 + (parties - 1) + j) (by omega) (by rw [tripleDraws]; omega)
    beta_reduce
    rw [moved, tripleMask_shareY aligned below, movedY, add_sub_cancel_left]
  · apply additive_matches inside
    intro j below
    have moved := masked (start + 2 + (parties - 1) + (parties - 1) + j) (by omega) (by rw [tripleDraws]; omega)
    beta_reduce
    rw [moved, tripleMask_shareProduct aligned below, movedX, movedY]

end Triple

end Masks

section Runs

/-- The draws of the client that a call takes. -/
def Call.clientDraws (parties : ℕ) : Call F → ℕ
  | .input _ => parties - 1
  | .addPublic _ _ | .mulPublic _ _ | .add _ _ | .mul _ _ | .reveal _ => 0

/-- The same call, up to the secret that it shares. -/
inductive Call.Alike : Call F → Call F → Prop where
  | input (secret secret' : F) : Alike (.input secret) (.input secret')
  | same (call : Call F) : Alike call call

/-- Everyone but the hidden party sees the same of two multiplications. -/
structure Opening.Matches (hidden : ℕ) (opening opening' : Opening F) : Prop where
  triple : opening.triple.Matches hidden opening'.triple
  differences : opening.differences = opening'.differences

/-- A session next to its plain values that takes its draws in order. -/
structure Session.Traced (parties issued drawn : ℕ) (draws : ℕ ⊕ ℕ → F) (plain : Plain F) (session : Session F) :
    Prop where
  refines : Session.Refines parties issued session plain
  dealer : session.sim.provider.rng = ⟨fun k => draws (.inl k), issued * tripleDraws parties⟩
  client : session.sim.rng = ⟨fun k => draws (.inr k), drawn⟩

/-- What a call adds to the shares and the openings. -/
def Session.Effect (parties issued drawn : ℕ) (draws : ℕ ⊕ ℕ → F) (session after : Session F) : Call F → Prop
  | .input secret =>
    after.results = session.results ++ [additive (parties - 1) secret fun j => draws (.inr (drawn + j))] ∧
      after.openings = session.openings
  | .addPublic x value => ∃ shared, session.results[x]? = some shared ∧
      after.results = session.results ++ [shared.addPublic value] ∧ after.openings = session.openings
  | .mulPublic x value => ∃ shared, session.results[x]? = some shared ∧
      after.results = session.results ++ [shared.mulPublic value] ∧ after.openings = session.openings
  | .add x y => ∃ left right sum, session.results[x]? = some left ∧ session.results[y]? = some right ∧
      left.addSecret right = .ok sum ∧ after.results = session.results ++ [sum] ∧ after.openings = session.openings
  | .mul x y => ∃ left right product, session.results[x]? = some left ∧ session.results[y]? = some right ∧
      product.shares = left.productShares right
        (dealtTriple parties (fun k => draws (.inl k)) (issued * tripleDraws parties)) ∧
      after.results = session.results ++ [product] ∧
      after.openings = session.openings ++
        [⟨dealtTriple parties (fun k => draws (.inl k)) (issued * tripleDraws parties),
          left.differences right (dealtTriple parties (fun k => draws (.inl k)) (issued * tripleDraws parties))⟩]
  | .reveal _ => after.results = session.results ∧ after.openings = session.openings

variable {issued drawn : ℕ} {draws : ℕ ⊕ ℕ → F} {plain next : Plain F} {session : Session F}

/-- A call goes through where the plain call does; its draws are the next ones. -/
theorem Session.Traced.call (traced : session.Traced parties issued drawn draws plain) (several : 1 < parties)
    {call : Call F} (room : issued + call.triples < 2 ^ 64) (computes : plain.call call = .ok next) :
    ∃ after, session.call call = .ok after ∧
      after.Traced parties (issued + call.triples) (drawn + call.clientDraws parties) draws next ∧
        session.Effect parties issued drawn draws after call := by
  have related := traced.refines.call several call room
  rw [computes] at related
  obtain ⟨after, calls, refines⟩ := related.exists_ok
  have waits := traced.dealer
  have listens := traced.client
  have shape : after.sim.provider.rng = ⟨fun k => draws (.inl k), (issued + call.triples) * tripleDraws parties⟩ ∧
      after.sim.rng = ⟨fun k => draws (.inr k), drawn + call.clientDraws parties⟩ ∧
        session.Effect parties issued drawn draws after call := by
    cases call with
    | input secret =>
      simp only [Session.call, MpcSimulator.input, sharedFrom_eq (traced.refines.context ▸ several), Outcome.ok_bind,
        Outcome.ok.injEq, traced.refines.context, listens] at calls
      subst calls
      exact ⟨waits, rfl, rfl, rfl⟩
    | addPublic x value =>
      simp only [Session.call, Outcome.bind_ok_iff, Outcome.expect_ok_iff, Outcome.ok.injEq] at calls
      obtain ⟨shared, found, rfl⟩ := calls
      exact ⟨waits, listens, shared, found, rfl, rfl⟩
    | mulPublic x value =>
      simp only [Session.call, Outcome.bind_ok_iff, Outcome.expect_ok_iff, Outcome.ok.injEq] at calls
      obtain ⟨shared, found, rfl⟩ := calls
      exact ⟨waits, listens, shared, found, rfl, rfl⟩
    | add x y =>
      simp only [Session.call, MpcSimulator.add, Outcome.bind_ok_iff, Outcome.expect_ok_iff, Outcome.ok.injEq] at calls
      obtain ⟨left, found, right, found', sum, ⟨_, adds, rfl⟩, rfl⟩ := calls
      exact ⟨waits, listens, left, right, _, found, found', adds, rfl, rfl⟩
    | mul x y =>
      have supplies := traced.refines.ready.nextTriple_eq several room
      simp only [Session.call, MpcSimulator.mul, Outcome.bind_ok_iff, Outcome.expect_ok_iff, Outcome.ok.injEq] at calls
      obtain ⟨left, found, right, found', ⟨triple, _⟩, supplied, ⟨product, sim⟩, ⟨⟨_, provider⟩, multiplies, returned⟩,
        rfl⟩ := calls
      obtain ⟨triple', supplied', shares⟩ := SharedValue.mulSecret_ok multiplies
      obtain ⟨rfl, rfl⟩ := Prod.mk.inj returned
      obtain ⟨rfl, -⟩ := Prod.mk.inj (Outcome.ok.inj (supplied.symm.trans supplies))
      obtain ⟨rfl, rfl⟩ := Prod.mk.inj (Outcome.ok.inj (supplied'.symm.trans supplies))
      rw [waits] at shares
      refine ⟨?_, listens, left, right, _, found, found', shares, rfl, ?_⟩
      · rw [LocalTrustedTripleProvider.advance, traced.refines.ready.parties, waits, Call.triples, Nat.succ_mul]
      · rw [waits]
    | reveal x =>
      simp only [Session.call, Outcome.bind_ok_iff, Outcome.expect_ok_iff, Outcome.ok.injEq] at calls
      obtain ⟨shared, found, value, _, rfl⟩ := calls
      exact ⟨waits, listens, rfl, rfl⟩
  exact ⟨after, calls, ⟨refines, shape.1, shape.2.1⟩, shape.2.2⟩

omit [CommRing F] in
theorem Call.Alike.triples_eq {call call' : Call F} (alike : call.Alike call') : call'.triples = call.triples := by
  cases alike with
  | input secret secret' => rfl
  | same call => rfl

omit [CommRing F] in
theorem Call.Alike.clientDraws_eq {call call' : Call F} (alike : call.Alike call') :
    call'.clientDraws parties = call.clientDraws parties := by
  cases alike with
  | input secret secret' => rfl
  | same call => rfl

/-- Alike calls find their operands on both sides or on neither. -/
theorem Plain.call_alike {plain plain' : Plain F} (same : plain.results.length = plain'.results.length)
    {call call' : Call F} (alike : call.Alike call') :
    Outcome.Related (fun next next' : Plain F => next.results.length = next'.results.length) (plain.call call)
      (plain'.call call') := by
  have pushed : ∀ value value', (plain.push value).results.length = (plain'.push value').results.length := by
    intro value value'
    rw [Plain.push, Plain.push, List.length_append, List.length_append, same]
    rfl
  have found : ∀ x : ℕ, Option.Rel (fun _ _ => True) plain.results[x]? plain'.results[x]? := by
    intro x
    apply Outcome.found_of_forall₂
    exact List.forall₂_iff_get.mpr ⟨same, fun _ _ _ => trivial⟩
  cases alike with
  | input secret secret' => exact .ok (pushed secret secret')
  | same call =>
    cases call with
    | input secret => exact .ok (pushed secret secret)
    | addPublic x value | mulPublic x value =>
      exact (Outcome.Related.expect (found x)).bind fun _ _ _ => .ok (pushed _ _)
    | add x y | mul x y =>
      exact (Outcome.Related.expect (found x)).bind fun _ _ _ =>
        (Outcome.Related.expect (found y)).bind fun _ _ _ => .ok (pushed _ _)
    | reveal x => exact (Outcome.Related.expect (found x)).bind fun _ _ _ => .ok same

/-- Two sessions, from draws of their own, that everyone but the hidden party sees alike. -/
structure Session.Masked (parties hidden issued drawn : ℕ) (draws draws' : ℕ ⊕ ℕ → F) (plain plain' : Plain F)
    (session session' : Session F) : Prop where
  first : session.Traced parties issued drawn draws plain
  second : session'.Traced parties issued drawn draws' plain'
  results : List.Forall₂ (SharedValue.Matches hidden) session.results session'.results
  openings : List.Forall₂ (Opening.Matches hidden) session.openings session'.openings

/-- The mask of one call: it touches only the draws that the call takes, and under it the
call shows the same to everyone but the hidden party. -/
structure Call.Masks (parties hidden issued drawn : ℕ) (plain plain' : Plain F) (call call' : Call F)
    (mask : Mask F (Steady parties)) : Prop where
  outside : ∀ draws position, ¬Fresh parties issued drawn position ∨
    Fresh parties (issued + call.triples) (drawn + call.clientDraws parties) position → mask.amount draws position = 0
  hides : ∀ draws draws' : ℕ ⊕ ℕ → F,
    (∀ position, Fresh parties issued drawn position →
      ¬Fresh parties (issued + call.triples) (drawn + call.clientDraws parties) position →
        draws' position = draws position + mask.amount draws position) →
    ∀ session session' after after' : Session F,
      Session.Masked parties hidden issued drawn draws draws' plain plain' session session' →
      session.Effect parties issued drawn draws after call → session'.Effect parties issued drawn draws' after' call' →
        List.Forall₂ (SharedValue.Matches hidden) after.results after'.results ∧
          List.Forall₂ (Opening.Matches hidden) after.openings after'.openings

variable {plain' next' : Plain F}

theorem Call.masks_input (missing : hidden < parties) (secret secret' : F) :
    Call.Masks parties hidden issued drawn plain plain' (.input secret) (.input secret')
      (inputMask parties hidden drawn (secret' - secret)) where
  outside _ _ away := inputMask_outside away
  hides draws draws' masked session session' after after' before effect effect' := by
    obtain ⟨results, openings⟩ := effect
    obtain ⟨results', openings'⟩ := effect'
    rw [results, results', openings, openings']
    refine ⟨List.rel_append before.results (.cons ?_ .nil), before.openings⟩
    apply additive_matches (by omega)
    intro j below
    have moved := masked (.inr (drawn + j)) (Nat.le_add_right drawn j)
      (Nat.not_le.mpr (Nat.add_lt_add_left below drawn))
    rw [moved, inputMask_share below]

theorem Call.masks_mul (missing : hidden < parties) {x y : ℕ} {left right left' right' : F}
    (foundX : plain.results[x]? = some left) (foundY : plain.results[y]? = some right)
    (foundX' : plain'.results[x]? = some left') (foundY' : plain'.results[y]? = some right') :
    Call.Masks parties hidden issued drawn plain plain' (.mul x y) (.mul x y)
      (tripleMask parties hidden (issued * tripleDraws parties) (left' - left) (right' - right)
        (Nat.mul_mod_left issued (tripleDraws parties))) where
  outside draws position away := by
    apply tripleMask_outside
    rintro k rfl
    simp only [Fresh, Call.triples, Nat.succ_mul] at away
    omega
  hides draws draws' masked session session' after after' before effect effect' := by
    have positive : 0 < parties := Nat.zero_lt_of_lt missing
    have aligned := Nat.mul_mod_left issued (tripleDraws parties)
    obtain ⟨sharedX, sharedY, product, atX, atY, shares, results, openings⟩ := effect
    obtain ⟨sharedX', sharedY', product', atX', atY', shares', results', openings'⟩ := effect'
    have moved : ∀ k, issued * tripleDraws parties ≤ k → k < issued * tripleDraws parties + tripleDraws parties →
        draws' (.inl k) = draws (.inl k) + (tripleMask parties hidden (issued * tripleDraws parties) (left' - left)
          (right' - right) aligned).amount draws (.inl k) := by
      intro k least below
      apply masked (.inl k) least
      rw [Fresh, Call.triples, Nat.succ_mul]
      exact Nat.not_le.mpr below
    have triples := dealtTriple_matches aligned missing moved
    obtain ⟨holdsA, holdsB, -⟩ := dealtTriple_holds positive (fun k => draws (.inl k)) (issued * tripleDraws parties)
    obtain ⟨holdsA', holdsB', -⟩ := dealtTriple_holds positive (fun k => draws' (.inl k)) (issued * tripleDraws parties)
    obtain ⟨factorX, factorY⟩ := @tripleMask_factors F _ hidden parties _ (left' - left) (right' - right) draws aligned
    -- The change of a factor cancels against the change of the triple's factor.
    have opened :
        sharedX.differences sharedY (dealtTriple parties (fun k => draws (.inl k)) (issued * tripleDraws parties)) =
          sharedX'.differences sharedY'
            (dealtTriple parties (fun k => draws' (.inl k)) (issued * tripleDraws parties)) := by
      rw [(Outcome.related_of_found before.first.refines.results atX foundX).differences
          (Outcome.related_of_found before.first.refines.results atY foundY) holdsA holdsB,
        (Outcome.related_of_found before.second.refines.results atX' foundX').differences
          (Outcome.related_of_found before.second.refines.results atY' foundY') holdsA' holdsB',
        moved _ le_rfl (by rw [tripleDraws]; omega), moved _ (by omega) (by rw [tripleDraws]; omega), factorX, factorY]
      congr 1 <;> ring
    have products : product.Matches hidden product' := by
      intro party other
      rw [shares, shares', triples.productShares opened other]
    rw [results, results', openings, openings']
    exact ⟨List.rel_append before.results (.cons products .nil),
      List.rel_append before.openings (.cons ⟨triples, opened⟩ .nil)⟩

/-- Every call has a mask. -/
theorem Call.exists_mask (missing : hidden < parties) {call call' : Call F} (alike : call.Alike call')
    (computes : plain.call call = .ok next) (computes' : plain'.call call' = .ok next') :
    ∃ mask, Call.Masks parties hidden issued drawn plain plain' call call' mask := by
  cases alike with
  | input secret secret' => exact ⟨_, masks_input missing secret secret'⟩
  | same call =>
    cases call with
    | input secret => exact ⟨_, masks_input missing secret secret⟩
    | mul x y =>
      simp only [Plain.call, Outcome.bind_ok_iff, Outcome.expect_ok_iff] at computes computes'
      obtain ⟨left, foundX, right, foundY, _⟩ := computes
      obtain ⟨left', foundX', right', foundY', _⟩ := computes'
      exact ⟨_, masks_mul missing foundX foundY foundX' foundY'⟩
    | addPublic x value =>
      refine ⟨Mask.none, fun _ _ _ => rfl, ?_⟩
      rintro _ _ _ session session' after after' before ⟨shared, found, results, openings⟩
        ⟨shared', found', results', openings'⟩
      have same := Outcome.related_of_found before.results found found'
      rw [results, results', openings, openings']
      exact ⟨List.rel_append before.results (.cons (same.addPublic value) .nil), before.openings⟩
    | mulPublic x value =>
      refine ⟨Mask.none, fun _ _ _ => rfl, ?_⟩
      rintro _ _ _ session session' after after' before ⟨shared, found, results, openings⟩
        ⟨shared', found', results', openings'⟩
      have same := Outcome.related_of_found before.results found found'
      rw [results, results', openings, openings']
      exact ⟨List.rel_append before.results (.cons (same.mulPublic value) .nil), before.openings⟩
    | add x y =>
      refine ⟨Mask.none, fun _ _ _ => rfl, ?_⟩
      rintro _ _ _ session session' after after' before ⟨left, right, sum, foundX, foundY, adds, results, openings⟩
        ⟨left', right', sum', foundX', foundY', adds', results', openings'⟩
      have sameX := Outcome.related_of_found before.results foundX foundX'
      have sameY := Outcome.related_of_found before.results foundY foundY'
      rw [results, results', openings, openings']
      exact ⟨List.rel_append before.results (.cons (sameX.addSecret sameY adds adds') .nil), before.openings⟩
    | reveal x =>
      refine ⟨Mask.none, fun _ _ _ => rfl, ?_⟩
      rintro _ _ _ session session' after after' before ⟨results, openings⟩ ⟨results', openings'⟩
      rw [results, results', openings, openings']
      exact ⟨before.results, before.openings⟩

theorem Fresh.mono {issued' drawn' : ℕ} (issues : issued ≤ issued') (draws : drawn ≤ drawn') {position : ℕ ⊕ ℕ}
    (fresh : Fresh parties issued' drawn' position) : Fresh parties issued drawn position := by
  cases position with
  | inl k => exact (Nat.mul_le_mul_right (tripleDraws parties) issues).trans fresh
  | inr k => exact draws.trans fresh

/-- What a mask does for a whole run of calls. -/
structure Session.Masks (parties hidden issued drawn issued' drawn' : ℕ) (plain plain' : Plain F)
    (calls calls' : List (Call F)) (mask : Mask F (Steady parties)) : Prop where
  outside : ∀ draws position, ¬Fresh parties issued drawn position ∨ Fresh parties issued' drawn' position →
    mask.amount draws position = 0
  hides : ∀ draws draws' : ℕ ⊕ ℕ → F,
    (∀ position, Fresh parties issued drawn position → ¬Fresh parties issued' drawn' position →
      draws' position = draws position + mask.amount draws position) →
    ∀ session session' : Session F,
      Session.Masked parties hidden issued drawn draws draws' plain plain' session session' →
        Outcome.Related
          (fun after after' => ∃ next next',
            Session.Masked parties hidden issued' drawn' draws draws' next next' after after')
          (session.run calls) (session'.run calls')

theorem Session.Masks.cons (several : 1 < parties) {call call' : Call F} (alike : call.Alike call')
    (computes : plain.call call = .ok next) (computes' : plain'.call call' = .ok next')
    (room : issued + call.triples < 2 ^ 64) {first rest : Mask F (Steady parties)}
    (masks : Call.Masks parties hidden issued drawn plain plain' call call' first) {issued' drawn' : ℕ}
    (issues : issued + call.triples ≤ issued') (takes : drawn + call.clientDraws parties ≤ drawn')
    {calls calls' : List (Call F)}
    (masks' : Session.Masks parties hidden (issued + call.triples) (drawn + call.clientDraws parties) issued' drawn'
      next next' calls calls' rest) :
    Session.Masks parties hidden issued drawn issued' drawn' plain plain' (call :: calls) (call' :: calls')
      (first.both rest) where
  outside draws position away := by
    have before : ¬Fresh parties issued drawn position →
        ¬Fresh parties (issued + call.triples) (drawn + call.clientDraws parties) position :=
      mt (Fresh.mono (Nat.le_add_right _ _) (Nat.le_add_right _ _))
    rw [Mask.both_amount, masks.outside draws position (away.imp_right (Fresh.mono issues takes)),
      masks'.outside draws position (away.imp_left before), add_zero]
  hides draws draws' masked session session' before := by
    obtain ⟨after, calls, traced, effect⟩ := before.first.call several room computes
    obtain ⟨after', calls', traced', effect'⟩ := before.second.call several (alike.triples_eq ▸ room) computes'
    rw [alike.triples_eq, alike.clientDraws_eq] at traced'
    have here : ∀ position, Fresh parties issued drawn position →
        ¬Fresh parties (issued + call.triples) (drawn + call.clientDraws parties) position →
          draws' position = draws position + first.amount draws position := by
      intro position fresh taken
      rw [masked position fresh (mt (Fresh.mono issues takes) taken), Mask.both_amount,
        masks'.outside draws position (.inl taken), add_zero]
    obtain ⟨results, openings⟩ := masks.hides draws draws' here session session' after after' before effect effect'
    have later := masks'.hides draws draws' ?_ after after' ⟨traced, traced', results, openings⟩
    · rw [Session.run, Session.run, List.foldlM_cons, List.foldlM_cons, calls, calls']
      exact later
    · intro position fresh untaken
      rw [masked position (fresh.mono (Nat.le_add_right _ _) (Nat.le_add_right _ _)) untaken, Mask.both_amount,
        masks.outside draws position (.inr fresh), zero_add]

/-- The masks of the calls of a run together are a mask of the run. -/
theorem Session.exists_mask (several : 1 < parties) (missing : hidden < parties) {calls calls' : List (Call F)}
    (alike : List.Forall₂ Call.Alike calls calls') (same : plain.results.length = plain'.results.length)
    (room : issued + (calls.map Call.triples).sum < 2 ^ 64) :
    ∃ mask, Session.Masks parties hidden issued drawn (issued + (calls.map Call.triples).sum)
      (drawn + (calls.map (Call.clientDraws parties)).sum) plain plain' calls calls' mask := by
  induction alike generalizing plain plain' issued drawn with
  | nil => exact ⟨Mask.none, fun _ _ _ => rfl, fun _ _ _ _ _ before => .ok ⟨plain, plain', before⟩⟩
  | @cons call call' calls calls' alike _ ih =>
    rw [List.map_cons, List.sum_cons, ← Nat.add_assoc] at room
    simp only [List.map_cons, List.sum_cons, ← Nat.add_assoc]
    have room' : issued + call.triples < 2 ^ 64 := Nat.lt_of_le_of_lt (Nat.le_add_right _ _) room
    have paired := Plain.call_alike same alike
    generalize computes : plain.call call = outcome at paired
    generalize computes' : plain'.call call' = outcome' at paired
    cases paired with
    | @ok next next' same =>
      obtain ⟨first, masks⟩ :=
        @Call.exists_mask F _ hidden parties issued drawn _ _ _ _ missing _ _ alike computes computes'
      obtain ⟨rest, masks'⟩ := @ih (issued + call.triples) (drawn + call.clientDraws parties) next next' same room
      exact ⟨first.both rest, Session.Masks.cons several alike computes computes' room' masks (Nat.le_add_right _ _)
        (Nat.le_add_right _ _) masks'⟩
    | error failure =>
      refine ⟨Mask.none, fun _ _ _ => rfl, ?_⟩
      intro draws draws' _ session session' before
      have fails := before.first.refines.call several call room'
      have fails' := before.second.refines.call several call' (alike.triples_eq ▸ room')
      rw [computes] at fails
      rw [computes'] at fails'
      rw [Session.run, Session.run, List.foldlM_cons, List.foldlM_cons, fails.eq_error, fails'.eq_error]
      exact .error failure
    | aborted =>
      refine ⟨Mask.none, fun _ _ _ => rfl, ?_⟩
      intro draws draws' _ session session' before
      have aborts := before.first.refines.call several call room'
      have aborts' := before.second.refines.call several call' (alike.triples_eq ▸ room')
      rw [computes] at aborts
      rw [computes'] at aborts'
      rw [Session.run, Session.run, List.foldlM_cons, List.foldlM_cons, aborts.eq_aborted, aborts'.eq_aborted]
      exact .aborted

end Runs

section Observation

/-- What everyone but the hidden party sees of a session: their shares of all results and
triples, what was opened and what was revealed. -/
structure Seen (F : Type) where
  results : List (List F)
  openings : List ((List F × List F × List F) × F × F)
  revealed : List F

def Opening.seen (hidden : ℕ) (opening : Opening F) : (List F × List F × List F) × F × F :=
  ((opening.triple.a.shares.eraseIdx hidden, opening.triple.b.shares.eraseIdx hidden,
    opening.triple.c.shares.eraseIdx hidden), opening.differences)

def Session.seen (hidden : ℕ) (session : Session F) : Seen F where
  results := session.results.map fun shared => shared.shares.eraseIdx hidden
  openings := session.openings.map (Opening.seen hidden)
  revealed := session.revealed

/-- Makes calls on a fresh simulator, with the draws of the dealer and of the client. -/
def Session.observe (ctx : ShareContext) (hidden : ℕ) (calls : List (Call F)) (draws : ℕ ⊕ ℕ → F) :
    Outcome MpcError (Seen F) := do
  let provider ← LocalTrustedTripleProvider.new ctx ⟨fun k => draws (.inl k), 0⟩
  let sim ← MpcSimulator.new ctx provider ⟨fun k => draws (.inr k), 0⟩
  let session ← (Session.start sim).run calls
  .ok (session.seen hidden)

omit [CommRing F] in
theorem SharedValue.Matches.eraseIdx {x x' : SharedValue F} (same : x.Matches hidden x') :
    x.shares.eraseIdx hidden = x'.shares.eraseIdx hidden := by
  apply List.ext_getElem?
  intro party
  rw [List.getElem?_eraseIdx, List.getElem?_eraseIdx]
  by_cases before : party < hidden
  · rw [if_pos before, if_pos before, same party (Nat.ne_of_lt before)]
  · rw [if_neg before, if_neg before, same (party + 1) (by omega)]

omit [CommRing F] in
theorem Opening.Matches.seen {opening opening' : Opening F} (same : opening.Matches hidden opening') :
    opening.seen hidden = opening'.seen hidden := by
  rw [Opening.seen, Opening.seen, same.triple.a.eraseIdx, same.triple.b.eraseIdx, same.triple.c.eraseIdx,
    same.differences]

variable {ctx : ShareContext} {calls calls' : List (Call F)}

/-- A fresh simulator with the draws at hand. -/
def Session.fresh (ctx : ShareContext) (draws : ℕ ⊕ ℕ → F) : Session F :=
  Session.start ⟨ctx, ⟨ctx, ⟨fun k => draws (.inl k), 0⟩, 0, ∅⟩, ⟨fun k => draws (.inr k), 0⟩⟩

theorem Session.observe_eq (several : 1 < ctx.partyCount) (draws : ℕ ⊕ ℕ → F) :
    observe ctx hidden calls draws = Session.seen hidden <$> (fresh ctx draws).run calls := by
  have several' : ¬ctx.partyCount ≤ 1 := Nat.not_le.mpr several
  simp only [observe, LocalTrustedTripleProvider.new, MpcSimulator.new, Outcome.reject_of_not several', Outcome.ok_bind]
  rfl

theorem Session.traced_fresh (draws : ℕ ⊕ ℕ → F) :
    (fresh ctx draws).Traced ctx.partyCount 0 0 draws Plain.start where
  refines := ⟨.nil, rfl, rfl, rfl, Nat.zero_le _, fun _ issued => absurd issued (Finset.notMem_empty _)⟩
  dealer := by rw [Nat.zero_mul]; rfl
  client := rfl

omit [CommRing F] in
theorem Call.triples_sum_eq (alike : List.Forall₂ Call.Alike calls calls') :
    (calls'.map Call.triples).sum = (calls.map Call.triples).sum := by
  induction alike with
  | nil => rfl
  | cons head _ ih => rw [List.map_cons, List.map_cons, List.sum_cons, List.sum_cons, head.triples_eq, ih]

/-- A mask of the draws takes what is seen of one run into what is seen of the other. -/
theorem Session.exists_mask_observe (several : 1 < ctx.partyCount) (missing : hidden < ctx.partyCount)
    (alike : List.Forall₂ Call.Alike calls calls')
    (reveals : Plain.revealed <$> Plain.start.run calls = Plain.revealed <$> Plain.start.run calls')
    (room : (calls.map Call.triples).sum < 2 ^ 64) :
    ∃ mask : Mask F (Steady ctx.partyCount),
      (∀ draws position, Fresh ctx.partyCount (calls.map Call.triples).sum
        (calls.map (Call.clientDraws ctx.partyCount)).sum position → mask.amount draws position = 0) ∧
        ∀ draws, observe ctx hidden calls' (mask.equiv draws) = observe ctx hidden calls draws := by
  have room' := room
  rw [← Nat.zero_add (calls.map Call.triples).sum] at room'
  obtain ⟨mask, masks⟩ := @Session.exists_mask F _ hidden ctx.partyCount 0 0 Plain.start Plain.start several missing _ _
    alike rfl room'
  simp only [Nat.zero_add] at masks
  refine ⟨mask, fun draws position beyond => masks.outside draws position (.inr beyond), ?_⟩
  intro draws
  have first := @traced_fresh F _ ctx draws
  have second := @traced_fresh F _ ctx (mask.equiv draws)
  have shown := (run_related several first.refines room').map_eq fun _ _ refines => refines.revealed
  have shown' := (run_related several second.refines (Call.triples_sum_eq alike ▸ room')).map_eq
    fun _ _ refines => refines.revealed
  have revealed := shown.trans (reveals.trans shown'.symm)
  have related := masks.hides draws (mask.equiv draws) (fun _ _ _ => rfl) _ _ ⟨first, second, .nil, .nil⟩
  rw [observe_eq several, observe_eq several]
  generalize (fresh ctx draws).run calls = call at related revealed
  generalize (fresh ctx (mask.equiv draws)).run calls' = call' at related revealed
  cases related with
  | ok held =>
    obtain ⟨_, _, masked⟩ := held
    rw [Outcome.map_ok, Outcome.map_ok, Session.seen, Session.seen,
      Outcome.map_eq_of_forall₂ (fun _ _ same => SharedValue.Matches.eraseIdx same) masked.results,
      Outcome.map_eq_of_forall₂ (fun _ _ same => Opening.Matches.seen same) masked.openings,
      Outcome.ok.inj revealed]
  | error failure => rfl
  | aborted => rfl

/-- The draws of the dealer and of the client, `count` each. -/
def drawPlaces (count : ℕ) : Fin count ⊕ Fin count → ℕ ⊕ ℕ := Sum.map Fin.val Fin.val

/-- Enough draws for the calls leave only fresh ones beyond them. -/
theorem fresh_of_notMem_drawPlaces {issued drawn count : ℕ} (dealt : issued * tripleDraws parties ≤ count)
    (taken : drawn ≤ count) {position : ℕ ⊕ ℕ} (outside : position ∉ Set.range (drawPlaces count)) :
    Fresh parties issued drawn position := by
  cases position with
  | inl k =>
    apply dealt.trans
    by_contra below
    exact outside ⟨.inl ⟨k, Nat.lt_of_not_le below⟩, rfl⟩
  | inr k =>
    apply taken.trans
    by_contra below
    exact outside ⟨.inr ⟨k, Nat.lt_of_not_le below⟩, rfl⟩

theorem drawPlaces_injective (count : ℕ) : Function.Injective (drawPlaces count) :=
  Fin.val_injective.sumMap Fin.val_injective

/-- All draws of the dealer and of the client, `count` each, are equally likely. -/
noncomputable def uniformDraws (F : Type) [CommRing F] [Fintype F] (count : ℕ) : PMF (Fin count ⊕ Fin count → F) :=
  PMF.uniformOfFintype (Fin count ⊕ Fin count → F)

/-- Two clients that make the same calls on different secrets and reveal the same values
are told apart by no party that lacks one share: whatever is seen is seen with the same
probability. -/
theorem Session.observe_hides [Fintype F] (several : 2 ≤ ctx.partyCount) (missing : hidden < ctx.partyCount)
    (alike : List.Forall₂ Call.Alike calls calls')
    (reveals : Plain.revealed <$> Plain.start.run calls = Plain.revealed <$> Plain.start.run calls')
    (room : (calls.map Call.triples).sum < 2 ^ 64) {count : ℕ}
    (dealt : (calls.map Call.triples).sum * tripleDraws ctx.partyCount ≤ count)
    (drawn : (calls.map (Call.clientDraws ctx.partyCount)).sum ≤ count) :
    (uniformDraws F count).map (fun draws => observe ctx hidden calls (padded (drawPlaces count) draws)) =
      (uniformDraws F count).map (fun draws => observe ctx hidden calls' (padded (drawPlaces count) draws)) := by
  obtain ⟨mask, beyond, same⟩ := exists_mask_observe several missing alike reveals room
  apply mask.map_uniform_eq (drawPlaces_injective count) ?_ same
  intro draws position outside
  exact beyond draws position (fresh_of_notMem_drawPlaces dealt drawn outside)

/-- Squaring 1 or -1 modulo 3 reveals the same and shows the same to the second of two parties. -/
theorem Session.observe_hides_root :
    (uniformDraws (ZMod 3) 5).map (fun draws =>
        observe ⟨2, 0, 0⟩ 0 [.input 1, .mul 0 0, .reveal 1] (padded (drawPlaces 5) draws)) =
      (uniformDraws (ZMod 3) 5).map (fun draws =>
        observe ⟨2, 0, 0⟩ 0 [.input (-1), .mul 0 0, .reveal 1] (padded (drawPlaces 5) draws)) := by
  have several : 2 ≤ (⟨2, 0, 0⟩ : ShareContext).partyCount := by decide
  have alike : List.Forall₂ Call.Alike [.input (1 : ZMod 3), .mul 0 0, .reveal 1]
      [.input (-1), .mul 0 0, .reveal 1] :=
    .cons (.input 1 (-1)) (.cons (.same _) (.cons (.same _) .nil))
  exact observe_hides several (by decide) alike rfl (by decide) (by decide) (by decide)

end Observation

end PaymentAuth.Mpc
