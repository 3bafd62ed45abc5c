import Mathlib.Algebra.BigOperators.Group.Finset.Basic
import Mathlib.Algebra.Ring.Int.Defs
import PaymentAuth.Mpc.Simulator

/-! What a dealer hands out over a whole run, draw by draw. -/

namespace PaymentAuth.Mpc

open Library

variable {F : Type}

section Sharing

variable [AddCommGroup F]

/-- The additive shares of a value that `count` draws make: the last party holds the rest. -/
def additive (count : ℕ) (value : F) (draws : ℕ → F) : SharedValue F where
  shares := (List.range count).map draws ++ [value - ((List.range count).map draws).sum]
  nonempty := by simp

theorem additive_holds {count : ℕ} {value : F} {draws : ℕ → F} :
    (additive count value draws).Holds (count + 1) value := by
  constructor
  · rw [additive, List.length_append, List.length_map, List.length_range, List.length_singleton]
  · rw [additive, List.sum_append, List.sum_singleton, add_sub_cancel]

theorem drawShares_eq (count : ℕ) (randomSum : F) (shares : List F) (rng : Tape F) :
    drawShares count randomSum shares rng =
      ((randomSum + ((List.range count).map fun j => rng.elements (rng.drawn + j)).sum,
        shares ++ (List.range count).map fun j => rng.elements (rng.drawn + j)),
          { rng with drawn := rng.drawn + count }) := by
  induction count generalizing randomSum shares rng with
  | zero => simp [drawShares]
  | succ count ih =>
    have shifted : ((fun j => rng.elements (rng.drawn + j)) ∘ Nat.succ) =
        fun j => rng.elements (rng.drawn + 1 + j) := by
      funext j
      rw [Function.comp_apply, Nat.succ_eq_add_one, Nat.add_comm j 1, Nat.add_assoc]
    simp only [drawShares, ih, List.range_succ_eq_map, List.map_cons, List.map_map, shifted, Tape.rand, List.sum_cons,
      List.append_assoc, List.singleton_append, Nat.add_zero, add_assoc, Nat.add_comm 1 count]

theorem sharedFrom_eq {ctx : ShareContext} (several : 1 < ctx.partyCount) (value : F) (rng : Tape F) :
    sharedFrom ctx value rng =
      .ok (additive (ctx.partyCount - 1) value fun j => rng.elements (rng.drawn + j),
        { rng with drawn := rng.drawn + (ctx.partyCount - 1) }) := by
  have several' : ¬ctx.partyCount ≤ 1 := Nat.not_le.mpr several
  simp [sharedFrom, shareInput, Outcome.reject_of_not several', drawShares_eq, SharedValue.fromShares, additive]

end Sharing

section Dealing

variable [CommRing F]

/-- The draws that one triple takes: its factors and the shares of three values. -/
def tripleDraws (parties : ℕ) : ℕ := 2 + 3 * (parties - 1)

/-- The triple that the draws from a position on make. -/
def dealtTriple (parties : ℕ) (draws : ℕ → F) (position : ℕ) : BeaverTriple F where
  a := additive (parties - 1) (draws position) fun j => draws (position + 2 + j)
  b := additive (parties - 1) (draws (position + 1)) fun j => draws (position + 2 + (parties - 1) + j)
  c := additive (parties - 1) (draws position * draws (position + 1)) fun j =>
    draws (position + 2 + (parties - 1) + (parties - 1) + j)

/-- Shares of two factors and of their product. -/
def BeaverTriple.Valid (triple : BeaverTriple F) (parties : ℕ) : Prop :=
  ∃ a b, triple.a.Holds parties a ∧ triple.b.Holds parties b ∧ triple.c.Holds parties (a * b)

theorem dealtTriple_holds {parties : ℕ} (positive : 0 < parties) (draws : ℕ → F) (position : ℕ) :
    (dealtTriple parties draws position).a.Holds parties (draws position) ∧
      (dealtTriple parties draws position).b.Holds parties (draws (position + 1)) ∧
        (dealtTriple parties draws position).c.Holds parties (draws position * draws (position + 1)) := by
  obtain ⟨others, rfl⟩ := Nat.exists_eq_add_one_of_ne_zero positive.ne'
  exact ⟨additive_holds, additive_holds, additive_holds⟩

namespace LocalTrustedTripleProvider

/-- Takes triples one after the other. -/
def supply : ℕ → LocalTrustedTripleProvider F →
    Outcome MpcError (List (BeaverTriple F) × LocalTrustedTripleProvider F)
  | 0, provider => .ok ([], provider)
  | count + 1, provider => do
    let (triple, provider) ← provider.nextTriple
    let (triples, provider) ← supply count provider
    .ok (triple :: triples, provider)

variable {provider : LocalTrustedTripleProvider F} {issued : ℕ}

/-- The provider after one more triple. -/
def advance (provider : LocalTrustedTripleProvider F) : LocalTrustedTripleProvider F where
  ctx := provider.ctx
  rng := { provider.rng with drawn := provider.rng.drawn + tripleDraws provider.ctx.partyCount }
  nextId := provider.nextId + 1
  issuedIds := insert provider.nextId provider.issuedIds

theorem nextTriple_eq (several : 1 < provider.ctx.partyCount) (room : provider.nextId.toNat + 1 < 2 ^ 64)
    (fresh : provider.nextId ∉ provider.issuedIds) :
    provider.nextTriple =
      .ok (dealtTriple provider.ctx.partyCount provider.rng.elements provider.rng.drawn, provider.advance) := by
  simp only [nextTriple, issueId, Outcome.reject_of_not (Nat.not_le.mpr room), Outcome.reject_of_not fresh,
    Outcome.ok_bind, sharedFrom_eq several, Tape.rand, advance, tripleDraws, dealtTriple]
  congr 4
  omega

theorem Ready.nextTriple_eq {parties : ℕ} (ready : provider.Ready parties issued) (several : 1 < parties)
    (room : issued + 1 < 2 ^ 64) :
    provider.nextTriple = .ok (dealtTriple parties provider.rng.elements provider.rng.drawn, provider.advance) := by
  have space : provider.nextId.toNat + 1 < 2 ^ 64 := Nat.lt_of_le_of_lt (Nat.succ_le_succ ready.issued) room
  have fresh : provider.nextId ∉ provider.issuedIds := fun member => Nat.lt_irrefl _ (ready.used _ member)
  obtain rfl := ready.parties
  exact LocalTrustedTripleProvider.nextTriple_eq several space fresh

/-- Where a provider stands after `issued` triples. -/
structure Dealt (ctx : ShareContext) (draws : ℕ → F) (issued : ℕ) (provider : LocalTrustedTripleProvider F) : Prop where
  context : provider.ctx = ctx
  rng : provider.rng = ⟨draws, issued * tripleDraws ctx.partyCount⟩
  next : provider.nextId.toNat = issued
  used : ∀ id, id ∈ provider.issuedIds ↔ id.toNat < issued

variable {ctx : ShareContext} {draws : ℕ → F}

omit [CommRing F] in
theorem Dealt.advance (dealt : Dealt ctx draws issued provider) (room : issued + 1 < 2 ^ 64) :
    Dealt ctx draws (issued + 1) provider.advance where
  context := dealt.context
  rng := by rw [LocalTrustedTripleProvider.advance, dealt.rng, dealt.context, Nat.succ_mul]
  next := by
    rw [LocalTrustedTripleProvider.advance, UInt64.toNat_add, UInt64.toNat_one, dealt.next, Nat.mod_eq_of_lt room]
  used id := by
    rw [LocalTrustedTripleProvider.advance, Finset.mem_insert, dealt.used, Nat.lt_succ_iff_lt_or_eq, or_comm,
      ← UInt64.toNat_inj, dealt.next]

/-- One more triple: the next stretch of draws, or no identifier left. -/
theorem Dealt.nextTriple (dealt : Dealt ctx draws issued provider) (several : 1 < ctx.partyCount) :
    provider.nextTriple =
      if issued + 1 < 2 ^ 64 then
        .ok (dealtTriple ctx.partyCount draws (issued * tripleDraws ctx.partyCount), provider.advance)
      else .error .tripleExhaustion := by
  by_cases room : issued + 1 < 2 ^ 64
  · have fresh : provider.nextId ∉ provider.issuedIds := by
      rw [dealt.used, dealt.next]
      exact Nat.lt_irrefl issued
    rw [if_pos room, nextTriple_eq (dealt.context ▸ several) (dealt.next ▸ room) fresh, dealt.context, dealt.rng]
  · rw [if_neg room, LocalTrustedTripleProvider.nextTriple, issueId,
      Outcome.reject, if_pos (show provider.nextId.toNat + 1 ≥ 2 ^ 64 by rw [dealt.next]; omega)]
    rfl

theorem Dealt.supply (dealt : Dealt ctx draws issued provider) (several : 1 < ctx.partyCount) {count : ℕ}
    (room : issued + count < 2 ^ 64) :
    ∃ next, provider.supply count =
      .ok ((List.range count).map fun k =>
        dealtTriple ctx.partyCount draws ((issued + k) * tripleDraws ctx.partyCount), next) ∧
        Dealt ctx draws (issued + count) next := by
  induction count generalizing issued provider with
  | zero => exact ⟨provider, rfl, dealt⟩
  | succ count ih =>
    obtain ⟨next, supplies, dealt'⟩ := ih (dealt.advance (by omega)) (by omega)
    refine ⟨next, ?_, by rwa [Nat.add_assoc, Nat.add_comm 1 count] at dealt'⟩
    have later : (fun k => dealtTriple ctx.partyCount draws ((issued + k) * tripleDraws ctx.partyCount)) ∘ Nat.succ =
        fun k => dealtTriple ctx.partyCount draws ((issued + 1 + k) * tripleDraws ctx.partyCount) := by
      funext k
      rw [Function.comp_apply, Nat.succ_eq_add_one, Nat.add_assoc issued 1, Nat.add_comm 1 k]
    simp only [LocalTrustedTripleProvider.supply, dealt.nextTriple several, if_pos (show issued + 1 < 2 ^ 64 by omega),
      Outcome.ok_bind, supplies, List.range_succ_eq_map, List.map_cons, List.map_map, Nat.add_zero, later]

theorem Dealt.supply_exhausted (dealt : Dealt ctx draws issued provider) (several : 1 < ctx.partyCount) {count : ℕ}
    (positive : 0 < count) (beyond : 2 ^ 64 ≤ issued + count) : provider.supply count = .error .tripleExhaustion := by
  induction count generalizing issued provider with
  | zero => exact absurd positive (Nat.lt_irrefl 0)
  | succ count ih =>
    rw [LocalTrustedTripleProvider.supply, dealt.nextTriple several]
    by_cases room : issued + 1 < 2 ^ 64
    · have exhausted := ih (dealt.advance room) (by omega) (by omega)
      simp only [if_pos room, Outcome.ok_bind, exhausted]
      rfl
    · rw [if_neg room]
      rfl

/-- A fresh provider supplies every triple that has an identifier, each a valid one from
draws of its own, and then reports exhaustion; it never finds an identifier in use. -/
theorem supply_new {ctx : ShareContext} (several : 2 ≤ ctx.partyCount) (elements : ℕ → F) (count : ℕ) :
    (count < 2 ^ 64 → ∃ triples final, (new ctx ⟨elements, 0⟩ >>= supply count) = .ok (triples, final) ∧
      triples = (List.range count).map (fun k =>
        dealtTriple ctx.partyCount elements (k * tripleDraws ctx.partyCount)) ∧
      (∀ triple ∈ triples, triple.Valid ctx.partyCount) ∧ Dealt ctx elements count final) ∧
    (2 ^ 64 ≤ count → (new ctx ⟨elements, 0⟩ >>= supply count) = .error .tripleExhaustion) := by
  have fresh : Dealt ctx elements 0 ⟨ctx, ⟨elements, 0⟩, 0, ∅⟩ :=
    ⟨rfl, by rw [Nat.zero_mul], rfl, fun id => iff_of_false (Finset.notMem_empty id) (Nat.not_lt_zero _)⟩
  rw [new, Outcome.reject_of_not (Nat.not_le.mpr several), Outcome.ok_bind, Outcome.ok_bind]
  constructor
  · intro room
    obtain ⟨final, supplies, dealt⟩ := fresh.supply several (by rwa [Nat.zero_add])
    rw [Nat.zero_add] at dealt
    simp only [Nat.zero_add] at supplies
    refine ⟨_, final, supplies, rfl, ?_, dealt⟩
    intro triple supplied
    obtain ⟨k, _, rfl⟩ := List.mem_map.mp supplied
    exact ⟨_, _, dealtTriple_holds (Nat.zero_lt_of_lt several) elements _⟩
  · intro beyond
    exact fresh.supply_exhausted several (by omega) (by omega)

/-- Three parties take a triple and then one too many. -/
theorem supply_new_three :
    (∃ final, (new ⟨3, 0, 0⟩ ⟨fun k : ℕ => (k : ℤ), 0⟩ >>= supply 1) =
      .ok ([dealtTriple 3 (fun k : ℕ => (k : ℤ)) 0], final)) ∧
      (new ⟨3, 0, 0⟩ ⟨fun k : ℕ => (k : ℤ), 0⟩ >>= supply (2 ^ 64)) = .error .tripleExhaustion := by
  have several : 2 ≤ (⟨3, 0, 0⟩ : ShareContext).partyCount := by decide
  obtain ⟨_, final, supplies, rfl, -, -⟩ := (supply_new several (fun k : ℕ => (k : ℤ)) 1).1 (by decide)
  exact ⟨⟨final, supplies⟩, (supply_new several (fun k : ℕ => (k : ℤ)) (2 ^ 64)).2 le_rfl⟩

end LocalTrustedTripleProvider

end Dealing

end PaymentAuth.Mpc
