import Mathlib.Data.Finset.Insert
import Mathlib.Tactic.Ring
import PaymentAuth.Mpc.Sharing

namespace PaymentAuth.Mpc

open Library

/-- A shared multiplication triple. -/
structure BeaverTriple (F : Type) where
  a : SharedValue F
  b : SharedValue F
  c : SharedValue F

/-- Supplies fresh triples to the arithmetic. -/
class TripleProvider (F : outParam Type) (σ : Type) where
  nextTriple : σ → Outcome MpcError (BeaverTriple F × σ)

/-- A trusted dealer that generates triples locally; `issuedIds` records what it handed out. -/
structure LocalTrustedTripleProvider (F : Type) where
  ctx : ShareContext
  rng : Tape F
  nextId : UInt64
  issuedIds : Finset UInt64

variable {F : Type} [CommRing F]

namespace LocalTrustedTripleProvider

def new (ctx : ShareContext) (rng : Tape F) : Outcome MpcError (LocalTrustedTripleProvider F) := do
  Outcome.reject (ctx.partyCount ≤ 1) .invalidPartyCount
  .ok ⟨ctx, rng, 0, ∅⟩

def issueId (provider : LocalTrustedTripleProvider F) :
    Outcome MpcError (UInt64 × LocalTrustedTripleProvider F) := do
  Outcome.reject (provider.nextId.toNat + 1 ≥ 2 ^ 64) .tripleExhaustion
  Outcome.reject (provider.nextId ∈ provider.issuedIds) .tripleReuse
  .ok (provider.nextId,
    { provider with issuedIds := insert provider.nextId provider.issuedIds, nextId := provider.nextId + 1 })

def nextTriple (provider : LocalTrustedTripleProvider F) :
    Outcome MpcError (BeaverTriple F × LocalTrustedTripleProvider F) := do
  let (_, provider) ← provider.issueId
  let (aValue, rng) := provider.rng.rand
  let (bValue, rng) := rng.rand
  let cValue := aValue * bValue
  let (a, rng) ← sharedFrom provider.ctx aValue rng
  let (b, rng) ← sharedFrom provider.ctx bValue rng
  let (c, rng) ← sharedFrom provider.ctx cValue rng
  .ok (⟨a, b, c⟩, { provider with rng := rng })

instance : TripleProvider F (LocalTrustedTripleProvider F) := ⟨nextTriple⟩

/-- What a provider keeps: every identifier it issued is below the next one. -/
structure Ready (provider : LocalTrustedTripleProvider F) (parties issued : ℕ) : Prop where
  parties : provider.ctx.partyCount = parties
  issued : provider.nextId.toNat ≤ issued
  used : ∀ id ∈ provider.issuedIds, id.toNat < provider.nextId.toNat

end LocalTrustedTripleProvider

/-- Adds two shared values, party-wise. -/
def SharedValue.addSecret (x y : SharedValue F) : Outcome MpcError (SharedValue F) := do
  Outcome.reject (x.shares.length ≠ y.shares.length) .contextMismatch
  .ok ⟨List.zipWith (· + ·) x.shares y.shares, by simp [List.zipWith_eq_nil_iff, x.nonempty, y.nonempty]⟩

/-- One party's share of a product from its triple shares and the opened differences. -/
def productShare (d e : F) : (F × ℕ) × F × F → F
  | ((c, index), b, a) =>
    let z := c + d * b + e * a
    if index = 0 then z + d * e else z

/-- Multiplies two shared values with a fresh triple. -/
def SharedValue.mulSecret {σ : Type} [TripleProvider F σ] (x y : SharedValue F) (provider : σ) :
    Outcome MpcError (SharedValue F × σ) := do
  Outcome.reject (x.shares.length ≠ y.shares.length) .contextMismatch
  let (triple, provider) ← TripleProvider.nextTriple provider
  let ⟨a, b, c⟩ := triple
  Outcome.reject (a.shares.length ≠ x.shares.length ∨ b.shares.length ≠ x.shares.length ∨
    c.shares.length ≠ x.shares.length) .contextMismatch
  let d := (List.zipWith (· - ·) x.shares a.shares).foldl (· + ·) 0
  let e := (List.zipWith (· - ·) y.shares b.shares).foldl (· + ·) 0
  .ok (⟨(c.shares.zipIdx.zip (b.shares.zip a.shares)).map (productShare d e),
    by simp [List.zip_eq_nil_iff, a.nonempty, b.nonempty, c.nonempty]⟩, provider)

/-- A locally simulated execution. -/
structure MpcSimulator (F σ : Type) where
  ctx : ShareContext
  provider : σ
  rng : Tape F

namespace MpcSimulator

variable {σ : Type}

def new (ctx : ShareContext) (provider : σ) (rng : Tape F) : Outcome MpcError (MpcSimulator F σ) := do
  Outcome.reject (ctx.partyCount ≤ 1) .invalidPartyCount
  .ok ⟨ctx, provider, rng⟩

/-- Secretly shares a value across all parties. -/
def input (sim : MpcSimulator F σ) (secret : F) : Outcome MpcError (SharedValue F × MpcSimulator F σ) := do
  let (shared, rng) ← sharedFrom sim.ctx secret sim.rng
  .ok (shared, { sim with rng := rng })

/-- Reconstructs the plaintext behind a shared value. -/
def reveal (sim : MpcSimulator F σ) (shared : SharedValue F) : Outcome MpcError F := do
  Outcome.reject (shared.shares.length ≠ sim.ctx.partyCount) .revealMisuse
  reconstruct sim.ctx shared.shares

/-- Multiplies two shared values, consuming one triple. -/
def mul [TripleProvider F σ] (sim : MpcSimulator F σ) (x y : SharedValue F) :
    Outcome MpcError (SharedValue F × MpcSimulator F σ) := do
  let (product, provider) ← x.mulSecret y sim.provider
  .ok (product, { sim with provider := provider })

end MpcSimulator

section Correctness

variable {x y shared : SharedValue F} {left right secret : F} {parties issued : ℕ}

private theorem sum_zipWith_add {first second : List F} (same : first.length = second.length) :
    (List.zipWith (· + ·) first second).sum = first.sum + second.sum := by
  induction first generalizing second with
  | nil => simp [List.length_eq_zero_iff.mp same.symm]
  | cons head rest ih =>
    cases second with
    | nil => simp at same
    | cons head' rest' =>
      rw [List.zipWith_cons_cons, List.sum_cons, List.sum_cons, List.sum_cons, ih (by simpa using same)]
      ring

theorem sum_zipWith_sub {first second : List F} (same : first.length = second.length) :
    (List.zipWith (· - ·) first second).sum = first.sum - second.sum := by
  induction first generalizing second with
  | nil => simp [List.length_eq_zero_iff.mp same.symm]
  | cons head rest ih =>
    cases second with
    | nil => simp at same
    | cons head' rest' =>
      rw [List.zipWith_cons_cons, List.sum_cons, List.sum_cons, List.sum_cons, ih (by simpa using same)]
      ring

/-- Past the first party the product shares add up without the constant term. -/
private theorem sum_productShare (d e : F) {a b c : List F} (sameB : b.length = c.length) (sameA : a.length = c.length)
    (start : ℕ) :
    (((c.zipIdx (start + 1)).zip (b.zip a)).map (productShare d e)).sum = c.sum + d * b.sum + e * a.sum := by
  induction c generalizing a b start with
  | nil => simp [List.length_eq_zero_iff.mp sameA, List.length_eq_zero_iff.mp sameB]
  | cons head rest ih =>
    cases b with
    | nil => simp at sameB
    | cons headB restB =>
      cases a with
      | nil => simp at sameA
      | cons headA restA =>
        have others := ih (by simpa using sameB) (by simpa using sameA) (start + 1)
        simp only [List.zipIdx_cons, List.zip_cons_cons, List.map_cons, List.sum_cons, others, productShare,
          Nat.add_eq_zero_iff, Nat.one_ne_zero, and_false, if_false]
        ring

/-- The first party's share carries the constant term. -/
private theorem sum_productShares (d e : F) {a b c : List F} (sameB : b.length = c.length)
    (sameA : a.length = c.length) (nonempty : c ≠ []) :
    ((c.zipIdx.zip (b.zip a)).map (productShare d e)).sum = c.sum + d * b.sum + e * a.sum + d * e := by
  cases c with
  | nil => exact absurd rfl nonempty
  | cons head rest =>
    cases b with
    | nil => simp at sameB
    | cons headB restB =>
      cases a with
      | nil => simp at sameA
      | cons headA restA =>
        have others := sum_productShare d e (a := restA) (b := restB) (c := rest)
          (by simpa using sameB) (by simpa using sameA) 0
        simp only [List.zipIdx_cons, List.zip_cons_cons, List.map_cons, List.sum_cons, others, productShare, if_true]
        ring

theorem SharedValue.Holds.addSecret (first : x.Holds parties left) (second : y.Holds parties right) :
    ∃ sum, x.addSecret y = .ok sum ∧ sum.Holds parties (left + right) := by
  have same : x.shares.length = y.shares.length := first.length.trans second.length.symm
  refine ⟨_, by rw [SharedValue.addSecret, Outcome.reject_of_not (not_not.mpr same)]; rfl, ?_, ?_⟩
  · rw [List.length_zipWith, same, min_self, second.length]
  · rw [sum_zipWith_add same, first.sum, second.sum]

omit [CommRing F] in
private theorem LocalTrustedTripleProvider.Ready.issueId {provider : LocalTrustedTripleProvider F}
    (ready : provider.Ready parties issued) (room : issued + 1 < 2 ^ 64) :
    ∃ (id : UInt64) (next : LocalTrustedTripleProvider F), provider.issueId = .ok (id, next) ∧
      next.Ready parties (issued + 1) := by
  obtain ⟨sameParties, few, used⟩ := ready
  have fresh : provider.nextId ∉ provider.issuedIds := fun member => Nat.lt_irrefl _ (used _ member)
  have space : ¬provider.nextId.toNat + 1 ≥ 2 ^ 64 := by omega
  have advanced : (provider.nextId + 1).toNat = provider.nextId.toNat + 1 := by
    rw [UInt64.toNat_add, UInt64.toNat_one, Nat.mod_eq_of_lt (by omega)]
  refine ⟨provider.nextId,
    { provider with issuedIds := insert provider.nextId provider.issuedIds, nextId := provider.nextId + 1 },
    ?_, sameParties, ?_, ?_⟩
  · rw [LocalTrustedTripleProvider.issueId, Outcome.reject_of_not space, Outcome.reject_of_not fresh]
    rfl
  · rw [advanced]
    omega
  · intro id member
    rw [advanced]
    rcases Finset.mem_insert.mp member with rfl | earlier
    · exact Nat.lt_succ_self _
    · exact Nat.lt_succ_of_lt (used id earlier)

/-- A ready provider hands out a valid triple and stays ready. -/
theorem LocalTrustedTripleProvider.Ready.nextTriple {provider : LocalTrustedTripleProvider F}
    (ready : provider.Ready parties issued) (several : 1 < parties) (room : issued + 1 < 2 ^ 64) :
    ∃ triple next a b, provider.nextTriple = .ok (triple, next) ∧ next.Ready parties (issued + 1) ∧
      triple.a.Holds parties a ∧ triple.b.Holds parties b ∧ triple.c.Holds parties (a * b) := by
  obtain ⟨id, counted, issues, ready'⟩ := ready.issueId room
  obtain rfl := ready'.parties
  obtain ⟨a, afterA, sharesA, holdsA⟩ := sharedFrom_ok several counted.rng.rand.1 counted.rng.rand.2.rand.2
  obtain ⟨b, afterB, sharesB, holdsB⟩ := sharedFrom_ok several counted.rng.rand.2.rand.1 afterA
  obtain ⟨c, afterC, sharesC, holdsC⟩ := sharedFrom_ok several (counted.rng.rand.1 * counted.rng.rand.2.rand.1) afterB
  refine ⟨⟨a, b, c⟩, { counted with rng := afterC }, _, _, ?_,
    ⟨rfl, ready'.issued, ready'.used⟩, holdsA, holdsB, holdsC⟩
  simp only [LocalTrustedTripleProvider.nextTriple, issues, sharesA, sharesB, sharesC, Outcome.ok_bind]

theorem SharedValue.Holds.mulSecret {provider : LocalTrustedTripleProvider F} (first : x.Holds parties left)
    (second : y.Holds parties right) (ready : provider.Ready parties issued) (several : 1 < parties)
    (room : issued + 1 < 2 ^ 64) :
    ∃ product next, x.mulSecret y provider = .ok (product, next) ∧ product.Holds parties (left * right) ∧
      next.Ready parties (issued + 1) := by
  obtain ⟨⟨a, b, c⟩, next, aValue, bValue, supplied, ready', holdsA, holdsB, holdsC⟩ := ready.nextTriple several room
  have same : x.shares.length = y.shares.length := first.length.trans second.length.symm
  have sameA : a.shares.length = x.shares.length := holdsA.length.trans first.length.symm
  have sameB : b.shares.length = x.shares.length := holdsB.length.trans first.length.symm
  have sameC : c.shares.length = x.shares.length := holdsC.length.trans first.length.symm
  have supplied' : TripleProvider.nextTriple provider = .ok (⟨a, b, c⟩, next) := supplied
  refine ⟨_, next, by simp only [SharedValue.mulSecret, supplied', same, sameA, sameB, sameC,
    Outcome.ok_bind, ne_eq, not_true_eq_false, or_self, Outcome.reject_of_not not_false]; rfl, ⟨?_, ?_⟩, ready'⟩
  · simp only [List.length_map, List.length_zip, List.length_zipIdx, holdsA.length, holdsB.length, holdsC.length,
      min_self]
  · rw [sum_productShares _ _ (sameB.trans sameC.symm) (sameA.trans sameC.symm) c.nonempty, ← List.sum_eq_foldl,
      ← List.sum_eq_foldl, sum_zipWith_sub sameA.symm, sum_zipWith_sub (same.symm.trans sameB.symm), holdsA.sum,
      holdsB.sum, holdsC.sum, first.sum, second.sum]
    ring

theorem MpcSimulator.reveal_ok {σ : Type} {sim : MpcSimulator F σ} (held : shared.Holds sim.ctx.partyCount secret) :
    sim.reveal shared = .ok secret := by
  rw [MpcSimulator.reveal, Outcome.reject_of_not (not_not.mpr held.length), Outcome.ok_bind, held.reconstruct]

end Correctness

end PaymentAuth.Mpc
