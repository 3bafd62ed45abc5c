import Mathlib.Algebra.BigOperators.Group.List.Basic
import Mathlib.Algebra.Ring.Defs
import Mathlib.Tactic.Abel
import PaymentAuth.Library.Outcome

namespace PaymentAuth.Mpc

open Library

inductive MpcError where
  | invalidPartyCount
  | invalidPartyId
  | duplicateParty
  | missingParty
  | contextMismatch
  | invalidShare
  | insufficientShares
  | tripleExhaustion
  | tripleReuse
  | rngFailure
  | invalidOperation
  | revealMisuse
deriving DecidableEq, Repr

/-- Identifies a set of parties participating in one execution. -/
structure ShareContext where
  partyCount : ℕ
  executionId : UInt64
  domain : UInt8
deriving DecidableEq

def ShareContext.new (partyCount : ℕ) (executionId : UInt64) (domain : UInt8) : Outcome MpcError ShareContext := do
  Outcome.reject (partyCount ≤ 1) .invalidPartyCount
  .ok ⟨partyCount, executionId, domain⟩

/-- A generator of random field elements: its draws in order and the position of the next. -/
structure Tape (F : Type) where
  elements : ℕ → F
  drawn : ℕ

variable {F : Type}

def Tape.rand (rng : Tape F) : F × Tape F := (rng.elements rng.drawn, { rng with drawn := rng.drawn + 1 })

/-- A field element distributed additively, one share per party. -/
structure SharedValue (F : Type) where
  shares : List F
  nonempty : shares ≠ []

namespace SharedValue

/-- Builds a shared value from one share per party. -/
def fromShares (shares : List F) : Outcome MpcError (SharedValue F) :=
  if nonempty : shares ≠ [] then .ok ⟨shares, nonempty⟩ else .error .invalidShare

/-- Shares of a secret, one for each of `parties` parties. -/
structure Holds [AddMonoid F] (shared : SharedValue F) (parties : ℕ) (secret : F) : Prop where
  length : shared.shares.length = parties
  sum : shared.shares.sum = secret

end SharedValue

variable [AddCommGroup F]

/-- Draws random shares, adding them up. -/
def drawShares : ℕ → F → List F → Tape F → (F × List F) × Tape F
  | 0, randomSum, shares, rng => ((randomSum, shares), rng)
  | count + 1, randomSum, shares, rng =>
    let (r, rng) := rng.rand
    drawShares count (randomSum + r) (shares ++ [r]) rng

/-- Splits a secret into one additive share per party. -/
def shareInput (ctx : ShareContext) (secret : F) (rng : Tape F) : Outcome MpcError (List F × Tape F) := do
  Outcome.reject (ctx.partyCount ≤ 1) .invalidPartyCount
  let ((randomSum, shares), rng) := drawShares (ctx.partyCount - 1) 0 [] rng
  .ok (shares ++ [secret - randomSum], rng)

/-- Reconstructs the secret as the sum over all party shares. -/
def reconstruct (ctx : ShareContext) (shares : List F) : Outcome MpcError F := do
  Outcome.reject (shares.length < ctx.partyCount) .insufficientShares
  Outcome.reject (shares.length > ctx.partyCount) .invalidOperation
  .ok (shares.foldl (· + ·) 0)

/-- Additively shares a value across the parties of a context. -/
def sharedFrom (ctx : ShareContext) (value : F) (rng : Tape F) : Outcome MpcError (SharedValue F × Tape F) := do
  let (shares, rng) ← shareInput ctx value rng
  let shared ← (SharedValue.fromShares shares).mapError fun _ => .invalidShare
  .ok (shared, rng)

private theorem drawShares_sum (count : ℕ) (randomSum : F) (shares : List F) (rng : Tape F) :
    (drawShares count randomSum shares rng).1.2.length = shares.length + count ∧
      (drawShares count randomSum shares rng).1.2.sum - (drawShares count randomSum shares rng).1.1 =
        shares.sum - randomSum := by
  induction count generalizing randomSum shares rng with
  | zero => exact ⟨rfl, rfl⟩
  | succ count ih =>
    obtain ⟨length, sum⟩ := ih (randomSum + rng.rand.1) (shares ++ [rng.rand.1]) rng.rand.2
    refine ⟨?_, ?_⟩
    · rw [drawShares, length, List.length_append, List.length_singleton]
      omega
    · rw [drawShares, sum, List.sum_append, List.sum_singleton]
      abel

theorem sharedFrom_ok {ctx : ShareContext} (several : 1 < ctx.partyCount) (value : F) (rng : Tape F) :
    ∃ shared next, sharedFrom ctx value rng = .ok (shared, next) ∧ shared.Holds ctx.partyCount value := by
  obtain ⟨length, sum⟩ := drawShares_sum (ctx.partyCount - 1) (0 : F) [] rng
  have several' : ¬ctx.partyCount ≤ 1 := Nat.not_le.mpr several
  rcases drawn : drawShares (ctx.partyCount - 1) (0 : F) [] rng with ⟨⟨randomSum, shares⟩, next⟩
  rw [drawn] at length sum
  have nonempty : shares ++ [value - randomSum] ≠ [] := by simp
  refine ⟨⟨_, nonempty⟩, next, ?_, ?_, ?_⟩
  · simp [sharedFrom, shareInput, Outcome.reject_of_not several', drawn, SharedValue.fromShares]
  · simp only [List.length_append, length, List.length_nil, List.length_singleton]
    omega
  · simp only [List.sum_nil, sub_self] at sum
    rw [List.sum_append, List.sum_singleton, sub_eq_zero.mp sum]
    abel

theorem SharedValue.Holds.reconstruct {ctx : ShareContext} {shared : SharedValue F} {secret : F}
    (held : shared.Holds ctx.partyCount secret) : reconstruct ctx shared.shares = .ok secret := by
  have total : shared.shares.foldl (· + ·) 0 = secret := by rw [← List.sum_eq_foldl, held.sum]
  simp [Mpc.reconstruct, held.length, Outcome.reject, total]

end PaymentAuth.Mpc
