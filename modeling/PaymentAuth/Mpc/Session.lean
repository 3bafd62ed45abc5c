import Mathlib.Algebra.BigOperators.Ring.List
import Mathlib.Algebra.Ring.Int.Defs
import PaymentAuth.Library.Simulation
import PaymentAuth.Mpc.Simulator

/-! Calls on a simulator in any order, next to the same calls on plain values. -/

namespace PaymentAuth.Mpc

open Library

variable {F : Type} [CommRing F]

namespace SharedValue

/-- Adds a public value by adjusting the first party's share. -/
def addPublic (x : SharedValue F) (value : F) : SharedValue F where
  shares := x.shares.modifyHead (· + value)
  nonempty := by simp [x.nonempty]

/-- Multiplies every share by a public scalar. -/
def mulPublic (x : SharedValue F) (value : F) : SharedValue F where
  shares := x.shares.map (· * value)
  nonempty := by simp [x.nonempty]

/-- The differences between two factors and a triple's that a multiplication opens. -/
def differences (x y : SharedValue F) (triple : BeaverTriple F) : F × F :=
  ((List.zipWith (· - ·) x.shares triple.a.shares).foldl (· + ·) 0,
    (List.zipWith (· - ·) y.shares triple.b.shares).foldl (· + ·) 0)

end SharedValue

/-- Adds two shared values without interaction. -/
def MpcSimulator.add {σ : Type} (_sim : MpcSimulator F σ) (x y : SharedValue F) : Outcome MpcError (SharedValue F) := do
  let sum ← x.addSecret y
  .ok sum

/-- One call of a client; operands are positions of earlier results. -/
inductive Call (F : Type) where
  | input (secret : F)
  | addPublic (x : ℕ) (value : F)
  | mulPublic (x : ℕ) (value : F)
  | add (x y : ℕ)
  | mul (x y : ℕ)
  | reveal (x : ℕ)
deriving Repr

/-- The triples a call consumes. -/
def Call.triples : Call F → ℕ
  | .mul _ _ => 1
  | .input _ | .addPublic _ _ | .mulPublic _ _ | .add _ _ | .reveal _ => 0

/-- A multiplication as its parties see it. -/
structure Opening (F : Type) where
  triple : BeaverTriple F
  differences : F × F

/-- A simulator in use: the results and the revealed values in the order of the calls.
The openings are kept to speak about what the parties see; no call reads them. -/
structure Session (F : Type) where
  sim : MpcSimulator F (LocalTrustedTripleProvider F)
  results : List (SharedValue F)
  openings : List (Opening F)
  revealed : List F

namespace Session

def start (sim : MpcSimulator F (LocalTrustedTripleProvider F)) : Session F := ⟨sim, [], [], []⟩

/-- Makes one call. -/
def call (session : Session F) : Call F → Outcome MpcError (Session F)
  | .input secret => do
    let (shared, sim) ← session.sim.input secret
    .ok { session with sim := sim, results := session.results ++ [shared] }
  | .addPublic x value => do
    let shared ← Outcome.expect session.results[x]?
    .ok { session with results := session.results ++ [shared.addPublic value] }
  | .mulPublic x value => do
    let shared ← Outcome.expect session.results[x]?
    .ok { session with results := session.results ++ [shared.mulPublic value] }
  | .add x y => do
    let left ← Outcome.expect session.results[x]?
    let right ← Outcome.expect session.results[y]?
    let sum ← session.sim.add left right
    .ok { session with results := session.results ++ [sum] }
  | .mul x y => do
    let left ← Outcome.expect session.results[x]?
    let right ← Outcome.expect session.results[y]?
    let (triple, _) ← session.sim.provider.nextTriple
    let (product, sim) ← session.sim.mul left right
    .ok { session with
      sim := sim
      results := session.results ++ [product]
      openings := session.openings ++ [⟨triple, left.differences right triple⟩] }
  | .reveal x => do
    let shared ← Outcome.expect session.results[x]?
    let value ← session.sim.reveal shared
    .ok { session with revealed := session.revealed ++ [value] }

def run (session : Session F) (calls : List (Call F)) : Outcome MpcError (Session F) := calls.foldlM call session

end Session

/-- What the calls compute on plain values. -/
structure Plain (F : Type) where
  results : List F
  revealed : List F

namespace Plain

def start : Plain F := ⟨[], []⟩

def push (plain : Plain F) (value : F) : Plain F := { plain with results := plain.results ++ [value] }

def call (plain : Plain F) : Call F → Outcome MpcError (Plain F)
  | .input secret => .ok (plain.push secret)
  | .addPublic x value => do
    let secret ← Outcome.expect plain.results[x]?
    .ok (plain.push (secret + value))
  | .mulPublic x value => do
    let secret ← Outcome.expect plain.results[x]?
    .ok (plain.push (secret * value))
  | .add x y => do
    let left ← Outcome.expect plain.results[x]?
    let right ← Outcome.expect plain.results[y]?
    .ok (plain.push (left + right))
  | .mul x y => do
    let left ← Outcome.expect plain.results[x]?
    let right ← Outcome.expect plain.results[y]?
    .ok (plain.push (left * right))
  | .reveal x => do
    let secret ← Outcome.expect plain.results[x]?
    .ok { plain with revealed := plain.revealed ++ [secret] }

def run (plain : Plain F) (calls : List (Call F)) : Outcome MpcError (Plain F) := calls.foldlM call plain

end Plain

section Refinement

variable {shared x y : SharedValue F} {parties : ℕ} {secret left right : F}

private theorem sum_modifyHead {items : List F} (nonempty : items ≠ []) (value : F) :
    (items.modifyHead (· + value)).sum = items.sum + value := by
  cases items with
  | nil => exact absurd rfl nonempty
  | cons head rest =>
    simp only [List.modifyHead_cons, List.sum_cons]
    ring

theorem SharedValue.Holds.addPublic (held : shared.Holds parties secret) (value : F) :
    (shared.addPublic value).Holds parties (secret + value) := by
  constructor
  · rw [SharedValue.addPublic, List.length_modifyHead, held.length]
  · rw [SharedValue.addPublic, sum_modifyHead shared.nonempty, held.sum]

theorem SharedValue.Holds.mulPublic (held : shared.Holds parties secret) (value : F) :
    (shared.mulPublic value).Holds parties (secret * value) := by
  constructor
  · rw [SharedValue.mulPublic, List.length_map, held.length]
  · rw [SharedValue.mulPublic, List.sum_map_mul_right, List.map_id', held.sum]

/-- What relates a session to its plain values after `issued` multiplications. -/
structure Session.Refines (parties issued : ℕ) (session : Session F) (plain : Plain F) : Prop where
  results : List.Forall₂ (fun shared value => shared.Holds parties value) session.results plain.results
  revealed : session.revealed = plain.revealed
  context : session.sim.ctx.partyCount = parties
  ready : session.sim.provider.Ready parties issued

namespace Session.Refines

variable {issued : ℕ} {session : Session F} {plain : Plain F}

/-- Results are found at the positions of their plain values. -/
theorem found (refines : Refines parties issued session plain) (x : ℕ) :
    Option.Rel (fun shared value => shared.Holds parties value) session.results[x]? plain.results[x]? :=
  Outcome.found_of_forall₂ refines.results x

theorem push (refines : Refines parties issued session plain) {value : F} (held : shared.Holds parties value)
    {sim : MpcSimulator F (LocalTrustedTripleProvider F)} {openings : List (Opening F)} {issued' : ℕ}
    (context : sim.ctx.partyCount = parties) (ready : sim.provider.Ready parties issued') :
    Refines parties issued' ⟨sim, session.results ++ [shared], openings, session.revealed⟩ (plain.push value) where
  results := List.rel_append refines.results (.cons held .nil)
  revealed := refines.revealed
  context := context
  ready := ready

/-- One call: both sides return related states, or neither finds an operand. -/
theorem call (refines : Refines parties issued session plain) (several : 1 < parties) (call : Call F)
    (room : issued + call.triples < 2 ^ 64) :
    Outcome.Related (Refines parties (issued + call.triples)) (session.call call) (plain.call call) := by
  have waits := refines.ready
  cases call with
  | input secret =>
    obtain ⟨shared, rng, shares, held⟩ := sharedFrom_ok (refines.context ▸ several) secret session.sim.rng
    rw [Session.call, MpcSimulator.input, shares]
    rw [refines.context] at held
    exact .ok (refines.push held refines.context waits)
  | addPublic x value =>
    refine (Outcome.Related.expect (refines.found x)).bind fun shared secret held => ?_
    exact .ok (refines.push (held.addPublic value) refines.context waits)
  | mulPublic x value =>
    refine (Outcome.Related.expect (refines.found x)).bind fun shared secret held => ?_
    exact .ok (refines.push (held.mulPublic value) refines.context waits)
  | add x y =>
    refine (Outcome.Related.expect (refines.found x)).bind fun shared secret held => ?_
    refine (Outcome.Related.expect (refines.found y)).bind fun shared' secret' held' => ?_
    obtain ⟨sum, adds, held⟩ := held.addSecret held'
    rw [MpcSimulator.add, adds]
    exact .ok (refines.push held refines.context waits)
  | mul x y =>
    refine (Outcome.Related.expect (refines.found x)).bind fun shared secret held => ?_
    refine (Outcome.Related.expect (refines.found y)).bind fun shared' secret' held' => ?_
    obtain ⟨triple, _, _, _, supplied, -⟩ := refines.ready.nextTriple several room
    obtain ⟨product, provider, multiplies, held, ready⟩ := held.mulSecret held' refines.ready several room
    rw [supplied, Outcome.ok_bind, MpcSimulator.mul, multiplies]
    exact .ok (refines.push held refines.context ready)
  | reveal x =>
    refine (Outcome.Related.expect (refines.found x)).bind fun shared secret held => ?_
    rw [MpcSimulator.reveal_ok (refines.context.symm ▸ held)]
    exact .ok ⟨refines.results, by rw [refines.revealed], refines.context, waits⟩

end Session.Refines

theorem Session.run_related {session : Session F} {plain : Plain F} {issued : ℕ} (several : 1 < parties)
    (refines : Refines parties issued session plain) {calls : List (Call F)}
    (room : issued + (calls.map Call.triples).sum < 2 ^ 64) :
    Outcome.Related (Refines parties (issued + (calls.map Call.triples).sum)) (session.run calls)
      (plain.run calls) := by
  have paired : List.Forall₂ Eq calls calls := List.forall₂_eq_eq_eq ▸ rfl
  refine Outcome.Related.foldlM ?_ paired le_rfl refines
  rintro issued session plain call _ below refines rfl
  exact refines.call several call (by omega)

/-- Whatever calls a client makes, in whatever order, a fresh simulator reveals what
they compute on plain values; it returns exactly when every operand is there. -/
theorem Session.run_refines {ctx : ShareContext} (several : 2 ≤ ctx.partyCount) (dealerTape tape : Tape F)
    (calls : List (Call F)) (room : (calls.map Call.triples).sum < 2 ^ 64) :
    ∃ provider sim, LocalTrustedTripleProvider.new ctx dealerTape = .ok provider ∧
      MpcSimulator.new ctx provider tape = .ok sim ∧
        Session.revealed <$> (Session.start sim).run calls = Plain.revealed <$> Plain.start.run calls := by
  have alone : ¬ctx.partyCount ≤ 1 := Nat.not_le.mpr several
  refine ⟨⟨ctx, dealerTape, 0, ∅⟩, ⟨ctx, ⟨ctx, dealerTape, 0, ∅⟩, tape⟩, ?_, ?_, ?_⟩
  · rw [LocalTrustedTripleProvider.new, Outcome.reject_of_not alone, Outcome.ok_bind]
  · rw [MpcSimulator.new, Outcome.reject_of_not alone, Outcome.ok_bind]
  · have fresh : Refines ctx.partyCount 0 (Session.start ⟨ctx, ⟨ctx, dealerTape, 0, ∅⟩, tape⟩) Plain.start :=
      ⟨.nil, rfl, rfl, rfl, Nat.zero_le _, fun _ issued => absurd issued (Finset.notMem_empty _)⟩
    refine (Session.run_related several fresh (by rwa [Nat.zero_add])).map_eq ?_
    intro session plain refines
    exact refines.revealed

/-- Two parties square a secret. -/
theorem Session.run_refines_square :
    ∃ provider sim, LocalTrustedTripleProvider.new ⟨2, 0, 0⟩ (⟨fun k => k, 0⟩ : Tape ℤ) = .ok provider ∧
      MpcSimulator.new ⟨2, 0, 0⟩ provider (⟨fun _ => 1, 0⟩ : Tape ℤ) = .ok sim ∧
        Session.revealed <$> (Session.start sim).run [.input 3, .mul 0 0, .reveal 0, .reveal 1] = .ok [3, 9] :=
  run_refines (by decide) (⟨fun k => k, 0⟩ : Tape ℤ) ⟨fun _ => 1, 0⟩
    [.input 3, .mul 0 0, .reveal 0, .reveal 1] (by decide)

end Refinement

end PaymentAuth.Mpc
