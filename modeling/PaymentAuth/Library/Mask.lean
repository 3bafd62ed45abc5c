import Mathlib.Algebra.Group.Pi.Basic
import Mathlib.Probability.Distributions.Uniform

/-! Independent draws under a mask: the amounts added to some draws may depend on
others, whose own amounts are fixed. A mask moves no probability. -/

namespace Library

universe u v w

variable {ι : Type u} {F : Type v} [AddCommGroup F]

/-- Amounts to add to draws. At the steady positions they are the same for all draws, and
elsewhere they depend on the steady draws only. -/
structure Mask (F : Type v) [AddCommGroup F] (steady : Set ι) where
  amount : (ι → F) → ι → F
  fixed : ∀ draws draws' i, i ∈ steady → amount draws i = amount draws' i
  reads : ∀ draws draws', (∀ i ∈ steady, draws i = draws' i) → amount draws = amount draws'

namespace Mask

variable {steady : Set ι}

/-- No change. -/
def none : Mask F steady := ⟨fun _ _ => 0, fun _ _ _ _ => rfl, fun _ _ _ => rfl⟩

/-- Two changes at once. -/
def both (first second : Mask F steady) : Mask F steady where
  amount draws i := first.amount draws i + second.amount draws i
  fixed draws draws' i held := by rw [first.fixed draws draws' i held, second.fixed draws draws' i held]
  reads draws draws' same := by rw [first.reads draws draws' same, second.reads draws draws' same]

theorem both_amount (first second : Mask F steady) (draws : ι → F) (i : ι) :
    (first.both second).amount draws i = first.amount draws i + second.amount draws i := rfl

/-- A mask is undone by reading the steady draws back first. -/
def equiv (mask : Mask F steady) : (ι → F) ≃ (ι → F) where
  toFun draws := draws + mask.amount draws
  invFun draws := draws - mask.amount (draws - mask.amount 0)
  left_inv draws := by
    have same : mask.amount (draws + mask.amount draws - mask.amount 0) = mask.amount draws := by
      apply mask.reads
      intro i held
      rw [Pi.sub_apply, Pi.add_apply, mask.fixed draws 0 i held, add_sub_cancel_right]
    simp only [same, add_sub_cancel_right]
  right_inv draws := by
    have same : mask.amount (draws - mask.amount (draws - mask.amount 0)) = mask.amount (draws - mask.amount 0) := by
      apply mask.reads
      intro i held
      rw [Pi.sub_apply, Pi.sub_apply, mask.fixed (draws - mask.amount 0) 0 i held]
    simp only [same, sub_add_cancel]

theorem equiv_apply (mask : Mask F steady) (draws : ι → F) (i : ι) :
    mask.equiv draws i = draws i + mask.amount draws i := rfl

end Mask

section Law

variable {κ : Type w} {V : Type w} {place : κ → ι}

/-- A bijection of the outcomes leaves the uniform law as it is. -/
theorem map_uniform_of_bijective {α : Type w} [Fintype α] [Nonempty α] {f : α → α} (bijective : Function.Bijective f) :
    (PMF.uniformOfFintype α).map f = PMF.uniformOfFintype α := by
  ext value
  obtain ⟨origin, rfl⟩ := bijective.surjective value
  rw [PMF.map_apply, tsum_eq_single origin]
  · rw [if_pos rfl, PMF.uniformOfFintype_apply, PMF.uniformOfFintype_apply]
  · intro other differs
    exact if_neg fun same => differs (bijective.injective same.symm)

/-- Finitely many draws as a stream, zero elsewhere. -/
noncomputable def padded (place : κ → ι) (draws : κ → F) : ι → F := Function.extend place draws 0

/-- What a mask makes of finitely many draws when it changes nothing else. -/
theorem Mask.equiv_padded {steady : Set ι} (mask : Mask F steady) (places : Function.Injective place)
    (inside : ∀ draws i, i ∉ Set.range place → mask.amount draws i = 0) (draws : κ → F) :
    mask.equiv (padded place draws) = padded place (mask.equiv (padded place draws) ∘ place) := by
  funext i
  by_cases placed : i ∈ Set.range place
  · obtain ⟨k, rfl⟩ := placed
    exact (places.extend_apply (mask.equiv (padded place draws) ∘ place) 0 k).symm
  · have absent : ¬∃ k, place k = i := placed
    rw [Mask.equiv_apply, inside _ i placed, padded, padded, Function.extend_apply' _ _ _ absent,
      Function.extend_apply' _ _ _ absent, add_zero]

/-- Two observations that a mask takes into each other have the same law. -/
theorem Mask.map_uniform_eq [Fintype κ] [DecidableEq κ] [Fintype F] {steady : Set ι} (mask : Mask F steady)
    (places : Function.Injective place) (inside : ∀ draws i, i ∉ Set.range place → mask.amount draws i = 0)
    {view view' : (ι → F) → V} (same : ∀ draws, view' (mask.equiv draws) = view draws) :
    (PMF.uniformOfFintype (κ → F)).map (fun draws => view (padded place draws)) =
      (PMF.uniformOfFintype (κ → F)).map (fun draws => view' (padded place draws)) := by
  have injective : Function.Injective fun draws : κ → F => mask.equiv (padded place draws) ∘ place := by
    intro first second agree
    have agree' := congrArg (padded place) agree
    simp only [← mask.equiv_padded places inside] at agree'
    exact Function.extend_injective places (0 : ι → F) (mask.equiv.injective agree')
  have carried : (fun draws : κ → F => view (padded place draws)) =
      (fun draws => view' (padded place draws)) ∘ fun draws => mask.equiv (padded place draws) ∘ place := by
    funext draws
    rw [Function.comp_apply, ← mask.equiv_padded places inside, same]
  rw [carried, ← PMF.map_comp, map_uniform_of_bijective (Finite.injective_iff_bijective.mp injective)]

end Law

end Library
