import PaymentAuth.SecretSharing.Shamir

/-! Fewer than `threshold` shares of a split say nothing about the secret: for any other
secret there are as many draws that give the same shares. -/

namespace PaymentAuth

open Library

namespace SecretSharing

/-- The generator yields the given coefficients and is left in the state `next`. -/
def Draws {R : Type} [RngCore R] (threshold : ℕ) (rng : R) (draws : Fin (threshold - 1) → FieldElement) (next : R) :
    Prop :=
  randomCoefficients threshold rng = .ok (List.ofFn draws, next)

/-- The shares with the given indices. -/
def sharesAt (indices : Finset ℕ) (shares : List Share) : List Share :=
  shares.filter fun share => share.index.toNat ∈ indices

section Secrecy

variable {threshold shareCount : ℕ} {indices : Finset ℕ}

/-- Every vector of coefficients is drawn by some generator. -/
theorem exists_draws (draws : Fin (threshold - 1) → FieldElement) :
    ∃ rng next : Replay, Draws threshold rng draws next :=
  ⟨_, _, randomCoefficients_replay List.length_ofFn⟩

/-- No share lies at the point zero. -/
theorem zero_notMem_points (inside : indices ⊆ Finset.Icc 1 shareCount) (limited : shareCount ≤ maxShareCount) :
    (0 : FieldElement) ∉ indices.image fun index : ℕ => (index : FieldElement) := by
  intro zero
  obtain ⟨index, listed, same⟩ := Finset.mem_image.mp zero
  obtain ⟨positive, below⟩ := Finset.mem_Icc.mp (inside listed)
  have small : index < 2 ^ 65 := (below.trans limited).trans_lt (by decide)
  rw [← Nat.cast_zero] at same
  rw [natCast_injective_of_lt small (by decide) same] at positive
  exact absurd positive (by decide)

/-- Shares are the same where the polynomials have the same values. -/
theorem Parameters.sharesAt_congr (accepted : Parameters threshold shareCount) {left right : List FieldElement}
    (same : ∀ index ∈ indices, evaluate left (index : FieldElement) = evaluate right (index : FieldElement)) :
    sharesAt indices ((List.range' 1 shareCount).map (shareAt threshold shareCount left)) =
      sharesAt indices ((List.range' 1 shareCount).map (shareAt threshold shareCount right)) := by
  rw [sharesAt, sharesAt, List.filter_map, List.filter_map]
  apply List.map_congr_left
  intro index kept
  obtain ⟨listed, observed⟩ := List.mem_filter.mp kept
  have seen := of_decide_eq_true observed
  rw [shareAt, accepted.index_toNat listed] at seen
  rw [shareAt, shareAt, same index seen]

/-- For any two secrets that splitting accepts and any fewer than `threshold` indices, one
bijection of the coefficient draws makes the shares at these indices the same. -/
theorem split_hides {R R' : Type} [RngCore R] [RngCore R'] {left right : Bytes} {rng : R} {rng' : R'}
    {result : List Share × R} {result' : List Share × R'}
    (accepted : split left threshold shareCount rng = .ok result)
    (accepted' : split right threshold shareCount rng' = .ok result')
    (inside : indices ⊆ Finset.Icc 1 shareCount) (few : indices.card ≤ threshold - 1) :
    ∃ bijection : (Fin (threshold - 1) → FieldElement) ≃ (Fin (threshold - 1) → FieldElement),
      ∀ (S S' : Type) [RngCore S] [RngCore S'] (draws : Fin (threshold - 1) → FieldElement)
          (tape next : S) (tape' next' : S'),
        Draws threshold tape draws next → Draws threshold tape' (bijection draws) next' →
          ∃ shares shares', split left threshold shareCount tape = .ok (shares, next) ∧
            split right threshold shareCount tape' = .ok (shares', next') ∧
              sharesAt indices shares = sharesAt indices shares' := by
  obtain ⟨parameters, secret, _, represents, -⟩ := split_ok_iff.mp accepted
  obtain ⟨-, secret', _, represents', -⟩ := split_ok_iff.mp accepted'
  have nonzero := zero_notMem_points inside parameters.limited
  obtain ⟨shift, same⟩ := Interpolation.exists_translation nonzero (Finset.card_image_le.trans few) secret secret'
  refine ⟨Equiv.addRight shift, fun S S' _ _ draws tape next tape' next' drawn drawn' => ⟨_, _,
    split_ok_iff.mpr ⟨parameters, secret, _, represents, drawn, rfl⟩,
    split_ok_iff.mpr ⟨parameters, secret', _, represents', drawn', rfl⟩, ?_⟩⟩
  apply parameters.sharesAt_congr
  intro index listed
  rw [evaluate_eq_eval, evaluate_eq_eval]
  exact same draws _ (Finset.mem_image_of_mem _ listed)

/-- Whatever is drawn for the secret one, the second of three shares is also one of the secret two. -/
theorem split_hides_one : ∃ bijection : (Fin 1 → FieldElement) ≃ (Fin 1 → FieldElement), ∀ draws,
    ∃ (tape tape' next next' : Replay) (shares shares' : List Share), Draws 2 tape draws next ∧
      Draws 2 tape' (bijection draws) next' ∧ split [1] 2 3 tape = .ok (shares, next) ∧
        split [2] 2 3 tape' = .ok (shares', next') ∧ sharesAt {2} shares = sharesAt {2} shares' := by
  have represents : Represents [1] 1 := ⟨by decide, elementFromBeBytes_ok_iff.mpr ⟨by decide, by decide +kernel⟩⟩
  have represents' : Represents [2] 2 := ⟨by decide, elementFromBeBytes_ok_iff.mpr ⟨by decide, by decide +kernel⟩⟩
  have parameters : Parameters 2 3 := ⟨by decide, by decide, by decide⟩
  have drawn : randomCoefficients 2 (⟨[7]⟩ : Replay) = .ok ([7], ⟨[]⟩) := randomCoefficients_replay rfl
  obtain ⟨bijection, hidden⟩ := split_hides (split_ok_iff.mpr ⟨parameters, 1, [7], represents, drawn, rfl⟩)
    (split_ok_iff.mpr ⟨parameters, 2, [7], represents', drawn, rfl⟩) (show {2} ⊆ Finset.Icc 1 3 by decide) (by decide)
  refine ⟨bijection, fun draws => ?_⟩
  obtain ⟨tape, next, drawn⟩ := @exists_draws 2 draws
  obtain ⟨tape', next', drawn'⟩ := @exists_draws 2 (bijection draws)
  obtain ⟨shares, shares', splits, splits', same⟩ := hidden Replay Replay draws tape next tape' next' drawn drawn'
  exact ⟨tape, tape', next, next', shares, shares', drawn, drawn', splits, splits', same⟩

end Secrecy

end SecretSharing

end PaymentAuth
