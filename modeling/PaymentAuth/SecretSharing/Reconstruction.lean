import PaymentAuth.SecretSharing.Shamir

/-! Any `threshold` shares of a split secret, sent over the wire, reconstruct the secret
without its leading zero bytes. -/

namespace PaymentAuth

open Library

namespace SecretSharing

/-- A byte string without its leading zero bytes; a single zero byte for an all-zero string. -/
def trimmed : Bytes → Bytes
  | [] => [0]
  | byte :: rest => if byte = 0 then trimmed rest else byte :: rest

theorem stripLeadingZeros_eq_trimmed (bytes : Bytes) : stripLeadingZeros bytes = trimmed bytes := by
  induction bytes with
  | nil => rfl
  | cons byte rest ih =>
    by_cases zero : byte = 0
    · subst zero
      rw [trimmed, if_pos rfl, ← ih]
      simp [stripLeadingZeros, List.findIdx_cons]
    · rw [trimmed, if_neg zero]
      simp [stripLeadingZeros, List.findIdx_cons, zero]

theorem trimmed_replicate_append (count : ℕ) (bytes : Bytes) :
    trimmed (List.replicate count 0 ++ bytes) = trimmed bytes := by
  induction count with
  | zero => rfl
  | succ count ih => rw [List.replicate_succ, List.cons_append, trimmed, if_pos rfl, ih]

theorem trimmed_trimmed (bytes : Bytes) : trimmed (trimmed bytes) = trimmed bytes := by
  induction bytes with
  | nil => rfl
  | cons byte rest ih =>
    by_cases zero : byte = 0
    · rw [trimmed, if_pos zero, ih]
    · rw [trimmed, if_neg zero, trimmed, if_neg zero]

/-- The bytes of the element of a secret are the secret up to leading zeros. -/
theorem Represents.strip_elementToBeBytes {secret : Bytes} {element : FieldElement}
    (represents : Represents secret element) :
    stripLeadingZeros (elementToBeBytes element) = trimmed secret := by
  obtain ⟨-, same⟩ := elementFromBeBytes_ok_iff.mp represents.2
  rw [stripLeadingZeros_eq_trimmed, same, trimmed_replicate_append, stripLeadingZeros_eq_trimmed, trimmed_trimmed]

section Chosen

variable {threshold shareCount : ℕ} {element : FieldElement} {coefficients : List FieldElement} {chosen : List Share}

/-- A share at one of the points of a split. -/
abbrev Issued (threshold shareCount : ℕ) (coefficients : List FieldElement) (share : Share) : Prop :=
  share ∈ (List.range' 1 shareCount).map (shareAt threshold shareCount coefficients)

theorem Parameters.nodup_indices (accepted : Parameters threshold shareCount) (distinct : chosen.Nodup)
    (issued : ∀ share ∈ chosen, Issued threshold shareCount coefficients share) : (chosen.map Share.index).Nodup := by
  apply distinct.map_on
  intro left inside right inside' same
  obtain ⟨i, listed, rfl⟩ := List.mem_map.mp (issued left inside)
  obtain ⟨j, listed', rfl⟩ := List.mem_map.mp (issued right inside')
  have numbers := congrArg UInt32.toNat same
  rw [shareAt, shareAt, accepted.index_toNat listed, accepted.index_toNat listed'] at numbers
  rw [numbers]

theorem Parameters.consistent (accepted : Parameters threshold shareCount) (distinct : chosen.Nodup)
    (issued : ∀ share ∈ chosen, Issued threshold shareCount coefficients share) (enough : threshold ≤ chosen.length) :
    ∃ first, Consistent chosen first ∧ first.threshold.toNat = threshold := by
  cases chosen with
  | nil => exact absurd (accepted.several.trans enough) (by decide)
  | cons first rest =>
    have fields (share : Share) (inside : share ∈ first :: rest) : share.version = shareVersion ∧
        share.threshold = UInt32.ofNat threshold ∧ share.shareCount = UInt32.ofNat shareCount ∧ share.WellFormed := by
      obtain ⟨index, listed, rfl⟩ := List.mem_map.mp (issued share inside)
      exact ⟨rfl, rfl, rfl, accepted.wellFormed listed⟩
    obtain ⟨version, same, counted, -⟩ := fields first List.mem_cons_self
    have short := (List.subperm_of_subset distinct issued).length_le
    rw [List.length_map, List.length_range'] at short
    have thresholdOf : first.threshold.toNat = threshold := by rw [same, accepted.threshold_toNat]
    refine ⟨first, ⟨rfl, short.trans accepted.limited, fun s inside => ?_, fun s inside => ?_,
      accepted.nodup_indices distinct issued, by rwa [thresholdOf]⟩, thresholdOf⟩
    · obtain ⟨version', same', counted', -⟩ := fields s inside
      exact ⟨version'.trans version.symm, same'.trans same.symm, counted'.trans counted.symm⟩
    · obtain ⟨-, -, counted', valid⟩ := fields s inside
      rw [counted, ← counted']
      exact ⟨valid.index, UInt32.le_iff_toNat_le.mp valid.inside⟩

/-- As many shares as there are coefficients interpolate to the constant term. -/
theorem Parameters.interpolateAtZero_eq (accepted : Parameters threshold shareCount) (distinct : chosen.Nodup)
    (issued : ∀ share ∈ chosen, Issued threshold shareCount (element :: coefficients) share)
    (enough : coefficients.length < chosen.length) : interpolateAtZero chosen = .ok element := by
  have points := nodup_points (accepted.nodup_indices distinct issued)
  have degree : (Interpolation.ofCoefficients (element :: coefficients)).degree < (chosen.map Share.point).length := by
    apply (Interpolation.degree_ofCoefficients_lt _).trans_le
    rw [List.length_cons, List.length_map]
    exact_mod_cast enough
  have atZero : (Interpolation.ofCoefficients (element :: coefficients)).eval 0 = element := by
    rw [Interpolation.eval_ofCoefficients_cons, zero_mul, add_zero]
  rw [SecretSharing.interpolateAtZero_eq points, ← atZero, Interpolation.eval_zero_eq_list_sum points degree,
    List.map_map]
  congr 2
  apply List.map_congr_left
  intro share inside
  obtain ⟨index, listed, rfl⟩ := List.mem_map.mp (issued share inside)
  rw [Function.comp_apply, accepted.value_eq listed, weight]

end Chosen

section Wire

variable {R : Type} [RngCore R] {secret : Bytes} {threshold shareCount : ℕ} {rng next : R} {shares chosen : List Share}

/-- Any `threshold` or more distinct shares of a split, in any order, decode from their
encodings and reconstruct the secret without its leading zero bytes. -/
theorem reconstruct_decoded (produced : split secret threshold shareCount rng = .ok (shares, next))
    (distinct : chosen.Nodup) (inside : ∀ share ∈ chosen, share ∈ shares) (enough : threshold ≤ chosen.length) :
    ∃ received, (chosen.mapM fun share => Share.decode share.encode) = .ok received ∧
      reconstruct received = .ok (trimmed secret) := by
  obtain ⟨accepted, element, coefficients, represents, drawn, rfl⟩ := split_ok_iff.mp produced
  have decoded : (chosen.mapM fun share => Share.decode share.encode) = .ok (chosen.map id) := by
    apply Outcome.mapM_ok_of_forall
    intro share listed
    obtain ⟨index, here, rfl⟩ := List.mem_map.mp (inside share listed)
    exact Share.decode_ok_iff.mpr ⟨accepted.wellFormed here, rfl⟩
  rw [List.map_id] at decoded
  refine ⟨chosen, decoded, ?_⟩
  obtain ⟨first, consistent, size⟩ := accepted.consistent distinct inside enough
  rw [reconstruct_ok_iff]
  refine ⟨first, consistent, element, ?_, represents.strip_elementToBeBytes⟩
  have used (share : Share) (taken : share ∈ chosen.take threshold) :
      Issued threshold shareCount (element :: coefficients) share :=
    inside share (List.mem_of_mem_take taken)
  rw [size]
  apply accepted.interpolateAtZero_eq (distinct.sublist (List.take_sublist _ _)) used
  have several := accepted.several
  rw [randomCoefficients_length drawn, List.length_take, Nat.min_eq_left enough]
  omega

/-- The third and the first of three shares, in this order, give back a secret that starts with a zero byte. -/
theorem reconstruct_decoded_two : ∃ (rng next : Replay) (first second third : Share) (received : List Share),
    split [0, 42] 2 3 rng = .ok ([first, second, third], next) ∧
      ([third, first].mapM fun share => Share.decode share.encode) = .ok received ∧
        reconstruct received = .ok [42] := by
  let share := shareAt 2 3 [42, 7]
  have represents : Represents [0, 42] 42 :=
    ⟨by decide, elementFromBeBytes_ok_iff.mpr ⟨by decide, by decide +kernel⟩⟩
  have produced : split [0, 42] 2 3 (⟨[7]⟩ : Replay) = .ok ([share 1, share 2, share 3], ⟨[]⟩) :=
    split_ok_iff.mpr ⟨⟨by decide, by decide, by decide⟩, 42, [7], represents, randomCoefficients_replay rfl, rfl⟩
  have distinct : [share 3, share 1].Nodup := by simp [share, shareAt]
  obtain ⟨received, decoded, recovered⟩ := reconstruct_decoded produced distinct (by simp) (by decide)
  exact ⟨_, _, _, _, _, received, produced, decoded, recovered⟩

end Wire

end SecretSharing

end PaymentAuth
