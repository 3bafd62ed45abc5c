import PaymentAuth.SecretSharing.Reconstruction

/-! A share with another value is never noticed: among the shares that are used it sets the
secret at will, and beyond them it changes nothing. -/

namespace PaymentAuth

open Library

namespace SecretSharing

/-- What reconstruction checks of a share: everything but its value. -/
def Share.header (share : Share) : UInt8 × UInt32 × UInt32 × UInt32 :=
  (share.version, share.threshold, share.shareCount, share.index)

/-- A share that claims another value. -/
def Share.claiming (share : Share) (value : FieldElement) : Share := { share with value := value }

@[simp] theorem Share.claiming_self (share : Share) : share.claiming share.value = share := rfl

@[simp] theorem Share.header_claiming (share : Share) (value : FieldElement) :
    (share.claiming value).header = share.header := rfl

section Consistency

variable {shares shares' before after : List Share} {first share : Share}

/-- The checks of reconstruction see headers only. -/
theorem Consistent.congr (same : shares'.map Share.header = shares.map Share.header)
    (consistent : Consistent shares first) :
    ∃ first', Consistent shares' first' ∧ first'.threshold = first.threshold := by
  have sizes : shares'.length = shares.length := by
    rw [← List.length_map Share.header, same, List.length_map]
  have heads : shares'[0]?.map Share.header = some first.header := by
    rw [← List.getElem?_map, same, List.getElem?_map, consistent.head, Option.map_some]
  obtain ⟨first', head, alike⟩ := Option.map_eq_some_iff.mp heads
  have twin (s : Share) (listed : s ∈ shares') : ∃ t ∈ shares, t.header = s.header := by
    apply List.mem_map.mp
    rw [← same]
    exact List.mem_map_of_mem listed
  simp only [Share.header, Prod.mk.injEq] at alike twin
  obtain ⟨version, threshold, counted, -⟩ := alike
  refine ⟨first', ⟨head, sizes ▸ consistent.limited, fun s listed => ?_, fun s listed => ?_, ?_, ?_⟩, threshold⟩
  · obtain ⟨t, inside, version', threshold', counted', -⟩ := twin s listed
    obtain ⟨sameVersion, sameThreshold, sameCount⟩ := consistent.uniform t inside
    rw [version, threshold, counted, ← version', ← threshold', ← counted']
    exact ⟨sameVersion, sameThreshold, sameCount⟩
  · obtain ⟨t, inside, -, -, -, index⟩ := twin s listed
    rw [← index, counted]
    exact consistent.inside t inside
  · have indices : shares'.map Share.index = shares.map Share.index := by
      have fourth := congrArg (List.map fun header => header.2.2.2) same
      rwa [List.map_map, List.map_map] at fourth
    rw [indices]
    exact consistent.distinct
  · rw [threshold, sizes]
    exact consistent.enough

theorem map_header_claiming (value : FieldElement) :
    (before ++ share.claiming value :: after).map Share.header = (before ++ share :: after).map Share.header := by
  rw [List.map_append, List.map_append, List.map_cons, List.map_cons, Share.header_claiming]

/-- No share that passes the checks lies at the point zero. -/
theorem Consistent.point_ne_zero (consistent : Consistent shares first) (listed : share ∈ shares) :
    share.point ≠ 0 := by
  intro zero
  obtain ⟨nonzero, -⟩ := consistent.inside share listed
  apply nonzero
  apply UInt32.toNat_inj.mp
  have small : share.index.toNat < 2 ^ 65 := share.index.toNat_lt.trans (by decide)
  rw [Share.point, ← Nat.cast_zero] at zero
  exact natCast_injective_of_lt small (by decide) zero

end Consistency

section Interpolating

variable {before after : List Share} {share : Share}

theorem weight_ne_zero {points : List FieldElement} (nonzero : 0 ∉ points) (point : FieldElement) :
    weight points point ≠ 0 := by
  apply List.prod_ne_zero
  intro zero
  obtain ⟨other, listed, vanishes⟩ := List.mem_map.mp zero
  by_cases here : other = point
  · rw [if_pos here] at vanishes
    exact one_ne_zero vanishes
  · rw [if_neg here] at vanishes
    rcases mul_eq_zero.mp vanishes with root | root
    · exact nonzero (root ▸ listed)
    · exact here (sub_eq_zero.mp (inv_eq_zero.mp root))

/-- The interpolated secret is an affine function of the value of each share. -/
theorem interpolateAtZero_claiming (distinct : ((before ++ share :: after).map Share.point).Nodup) :
    ∃ others, ∀ value, interpolateAtZero (before ++ share.claiming value :: after) =
      .ok (others + value * weight ((before ++ share :: after).map Share.point) share.point) := by
  let points := (before ++ share :: after).map Share.point
  let term (s : Share) : FieldElement := s.value * weight points s.point
  refine ⟨(before.map term).sum + (after.map term).sum, fun value => ?_⟩
  have same : (before ++ share.claiming value :: after).map Share.point = points := by
    simp only [points, List.map_append, List.map_cons, Share.point, Share.claiming]
  rw [interpolateAtZero_eq (same ▸ distinct), same]
  have total : ((before ++ share.claiming value :: after).map term).sum =
      (before.map term).sum + (after.map term).sum + value * weight points share.point := by
    rw [List.map_append, List.map_cons, List.sum_append, List.sum_cons]
    change _ + (value * weight points share.point + _) = _
    ring
  exact congrArg Outcome.ok total

end Interpolating

section Tampering

variable {before after : List Share} {share : Share} {secret : Bytes}

@[simp] theorem fromBeBytes_trimmed (bytes : Bytes) : fromBeBytes (trimmed bytes) = fromBeBytes bytes := by
  induction bytes with
  | nil => rfl
  | cons byte rest ih =>
    by_cases zero : byte = 0
    · subst zero
      rw [trimmed, if_pos rfl, ih, fromBeBytes_cons, UInt8.toNat_zero, zero_mul, zero_add]
    · rw [trimmed, if_neg zero]

/-- Different elements are different secrets. -/
theorem secretBytes_inj {left right : FieldElement} :
    stripLeadingZeros (elementToBeBytes left) = stripLeadingZeros (elementToBeBytes right) ↔ left = right := by
  constructor
  · intro same
    have values := congrArg fromBeBytes same
    have number (value : FieldElement) : fromBeBytes (elementToBeBytes value) = value.val := by
      apply (elementToBeBytes_eq_iff ?_).mp rfl
      rw [elementToBeBytes_length, elementWidth_fieldOrder]
    rw [stripLeadingZeros_eq_trimmed, stripLeadingZeros_eq_trimmed, fromBeBytes_trimmed, fromBeBytes_trimmed, number,
      number] at values
    exact ZMod.val_injective _ values
  · rintro rfl
    rfl

/-- Interpolation over the used shares of the changed list decides. -/
theorem reconstruct_claiming {value element : FieldElement}
    (recovered : reconstruct (before ++ share :: after) = .ok secret)
    (interpolated : interpolateAtZero ((before ++ share.claiming value :: after).take share.threshold.toNat) =
      .ok element) :
    reconstruct (before ++ share.claiming value :: after) = .ok (stripLeadingZeros (elementToBeBytes element)) := by
  obtain ⟨first, consistent, -⟩ := reconstruct_ok_iff.mp recovered
  obtain ⟨-, threshold, -⟩ := consistent.uniform share List.mem_append_cons_self
  obtain ⟨first', consistent', same⟩ := consistent.congr (map_header_claiming value)
  apply reconstruct_ok_iff.mpr
  refine ⟨first', consistent', element, ?_, rfl⟩
  rw [same, ← threshold]
  exact interpolated

/-- Beyond the used shares a value is not read. -/
theorem reconstruct_claiming_beyond (value : FieldElement)
    (recovered : reconstruct (before ++ share :: after) = .ok secret)
    (beyond : share.threshold.toNat ≤ before.length) :
    reconstruct (before ++ share.claiming value :: after) = .ok secret := by
  obtain ⟨first, consistent, element, interpolated, rfl⟩ := reconstruct_ok_iff.mp recovered
  obtain ⟨-, threshold, -⟩ := consistent.uniform share List.mem_append_cons_self
  apply reconstruct_claiming recovered
  rw [← threshold, List.take_append_of_le_length beyond] at interpolated
  rw [List.take_append_of_le_length beyond]
  exact interpolated

/-- The secret is an affine function of the value of a used share. -/
theorem reconstruct_claiming_used (recovered : reconstruct (before ++ share :: after) = .ok secret)
    (used : before.length < share.threshold.toNat) : ∃ others factor : FieldElement, factor ≠ 0 ∧
      ∀ value, reconstruct (before ++ share.claiming value :: after) =
        .ok (stripLeadingZeros (elementToBeBytes (others + value * factor))) := by
  obtain ⟨first, consistent, -⟩ := reconstruct_ok_iff.mp recovered
  obtain ⟨rest, room⟩ := Nat.exists_eq_add_of_lt used
  have taken (s : Share) : (before ++ s :: after).take share.threshold.toNat = before ++ s :: after.take rest := by
    rw [room, add_assoc, List.take_length_add_append, List.take_succ_cons]
  have kept : (before ++ share :: after.take rest).Sublist (before ++ share :: after) :=
    taken share ▸ List.take_sublist _ _
  have distinct := nodup_points (consistent.distinct.sublist (kept.map _))
  obtain ⟨others, affine⟩ := interpolateAtZero_claiming distinct
  have nonzero : 0 ∉ (before ++ share :: after.take rest).map Share.point := by
    intro zero
    obtain ⟨s, listed, vanishes⟩ := List.mem_map.mp zero
    exact consistent.point_ne_zero (kept.subset listed) vanishes
  refine ⟨others, _, weight_ne_zero nonzero share.point, fun value => ?_⟩
  apply reconstruct_claiming recovered
  rw [taken]
  exact affine value

/-- Reconstruction accepts a share with any other value. Beyond the used shares the secret
stays the same; a used share gives a different secret for each value, and every element of
the field is the secret for one of them. -/
theorem reconstruct_tampered (recovered : reconstruct (before ++ share :: after) = .ok secret) :
    (∀ value, ∃ secret', reconstruct (before ++ share.claiming value :: after) = .ok secret' ∧
      (secret' = secret ↔ value = share.value ∨ share.threshold.toNat ≤ before.length)) ∧
    (before.length < share.threshold.toNat → ∀ target : FieldElement, ∃ value,
      reconstruct (before ++ share.claiming value :: after) = .ok (stripLeadingZeros (elementToBeBytes target))) := by
  by_cases beyond : share.threshold.toNat ≤ before.length
  · refine ⟨fun value => ⟨secret, reconstruct_claiming_beyond value recovered beyond, ?_⟩, fun used => ?_⟩
    · exact iff_of_true rfl (.inr beyond)
    · exact absurd beyond (Nat.not_le.mpr used)
  · obtain ⟨others, factor, nonzero, affine⟩ := reconstruct_claiming_used recovered (Nat.not_le.mp beyond)
    have original := affine share.value
    rw [Share.claiming_self, recovered, Outcome.ok.injEq] at original
    refine ⟨fun value => ⟨_, affine value, ?_⟩, fun _ target => ⟨(target - others) * factor⁻¹, ?_⟩⟩
    · rw [original, secretBytes_inj, add_right_inj, mul_left_inj' nonzero]
      exact (or_iff_left beyond).symm
    · rw [affine, inv_mul_cancel_right₀ nonzero, add_sub_cancel]

/-- The third and the first of three shares are used: another value of the first is another
secret, another value of the second changes nothing. -/
theorem reconstruct_tampered_three : ∃ (third first second : Share) (secret : Bytes),
    reconstruct [third, first, second] = .ok [42] ∧ reconstruct [third, first.claiming 0, second] = .ok secret ∧
      secret ≠ [42] ∧ reconstruct [third, first, second.claiming 0] = .ok [42] := by
  let share := shareAt 2 3 [42, 7]
  have accepted : Parameters 2 3 := ⟨by decide, by decide, by decide⟩
  have represents : Represents [42] 42 := ⟨by decide, elementFromBeBytes_ok_iff.mpr ⟨by decide, by decide +kernel⟩⟩
  have issued : ∀ s ∈ [share 3, share 1, share 2], Issued 2 3 [42, 7] s :=
    fun s listed => List.map_subset share (show [3, 1, 2] ⊆ List.range' 1 3 by decide) listed
  have distinct : [share 3, share 1, share 2].Nodup := by simp [share, shareAt]
  have recovered : reconstruct [share 3, share 1, share 2] = .ok [42] := by
    obtain ⟨first, consistent, size⟩ := accepted.consistent distinct issued (by decide)
    refine reconstruct_ok_iff.mpr ⟨first, consistent, 42, ?_, represents.strip_elementToBeBytes⟩
    rw [size]
    apply accepted.interpolateAtZero_eq (distinct.sublist (List.take_sublist _ _))
    · exact fun s listed => issued s (List.mem_of_mem_take listed)
    · decide
  have changed : (0 : FieldElement) ≠ (share 1).value := by decide +kernel
  obtain ⟨secret, tampered, moved⟩ := (@reconstruct_tampered [share 3] [share 2] (share 1) _ recovered).1 0
  obtain ⟨secret', ignored, same⟩ := (@reconstruct_tampered [share 3, share 1] [] (share 2) _ recovered).1 0
  refine ⟨_, _, _, secret, recovered, tampered, fun equal => ?_, ?_⟩
  · rcases moved.mp equal with untouched | beyond
    · exact changed untouched
    · exact absurd beyond (by decide)
  · rw [same.mpr (.inr (by decide))] at ignored
    exact ignored

end Tampering

end SecretSharing

end PaymentAuth
