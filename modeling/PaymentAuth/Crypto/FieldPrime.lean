import Mathlib.Tactic.NormNum.Prime
import PaymentAuth.Crypto.Field
import PaymentAuth.Library.PrimeCertificate

namespace PaymentAuth

open Library

private theorem check_prime (base : ℕ) {number q : ℕ} (factor : q.Prime)
    (checked : PrimeCertificate.check 256 ⟨number, base, [q]⟩ = true) : number.Prime :=
  @PrimeCertificate.prime 256 ⟨number, base, [q]⟩ (List.forall_mem_singleton.mpr factor) checked

/-- The order of the ed25519 scalar field is prime, by a chain of certificates
whose factors descend to numbers that trial division settles. -/
theorem fieldOrder_prime : fieldOrder.Prime := by
  have first : Nat.Prime 1257559732178653 := by
    refine @PrimeCertificate.prime 256 ⟨1257559732178653, 2, [531581, 1224481]⟩
      ?_ (by decide +kernel)
    simp only [List.forall_mem_cons, List.not_mem_nil, false_implies, implies_true, and_true]
    exact ⟨by norm_num, by norm_num⟩
  have second : Nat.Prime 4434155615661930479 := check_prime 2 first (by decide +kernel)
  have third : Nat.Prime 172054593956031949258510691 := check_prime 2 second (by decide +kernel)
  have fourth : Nat.Prime 19757330305831588566944191468367130476339 :=
    check_prime 2 third (by decide +kernel)
  have fifth : Nat.Prime 276602624281642239937218680557139826668747 :=
    check_prime 2 fourth (by decide +kernel)
  exact check_prime 2 fifth (by decide +kernel)

instance : Fact fieldOrder.Prime := ⟨fieldOrder_prime⟩

end PaymentAuth
