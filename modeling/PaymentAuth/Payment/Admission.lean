import PaymentAuth.Payment.Completeness

/-! Whether a payment is authorized depends on its plaintext checks alone. -/

namespace PaymentAuth

open Library Mpcith

section Authorizing

variable {sha256 : Bytes → Digest} {statement : PaymentStatement} {witness : PrivateWitness} {policy : Policy}

/-- Whatever the prover draws, a payment is authorized exactly when its plaintext checks
pass, and a failed check is reported as it is. -/
theorem authorizePayment_decides (rng : Rng) :
    (fun _ => ()) <$> authorizePayment sha256 statement witness policy rng = (do
      checkStatementBinding sha256 statement policy
      AuthorizationRelation.validate sha256 statement witness policy) := by
  cases checked : checkStatementBinding sha256 statement policy with
  | error failure =>
    rw [authorizePayment, checked]
    rfl
  | aborted =>
    rw [authorizePayment, checked]
    rfl
  | ok result =>
    cases related : AuthorizationRelation.validate sha256 statement witness policy with
    | error failure =>
      rw [authorizePayment, checked, Outcome.ok_bind, related]
      rfl
    | aborted =>
      rw [authorizePayment, checked, Outcome.ok_bind, related]
      rfl
    | ok result =>
      have names := checkStatementBinding_ok_iff.mp checked
      obtain ⟨proof, next, authorized⟩ := @exists_authorizePayment _ _ _ _ rng names related
      rw [authorized]
      rfl

end Authorizing

end PaymentAuth
