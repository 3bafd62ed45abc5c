import PaymentAuth.Library.Outcome
import PaymentAuth.Library.ForwardPass
import PaymentAuth.Library.Bytes
import PaymentAuth.Crypto.Backend
import PaymentAuth.Crypto.Field
import PaymentAuth.Crypto.Sha256
import PaymentAuth.Library.Marked
import PaymentAuth.Circuit.Basic
import PaymentAuth.Circuit.Weight
import PaymentAuth.Circuit.Semantics
import PaymentAuth.Circuit.Evaluation
import PaymentAuth.Circuit.Encoding
import PaymentAuth.Circuit.Dependence
import PaymentAuth.Mpc.Sharing
import PaymentAuth.Mpc.Simulator
import PaymentAuth.Circuit.EvalMpc
import PaymentAuth.Mpcith.Types
import PaymentAuth.Mpcith.Commitment
import PaymentAuth.Mpcith.Prover
import PaymentAuth.Mpcith.Verifier
import PaymentAuth.Mpcith.Execution
import PaymentAuth.Mpcith.Weight
import PaymentAuth.Mpcith.Traversal
import PaymentAuth.Mpcith.Replay
import PaymentAuth.Mpcith.Acceptance
import PaymentAuth.Mpcith.Classification
import PaymentAuth.Mpcith.Halting
import PaymentAuth.Mpcith.Joint
import PaymentAuth.Mpcith.Transcript
import PaymentAuth.Mpcith.HonestRun
import PaymentAuth.Mpcith.Completeness
import PaymentAuth.Mpcith.ZeroKnowledge
import PaymentAuth.Mpcith.Extraction
import PaymentAuth.Mpcith.Forgery
import PaymentAuth.Mpcith.Multiplication
import PaymentAuth.Mpcith.Soundness
import PaymentAuth.Mpcith.PublicOutputs
import PaymentAuth.Library.PrimeCertificate
import PaymentAuth.Crypto.FieldPrime
import PaymentAuth.Library.Formula
import PaymentAuth.Library.Arithmetization
import PaymentAuth.Library.Emission
import PaymentAuth.Library.Log
import PaymentAuth.Library.Construction
import PaymentAuth.Circuit.Builder
import PaymentAuth.Policy.Ast
import PaymentAuth.Policy.Encoding
import PaymentAuth.Policy.Normalize
import PaymentAuth.Policy.Equivalence
import PaymentAuth.Policy.Canonicity
import PaymentAuth.Policy.Validation
import PaymentAuth.Policy.Evaluator
import PaymentAuth.Policy.RangeCheck
import PaymentAuth.Policy.Compiler
import PaymentAuth.Policy.Layout
import PaymentAuth.Policy.Gadgets
import PaymentAuth.Policy.Size
import PaymentAuth.Policy.Wiring
import PaymentAuth.Policy.Emitted
import PaymentAuth.Policy.Compiled
import PaymentAuth.Policy.Inputs
import PaymentAuth.Policy.Totality
import PaymentAuth.Policy.Soundness
import PaymentAuth.Policy.Filling
import PaymentAuth.Library.Wire
import PaymentAuth.Policy.Solving
import PaymentAuth.Policy.Agreement
import PaymentAuth.Policy.Fixpoint
import PaymentAuth.Mpcith.Encoding
import PaymentAuth.Proof.Statement
import PaymentAuth.Proof.FiatShamir
import PaymentAuth.Proof.Encoding
import PaymentAuth.Sdk.Encoding
import PaymentAuth.Mpcith.Uniqueness
import PaymentAuth.Proof.Verifier
import PaymentAuth.Proof.Malleability
import PaymentAuth.Policy.Identity
import PaymentAuth.Payment.Types
import PaymentAuth.Payment.Witness
import PaymentAuth.Payment.Wiring
import PaymentAuth.Circuit.Runs
import PaymentAuth.Payment.Binding
import PaymentAuth.Policy.Realization
import PaymentAuth.Payment.PublicInputs
import PaymentAuth.Payment.Soundness
import PaymentAuth.Proof.Prover
import PaymentAuth.Payment.Relation
import PaymentAuth.Payment.Authorization
import PaymentAuth.Proof.Transport
import PaymentAuth.Payment.Completeness
import PaymentAuth.Sdk.Workflow
import PaymentAuth.Sdk.Agreement
import PaymentAuth.Policy.Mismatch
import PaymentAuth.Sdk.Binding
import PaymentAuth.Policy.Decoding
import PaymentAuth.Circuit.Decoding
import PaymentAuth.Mpcith.ProofEncoding
import PaymentAuth.Policy.RangeSoundness
import PaymentAuth.Policy.Limits
import PaymentAuth.Policy.Assertions
import PaymentAuth.Proof.Oversized
import PaymentAuth.Proof.Halting
import PaymentAuth.Sdk.Refusal
import PaymentAuth.Sdk.Presentation
import PaymentAuth.Sdk.Repetitions
import PaymentAuth.Policy.Shipping
import PaymentAuth.Library.Interpolation
import PaymentAuth.SecretSharing.Share
import PaymentAuth.SecretSharing.Shamir
import PaymentAuth.SecretSharing.Reconstruction
import PaymentAuth.SecretSharing.Secrecy
import PaymentAuth.Library.Simulation
import PaymentAuth.Library.Mask
import PaymentAuth.Mpc.Session
import PaymentAuth.Mpc.Dealer
import PaymentAuth.Mpc.Secrecy
import PaymentAuth.Circuit.Privacy
import PaymentAuth.Circuit.Requests
import PaymentAuth.Mpcith.Challenge
import PaymentAuth.Payment.Admission
import PaymentAuth.Library.Failures
import PaymentAuth.Proof.Reception
import PaymentAuth.Sdk.Service
import PaymentAuth.Sdk.Identity
import PaymentAuth.Mpcith.Composition
import PaymentAuth.Payment.Statement
import PaymentAuth.SecretSharing.Tampering
import PaymentAuth.Proof.Forgery
import PaymentAuth.Proof.Size
import PaymentAuth.Policy.Monotonicity
import PaymentAuth.Sdk.Equivalence
import PaymentAuth.Sdk.Malleability
import PaymentAuth.SecretSharing.Totality
import PaymentAuth.Mpcith.Record
import PaymentAuth.Proof.Verdict
