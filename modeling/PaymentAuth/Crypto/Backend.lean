import PaymentAuth.Library.Bytes

namespace PaymentAuth

open Library

def digestLen : ℕ := 32

/-- A fixed-size (32-byte) digest. -/
structure Digest where
  bytes : Bytes
  size : bytes.length = digestLen
deriving DecidableEq

/-- Thirty-two raw bytes; `Digest::new` reads them as they are. -/
abbrev Bytes32 := Digest

theorem Digest.ext_iff {left right : Digest} : left = right ↔ left.bytes = right.bytes := by
  cases left
  cases right
  exact Digest.mk.injEq _ _ _ _ ▸ Iff.rfl

def backendIdLen : ℕ := 16

/-- Canonical, fixed-width identifier of a cryptographic backend. -/
structure BackendId where
  bytes : Bytes
  size : bytes.length = backendIdLen
deriving DecidableEq

/-- The primitives the protocol consumes; every backend has 32-byte digests. -/
structure CryptoBackend where
  id : BackendId
  hash : Bytes → Digest
  hashDomain : Bytes → Bytes → Digest
  expand : Bytes → Bytes → ℕ → Bytes

/-- Commitment: `H(canonical(randomness) || len(msg) || msg)`. -/
def CryptoBackend.commit {ε : Type} (backend : CryptoBackend) (message randomness : Bytes) :
    Outcome ε Digest := do
  let framedRandomness ← encodeLengthPrefixed randomness
  let framedMessage ← encodeLengthPrefixed message
  .ok (backend.hash (framedRandomness ++ framedMessage))

theorem CryptoBackend.commit_ok_iff {ε : Type} {backend : CryptoBackend} {message randomness : Bytes}
    {digest : Digest} :
    (backend.commit message randomness : Outcome ε Digest) = .ok digest ↔
      randomness.length < 2 ^ 32 ∧ message.length < 2 ^ 32 ∧
        backend.hash (lengthPrefixed randomness ++ lengthPrefixed message) = digest := by
  simp [CryptoBackend.commit, Outcome.bind_ok_iff, encodeLengthPrefixed_ok_iff]

def randomnessLen : ℕ := 32

/-- Wraps exactly `randomnessLen` secret bytes. -/
def CommitmentRandomness.new {ε : Type} (failure : ε) (bytes : Bytes) : Outcome ε Bytes := do
  Outcome.reject (bytes.length ≠ randomnessLen) failure
  .ok bytes

/-- Frames `domain || len(data) || data` for domain-separated hashing. -/
def frame (domain data : Bytes) : Bytes :=
  lengthPrefixed domain ++ toBeBytes 4 data.length ++ data

/-- The SHA-256 backend over the hash function of the `sha2` package. -/
def sha256Backend (sha256 : Bytes → Digest) : CryptoBackend where
  id := ⟨[0x73, 0x68, 0x61, 0x32, 0x35, 0x36, 0x2d, 0x76, 0x31, 0, 0, 0, 0, 0, 0, 0], rfl⟩
  hash := sha256
  hashDomain domain data := sha256 (frame domain data)
  expand domain data outLen :=
    ((List.range ((outLen + 31) / 32)).flatMap fun counter =>
      (sha256 (lengthPrefixed domain ++ toBeBytes 4 counter ++ data)).bytes).take outLen

/-- The iterated hash is cut to the requested length. -/
theorem sha256Backend_expand_length (sha256 : Bytes → Digest) (domain data : Bytes) (outLen : ℕ) :
    ((sha256Backend sha256).expand domain data outLen).length = outLen := by
  have blocks : (((List.range ((outLen + 31) / 32)).flatMap fun counter =>
      (sha256 (lengthPrefixed domain ++ toBeBytes 4 counter ++ data)).bytes)).length =
      32 * ((outLen + 31) / 32) := by
    simp [List.length_flatMap, Digest.size, digestLen, Nat.mul_comm]
  rw [sha256Backend, List.length_take, blocks]
  omega

/-- `Sha256Hash::hash_domain`: only the domain is length-prefixed. -/
def sha256HashDomain (sha256 : Bytes → Digest) (domain data : Bytes) : Digest :=
  sha256 (lengthPrefixed domain ++ data)

end PaymentAuth
