import PaymentAuth.Crypto.Backend

/-! The SHA-256 hash function, for concrete instances of the protocol. -/

namespace PaymentAuth

open Library

namespace Sha256

abbrev Word := UInt32

/-- Rotates a word right. -/
def rotateRight (x : Word) (n : UInt32) : Word := (x >>> n) ||| (x <<< (32 - n))

def choose (x y z : Word) : Word := (x &&& y) ^^^ (~~~x &&& z)

def majority (x y z : Word) : Word := (x &&& y) ^^^ (x &&& z) ^^^ (y &&& z)

def bigSigma0 (x : Word) : Word := rotateRight x 2 ^^^ rotateRight x 13 ^^^ rotateRight x 22

def bigSigma1 (x : Word) : Word := rotateRight x 6 ^^^ rotateRight x 11 ^^^ rotateRight x 25

def smallSigma0 (x : Word) : Word := rotateRight x 7 ^^^ rotateRight x 18 ^^^ (x >>> 3)

def smallSigma1 (x : Word) : Word := rotateRight x 17 ^^^ rotateRight x 19 ^^^ (x >>> 10)

def roundConstants : List Word := [
  0x428a2f98, 0x71374491, 0xb5c0fbcf, 0xe9b5dba5, 0x3956c25b, 0x59f111f1, 0x923f82a4, 0xab1c5ed5,
  0xd807aa98, 0x12835b01, 0x243185be, 0x550c7dc3, 0x72be5d74, 0x80deb1fe, 0x9bdc06a7, 0xc19bf174,
  0xe49b69c1, 0xefbe4786, 0x0fc19dc6, 0x240ca1cc, 0x2de92c6f, 0x4a7484aa, 0x5cb0a9dc, 0x76f988da,
  0x983e5152, 0xa831c66d, 0xb00327c8, 0xbf597fc7, 0xc6e00bf3, 0xd5a79147, 0x06ca6351, 0x14292967,
  0x27b70a85, 0x2e1b2138, 0x4d2c6dfc, 0x53380d13, 0x650a7354, 0x766a0abb, 0x81c2c92e, 0x92722c85,
  0xa2bfe8a1, 0xa81a664b, 0xc24b8b70, 0xc76c51a3, 0xd192e819, 0xd6990624, 0xf40e3585, 0x106aa070,
  0x19a4c116, 0x1e376c08, 0x2748774c, 0x34b0bcb5, 0x391c0cb3, 0x4ed8aa4a, 0x5b9cca4f, 0x682e6ff3,
  0x748f82ee, 0x78a5636f, 0x84c87814, 0x8cc70208, 0x90befffa, 0xa4506ceb, 0xbef9a3f7, 0xc67178f2]

/-- The eight working variables. -/
structure State where
  a : Word
  b : Word
  c : Word
  d : Word
  e : Word
  f : Word
  g : Word
  h : Word

def State.initial : State :=
  ⟨0x6a09e667, 0xbb67ae85, 0x3c6ef372, 0xa54ff53a, 0x510e527f, 0x9b05688c, 0x1f83d9ab, 0x5be0cd19⟩

def State.words (state : State) : List Word :=
  [state.a, state.b, state.c, state.d, state.e, state.f, state.g, state.h]

def State.add (left right : State) : State :=
  ⟨left.a + right.a, left.b + right.b, left.c + right.c, left.d + right.d, left.e + right.e,
    left.f + right.f, left.g + right.g, left.h + right.h⟩

/-- The message bytes followed by a one bit, zeros and the length in bits. -/
def pad (message : Bytes) : Bytes :=
  message ++ 0x80 :: (List.replicate ((119 - message.length % 64) % 64) 0 ++ toBeBytes 8 (8 * message.length))

/-- The first `count` big-endian words. -/
def words : ℕ → Bytes → List Word
  | 0, _ => []
  | count + 1, bytes => UInt32.ofNat (fromBeBytes (bytes.take 4)) :: words count (bytes.drop 4)

/-- Extends a schedule, latest word first, by `count` words. -/
def extend : ℕ → List Word → List Word
  | 0, schedule => schedule
  | count + 1, schedule =>
    let word := smallSigma1 (schedule.getD 1 0) + schedule.getD 6 0 + smallSigma0 (schedule.getD 14 0) +
      schedule.getD 15 0
    extend count (word :: schedule)

def round (state : State) (input : Word × Word) : State :=
  let t1 := state.h + bigSigma1 state.e + choose state.e state.f state.g + input.1 + input.2
  let t2 := bigSigma0 state.a + majority state.a state.b state.c
  ⟨t1 + t2, state.a, state.b, state.c, state.d + t1, state.e, state.f, state.g⟩

/-- Absorbs one 64-byte block. -/
def compress (state : State) (block : Bytes) : State :=
  let schedule := (extend 48 (words 16 block).reverse).reverse
  state.add ((roundConstants.zip schedule).foldl round state)

/-- Absorbs the first `count` blocks. -/
def absorb : ℕ → Bytes → State → State
  | 0, _, state => state
  | count + 1, bytes, state => absorb count (bytes.drop 64) (compress state (bytes.take 64))

end Sha256

open Sha256 in
/-- The hash function of the default backend. -/
def sha256 (message : Bytes) : Digest where
  bytes := (absorb ((pad message).length / 64) (pad message) State.initial).words.flatMap fun word =>
    toBeBytes 4 word.toNat
  size := by simp [State.words, digestLen]

example : fromBeBytes (sha256 (ascii "abc")).bytes =
    0xba7816bf8f01cfea414140de5dae2223b00361a396177a9cb410ff61f20015ad := by
  decide +kernel

end PaymentAuth
