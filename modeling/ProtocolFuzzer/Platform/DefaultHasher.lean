/-
# The default hasher

`std::collections::hash_map::DefaultHasher::new()` is SipHash with one compression
round, three finalization rounds and a zero key. Its input is the byte stream the
`Hash` implementations feed it: a string contributes its bytes and a closing `0xFF`,
a byte slice its length as a 64-bit little-endian word and then its bytes. The
recorded crashes under `fuzzing_results` carry digests of their inputs, and the
model reproduces them.
-/

import ProtocolFuzzer.Math.Bytes

namespace ProtocolFuzzer.Platform

open ProtocolFuzzer.Math

/-- The four words of SipHash. -/
structure SipState where
  v0 : UInt64
  v1 : UInt64
  v2 : UInt64
  v3 : UInt64

namespace SipState

/-- The state before any input, for the zero key. -/
def start : SipState where
  v0 := 0x736f6d6570736575
  v1 := 0x646f72616e646f6d
  v2 := 0x6c7967656e657261
  v3 := 0x7465646279746573

def rotateLeft (x n : UInt64) : UInt64 := (x <<< n) ||| (x >>> (64 - n))

/-- One round of the permutation. -/
def round (s : SipState) : SipState :=
  let v0 := s.v0 + s.v1
  let v1 := rotateLeft s.v1 13 ^^^ v0
  let v0 := rotateLeft v0 32
  let v2 := s.v2 + s.v3
  let v3 := rotateLeft s.v3 16 ^^^ v2
  let v0 := v0 + v3
  let v3 := rotateLeft v3 21 ^^^ v0
  let v2 := v2 + v1
  let v1 := rotateLeft v1 17 ^^^ v2
  let v2 := rotateLeft v2 32
  ⟨v0, v1, v2, v3⟩

/-- Mix one word of input into the state. -/
def absorb (s : SipState) (word : UInt64) : SipState :=
  let s := { s with v3 := s.v3 ^^^ word }.round
  { s with v0 := s.v0 ^^^ word }

/-- Absorb the given number of complete words, and return the unread bytes. -/
def absorbWords : ℕ → SipState → List UInt8 → SipState × List UInt8
  | 0, s, bytes => (s, bytes)
  | n + 1, s, bytes =>
    absorbWords n (s.absorb (UInt64.ofNat (fromLE (bytes.take 8)))) (bytes.drop 8)

/-- The digest of a complete byte stream. The last word holds the remaining bytes
and, in its top byte, the length of the stream. -/
def digest (stream : List UInt8) : UInt64 :=
  let (s, rest) := start.absorbWords (stream.length / 8) stream
  let s := s.absorb (UInt64.ofNat (fromLE rest + 2 ^ 56 * (stream.length % 256)))
  let s := { s with v2 := s.v2 ^^^ 0xFF }.round.round.round
  s.v0 ^^^ s.v1 ^^^ s.v2 ^^^ s.v3

end SipState

/-- A hasher is the byte stream written to it so far. -/
structure DefaultHasher where
  stream : List UInt8 := []

namespace DefaultHasher

/-- `text.hash(&mut hasher)` for a string. -/
def hashStr (hasher : DefaultHasher) (text : String) : DefaultHasher :=
  ⟨hasher.stream ++ utf8 text ++ [0xFF]⟩

/-- `bytes.hash(&mut hasher)` for a byte slice. -/
def hashBytes (hasher : DefaultHasher) (bytes : List UInt8) : DefaultHasher :=
  ⟨hasher.stream ++ toLE 8 bytes.length ++ bytes⟩

def finish (hasher : DefaultHasher) : UInt64 := SipState.digest hasher.stream

end DefaultHasher

/-- The digest recorded in `fuzzing_results/crashes/crash_0025_metadata.json`. -/
example :
    (DefaultHasher.hashBytes {}
      [0, 0, 0, 0, 0, 1, 0, 0, 0, 0, 0, 0, 1, 97, 0, 0, 0, 1]).finish =
      0xda88ba8369067c71 := by
  decide +kernel

end ProtocolFuzzer.Platform
