/-
# Shared packet mutations

The mutations of `protocols::common`, which every protocol fuzzer applies to raw
packets: flipping drawn bits, inserting and deleting one byte, and adding a drawn
delta to a big-endian 16-bit field. Each reads its positions from the draw source
and reduces them modulo the packet length, so none of them can leave the packet.
-/

import ProtocolFuzzer.Platform.Draws

namespace ProtocolFuzzer

open Math Platform

/-- The protocols the tool can fuzz. -/
inductive ProtocolType
  | DNS
  | MQTT
  deriving DecidableEq, Repr

namespace Common

variable {σ : Type} [DrawSource σ]

/-- The loop of `bit_flip_mutation`: flip one drawn bit of one drawn byte per round. -/
def flipBits : ℕ → List UInt8 → Fallible σ (List UInt8)
  | 0, output => pure output
  | rounds + 1, output => do
    let byteIdx ← rem (← draw (usizeOr 0)) output.length
    let bitIdx := (← draw (u8Or 0)) % 8
    let byte ← index output byteIdx
    let output ← assign output byteIdx (byte ^^^ (1 <<< bitIdx))
    flipBits rounds output

/-- Introduce bit flips into data. -/
def bitFlipMutation (input : List UInt8) : Fallible σ (List UInt8) :=
  if input.isEmpty then pure input
  else do
    let flipCount := (← draw (usizeOr 1)) % 8 + 1
    flipBits flipCount input

/-- Byte insertion mutation. -/
def byteInsertMutation (input : List UInt8) : Fallible σ (List UInt8) := do
  let insertPos ← rem (← draw (usizeOr 0)) (input.length + 1)
  let insertByte ← draw (u8Or 0)
  insertAt input insertPos insertByte

/-- Byte deletion mutation. -/
def byteDeleteMutation (input : List UInt8) : Fallible σ (List UInt8) :=
  if input.isEmpty then pure input
  else do
    let deletePos ← rem (← draw (usizeOr 0)) input.length
    removeAt input deletePos

/-- Arithmetic mutation for integer fields. -/
def arithmeticMutation (input : List UInt8) : Fallible σ (List UInt8) :=
  if input.length < 2 then pure input
  else do
    let pos ← rem (← draw (usizeOr 0)) (input.length - 1)
    let value := fromBE16 (← index input pos) (← index input (pos + 1))
    let delta ← draw (i16Or 1)
    let bytes := toBE16 (value + delta.toUInt16)
    let output ← assign input pos (← index bytes 0)
    assign output (pos + 1) (← index bytes 1)

end Common

end ProtocolFuzzer
