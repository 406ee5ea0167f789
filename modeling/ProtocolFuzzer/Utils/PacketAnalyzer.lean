/-
# The packet analyzer

`PacketAnalyzer` guesses the protocol of a captured packet from its first bytes. The
guess for DNS compares six words of the header with limits. The guess for MQTT looks at
the packet type and walks over the remaining-length field; what the field says about the
length of the packet is not compared with anything. HTTP and TLS packets are recognised
by the bytes they start with, after the two guesses. Among the anomalies of a packet is a
high number of repeated bytes, which a single pass over the packet counts run by run.
-/

import Mathlib.Data.Rat.Init
import ProtocolFuzzer.Math.Bytes
import ProtocolFuzzer.Platform.Checked

namespace ProtocolFuzzer.PacketAnalyzer

open Math Platform

def looksLikeDns (data : List UInt8) : Checked Bool :=
  if data.length < 12 then .ok false
  else do
    let flags := fromBE16 (← index data 2) (← index data 3)
    let qdcount := fromBE16 (← index data 4) (← index data 5)
    let ancount := fromBE16 (← index data 6) (← index data 7)
    let nscount := fromBE16 (← index data 8) (← index data 9)
    let arcount := fromBE16 (← index data 10) (← index data 11)
    let opcode := (flags >>> 11) &&& 0x0F
    let rcode := flags &&& 0x0F
    pure (decide (opcode ≤ 5 ∧ rcode ≤ 9 ∧ qdcount ≤ 100 ∧ ancount ≤ 100 ∧ nscount ≤ 100 ∧
      arcount ≤ 100))

/-- The loop of `looks_like_mqtt`, whose multiplier is an `i32`. -/
def scanLengthField (data : List UInt8) (pos multiplier : ℕ) : Checked Bool :=
  if past : pos ≥ data.length then .ok false
  else do
    let byte ← index data pos
    if byte &&& 0x80 = 0 then pure true
    else
      let multiplier ← mulI32 multiplier 128
      if multiplier > 128 * 128 * 128 then pure false
      else
        let next ← add pos 1
        if next > 4 then pure false
        else scanLengthField data (pos + 1) multiplier
termination_by data.length - pos

def looksLikeMqtt (data : List UInt8) : Checked Bool :=
  if data.isEmpty then .ok false
  else do
    let packetType := ((← index data 0) &&& 0xF0) >>> 4
    if packetType = 0 ∨ packetType = 15 then pure false
    else if data.length > 1 then scanLengthField data 1 1
    else pure true

/-- `guard && test`; nothing is read where the guard fails. -/
def testWhen (guard : Prop) [Decidable guard] (test : Checked Bool) : Checked Bool :=
  if guard then test else .ok false

/-- The two bytes a TLS record starts with. -/
def startsLikeTls (data : List UInt8) : Checked Bool := do
  pure (decide ((← index data 0) = 0x16 ∧ (← index data 1) = 0x03))

/-- The protocol with the confidence of the guess, a constant that nothing computes with. -/
def detectProtocol (data : List UInt8) : Checked (Option (String × ℚ)) := do
  if ← testWhen (data.length ≥ 12) (looksLikeDns data) then
    pure (some ("DNS", 0.8))
  else if ← testWhen (data.length ≥ 2) (looksLikeMqtt data) then
    pure (some ("MQTT", 0.7))
  else if (utf8 "GET ").isPrefixOf data || (utf8 "POST ").isPrefixOf data ||
      (utf8 "HTTP/").isPrefixOf data then
    pure (some ("HTTP", 0.9))
  else if ← testWhen (data.length ≥ 6) (startsLikeTls data) then
    pure (some ("TLS", 0.8))
  else
    pure none

/-- A run counts when it is over and had more than one byte. -/
def addRun (count currentRun : ℕ) : ℕ := if currentRun > 1 then count + currentRun else count

/-- The loop of `count_repeated_bytes`. -/
def countRuns : List UInt8 → UInt8 → ℕ → ℕ → ℕ
  | [], _, currentRun, count => addRun count currentRun
  | byte :: bytes, prevByte, currentRun, count =>
    if byte = prevByte then countRuns bytes prevByte (currentRun + 1) count
    else countRuns bytes byte 1 (addRun count currentRun)

/-- The number of bytes in runs of equal bytes. -/
def countRepeatedBytes : List UInt8 → ℕ
  | [] => 0
  | first :: rest => countRuns rest first 1 0

end ProtocolFuzzer.PacketAnalyzer
