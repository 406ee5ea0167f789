/-
# The protocol mutator

`ProtocolMutator` is the mutator the tool plugs into the fuzzing library. It draws from
the library's random number generator, of which it uses only the next 64-bit output; every
sequence of outputs is a source. It picks one of five strategies: the mutations of the
protocol fuzzer, its grammar mutations, the corruption of a field, and the structural
strategy, which inserts, deletes, duplicates or swaps sections of the input without regard
to the protocol; the hybrid strategy applies up to three of these. Each reports whether it
mutated the input.
-/

import ProtocolFuzzer.Fuzzer.Campaign
import ProtocolFuzzer.Platform.Draws
import ProtocolFuzzer.Protocols.DNS.GrammarMutations
import ProtocolFuzzer.Protocols.MQTT.GrammarMutations

namespace ProtocolFuzzer.Fuzzer

open Math Platform

/-- A random number generator. -/
class RandSource (ρ : Type) where
  next : ρ → UInt64 × ρ

/-- A sequence of outputs. -/
instance : RandSource (ℕ → UInt64) where
  next outputs := (outputs 0, fun n => outputs (n + 1))

/-- What a mutator draws from: the library's generator, and the generator of the thread,
which the protocol fuzzers ask where their buffer does not answer. -/
structure Sources (ρ : Type) where
  rand : ρ
  thread : ℕ → UInt32

instance {ρ : Type} [RandSource ρ] : RandSource (Sources ρ) where
  next s := ((RandSource.next s.rand).1, { s with rand := (RandSource.next s.rand).2 })

inductive MutationResult
  | mutated
  | skipped
  deriving DecidableEq, Repr

variable {ρ : Type} [RandSource ρ]

/-- `state.rand_mut().next() as usize` -/
def randNext : Gen ρ ℕ := fun r => ((RandSource.next r).1.toNat, (RandSource.next r).2)

/-- `state.rand_mut().next() as u8` -/
def randByte : Gen ρ UInt8 := fun r => ((RandSource.next r).1.toUInt8, (RandSource.next r).2)

/-- The outputs of a generator, one after another. -/
def output (r : ρ) : ℕ → UInt64
  | 0 => (RandSource.next r).1
  | n + 1 => output (RandSource.next r).2 n

/-- `data.splice(pos..pos, block)` -/
def spliceAt (data : List UInt8) (pos : ℕ) (block : List UInt8) : Checked (List UInt8) :=
  if pos ≤ data.length then .ok (data.take pos ++ (block ++ data.drop pos))
  else .error .sliceOutOfRange

/-- `data.drain(start..stop)` -/
def drain (data : List UInt8) (start stop : ℕ) : Checked (List UInt8) :=
  if start ≤ stop ∧ stop ≤ data.length then .ok (data.take start ++ data.drop stop)
  else .error .sliceOutOfRange

/-- The loop that writes a section to a position, as far as the data reaches. -/
def overwriteFrom (data : List UInt8) (pos : ℕ) : List UInt8 → Checked (List UInt8)
  | [] => .ok data
  | byte :: bytes =>
    if pos < data.length then do
      let data ← assign data pos byte
      overwriteFrom data (pos + 1) bytes
    else overwriteFrom data (pos + 1) bytes

/-- Insert random bytes. -/
def insertRandomBytes (data : List UInt8) : Fallible ρ (List UInt8) := do
  let insertPos ← rem (← draw randNext) (data.length + 1)
  let insertCount := (← draw randNext) % 16 + 1
  let newBytes ← draw (replicateDraw insertCount randByte)
  spliceAt data insertPos newBytes

/-- Delete bytes. -/
def deleteBytes (data : List UInt8) : Fallible ρ (List UInt8) :=
  if data.length > 1 then do
    let deleteStart ← rem (← draw randNext) data.length
    let maxDelete := min (← sub data.length deleteStart) 16
    let deleteCount := (← rem (← draw randNext) maxDelete) + 1
    let deleteEnd := min (deleteStart + deleteCount) data.length
    drain data deleteStart deleteEnd
  else pure data

/-- Duplicate a section. -/
def duplicateSection (data : List UInt8) : Fallible ρ (List UInt8) :=
  if data.length > 4 then do
    let srcStart ← rem (← draw randNext) (data.length - 4)
    let srcLen := min ((← draw randNext) % 32 + 1) (← sub data.length srcStart)
    let srcEnd := srcStart + srcLen
    let copied ← slice data srcStart srcEnd
    let insertPos ← rem (← draw randNext) (data.length + 1)
    spliceAt data insertPos copied
  else pure data

/-- Swap two sections. -/
def swapSections (data : List UInt8) : Fallible ρ (List UInt8) :=
  if data.length > 8 then do
    let section1Start ← rem (← draw randNext) (data.length / 2)
    let section1Len := min ((← draw randNext) % 16 + 1) (data.length / 4)
    let section1End := min (section1Start + section1Len) data.length
    let section2Start := data.length / 2 + (← rem (← draw randNext) (data.length / 2))
    let section2Len := min section1Len (← sub data.length section2Start)
    let section2End := min (section2Start + section2Len) data.length
    if section1End ≤ section2Start then
      let section1 ← slice data section1Start section1End
      let section2 ← slice data section2Start section2End
      let data ← overwriteFrom data section1Start section2
      overwriteFrom data section2Start section1
    else pure data
  else pure data

/-- The structural mutation of the given type. -/
def structuralMutation (data : List UInt8) : ℕ → Fallible ρ (List UInt8)
  | 0 => insertRandomBytes data
  | 1 => deleteBytes data
  | 2 => duplicateSection data
  | 3 => swapSections data
  | _ => pure data

def applyStructuralMutation (data : List UInt8) :
    Fallible ρ (MutationResult × List UInt8) :=
  if data.isEmpty then pure (.skipped, data)
  else do
    let mutationType := (← draw randNext) % 4
    let data ← structuralMutation data mutationType
    pure (.mutated, data)

/-- Assign bytes to consecutive positions. -/
def writeBytes (data : List UInt8) (pos : ℕ) : List UInt8 → Checked (List UInt8)
  | [] => .ok data
  | byte :: bytes => do
    let data ← assign data pos byte
    writeBytes data (pos + 1) bytes

/-- Overwrite the bytes of a field at a drawn position, if the field fits in the packet. -/
def overwriteField (width : ℕ) (toBytes : ℕ → List UInt8) (data : List UInt8) :
    Fallible ρ (List UInt8) :=
  if data.length ≥ width then do
    let pos ← rem (← draw randNext) (data.length - (width - 1))
    let value ← draw randNext
    writeBytes data pos (toBytes value)
  else pure data

/-- Length field corruption. -/
def corruptLengthField (data : List UInt8) : Fallible ρ (List UInt8) :=
  overwriteField 2 (fun newLen => toBE16 (UInt16.ofNat newLen)) data

/-- Flag field manipulation. -/
def flipFlag (data : List UInt8) : Fallible ρ (List UInt8) :=
  if data.isEmpty then pure data
  else do
    let pos ← rem (← draw randNext) data.length
    let mask := 1 <<< UInt8.ofNat ((← draw randNext) % 8)
    let byte ← index data pos
    assign data pos (byte ^^^ mask)

/-- Identifier field corruption. -/
def corruptIdentifier (data : List UInt8) : Fallible ρ (List UInt8) :=
  overwriteField 4 (fun newId => toBE32 (UInt32.ofNat newId)) data

def fieldMutations : List (List UInt8 → Fallible ρ (List UInt8)) :=
  [corruptLengthField, flipFlag, corruptIdentifier]

def applyFieldMutation (data : List UInt8) : Fallible ρ (MutationResult × List UInt8) :=
  if data.isEmpty then pure (.skipped, data)
  else do
    let mutationIdx ← rem (← draw randNext) (fieldMutations (ρ := ρ)).length
    let mutation ← index fieldMutations mutationIdx
    let data ← mutation data
    pure (.mutated, data)

/-- The trait of the protocol fuzzers, as far as the mutator uses it; `none` is an error. -/
structure GrammarFuzzer (σ : Type) extends PacketFuzzer σ where
  getGrammarMutations : List (List UInt8 → Fallible σ (Option (List UInt8)))

/-- The grammar mutations never return an error. -/
def mqttGrammarFuzzer {σ : Type} [DrawSource σ] : GrammarFuzzer σ where
  toPacketFuzzer := mqttFuzzer
  getGrammarMutations :=
    MQTT.getGrammarMutations.map fun mutation packet => some <$> mutation packet

def dnsGrammarFuzzer {σ : Type} [DrawSource σ] (build : DNS.Builder) : GrammarFuzzer σ where
  toPacketFuzzer := dnsFuzzer build
  getGrammarMutations :=
    DNS.getGrammarMutations.map fun mutation packet => some <$> mutation packet

/-- The buffer counts up from a random value; the sums are formed before they are reduced. -/
def seedBuffer (length randVal : ℕ) : Checked (List UInt8) :=
  (List.range length).mapM fun i => do pure (UInt8.ofNat ((← add randVal i) % 256))

/-- The buffer is one of those the engine seeds its own mutations with, unless a sum leaves
its type. -/
theorem seedBuffer_eq {length randVal : ℕ} (fits : randVal + length ≤ usizeRange) :
    seedBuffer length randVal = .ok (seedData length randVal) := by
  apply mapM_eq_map
  intro i hi
  rw [List.mem_range] at hi
  rw [add_of_lt (by omega)]
  rfl

theorem seedBuffer_returns_iff {length randVal : ℕ} (nonempty : 0 < length) :
    NoPanic (seedBuffer length randVal) ↔ randVal + length ≤ usizeRange := by
  constructor
  · intro returns
    by_contra large
    have hlast := noPanic_mapM_iff.mp returns (length - 1) (List.mem_range.mpr (by omega))
    obtain ⟨byte, hbyte⟩ := hlast
    rw [add, if_neg (by omega)] at hbyte
    cases hbyte
  · exact fun fits => ⟨_, seedBuffer_eq fits⟩

/-- Run a mutation on `Unstructured::new(&seed_data)`. -/
def withUnstructured {α : Type} (seedData : List UInt8) (m : Fallible Unstructured α) :
    Fallible (Sources ρ) α := fun s => do
  let (a, rest) ← m.run { data := seedData, random := s.thread }
  pure (a, { s with thread := rest.random })

/-- The result of a mutation replaces the input where it differs. -/
def replaceData (currentData : List UInt8) : Option (List UInt8) → MutationResult × List UInt8
  | some mutatedData =>
    if mutatedData ≠ currentData then (.mutated, mutatedData) else (.skipped, currentData)
  | none => (.skipped, currentData)

inductive MutationStrategy
  | protocolSpecific
  | grammarBased
  | fieldMutation
  | structuralMutation
  | hybridMutation
  deriving DecidableEq, Repr

structure ProtocolMutator where
  protocolFuzzer : GrammarFuzzer Unstructured
  mutationStrategies : List MutationStrategy

namespace ProtocolMutator

def new (protocolFuzzer : GrammarFuzzer Unstructured) : ProtocolMutator where
  protocolFuzzer
  mutationStrategies := [.protocolSpecific, .grammarBased, .fieldMutation, .structuralMutation,
    .hybridMutation]

variable (m : ProtocolMutator)

def applyProtocolSpecificMutation (currentData : List UInt8) :
    Fallible (Sources ρ) (MutationResult × List UInt8) := do
  let seedData ← seedBuffer 1024 (← draw randNext)
  let mutated ← withUnstructured seedData (m.protocolFuzzer.mutatePacket currentData)
  pure (replaceData currentData mutated)

def applyGrammarBasedMutation (currentData : List UInt8) :
    Fallible (Sources ρ) (MutationResult × List UInt8) := do
  let grammarMutations := m.protocolFuzzer.getGrammarMutations
  if grammarMutations.isEmpty then pure (.skipped, currentData)
  else
    let mutationIdx ← rem (← draw randNext) grammarMutations.length
    let mutation ← index grammarMutations mutationIdx
    let seedData ← seedBuffer 512 (← draw randNext)
    let mutated ← withUnstructured seedData (mutation currentData)
    pure (replaceData currentData mutated)

/-- A round of the hybrid strategy, which skips itself to avoid recursion. -/
def applyRound (data : List UInt8) :
    MutationStrategy → Fallible (Sources ρ) (MutationResult × List UInt8)
  | .protocolSpecific => m.applyProtocolSpecificMutation data
  | .grammarBased => m.applyGrammarBasedMutation data
  | .fieldMutation => applyFieldMutation data
  | .structuralMutation => applyStructuralMutation data
  | .hybridMutation => pure (.skipped, data)

/-- The rounds of the hybrid strategy, with a note whether one of them mutated the data. -/
def applyRounds : ℕ → Bool → List UInt8 → Fallible (Sources ρ) (Bool × List UInt8)
  | 0, mutated, data => pure (mutated, data)
  | rounds + 1, mutated, data => do
    -- The last strategy is the hybrid one.
    let strategyIdx ← rem (← draw randNext) (← sub m.mutationStrategies.length 1)
    let strategy ← index m.mutationStrategies strategyIdx
    let (result, data) ← m.applyRound data strategy
    applyRounds rounds (mutated || result == .mutated) data

def applyHybridMutation (data : List UInt8) :
    Fallible (Sources ρ) (MutationResult × List UInt8) := do
  let mutationCount := (← draw randNext) % 3 + 1
  let (mutated, data) ← m.applyRounds mutationCount false data
  pure (if mutated then .mutated else .skipped, data)

/-- The strategies as `mutate` applies them. -/
def applyStrategy (data : List UInt8) :
    MutationStrategy → Fallible (Sources ρ) (MutationResult × List UInt8)
  | .protocolSpecific => m.applyProtocolSpecificMutation data
  | .grammarBased => m.applyGrammarBasedMutation data
  | .fieldMutation => applyFieldMutation data
  | .structuralMutation => applyStructuralMutation data
  | .hybridMutation => m.applyHybridMutation data

def mutate (data : List UInt8) : Fallible (Sources ρ) (MutationResult × List UInt8) := do
  let strategyIdx ← rem (← draw randNext) m.mutationStrategies.length
  let strategy ← index m.mutationStrategies strategyIdx
  m.applyStrategy data strategy

end ProtocolMutator

end ProtocolFuzzer.Fuzzer
