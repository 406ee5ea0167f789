/-
# The DNS fuzzer

`DNSFuzzer` generates queries with one question, damages packets according to eight
malformed patterns, mutates packets, and reports what it sees in a packet for coverage
guidance. Packets are built and parsed by the `dns_parser` crate, whose builder and
parser are parameters. Names are their UTF-8 bytes.
-/

import ProtocolFuzzer.Protocols.Common

namespace ProtocolFuzzer.DNS

open Math Platform Common

inductive QueryType
  | A
  | AAAA
  | CNAME
  | MX
  | NS
  | PTR
  | SOA
  | TXT
  | SRV
  deriving DecidableEq, Repr

inductive MalformedPattern
  | invalidHeader
  | truncatedQuery
  | oversizedQuery
  | invalidQType
  | invalidQClass
  | pointerLoop
  | oversizedLabels
  | invalidCompression
  deriving DecidableEq, Repr

/-- Pre-defined domain names for realistic fuzzing. -/
def domainCorpus : List (List UInt8) :=
  ["example.com", "google.com", "github.com", "localhost", "test.local",
    "subdomain.example.org", "very-long-subdomain-name-that-might-cause-issues.example.com",
    "192.168.1.1"].map utf8

/-- Query types to fuzz. -/
def queryTypes : List QueryType := [.A, .AAAA, .CNAME, .MX, .NS, .PTR, .SOA, .TXT, .SRV]

def malformedPatterns : List MalformedPattern :=
  [.invalidHeader, .truncatedQuery, .oversizedQuery, .invalidQType, .invalidQClass, .pointerLoop,
    .oversizedLabels, .invalidCompression]

/-- The characters of a random label. -/
def labelCharset : List UInt8 := utf8 "abcdefghijklmnopqrstuvwxyz0123456789-"

theorem domainCorpus_pos : 0 < domainCorpus.length := by decide

theorem queryTypes_pos : 0 < queryTypes.length := by decide

theorem malformedPatterns_pos : 0 < malformedPatterns.length := by decide

theorem labelCharset_pos : 0 < labelCharset.length := by decide

/-- `dns_parser::Builder`: a new query with an id, one question of class IN for a name and
a type, and `build`, where `none` is an error. -/
abbrev Builder := UInt16 → List UInt8 → QueryType → Checked (Option (List UInt8))

section Draws

variable {σ : Type} [DrawSource σ]

/-- One label of a random domain. -/
def generateLabel : Gen σ (List UInt8) := do
  let labelLen := (← usizeOr 3) % 63 + 1
  replicateDraw labelLen do
    let idx ← usizeOr 0
    pure (pick labelCharset labelCharset_pos idx)

def generateRandomDomain : Gen σ (List UInt8) := do
  let labelCount := (← usizeOr 2) % 5 + 1
  let labels ← replicateDraw labelCount generateLabel
  pure ((utf8 ".").intercalate labels)

def generateDomainName : Gen σ (List UInt8) := do
  if (← boolOr false) && !domainCorpus.isEmpty then
    let idx ← usizeOr 0
    pure (pick domainCorpus domainCorpus_pos idx)
  else
    generateRandomDomain

def generateValidDnsPacket (build : Builder) : Fallible σ (Option (List UInt8)) := do
  let transactionId ← draw u16OrRandom
  let domain ← draw generateDomainName
  let queryTypeIdx ← draw (usizeOr 0)
  build transactionId domain (pick queryTypes queryTypes_pos queryTypeIdx)

/-! ## Malformed patterns -/

/-- The loop of the two patterns that look for the end of the domain name and overwrite a
field at some distance from it. -/
def corruptAfterName (offset : ℕ) : List ℕ → List UInt8 → Fallible σ (List UInt8)
  | [], packet => pure packet
  | i :: rest, packet => do
    if (← index packet i) = 0 then
      let packet ← assign packet (i + offset) (← draw (u8Or 0xFF))
      assign packet (i + offset + 1) (← draw (u8Or 0xFF))
    else
      corruptAfterName offset rest packet

def injectPointerLoop (packet : List UInt8) : Fallible σ (List UInt8) :=
  if packet.length > 12 then do
    let pos := 12 + (← rem (← draw (usizeOr 1)) (← sub packet.length 12))
    if pos + 1 < packet.length then
      -- a compression pointer that points to itself
      let packet ← assign packet pos 0xC0
      assign packet (pos + 1) (UInt8.ofNat pos)
    else
      pure packet
  else
    pure packet

def injectOversizedLabels (packet : List UInt8) : Fallible σ (List UInt8) :=
  if packet.length > 12 then do
    let oversizedLabelLen := max (← draw (u8Or 64)) 64
    let header ← slice packet 0 12
    pure (header ++ [oversizedLabelLen] ++ List.replicate oversizedLabelLen.toNat 0x41 ++ [0]
      ++ [0, 1, 0, 1])
  else
    pure packet

def injectInvalidCompression (packet : List UInt8) : Fallible σ (List UInt8) :=
  if packet.length > 14 then do
    let pos := 12 + (← rem (← draw (usizeOr 1)) (← sub packet.length 14))
    if pos + 1 < packet.length then
      -- a compression pointer that points beyond the end of the packet
      let packet ← assign packet pos 0xC0
      assign packet (pos + 1) (← draw (u8Or 0xFF))
    else
      pure packet
  else
    pure packet

/-- Apply one malformed pattern to a packet. -/
def applyMalformedPattern (packet : List UInt8) (pattern : MalformedPattern) :
    Fallible σ (List UInt8) :=
  match pattern with
  | .invalidHeader =>
    if packet.length ≥ 12 then do
      let packet ← assign packet 2 (← draw (u8Or 0xFF))
      assign packet 3 (← draw (u8Or 0xFF))
    else
      pure packet
  | .truncatedQuery =>
    if packet.length > 12 then do
      let truncateAt := 12 + (← rem (← draw (usizeOr 1)) (← sub packet.length 12))
      pure (packet.take truncateAt)
    else
      pure packet
  | .oversizedQuery => do
    let paddingSize := (← draw (usizeOr 1000)) % 10000 + 1000
    pure (packet ++ List.replicate paddingSize 0)
  | .invalidQType =>
    if packet.length ≥ 16 then do
      let stop ← sub packet.length 4
      corruptAfterName 1 (List.range' 12 (stop - 12)) packet
    else
      pure packet
  | .invalidQClass =>
    if packet.length ≥ 18 then do
      let stop ← sub packet.length 6
      corruptAfterName 3 (List.range' 12 (stop - 12)) packet
    else
      pure packet
  | .pointerLoop => injectPointerLoop packet
  | .oversizedLabels => injectOversizedLabels packet
  | .invalidCompression => injectInvalidCompression packet

/-- `&self.malformed_patterns[idx]` at a drawn index. -/
def drawMalformedPattern : Gen σ MalformedPattern := do
  let patternIdx ← usizeOr 0
  pure (pick malformedPatterns malformedPatterns_pos patternIdx)

/-- The loop of `generate_malformed_packet`. -/
def applyMalformedPatterns : ℕ → List UInt8 → Fallible σ (List UInt8)
  | 0, packet => pure packet
  | count + 1, packet => do
    let pattern ← draw drawMalformedPattern
    let packet ← applyMalformedPattern packet pattern
    applyMalformedPatterns count packet

/-- Generate a valid protocol packet. -/
def generateValidPacket (build : Builder) : Fallible σ (Option (List UInt8)) :=
  generateValidDnsPacket build

/-- Generate a malformed protocol packet for fuzzing. -/
def generateMalformedPacket (build : Builder) : Fallible σ (Option (List UInt8)) := do
  match ← generateValidDnsPacket build with
  | none => pure none
  | some basePacket =>
    let patternCount := (← draw (usizeOr 1)) % 3 + 1
    some <$> applyMalformedPatterns patternCount basePacket

/-- Mutate an existing packet. -/
def mutatePacket (packet : List UInt8) : Fallible σ (List UInt8) := do
  let mutationType := (← draw (u8Or 0)) % 5
  match mutationType with
  | 0 => bitFlipMutation packet
  | 1 => byteInsertMutation packet
  | 2 => byteDeleteMutation packet
  | 3 => arithmeticMutation packet
  | 4 => do
    let pattern ← draw drawMalformedPattern
    applyMalformedPattern packet pattern
  | _ => pure packet

end Draws

/-- The numbers of a question's type and class. -/
structure Question where
  qtype : UInt16
  qclass : UInt16

/-- `dns_parser::Packet::parse`, as far as its questions are used; `none` is an error. -/
abbrev Parser := List UInt8 → Option (List Question)

/-- Extract interesting features from packets for coverage guidance. -/
def extractFeatures (parse : Parser) (packet : List UInt8) : Checked (List ℕ) :=
  if packet.length < 12 then .ok [0]
  else do
    let transactionId := fromBE16 (← index packet 0) (← index packet 1)
    let flags := fromBE16 (← index packet 2) (← index packet 3)
    let qdcount := fromBE16 (← index packet 4) (← index packet 5)
    let ancount := fromBE16 (← index packet 6) (← index packet 7)
    let header :=
      [transactionId.toNat, flags.toNat, qdcount.toNat, ancount.toNat, packet.length]
    let questions := (parse packet).getD []
    pure (header ++ questions.flatMap fun question =>
      [question.qtype.toNat, question.qclass.toNat])

end ProtocolFuzzer.DNS
