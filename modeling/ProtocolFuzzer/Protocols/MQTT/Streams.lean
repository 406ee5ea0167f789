/-
# Streams of accepted packets

An accepted packet announces where it ends, so no accepted packet begins another. Packets
sent one after another over a connection can be told apart again, and a packet that is
cut short or runs on is rejected.
-/

import ProtocolFuzzer.Protocols.MQTT.Rejection

namespace ProtocolFuzzer.MQTT

open Math Platform InformationTheory

variable {σ : Type} [DrawSource σ]

theorem generateValidPacket_accepted :
    Always (generateValidPacket : Gen σ _) fun packet => packet ∈ accepted := by
  rw [generateValidPacket_eq]
  exact Always.map fun s => validatePacket_written (packetDraws_drawn s).writable

/-- The packets generated from several sources. -/
def generatedPackets (sources : List σ) : List (List UInt8) :=
  sources.map fun s => (generateValidPacket.run s).1

/-- A stream of accepted packets is cut into accepted packets in one way only, so a stream of
generated packets tells what was generated; a packet that runs on is rejected, and one that
is cut short as well. -/
theorem validatePacket_uniquelyDecodable :
    UniquelyDecodable accepted ∧
      (∀ sources sources' : List σ,
        (generatedPackets sources).flatten = (generatedPackets sources').flatten →
          generatedPackets sources = generatedPackets sources') ∧
      (∀ packet extra, packet ∈ accepted → extra ≠ [] →
        validatePacket (packet ++ extra) = .ok false) ∧
      (∀ packet extra, packet ++ extra ∈ accepted → extra ≠ [] →
        validatePacket packet = .ok false) := by
  have hgenerated : ∀ sources : List σ, ∀ packet ∈ generatedPackets sources,
      packet ∈ accepted := by
    intro sources packet hmem
    obtain ⟨s, -, rfl⟩ := List.mem_map.mp hmem
    exact generateValidPacket_accepted s
  have hdecodable := prefixFree_accepted.uniquelyDecodable nil_notMem_accepted
  refine ⟨hdecodable, ?_, ?_, ?_⟩
  · exact fun sources sources' =>
      hdecodable _ _ (hgenerated sources) (hgenerated sources')
  · exact fun packet extra => validatePacket_extended
  · exact fun packet extra => validatePacket_cut

end ProtocolFuzzer.MQTT
