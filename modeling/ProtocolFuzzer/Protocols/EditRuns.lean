/-
# From one packet to another

Two branches of `mutate_packet` edit a packet at one place: they insert or delete one byte.
What they do is drawn, and every edit can be drawn, as long as positions fit their type. So
calls of `mutate_packet` lead from every packet to every other, and how many it takes
depends on what the packets have in common.
-/

import ProtocolFuzzer.Math.Indels
import ProtocolFuzzer.Protocols.DNS.Patterns
import ProtocolFuzzer.Protocols.MQTT.Mutation

namespace ProtocolFuzzer

open Math Platform Common

section Draws

variable {σ : Type} [DrawSource σ]

def ProtocolType.mutatePacket : ProtocolType → List UInt8 → Fallible σ (List UInt8)
  | .DNS => DNS.mutatePacket
  | .MQTT => MQTT.mutatePacket

/-- The mutation inserts or deletes a byte. -/
def DrawsEdit (s : σ) : Prop := ((u8Or 0).run s).1 % 5 = 1 ∨ ((u8Or 0).run s).1 % 5 = 2

/-- The edit that is drawn, where one is. -/
def drawnEdit (s : σ) : Edit UInt8 :=
  let rest := ((u8Or 0).run s).2
  if ((u8Or 0).run s).1 % 5 = 1 then
    .insert ((usizeOr 0).run rest).1 ((u8Or 0).run ((usizeOr 0).run rest).2).1
  else .delete ((usizeOr 0).run rest).1

theorem byteInsertMutation_edits (packet : List UInt8) (s : σ) :
    CompletesFrom s (byteInsertMutation packet) (· =
      (Edit.insert ((usizeOr 0).run s).1 ((u8Or 0).run ((usizeOr 0).run s).2).1).apply packet) := by
  rw [byteInsertMutation]
  apply CompletesFrom.draw_bind
  apply CompletesFrom.lift_bind (rem_of_pos (Nat.succ_pos packet.length))
  apply CompletesFrom.draw_bind
  exact completes_insertAt (Nat.le_of_lt_succ (Nat.mod_lt _ (Nat.succ_pos _))) _ _

theorem byteDeleteMutation_edits (packet : List UInt8) (s : σ) :
    CompletesFrom s (byteDeleteMutation packet) (· =
      (Edit.delete ((usizeOr 0).run s).1).apply packet) := by
  rw [byteDeleteMutation]
  split_ifs with empty
  · obtain rfl := List.isEmpty_iff.mp empty
    rw [Edit.apply_delete_nil]
    exact ⟨[], s, rfl, rfl⟩
  · have hpos : 0 < packet.length := by
      rwa [List.isEmpty_iff, ← ne_eq, ← List.length_pos_iff] at empty
    apply CompletesFrom.draw_bind
    apply CompletesFrom.lift_bind (rem_of_pos hpos)
    exact completes_removeAt (Nat.mod_lt _ hpos) _

/-- Such a mutation is the edit drawn. -/
theorem mutatePacket_edits (protocol : ProtocolType) (packet : List UInt8) {s : σ}
    (h : DrawsEdit s) :
    CompletesFrom s (protocol.mutatePacket packet) (· = (drawnEdit s).apply packet) := by
  have hstep : ∀ {Pattern : Type} (drawPattern : Gen σ Pattern)
      (applyPattern : List UInt8 → Pattern → Fallible σ (List UInt8)),
      CompletesFrom s (draw (drawMutation drawPattern) >>= Mutation.apply applyPattern packet)
        (· = (drawnEdit s).apply packet) := by
    intro Pattern drawPattern applyPattern
    apply CompletesFrom.draw_bind
    rw [drawMutation, StateT.run_bind, drawnEdit]
    dsimp only [Id.run, bind]
    rcases h with h | h
    · rw [h, if_pos rfl]
      exact byteInsertMutation_edits packet _
    · rw [h, if_neg (by decide)]
      exact byteDeleteMutation_edits packet _
  cases protocol with
  | DNS =>
      rw [ProtocolType.mutatePacket, DNS.mutatePacket_eq]
      exact hstep _ _
  | MQTT =>
      rw [ProtocolType.mutatePacket, MQTT.mutatePacket_eq]
      exact hstep _ _

/-- `mutate_packet` called once for every source, each time on what the last call left. -/
def ProtocolType.mutateAlong (protocol : ProtocolType) :
    List σ → List UInt8 → Checked (List UInt8)
  | [], packet => .ok packet
  | s :: sources, packet => do
    let (packet, _) ← (protocol.mutatePacket packet).run s
    protocol.mutateAlong sources packet

/-- A run of such calls is a run of edits. -/
theorem mutateAlong_eq (protocol : ProtocolType) {sources : List σ}
    (h : ∀ s ∈ sources, DrawsEdit s) (packet : List UInt8) :
    protocol.mutateAlong sources packet =
      .ok ((sources.map drawnEdit).foldl Edit.apply packet) := by
  induction sources generalizing packet with
  | nil => rfl
  | cons s sources ih =>
      obtain ⟨hfirst, hrest⟩ := List.forall_mem_cons.mp h
      obtain ⟨_, s', hrun, rfl⟩ := mutatePacket_edits protocol packet hfirst
      rw [ProtocolType.mutateAlong, hrun, ok_bind, List.map_cons, List.foldl_cons]
      exact ih hrest _

end Draws

/-- A seed buffer from which the edit is drawn. -/
def editSource : Edit UInt8 → Unstructured
  | .insert pos byte => { data := 1 :: (toLE 8 pos ++ [byte]) }
  | .delete pos => { data := 2 :: toLE 8 pos }

theorem drawsEdit_editSource (edit : Edit UInt8) : DrawsEdit (editSource edit) := by
  cases edit with
  | insert pos byte =>
      rw [DrawsEdit, editSource, Unstructured.u8Or_run]
      exact .inl rfl
  | delete pos =>
      rw [DrawsEdit, editSource, Unstructured.u8Or_run]
      exact .inr rfl

theorem drawnEdit_editSource {edit : Edit UInt8} (fits : edit.pos < usizeRange) :
    drawnEdit (editSource edit) = edit := by
  have hword : ∀ (pos : ℕ) (rest : List UInt8), pos < usizeRange →
      ((usizeOr 0).run ({ data := toLE 8 pos ++ rest } : Unstructured)).1 = pos := by
    intro pos rest hpos
    have hlength := length_toLE 8 pos
    rw [Unstructured.usizeOr_run _ (by rw [List.length_append]; omega),
      List.take_left' hlength, fromLE_toLE hpos]
  cases edit with
  | insert pos byte =>
      have hrest : ((usizeOr 0).run ({ data := toLE 8 pos ++ [byte] } : Unstructured)).2 =
          { data := [byte] } := by
        change ({ data := (toLE 8 pos ++ [byte]).drop 8 } : Unstructured) = _
        rw [List.drop_left' (length_toLE 8 pos)]
      rw [drawnEdit, editSource, Unstructured.u8Or_run]
      dsimp only
      rw [if_pos (by decide), hword pos [byte] fits, hrest, Unstructured.u8Or_run]
  | delete pos =>
      rw [drawnEdit, editSource, Unstructured.u8Or_run]
      dsimp only
      rw [if_neg (by decide), ← List.append_nil (toLE 8 pos), hword pos [] fits]

/-- With calls of `mutate_packet` that insert or delete a byte, a packet is turned into
another one exactly when the calls make up for all that is not in some common subsequence
of the two. So every packet can be turned into every other. -/
theorem mutateAlong_reaches_iff (protocol : ProtocolType) {packet target : List UInt8}
    (hpacket : packet.length ≤ usizeRange) (htarget : target.length ≤ usizeRange) (calls : ℕ) :
    (∃ sources : List Unstructured, sources.length ≤ calls ∧ (∀ s ∈ sources, DrawsEdit s) ∧
      protocol.mutateAlong sources packet = .ok target) ↔
    ∃ common : List UInt8, common.Sublist packet ∧ common.Sublist target ∧
      packet.length + target.length ≤ calls + 2 * common.length := by
  constructor
  · rintro ⟨sources, hcalls, hedits, hrun⟩
    rw [mutateAlong_eq protocol hedits] at hrun
    obtain ⟨common, hfrom, hto, hlength⟩ := exists_common (sources.map drawnEdit) packet
    rw [Except.ok.inj hrun] at hto hlength
    rw [List.length_map] at hlength
    exact ⟨common, hfrom, hto, by omega⟩
  · rintro ⟨common, hfrom, hto, hlength⟩
    obtain ⟨edits, hcount, hpos, hrun⟩ := exists_edits hfrom hto
    have hdrawn : (edits.map editSource).map drawnEdit = edits := by
      rw [List.map_map]
      refine (List.map_congr_left fun edit hmem => ?_).trans (List.map_id edits)
      exact drawnEdit_editSource ((hpos edit hmem).trans_le (max_le hpacket htarget))
    have hedits : ∀ s ∈ edits.map editSource, DrawsEdit s :=
      List.forall_mem_map.mpr fun edit _ => drawsEdit_editSource edit
    refine ⟨edits.map editSource, by rw [List.length_map]; omega, hedits, ?_⟩
    rw [mutateAlong_eq protocol hedits, hdrawn, hrun]

/-- A PINGREQ packet becomes a DISCONNECT packet with two calls. -/
theorem mutateAlong_reaches_iff_disconnect :
    ∃ sources : List Unstructured, sources.length ≤ 2 ∧ (∀ s ∈ sources, DrawsEdit s) ∧
      ProtocolType.MQTT.mutateAlong sources [0xC0, 0x00] = .ok [0xE0, 0x00] :=
  (mutateAlong_reaches_iff .MQTT (by decide) (by decide) 2).mpr
    ⟨[0x00], by decide, by decide, by decide⟩

end ProtocolFuzzer
