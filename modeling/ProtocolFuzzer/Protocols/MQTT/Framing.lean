/-
# Malformed packets the validator accepts

The validator looks at the packet type, the length field and the length of a packet,
and at nothing else. `Framing` is that view, and `reframe` says how each drawn pattern
changes it. A chain of at most three patterns is followed by a simulation: as long as
the length field is intact, the packet starts with the length field of the base packet,
and once it was overwritten, no later pattern can make the validator accept. So a
generated packet is accepted exactly when the drawn patterns lead the framing back to
where it started.
-/

import ProtocolFuzzer.Protocols.MQTT.Generation
import ProtocolFuzzer.Protocols.MQTT.Patterns

namespace ProtocolFuzzer.MQTT

open Math Platform

variable {σ : Type} [DrawSource σ]

/-- A drawn pattern, and the source it draws its parameters from. -/
structure PatternDraw (σ : Type) where
  pattern : MalformedMQTTPattern
  source : σ

/-- The choices of `generateMalformedPacket`. -/
structure MalformedDraws (σ : Type) where
  base : DrawnPacket
  patterns : List (PatternDraw σ)

/-- The patterns drawn for a packet. How much a pattern draws depends on the packet it
finds, so the packets are carried along. -/
def patternDraws : ℕ → List UInt8 → Fallible σ (List (PatternDraw σ))
  | 0, _ => pure []
  | count + 1, packet => do
    let pattern ← draw drawMalformedPattern
    let source ← get
    let packet ← applyMalformedPattern packet pattern
    let patterns ← patternDraws count packet
    pure ({ pattern, source } :: patterns)

def malformedDraws : Fallible σ (MalformedDraws σ) := do
  let base ← draw packetDraws
  let patternCount := (← draw (usizeOr 1)) % 3 + 1
  let patterns ← patternDraws patternCount (Packet.render base).written
  pure { base, patterns }

/-- What the validator sees of a packet. -/
structure Framing where
  packetType : ℕ
  length : ℕ
  /-- The length field is still the one of the base packet. -/
  intact : Bool

/-- The framing of a packet that was just generated. -/
def Packet.framing (base : DrawnPacket) : Framing where
  packetType := base.kind
  length := (Packet.render base).written.length
  intact := true

/-- The effect of one drawn pattern on the framing. -/
def Framing.reframe (f : Framing) (d : PatternDraw σ) : Framing :=
  match d.pattern with
  | .invalidFixedHeader => { f with packetType := highNibble ((u8Or 0xFF).run d.source).1 }
  | .oversizedRemainingLength => { f with length := f.length + 4, intact := false }
  | .invalidPacketType => { f with packetType := 15 }
  | .truncatedPayload =>
    { f with length := if f.length > 5 then f.length / 2 else f.length }
  | .oversizedPayload =>
    { f with length := f.length + ((usizeOr 10000).run d.source).1 % 100000 }
  | .excessiveSubscriptions =>
    if f.packetType = 8 then
      { f with length := f.length + (additionalSubscriptions.run d.source).1.length }
    else f
  | .invalidQoS | .malformedUtf8 | .invalidTopicFilter | .protocolViolation => f

/-- The drawn patterns leave the length field alone, end in a packet type the validator
knows, and restore the length of the base packet. -/
def MalformedDraws.RestoreFraming (draws : MalformedDraws σ) : Prop :=
  let f := draws.patterns.foldl Framing.reframe draws.base.framing
  f.intact = true ∧ (1 ≤ f.packetType ∧ f.packetType ≤ 14) ∧
    f.length = draws.base.framing.length

/-- The packet still starts with the length field of the base packet. The last component
holds of base packets and is used when the first of three patterns is applied. -/
structure Intact (field : List UInt8) (k : ℕ) (f : Framing) (first : UInt8)
    (rest : List UInt8) : Prop where
  intact : f.intact = true
  packetType : highNibble first = f.packetType
  length : rest.length + 1 = f.length
  shape : ∃ body, rest = field ++ body
  small : k = 3 → f.length ≤ 5 → f.packetType ≠ 8

/-- The length field was overwritten, and `k` more patterns cannot repair it: either four
length bytes announce a successor, or the packet was cut inside them, or no pattern
is left. -/
inductive Overwritten : ℕ → UInt8 → List UInt8 → Prop
  | flagged {k : ℕ} (first : UInt8) (tail : List UInt8) (late : k ≤ 2)
      (small : k = 2 → tail.length ≤ 4 → highNibble first ≠ 8) :
      Overwritten k first ([0xFF, 0xFF, 0xFF, 0xFF] ++ tail)
  | cut {k : ℕ} (first : UInt8) {n : ℕ} (short : 2 ≤ n ∧ n ≤ 3) (late : k ≤ 1)
      (small : k = 1 → highNibble first ≠ 8) : Overwritten k first (List.replicate n 0xFF)
  | rejected (first : UInt8) (rest : List UInt8)
      (h : validatePacket (first :: rest) = .ok false) : Overwritten 0 first rest

/-- The abstract framing describes the packet with `k` patterns to go. -/
def Tracks (field : List UInt8) (k : ℕ) (f : Framing) (packet : List UInt8) : Prop :=
  ∃ first rest, packet = first :: rest ∧
    (Intact field k f first rest ∨ f.intact = false ∧ Overwritten k first rest)

/-- A pattern that keeps the framing keeps a prefix of up to five bytes behind the
first. -/
theorem SameFraming.prefix_eq {first : UInt8} {field body result : List UInt8}
    (h : SameFraming (first :: (field ++ body)) result) (short : field.length ≤ 5) :
    ∃ first' body', result = first' :: (field ++ body') ∧
      highNibble first' = highNibble first ∧ body'.length = body.length := by
  obtain ⟨first', tail, rfl⟩ : ∃ first' tail, result = first' :: tail :=
    List.exists_cons_of_length_pos (by rw [h.length]; simp)
  have hlength := h.length
  rw [List.length_cons, List.length_cons, List.length_append] at hlength
  have htake : tail.take field.length = field := by
    apply List.ext_getElem?
    intro i
    by_cases hi : i < field.length
    · have hsame := h.header (i + 1) (by omega) (by omega)
      rw [List.getElem?_cons_succ, List.getElem?_cons_succ,
        List.getElem?_append_left hi] at hsame
      rw [List.getElem?_take_of_lt hi, hsame]
    · rw [List.getElem?_eq_none (by rw [List.length_take]; omega),
        List.getElem?_eq_none (Nat.not_lt.mp hi)]
  refine ⟨first', tail.drop field.length, ?_, ?_, ?_⟩
  · rw [← congrArg (· ++ tail.drop field.length) htake, List.take_append_drop]
  · simpa using h.packetType
  · rw [List.length_drop]
    omega

/-- The validator rejects a packet whose leading length bytes all announce a
successor. -/
theorem validatePacket_flagged {first : UInt8} {rest : List UInt8}
    (h : ∀ b ∈ rest.take 4, Base128.Continues b) : validatePacket (first :: rest) = .ok false :=
  validatePacket_eq_false fun field body cut =>
    absurd ((Base128.split_eq_none h).symm.trans cut) (by simp)

theorem continues_of_mem_replicate {n : ℕ} {b : UInt8}
    (h : b ∈ List.replicate n (0xFF : UInt8)) : Base128.Continues b := by
  rw [(List.mem_replicate.mp h).2]
  decide

/-- Filling up a cut length field with the letter `A` completes it to a number that no
filling reaches. -/
theorem validatePacket_filled {first : UInt8} {n extra : ℕ} (short : 2 ≤ n ∧ n ≤ 3)
    (hextra : extra < 100000) :
    validatePacket (first :: (List.replicate n 0xFF ++ List.replicate extra 0x41)) =
      .ok false := by
  cases extra with
  | zero =>
      apply validatePacket_flagged
      intro b hb
      apply continues_of_mem_replicate (n := n)
      simpa using List.mem_of_mem_take hb
  | succ extra =>
      apply validatePacket_eq_false
      intro field body cut
      obtain ⟨shape, complete, -⟩ := Base128.split_eq_some.mp cut
      have hfield : Base128.Terminated (List.replicate n 0xFF ++ [0x41]) :=
        Base128.terminated_iff.mpr
          ⟨_, _, rfl, fun b hb => continues_of_mem_replicate hb, by decide⟩
      have hshape : (List.replicate n 0xFF ++ [0x41]) ++ List.replicate extra 0x41 =
          field ++ body := by
        rw [← shape, List.append_assoc]
        rfl
      obtain ⟨rfl, rfl⟩ := hfield.append_inj complete hshape
      rw [List.length_replicate]
      obtain rfl | rfl : n = 2 ∨ n = 3 := by omega
      · rw [show Base128.value (List.replicate 2 0xFF ++ [0x41]) = 1081343 by decide]
        omega
      · rw [show Base128.value (List.replicate 3 0xFF ++ [0x41]) = 138412031 by decide]
        omega

/-- When no pattern is left, the validator rejects. -/
theorem Overwritten.validatePacket_eq {first : UInt8} {rest : List UInt8}
    (h : Overwritten 0 first rest) : validatePacket (first :: rest) = .ok false := by
  cases h with
  | flagged first tail late small =>
      apply validatePacket_flagged
      intro b hb
      apply continues_of_mem_replicate (n := 4)
      exact hb
  | cut first short late small =>
      exact validatePacket_flagged fun b hb =>
        continues_of_mem_replicate (List.mem_of_mem_take hb)
  | rejected first rest h => exact h

/-- A further pattern keeps four flagged bytes, except that a truncation can cut into
them. -/
theorem Overwritten.step_flagged {k : ℕ} {first : UInt8} {tail result : List UInt8}
    {pattern : MalformedMQTTPattern} {s : σ} (late : k ≤ 1)
    (small : k = 1 → tail.length ≤ 4 → highNibble first ≠ 8)
    (heffect : Effect s first ([0xFF, 0xFF, 0xFF, 0xFF] ++ tail) result pattern) :
    ∃ first' rest', result = first' :: rest' ∧ Overwritten k first' rest' := by
  have hflagged : ∀ first' tail', Overwritten k first' ([0xFF, 0xFF, 0xFF, 0xFF] ++ tail') :=
    fun first' tail' => .flagged first' tail' (by omega) fun hk => absurd hk (by omega)
  have hsame : SameFraming (first :: ([0xFF, 0xFF, 0xFF, 0xFF] ++ tail)) result →
      ∃ first' rest', result = first' :: rest' ∧ Overwritten k first' rest' := by
    intro hsame
    obtain ⟨first', tail', rfl, -, -⟩ := hsame.prefix_eq (by decide)
    exact ⟨first', _, rfl, hflagged first' tail'⟩
  cases pattern with
  | invalidFixedHeader => exact ⟨_, _, heffect, hflagged _ tail⟩
  | invalidPacketType => exact ⟨_, _, heffect, hflagged _ tail⟩
  | oversizedRemainingLength => exact ⟨_, _, heffect, hflagged first (0x7F :: _)⟩
  | truncatedPayload =>
      rw [Effect] at heffect
      split_ifs at heffect with long
      · have hlength : ([0xFF, 0xFF, 0xFF, 0xFF] ++ tail).length = 4 + tail.length :=
          List.length_append
        rw [hlength] at heffect long
        refine ⟨first, _, heffect, ?_⟩
        by_cases whole : 4 ≤ (4 + tail.length + 1) / 2 - 1
        · rw [List.take_append, List.take_of_length_le (show List.length _ ≤ _ from whole)]
          exact hflagged first _
        · rw [List.take_append_of_le_length (show _ ≤ 4 by omega),
            show [0xFF, 0xFF, 0xFF, 0xFF] = List.replicate 4 (0xFF : UInt8) from rfl,
            List.take_replicate, Nat.min_eq_left (by omega)]
          exact .cut first (by omega) late fun hk => small hk (by omega)
      · exact ⟨_, _, heffect, hflagged first tail⟩
  | oversizedPayload =>
      rw [Effect, List.append_assoc] at heffect
      exact ⟨_, _, heffect, hflagged first _⟩
  | excessiveSubscriptions =>
      rw [Effect, List.append_assoc] at heffect
      split_ifs at heffect
      · exact ⟨_, _, heffect, hflagged first _⟩
      · exact ⟨_, _, heffect, hflagged first tail⟩
  | invalidQoS => exact hsame heffect
  | malformedUtf8 => exact hsame heffect
  | invalidTopicFilter => exact hsame heffect
  | protocolViolation => exact hsame heffect

/-- The last pattern does not complete a length field that was cut: the packet type keeps
it from appending anything but the letter `A`. -/
theorem Overwritten.step_cut {n : ℕ} {first : UInt8} {result : List UInt8}
    {pattern : MalformedMQTTPattern} {s : σ} (short : 2 ≤ n ∧ n ≤ 3)
    (small : highNibble first ≠ 8)
    (heffect : Effect s first (List.replicate n 0xFF) result pattern) :
    ∃ first' rest', result = first' :: rest' ∧ Overwritten 0 first' rest' := by
  have hcut : ∀ first', Overwritten 0 first' (List.replicate n 0xFF) :=
    fun first' => .cut first' short (by decide) fun hk => absurd hk (by decide)
  have hsame : SameFraming (first :: List.replicate n 0xFF) result →
      ∃ first' rest', result = first' :: rest' ∧ Overwritten 0 first' rest' := by
    intro hsame
    rw [← List.append_nil (List.replicate n 0xFF)] at hsame
    obtain ⟨first', body, rfl, -, hbody⟩ :=
      hsame.prefix_eq (by rw [List.length_replicate]; omega)
    obtain rfl := List.eq_nil_of_length_eq_zero hbody
    exact ⟨first', _, rfl, by simpa using hcut first'⟩
  cases pattern with
  | invalidFixedHeader => exact ⟨_, _, heffect, hcut _⟩
  | invalidPacketType => exact ⟨_, _, heffect, hcut _⟩
  | oversizedRemainingLength =>
      have hne : List.replicate n (0xFF : UInt8) ≠ [] := by simp; omega
      rw [Effect, if_neg hne] at heffect
      exact ⟨_, _, heffect, .flagged first (0x7F :: _) (by decide) fun hk => absurd hk (by decide)⟩
  | truncatedPayload =>
      rw [Effect, if_neg (by rw [List.length_replicate]; omega)] at heffect
      exact ⟨_, _, heffect, hcut first⟩
  | oversizedPayload =>
      exact ⟨_, _, heffect, .rejected _ _
        (validatePacket_filled short (Nat.mod_lt _ (by decide)))⟩
  | excessiveSubscriptions =>
      rw [Effect, if_neg small] at heffect
      exact ⟨_, _, heffect, hcut first⟩
  | invalidQoS => exact hsame heffect
  | malformedUtf8 => exact hsame heffect
  | invalidTopicFilter => exact hsame heffect
  | protocolViolation => exact hsame heffect

/-- A further pattern does not repair an overwritten length field. -/
theorem Overwritten.step {k : ℕ} {first : UInt8} {rest result : List UInt8}
    {pattern : MalformedMQTTPattern} {s : σ} (h : Overwritten (k + 1) first rest)
    (heffect : Effect s first rest result pattern) :
    ∃ first' rest', result = first' :: rest' ∧ Overwritten k first' rest' := by
  cases h with
  | flagged first tail late small =>
      exact step_flagged (by omega) (fun hk => small (by omega)) heffect
  | cut first short late small =>
      obtain rfl : k = 0 := by omega
      exact step_cut short (small rfl) heffect

/-- A pattern either keeps the length field, and changes the framing as described, or
overwrites it. -/
theorem Intact.step {field : List UInt8} {k : ℕ} {f : Framing} {first : UInt8}
    {rest result : List UInt8} {pattern : MalformedMQTTPattern} {s : σ}
    (hfield : 1 ≤ field.length ∧ field.length ≤ 2) (hk : k ≤ 2)
    (h : Intact field (k + 1) f first rest) (heffect : Effect s first rest result pattern) :
    Tracks field k (f.reframe ⟨pattern, s⟩) result := by
  obtain ⟨hintact, htype, hlength, ⟨body, rfl⟩, small⟩ := h
  have early : ∀ {P : Prop}, k = 3 → P := fun hk3 => absurd hk3 (by omega)
  have hsame : SameFraming (first :: (field ++ body)) result → Tracks field k f result := by
    intro hsame
    obtain ⟨first', body', rfl, hfirst, hbody⟩ := hsame.prefix_eq (by omega)
    refine ⟨first', _, rfl, .inl ⟨hintact, hfirst.trans htype, ?_, ⟨body', rfl⟩, early⟩⟩
    rw [← hlength, List.length_append, List.length_append, hbody]
  cases pattern with
  | invalidFixedHeader => exact ⟨_, _, heffect, .inl ⟨hintact, rfl, hlength, ⟨body, rfl⟩, early⟩⟩
  | invalidPacketType =>
      exact ⟨_, _, heffect, .inl
        ⟨hintact, highNibble_reserved first, hlength, ⟨body, rfl⟩, early⟩⟩
  | oversizedRemainingLength =>
      have hne : field ++ body ≠ [] := List.ne_nil_of_length_pos (by
        rw [List.length_append]
        omega)
      rw [Effect, if_neg hne] at heffect
      refine ⟨_, _, heffect, .inr ⟨rfl, .flagged first (0x7F :: _) hk ?_⟩⟩
      intro hk2 hshort
      rw [htype]
      apply small (by omega)
      change (field ++ body).tail.length + 1 ≤ 4 at hshort
      rw [List.length_tail] at hshort
      omega
  | truncatedPayload =>
      rw [Effect] at heffect
      rw [Framing.reframe, ← hlength]
      rw [List.length_append] at heffect hlength ⊢
      split_ifs at heffect with long
      · refine ⟨_, _, heffect, .inl ⟨hintact, htype, ?_,
          ⟨body.take ((field.length + body.length + 1) / 2 - 1 - field.length), ?_⟩, early⟩⟩
        · dsimp only
          rw [if_pos (by omega), List.length_take, List.length_append]
          omega
        · rw [List.take_append, List.take_of_length_le (by omega)]
      · refine ⟨_, _, heffect, .inl ⟨hintact, htype, ?_, ⟨body, rfl⟩, early⟩⟩
        dsimp only
        rw [if_neg (by omega), List.length_append]
  | oversizedPayload =>
      refine ⟨_, _, heffect, .inl ⟨hintact, htype, ?_, ⟨body ++ _, by rw [List.append_assoc]⟩,
        early⟩⟩
      dsimp only [Framing.reframe]
      rw [← hlength, List.length_append, List.length_replicate]
      omega
  | excessiveSubscriptions =>
      rw [Effect, htype] at heffect
      rw [Framing.reframe]
      dsimp only
      split_ifs at heffect ⊢ with subscribe
      · refine ⟨_, _, heffect, .inl ⟨hintact, htype, ?_,
          ⟨body ++ _, by rw [List.append_assoc]⟩, early⟩⟩
        rw [List.length_append, ← hlength]
        dsimp only
        omega
      · exact ⟨_, _, heffect, .inl ⟨hintact, htype, hlength, ⟨body, rfl⟩, early⟩⟩
  | invalidQoS => exact hsame heffect
  | malformedUtf8 => exact hsame heffect
  | invalidTopicFilter => exact hsame heffect
  | protocolViolation => exact hsame heffect

/-- No pattern restores the length field. -/
theorem Framing.reframe_overwritten {f : Framing} (h : f.intact = false) (d : PatternDraw σ) :
    (f.reframe d).intact = false := by
  obtain ⟨pattern, source⟩ := d
  cases pattern with
  | oversizedRemainingLength => rfl
  | excessiveSubscriptions =>
      rw [Framing.reframe]
      dsimp only
      split_ifs <;> exact h
  | _ => exact h

theorem Tracks.step {field : List UInt8} {k : ℕ} {f : Framing} {first : UInt8}
    {rest result : List UInt8} {pattern : MalformedMQTTPattern} {s : σ}
    (hfield : 1 ≤ field.length ∧ field.length ≤ 2) (hk : k ≤ 2)
    (h : Intact field (k + 1) f first rest ∨ f.intact = false ∧ Overwritten (k + 1) first rest)
    (heffect : Effect s first rest result pattern) :
    Tracks field k (f.reframe ⟨pattern, s⟩) result := by
  rcases h with hintact | ⟨hbroken, hover⟩
  · exact hintact.step hfield hk heffect
  · obtain ⟨first', rest', rfl, hover'⟩ := hover.step heffect
    exact ⟨first', rest', rfl, .inr ⟨Framing.reframe_overwritten hbroken _, hover'⟩⟩

/-- The patterns applied to a tracked packet return, and the framing follows the
patterns that were drawn. -/
theorem applyMalformedPatterns_tracks {field : List UInt8}
    (hfield : 1 ≤ field.length ∧ field.length ≤ 2) {k : ℕ} (hk : k ≤ 3) {f : Framing}
    {packet : List UInt8} (h : Tracks field k f packet) (s : σ) :
    ∃ result patterns s', (applyMalformedPatterns k packet).run s = .ok (result, s') ∧
      (patternDraws k packet).run s = .ok (patterns, s') ∧
      Tracks field 0 (patterns.foldl Framing.reframe f) result := by
  induction k generalizing f packet s with
  | zero => exact ⟨packet, [], s, rfl, rfl, h⟩
  | succ k ih =>
      obtain ⟨first, rest, rfl, hcase⟩ := h
      rcases hpattern : drawMalformedPattern.run s with ⟨pattern, s₁⟩
      obtain ⟨next, s₂, happly, heffect⟩ := applyMalformedPattern_effect s₁ first rest pattern
      have hnext := Tracks.step hfield (by omega) hcase heffect
      obtain ⟨result, patterns, s₃, hrun, hdraws, htracks⟩ := ih (by omega) hnext s₂
      refine ⟨result, ⟨pattern, s₁⟩ :: patterns, s₃, ?_, ?_, htracks⟩
      · rw [applyMalformedPatterns, StateT.run_bind, run_draw, hpattern, ok_bind,
          StateT.run_bind, happly, ok_bind, hrun]
      · rw [patternDraws, StateT.run_bind, run_draw, hpattern, ok_bind, StateT.run_bind]
        change ((applyMalformedPattern (first :: rest) pattern).run s₁ >>= _) = _
        rw [happly, ok_bind]
        change ((patternDraws k next).run s₂ >>= _) = _
        rw [hdraws, ok_bind]
        rfl

theorem kind_render (base : DrawnPacket) : (Packet.render base).kind = base.kind := by
  cases base <;> rfl

/-- A SUBSCRIBE packet has at least seven bytes. -/
theorem Packet.Drawn.subscribe_long {base : DrawnPacket} (h : base.Drawn) (hkind : base.kind = 8) :
    5 ≤ (Packet.render base).body.length := by
  cases base with
  | subscribe packetId filters =>
      obtain ⟨entry, filters, rfl⟩ := List.exists_cons_of_ne_nil h.1
      change 5 ≤ (subscribeBody packetId (renderFilter entry :: filters.map renderFilter)).length
      rw [subscribeBody, List.flatMap_cons]
      simp only [writeSubscription, writeText, List.length_append, length_toBE16,
        List.length_singleton]
      omega
  | _ => exact absurd hkind (by simp [Packet.kind])

/-- A generated packet is tracked before the first pattern. -/
theorem tracks_base {base : DrawnPacket} (h : base.Drawn) (k : ℕ) :
    Tracks (Base128.encode (Packet.render base).body.length) k base.framing
      (Packet.render base).written := by
  have hkind : highNibble (Packet.render base).first = base.kind :=
    (highNibble_first h.writable).trans (kind_render base)
  refine ⟨_, _, rfl, .inl ⟨rfl, hkind, rfl, ⟨_, rfl⟩, fun _ hshort hsubscribe => ?_⟩⟩
  have hlong := h.subscribe_long hsubscribe
  have hfield := List.length_pos_of_ne_nil
    (Base128.encode_terminated (Packet.render base).body.length).ne_nil
  change (Packet.render base).written.length ≤ 5 at hshort
  rw [Packet.written, frame, List.length_append, List.length_append] at hshort
  omega

/-- With no pattern left, the validator accepts exactly the restored framings. -/
theorem Tracks.validatePacket_eq_false_iff {base : DrawnPacket} (h : base.Drawn) {f : Framing}
    {packet : List UInt8}
    (htracks : Tracks (Base128.encode (Packet.render base).body.length) 0 f packet) :
    validatePacket packet = .ok false ↔
      ¬ (f.intact = true ∧ (1 ≤ f.packetType ∧ f.packetType ≤ 14) ∧
        f.length = base.framing.length) := by
  obtain ⟨first, rest, rfl, ⟨hintact, htype, hlength, ⟨body, rfl⟩, -⟩ | ⟨hbroken, hover⟩⟩ :=
    htracks
  · have hcut := Base128.split_encode (by decide) h.writable.short body
    rw [validatePacket_cons, hcut, hintact, ← htype, ← hlength]
    simp only [Base128.value_encode, Packet.framing, Packet.written, frame, List.length_append,
      List.length_singleton, Except.ok.injEq, decide_eq_false_iff_not, true_and]
    refine not_congr (and_congr_right fun _ => ?_)
    omega
  · rw [hover.validatePacket_eq, hbroken]
    simp

/-- The validator rejects a generated malformed packet exactly when the drawn patterns do
not restore the framing of the packet they start from. -/
theorem generateMalformedPacket_rejected_iff (s : σ) :
    ∃ packet draws s', generateMalformedPacket.run s = .ok (packet, s') ∧
      malformedDraws.run s = .ok (draws, s') ∧
      (validatePacket packet = .ok false ↔ ¬ draws.RestoreFraming) := by
  have hdrawn := packetDraws_drawn s
  rcases hbase : packetDraws.run s with ⟨base, s₁⟩
  rw [hbase] at hdrawn
  rcases hcount : (usizeOr 1 : Gen σ ℕ).run s₁ with ⟨count, s₂⟩
  have hfield := Base128.length_encode_le (by decide) hdrawn.body_short
  have hfield' := List.length_pos_of_ne_nil
    (Base128.encode_terminated (Packet.render base).body.length).ne_nil
  obtain ⟨packet, patterns, s₃, hrun, hdraws, htracks⟩ :=
    applyMalformedPatterns_tracks ⟨hfield', hfield⟩
      (show count % 3 + 1 ≤ 3 by have := Nat.mod_lt count (show 3 > 0 by decide); omega)
      (tracks_base hdrawn _) s₂
  refine ⟨packet, { base, patterns }, s₃, ?_, ?_, htracks.validatePacket_eq_false_iff hdrawn⟩
  · have hgenerated : (generateValidPacket : Gen σ _).run s =
        ((Packet.render base).written, s₁) := by
      rw [generateValidPacket_eq]
      exact congrArg (fun p => ((Packet.render p.1).written, p.2)) hbase
    rw [generateMalformedPacket, StateT.run_bind, run_draw, hgenerated, ok_bind,
      StateT.run_bind, run_draw, hcount, ok_bind, hrun]
  · rw [malformedDraws, StateT.run_bind, run_draw, hbase, ok_bind, StateT.run_bind, run_draw,
      hcount, ok_bind]
    dsimp only
    rw [StateT.run_bind, hdraws]
    rfl

/-- A seed for a PINGREQ packet and one protocol violation of the kind that changes
nothing. -/
def untouchedSeed : Unstructured :=
  { data := [3] ++ List.replicate 8 0 ++ [9] ++ List.replicate 7 0 ++ [1] }

/-- The malformed packet of that seed is the base packet, and the validator accepts it. -/
theorem generateMalformedPacket_accepted :
    ∃ packet s', generateMalformedPacket.run untouchedSeed = .ok (packet, s') ∧
      packet = [0xC0, 0x00] ∧ validatePacket packet = .ok true ∧
      ¬ validatePacket packet = .ok false := by
  have haccepted : validatePacket [0xC0, 0x00] = .ok true := by
    rw [validatePacket_cons]
    rfl
  refine ⟨[0xC0, 0x00], _, rfl, rfl, haccepted, ?_⟩
  rw [haccepted]
  simp

end ProtocolFuzzer.MQTT
