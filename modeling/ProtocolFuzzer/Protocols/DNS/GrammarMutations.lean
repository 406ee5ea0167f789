/-
# The grammar mutations of DNS

The first mutation walks along the labels of the name behind the header and replaces the
length octet of each by a drawn byte. It reads the packet it is writing to, but never a
byte it has written: it steps over a label with the length it read before the
replacement. So the octets it replaces are those of the packet it was given, however
that packet is formed and whatever is drawn.
-/

import ProtocolFuzzer.Protocols.DNS.Fuzzer

namespace ProtocolFuzzer.DNS

open Math Platform

variable {σ : Type} [DrawSource σ]

/-- An assignment keeps the length. -/
theorem length_of_assign {bytes result : List UInt8} {i : ℕ} {byte : UInt8}
    (h : assign bytes i byte = .ok result) : result.length = bytes.length := by
  rw [assign] at h
  split_ifs at h
  cases h
  exact List.length_set

/-- The loop of the domain name mutation: mutate the label lengths from a position on. -/
def mutateLabels (result : List UInt8) (pos : ℕ) : Fallible σ (List UInt8) :=
  if pos < result.length then do
    let octet ← index result pos
    if octet ≠ 0 then
      let labelLen := octet.toNat
      if 0 < labelLen ∧ labelLen < 64 ∧ pos + labelLen < result.length then
        let drawn ← draw (u8Or (UInt8.ofNat labelLen))
        match h : assign result pos drawn with
        | .ok next => mutateLabels next (pos + (labelLen + 1))
        | .error panic => throw panic
      else
        pure result
    else
      pure result
  else
    pure result
termination_by result.length - pos
decreasing_by
  have := length_of_assign h
  omega

/-- Domain name mutations. -/
def domainNameMutation (packet : List UInt8) : Fallible σ (List UInt8) :=
  if packet.length > 12 then mutateLabels packet 12 else pure packet

/-- Header flag mutations. -/
def headerFlagMutation (packet : List UInt8) : Fallible σ (List UInt8) :=
  if packet.length ≥ 4 then do
    let first ← index packet 2
    let packet ← assign packet 2 (first ^^^ (← draw (u8Or 1)))
    let second ← index packet 3
    assign packet 3 (second ^^^ (← draw (u8Or 1)))
  else pure packet

def getGrammarMutations : List (List UInt8 → Fallible σ (List UInt8)) :=
  [domainNameMutation, headerFlagMutation]

/-- A label of the packet: its length is 1 to 63, and it ends inside the packet. -/
def LabelAt (packet : List UInt8) (pos length : ℕ) : Prop :=
  ∃ octet : UInt8, packet[pos]? = some octet ∧ octet.toNat = length ∧
    1 ≤ length ∧ length ≤ 63 ∧ pos + length < packet.length

/-- The positions reached from the end of the header by stepping over labels. -/
inductive LabelChain (packet : List UInt8) : ℕ → Prop
  | start : LabelChain packet 12
  | step {pos length : ℕ} (reached : LabelChain packet pos)
      (label : LabelAt packet pos length) : LabelChain packet (pos + (length + 1))

/-- The positions of the length octets of the chain. -/
def LengthOctet (packet : List UInt8) (pos : ℕ) : Prop :=
  LabelChain packet pos ∧ ∃ length, LabelAt packet pos length

/-- What the walk has done when it stands at a position of the chain: what is ahead is
untouched, and what has changed are length octets. -/
structure WalkedTo (packet result : List UInt8) (pos : ℕ) : Prop where
  length : result.length = packet.length
  reached : LabelChain packet pos
  ahead : ∀ i, pos ≤ i → result[i]? = packet[i]?
  changed : ∀ i, result[i]? ≠ packet[i]? → LengthOctet packet i

/-- Replacing an octet and stepping over its label. -/
theorem WalkedTo.step {packet result : List UInt8} {pos length : ℕ}
    (walked : WalkedTo packet result pos) (label : LabelAt packet pos length) (byte : UInt8) :
    WalkedTo packet (result.set pos byte) (pos + (length + 1)) where
  length := List.length_set.trans walked.length
  reached := .step walked.reached label
  ahead i hi := by
    rw [List.getElem?_set_ne (by omega)]
    exact walked.ahead i (by omega)
  changed i hi := by
    by_cases here : pos = i
    · subst here
      exact ⟨walked.reached, length, label⟩
    · rw [List.getElem?_set_ne here] at hi
      exact walked.changed i hi

/-- The walk returns, from wherever it stands. -/
theorem mutateLabels_completes {packet result : List UInt8} {pos : ℕ}
    (walked : WalkedTo packet result pos) :
    Completes (mutateLabels result pos : Fallible σ _) fun final =>
      ∃ stop, WalkedTo packet final stop := by
  -- The number of bytes ahead decreases with every label.
  induction hrest : result.length - pos using Nat.strong_induction_on generalizing result pos with
  | _ rest ih =>
      rw [mutateLabels]
      split_ifs with inside
      · apply Completes.bind (completes_index inside)
        intro octet hoctet
        have hread : packet[pos]? = some octet := by
          rw [← walked.ahead pos (Nat.le_refl pos), List.getElem?_eq_getElem inside, hoctet]
        dsimp only
        split_ifs with nonzero bounds
        · obtain ⟨hlow, hhigh, hend⟩ := bounds
          apply Completes.bind (completes_draw _)
          intro drawn _
          have label : LabelAt packet pos octet.toNat :=
            ⟨octet, hread, rfl, hlow, Nat.le_of_lt_succ hhigh, walked.length ▸ hend⟩
          have hassign := assign_of_lt inside drawn
          split
          · rename_i next hnext
            obtain rfl : result.set pos drawn = next := by
              rw [hassign] at hnext
              exact Except.ok.inj hnext
            apply ih _ _ (walked.step label drawn) rfl
            rw [List.length_set]
            omega
          · rename_i panic hpanic
            rw [hassign] at hpanic
            cases hpanic
        · exact completes_pure ⟨pos, walked⟩
        · exact completes_pure ⟨pos, walked⟩
      · exact completes_pure ⟨pos, walked⟩

theorem domainNameMutation_completes (packet : List UInt8) :
    Completes (domainNameMutation packet : Fallible σ _) fun result =>
      ∃ stop, WalkedTo packet result stop := by
  have walked : WalkedTo packet packet 12 :=
    ⟨rfl, .start, fun _ _ => rfl, fun _ h => absurd rfl h⟩
  rw [domainNameMutation]
  split_ifs
  · exact mutateLabels_completes walked
  · exact completes_pure ⟨12, walked⟩

/-- The domain name mutation returns on every packet, keeps its length, and changes only
length octets of the chain of labels the packet had. -/
theorem domainNameMutation_changes_length_octets (packet : List UInt8) :
    Completes (domainNameMutation packet : Fallible σ _) fun result =>
      result.length = packet.length ∧
        ∀ i, result[i]? ≠ packet[i]? → LengthOctet packet i := by
  apply (domainNameMutation_completes packet).mono
  intro result hresult
  obtain ⟨stop, walked⟩ := hresult
  exact ⟨walked.length, walked.changed⟩

/-- The header flag mutation returns on every packet, keeps its length, and changes only
the two flag bytes. -/
theorem headerFlagMutation_changes_flags (packet : List UInt8) :
    Completes (headerFlagMutation packet : Fallible σ _) fun result =>
      result.length = packet.length ∧ ∀ i, result[i]? ≠ packet[i]? → i = 2 ∨ i = 3 := by
  rw [headerFlagMutation]
  split_ifs with long
  · apply Completes.bind (completes_index (by omega))
    intro first _
    apply Completes.bind (completes_draw _)
    intro mask _
    apply Completes.bind (completes_assign (by omega) _)
    intro flagged hflagged
    subst hflagged
    apply Completes.bind (completes_index (by rw [List.length_set]; omega))
    intro second _
    apply Completes.bind (completes_draw _)
    intro mask' _
    apply (completes_assign (by rw [List.length_set]; omega) _).mono
    intro result hresult
    subst hresult
    refine ⟨by rw [List.length_set, List.length_set], fun i changed => ?_⟩
    by_contra outside
    apply changed
    rw [List.getElem?_set_ne (by omega), List.getElem?_set_ne (by omega)]
  · exact completes_pure ⟨rfl, fun i changed => absurd rfl changed⟩

/-- No grammar mutation changes the length of a packet. -/
theorem getGrammarMutations_length (packet : List UInt8)
    {mutation : List UInt8 → Fallible σ (List UInt8)} (listed : mutation ∈ getGrammarMutations) :
    Completes (mutation packet) fun result => result.length = packet.length := by
  rw [getGrammarMutations, List.mem_pair] at listed
  rcases listed with rfl | rfl
  · apply (domainNameMutation_completes packet).mono
    intro result hresult
    obtain ⟨stop, walked⟩ := hresult
    exact walked.length
  · exact (headerFlagMutation_changes_flags packet).mono fun result h => h.1

end ProtocolFuzzer.DNS
