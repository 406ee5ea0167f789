/-
# Strings in binary data

`extract_strings` collects the runs of printable bytes. It flushes the run it has collected
at every other byte and once more at the end, so the runs it considers are the pieces of
the data split at those bytes; printable bytes are ASCII, so each run is a text.
-/

import ProtocolFuzzer.Math.Bytes

namespace ProtocolFuzzer.Utils

open Math

/-- `byte.is_ascii_graphic()` -/
def isAsciiGraphic (byte : UInt8) : Bool := 33 ≤ byte && byte ≤ 126

/-- The bytes at which a string ends. -/
def isSeparator (byte : UInt8) : Bool := !(isAsciiGraphic byte || byte == 32)

/-- Add the current string if it is long enough and a text. -/
def flush (minLength : ℕ) (current : List UInt8) (strings : List String) : List String :=
  if current.length ≥ minLength then
    match fromUtf8 current with
    | some s => strings ++ [s]
    | none => strings
  else strings

def collectStrings (minLength : ℕ) : List UInt8 → List UInt8 → List String → List String
  | [], current, strings => flush minLength current strings
  | byte :: data, current, strings =>
    if isSeparator byte then collectStrings minLength data [] (flush minLength current strings)
    else collectStrings minLength data (current ++ [byte]) strings

/-- Extract interesting strings from binary data. -/
def extractStrings (data : List UInt8) (minLength : ℕ) : List String :=
  collectStrings minLength data [] []

theorem lt_of_not_isSeparator {byte : UInt8} (h : isSeparator byte = false) : byte < 128 := by
  have hascii : ∀ b : UInt8, isSeparator b = false → b < 128 := forall_byte (by decide +kernel)
  exact hascii byte h

/-- A run that is long enough is added, and no other. -/
theorem map_flush {minLength : ℕ} {current : List UInt8}
    (printable : ∀ b ∈ current, isSeparator b = false) (strings : List String) :
    (flush minLength current strings).map utf8 =
      strings.map utf8 ++ [current].filter fun piece => minLength ≤ piece.length := by
  obtain ⟨text, htext, hbytes⟩ :=
    exists_fromUtf8_of_ascii fun b hb => lt_of_not_isSeparator (printable b hb)
  rw [flush, htext]
  by_cases long : minLength ≤ current.length
  · rw [if_pos long, List.map_append, List.filter_singleton]
    simp [hbytes, long]
  · rw [if_neg long, List.filter_singleton]
    simp [long]

/-- The loop adds the pieces of what is collected and what is to come. -/
theorem map_collectStrings {minLength : ℕ} (data : List UInt8) {current : List UInt8}
    (printable : ∀ b ∈ current, isSeparator b = false) (strings : List String) :
    (collectStrings minLength data current strings).map utf8 = strings.map utf8 ++
      ((current ++ data).splitOnP isSeparator).filter fun piece => minLength ≤ piece.length := by
  induction data generalizing current strings with
  | nil =>
      rw [collectStrings, map_flush printable, List.append_nil,
        List.splitOnP_eq_singleton printable]
  | cons byte data ih =>
      rw [collectStrings]
      split_ifs with separator
      · rw [ih (by simp), map_flush printable, List.nil_append, List.append_assoc,
          List.splitOnP_append_cons_of_forall_mem printable byte separator,
          ← List.filter_append, List.singleton_append]
      · have hnext : ∀ b ∈ current ++ [byte], isSeparator b = false := by
          rw [List.forall_mem_append, List.forall_mem_singleton]
          exact ⟨printable, Bool.eq_false_iff.mpr separator⟩
        rw [ih hnext, List.append_assoc, List.singleton_append]

/-- The extracted strings are, in order, the pieces of the data split at the separators that
are long enough. -/
theorem extractStrings_eq_pieces (data : List UInt8) (minLength : ℕ) :
    (extractStrings data minLength).map utf8 =
      (data.splitOnP isSeparator).filter fun piece => minLength ≤ piece.length := by
  rw [extractStrings, map_collectStrings data (by simp), List.map_nil, List.nil_append,
    List.nil_append]

example : extractStrings (utf8 "GET /" ++ [0, 1] ++ utf8 "ab" ++ [13] ++ utf8 "last") 3 =
    ["GET /", "last"] := by decide +kernel

end ProtocolFuzzer.Utils
