/-
# The hexdump

A dump shows sixteen bytes a line: the offset, two groups of eight hexadecimal columns, and
the printable characters between bars. The bytes of a line are printed by one loop and the
columns a short line leaves empty by another, and whichever of them reaches the ninth
column puts the gap in front of it. So a line is the same table of sixteen cells for every
length, and everything that is shown can be read back from its place in the line.
-/

import ProtocolFuzzer.Math.Chunks
import ProtocolFuzzer.Platform.Text
import ProtocolFuzzer.Utils.ExtractStrings

namespace ProtocolFuzzer.Utils

open Math Platform

/-- The extra space in the middle. -/
def gap (j : ℕ) : String := if j = 8 then " " else ""

def asciiColumn (byte : UInt8) : String :=
  if isAsciiGraphic byte then String.singleton (Char.ofNat byte.toNat) else "."

/-- The line for a chunk: offset, hex bytes, padding, ASCII representation. -/
def hexLine (i : ℕ) (chunk : List UInt8) : String :=
  formatPadded 16 8 (i * 16) ++ "  " ++
    pushEach (fun (byte, j) => gap j ++ formatPadded 16 2 byte.toNat ++ " ") chunk.zipIdx ++
    pushEach (fun j => gap j ++ "   ") (List.range' chunk.length (16 - chunk.length)) ++
    " |" ++ pushEach asciiColumn chunk ++ "|\n"

/-- The number of bytes shown. -/
def shownBytes (data : List UInt8) (maxBytes : Option ℕ) : ℕ :=
  min (maxBytes.getD data.length) data.length

/-- Hexdump utility for debugging. -/
def hexdump (data : List UInt8) (maxBytes : Option ℕ) : String :=
  let limit := shownBytes data maxBytes
  let lines := pushEach (fun (chunk, i) => hexLine i chunk) (chunks 16 (data.take limit)).zipIdx
  if limit < data.length then
    lines ++ ("... (" ++ toString (data.length - limit) ++ " more bytes)\n")
  else lines

/-! ## Reading a dump -/

/-- Where the hexadecimal column `j` starts. -/
def columnStart (j : ℕ) : ℕ := 10 + 3 * j + if j < 8 then 0 else 1

def readOffset (line : List Char) : Option ℕ := hexNumber 0 (line.take 8)

/-- The bytes in the sixteen columns of a line; an empty column holds none. -/
def readColumns (line : List Char) : List UInt8 :=
  (List.range 16).filterMap fun j =>
    (hexNumber 0 ((line.drop (columnStart j)).take 2)).map UInt8.ofNat

/-- A trailer starts with a dot, and a data line with a digit. -/
def isTrailer (line : List Char) : Bool := line.head? == some '.'

def dataLines (text : String) : List (List Char) := (textLines text).filter (!isTrailer ·)

def trailerLines (text : String) : List (List Char) := (textLines text).filter isTrailer

/-- The cell of column `j`: the byte there or two spaces, and a space. -/
def cell (chunk : List UInt8) (j : ℕ) : List Char :=
  (chunk[j]?.elim "  " fun byte => formatPadded 16 2 byte.toNat).toList ++ [' ']

/-- The characters between the offset and the first bar. -/
def hexColumns (chunk : List UInt8) : List Char :=
  (List.range 8).flatMap (cell chunk) ++ ' ' :: (List.range' 8 8).flatMap (cell chunk)

/-- A line as far as the first bar. -/
def lineFront (i : ℕ) (chunk : List UInt8) : List Char :=
  (formatPadded 16 8 (i * 16)).toList ++ ' ' :: ' ' :: (hexColumns chunk ++ [' '])

/-- A line without its newline. -/
def dumpLine (i : ℕ) (chunk : List UInt8) : List Char :=
  lineFront i chunk ++ '|' :: ((pushEach asciiColumn chunk).toList ++ ['|'])

theorem toList_pushEach {α : Type} (piece : α → String) (xs : List α) :
    (pushEach piece xs).toList = xs.flatMap fun x => (piece x).toList := String.toList_ofList

/-- Both loops together go through the sixteen cells. -/
theorem toList_loops {chunk : List UInt8} (short : chunk.length ≤ 16) :
    (pushEach (fun (byte, j) => gap j ++ formatPadded 16 2 byte.toNat ++ " ")
        chunk.zipIdx).toList ++
      (pushEach (fun j => gap j ++ "   ") (List.range' chunk.length (16 - chunk.length))).toList =
        (List.range 16).flatMap fun j => (gap j).toList ++ cell chunk j := by
  have hbytes : (chunk.zipIdx.flatMap fun (byte, j) =>
      (gap j ++ formatPadded 16 2 byte.toNat ++ " ").toList) =
        (List.range chunk.length).flatMap fun j => (gap j).toList ++ cell chunk j := by
    rw [List.range_eq_range', ← List.zipIdx_map_snd 0 chunk, List.flatMap_map]
    apply List.flatMap_congr
    intro entry hentry
    obtain ⟨byte, j⟩ := entry
    have hbyte : chunk[j]? = some byte := List.mk_mem_zipIdx_iff_getElem?.mp hentry
    dsimp only
    rw [cell, hbyte, String.toList_append, String.toList_append, List.append_assoc]
    rfl
  have hpadding : ((List.range' chunk.length (16 - chunk.length)).flatMap fun j =>
      (gap j ++ "   ").toList) =
        (List.range' chunk.length (16 - chunk.length)).flatMap fun j =>
          (gap j).toList ++ cell chunk j := by
    apply List.flatMap_congr
    intro j hj
    have hnone : chunk[j]? = none := List.getElem?_eq_none (List.mem_range'_1.mp hj).1
    rw [cell, hnone, String.toList_append]
    rfl
  have hrange : List.range 16 =
      List.range chunk.length ++ List.range' chunk.length (16 - chunk.length) := by
    have happend := @List.range'_append_1 0 chunk.length (16 - chunk.length)
    rw [Nat.zero_add, Nat.add_sub_cancel' short] at happend
    rw [List.range_eq_range', List.range_eq_range', happend]
  rw [toList_pushEach, toList_pushEach, hrange, List.flatMap_append, ← hbytes, ← hpadding]

/-- The gap is in front of the ninth cell. -/
theorem flatMap_gap_cell (chunk : List UInt8) :
    ((List.range 16).flatMap fun j => (gap j).toList ++ cell chunk j) = hexColumns chunk := by
  have hgap : ∀ {columns : List ℕ}, 8 ∉ columns →
      (columns.flatMap fun j => (gap j).toList ++ cell chunk j) =
        columns.flatMap (cell chunk) := by
    intro columns outside
    apply List.flatMap_congr
    intro j hj
    have hne : j ≠ 8 := fun h => outside (h ▸ hj)
    rw [gap, if_neg hne]
    rfl
  have hrange : List.range 16 = List.range 8 ++ 8 :: List.range' 9 7 := by decide
  rw [hrange, List.flatMap_append, List.flatMap_cons, hgap (by decide), hgap (by decide),
    hexColumns, show List.range' 8 8 = 8 :: List.range' 9 7 by decide, List.flatMap_cons]
  rfl

theorem toList_hexLine (i : ℕ) {chunk : List UInt8} (short : chunk.length ≤ 16) :
    (hexLine i chunk).toList = dumpLine i chunk ++ ['\n'] := by
  have hloops := toList_loops short
  rw [flatMap_gap_cell] at hloops
  simp only [hexLine, String.toList_append, dumpLine, lineFront, ← hloops, List.append_assoc,
    List.cons_append]
  rfl

theorem length_offset {i : ℕ} (room : i * 16 < 2 ^ 32) :
    (formatPadded 16 8 (i * 16)).toList.length = 8 :=
  length_formatPadded (by decide) (by decide) room

theorem length_hexByte (byte : UInt8) : (formatPadded 16 2 byte.toNat).toList.length = 2 :=
  length_formatPadded (by decide) (by decide) byte.toNat_lt

theorem length_cell (chunk : List UInt8) (j : ℕ) : (cell chunk j).length = 3 := by
  rw [cell, List.length_append, List.length_singleton]
  cases chunk[j]? with
  | none => rfl
  | some byte => exact congrArg (· + 1) (length_hexByte byte)

/-- What is read from a cell is the byte in it. -/
theorem hexNumber_cell (chunk : List UInt8) (j : ℕ) :
    (hexNumber 0 ((cell chunk j).take 2)).map UInt8.ofNat = chunk[j]? := by
  rw [cell]
  cases chunk[j]? with
  | none => rfl
  | some byte =>
      rw [Option.elim_some, List.take_left' (length_hexByte byte), hexNumber_formatPadded,
        Option.map_some, UInt8.ofNat_toNat]

theorem readOffset_dumpLine {i : ℕ} (room : i * 16 < 2 ^ 32) (chunk : List UInt8) :
    readOffset (dumpLine i chunk) = some (i * 16) := by
  rw [readOffset, dumpLine, lineFront, List.append_assoc, List.take_left' (length_offset room),
    hexNumber_formatPadded]

/-- A column of a line starts with its cell. -/
theorem drop_columnStart {i : ℕ} (room : i * 16 < 2 ^ 32) (chunk : List UInt8) {j : ℕ}
    (inside : j < 16) :
    ∃ rest, (dumpLine i chunk).drop (columnStart j) = cell chunk j ++ rest := by
  have hleft : ((List.range 8).flatMap (cell chunk)).length = 24 := by
    simp [List.length_flatMap, length_cell]
  by_cases left : j < 8
  · have hsplit : ∃ rest, dumpLine i chunk = ((formatPadded 16 8 (i * 16)).toList ++ [' ', ' ']) ++
        ((List.range 8).flatMap (cell chunk) ++ rest) := by
      refine ⟨' ' :: (List.range' 8 8).flatMap (cell chunk) ++ [' '] ++
        '|' :: ((pushEach asciiColumn chunk).toList ++ ['|']), ?_⟩
      simp only [dumpLine, lineFront, hexColumns, List.append_assoc, List.cons_append,
        List.nil_append]
    obtain ⟨rest, hrest⟩ := hsplit
    have hstart : columnStart j =
        ((formatPadded 16 8 (i * 16)).toList ++ [' ', ' ']).length + 3 * j := by
      rw [columnStart, if_pos left, List.length_append, length_offset room]
      rfl
    rw [hrest, hstart, List.drop_length_add_append,
      drop_flatMap_append (length_cell chunk) _ _ (by rw [List.length_range]; exact left),
      List.getElem_range]
    exact ⟨_, rfl⟩
  · have hsplit : ∃ rest, dumpLine i chunk = ((formatPadded 16 8 (i * 16)).toList ++ [' ', ' '] ++
        (List.range 8).flatMap (cell chunk) ++ [' ']) ++
          ((List.range' 8 8).flatMap (cell chunk) ++ rest) := by
      refine ⟨[' '] ++ '|' :: ((pushEach asciiColumn chunk).toList ++ ['|']), ?_⟩
      simp only [dumpLine, lineFront, hexColumns, List.append_assoc, List.cons_append,
        List.nil_append]
    obtain ⟨rest, hrest⟩ := hsplit
    have hstart : columnStart j = ((formatPadded 16 8 (i * 16)).toList ++ [' ', ' '] ++
        (List.range 8).flatMap (cell chunk) ++ [' ']).length + 3 * (j - 8) := by
      rw [columnStart, if_neg left, List.length_append, List.length_append, List.length_append,
        length_offset room, hleft, List.length_singleton]
      change _ = 8 + 2 + 24 + 1 + 3 * (j - 8)
      omega
    have hcolumn : j - 8 < (List.range' 8 8).length := by
      rw [List.length_range']
      omega
    rw [hrest, hstart, List.drop_length_add_append,
      drop_flatMap_append (length_cell chunk) _ _ hcolumn, List.getElem_range',
      show 8 + 1 * (j - 8) = j by omega]
    exact ⟨_, rfl⟩

/-- The columns of a line hold its chunk. -/
theorem readColumns_dumpLine {i : ℕ} (room : i * 16 < 2 ^ 32) {chunk : List UInt8}
    (short : chunk.length ≤ 16) : readColumns (dumpLine i chunk) = chunk := by
  have hcolumn : ∀ j ∈ List.range 16,
      (hexNumber 0 (((dumpLine i chunk).drop (columnStart j)).take 2)).map UInt8.ofNat =
        chunk[j]? := by
    intro j hj
    obtain ⟨rest, hrest⟩ := drop_columnStart room chunk (List.mem_range.mp hj)
    rw [hrest, List.take_append_of_le_length (by rw [length_cell]; decide), hexNumber_cell]
  rw [readColumns, List.filterMap_congr hcolumn, filterMap_getElem?_range,
    List.take_of_length_le short]

/-- In front of the bar there are digits and spaces. -/
theorem mem_lineFront {i : ℕ} {chunk : List UInt8} {c : Char} (h : c ∈ lineFront i chunk) :
    c = ' ' ∨ (hexDigit c).isSome := by
  have hformat : ∀ width n, ∀ c ∈ (formatPadded 16 width n).toList, (hexDigit c).isSome :=
    fun width n => isSome_hexDigit_of_hexNumber (hexNumber_formatPadded width n)
  have hcell : ∀ j, ∀ c ∈ cell chunk j, c = ' ' ∨ (hexDigit c).isSome := by
    intro j c hc
    rw [cell, List.mem_append, List.mem_singleton] at hc
    rcases hc with hc | hc
    · cases hbyte : chunk[j]? with
      | none =>
          rw [hbyte] at hc
          have hspaces : c ∈ [' ', ' '] := hc
          exact .inl (by simpa using hspaces)
      | some byte =>
          rw [hbyte] at hc
          exact .inr (hformat 2 byte.toNat c hc)
    · exact .inl hc
  rw [lineFront, hexColumns] at h
  simp only [List.mem_append, List.mem_cons, List.mem_flatMap, List.not_mem_nil, or_false] at h
  rcases h with h | h | h | ⟨⟨j, -, h⟩ | h | ⟨j, -, h⟩⟩ | h
  · exact .inr (hformat 8 (i * 16) c h)
  · exact .inl h
  · exact .inl h
  · exact hcell j c h
  · exact .inl h
  · exact hcell j c h
  · exact .inl h

theorem length_lineFront {i : ℕ} (room : i * 16 < 2 ^ 32) (chunk : List UInt8) :
    (lineFront i chunk).length = 60 := by
  simp [lineFront, hexColumns, length_offset room, List.length_flatMap, length_cell]

theorem idxOf_bar_dumpLine {i : ℕ} (room : i * 16 < 2 ^ 32) (chunk : List UInt8) :
    (dumpLine i chunk).idxOf '|' = 60 := by
  have hfront : '|' ∉ lineFront i chunk := by
    intro h
    exact absurd (mem_lineFront h) (by decide)
  rw [dumpLine, List.idxOf_append_of_notMem hfront, List.idxOf_cons_self, length_lineFront room,
    Nat.add_zero]

/-- From the bar on a line shows the characters of its bytes, up to the closing bar. -/
theorem drop_bar_dumpLine {i : ℕ} (room : i * 16 < 2 ^ 32) (chunk : List UInt8) :
    (dumpLine i chunk).drop 60 = '|' :: ((pushEach asciiColumn chunk).toList ++ ['|']) := by
  rw [dumpLine, List.drop_left' (length_lineFront room chunk)]

theorem newline_not_mem_dumpLine (i : ℕ) (chunk : List UInt8) : '\n' ∉ dumpLine i chunk := by
  have hascii : ∀ byte : UInt8, '\n' ∉ (asciiColumn byte).toList := forall_byte (by decide +kernel)
  have hfront : '\n' ∉ lineFront i chunk := by
    intro h
    exact absurd (mem_lineFront h) (by decide)
  simp [dumpLine, toList_pushEach, hfront, hascii]

theorem isTrailer_dumpLine (i : ℕ) (chunk : List UInt8) : isTrailer (dumpLine i chunk) = false := by
  have hfirst : ∀ c rest, dumpLine i chunk = c :: rest → c ≠ '.' := by
    intro c rest hline
    cases hfront : lineFront i chunk with
    | nil => simp [lineFront] at hfront
    | cons first tail =>
        rw [dumpLine, hfront, List.cons_append, List.cons.injEq] at hline
        have hmem : c ∈ lineFront i chunk := by
          rw [hfront, hline.1]
          exact List.mem_cons_self
        intro hdot
        subst hdot
        exact absurd (mem_lineFront hmem) (by decide)
  cases hline : dumpLine i chunk with
  | nil => rfl
  | cons c rest => simpa [isTrailer] using hfirst c rest hline

/-- The line about the bytes that are not shown. -/
def trailerLine (omitted : ℕ) : List Char :=
  ("... (" ++ toString omitted ++ " more bytes)").toList

theorem newline_not_mem_trailerLine (omitted : ℕ) : '\n' ∉ trailerLine omitted := by
  have hdigits : '\n' ∉ (toString omitted).toList := by
    intro h
    rw [Nat.toString_eq_ofList_toDigits, String.toList_ofList] at h
    exact absurd (Nat.isDigit_of_mem_toDigits (by decide) (by decide) h) (by decide)
  rw [trailerLine, String.toList_append, String.toList_append, List.mem_append, List.mem_append]
  exact not_or.mpr ⟨not_or.mpr ⟨by decide, hdigits⟩, by decide⟩

/-- The data lines of a dump, with their numbers. -/
def dumpLines (shown : List UInt8) : List (List Char) :=
  (chunks 16 shown).zipIdx.map fun entry => dumpLine entry.2 entry.1

theorem textLines_hexdump (data : List UInt8) (maxBytes : Option ℕ) :
    textLines (hexdump data maxBytes) = dumpLines (data.take (shownBytes data maxBytes)) ++
      if shownBytes data maxBytes < data.length
      then [trailerLine (data.length - shownBytes data maxBytes)] else [] := by
  have hlines : ∀ shown : List UInt8,
      (pushEach (fun entry => hexLine entry.2 entry.1) (chunks 16 shown).zipIdx).toList =
        (dumpLines shown).flatMap (· ++ ['\n']) := by
    intro shown
    rw [toList_pushEach, dumpLines, List.flatMap_map]
    apply List.flatMap_congr
    intro entry hentry
    exact toList_hexLine entry.2
      (length_le_of_mem_chunks (List.fst_mem_of_mem_zipIdx hentry))
  have honeLine : ∀ shown : List UInt8, ∀ line ∈ dumpLines shown, '\n' ∉ line := by
    intro shown line hline
    obtain ⟨entry, -, rfl⟩ := List.mem_map.mp hline
    exact newline_not_mem_dumpLine entry.2 entry.1
  rw [hexdump]
  dsimp only
  split_ifs with omitted
  · apply textLines_of_toList
    · rw [String.toList_append, hlines, List.flatMap_append, List.flatMap_singleton, trailerLine]
      simp only [String.toList_append, List.append_assoc]
      rfl
    · rw [List.forall_mem_append, List.forall_mem_singleton]
      exact ⟨honeLine _, newline_not_mem_trailerLine _⟩
  · rw [List.append_nil]
    exact textLines_of_toList (hlines _) (honeLine _)

theorem isTrailer_trailerLine (omitted : ℕ) : isTrailer (trailerLine omitted) = true := by
  rw [isTrailer, trailerLine, String.toList_append, String.toList_append]
  rfl

theorem dataLines_hexdump (data : List UInt8) (maxBytes : Option ℕ) :
    dataLines (hexdump data maxBytes) = dumpLines (data.take (shownBytes data maxBytes)) := by
  have hdata : ∀ line ∈ dumpLines (data.take (shownBytes data maxBytes)), !isTrailer line := by
    intro line hline
    obtain ⟨entry, -, rfl⟩ := List.mem_map.mp hline
    rw [isTrailer_dumpLine]
    rfl
  rw [dataLines, textLines_hexdump, List.filter_append, List.filter_eq_self.mpr hdata]
  split_ifs
  · rw [List.filter_singleton, isTrailer_trailerLine]
    exact List.append_nil _
  · exact List.append_nil _

theorem trailerLines_hexdump (data : List UInt8) (maxBytes : Option ℕ) :
    trailerLines (hexdump data maxBytes) = if shownBytes data maxBytes < data.length
      then [trailerLine (data.length - shownBytes data maxBytes)] else [] := by
  have hdata : ∀ line ∈ dumpLines (data.take (shownBytes data maxBytes)), ¬ isTrailer line := by
    intro line hline
    obtain ⟨entry, -, rfl⟩ := List.mem_map.mp hline
    rw [isTrailer_dumpLine]
    exact Bool.false_ne_true
  rw [trailerLines, textLines_hexdump, List.filter_append, List.filter_eq_nil_iff.mpr hdata]
  split_ifs
  · rw [List.filter_singleton, isTrailer_trailerLine]
    rfl
  · rfl

section Shown

variable {shown : List UInt8}

/-- The offsets have room for their digits. -/
theorem offset_room (fits : shown.length ≤ 2 ^ 32) {entry : List UInt8 × ℕ}
    (h : entry ∈ (chunks 16 shown).zipIdx) : entry.2 * 16 < 2 ^ 32 := by
  have hlt := List.snd_lt_of_mem_zipIdx h
  rw [chunks, List.length_map, List.length_range] at hlt
  omega

/-- Every line has its first bar, its text and its closing bar where they belong. -/
theorem dumpLines_aligned (fits : shown.length ≤ 2 ^ 32) :
    ∀ row ∈ dumpLines shown, row.idxOf '|' = 60 ∧ row[60]? = some '|' ∧
      row.drop 61 = (pushEach asciiColumn (readColumns row)).toList ++ ['|'] := by
  intro row hrow
  obtain ⟨entry, hentry, rfl⟩ := List.mem_map.mp hrow
  have room := offset_room fits hentry
  have hbar := drop_bar_dumpLine room entry.1
  refine ⟨idxOf_bar_dumpLine room entry.1, ?_, ?_⟩
  · have hfirst := congrArg (fun text : List Char => text[0]?) hbar
    rwa [List.getElem?_drop] at hfirst
  · have hrest := congrArg List.tail hbar
    rw [List.tail_drop] at hrest
    rw [hrest, readColumns_dumpLine room
      (length_le_of_mem_chunks (List.fst_mem_of_mem_zipIdx hentry)), List.tail_cons]

theorem map_readOffset_dumpLines (fits : shown.length ≤ 2 ^ 32) :
    (dumpLines shown).map readOffset =
      (List.range (dumpLines shown).length).map fun k => some (k * 16) := by
  have hnumbers : (chunks 16 shown).zipIdx.map Prod.snd =
      List.range (dumpLines shown).length := by
    rw [List.zipIdx_map_snd, dumpLines, List.length_map, List.length_zipIdx,
      List.range_eq_range']
  rw [← hnumbers, List.map_map, dumpLines, List.map_map]
  apply List.map_congr_left
  intro entry hentry
  rw [Function.comp_apply, Function.comp_apply,
    readOffset_dumpLine (offset_room fits hentry) entry.1]

theorem flatMap_readColumns_dumpLines (fits : shown.length ≤ 2 ^ 32) :
    (dumpLines shown).flatMap readColumns = shown := by
  have hcolumns : ∀ entry ∈ (chunks 16 shown).zipIdx,
      readColumns (dumpLine entry.2 entry.1) = entry.1 := fun entry hentry =>
    readColumns_dumpLine (offset_room fits hentry)
      (length_le_of_mem_chunks (List.fst_mem_of_mem_zipIdx hentry))
  rw [dumpLines, List.flatMap_map, List.flatMap_congr hcolumns, List.flatMap_def,
    List.zipIdx_map_fst, flatten_chunks (by decide)]

end Shown

/-- A dump of at most 2^32 bytes is aligned, numbered in steps of sixteen and lossless on the
shown part, and it ends with a line about the bytes that are not shown exactly when there
are any. On every data line the first bar is at offset sixty, and behind it are the characters
of the bytes in its columns and the closing bar. -/
theorem hexdump_aligned_lossless {data : List UInt8} (fits : data.length ≤ 2 ^ 32)
    (maxBytes : Option ℕ) :
    textLines (hexdump data maxBytes) =
      dataLines (hexdump data maxBytes) ++ trailerLines (hexdump data maxBytes) ∧
    (∀ row ∈ dataLines (hexdump data maxBytes), row.idxOf '|' = 60 ∧ row[60]? = some '|' ∧
      row.drop 61 = (pushEach asciiColumn (readColumns row)).toList ++ ['|']) ∧
    (dataLines (hexdump data maxBytes)).map readOffset =
      (List.range (dataLines (hexdump data maxBytes)).length).map (fun k => some (k * 16)) ∧
    (dataLines (hexdump data maxBytes)).flatMap readColumns =
      data.take (min (maxBytes.getD data.length) data.length) ∧
    trailerLines (hexdump data maxBytes) =
      if min (maxBytes.getD data.length) data.length < data.length then
        [("... (" ++ toString (data.length - min (maxBytes.getD data.length) data.length) ++
          " more bytes)").toList]
      else [] := by
  have hshown : (data.take (shownBytes data maxBytes)).length ≤ 2 ^ 32 :=
    (List.length_take_le' _ _).trans fits
  rw [dataLines_hexdump]
  refine ⟨?_, dumpLines_aligned hshown, map_readOffset_dumpLines hshown,
    flatMap_readColumns_dumpLines hshown, trailerLines_hexdump data maxBytes⟩
  rw [trailerLines_hexdump, textLines_hexdump]

/-- Twenty bytes, of which seventeen are shown. -/
theorem hexdump_aligned_lossless_twenty :
    let data : List UInt8 := List.replicate 17 0x41 ++ [0x0a, 0x7c, 0xff]
    dataLines (hexdump data (some 17)) =
      ["00000000  41 41 41 41 41 41 41 41  41 41 41 41 41 41 41 41  |AAAAAAAAAAAAAAAA|",
        "00000010  41                                                |A|"].map String.toList ∧
    textLines (hexdump data (some 17)) =
      dataLines (hexdump data (some 17)) ++ trailerLines (hexdump data (some 17)) ∧
    (∀ row ∈ dataLines (hexdump data (some 17)), row.idxOf '|' = 60 ∧ row[60]? = some '|' ∧
      row.drop 61 = (pushEach asciiColumn (readColumns row)).toList ++ ['|']) ∧
    (dataLines (hexdump data (some 17))).map readOffset =
      (List.range (dataLines (hexdump data (some 17))).length).map (fun k => some (k * 16)) ∧
    (dataLines (hexdump data (some 17))).flatMap readColumns =
      data.take (min ((some 17).getD data.length) data.length) ∧
    trailerLines (hexdump data (some 17)) =
      if min ((some 17).getD data.length) data.length < data.length then
        [("... (" ++ toString (data.length - min ((some 17).getD data.length) data.length) ++
          " more bytes)").toList]
      else [] :=
  ⟨by rw [dataLines_hexdump]; decide +kernel, hexdump_aligned_lossless (by decide) (some 17)⟩

end ProtocolFuzzer.Utils
