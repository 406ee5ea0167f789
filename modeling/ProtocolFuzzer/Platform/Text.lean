/-
# Texts

What the tool does with texts: it searches messages for ASCII words regardless of
case, it formats numbers with a fixed base and width, and it writes lines. A number in
hexadecimal digits can be read back, and so can the lines of a text.
-/

import Mathlib.Data.List.Infix
import Mathlib.Data.Nat.Digits.Defs

namespace ProtocolFuzzer.Platform

/-- The lowercase form of a character, as far as a search for ASCII words can see it.
Two characters outside ASCII have ASCII letters in their lowercase form; no other
character outside ASCII does, so the rest are kept. -/
def lowercaseChar (c : Char) : List Char :=
  if c = '\u0130' then ['i', '\u0307'] else if c = '\u212a' then ['k'] else [c.toLower]

/-- `text.to_lowercase()` before a search for ASCII words. -/
def toLowercase (text : String) : String := String.ofList (text.toList.flatMap lowercaseChar)

/-- `text.contains(pattern)` -/
def contains (text pattern : String) : Bool :=
  text.toList.tails.any fun rest => pattern.toList.isPrefixOf rest

/-- A number in the given base, with zeros in front up to the given width. -/
def formatPadded (base width n : ℕ) : String :=
  String.ofList ((Nat.toDigits base n).leftpad width '0')

/-- The pieces pushed to a string one after the other. -/
def pushEach {α : Type} (piece : α → String) (xs : List α) : String :=
  String.ofList (xs.flatMap fun x => (piece x).toList)

theorem toLowercase_append (text text' : String) :
    toLowercase (text ++ text') = toLowercase text ++ toLowercase text' := by
  rw [toLowercase, String.toList_append, List.flatMap_append, String.ofList_append]
  rfl

/-- No occurrence starts in a text without the first character of the pattern. -/
theorem contains_append {before : String} {first : Char} (rest : List Char)
    (h : first ∉ before.toList) (text : String) :
    contains (before ++ text) (String.ofList (first :: rest)) =
      contains text (String.ofList (first :: rest)) := by
  rw [contains, contains, String.toList_append, String.toList_ofList]
  generalize before.toList = chars at h ⊢
  induction chars with
  | nil => rfl
  | cons c chars ih =>
      obtain ⟨hc, hchars⟩ : first ≠ c ∧ first ∉ chars := by simpa using h
      rw [List.cons_append, List.tails, List.any_cons, ih hchars, List.isPrefixOf,
        beq_false_of_ne hc, Bool.false_and, Bool.false_or]

theorem contains_iff {text pattern : String} :
    contains text pattern = true ↔ pattern.toList <:+: text.toList := by
  rw [contains, List.any_eq_true, List.infix_iff_prefix_suffix]
  constructor
  · rintro ⟨rest, hrest, hprefix⟩
    exact ⟨rest, List.isPrefixOf_iff_prefix.mp hprefix, (List.mem_tails _ _).mp hrest⟩
  · rintro ⟨rest, hprefix, hrest⟩
    exact ⟨rest, (List.mem_tails _ _).mpr hrest, List.isPrefixOf_iff_prefix.mpr hprefix⟩

/-- A longer text contains what its beginning contains. -/
theorem contains_append_of_contains {before pattern : String} (h : contains before pattern = true)
    (text : String) : contains (before ++ text) pattern = true := by
  rw [contains_iff] at h ⊢
  rw [String.toList_append]
  exact h.trans (List.prefix_append _ _).isInfix

/-- The value of a hexadecimal digit. -/
def hexDigit (c : Char) : Option ℕ :=
  if '0' ≤ c ∧ c ≤ '9' then some (c.toNat - 48)
  else if 'a' ≤ c ∧ c ≤ 'f' then some (c.toNat - 87)
  else none

/-- The number that hexadecimal digits stand for, behind a number already read. -/
def hexNumber : ℕ → List Char → Option ℕ
  | n, [] => some n
  | n, c :: cs => (hexDigit c).bind fun digit => hexNumber (16 * n + digit) cs

theorem hexNumber_append (n : ℕ) (first second : List Char) :
    hexNumber n (first ++ second) = (hexNumber n first).bind fun n => hexNumber n second := by
  induction first generalizing n with
  | nil => rfl
  | cons c first ih =>
      rw [List.cons_append, hexNumber, hexNumber, Option.bind_assoc]
      simp only [ih]

theorem hexNumber_digitChar {digit : ℕ} (h : digit < 16) (n : ℕ) :
    hexNumber n [digit.digitChar] = some (16 * n + digit) := by
  have hdigit : ∀ d : Fin 16, hexDigit (d : ℕ).digitChar = some d := by decide
  rw [hexNumber, hdigit ⟨digit, h⟩]
  rfl

theorem hexNumber_toDigits (n : ℕ) : hexNumber 0 (Nat.toDigits 16 n) = some n := by
  induction n using Nat.strong_induction_on with
  | _ n ih =>
      by_cases small : n < 16
      · rw [Nat.toDigits_of_lt_base small, hexNumber_digitChar small, Nat.mul_zero, Nat.zero_add]
      · have hdiv : n / 16 < n := Nat.div_lt_self (by omega) (by decide)
        rw [Nat.toDigits_of_base_le (by decide) (Nat.not_lt.mp small), hexNumber_append, ih _ hdiv,
          Option.bind_some, hexNumber_digitChar (Nat.mod_lt n (by decide)), Nat.div_add_mod]

theorem hexNumber_zeros (count : ℕ) (cs : List Char) :
    hexNumber 0 (List.replicate count '0' ++ cs) = hexNumber 0 cs := by
  induction count with
  | zero => rfl
  | succ count ih => exact ih

/-- A formatted number is read back. -/
theorem hexNumber_formatPadded (width n : ℕ) :
    hexNumber 0 (formatPadded 16 width n).toList = some n := by
  rw [formatPadded, String.toList_ofList, List.leftpad, hexNumber_zeros, hexNumber_toDigits]

/-- What is read as a number consists of digits. -/
theorem isSome_hexDigit_of_hexNumber {n value : ℕ} {cs : List Char}
    (h : hexNumber n cs = some value) : ∀ c ∈ cs, (hexDigit c).isSome := by
  induction cs generalizing n with
  | nil => simp
  | cons c cs ih =>
      obtain ⟨digit, hdigit, hrest⟩ := Option.bind_eq_some_iff.mp h
      rw [List.forall_mem_cons]
      exact ⟨hdigit ▸ rfl, ih hrest⟩

/-- A number that has room for its digits has the requested width. -/
theorem length_formatPadded {base width n : ℕ} (hbase : 1 < base) (hwidth : 0 < width)
    (room : n < base ^ width) : (formatPadded base width n).toList.length = width := by
  rw [formatPadded, String.toList_ofList, List.length_leftpad]
  exact max_eq_left ((Nat.length_toDigits_le_iff hbase hwidth).mpr room)

/-- The lines of a text, each of which a newline ends. -/
def textLines (text : String) : List (List Char) := (text.toList.splitOn '\n').dropLast

theorem textLines_of_toList {text : String} {lines : List (List Char)}
    (h : text.toList = lines.flatMap (· ++ ['\n'])) (oneLine : ∀ line ∈ lines, '\n' ∉ line) :
    textLines text = lines := by
  have hsplit : (lines.flatMap (· ++ ['\n'])).splitOn '\n' = lines ++ [[]] := by
    clear h
    induction lines with
    | nil => rfl
    | cons line lines ih =>
        rw [List.forall_mem_cons] at oneLine
        rw [List.flatMap_cons, List.append_assoc, List.singleton_append,
          List.splitOn_append_cons_self_of_not_mem oneLine.1, ih oneLine.2, List.cons_append]
  rw [textLines, h, hsplit, List.dropLast_concat]

example : contains (toLowercase "Connection REFUSED by peer") "connection refused" = true := by
  decide +kernel

example : formatPadded 16 4 0x0a1 = "00a1" := by decide +kernel

end ProtocolFuzzer.Platform
