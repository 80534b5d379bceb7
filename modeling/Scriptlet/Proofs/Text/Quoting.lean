import Mathlib.Algebra.Group.Nat.Defs
import Mathlib.Data.List.Basic
import Scriptlet.Text.Quoted

/-!
# A quoted text tells the text

Whatever characters count as hidden, the escape of a character can be taken off the front of a text
again (`readEscaped`). The delimiter is the first character of the quoted form, and no escape begins
with it, so the closing one is found as well. The quoted form is therefore injective
(`quotedBy_injective`), and it has no line break in it (`notMem_quotedBy`).
-/

namespace Scriptlet.Text

section Digits

/-- The number of a hexadecimal digit. -/
def digitValue (digit : Char) : Nat :=
  if digit.toNat < 'a'.toNat then digit.toNat - '0'.toNat else digit.toNat - 'a'.toNat + 10

/-- The number that hexadecimal digits are behind the digits of another one. -/
def readDigits (value : Nat) (digits : List Char) : Nat :=
  digits.foldl (fun value digit => 16 * value + digitValue digit) value

/-- Hexadecimal digits are read back. -/
theorem digitValue_digitChar : ∀ digit < 16, digitValue digit.digitChar = digit := by
  decide

/-- Hexadecimal numerals are read back. -/
theorem readDigits_toDigits (value : Nat) : readDigits 0 (Nat.toDigits 16 value) = value := by
  induction value using Nat.strongRecOn with
  | ind value ih =>
      rw [Nat.toDigits_eq_if (by omega)]
      split
      · next hless =>
          show 16 * 0 + digitValue value.digitChar = value
          rw [digitValue_digitChar value hless]
          omega
      · have hdigit := digitValue_digitChar (value % 16) (by omega)
        have hfront := ih (value / 16) (by omega)
        rw [readDigits] at hfront
        rw [readDigits, List.foldl_append, hfront]
        show 16 * (value / 16) + digitValue (value % 16).digitChar = value
        omega

/-- Zeros in front do not count. -/
theorem readDigits_hexadecimal (width value : Nat) :
    readDigits 0 (hexadecimal width value) = value := by
  have hzeros : ∀ count, readDigits 0 (List.replicate count '0') = 0 := by
    intro count
    induction count with
    | zero => rfl
    | succ count ih => exact ih
  have hdigits := readDigits_toDigits value
  rw [readDigits] at hdigits
  rw [hexadecimal, readDigits, List.foldl_append]
  show readDigits (readDigits 0 (List.replicate _ '0')) (Nat.toDigits 16 value) = value
  rw [hzeros, readDigits, hdigits]

/-- Numerals are filled up to their width. -/
theorem length_hexadecimal {width value : Nat} (hwidth : 0 < width) (h : value < 16 ^ width) :
    (hexadecimal width value).length = width := by
  have hlength := (Nat.length_toDigits_le_iff (by omega) hwidth).2 h
  rw [hexadecimal, List.length_append, List.length_replicate]
  omega

/-- A numeral consists of digits. -/
theorem exists_digitChar_of_mem_toDigits {value : Nat} {char : Char}
    (h : char ∈ Nat.toDigits 16 value) : ∃ digit : Nat, char = digit.digitChar := by
  induction value using Nat.strongRecOn with
  | ind value ih =>
      rw [Nat.toDigits_eq_if (by omega)] at h
      split at h
      · exact ⟨value, List.mem_singleton.1 h⟩
      · rcases List.mem_append.1 h with hfront | hlast
        · exact ih (value / 16) (by omega) hfront
        · exact ⟨value % 16, List.mem_singleton.1 hlast⟩

theorem exists_digitChar_of_mem_hexadecimal {width value : Nat} {char : Char}
    (h : char ∈ hexadecimal width value) : ∃ digit : Nat, char = digit.digitChar := by
  rcases List.mem_append.1 h with hzero | hdigit
  · exact ⟨0, List.eq_of_mem_replicate hzero⟩
  · exact exists_digitChar_of_mem_toDigits hdigit

end Digits

section Escapes

/-- The number of digits behind the mark of a numeric escape. -/
def escapeWidth? : Char → Option Nat
  | 'x' => some 2
  | 'u' => some 4
  | 'U' => some 8
  | _ => none

/-- What an escape that is no number stands for, by the character behind the backslash. -/
def namedEscape : Char → Char
  | 'n' => '\n'
  | 'r' => '\r'
  | 't' => '\t'
  | char => char

/-- Take a character off the front of an escaped text: the character, and what stands behind it. -/
def readEscaped : List Char → Option (Char × List Char)
  | '\\' :: mark :: rest =>
      match escapeWidth? mark with
      | some width => some (Char.ofNat (readDigits 0 (rest.take width)), rest.drop width)
      | none => some (namedEscape mark, rest)
  | char :: rest => some (char, rest)
  | [] => none

/-- The two characters that delimit quoted texts. -/
def IsDelimiter (quote : Char) : Prop :=
  quote = '\'' ∨ quote = '"'

/-- A text is quoted by one of the two delimiters. -/
theorem isDelimiter_delimiter (chars : List Char) : IsDelimiter (delimiter chars) := by
  unfold delimiter
  split
  · exact .inr rfl
  · exact .inl rfl

/-- No delimiter breaks a line. -/
theorem IsDelimiter.ne {quote stop : Char} (h : IsDelimiter quote)
    (hstop : stop = '\n' ∨ stop = '\r') : stop ≠ quote := by
  rcases h with rfl | rfl
  · rcases hstop with rfl | rfl <;> decide
  · rcases hstop with rfl | rfl <;> decide

variable {hidden : Char → Bool} {quote char : Char}

/-- An escape by number is read back. -/
theorem readEscaped_number {mark : Char} {width : Nat} (rest : List Char) (hwidth : 0 < width)
    (hmark : escapeWidth? mark = some width) (h : char.toNat < 16 ^ width) :
    readEscaped ('\\' :: mark :: (hexadecimal width char.toNat ++ rest)) = some (char, rest) := by
  have hlength := length_hexadecimal hwidth h
  simp only [readEscaped, hmark, List.take_left' hlength, List.drop_left' hlength,
    readDigits_hexadecimal, Char.ofNat_toNat]

/-- The shortest escape by number that is wide enough is read back. -/
theorem readEscaped_numericEscape (char : Char) (rest : List Char) :
    readEscaped (numericEscape char ++ rest) = some (char, rest) := by
  have hpoint : char.toNat < 2 ^ 32 := char.val.toNat_lt
  unfold numericEscape
  split
  · exact readEscaped_number rest (by omega) rfl ‹_›
  · split
    · exact readEscaped_number rest (by omega) rfl ‹_›
    · exact readEscaped_number rest (by omega) rfl (by omega)

/-- A character that is no backslash stands for itself. -/
theorem readEscaped_of_ne (h : char ≠ '\\') (rest : List Char) :
    readEscaped (char :: rest) = some (char, rest) := by
  unfold readEscaped
  split
  · next heq => exact absurd (List.cons.inj heq).1 h
  · next heq =>
      cases heq
      rfl
  · next heq => cases heq

/-- The escape of a character is read back, whatever stands behind it. -/
theorem readEscaped_escapeChar (hquote : IsDelimiter quote) (char : Char) (rest : List Char) :
    readEscaped (escapeChar hidden quote char ++ rest) = some (char, rest) := by
  unfold escapeChar
  split
  · next hescaped =>
      simp only [Bool.or_eq_true, decide_eq_true_eq] at hescaped
      rcases hescaped with rfl | rfl
      · rfl
      · rcases hquote with rfl | rfl
        · rfl
        · rfl
  · next hplain =>
      simp only [Bool.or_eq_true, decide_eq_true_eq, not_or] at hplain
      split
      · next hchar => rw [hchar]; rfl
      · split
        · next hchar => rw [hchar]; rfl
        · split
          · next hchar => rw [hchar]; rfl
          · split
            · exact readEscaped_numericEscape char rest
            · exact readEscaped_of_ne hplain.1 rest

/-- No escape begins with the delimiter. -/
theorem escapeChar_eq_cons (hidden : Char → Bool) (hquote : IsDelimiter quote) (char : Char) :
    ∃ first rest, escapeChar hidden quote char = first :: rest ∧ first ≠ quote := by
  have hslash : '\\' ≠ quote := by
    rcases hquote with rfl | rfl
    · decide
    · decide
  unfold escapeChar numericEscape
  split
  · exact ⟨_, _, rfl, hslash⟩
  · next hplain =>
      simp only [Bool.or_eq_true, decide_eq_true_eq, not_or] at hplain
      repeat' split
      all_goals first
        | exact ⟨_, _, rfl, hslash⟩
        | exact ⟨_, _, rfl, hplain.2⟩

/-- Escaped texts that are closed by the delimiter come off the front of a text in one way. -/
theorem escaped_append_inj (hquote : IsDelimiter quote) {first second rest other : List Char}
    (h : first.flatMap (escapeChar hidden quote) ++ quote :: rest =
      second.flatMap (escapeChar hidden quote) ++ quote :: other) :
    first = second ∧ rest = other := by
  have hends : ∀ {char : Char} {chars more behind : List Char},
      (char :: chars).flatMap (escapeChar hidden quote) ++ more ≠ quote :: behind := by
    intro char chars more behind heq
    obtain ⟨head, tail, hescape, hne⟩ := escapeChar_eq_cons hidden hquote char
    rw [List.flatMap_cons, hescape] at heq
    exact hne (List.cons.inj heq).1
  induction first generalizing second with
  | nil =>
      cases second with
      | nil => exact ⟨rfl, (List.cons.inj h).2⟩
      | cons char second => exact absurd h.symm hends
  | cons char first ih =>
      cases second with
      | nil => exact absurd h hends
      | cons next second =>
          simp only [List.flatMap_cons, List.append_assoc] at h
          have hread := congrArg readEscaped h
          rw [readEscaped_escapeChar hquote, readEscaped_escapeChar hquote] at hread
          obtain ⟨hchar, hbehind⟩ := Prod.mk.inj (Option.some.inj hread)
          obtain ⟨hfirst, hrest⟩ := ih hbehind
          rw [hchar, hfirst]
          exact ⟨rfl, hrest⟩

/-- A line break is no mark of an escape and no digit, and it is not left as it is. -/
theorem notMem_escapeChar {stop : Char} (hstop : stop = '\n' ∨ stop = '\r')
    (hquote : IsDelimiter quote) (char : Char) : stop ∉ escapeChar hidden quote char := by
  have hdigits : ∀ width, stop ∉ hexadecimal width char.toNat := by
    intro width hmem
    obtain ⟨digit, hdigit⟩ := exists_digitChar_of_mem_hexadecimal hmem
    refine Nat.digitChar_ne stop ?_ hdigit.symm
    rcases hstop with rfl | rfl
    · decide
    · decide
  have hmarks : stop ∉ ['\\', 'n', 'r', 't', 'x', 'u', 'U'] := by
    rcases hstop with rfl | rfl
    · decide
    · decide
  have hdelimiter := hquote.ne hstop
  simp only [List.mem_cons, List.not_mem_nil, or_false, not_or] at hmarks
  unfold escapeChar numericEscape
  repeat' split
  all_goals simp only [List.mem_cons, List.not_mem_nil, or_false, not_or]
  all_goals grind

variable (hidden)

/-- Quoting loses nothing. -/
theorem quoteChars_injective : Function.Injective (quoteChars hidden) := by
  intro first second h
  obtain ⟨hquote, hrest⟩ := List.cons.inj h
  rw [← hquote] at hrest
  exact (escaped_append_inj (isDelimiter_delimiter first) hrest).1

/-- A text has a quoted form of its own. -/
theorem quotedBy_injective : Function.Injective (quotedBy hidden) := by
  intro first second h
  exact String.toList_injective (quoteChars_injective hidden (String.ofList_injective h))

/-- A quoted text stands on one line. -/
theorem notMem_quotedBy {stop : Char} (hstop : stop = '\n' ∨ stop = '\r') (text : String) :
    stop ∉ (quotedBy hidden text).toList := by
  have hquote := isDelimiter_delimiter text.toList
  have hne := hquote.ne hstop
  rw [quotedBy, String.toList_ofList]
  simp only [quoteChars, List.mem_cons, List.mem_append, List.mem_flatMap, List.not_mem_nil,
    or_false, not_or]
  refine ⟨hne, ?_, hne⟩
  rintro ⟨char, -, hmem⟩
  exact notMem_escapeChar hstop hquote char hmem

-- What looks like an escape is not taken for one, and the text chooses the quotation mark.
example : (["\n", "\\n", "it's", "\"it's\""].map quoted) =
    ["'\\n'", "'\\\\n'", "\"it's\"", "'\"it\\'s\"'"] := by
  decide +kernel

end Escapes

end Scriptlet.Text
