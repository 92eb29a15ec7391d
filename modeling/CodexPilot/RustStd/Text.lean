import Mathlib.Data.List.DropRight
import Mathlib.Data.List.Infix

/-!
# Text in the manner of `str`

Texts are lists of Unicode scalar values.  The operations follow the documented behaviour of the
Rust standard library: `trim` removes the Unicode `White_Space` characters, `lines` drops one
carriage return before each line feed, and `join` puts a separator between consecutive pieces.
The two central results compute `lines` and `trim` of a joined list of lines.
-/

namespace RustStd

/-- A string, as the sequence of its characters. -/
abbrev Text := List Char

namespace Text

/-- The Unicode property `White_Space`, which is what `char::is_whitespace` tests. -/
def isWhitespace (c : Char) : Bool :=
  (0x09 ≤ c.toNat && c.toNat ≤ 0x0D) || c.toNat == 0x20 || c.toNat == 0x85 ||
    c.toNat == 0xA0 || c.toNat == 0x1680 || (0x2000 ≤ c.toNat && c.toNat ≤ 0x200A) ||
    c.toNat == 0x2028 || c.toNat == 0x2029 || c.toNat == 0x202F || c.toNat == 0x205F ||
    c.toNat == 0x3000

/-- `str::trim_start`. -/
def trimStart (text : Text) : Text := text.dropWhile isWhitespace

/-- `str::trim_end`. -/
def trimEnd (text : Text) : Text := text.rdropWhile isWhitespace

/-- `str::trim`. -/
def trim (text : Text) : Text := trimEnd (trimStart text)

/-- `str::strip_prefix`. -/
def stripPrefix (text marker : Text) : Option Text := marker.isPrefixOf? text

/-- `str::starts_with`. -/
def startsWith (text marker : Text) : Bool := marker.isPrefixOf text

/-- `str::ends_with`. -/
def endsWith (text marker : Text) : Bool := marker.isSuffixOf text

/-- `[&str]::join`. -/
def join (separator : Text) (pieces : List Text) : Text := separator.intercalate pieces

/-- `str::to_ascii_lowercase`. -/
def toAsciiLowercase (text : Text) : Text := text.map Char.toLower

theorem isAlpha_iff_toNat {c : Char} : c.isAlpha = true ↔
    (65 ≤ c.toNat ∧ c.toNat ≤ 90) ∨ (97 ≤ c.toNat ∧ c.toNat ≤ 122) := by
  delta Char.isAlpha Char.isUpper Char.isLower
  simp only [Bool.or_eq_true, Bool.and_eq_true, decide_eq_true_eq, ge_iff_le,
    UInt32.le_iff_toNat_le, Char.toNat_val]
  rfl

/-- A letter in upper case moves into the range of the lower case. -/
theorem toNat_toLower (c : Char) : c.toLower.toNat =
    if 65 ≤ c.toNat ∧ c.toNat ≤ 90 then c.toNat + 32 else c.toNat := by
  have range : (c.val ≥ 'A'.val ∧ c.val ≤ 'Z'.val) ↔ (65 ≤ c.toNat ∧ c.toNat ≤ 90) := by
    simp only [ge_iff_le, UInt32.le_iff_toNat_le, Char.toNat_val]
    rfl
  delta Char.toLower
  by_cases upper : 65 ≤ c.toNat ∧ c.toNat ≤ 90
  · rw [dif_pos (range.mpr upper), if_pos upper]
    change (c.val + 32).toNat = c.toNat + 32
    have small : c.toNat + 32 < 2 ^ 32 := by omega
    rw [UInt32.toNat_add, Char.toNat_val]
    exact Nat.mod_eq_of_lt small
  · rw [dif_neg (mt range.mp upper), if_neg upper]

theorem toLower_toLower (c : Char) : c.toLower.toLower = c.toLower := by
  have lowered : ¬(65 ≤ c.toLower.toNat ∧ c.toLower.toNat ≤ 90) := by
    rw [toNat_toLower]
    split <;> omega
  rw [← Char.toNat_inj, toNat_toLower c.toLower, if_neg lowered]

/-- `str::eq_ignore_ascii_case`. -/
def eqIgnoreAsciiCase (left right : Text) : Bool := left.toAsciiLowercase == right.toAsciiLowercase

/-- `str::trim_end_matches` for a character. -/
def trimEndMatches (text : Text) (c : Char) : Text := text.rdropWhile (· == c)

/-- Remove one trailing carriage return. -/
def stripCr (line : Text) : Text :=
  if line.getLast? = some '\r' then line.dropLast else line

/-- `str::lines`: every piece ended by a line feed loses one carriage return before it; a last
piece without a line feed is kept as it stands, and dropped when it is empty. -/
def lines (text : Text) : List Text :=
  let pieces := text.splitOn '\n'
  pieces.dropLast.map stripCr ++ (pieces.getLast?.filter (· ≠ [])).toList

/-! ## Whitespace -/

/-- A text with at least one character that is not white space. -/
def HasInk (text : Text) : Prop := ∃ c ∈ text, isWhitespace c = false

theorem trimStart_append {left : Text} (ink : HasInk left) (right : Text) :
    trimStart (left ++ right) = trimStart left ++ right := by
  obtain ⟨c, member, black⟩ := ink
  induction left with
  | nil => simp at member
  | cons head tail ih =>
      cases white : isWhitespace head with
      | false => simp [trimStart, white]
      | true =>
          have tailMember : c ∈ tail := by
            rcases List.mem_cons.mp member with rfl | inTail
            · simp [white] at black
            · exact inTail
          simpa [trimStart, white] using ih tailMember

theorem trimEnd_append {right : Text} (ink : HasInk right) (left : Text) :
    trimEnd (left ++ right) = left ++ trimEnd right := by
  obtain ⟨c, member, black⟩ := ink
  have reversed : trimStart (right.reverse ++ left.reverse) =
      trimStart right.reverse ++ left.reverse :=
    trimStart_append ⟨c, by simpa using member, black⟩ left.reverse
  simp only [trimStart] at reversed
  simp [trimEnd, List.rdropWhile, reversed]

theorem trim_append {left right : Text} (leftInk : HasInk left) (rightInk : HasInk right)
    (middle : Text) :
    trim (left ++ middle ++ right) = trimStart left ++ middle ++ trimEnd right := by
  rw [trim, List.append_assoc, trimStart_append leftInk, ← List.append_assoc,
    trimEnd_append rightInk]

@[simp]
theorem trimStart_trimStart (text : Text) : trimStart (trimStart text) = trimStart text :=
  List.dropWhile_idempotent isWhitespace text

theorem hasInk_of_trim_ne_nil {text : Text} (nonempty : trim text ≠ []) : HasInk text := by
  by_contra blank
  have white : ∀ c ∈ text, isWhitespace c = true := by
    intro c member
    cases value : isWhitespace c with
    | true => rfl
    | false => exact absurd ⟨c, member, value⟩ blank
  apply nonempty
  have startEmpty : trimStart text = [] := by
    simpa [trimStart, List.dropWhile_eq_nil_iff] using white
  simp [trim, startEmpty, trimEnd]

theorem trim_trimStart (text : Text) : trim (trimStart text) = trim text := by
  simp [trim]

theorem trimEnd_concat_white (text : Text) {c : Char} (white : isWhitespace c = true) :
    trimEnd (text ++ [c]) = trimEnd text :=
  List.rdropWhile_concat_pos isWhitespace text c white

theorem trim_concat_white (text : Text) {c : Char} (white : isWhitespace c = true) :
    trim (text ++ [c]) = trim text := by
  by_cases ink : HasInk text
  · rw [trim, trim, trimStart_append ink, trimEnd_concat_white _ white]
  · have blankText : trim text = [] := by
      by_contra nonempty
      exact ink (hasInk_of_trim_ne_nil nonempty)
    have blankLonger : trim (text ++ [c]) = [] := by
      by_contra nonempty
      obtain ⟨d, member, black⟩ := hasInk_of_trim_ne_nil nonempty
      rcases List.mem_append.mp member with inText | isLast
      · exact ink ⟨d, inText, black⟩
      · rw [List.mem_singleton.mp isLast, white] at black
        exact absurd black (by decide)
    rw [blankText, blankLonger]

theorem trim_trimEnd (text : Text) : trim (trimEnd text) = trim text := by
  induction text using List.reverseRecOn with
  | nil => rfl
  | append_singleton front last ih =>
      cases white : isWhitespace last with
      | true => rw [trimEnd_concat_white _ white, ih, trim_concat_white _ white]
      | false => rw [trimEnd, List.rdropWhile_concat_neg _ _ _ (by simp [white])]

theorem trim_eq_self {text : Text} (startInk : ∀ c, text.head? = some c → isWhitespace c = false)
    (endInk : ∀ c, text.getLast? = some c → isWhitespace c = false) : trim text = text := by
  have startEq : trimStart text = text := by
    cases text with
    | nil => rfl
    | cons head tail => simp [trimStart, startInk head rfl]
  rw [trim, startEq, trimEnd, List.rdropWhile_eq_self_iff]
  intro nonempty
  have black := endInk _ (List.getLast?_eq_some_getLast nonempty)
  simp [black]

/-! ## Prefixes -/

theorem isPrefixOf?_eq_some_iff {α : Type*} [BEq α] [LawfulBEq α] {front whole rest : List α} :
    front.isPrefixOf? whole = some rest ↔ whole = front ++ rest := by
  induction front generalizing whole with
  | nil => simp [List.isPrefixOf?]
  | cons head tail ih =>
      cases whole with
      | nil => simp [List.isPrefixOf?]
      | cons first others =>
          by_cases same : head = first
          · subst same
            simp [List.isPrefixOf?, ih]
          · simp [List.isPrefixOf?, same, Ne.symm same]

theorem stripPrefix_eq_some_iff {text marker rest : Text} :
    stripPrefix text marker = some rest ↔ text = marker ++ rest :=
  isPrefixOf?_eq_some_iff

@[simp]
theorem stripPrefix_append (marker rest : Text) : stripPrefix (marker ++ rest) marker = some rest :=
  stripPrefix_eq_some_iff.mpr rfl

theorem startsWith_iff {text marker : Text} : startsWith text marker = true ↔ marker <+: text :=
  List.isPrefixOf_iff_prefix

/-! ## Carriage returns -/

theorem stripCr_concat_cr (line : Text) : stripCr (line ++ ['\r']) = line := by
  simp [stripCr]

theorem stripCr_of_getLast?_ne {line : Text} (noReturn : line.getLast? ≠ some '\r') :
    stripCr line = line := by
  simp [stripCr, noReturn]

/-- A line either is kept by `stripCr` or is what `stripCr` leaves followed by a return. -/
theorem stripCr_cases (line : Text) :
    (line.getLast? ≠ some '\r' ∧ stripCr line = line) ∨
      ∃ front, line = front ++ ['\r'] ∧ stripCr line = front := by
  by_cases returned : line.getLast? = some '\r'
  · obtain ⟨front, rfl⟩ := List.getLast?_eq_some_iff.mp returned
    exact Or.inr ⟨front, rfl, stripCr_concat_cr front⟩
  · exact Or.inl ⟨returned, stripCr_of_getLast?_ne returned⟩

theorem trim_stripCr (line : Text) : trim (stripCr line) = trim line := by
  rcases stripCr_cases line with ⟨_, kept⟩ | ⟨front, rfl, stripped⟩
  · rw [kept]
  · rw [stripped, trim_concat_white front (by decide)]

theorem stripCr_append {marker : Text} (noReturn : marker.getLast? ≠ some '\r') (rest : Text) :
    stripCr (marker ++ rest) = marker ++ stripCr rest := by
  rcases stripCr_cases rest with ⟨kept, same⟩ | ⟨front, rfl, stripped⟩
  · rw [same, stripCr_of_getLast?_ne]
    cases rest with
    | nil => simpa using noReturn
    | cons head tail => rwa [List.getLast?_append_of_ne_nil _ (by simp)]
  · rw [stripped, ← List.append_assoc, stripCr_concat_cr]

theorem stripCr_cons {c : Char} (noReturn : c ≠ '\r') (rest : Text) :
    stripCr (c :: rest) = c :: stripCr rest :=
  @stripCr_append [c] (by simpa using noReturn) rest

theorem stripPrefix_stripCr {marker : Text} (noReturn : marker.getLast? ≠ some '\r') (line : Text) :
    stripPrefix (stripCr line) marker = (stripPrefix line marker).map stripCr := by
  cases stripped : stripPrefix line marker with
  | some rest =>
      rw [stripPrefix_eq_some_iff.mp stripped, stripCr_append noReturn]
      simp
  | none =>
      cases again : stripPrefix (stripCr line) marker with
      | none => rfl
      | some rest =>
          have front := stripPrefix_eq_some_iff.mp again
          rcases stripCr_cases line with ⟨_, kept⟩ | ⟨whole, rfl, stripped'⟩
          · rw [← kept, again] at stripped
            cases stripped
          · rw [← stripped', front, List.append_assoc, stripPrefix_append] at stripped
            cases stripped

theorem startsWith_eq_isSome (line marker : Text) :
    startsWith line marker = (stripPrefix line marker).isSome := by
  cases stripped : stripPrefix line marker with
  | some rest =>
      rw [stripPrefix_eq_some_iff.mp stripped]
      exact startsWith_iff.mpr (List.prefix_append marker rest)
  | none =>
      cases starts : startsWith line marker with
      | false => rfl
      | true =>
          obtain ⟨rest, rfl⟩ := startsWith_iff.mp starts
          simp at stripped

theorem startsWith_stripCr {marker : Text} (noReturn : marker.getLast? ≠ some '\r') (line : Text) :
    startsWith (stripCr line) marker = startsWith line marker := by
  rw [startsWith_eq_isSome, startsWith_eq_isSome, stripPrefix_stripCr noReturn, Option.isSome_map]

/-! ## Lines -/

theorem separator_not_mem_splitOn {separator : Char} {text piece : Text}
    (member : piece ∈ text.splitOn separator) : separator ∉ piece := by
  induction text generalizing piece with
  | nil =>
      obtain rfl : piece = [] := by simpa using member
      simp
  | cons head tail ih =>
      rw [List.splitOn_cons_eq_if_modifyHead] at member
      by_cases isBreak : head = separator
      · subst isBreak
        simp only [BEq.rfl, ↓reduceIte, List.mem_cons] at member
        rcases member with rfl | later
        · simp
        · exact ih later
      · have notBreak : (head == separator) = false := by simpa using isBreak
        obtain ⟨first, others, pieces⟩ :=
          List.exists_cons_of_ne_nil (List.splitOn_ne_nil separator tail)
        simp only [notBreak, Bool.false_eq_true, ↓reduceIte, pieces, List.modifyHead_cons,
          List.mem_cons] at member
        rcases member with rfl | later
        · have firstClean := @ih first (by simp [pieces])
          simp [firstClean, Ne.symm isBreak]
        · exact ih (by simp [pieces, later])

theorem newline_not_mem_stripCr {line : Text} (clean : '\n' ∉ line) : '\n' ∉ stripCr line := by
  rcases stripCr_cases line with ⟨_, kept⟩ | ⟨front, rfl, stripped⟩
  · rwa [kept]
  · rw [stripped]
    exact fun member => clean (List.mem_append_left _ member)

theorem newline_not_mem_lines {text line : Text} (member : line ∈ lines text) : '\n' ∉ line := by
  simp only [lines, List.mem_append, List.mem_map] at member
  rcases member with ⟨piece, inPieces, rfl⟩ | isLast
  · exact newline_not_mem_stripCr (separator_not_mem_splitOn (List.mem_of_mem_dropLast inPieces))
  · simp only [Option.mem_toList, Option.filter_eq_some_iff] at isLast
    exact separator_not_mem_splitOn (List.mem_of_getLast? isLast.1)

/-- Reading back joined lines: every line but the last loses one carriage return. -/
theorem lines_join {body : List Text} {last : Text} (bodyClean : ∀ line ∈ body, '\n' ∉ line)
    (lastClean : '\n' ∉ last) (lastNonempty : last ≠ []) :
    lines (join ['\n'] (body ++ [last])) = body.map stripCr ++ [last] := by
  have pieces : (join ['\n'] (body ++ [last])).splitOn '\n' = body ++ [last] := by
    apply List.splitOn_intercalate '\n'
    · intro line member
      rcases List.mem_append.mp member with inBody | isLast
      · exact bodyClean line inBody
      · rw [List.mem_singleton.mp isLast]
        exact lastClean
    · simp
  simp [lines, pieces, lastNonempty]

/-- A line feed ends the lines before it. -/
theorem lines_append_newline (text rest : Text) :
    lines (text ++ '\n' :: rest) = (text.splitOn '\n').map stripCr ++ lines rest := by
  have apart : rest.splitOn '\n' ≠ [] := List.splitOn_ne_nil '\n' rest
  rw [lines, List.splitOn_append_cons_self]
  simp only [List.dropLast_append_of_ne_nil apart, List.map_append, List.append_assoc, lines,
    List.getLast?_append_of_ne_nil _ apart]

/-- The line feeds of a text cut it into pieces; the last one is a line when it is not empty. -/
theorem lines_of_splitOn {text last : Text} {body : List Text}
    (pieces : text.splitOn '\n' = body ++ [last]) :
    lines text = body.map stripCr ++ if last = [] then [] else [last] := by
  rw [lines, pieces]
  split
  case isTrue empty => simp [empty]
  case isFalse nonempty => simp [nonempty]

theorem join_concat (separator last : Text) (front : List Text) :
    join separator (front ++ [last]) = front.flatMap (· ++ separator) ++ last := by
  induction front with
  | nil => simp [join]
  | cons head tail ih =>
      obtain ⟨next, others, tailEq⟩ := List.exists_cons_of_ne_nil (l := tail ++ [last]) (by simp)
      rw [tailEq] at ih
      simp only [join] at ih
      simp [join, tailEq, ih]

/-- Trimming joined lines trims the outer sides of the first and the last line. -/
theorem trim_join {first last : Text} (firstInk : HasInk first) (lastInk : HasInk last)
    (middle : List Text) :
    trim (join ['\n'] (first :: middle ++ [last])) =
      join ['\n'] (trimStart first :: middle ++ [trimEnd last]) := by
  simp only [join_concat, List.flatMap_cons]
  rw [List.append_assoc first, trim_append firstInk lastInk]
  simp

end Text
end RustStd
