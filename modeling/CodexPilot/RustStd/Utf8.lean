import CodexPilot.Library.PrefixCodes
import CodexPilot.RustStd.Text

/-!
# UTF-8

`str::from_utf8` reads one sequence after the other.  It tells a sequence that cannot be one of
UTF-8, and how many of its bytes could still be, from one that ends too early.
-/

namespace RustStd
namespace Utf8

open PrefixCodes

/-- A byte behind the first one, other than the second one in some cases. -/
def IsContinuation (b : UInt8) : Prop := 0x80 ≤ b.toNat ∧ b.toNat ≤ 0xBF

instance (b : UInt8) : Decidable (IsContinuation b) :=
  inferInstanceAs (Decidable (_ ∧ _))

/-- The second byte of a sequence of three bytes, behind the first one. -/
def IsSecondOfThree (a b : UInt8) : Prop :=
  (a.toNat = 0xE0 ∧ 0xA0 ≤ b.toNat ∧ b.toNat ≤ 0xBF) ∨
    (a.toNat = 0xED ∧ 0x80 ≤ b.toNat ∧ b.toNat ≤ 0x9F) ∨
      (a.toNat ≠ 0xE0 ∧ a.toNat ≠ 0xED ∧ IsContinuation b)

instance (a b : UInt8) : Decidable (IsSecondOfThree a b) :=
  inferInstanceAs (Decidable (_ ∨ _))

/-- The second byte of a sequence of four bytes, behind the first one. -/
def IsSecondOfFour (a b : UInt8) : Prop :=
  (a.toNat = 0xF0 ∧ 0x90 ≤ b.toNat ∧ b.toNat ≤ 0xBF) ∨
    (a.toNat = 0xF4 ∧ 0x80 ≤ b.toNat ∧ b.toNat ≤ 0x8F) ∨
      (a.toNat ≠ 0xF0 ∧ a.toNat ≠ 0xF4 ∧ IsContinuation b)

instance (a b : UInt8) : Decidable (IsSecondOfFour a b) :=
  inferInstanceAs (Decidable (_ ∨ _))

/-- The bits of a byte behind the first one. -/
def low (b : UInt8) : ℕ := b.toNat - 0x80

theorem low_eq (b : UInt8) : low b = b.toNat - 0x80 := rfl

/-- A sequence of two bytes, behind the first one. -/
def readTwo (a : UInt8) : List UInt8 → Reading Char UInt8
  | [] => .short
  | b :: rest =>
      if IsContinuation b then .item (Char.ofNat ((a.toNat - 0xC0) * 0x40 + low b)) rest
      else .broken 1

/-- A sequence of three bytes, behind the first one. -/
def readThree (a : UInt8) : List UInt8 → Reading Char UInt8
  | [] => .short
  | b :: rest =>
      if IsSecondOfThree a b then
        match rest with
        | [] => .short
        | c :: rest =>
            if IsContinuation c then
              .item (Char.ofNat ((a.toNat - 0xE0) * 0x1000 + low b * 0x40 + low c)) rest
            else .broken 2
      else .broken 1

/-- A sequence of four bytes, behind the first one. -/
def readFour (a : UInt8) : List UInt8 → Reading Char UInt8
  | [] => .short
  | b :: rest =>
      if IsSecondOfFour a b then
        match rest with
        | [] => .short
        | c :: rest =>
            if IsContinuation c then
              match rest with
              | [] => .short
              | d :: rest =>
                  if IsContinuation d then
                    .item (Char.ofNat ((a.toNat - 0xF0) * 0x40000 + low b * 0x1000 +
                      low c * 0x40 + low d)) rest
                  else .broken 3
            else .broken 2
      else .broken 1

/-- `core::str::run_utf8_validation`, for the first sequence. -/
def read : List UInt8 → Reading Char UInt8
  | [] => .short
  | a :: rest =>
      if a.toNat < 0x80 then .item (Char.ofNat a.toNat) rest
      else if 0xC2 ≤ a.toNat ∧ a.toNat ≤ 0xDF then readTwo a rest
      else if 0xE0 ≤ a.toNat ∧ a.toNat ≤ 0xEF then readThree a rest
      else if 0xF0 ≤ a.toNat ∧ a.toNat ≤ 0xF4 then readFour a rest
      else .broken 1

/-! ## Sequences and characters -/

section Sequences

variable {s : Char} {letters rest : List UInt8}

/-- The sequence of a character, by the number of its bytes. -/
inductive Spells (s : Char) : List UInt8 → Prop
  | one (a : UInt8) (small : s.toNat < 0x80) (first : a.toNat = s.toNat) : Spells s [a]
  | two (a b : UInt8) (large : 0x80 ≤ s.toNat) (small : s.toNat < 0x800)
      (first : a.toNat = 0xC0 + s.toNat / 0x40) (second : b.toNat = 0x80 + s.toNat % 0x40) :
      Spells s [a, b]
  | three (a b c : UInt8) (large : 0x800 ≤ s.toNat) (small : s.toNat < 0x10000)
      (noSurrogate : s.toNat < 0xD800 ∨ 0xDFFF < s.toNat)
      (first : a.toNat = 0xE0 + s.toNat / 0x1000)
      (second : b.toNat = 0x80 + s.toNat / 0x40 % 0x40)
      (third : c.toNat = 0x80 + s.toNat % 0x40) : Spells s [a, b, c]
  | four (a b c d : UInt8) (large : 0x10000 ≤ s.toNat) (small : s.toNat < 0x110000)
      (first : a.toNat = 0xF0 + s.toNat / 0x40000)
      (second : b.toNat = 0x80 + s.toNat / 0x1000 % 0x40)
      (third : c.toNat = 0x80 + s.toNat / 0x40 % 0x40)
      (fourth : d.toNat = 0x80 + s.toNat % 0x40) : Spells s [a, b, c, d]

theorem toNat_valid (s : Char) : s.toNat < 0xD800 ∨ (0xDFFF < s.toNat ∧ s.toNat < 0x110000) :=
  s.valid

theorem toNat_ofNat {n : ℕ} (small : n < 0x100) : (UInt8.ofNat n).toNat = n := by
  rw [UInt8.toNat_ofNat', Nat.mod_eq_of_lt small]

theorem spells_utf8EncodeChar (s : Char) : Spells s (String.utf8EncodeChar s) := by
  have valid := toNat_valid s
  have value : s.val.toNat = s.toNat := rfl
  rw [String.utf8EncodeChar, value]
  split
  case isTrue => exact .one _ (by omega) (toNat_ofNat (by omega))
  case isFalse =>
    split
    case isTrue =>
      refine .two _ _ (by omega) (by omega) ?_ ?_
      all_goals
        rw [toNat_ofNat (by omega)]
        omega
    case isFalse =>
      split
      case isTrue =>
        refine .three _ _ _ (by omega) (by omega) (by omega) ?_ ?_ ?_
        all_goals
          rw [toNat_ofNat (by omega)]
          omega
      case isFalse =>
        refine .four _ _ _ _ (by omega) (by omega) ?_ ?_ ?_ ?_
        all_goals
          rw [toNat_ofNat (by omega)]
          omega

theorem byte_eq {a b : UInt8} {n : ℕ} (left : a.toNat = n) (right : b.toNat = n) : a = b :=
  UInt8.toNat_inj.mp (left.trans right.symm)

theorem Spells.unique {other : List UInt8} (spells : Spells s letters) (again : Spells s other) :
    letters = other := by
  cases spells with
  | one a small first =>
      cases again with
      | one a' small' first' => rw [byte_eq first first']
      | two | three | four => omega
  | two a b large small first second =>
      cases again with
      | two a' b' large' small' first' second' =>
          rw [byte_eq first first', byte_eq second second']
      | one | three | four => omega
  | three a b c large small noSurrogate first second third =>
      cases again with
      | three a' b' c' large' small' noSurrogate' first' second' third' =>
          rw [byte_eq first first', byte_eq second second', byte_eq third third']
      | one | two | four => omega
  | four a b c d large small first second third fourth =>
      cases again with
      | four a' b' c' d' large' small' first' second' third' fourth' =>
          rw [byte_eq first first', byte_eq second second', byte_eq third third',
            byte_eq fourth fourth']
      | one | two | three => omega

theorem spells_iff : Spells s letters ↔ letters = String.utf8EncodeChar s :=
  ⟨fun spells => spells.unique (spells_utf8EncodeChar s),
    fun same => same ▸ spells_utf8EncodeChar s⟩

theorem ofNat_eq {n : ℕ} (value : n = s.toNat) : Char.ofNat n = s := by
  rw [value, Char.ofNat_toNat]

/-- A sequence is read as its character. -/
theorem read_of_spells (spells : Spells s letters) (rest : List UInt8) :
    read (letters ++ rest) = .item s rest := by
  have valid := toNat_valid s
  cases spells with
  | one a small first =>
      have ascii : a.toNat < 0x80 := by omega
      simp only [List.cons_append, List.nil_append, read, if_pos ascii, ofNat_eq first]
  | two a b large small first second =>
      have lead : ¬a.toNat < 0x80 ∧ (0xC2 ≤ a.toNat ∧ a.toNat ≤ 0xDF) := by omega
      have continues : IsContinuation b := ⟨by omega, by omega⟩
      have lowB := low_eq b
      have value : (a.toNat - 0xC0) * 0x40 + low b = s.toNat := by omega
      simp only [List.cons_append, List.nil_append, read, if_neg lead.1, if_pos lead.2, readTwo,
        if_pos continues, ofNat_eq value]
  | three a b c large small noSurrogate first second third =>
      have lead : ¬a.toNat < 0x80 ∧ ¬(0xC2 ≤ a.toNat ∧ a.toNat ≤ 0xDF) ∧
          (0xE0 ≤ a.toNat ∧ a.toNat ≤ 0xEF) := by omega
      have follows : IsSecondOfThree a b := by
        rw [IsSecondOfThree, IsContinuation]
        omega
      have continues : IsContinuation c := ⟨by omega, by omega⟩
      have lowB := low_eq b
      have lowC := low_eq c
      have value : (a.toNat - 0xE0) * 0x1000 + low b * 0x40 + low c = s.toNat := by omega
      simp only [List.cons_append, List.nil_append, read, if_neg lead.1, if_neg lead.2.1,
        if_pos lead.2.2, readThree, if_pos follows, if_pos continues, ofNat_eq value]
  | four a b c d large small first second third fourth =>
      have lead : ¬a.toNat < 0x80 ∧ ¬(0xC2 ≤ a.toNat ∧ a.toNat ≤ 0xDF) ∧
          ¬(0xE0 ≤ a.toNat ∧ a.toNat ≤ 0xEF) ∧ (0xF0 ≤ a.toNat ∧ a.toNat ≤ 0xF4) := by omega
      have follows : IsSecondOfFour a b := by
        rw [IsSecondOfFour, IsContinuation]
        omega
      have third' : IsContinuation c := ⟨by omega, by omega⟩
      have fourth' : IsContinuation d := ⟨by omega, by omega⟩
      have lowB := low_eq b
      have lowC := low_eq c
      have lowD := low_eq d
      have value : (a.toNat - 0xF0) * 0x40000 + low b * 0x1000 + low c * 0x40 + low d =
          s.toNat := by omega
      simp only [List.cons_append, List.nil_append, read, if_neg lead.1, if_neg lead.2.1,
        if_neg lead.2.2.1, if_pos lead.2.2.2, readFour, if_pos follows, if_pos third',
        if_pos fourth', ofNat_eq value]

theorem toNat_ofNat_char {n : ℕ} (valid : n < 0xD800 ∨ (0xDFFF < n ∧ n < 0x110000)) :
    (Char.ofNat n).toNat = n := by
  rw [Char.ofNat, dif_pos valid]
  rfl

/-- What is read as a character is its sequence. -/
theorem spells_of_read (found : read letters = .item s rest) :
    ∃ front, letters = front ++ rest ∧ Spells s front := by
  cases letters with
  | nil => cases found
  | cons a letters =>
      simp only [read] at found
      split_ifs at found with ascii two three four
      · injection found with symbol behind
        have value : s.toNat = a.toNat := by rw [← symbol, toNat_ofNat_char (by omega)]
        exact ⟨[a], congrArg _ behind, .one a (by omega) value.symm⟩
      · cases letters with
        | nil => cases found
        | cons b letters =>
            simp only [readTwo] at found
            split_ifs at found with continues
            injection found with symbol behind
            obtain ⟨least, most⟩ := continues
            have lowB := low_eq b
            have value : s.toNat = (a.toNat - 0xC0) * 0x40 + low b := by
              rw [← symbol, toNat_ofNat_char (by omega)]
            exact ⟨[a, b], congrArg _ (congrArg _ behind), .two a b (by omega) (by omega) (by omega)
              (by omega)⟩
      · cases letters with
        | nil => cases found
        | cons b letters =>
            simp only [readThree] at found
            split_ifs at found with follows
            cases letters with
            | nil => cases found
            | cons c letters =>
                simp only at found
                split_ifs at found with continues
                injection found with symbol behind
                obtain ⟨least, most⟩ := continues
                rw [IsSecondOfThree, IsContinuation] at follows
                have lowB := low_eq b
                have lowC := low_eq c
                have value : s.toNat =
                    (a.toNat - 0xE0) * 0x1000 + low b * 0x40 + low c := by
                  rw [← symbol, toNat_ofNat_char (by omega)]
                exact ⟨[a, b, c], congrArg _ (congrArg _ (congrArg _ behind)), .three a b c
                  (by omega) (by omega) (by omega) (by omega) (by omega) (by omega)⟩
      · cases letters with
        | nil => cases found
        | cons b letters =>
            simp only [readFour] at found
            split_ifs at found with follows
            cases letters with
            | nil => cases found
            | cons c letters =>
                simp only at found
                split_ifs at found with third
                cases letters with
                | nil => cases found
                | cons d letters =>
                    simp only at found
                    split_ifs at found with fourth
                    injection found with symbol behind
                    obtain ⟨leastThird, mostThird⟩ := third
                    obtain ⟨leastFourth, mostFourth⟩ := fourth
                    rw [IsSecondOfFour, IsContinuation] at follows
                    have lowB := low_eq b
                    have lowC := low_eq c
                    have lowD := low_eq d
                    have value : s.toNat = (a.toNat - 0xF0) * 0x40000 + low b * 0x1000 +
                        low c * 0x40 + low d := by
                      rw [← symbol, toNat_ofNat_char (by omega)]
                    exact ⟨[a, b, c, d], congrArg _ (congrArg _ (congrArg _ (congrArg _ behind))),
                      .four a b c d (by omega) (by omega) (by omega) (by omega) (by omega)
                        (by omega)⟩

/-- What more bytes make a sequence is the beginning of one. -/
theorem unfinished_of_read {more : List UInt8} (nonempty : more ≠ [])
    (found : ∃ s, read (letters ++ more) = .item s []) :
    ∃ s, letters <+: String.utf8EncodeChar s ∧ letters ≠ String.utf8EncodeChar s := by
  obtain ⟨s, found⟩ := found
  obtain ⟨front, whole, spells⟩ := spells_of_read found
  rw [List.append_nil, spells_iff.mp spells] at whole
  refine ⟨s, ⟨more, whole⟩, fun same => nonempty ?_⟩
  rw [← same] at whole
  exact List.append_right_eq_self.mp whole

/-- The least second byte of a sequence of three bytes. -/
theorem exists_isSecondOfThree (a : UInt8) : ∃ b, IsSecondOfThree a b := by
  by_cases first : a.toNat = 0xE0
  · exact ⟨0xA0, .inl ⟨first, by decide, by decide⟩⟩
  · by_cases surrogate : a.toNat = 0xED
    · exact ⟨0x80, .inr (.inl ⟨surrogate, by decide, by decide⟩)⟩
    · exact ⟨0x80, .inr (.inr ⟨first, surrogate, by decide, by decide⟩)⟩

theorem exists_isSecondOfFour (a : UInt8) : ∃ b, IsSecondOfFour a b := by
  by_cases first : a.toNat = 0xF0
  · exact ⟨0x90, .inl ⟨first, by decide, by decide⟩⟩
  · by_cases last : a.toNat = 0xF4
    · exact ⟨0x80, .inr (.inl ⟨last, by decide, by decide⟩)⟩
    · exact ⟨0x80, .inr (.inr ⟨first, last, by decide, by decide⟩)⟩

/-- A sequence that ends too early can be completed. -/
theorem exists_of_read_short (nonempty : letters ≠ []) (short : read letters = .short) :
    ∃ s, letters <+: String.utf8EncodeChar s ∧ letters ≠ String.utf8EncodeChar s := by
  have continues : IsContinuation 0x80 := by decide
  cases letters with
  | nil => exact absurd rfl nonempty
  | cons a letters =>
      simp only [read] at short
      split_ifs at short with ascii two three four
      · cases letters with
        | nil =>
            refine unfinished_of_read (List.cons_ne_nil 0x80 []) ?_
            simp only [List.cons_append, List.nil_append, read, if_neg ascii, if_pos two, readTwo,
              if_pos continues]
            exact ⟨_, rfl⟩
        | cons b letters =>
            simp only [readTwo] at short
            split_ifs at short
      · have reads (b c : UInt8) (follows : IsSecondOfThree a b) (third : IsContinuation c) :
            ∃ s, read [a, b, c] = .item s [] := by
          simp only [read, if_neg ascii, if_neg two, if_pos three, readThree, if_pos follows,
            if_pos third]
          exact ⟨_, rfl⟩
        cases letters with
        | nil =>
            obtain ⟨b, follows⟩ := exists_isSecondOfThree a
            exact unfinished_of_read (List.cons_ne_nil b [0x80]) (reads b 0x80 follows continues)
        | cons b letters =>
            simp only [readThree] at short
            split_ifs at short with follows
            cases letters with
            | nil =>
                exact unfinished_of_read (List.cons_ne_nil 0x80 [])
                  (reads b 0x80 follows continues)
            | cons c letters =>
                simp only at short
                split_ifs at short
      · have reads (b c d : UInt8) (follows : IsSecondOfFour a b) (third : IsContinuation c)
            (fourth : IsContinuation d) : ∃ s, read [a, b, c, d] = .item s [] := by
          simp only [read, if_neg ascii, if_neg two, if_neg three, if_pos four, readFour,
            if_pos follows, if_pos third, if_pos fourth]
          exact ⟨_, rfl⟩
        cases letters with
        | nil =>
            obtain ⟨b, follows⟩ := exists_isSecondOfFour a
            exact unfinished_of_read (List.cons_ne_nil b [0x80, 0x80])
              (reads b 0x80 0x80 follows continues continues)
        | cons b letters =>
            simp only [readFour] at short
            split_ifs at short with follows
            cases letters with
            | nil =>
                exact unfinished_of_read (List.cons_ne_nil 0x80 [0x80])
                  (reads b 0x80 0x80 follows continues continues)
            | cons c letters =>
                simp only at short
                split_ifs at short with third
                cases letters with
                | nil =>
                    exact unfinished_of_read (List.cons_ne_nil 0x80 [])
                      (reads b c 0x80 follows third continues)
                | cons d letters =>
                    simp only at short
                    split_ifs at short

/-- A part of the sequence of a character ends too early. -/
theorem read_short_of_prefix (nonempty : letters ≠ [])
    (begins : letters <+: String.utf8EncodeChar s) (apart : letters ≠ String.utf8EncodeChar s) :
    read letters = .short := by
  have valid := toNat_valid s
  have spells := spells_utf8EncodeChar s
  generalize String.utf8EncodeChar s = whole at begins apart spells
  obtain _ | ⟨a, letters⟩ := letters
  · exact absurd rfl nonempty
  · cases spells with
    | one a' small first =>
        obtain ⟨rfl, inside⟩ := List.cons_prefix_cons.mp begins
        exact absurd (congrArg _ (List.prefix_nil.mp inside)) apart
    | two a' b large small first second =>
        obtain ⟨rfl, inside⟩ := List.cons_prefix_cons.mp begins
        have lead : ¬a.toNat < 0x80 ∧ (0xC2 ≤ a.toNat ∧ a.toNat ≤ 0xDF) := by omega
        simp only [read, if_neg lead.1, if_pos lead.2]
        obtain _ | ⟨b', letters⟩ := letters
        · rfl
        · obtain ⟨rfl, none⟩ := List.cons_prefix_cons.mp inside
          cases List.prefix_nil.mp none
          exact absurd rfl apart
    | three a' b c large small noSurrogate first second third =>
        obtain ⟨rfl, inside⟩ := List.cons_prefix_cons.mp begins
        have lead : ¬a.toNat < 0x80 ∧ ¬(0xC2 ≤ a.toNat ∧ a.toNat ≤ 0xDF) ∧
            (0xE0 ≤ a.toNat ∧ a.toNat ≤ 0xEF) := by omega
        have follows : IsSecondOfThree a b := by
          rw [IsSecondOfThree, IsContinuation]
          omega
        simp only [read, if_neg lead.1, if_neg lead.2.1, if_pos lead.2.2]
        obtain _ | ⟨b', letters⟩ := letters
        · rfl
        · obtain ⟨rfl, behind⟩ := List.cons_prefix_cons.mp inside
          simp only [readThree, if_pos follows]
          obtain _ | ⟨c', letters⟩ := letters
          · rfl
          · obtain ⟨rfl, none⟩ := List.cons_prefix_cons.mp behind
            cases List.prefix_nil.mp none
            exact absurd rfl apart
    | four a' b c d large small first second third fourth =>
        obtain ⟨rfl, inside⟩ := List.cons_prefix_cons.mp begins
        have lead : ¬a.toNat < 0x80 ∧ ¬(0xC2 ≤ a.toNat ∧ a.toNat ≤ 0xDF) ∧
            ¬(0xE0 ≤ a.toNat ∧ a.toNat ≤ 0xEF) ∧ (0xF0 ≤ a.toNat ∧ a.toNat ≤ 0xF4) := by omega
        have follows : IsSecondOfFour a b := by
          rw [IsSecondOfFour, IsContinuation]
          omega
        have third' : IsContinuation c := ⟨by omega, by omega⟩
        simp only [read, if_neg lead.1, if_neg lead.2.1, if_neg lead.2.2.1, if_pos lead.2.2.2]
        obtain _ | ⟨b', letters⟩ := letters
        · rfl
        · obtain ⟨rfl, behind⟩ := List.cons_prefix_cons.mp inside
          simp only [readFour, if_pos follows]
          obtain _ | ⟨c', letters⟩ := letters
          · rfl
          · obtain ⟨rfl, last⟩ := List.cons_prefix_cons.mp behind
            simp only [if_pos third']
            obtain _ | ⟨d', letters⟩ := letters
            · rfl
            · obtain ⟨rfl, none⟩ := List.cons_prefix_cons.mp last
              cases List.prefix_nil.mp none
              exact absurd rfl apart

end Sequences

/-- UTF-8 is a prefix code. -/
def utf8 : PrefixCode Char UInt8 where
  encode := String.utf8EncodeChar
  read := read
  encode_ne_nil symbol nil := by
    have spells := spells_utf8EncodeChar symbol
    rw [nil] at spells
    cases spells
  read_item letters symbol rest := by
    constructor
    · intro found
      obtain ⟨front, whole, spells⟩ := spells_of_read found
      rw [whole, spells_iff.mp spells]
    · rintro rfl
      exact read_of_spells (spells_utf8EncodeChar symbol) rest
  read_short letters nonempty := by
    constructor
    · exact exists_of_read_short nonempty
    · rintro ⟨symbol, begins, apart⟩
      exact read_short_of_prefix nonempty begins apart

/-- A sequence has at most four bytes. -/
theorem length_utf8EncodeChar_le (s : Char) : (String.utf8EncodeChar s).length ≤ 4 := by
  have spells := spells_utf8EncodeChar s
  generalize String.utf8EncodeChar s = letters at spells ⊢
  cases spells <;> simp

end Utf8
end RustStd
