import Mathlib.Data.List.Infix

/-!
# Prefix codes

A code gives a word of letters to every symbol, so that the first symbol of a text can be read off
its letters.  Letters that are decoded are those of whole symbols, and what is left over at the end
is the beginning of a word, or of no text at all.
-/

namespace PrefixCodes

/-- What the first letters of a text are. -/
inductive Reading (γ β : Type*) where
  /-- The word of a symbol, and the letters behind it. -/
  | item (symbol : γ) (rest : List β)
  /-- The end of the text is reached inside of a word. -/
  | short
  /-- So many letters are the beginning of no word. -/
  | broken (length : ℕ)

/-- A code for symbols, and a function that reads the first symbol. -/
structure PrefixCode (γ β : Type*) where
  encode : γ → List β
  read : List β → Reading γ β
  encode_ne_nil : ∀ symbol, encode symbol ≠ []
  read_item : ∀ letters symbol rest,
    read letters = .item symbol rest ↔ letters = encode symbol ++ rest
  read_short : ∀ letters, letters ≠ [] →
    (read letters = .short ↔ ∃ symbol, letters <+: encode symbol ∧ letters ≠ encode symbol)

/-- Where decoding stops: the letters in front of it are those of whole symbols.  A length is given
for letters that are the beginning of no word. -/
structure Failure where
  validUpTo : ℕ
  errorLen : Option ℕ
deriving DecidableEq

namespace PrefixCode

variable {γ β : Type*} (code : PrefixCode γ β)

/-- The letters of a text. -/
def encodeAll (text : List γ) : List β := text.flatMap code.encode

/-- Some letters of a symbol, but not all of them. -/
def Unfinished (letters : List β) : Prop :=
  ∃ symbol, letters <+: code.encode symbol ∧ letters ≠ code.encode symbol

theorem length_lt_of_read {letters rest : List β} {symbol : γ}
    (read : code.read letters = .item symbol rest) : rest.length < letters.length := by
  have positive := List.length_pos_of_ne_nil (code.encode_ne_nil symbol)
  rw [(code.read_item _ _ _).mp read, List.length_append]
  omega

/-- A symbol, which has so many letters, in front of what is decoded. -/
def prepend (symbol : γ) (width : ℕ) : Except Failure (List γ) → Except Failure (List γ)
  | .ok text => .ok (symbol :: text)
  | .error failure => .error ⟨width + failure.validUpTo, failure.errorLen⟩

/-- Decode a text of whole symbols. -/
def decode (letters : List β) : Except Failure (List γ) :=
  if letters.isEmpty then .ok []
  else
    match _read : code.read letters with
    | .item symbol rest => prepend symbol (letters.length - rest.length) (decode rest)
    | .short => .error ⟨0, none⟩
    | .broken length => .error ⟨0, some length⟩
termination_by letters.length
decreasing_by exact code.length_lt_of_read _read

variable {code} {letters rest : List β} {symbol : γ} {text : List γ} {n : ℕ}

theorem encodeAll_cons :
    code.encodeAll (symbol :: text) = code.encode symbol ++ code.encodeAll text :=
  rfl

theorem encodeAll_append (first second : List γ) :
    code.encodeAll (first ++ second) = code.encodeAll first ++ code.encodeAll second :=
  List.flatMap_append

theorem decode_nil : code.decode [] = .ok [] := by
  rw [decode]
  rfl

theorem decode_of_ne_nil (nonempty : letters ≠ []) :
    code.decode letters = match code.read letters with
      | .item symbol rest =>
          prepend symbol (letters.length - rest.length) (code.decode rest)
      | .short => .error ⟨0, none⟩
      | .broken length => .error ⟨0, some length⟩ := by
  rw [decode, if_neg (by simpa using nonempty)]
  split <;> simp_all

theorem decode_encode_append (symbol : γ) (rest : List β) :
    code.decode (code.encode symbol ++ rest) =
      prepend symbol (code.encode symbol).length (code.decode rest) := by
  have nonempty : code.encode symbol ++ rest ≠ [] :=
    List.append_ne_nil_of_left_ne_nil (code.encode_ne_nil symbol) rest
  have read := (code.read_item (code.encode symbol ++ rest) symbol rest).mpr rfl
  rw [decode_of_ne_nil nonempty, read, List.length_append]
  simp only [Nat.add_sub_cancel]

theorem decode_of_unfinished (nonempty : letters ≠ []) (unfinished : code.Unfinished letters) :
    code.decode letters = .error ⟨0, none⟩ := by
  rw [decode_of_ne_nil nonempty, (code.read_short _ nonempty).mpr unfinished]

/-- Letters are none, or a symbol and more, or a part of one, or the beginning of no word. -/
theorem letters_cases (letters : List β) :
    letters = [] ∨ (∃ symbol rest, letters = code.encode symbol ++ rest) ∨
      (letters ≠ [] ∧ code.Unfinished letters ∧ code.decode letters = .error ⟨0, none⟩) ∨
      (letters ≠ [] ∧ ¬code.Unfinished letters ∧
        (∀ symbol rest, letters ≠ code.encode symbol ++ rest) ∧
        ∃ length, code.decode letters = .error ⟨0, some length⟩) := by
  obtain rfl | nonempty := eq_or_ne letters []
  · exact .inl rfl
  · have decoded : code.decode letters = _ := decode_of_ne_nil nonempty
    cases read : code.read letters with
    | item symbol rest => exact .inr (.inl ⟨symbol, rest, (code.read_item _ _ _).mp read⟩)
    | short =>
        rw [read] at decoded
        exact .inr (.inr (.inl ⟨nonempty, (code.read_short _ nonempty).mp read, decoded⟩))
    | broken length =>
        rw [read] at decoded
        refine .inr (.inr (.inr ⟨nonempty, ?_, ?_, length, decoded⟩))
        · intro unfinished
          cases read.symm.trans ((code.read_short _ nonempty).mpr unfinished)
        · intro symbol rest whole
          cases read.symm.trans ((code.read_item _ _ _).mpr whole)

/-- The first symbol of a text and the letters behind it are determined by the letters. -/
theorem encode_append_inj {first second : γ} {behind after : List β}
    (same : code.encode first ++ behind = code.encode second ++ after) :
    first = second ∧ behind = after := by
  have read := (code.read_item (code.encode first ++ behind) first behind).mpr rfl
  have again := (code.read_item (code.encode first ++ behind) second after).mpr same
  cases read.symm.trans again
  exact ⟨rfl, rfl⟩

theorem not_unfinished_encode_append (symbol : γ) (rest : List β) :
    ¬code.Unfinished (code.encode symbol ++ rest) := by
  intro unfinished
  have nonempty : code.encode symbol ++ rest ≠ [] :=
    List.append_ne_nil_of_left_ne_nil (code.encode_ne_nil symbol) rest
  have read := (code.read_item (code.encode symbol ++ rest) symbol rest).mpr rfl
  cases read.symm.trans ((code.read_short _ nonempty).mpr unfinished)

/-- Decoding inverts encoding. -/
theorem decode_eq_ok_iff : code.decode letters = .ok text ↔ letters = code.encodeAll text := by
  induction size : letters.length using Nat.strongRecOn generalizing letters text with
  | _ length ih =>
      obtain rfl | ⟨symbol, rest, rfl⟩ | ⟨nonempty, unfinished, failed⟩ |
        ⟨nonempty, -, noSymbol, width, failed⟩ := code.letters_cases letters
      · cases text with
        | nil => exact ⟨fun _ => rfl, fun _ => decode_nil⟩
        | cons symbol text =>
            have apart : [] ≠ code.encodeAll (symbol :: text) :=
              (List.append_ne_nil_of_left_ne_nil (code.encode_ne_nil symbol) _).symm
            simp [decode_nil, apart]
      · have positive := List.length_pos_of_ne_nil (code.encode_ne_nil symbol)
        rw [List.length_append] at size
        have later (text : List γ) :
            code.decode rest = .ok text ↔ rest = code.encodeAll text :=
          ih rest.length (by omega) rfl
        rw [decode_encode_append]
        constructor
        · intro decoded
          cases decodedRest : code.decode rest with
          | error failure =>
              rw [decodedRest] at decoded
              cases decoded
          | ok behind =>
              rw [decodedRest] at decoded
              cases decoded
              rw [encodeAll_cons, (later behind).mp decodedRest]
        · intro whole
          cases text with
          | nil =>
              exact absurd whole
                (List.append_ne_nil_of_left_ne_nil (code.encode_ne_nil symbol) rest)
          | cons first behind =>
              obtain ⟨rfl, same⟩ := encode_append_inj whole
              rw [(later behind).mpr same]
              rfl
      · rw [failed]
        refine ⟨fun decoded => absurd decoded (by simp), fun whole => ?_⟩
        cases text with
        | nil => exact absurd whole nonempty
        | cons first behind => exact absurd (whole ▸ unfinished) (not_unfinished_encode_append _ _)
      · rw [failed]
        refine ⟨fun decoded => absurd decoded (by simp), fun whole => ?_⟩
        cases text with
        | nil => exact absurd whole nonempty
        | cons first behind => exact absurd whole (noSymbol first (code.encodeAll behind))

/-- What stands behind the letters of a text, within those of another text, is of whole symbols. -/
theorem exists_of_encodeAll_append {first whole : List γ}
    (same : code.encodeAll first ++ rest = code.encodeAll whole) :
    ∃ behind, whole = first ++ behind ∧ rest = code.encodeAll behind := by
  induction first generalizing whole with
  | nil => exact ⟨whole, rfl, same⟩
  | cons symbol first ih =>
      rw [encodeAll_cons, List.append_assoc] at same
      cases whole with
      | nil =>
          exact absurd same (List.append_ne_nil_of_left_ne_nil (code.encode_ne_nil symbol) _)
      | cons other whole =>
          obtain ⟨rfl, later⟩ := encode_append_inj same
          obtain ⟨behind, rfl, rest⟩ := ih later
          exact ⟨behind, rfl, rest⟩

/-- What is left over when the end is reached inside of a word is a part of a symbol. -/
theorem exists_of_decode_short (decoded : code.decode letters = .error ⟨n, none⟩) :
    ∃ text rest, letters = code.encodeAll text ++ rest ∧ n = (code.encodeAll text).length ∧
      rest ≠ [] ∧ code.Unfinished rest := by
  induction size : letters.length using Nat.strongRecOn generalizing letters n with
  | _ length ih =>
      obtain rfl | ⟨symbol, rest, rfl⟩ | ⟨nonempty, unfinished, failed⟩ |
        ⟨-, -, -, width, failed⟩ := code.letters_cases letters
      · cases decode_nil.symm.trans decoded
      · have positive := List.length_pos_of_ne_nil (code.encode_ne_nil symbol)
        rw [List.length_append] at size
        rw [decode_encode_append] at decoded
        cases decodedRest : code.decode rest with
        | ok behind =>
            rw [decodedRest] at decoded
            cases decoded
        | error failure =>
            obtain ⟨validUpTo, errorLen⟩ := failure
            rw [decodedRest] at decoded
            cases decoded
            obtain ⟨text, left, rfl, rfl, leftNonempty, unfinished⟩ :=
              ih rest.length (by omega) decodedRest rfl
            refine ⟨symbol :: text, left, ?_, ?_, leftNonempty, unfinished⟩
            · rw [encodeAll_cons, List.append_assoc]
            · rw [encodeAll_cons, List.length_append]
      · cases failed.symm.trans decoded
        exact ⟨[], letters, rfl, rfl, nonempty, unfinished⟩
      · cases failed.symm.trans decoded

/-- Letters that are refused are the beginning of no text. -/
theorem not_isPrefix_of_decode_broken {width : ℕ}
    (decoded : code.decode letters = .error ⟨n, some width⟩) (text : List γ) :
    ¬letters <+: code.encodeAll text := by
  induction size : letters.length using Nat.strongRecOn generalizing letters n text with
  | _ length ih =>
      intro begins
      obtain rfl | ⟨symbol, rest, rfl⟩ | ⟨nonempty, unfinished, failed⟩ |
        ⟨nonempty, finished, noSymbol, -⟩ := code.letters_cases letters
      · cases decode_nil.symm.trans decoded
      · have positive := List.length_pos_of_ne_nil (code.encode_ne_nil symbol)
        rw [List.length_append] at size
        rw [decode_encode_append] at decoded
        cases decodedRest : code.decode rest with
        | ok behind =>
            rw [decodedRest] at decoded
            cases decoded
        | error failure =>
            obtain ⟨validUpTo, errorLen⟩ := failure
            rw [decodedRest] at decoded
            cases decoded
            obtain ⟨tail, whole⟩ := begins
            cases text with
            | nil =>
                have empty := List.append_eq_nil_iff.mp (List.append_eq_nil_iff.mp whole).1
                exact code.encode_ne_nil symbol empty.1
            | cons first behind =>
                rw [encodeAll_cons, List.append_assoc] at whole
                obtain ⟨rfl, same⟩ := encode_append_inj whole
                exact ih rest.length (by omega) decodedRest behind rfl ⟨tail, same⟩
      · cases failed.symm.trans decoded
      · cases text with
        | nil => exact nonempty (List.prefix_nil.mp begins)
        | cons first behind =>
            rw [encodeAll_cons] at begins
            obtain short | long := Nat.lt_or_ge letters.length (code.encode first).length
            · have inside : letters <+: code.encode first :=
                List.prefix_of_prefix_length_le begins (List.prefix_append _ _) short.le
              refine finished ⟨first, inside, ?_⟩
              rintro rfl
              exact Nat.lt_irrefl _ short
            · have outside : code.encode first <+: letters :=
                List.prefix_of_prefix_length_le (List.prefix_append _ _) begins long
              obtain ⟨rest, rfl⟩ := outside
              exact noSymbol first rest rfl

end PrefixCode

end PrefixCodes
