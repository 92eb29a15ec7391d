import Mathlib.Algebra.BigOperators.Group.List.Basic
import Mathlib.Algebra.Order.Group.Nat
import Mathlib.Algebra.Ring.Nat
import Mathlib.Data.List.Infix
import Mathlib.Data.List.Nodup

/-!
# Replacing every occurrence of a needle

Occurrences are found from left to right and do not overlap.  A text without the needle stays as it
is, two texts are replaced one by one unless the needle straddles them, and a text that holds the
needle gets shorter when the replacement is shorter.  Labels that stand in a text once each can be
replaced one after the other exactly when no label occurs a second time when its turn comes.
-/

namespace Replacing

variable {α : Type*} {needle replacement left right text : List α} {skip : ℕ}

/-- The needle begins in one text and ends in the other. -/
def Straddles (needle left right : List α) : Prop :=
  ∃ front back, front ≠ [] ∧ back ≠ [] ∧ needle = front ++ back ∧ front <:+ left ∧ back <+: right

/-- A text that begins with a symbol which the needle only begins with. -/
theorem not_straddles_of_head {symbol : α} (begins : right.head? = some symbol)
    (absent : symbol ∉ needle.tail) : ¬Straddles needle left right := by
  rintro ⟨front, back, frontNe, backNe, rfl, -, prefixed⟩
  apply absent
  obtain ⟨first, front, rfl⟩ := List.exists_cons_of_ne_nil frontNe
  obtain ⟨next, back, rfl⟩ := List.exists_cons_of_ne_nil backNe
  obtain ⟨rest, rfl⟩ := prefixed
  cases begins
  simp

/-- A text that ends with a symbol which the needle only ends with. -/
theorem not_straddles_of_last {symbol : α} (ends : left.getLast? = some symbol)
    (absent : symbol ∉ needle.dropLast) : ¬Straddles needle left right := by
  rintro ⟨front, back, frontNe, backNe, rfl, ⟨rest, rfl⟩, -⟩
  apply absent
  rw [List.getLast?_append_of_ne_nil _ frontNe] at ends
  rw [List.dropLast_append_of_ne_nil backNe]
  exact List.mem_append_left _ (List.mem_of_getLast? ends)

theorem Straddles.pair {symbol : α} (straddles : Straddles [symbol, symbol] left right) :
    left.getLast? = some symbol ∧ right.head? = some symbol := by
  obtain ⟨front, back, frontNe, backNe, whole, ⟨rest, rfl⟩, ⟨rest', rfl⟩⟩ := straddles
  have lengths := congrArg List.length whole
  have frontPositive := List.length_pos_of_ne_nil frontNe
  have backPositive := List.length_pos_of_ne_nil backNe
  rw [List.length_append, List.length_cons, List.length_singleton] at lengths
  obtain ⟨first, rfl⟩ := List.length_eq_one_iff.mp (show front.length = 1 by omega)
  obtain ⟨second, rfl⟩ := List.length_eq_one_iff.mp (show back.length = 1 by omega)
  cases whole
  exact ⟨List.getLast?_concat, rfl⟩

theorem prefix_within_or_beyond (left : List α) (prefixed : needle <+: left ++ right) :
    needle <+: left ∨ ∃ back, back ≠ [] ∧ needle = left ++ back ∧ back <+: right := by
  by_cases within : needle <+: left
  · exact .inl within
  obtain inside | ⟨back, rfl⟩ :=
    List.prefix_or_prefix_of_prefix prefixed (List.prefix_append left right)
  · exact absurd inside within
  · refine .inr ⟨back, ?_, rfl, (List.prefix_append_right_inj left).mp prefixed⟩
    rintro rfl
    simp at within

/-- An occurrence in two texts is in one of them or straddles them. -/
theorem infix_append_cases (occurs : needle <:+: left ++ right) :
    needle <:+: left ∨ needle <:+: right ∨ Straddles needle left right := by
  induction left with
  | nil => exact .inr (.inl occurs)
  | cons symbol left ih =>
      obtain prefixed | later := List.infix_cons_iff.mp occurs
      · obtain within | ⟨back, backNe, rfl, begins⟩ :=
          prefix_within_or_beyond (symbol :: left) prefixed
        · exact .inl within.isInfix
        · exact .inr (.inr ⟨symbol :: left, back, List.cons_ne_nil _ _, backNe, rfl,
            List.suffix_rfl, begins⟩)
      · obtain inLeft | inRight | ⟨front, back, frontNe, backNe, rfl, suffix, begins⟩ :=
          ih later
        · exact .inl (List.infix_cons_iff.mpr (.inr inLeft))
        · exact .inr (.inl inRight)
        · exact .inr (.inr ⟨front, back, frontNe, backNe, rfl,
            suffix.trans (List.suffix_cons _ _), begins⟩)

/-- Two pairs of pieces make the same text piece by piece, when neither piece is longer than its
counterpart. -/
theorem append_inj_of_length_le {left' right' : List α} (whole : left ++ right = left' ++ right')
    (lengths : left.length ≤ left'.length ∧ right.length ≤ right'.length ∨
      left'.length ≤ left.length ∧ right'.length ≤ right.length) :
    left = left' ∧ right = right' := by
  have total := congrArg List.length whole
  rw [List.length_append, List.length_append] at total
  exact List.append_inj whole (by omega)

/-- What begins two texts begins the first one, unless it straddles them. -/
theorem prefix_append_iff (apart : ¬Straddles needle left right) (nonempty : left ≠ []) :
    needle <+: left ++ right ↔ needle <+: left := by
  constructor
  · intro longer
    obtain within | ⟨back, backNe, rfl, begins⟩ := prefix_within_or_beyond left longer
    · exact within
    · exact absurd ⟨left, back, nonempty, backNe, rfl, List.suffix_rfl, begins⟩ apart
  · intro within
    exact within.trans (List.prefix_append left right)

/-! ## Labels -/

/-- The label begins with a symbol that does not come again in it. -/
structure Opens (opening : α) (label : List α) : Prop where
  head : label.head? = some opening
  once : opening ∉ label.tail

section Labels

variable {opening : α} {label : List α}

theorem Opens.ne_nil (opens : Opens opening label) : label ≠ [] := by
  rintro rfl
  cases opens.head

/-- What ends a label and begins as a label does is the label. -/
theorem Opens.eq_of_suffix {front : List α} (opens : Opens opening label)
    (begins : front.head? = some opening) (suffix : front <:+ label) : front = label := by
  obtain ⟨before, rfl⟩ := suffix
  cases before with
  | nil => rfl
  | cons symbol before =>
      refine absurd ?_ opens.once
      rw [List.cons_append, List.tail_cons]
      exact List.mem_append_right _ (List.mem_of_head? begins)

/-- Only a label that begins another one runs on into it. -/
theorem Opens.not_straddles (own : Opens opening needle) (opens : Opens opening label)
    (longest : label <+: needle → label = needle) : ¬Straddles needle label right := by
  rintro ⟨front, back, frontNe, backNe, rfl, suffix, -⟩
  have begins := own.head
  rw [List.head?_append_of_ne_nil _ frontNe] at begins
  obtain rfl := opens.eq_of_suffix begins suffix
  exact backNe (List.append_right_eq_self.mp (longest (List.prefix_append front back)).symm)

theorem Opens.prefix_of_infix (own : Opens opening needle) (opens : Opens opening label)
    (occurs : needle <:+: label) : needle <+: label := by
  obtain ⟨before, after, rfl⟩ := occurs
  cases before with
  | nil => exact List.prefix_append needle after
  | cons symbol before =>
      refine absurd ?_ opens.once
      rw [List.append_assoc, List.cons_append, List.tail_cons]
      exact List.mem_append_right _ (List.mem_append_left _ (List.mem_of_head? own.head))

/-- Behind a label at the front, there is no other one. -/
theorem Opens.not_infix_rest (own : Opens opening needle) {rest : List α}
    (opens : Opens opening (needle ++ rest)) : ¬needle <:+: rest := by
  intro occurs
  obtain ⟨symbol, needle, rfl⟩ := List.exists_cons_of_ne_nil own.ne_nil
  refine opens.once ?_
  rw [List.cons_append, List.tail_cons]
  exact List.mem_append_right _ (occurs.subset (List.mem_of_head? own.head))

end Labels

/-! ## Texts with labels -/

/-- Labels, each with the text in front of it, and the text behind the last one. -/
def joined (marks : List (List α × List α)) (tail : List α) : List α :=
  marks.foldr (fun mark rest => mark.1 ++ (mark.2 ++ rest)) tail

/-- Put a text in front. -/
def prepend (front : List α) :
    List (List α × List α) × List α → List (List α × List α) × List α
  | ([], tail) => ([], front ++ tail)
  | (mark :: marks, tail) => ((front ++ mark.1, mark.2) :: marks, tail)

/-- The length of the text once every label is replaced by a text of its size. -/
def weight (size : List α → ℕ) (marks : List (List α × List α)) (tail : List α) : ℕ :=
  tail.length + (marks.map fun mark => mark.1.length + size mark.2).sum

/-- The needle stands nowhere but as a whole label. -/
def Free (needle : List α) (marks : List (List α × List α)) (tail : List α) : Prop :=
  ¬needle <:+: tail ∧
    ∀ mark ∈ marks, ¬needle <:+: mark.1 ∧ (needle <+: mark.2 → mark.2 = needle)

section Marks

variable {opening : α} {mark : List α × List α} {marks : List (List α × List α)}
  {tail : List α} {size : List α → ℕ}

@[simp]
theorem joined_cons : joined (mark :: marks) tail = mark.1 ++ (mark.2 ++ joined marks tail) := rfl

theorem joined_prepend (front : List α) (text : List (List α × List α) × List α) :
    joined (prepend front text).1 (prepend front text).2 = front ++ joined text.1 text.2 := by
  obtain ⟨_ | ⟨mark, marks⟩, tail⟩ := text
  · rfl
  · exact List.append_assoc front mark.1 _

@[simp]
theorem weight_cons :
    weight size (mark :: marks) tail = mark.1.length + size mark.2 + weight size marks tail := by
  simp only [weight, List.map_cons, List.sum_cons]
  omega

theorem weight_prepend (front : List α) (text : List (List α × List α) × List α) :
    weight size (prepend front text).1 (prepend front text).2 =
      front.length + weight size text.1 text.2 := by
  obtain ⟨_ | ⟨mark, marks⟩, tail⟩ := text
  · exact List.length_append
  · simp only [prepend, weight_cons, List.length_append]
    omega

theorem labels_prepend (front : List α) (text : List (List α × List α) × List α) :
    (prepend front text).1.map Prod.snd = text.1.map Prod.snd := by
  obtain ⟨_ | ⟨mark, marks⟩, tail⟩ := text <;> rfl

/-- What is in front of a label, the label, and what is behind it are searched one by one. -/
theorem Opens.apart (own : Opens opening needle) (opens : Opens opening mark.2)
    (longest : mark.2 <+: needle → mark.2 = needle) (marks : List (List α × List α))
    (tail : List α) :
    ¬Straddles needle mark.1 (mark.2 ++ joined marks tail) ∧
      ¬Straddles needle mark.2 (joined marks tail) := by
  refine ⟨not_straddles_of_head ?_ own.once, own.not_straddles opens longest⟩
  rw [List.head?_append_of_ne_nil _ opens.ne_nil, opens.head]

end Marks

variable [DecidableEq α]

/-- Replace, behind the symbols that are skipped. -/
def replaceFrom (needle replacement : List α) : ℕ → List α → List α
  | _, [] => []
  | skip + 1, _ :: text => replaceFrom needle replacement skip text
  | 0, symbol :: text =>
      if needle.isPrefixOf (symbol :: text) then
        replacement ++ replaceFrom needle replacement (needle.length - 1) text
      else symbol :: replaceFrom needle replacement 0 text

/-- Replace every occurrence of a nonempty needle. -/
def replace (needle replacement text : List α) : List α := replaceFrom needle replacement 0 text

theorem replaceFrom_length (text : List α) :
    replaceFrom needle replacement text.length text = [] := by
  induction text with
  | nil => rfl
  | cons symbol text ih => exact ih

theorem replace_self (nonempty : needle ≠ []) :
    replace needle replacement needle = replacement := by
  obtain ⟨symbol, rest, rfl⟩ := List.exists_cons_of_ne_nil nonempty
  have begins : (symbol :: rest).isPrefixOf (symbol :: rest) = true :=
    List.isPrefixOf_iff_prefix.mpr List.prefix_rfl
  rw [replace, replaceFrom, if_pos begins, List.length_cons, Nat.add_sub_cancel, replaceFrom_length,
    List.append_nil]

theorem replace_of_absent (absent : ¬needle <:+: text) :
    replace needle replacement text = text := by
  induction text with
  | nil => rfl
  | cons symbol text ih =>
      rw [List.infix_cons_iff, not_or] at absent
      rw [replace, replaceFrom, if_neg (mt List.isPrefixOf_iff_prefix.mp absent.1), ← replace,
        ih absent.2]

theorem replaceFrom_append (apart : ¬Straddles needle left right) (inside : skip ≤ left.length) :
    replaceFrom needle replacement skip (left ++ right) =
      replaceFrom needle replacement skip left ++ replace needle replacement right := by
  induction left generalizing skip with
  | nil =>
      obtain rfl : skip = 0 := by simpa using inside
      rfl
  | cons symbol left ih =>
      have apart' : ¬Straddles needle left right := by
        rintro ⟨front, back, frontNe, backNe, whole, suffix, begins⟩
        exact apart ⟨front, back, frontNe, backNe, whole,
          suffix.trans (List.suffix_cons _ _), begins⟩
      cases skip with
      | succ skip =>
          rw [List.length_cons] at inside
          exact ih apart' (by omega)
      | zero =>
          by_cases prefixed : needle <+: symbol :: left
          · have longer : needle <+: symbol :: (left ++ right) :=
              prefixed.trans (List.prefix_append (symbol :: left) right)
            have length := prefixed.length_le
            rw [List.length_cons] at length
            rw [List.cons_append, replaceFrom, replaceFrom,
              if_pos (List.isPrefixOf_iff_prefix.mpr longer),
              if_pos (List.isPrefixOf_iff_prefix.mpr prefixed), ih apart' (by omega),
              List.append_assoc]
          · have shorter : ¬needle <+: symbol :: (left ++ right) := by
              intro longer
              obtain within | ⟨back, backNe, rfl, begins⟩ :=
                prefix_within_or_beyond (symbol :: left) longer
              · exact prefixed within
              · exact apart ⟨symbol :: left, back, List.cons_ne_nil _ _, backNe, rfl,
                  List.suffix_rfl, begins⟩
            rw [List.cons_append, replaceFrom, replaceFrom,
              if_neg (mt List.isPrefixOf_iff_prefix.mp shorter),
              if_neg (mt List.isPrefixOf_iff_prefix.mp prefixed),
              ih apart' (Nat.zero_le _), List.cons_append]

/-- Two texts are replaced one by one. -/
theorem replace_append (apart : ¬Straddles needle left right) :
    replace needle replacement (left ++ right) =
      replace needle replacement left ++ replace needle replacement right :=
  replaceFrom_append apart (Nat.zero_le _)

theorem length_replaceFrom_le (shorter : replacement.length ≤ needle.length)
    (nonempty : needle ≠ []) (inside : skip ≤ text.length) :
    (replaceFrom needle replacement skip text).length + skip ≤ text.length := by
  have positive := List.length_pos_of_ne_nil nonempty
  induction text generalizing skip with
  | nil =>
      obtain rfl : skip = 0 := by simpa using inside
      rfl
  | cons symbol text ih =>
      rw [List.length_cons] at inside ⊢
      cases skip with
      | succ skip =>
          have rest := @ih skip (by omega)
          rw [replaceFrom]
          omega
      | zero =>
          rw [replaceFrom]
          split
          case isTrue begins =>
            have length := (List.isPrefixOf_iff_prefix.mp begins).length_le
            rw [List.length_cons] at length
            have rest := @ih (needle.length - 1) (by omega)
            rw [List.length_append]
            omega
          case isFalse =>
            have rest := @ih 0 (Nat.zero_le _)
            rw [List.length_cons]
            omega

theorem length_replace_le (shorter : replacement.length ≤ needle.length) (nonempty : needle ≠ [])
    (text : List α) : (replace needle replacement text).length ≤ text.length :=
  length_replaceFrom_le shorter nonempty (Nat.zero_le _)

theorem le_length_replaceFrom (longer : needle.length ≤ replacement.length)
    (nonempty : needle ≠ []) (skip : ℕ) (text : List α) :
    text.length ≤ (replaceFrom needle replacement skip text).length + skip := by
  have positive := List.length_pos_of_ne_nil nonempty
  induction text generalizing skip with
  | nil => exact Nat.zero_le _
  | cons symbol text ih =>
      rw [List.length_cons]
      cases skip with
      | succ skip =>
          have rest := ih skip
          rw [replaceFrom]
          omega
      | zero =>
          rw [replaceFrom]
          split
          case isTrue =>
            have rest := ih (needle.length - 1)
            rw [List.length_append]
            omega
          case isFalse =>
            have rest := ih 0
            rw [List.length_cons]
            omega

theorem le_length_replace (longer : needle.length ≤ replacement.length) (nonempty : needle ≠ [])
    (text : List α) : text.length ≤ (replace needle replacement text).length :=
  le_length_replaceFrom longer nonempty 0 text

theorem length_replace_lt (shorter : replacement.length < needle.length)
    (occurs : needle <:+: text) : (replace needle replacement text).length < text.length := by
  have nonempty : needle ≠ [] := List.length_pos_iff.mp (Nat.zero_lt_of_lt shorter)
  induction text with
  | nil => exact absurd (List.infix_nil.mp occurs) nonempty
  | cons symbol text ih =>
      rw [replace, replaceFrom]
      split
      case isTrue begins =>
        have length := (List.isPrefixOf_iff_prefix.mp begins).length_le
        rw [List.length_cons] at length
        have rest := @length_replaceFrom_le _ needle replacement text
          (needle.length - 1) _ shorter.le
          nonempty (by omega)
        rw [List.length_append, List.length_cons]
        omega
      case isFalse other =>
        obtain begins | later := List.infix_cons_iff.mp occurs
        · exact absurd (List.isPrefixOf_iff_prefix.mpr begins) other
        · exact Nat.succ_lt_succ (ih later)

theorem replace_append_left (nonempty : needle ≠ []) (text : List α) :
    replace needle replacement (needle ++ text) =
      replacement ++ replace needle replacement text := by
  obtain ⟨symbol, rest, rfl⟩ := List.exists_cons_of_ne_nil nonempty
  have begins : (symbol :: rest).isPrefixOf (symbol :: (rest ++ text)) = true :=
    List.isPrefixOf_iff_prefix.mpr (List.prefix_append (symbol :: rest) text)
  have skipped (gone : List α) :
      replaceFrom (symbol :: rest) replacement gone.length (gone ++ text) =
        replace (symbol :: rest) replacement text := by
    induction gone with
    | nil => rfl
    | cons first gone ih => exact ih
  rw [List.cons_append, replace, replaceFrom, if_pos begins, List.length_cons, Nat.add_sub_cancel,
    skipped]

theorem replaceFrom_needle (nonempty : needle ≠ []) (skip : ℕ) (text : List α) :
    replaceFrom needle needle skip text = text.drop skip := by
  induction text generalizing skip with
  | nil => simp [replaceFrom]
  | cons symbol text ih =>
      cases skip with
      | succ skip => exact ih skip
      | zero =>
          rw [replaceFrom]
          split
          case isTrue begins =>
            obtain ⟨rest, whole⟩ := List.isPrefixOf_iff_prefix.mp begins
            rw [ih, List.drop_zero, ← whole]
            congr 1
            cases needle with
            | nil => exact absurd rfl nonempty
            | cons first needle =>
                rw [List.cons_append, List.cons.injEq] at whole
                rw [← whole.2, List.length_cons, Nat.add_sub_cancel, List.drop_left]
          case isFalse => rw [ih, List.drop_zero, List.drop_zero]

/-- A replacement that changes nothing replaces nothing, or the needle by itself. -/
theorem replace_eq_self_iff (nonempty : needle ≠ []) :
    replace needle replacement text = text ↔ replacement = needle ∨ ¬needle <:+: text := by
  constructor
  · intro same
    by_contra changes
    rw [not_or, not_not] at changes
    obtain ⟨differ, occurs⟩ := changes
    induction text with
    | nil => exact nonempty (List.infix_nil.mp occurs)
    | cons symbol text ih =>
        by_cases begins : needle <+: symbol :: text
        · obtain ⟨rest, whole⟩ := begins
          rw [← whole, replace_append_left nonempty] at same
          apply differ
          obtain shorter | longer := le_total replacement.length needle.length
          · exact (append_inj_of_length_le same
              (.inl ⟨shorter, length_replace_le shorter nonempty rest⟩)).1
          · exact (append_inj_of_length_le same
              (.inr ⟨longer, le_length_replace longer nonempty rest⟩)).1
        · rw [replace, replaceFrom, if_neg (mt List.isPrefixOf_iff_prefix.mp begins),
            List.cons.injEq] at same
          exact ih same.2 ((List.infix_cons_iff.mp occurs).resolve_left begins)
  · rintro (rfl | absent)
    · exact replaceFrom_needle nonempty 0 text
    · exact replace_of_absent absent

/-! ## Occurrences -/

/-- In how many places the needle occurs. -/
def occurrences (needle : List α) : List α → ℕ
  | [] => 0
  | symbol :: text =>
      occurrences needle text + if needle.isPrefixOf (symbol :: text) then 1 else 0

theorem occurrences_append (apart : ¬Straddles needle left right) :
    occurrences needle (left ++ right) = occurrences needle left + occurrences needle right := by
  induction left with
  | nil => exact (Nat.zero_add _).symm
  | cons symbol left ih =>
      have apart' : ¬Straddles needle left right := by
        rintro ⟨front, back, frontNe, backNe, whole, suffix, begins⟩
        exact apart ⟨front, back, frontNe, backNe, whole,
          suffix.trans (List.suffix_cons _ _), begins⟩
      have same := prefix_append_iff apart (List.cons_ne_nil symbol left)
      rw [List.cons_append] at same ⊢
      simp only [occurrences, List.isPrefixOf_iff_prefix, same, ih apart']
      omega

theorem occurrences_eq_zero_iff (nonempty : needle ≠ []) :
    occurrences needle text = 0 ↔ ¬needle <:+: text := by
  induction text with
  | nil => exact iff_of_true rfl fun occurs => nonempty (List.infix_nil.mp occurs)
  | cons symbol text ih =>
      rw [occurrences, Nat.add_eq_zero_iff, ih, List.infix_cons_iff, not_or, and_comm,
        ite_eq_right_iff, List.isPrefixOf_iff_prefix]
      simp

/-- A text that holds the needle gets longer when the replacement is longer. -/
theorem lt_length_replace (longer : needle.length < replacement.length) (nonempty : needle ≠ [])
    (occurs : needle <:+: text) : text.length < (replace needle replacement text).length := by
  have least := le_length_replace longer.le nonempty text
  refine lt_of_le_of_ne least fun same => ?_
  induction text with
  | nil => exact nonempty (List.infix_nil.mp occurs)
  | cons symbol text ih =>
      by_cases begins : needle <+: symbol :: text
      · obtain ⟨rest, whole⟩ := begins
        have rest_le := le_length_replace longer.le nonempty rest
        rw [← whole, replace_append_left nonempty, List.length_append, List.length_append] at same
        omega
      · rw [replace, replaceFrom, if_neg (mt List.isPrefixOf_iff_prefix.mp begins)] at same
        exact ih ((List.infix_cons_iff.mp occurs).resolve_left begins)
          (le_length_replace longer.le nonempty text) (Nat.succ.inj same)

section Labels

variable {opening : α} {label : List α}

theorem replace_label (own : Opens opening needle) (opens : Opens opening label) :
    replace needle replacement label =
      if needle <+: label then replacement ++ label.drop needle.length else label := by
  split
  case isTrue begins =>
    obtain ⟨rest, rfl⟩ := begins
    rw [replace_append_left own.ne_nil, replace_of_absent (own.not_infix_rest opens),
      List.drop_left]
  case isFalse apart =>
    exact replace_of_absent fun occurs => apart (own.prefix_of_infix opens occurs)

theorem occurrences_label (own : Opens opening needle) (opens : Opens opening label) :
    occurrences needle label = if needle <+: label then 1 else 0 := by
  split
  case isTrue begins =>
    obtain ⟨rest, rfl⟩ := begins
    have later := (occurrences_eq_zero_iff own.ne_nil).mpr (own.not_infix_rest opens)
    have whole : occurrences needle needle = 1 := by
      obtain ⟨symbol, needle, rfl⟩ := List.exists_cons_of_ne_nil own.ne_nil
      have once : symbol ∉ needle := by
        have once := own.once
        cases own.head
        exact once
      have absent : ¬symbol :: needle <:+: needle := fun occurs =>
        once (occurs.subset List.mem_cons_self)
      rw [occurrences, (occurrences_eq_zero_iff (List.cons_ne_nil _ _)).mpr absent,
        if_pos (List.isPrefixOf_iff_prefix.mpr List.prefix_rfl)]
    have apart : ¬Straddles needle needle rest := own.not_straddles own fun _ => rfl
    rw [occurrences_append apart, whole, later]
  case isFalse apart =>
    exact (occurrences_eq_zero_iff own.ne_nil).mpr fun occurs =>
      apart (own.prefix_of_infix opens occurs)

end Labels

/-! ## Replacing labels one after the other -/

/-- The text with some labels replaced where they stand. -/
def inlined (pastes marks : List (List α × List α)) (tail : List α) : List α :=
  marks.foldr (fun mark rest => mark.1 ++ ((pastes.lookup mark.2).getD mark.2 ++ rest)) tail

/-- Replace the needle everywhere; a label that begins with it is no label any more. -/
def replaceMarks (needle replacement : List α) :
    List (List α × List α) → List α → List (List α × List α) × List α
  | [], tail => ([], replace needle replacement tail)
  | mark :: marks, tail =>
      let later := replaceMarks needle replacement marks tail
      if needle <+: mark.2 then
        prepend
          (replace needle replacement mark.1 ++ (replacement ++ mark.2.drop needle.length)) later
      else ((replace needle replacement mark.1, mark.2) :: later.1, later.2)

section Marks

variable {opening : α} {mark : List α × List α} {pastes marks : List (List α × List α)}
  {tail : List α} {size : List α → ℕ}

@[simp]
theorem inlined_cons :
    inlined pastes (mark :: marks) tail =
      mark.1 ++ ((pastes.lookup mark.2).getD mark.2 ++ inlined pastes marks tail) := rfl

theorem inlined_prepend (front : List α) (text : List (List α × List α) × List α) :
    inlined pastes (prepend front text).1 (prepend front text).2 =
      front ++ inlined pastes text.1 text.2 := by
  obtain ⟨_ | ⟨mark, marks⟩, tail⟩ := text
  · rfl
  · exact List.append_assoc front mark.1 _

theorem length_inlined :
    (inlined pastes marks tail).length =
      weight (fun label => ((pastes.lookup label).getD label).length) marks tail := by
  induction marks with
  | nil => rfl
  | cons mark marks ih =>
      rw [inlined_cons, weight_cons, List.length_append, List.length_append, ih,
        Nat.add_assoc]

theorem labels_replaceMarks (marks : List (List α × List α)) (tail : List α) :
    (replaceMarks needle replacement marks tail).1.map Prod.snd =
      (marks.map Prod.snd).filter fun label => ¬needle <+: label := by
  induction marks with
  | nil => rfl
  | cons mark marks ih =>
      rw [replaceMarks, List.map_cons, List.filter_cons]
      split
      case isTrue begins => simp [begins, labels_prepend, ih]
      case isFalse apart => simp [apart, ih]

/-- Where the needle is free, only its label is replaced. -/
theorem inlined_replaceMarks (free : Free needle marks tail) :
    inlined pastes (replaceMarks needle replacement marks tail).1
        (replaceMarks needle replacement marks tail).2 =
      inlined ((needle, replacement) :: pastes) marks tail := by
  induction marks with
  | nil => exact replace_of_absent free.1
  | cons mark marks ih =>
      obtain ⟨⟨absent, whole⟩, later⟩ := List.forall_mem_cons.mp free.2
      rw [inlined_cons, ← ih ⟨free.1, later⟩, replaceMarks, replace_of_absent absent]
      split
      case isTrue begins =>
        rw [inlined_prepend, whole begins, List.drop_length, List.append_nil,
          List.lookup_cons_self, Option.getD_some, List.append_assoc]
      case isFalse apart =>
        have other : mark.2 ≠ needle := fun same => apart (same ▸ List.prefix_rfl)
        rw [List.lookup_cons, beq_false_of_ne other]
        rfl

/-- Replacing the needle everywhere makes the text no lighter, and heavier if it is not free. -/
theorem weight_replaceMarks (longer : needle.length < replacement.length) (nonempty : needle ≠ [])
    (sizes : ∀ mark ∈ marks, needle <+: mark.2 → size mark.2 = replacement.length) (tail : List α) :
    weight size marks tail ≤ weight size (replaceMarks needle replacement marks tail).1
        (replaceMarks needle replacement marks tail).2 ∧
      (weight size marks tail = weight size (replaceMarks needle replacement marks tail).1
        (replaceMarks needle replacement marks tail).2 → Free needle marks tail) := by
  have grows (text : List α) : text.length ≤ (replace needle replacement text).length :=
    le_length_replace longer.le nonempty text
  have absent {text : List α} (same : text.length = (replace needle replacement text).length) :
      ¬needle <:+: text := fun occurs => (lt_length_replace longer nonempty occurs).ne same
  induction marks with
  | nil =>
      refine ⟨grows tail, fun same => ⟨absent ?_, List.forall_mem_nil _⟩⟩
      exact same
  | cons mark marks ih =>
      obtain ⟨first, later⟩ := List.forall_mem_cons.mp sizes
      obtain ⟨heavier, free⟩ := ih later
      have gap := grows mark.1
      rw [replaceMarks, weight_cons]
      split
      case isTrue begins =>
        have size_eq := first begins
        rw [weight_prepend, List.length_append, List.length_append, List.length_drop]
        refine ⟨by omega, fun same => ?_⟩
        obtain ⟨tailFree, marksFree⟩ := free (by omega)
        refine ⟨tailFree, List.forall_mem_cons.mpr ⟨⟨absent (by omega), fun _ => ?_⟩, marksFree⟩⟩
        exact (begins.eq_of_length_le (by omega)).symm
      case isFalse apart =>
        rw [weight_cons]
        dsimp only
        refine ⟨by omega, fun same => ?_⟩
        obtain ⟨tailFree, marksFree⟩ := free (by omega)
        exact ⟨tailFree, List.forall_mem_cons.mpr
          ⟨⟨absent (by omega), fun begins => absurd begins apart⟩, marksFree⟩⟩

section Needle

variable (own : Opens opening needle) (opens : ∀ mark ∈ marks, Opens opening mark.2)
  (longest : ∀ mark ∈ marks, mark.2 <+: needle → mark.2 = needle)

include own opens longest

theorem joined_replaceMarks :
    joined (replaceMarks needle replacement marks tail).1
        (replaceMarks needle replacement marks tail).2 =
      replace needle replacement (joined marks tail) := by
  induction marks with
  | nil => rfl
  | cons mark marks ih =>
      obtain ⟨first, opens⟩ := List.forall_mem_cons.mp opens
      obtain ⟨firstLongest, longest⟩ := List.forall_mem_cons.mp longest
      obtain ⟨before, behind⟩ := own.apart first firstLongest marks tail
      rw [joined_cons, replace_append before, replace_append behind, replace_label own first,
        ← ih opens longest, replaceMarks]
      split
      · rw [joined_prepend]
        simp only [List.append_assoc]
      · rfl

/-- Every label that is the needle is an occurrence, and there are no others where the needle is
free. -/
theorem occurrences_joined :
    (marks.map Prod.snd).count needle ≤ occurrences needle (joined marks tail) ∧
      (occurrences needle (joined marks tail) = (marks.map Prod.snd).count needle ↔
        Free needle marks tail) := by
  have absent (text : List α) := @occurrences_eq_zero_iff _ needle text _ own.ne_nil
  induction marks with
  | nil => exact ⟨Nat.zero_le _, (absent tail).trans (by simp [Free])⟩
  | cons mark marks ih =>
      obtain ⟨first, opens⟩ := List.forall_mem_cons.mp opens
      obtain ⟨firstLongest, longest⟩ := List.forall_mem_cons.mp longest
      obtain ⟨before, behind⟩ := own.apart first firstLongest marks tail
      obtain ⟨least, free⟩ := ih opens longest
      have gap := absent mark.1
      have free_cons : Free needle (mark :: marks) tail ↔
          (¬needle <:+: mark.1 ∧ (needle <+: mark.2 → mark.2 = needle)) ∧
            Free needle marks tail := by
        simp only [Free, List.forall_mem_cons]
        tauto
      rw [joined_cons, occurrences_append before, occurrences_append behind,
        occurrences_label own first, free_cons, ← free, ← gap, List.map_cons, List.count_cons]
      by_cases same : mark.2 = needle
      · have begins : needle <+: mark.2 := same ▸ List.prefix_rfl
        simp only [same, List.prefix_rfl, if_true, beq_self_eq_true, implies_true, and_true]
        omega
      · simp only [same, beq_iff_eq, if_false]
        split
        case isTrue begins =>
          simp only [begins, true_imp_iff, and_false, false_and, iff_false]
          omega
        case isFalse apart =>
          simp only [apart, false_imp_iff, and_true]
          omega

end Needle

section Order

variable {paste : List α × List α}

omit [DecidableEq α] in
theorem opens_marks (opens : ∀ paste ∈ pastes, Opens opening paste.1)
    (labels : ∀ mark ∈ marks, mark.2 ∈ pastes.map Prod.fst) :
    ∀ mark ∈ marks, Opens opening mark.2 := by
  intro mark member
  obtain ⟨paste, pending, same⟩ := List.mem_map.mp (labels mark member)
  exact same ▸ opens paste pending

omit [DecidableEq α] in
/-- No label begins the one that is replaced first. -/
theorem longest_marks (against : ∀ later ∈ pastes, ¬later.1 <+: paste.1)
    (labels : ∀ mark ∈ marks, mark.2 ∈ (paste :: pastes).map Prod.fst) :
    ∀ mark ∈ marks, mark.2 <+: paste.1 → mark.2 = paste.1 := by
  intro mark member begins
  obtain same | later := List.mem_cons.mp (labels mark member)
  · exact same
  · obtain ⟨other, pending, same⟩ := List.mem_map.mp later
    exact absurd (same ▸ begins) (against other pending)

omit [DecidableEq α] in
theorem nodup_labels (against : pastes.Pairwise fun paste later => ¬later.1 <+: paste.1) :
    (pastes.map Prod.fst).Nodup := by
  refine List.pairwise_map.mpr (against.imp fun {paste later} apart same => apart ?_)
  rw [same]

theorem lookup_of_mem (distinct : (pastes.map Prod.fst).Nodup) (member : paste ∈ pastes) :
    pastes.lookup paste.1 = some paste.2 := by
  induction pastes with
  | nil => cases member
  | cons first pastes ih =>
      obtain ⟨fresh, distinct⟩ := List.nodup_cons.mp distinct
      obtain rfl | later := List.mem_cons.mp member
      · exact List.lookup_cons_self
      · have other : paste.1 ≠ first.1 := fun same =>
          fresh (same ▸ List.mem_map_of_mem later)
        rw [List.lookup_cons, beq_false_of_ne other]
        exact ih distinct later

omit [DecidableEq α] in
/-- The labels that begin with the one that is replaced are of its size. -/
theorem sizes_marks
    (against : ∀ later ∈ pastes, paste.1 <+: later.1 → paste.2.length = later.2.length)
    (labels : ∀ mark ∈ marks, mark.2 ∈ (paste :: pastes).map Prod.fst)
    (sizes : ∀ other ∈ paste :: pastes, size other.1 = other.2.length) :
    ∀ mark ∈ marks, paste.1 <+: mark.2 → size mark.2 = paste.2.length := by
  intro mark member begins
  obtain same | later := List.mem_cons.mp (labels mark member)
  · rw [same, sizes paste List.mem_cons_self]
  · obtain ⟨other, pending, same⟩ := List.mem_map.mp later
    rw [← same, sizes other (List.mem_cons_of_mem _ pending), against other pending (same ▸ begins)]

/-- The label that is replaced is gone. -/
theorem mem_labels_replaceMarks
    (labels : ∀ mark ∈ marks, mark.2 ∈ (paste :: pastes).map Prod.fst) (tail : List α) :
    ∀ mark ∈ (replaceMarks paste.1 paste.2 marks tail).1, mark.2 ∈ pastes.map Prod.fst := by
  intro mark member
  have kept : mark.2 ∈ (replaceMarks paste.1 paste.2 marks tail).1.map Prod.snd :=
    List.mem_map_of_mem member
  rw [labels_replaceMarks, List.mem_filter] at kept
  obtain ⟨⟨old, there, same⟩, apart⟩ := And.imp_left List.mem_map.mp kept
  obtain whole | later := List.mem_cons.mp (labels old there)
  · rw [← same, whole] at apart
    simp at apart
  · exact same ▸ later

variable (opens : ∀ paste ∈ pastes, Opens opening paste.1)
  (longer : ∀ paste ∈ pastes, paste.1.length < paste.2.length)
  (ordered : pastes.Pairwise fun paste later =>
    ¬later.1 <+: paste.1 ∧ (paste.1 <+: later.1 → paste.2.length = later.2.length))

include opens longer ordered

/-- However much the replacements destroy, the text gets as long as it is heavy. -/
theorem weight_le_foldl_replace (labels : ∀ mark ∈ marks, mark.2 ∈ pastes.map Prod.fst)
    (sizes : ∀ paste ∈ pastes, size paste.1 = paste.2.length) :
    weight size marks tail ≤
      (pastes.foldl (fun text paste => replace paste.1 paste.2 text)
        (joined marks tail)).length := by
  induction pastes generalizing marks tail with
  | nil =>
      obtain rfl : marks = [] := List.eq_nil_iff_forall_not_mem.mpr fun mark member =>
        List.not_mem_nil (labels mark member)
      exact le_rfl
  | cons paste pastes ih =>
      have own := opens paste List.mem_cons_self
      obtain ⟨first, longer⟩ := List.forall_mem_cons.mp longer
      obtain ⟨against, ordered⟩ := List.pairwise_cons.mp ordered
      have longest := longest_marks (fun later pending => (against later pending).1) labels
      have replaced := sizes_marks (fun later pending => (against later pending).2) labels sizes
      rw [List.foldl_cons, ← joined_replaceMarks own (opens_marks opens labels) longest]
      exact (weight_replaceMarks first own.ne_nil replaced tail).1.trans
        (ih (fun later pending => opens later (List.mem_cons_of_mem _ pending)) longer
          ordered (mem_labels_replaceMarks labels tail)
          fun later pending => sizes later (List.mem_cons_of_mem _ pending))

/-- Replacing labels one after the other is replacing every one where it stands, exactly when every
label, when its turn comes, occurs only once. -/
theorem foldl_replace_eq_inlined_iff (labels : (marks.map Prod.snd).Perm (pastes.map Prod.fst)) :
    pastes.foldl (fun text paste => replace paste.1 paste.2 text) (joined marks tail) =
        inlined pastes marks tail ↔
      ∀ earlier paste later, pastes = earlier ++ paste :: later →
        occurrences paste.1 (inlined earlier marks tail) = 1 := by
  induction pastes generalizing marks tail with
  | nil =>
      obtain rfl : marks = [] := List.map_eq_nil_iff.mp (List.perm_nil.mp labels)
      refine iff_of_true rfl fun earlier paste later split => ?_
      exact absurd split (by simp)
  | cons paste pastes ih =>
      have distinct := nodup_labels (ordered.imp And.left)
      have own := opens paste List.mem_cons_self
      obtain ⟨against, ordered'⟩ := List.pairwise_cons.mp ordered
      have among : ∀ mark ∈ marks, mark.2 ∈ (paste :: pastes).map Prod.fst := fun mark member =>
        labels.subset (List.mem_map_of_mem member)
      have marksOpen := opens_marks opens among
      have longest := longest_marks (fun later pending => (against later pending).1) among
      have once : (marks.map Prod.snd).count paste.1 = 1 :=
        List.count_eq_one_of_mem (labels.nodup_iff.mpr distinct)
          (labels.mem_iff.mpr List.mem_cons_self)
      have free_iff : occurrences paste.1 (joined marks tail) = 1 ↔ Free paste.1 marks tail :=
        once ▸ (occurrences_joined own marksOpen longest).2
      by_cases free : Free paste.1 marks tail
      · -- The label is replaced where it stands, and the others are left.
        have shorter : ((replaceMarks paste.1 paste.2 marks tail).1.map Prod.snd).Perm
            (pastes.map Prod.fst) := by
          have kept := labels.filter fun label => decide ¬paste.1 <+: label
          rw [labels_replaceMarks]
          refine kept.trans (List.Perm.of_eq ?_)
          rw [List.map_cons, List.filter_cons_of_neg (by simp)]
          refine List.filter_eq_self.mpr fun label member => ?_
          obtain ⟨mark, there, same⟩ :=
            List.mem_map.mp (labels.symm.subset (List.mem_cons_of_mem _ member))
          refine decide_eq_true fun begins => (List.nodup_cons.mp distinct).1 ?_
          rw [← (free.2 mark there).2 (same ▸ begins), same]
          exact member
        rw [List.foldl_cons, ← joined_replaceMarks own marksOpen longest,
          ← inlined_replaceMarks free,
          ih (fun later pending => opens later (List.mem_cons_of_mem _ pending))
            (fun later pending => longer later (List.mem_cons_of_mem _ pending)) ordered' shorter]
        constructor
        · intro each earlier other later split
          cases earlier with
          | nil =>
              obtain ⟨rfl, -⟩ := List.cons_eq_cons.mp split
              exact free_iff.mpr free
          | cons first earlier =>
              obtain ⟨rfl, rest⟩ := List.cons_eq_cons.mp split
              rw [← inlined_replaceMarks free]
              exact each earlier other later rest
        · intro each earlier other later split
          rw [inlined_replaceMarks free]
          exact each (paste :: earlier) other later (by rw [split, List.cons_append])
      · -- Another occurrence is replaced too, and the text gets too long.
        refine iff_of_false (fun same => ?_) fun each => free (free_iff.mp ?_)
        · let size : List α → ℕ := fun label => (((paste :: pastes).lookup label).getD label).length
          have sizes : ∀ other ∈ paste :: pastes, size other.1 = other.2.length := by
            intro other member
            exact congrArg (fun found => (Option.getD found other.1).length)
              (lookup_of_mem distinct member)
          have replaced := sizes_marks (fun later pending => (against later pending).2) among sizes
          obtain ⟨heavier, strict⟩ :=
            weight_replaceMarks (longer paste List.mem_cons_self) own.ne_nil replaced tail
          have long := @weight_le_foldl_replace _ _ opening pastes _
            (replaceMarks paste.1 paste.2 marks tail).2 size
            (fun later pending => opens later (List.mem_cons_of_mem _ pending))
            (fun later pending => longer later (List.mem_cons_of_mem _ pending)) ordered'
            (mem_labels_replaceMarks among tail)
            (fun later pending => sizes later (List.mem_cons_of_mem _ pending))
          rw [joined_replaceMarks own marksOpen longest] at long
          have lengths := congrArg List.length same
          rw [length_inlined, List.foldl_cons] at lengths
          exact free (strict (heavier.antisymm (long.trans lengths.le)))
        · exact each [] paste pastes rfl

end Order

end Marks

end Replacing
