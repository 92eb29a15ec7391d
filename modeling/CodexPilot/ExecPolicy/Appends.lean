import CodexPilot.Library.FirstCome
import CodexPilot.RustStd.Text
import Mathlib.Tactic.IntervalCases

/-!
# Appending rules to a policy file

A rule is appended under the lock of the file, unless the file has it as a line.  Whatever the order
of the appends, the file keeps what it had, and has each rule once, unless it ends in one of the
rules and a bare carriage return.
-/

namespace CodexPilot.ExecPolicy

open RustStd Text FirstOccurrences

/-! ## Rule lines -/

/-- `serde_json::to_string`, for one character of a string. -/
def escapeChar (c : Char) : Text :=
  if c = '"' then ['\\', '"']
  else if c = '\\' then ['\\', '\\']
  else if c = '\n' then ['\\', 'n']
  else if c = '\r' then ['\\', 'r']
  else if c = '\t' then ['\\', 't']
  else if c = '\x08' then ['\\', 'b']
  else if c = '\x0c' then ['\\', 'f']
  else if c.toNat < 0x20 then
    ['\\', 'u', '0', '0', Nat.digitChar (c.toNat / 16), Nat.digitChar (c.toNat % 16)]
  else [c]

/-- `serde_json::to_string`, for a string. -/
def jsonString (text : Text) : Text := ['"'] ++ text.flatMap escapeChar ++ ['"']

/-- A line that is appended: it holds no line feed, and ends in something else than a carriage
return. -/
structure RuleLine where
  text : Text
  noNewline : '\n' ∉ text
  ending : ∃ c, text.getLast? = some c ∧ c ≠ '\r'

instance : DecidableEq RuleLine := fun left right =>
  decidable_of_iff (left.text = right.text)
    ⟨fun same => by
      obtain ⟨text, noNewline, ending⟩ := left
      obtain ⟨text', noNewline', ending'⟩ := right
      cases same
      rfl, fun same => same ▸ rfl⟩

theorem newline_notMem_escapeChar (c : Char) : '\n' ∉ escapeChar c := by
  have digit (n : ℕ) (small : n < 16) : '\n' ≠ Nat.digitChar n := by
    interval_cases n <;> decide
  rw [escapeChar]
  split_ifs with quote slash newline cr tab backspace feed control
  · decide
  · decide
  · decide
  · decide
  · decide
  · decide
  · decide
  · have high := digit (c.toNat / 16) (by omega)
    have low := digit (c.toNat % 16) (by omega)
    simp [high, low]
  · simpa using Ne.symm newline

theorem newline_notMem_jsonString (text : Text) : '\n' ∉ jsonString text := by
  simp [jsonString, newline_notMem_escapeChar]

theorem newline_notMem_join {separator : Text} {pieces : List Text} (apart : '\n' ∉ separator)
    (clean : ∀ piece ∈ pieces, '\n' ∉ piece) : '\n' ∉ join separator pieces := by
  induction pieces using List.reverseRecOn with
  | nil => simp [join]
  | append_singleton pieces last _ =>
      rw [join_concat, List.mem_append, List.mem_flatMap]
      rintro (⟨piece, member, among⟩ | among)
      · obtain inPiece | inSeparator := List.mem_append.mp among
        · exact clean piece (List.mem_append_left _ member) inPiece
        · exact apart inSeparator
      · exact clean last (List.mem_append_right _ (List.mem_singleton_self last)) among

/-- The rule of `blocking_append_allow_prefix_rule`. -/
def allowPrefixRule (tokens : List Text) : RuleLine where
  text := "prefix_rule(pattern=[".toList ++ join ", ".toList (tokens.map jsonString) ++
    "], decision=\"allow\")".toList
  noNewline := by
    have clean : '\n' ∉ join ", ".toList (tokens.map jsonString) := by
      refine newline_notMem_join (by decide) fun piece member => ?_
      obtain ⟨token, -, rfl⟩ := List.mem_map.mp member
      exact newline_notMem_jsonString token
    exact List.not_mem_append (List.not_mem_append (by decide) clean) (by decide)
  ending := ⟨')', by rw [List.getLast?_append]; rfl, by decide⟩

/-- The rule of `blocking_append_network_rule`. -/
def networkRule (host protocol decision : Text) (justification : Option Text) : RuleLine where
  text :=
    let arguments :=
      ["host=".toList ++ jsonString host, "protocol=".toList ++ jsonString protocol,
        "decision=".toList ++ jsonString decision] ++
        (justification.map fun text => "justification=".toList ++ jsonString text).toList
    "network_rule(".toList ++ join ", ".toList arguments ++ [')']
  noNewline := by
    have argument {name : Text} (clean : '\n' ∉ name) (text : Text) :
        '\n' ∉ name ++ jsonString text :=
      List.not_mem_append clean (newline_notMem_jsonString text)
    have clean : '\n' ∉ join ", ".toList
        (["host=".toList ++ jsonString host, "protocol=".toList ++ jsonString protocol,
          "decision=".toList ++ jsonString decision] ++
          (justification.map fun text => "justification=".toList ++ jsonString text).toList) := by
      refine newline_notMem_join (by decide) fun piece member => ?_
      obtain first | last := List.mem_append.mp member
      · rw [List.mem_cons, List.mem_cons, List.mem_singleton] at first
        obtain rfl | rfl | rfl := first
        · exact argument (by decide) host
        · exact argument (by decide) protocol
        · exact argument (by decide) decision
      · obtain ⟨text, -, rfl⟩ := Option.map_eq_some_iff.mp (Option.mem_toList.mp last)
        exact argument (by decide) text
    exact List.not_mem_append (List.not_mem_append (by decide) clean) (by decide)
  ending := ⟨')', by rw [List.getLast?_append]; rfl, by decide⟩

/-! ## Appends -/

/-- The contents with a line feed behind the last line. -/
def ended (contents : Text) : Text :=
  if contents ≠ [] ∧ ¬endsWith contents ['\n'] then contents ++ ['\n'] else contents

/-- `append_locked_line`. -/
def appendLockedLine (contents : Text) (line : RuleLine) : Text :=
  if (lines contents).any (· == line.text) then contents
  else ended contents ++ (line.text ++ ['\n'])

/-- The critical sections of all writers, in the order in which they get the lock. -/
def appendAll (contents : Text) (rules : List RuleLine) : Text :=
  rules.foldl appendLockedLine contents

/-- The contents end with a line feed, or are empty. -/
def Ended (contents : Text) : Prop := contents = [] ∨ ∃ front, contents = front ++ ['\n']

/-- Whole lines, each with its line feed. -/
def complete (added : List Text) : Text := added.flatMap (· ++ ['\n'])

section Lines

variable {contents last : Text} {body : List Text} {rule first : RuleLine} {rules : List RuleLine}

theorem appendLockedLine_of_mem (present : rule.text ∈ lines contents) :
    appendLockedLine contents rule = contents := by
  have found : (lines contents).any (· == rule.text) = true := by simpa using present
  rw [appendLockedLine, if_pos found]

theorem appendLockedLine_of_not_mem (absent : rule.text ∉ lines contents) :
    appendLockedLine contents rule = ended contents ++ (rule.text ++ ['\n']) := by
  have missing : ¬(lines contents).any (· == rule.text) = true := by simpa using absent
  rw [appendLockedLine, if_neg missing]

theorem RuleLine.stripCr_text (rule : RuleLine) : stripCr rule.text = rule.text := by
  obtain ⟨c, last, notReturn⟩ := rule.ending
  exact stripCr_of_getLast?_ne (by simp [last, notReturn])

theorem ended_of_ended (isEnded : Ended contents) : ended contents = contents := by
  rw [ended, if_neg]
  rintro ⟨nonempty, unended⟩
  obtain rfl | ⟨front, rfl⟩ := isEnded
  · exact nonempty rfl
  · exact unended (List.isSuffixOf_iff_suffix.mpr (List.suffix_append front ['\n']))

theorem ended_ended (contents : Text) : Ended (ended contents) := by
  rw [ended]
  split
  case isTrue => exact .inr ⟨contents, rfl⟩
  case isFalse terminated =>
    obtain rfl | nonempty := eq_or_ne contents []
    · exact .inl rfl
    · have suffix : endsWith contents ['\n'] = true := by
        by_contra apart
        exact terminated ⟨nonempty, apart⟩
      obtain ⟨front, rfl⟩ := List.isSuffixOf_iff_suffix.mp suffix
      exact .inr ⟨front, rfl⟩

theorem lines_nil : lines [] = [] := rfl

/-- A rule behind contents that are ended is a line of its own. -/
theorem lines_append_rule (isEnded : Ended contents) (rule : RuleLine) :
    lines (contents ++ (rule.text ++ ['\n'])) = lines contents ++ [rule.text] := by
  have own : lines (rule.text ++ ['\n']) = [rule.text] := by
    rw [lines_append_newline, List.splitOn_eq_singleton rule.noNewline, lines_nil]
    simp [rule.stripCr_text]
  obtain rfl | ⟨front, rfl⟩ := isEnded
  · rw [lines_nil, List.nil_append, List.nil_append, own]
  · have before : lines (front ++ ['\n']) = (front.splitOn '\n').map stripCr := by
      rw [lines_append_newline, lines_nil, List.append_nil]
    rw [List.append_assoc, List.singleton_append, lines_append_newline, own, before]

/-- The contents in front of their last piece. -/
theorem eq_of_splitOn (pieces : contents.splitOn '\n' = body ++ [last]) :
    contents = complete body ++ last := by
  have joined : join ['\n'] (contents.splitOn '\n') = contents := List.intercalate_splitOn '\n'
  rw [pieces] at joined
  rw [← joined]
  exact join_concat ['\n'] last body

/-- The line feed behind the last line makes a carriage return before it part of the ending. -/
theorem lines_ended (pieces : contents.splitOn '\n' = body ++ [last]) :
    lines (ended contents) = body.map stripCr ++ if last = [] then [] else [stripCr last] := by
  have whole := eq_of_splitOn pieces
  split
  case isTrue empty =>
    have isEnded : Ended contents := by
      rw [whole, empty, List.append_nil]
      obtain rfl | ⟨front, final, rfl⟩ := List.eq_nil_or_concat' body
      · exact .inl rfl
      · exact .inr ⟨complete front ++ final, by simp [complete]⟩
    rw [ended_of_ended isEnded, lines_of_splitOn pieces, if_pos empty]
  case isFalse nonempty =>
    have clean : '\n' ∉ last := separator_not_mem_splitOn (pieces ▸ List.mem_concat_self)
    have unended : ¬endsWith contents ['\n'] = true := by
      intro suffix
      obtain ⟨front, same⟩ := List.isSuffixOf_iff_suffix.mp suffix
      have final : contents.getLast? = some '\n' := by rw [← same, List.getLast?_concat]
      rw [whole, List.getLast?_append_of_ne_nil _ nonempty] at final
      exact clean (List.mem_of_getLast? final)
    have notEmpty : contents ≠ [] := by
      rw [whole]
      exact List.append_ne_nil_of_right_ne_nil _ nonempty
    rw [ended, if_pos ⟨notEmpty, unended⟩, lines_append_newline, lines_nil, pieces]
    simp

/-- The texts of the rules. -/
def texts (rules : List RuleLine) : List Text := rules.map RuleLine.text

theorem complete_cons (line : Text) (added : List Text) :
    complete (line :: added) = line ++ ['\n'] ++ complete added :=
  rfl

/-! ### Runs of appends -/

theorem appendAll_of_known (known : texts rules ⊆ lines contents) :
    appendAll contents rules = contents := by
  induction rules with
  | nil => rfl
  | cons rule rules ih =>
      have present : rule.text ∈ lines contents := known List.mem_cons_self
      rw [appendAll, List.foldl_cons, appendLockedLine_of_mem present]
      exact ih fun line member => known (List.mem_cons_of_mem _ member)

/-- Behind contents that are ended, the rules that are not lines yet are appended. -/
theorem appendAll_of_ended (isEnded : Ended contents) (rules : List RuleLine) :
    appendAll contents rules = contents ++ complete (fresh (lines contents) (texts rules)) ∧
      lines (appendAll contents rules) =
        lines contents ++ fresh (lines contents) (texts rules) := by
  induction rules generalizing contents with
  | nil => simp [appendAll, texts, fresh, complete]
  | cons rule rules ih =>
      rw [appendAll, List.foldl_cons, texts, List.map_cons, fresh]
      split
      case isTrue present =>
        rw [appendLockedLine_of_mem present]
        exact ih isEnded
      case isFalse absent =>
        rw [appendLockedLine_of_not_mem absent]
        have grown := lines_append_rule isEnded rule
        have grownEnded : Ended (contents ++ (rule.text ++ ['\n'])) :=
          .inr ⟨contents ++ rule.text, by simp⟩
        obtain ⟨whole, all⟩ := ih grownEnded
        rw [grown] at whole all
        rw [ended_of_ended isEnded]
        refine ⟨whole.trans ?_, all.trans ?_⟩
        · rw [complete_cons, List.append_assoc, List.append_assoc, List.append_assoc]
          rfl
        · rw [List.append_assoc]
          rfl

/-- The first rule that is not a line yet ends the last line of the contents; from there on the
rules that are not lines yet are appended. -/
theorem appendAll_of_fresh (unknown : ¬texts rules ⊆ lines contents) :
    ∃ seen first rest, rules = seen ++ first :: rest ∧ texts seen ⊆ lines contents ∧
      first.text ∉ lines contents ∧
      appendAll contents rules = ended contents ++ complete
        (first.text :: fresh (lines (ended contents) ++ [first.text]) (texts rest)) ∧
      lines (appendAll contents rules) = lines (ended contents) ++
        first.text :: fresh (lines (ended contents) ++ [first.text]) (texts rest) := by
  induction rules with
  | nil => exact absurd (List.nil_subset _) unknown
  | cons rule rules ih =>
      by_cases present : rule.text ∈ lines contents
      · have later : ¬texts rules ⊆ lines contents := fun known =>
          unknown (List.cons_subset.mpr ⟨present, known⟩)
        obtain ⟨seen, first, rest, split, known, absent, whole, all⟩ := ih later
        refine ⟨rule :: seen, first, rest, by rw [split]; rfl,
          List.cons_subset.mpr ⟨present, known⟩, absent, ?_⟩
        rw [appendAll, List.foldl_cons, appendLockedLine_of_mem present]
        exact ⟨whole, all⟩
      · have grown := lines_append_rule (ended_ended contents) rule
        have grownEnded : Ended (ended contents ++ (rule.text ++ ['\n'])) :=
          .inr ⟨ended contents ++ rule.text, by simp⟩
        obtain ⟨whole, all⟩ := appendAll_of_ended grownEnded rules
        rw [grown] at whole all
        refine ⟨[], rule, rules, rfl, List.nil_subset _, present, ?_⟩
        rw [appendAll, List.foldl_cons, appendLockedLine_of_not_mem present]
        refine ⟨whole.trans ?_, all.trans ?_⟩
        · rw [complete_cons, List.append_assoc]
        · rw [List.append_assoc]
          rfl

/-! ### Lines of the file -/

/-- The contents end in one of the rules and a bare carriage return, and lack one of the rules. -/
def EndsInReturn (contents : Text) (rules : List RuleLine) : Prop :=
  (∃ rule ∈ rules, (contents.splitOn '\n').getLast? = some (rule.text ++ ['\r'])) ∧
    ¬texts rules ⊆ lines contents

/-- What the appends of the rules leave, in whatever order the rules come. -/
structure Durable (contents : Text) (rules : List RuleLine) : Prop where
  kept : ∀ order, order.Perm rules → ∃ separator added,
    (separator = [] ∨ separator = ['\n']) ∧ added ⊆ texts rules ∧
      appendAll contents order = contents ++ separator ++ complete added
  once : ∀ order, order.Perm rules → ∀ rule ∈ rules,
    (lines (appendAll contents order)).count rule.text =
      if rule.text ∈ lines contents then (lines contents).count rule.text else 1
  apart : ∀ order, order.Perm rules → ∀ piece ∈ (appendAll contents order).splitOn '\n',
    piece ∈ contents.splitOn '\n' ∨ piece = [] ∨ piece ∈ texts rules
  same : ∀ order, order.Perm rules → ∀ line,
    line ∈ lines (appendAll contents order) ↔ line ∈ lines (appendAll contents rules)

theorem texts_subset_of_perm {order : List RuleLine} (permuted : order.Perm rules) :
    texts order ⊆ texts rules :=
  List.map_subset _ permuted.subset

theorem exists_ended (contents : Text) :
    ∃ separator, (separator = [] ∨ separator = ['\n']) ∧
      ended contents = contents ++ separator := by
  rw [ended]
  split
  case isTrue => exact ⟨['\n'], .inr rfl, rfl⟩
  case isFalse => exact ⟨[], .inl rfl, (List.append_nil contents).symm⟩

/-- The appends leave the contents alone, or put whole rules behind them. -/
theorem appendAll_eq (contents : Text) (rules : List RuleLine) :
    appendAll contents rules = contents ∨ ∃ added, added ⊆ texts rules ∧
      appendAll contents rules = ended contents ++ complete added := by
  by_cases known : texts rules ⊆ lines contents
  · exact .inl (appendAll_of_known known)
  · obtain ⟨seen, first, rest, split, -, -, whole, -⟩ := appendAll_of_fresh known
    refine .inr ⟨_, fun line member => ?_, whole⟩
    rw [split, texts, List.map_append, List.map_cons]
    obtain rfl | later := List.mem_cons.mp member
    · exact List.mem_append_right _ List.mem_cons_self
    · exact List.mem_append_right _ (List.mem_cons_of_mem _ (mem_fresh.mp later).1)

theorem mem_splitOn_complete {added : List Text} (clean : ∀ line ∈ added, '\n' ∉ line)
    {piece : Text} (member : piece ∈ (complete added).splitOn '\n') :
    piece = [] ∨ piece ∈ added := by
  induction added with
  | nil => exact .inl (by simpa [complete] using member)
  | cons line added ih =>
      rw [complete_cons, List.append_assoc, List.singleton_append, List.splitOn_append_cons_self,
        List.splitOn_eq_singleton (clean line List.mem_cons_self), List.singleton_append] at member
      obtain rfl | later := List.mem_cons.mp member
      · exact .inr List.mem_cons_self
      · obtain empty | among := ih
          (fun line member => clean line (List.mem_cons_of_mem _ member)) later
        · exact .inl empty
        · exact .inr (List.mem_cons_of_mem _ among)

theorem newline_notMem_of_mem_texts {line : Text} (member : line ∈ texts rules) : '\n' ∉ line := by
  obtain ⟨rule, -, rfl⟩ := List.mem_map.mp member
  exact rule.noNewline

theorem mem_splitOn_concat {front behind piece : Text}
    (member : piece ∈ (front ++ '\n' :: behind).splitOn '\n') :
    piece ∈ front.splitOn '\n' ∨ piece ∈ behind.splitOn '\n' := by
  rw [List.splitOn_append_cons_self] at member
  exact List.mem_append.mp member

/-- The pieces of the file are those of the contents and the rules. -/
theorem mem_splitOn_appendAll {piece : Text}
    (member : piece ∈ (appendAll contents rules).splitOn '\n') :
    piece ∈ contents.splitOn '\n' ∨ piece = [] ∨ piece ∈ texts rules := by
  obtain unchanged | ⟨added, among, whole⟩ := appendAll_eq contents rules
  · rw [unchanged] at member
    exact .inl member
  · have behind (inComplete : piece ∈ (complete added).splitOn '\n') :
        piece = [] ∨ piece ∈ texts rules := by
      have clean : ∀ line ∈ added, '\n' ∉ line := fun line inAdded =>
        newline_notMem_of_mem_texts (among inAdded)
      obtain empty | inAdded := mem_splitOn_complete clean inComplete
      · exact .inl empty
      · exact .inr (among inAdded)
    rw [whole] at member
    by_cases isEnded : Ended contents
    · rw [ended_of_ended isEnded] at member
      obtain rfl | ⟨front, rfl⟩ := isEnded
      · exact .inr (behind member)
      · rw [List.append_assoc, List.singleton_append] at member
        obtain inFront | inComplete := mem_splitOn_concat member
        · rw [List.splitOn_append_cons_self]
          exact .inl (List.mem_append_left _ inFront)
        · exact .inr (behind inComplete)
    · obtain ⟨separator, rfl | rfl, grown⟩ := exists_ended contents
      · rw [List.append_nil] at grown
        exact absurd (grown ▸ ended_ended contents) isEnded
      · rw [grown, List.append_assoc, List.singleton_append] at member
        obtain inContents | inComplete := mem_splitOn_concat member
        · exact .inl inContents
        · exact .inr (behind inComplete)

/-- The last piece apart, the line feed behind the last line changes no line. -/
theorem count_lines_ended (rule : RuleLine) :
    (lines (ended contents)).count rule.text = (lines contents).count rule.text +
      if (contents.splitOn '\n').getLast? = some (rule.text ++ ['\r']) then 1 else 0 := by
  obtain empty | ⟨body, last, pieces⟩ := List.eq_nil_or_concat' (contents.splitOn '\n')
  · exact absurd empty (List.splitOn_ne_nil '\n' contents)
  · rw [lines_ended pieces, lines_of_splitOn pieces, pieces, List.getLast?_concat,
      List.count_append, List.count_append]
    simp only [Option.some_inj]
    obtain rfl | nonempty := eq_or_ne last []
    · simp
    · rw [if_neg nonempty, if_neg nonempty, List.count_singleton, List.count_singleton]
      obtain ⟨noReturn, same⟩ | ⟨front, rfl, stripped⟩ := stripCr_cases last
      · have apart : last ≠ rule.text ++ ['\r'] := by
          rintro rfl
          exact noReturn (by simp)
        rw [same, if_neg apart, Nat.add_zero]
      · have apart : front ++ ['\r'] ≠ rule.text := by
          intro same
          obtain ⟨c, final, notReturn⟩ := rule.ending
          rw [← same, List.getLast?_concat] at final
          exact notReturn (Option.some_inj.mp final).symm
        rw [stripped]
        simp only [List.append_cancel_right_eq, beq_iff_eq, apart, if_false, Nat.add_zero]

theorem mem_lines_ended (rule : RuleLine) (present : rule.text ∈ lines contents) :
    rule.text ∈ lines (ended contents) := by
  have counted := List.count_pos_iff.mpr present
  have grown : (lines (ended contents)).count rule.text = (lines contents).count rule.text + _ :=
    count_lines_ended rule
  exact List.count_pos_iff.mp (by omega)

/-- As soon as one rule is new, the lines are those of the ended contents and the rules. -/
theorem mem_lines_appendAll (unknown : ¬texts rules ⊆ lines contents) {line : Text} :
    line ∈ lines (appendAll contents rules) ↔
      line ∈ lines (ended contents) ∨ line ∈ texts rules := by
  obtain ⟨seen, first, rest, rfl, known, -, -, all⟩ := appendAll_of_fresh unknown
  have parts : texts (seen ++ first :: rest) = texts seen ++ first.text :: texts rest := by
    simp [texts]
  rw [all, parts, List.mem_append, List.mem_append, List.mem_cons, List.mem_cons, mem_fresh,
    List.mem_append, List.mem_singleton]
  refine ⟨?_, ?_⟩
  · rintro (before | isFirst | ⟨inRest, -⟩)
    · exact .inl before
    · exact .inr (.inr (.inl isFirst))
    · exact .inr (.inr (.inr inRest))
  · rintro (before | inSeen | isFirst | inRest)
    · exact .inl before
    · obtain ⟨rule, -, rfl⟩ := List.mem_map.mp inSeen
      exact .inl (mem_lines_ended rule (known inSeen))
    · exact .inr (.inl isFirst)
    · by_cases before : line ∈ lines (ended contents)
      · exact .inl before
      · by_cases isFirst : line = first.text
        · exact .inr (.inl isFirst)
        · exact .inr (.inr ⟨inRest, by simp [before, isFirst]⟩)

/-- When no rule shows up at the end of the contents, each rule is added once or not at all. -/
theorem count_lines_appendAll (unknown : ¬texts rules ⊆ lines contents)
    (unreturned : ∀ rule ∈ rules,
      (contents.splitOn '\n').getLast? ≠ some (rule.text ++ ['\r'])) (member : rule ∈ rules) :
    (lines (appendAll contents rules)).count rule.text =
      if rule.text ∈ lines contents then (lines contents).count rule.text else 1 := by
  have unmoved (rule : RuleLine) (member : rule ∈ rules) :
      (lines (ended contents)).count rule.text = (lines contents).count rule.text := by
    rw [count_lines_ended, if_neg (unreturned rule member), Nat.add_zero]
  have unmovedMem (rule : RuleLine) (member : rule ∈ rules) :
      rule.text ∈ lines (ended contents) ↔ rule.text ∈ lines contents := by
    rw [← List.count_pos_iff, ← List.count_pos_iff, unmoved rule member]
  obtain ⟨seen, first, rest, split, known, absent, -, all⟩ := appendAll_of_fresh unknown
  have isRule : first ∈ rules := by
    rw [split]
    exact List.mem_append_right _ List.mem_cons_self
  have refolded : first.text :: fresh (lines (ended contents) ++ [first.text]) (texts rest) =
      fresh (lines (ended contents)) (texts (first :: rest)) := by
    have unseen : first.text ∉ lines (ended contents) := by rwa [unmovedMem first isRule]
    rw [show texts (first :: rest) = first.text :: texts rest from rfl, fresh, if_neg unseen]
  rw [all, refolded, List.count_append, unmoved rule member]
  by_cases present : rule.text ∈ lines contents
  · have added : (fresh (lines (ended contents)) (texts (first :: rest))).count rule.text = 0 :=
      List.count_eq_zero.mpr fun taken =>
        (mem_fresh.mp taken).2 ((unmovedMem rule member).mpr present)
    rw [added, if_pos present, Nat.add_zero]
  · have later : rule.text ∈ texts (first :: rest) := by
      rw [split] at member
      obtain inSeen | inRest := List.mem_append.mp member
      · exact absurd (known (List.mem_map_of_mem inSeen)) present
      · exact List.mem_map_of_mem inRest
    rw [count_fresh later, if_neg (mt (unmovedMem rule member).mp present), if_neg present,
      List.count_eq_zero.mpr present]

end Lines

/-- The appends keep the contents and have each rule once, in every order, unless the contents end
in one of the rules and a bare carriage return: the first line feed that is appended makes that rule
a line, which is then there once more. -/
theorem durable_iff (contents : Text) (rules : List RuleLine) :
    Durable contents rules ↔ ¬EndsInReturn contents rules := by
  refine ⟨?_, fun unreturned => ⟨?_, ?_, ?_, ?_⟩⟩
  · rintro ⟨-, once, -, -⟩ ⟨⟨rule, member, final⟩, unknown⟩
    have shown :
        (lines (ended contents)).count rule.text = (lines contents).count rule.text + 1 := by
      rw [count_lines_ended, if_pos final]
    by_cases present : rule.text ∈ lines contents
    · obtain ⟨seen, first, rest, -, -, -, -, all⟩ := appendAll_of_fresh unknown
      have counted := once rules (List.Perm.refl rules) rule member
      rw [if_pos present, all, List.count_append] at counted
      omega
    · obtain ⟨before, behind, rfl⟩ := List.append_of_mem member
      have permuted : (rule :: (before ++ behind)).Perm (before ++ rule :: behind) :=
        List.perm_middle.symm
      have counted := once _ permuted rule member
      have unknownFirst : ¬texts (rule :: (before ++ behind)) ⊆ lines contents := fun known =>
        present (known List.mem_cons_self)
      obtain ⟨seen, first, rest, split, known, absent, -, all⟩ := appendAll_of_fresh unknownFirst
      have isFirst : first = rule := by
        cases seen with
        | nil => exact (List.cons.inj split).1.symm
        | cons head seen =>
            obtain ⟨rfl, -⟩ := List.cons.inj split
            exact absurd (known List.mem_cons_self) present
      subst isFirst
      rw [if_neg present, all, List.count_append, List.count_cons_self] at counted
      omega
  · intro order permuted
    obtain unchanged | ⟨added, among, whole⟩ := appendAll_eq contents order
    · exact ⟨[], [], .inl rfl, List.nil_subset _, by simpa [complete] using unchanged⟩
    · obtain ⟨separator, isSeparator, grown⟩ := exists_ended contents
      refine ⟨separator, added, isSeparator, ?_, by rw [whole, grown]⟩
      exact fun line member => texts_subset_of_perm permuted (among member)
  · intro order permuted rule member
    have inOrder := permuted.mem_iff.mpr member
    by_cases known : texts order ⊆ lines contents
    · rw [appendAll_of_known known, if_pos (known (List.mem_map_of_mem inOrder))]
    · refine count_lines_appendAll known (fun other among final => ?_) inOrder
      refine unreturned ⟨⟨other, permuted.subset among, final⟩, fun every => known ?_⟩
      exact fun line member => every (texts_subset_of_perm permuted member)
  · intro order permuted piece member
    obtain inContents | empty | inOrder := mem_splitOn_appendAll member
    · exact .inl inContents
    · exact .inr (.inl empty)
    · exact .inr (.inr (texts_subset_of_perm permuted inOrder))
  · intro order permuted line
    by_cases known : texts rules ⊆ lines contents
    · have knownOrder : texts order ⊆ lines contents := fun line member =>
        known (texts_subset_of_perm permuted member)
      rw [appendAll_of_known known, appendAll_of_known knownOrder]
    · have unknownOrder : ¬texts order ⊆ lines contents := fun every =>
        known fun line member => every (texts_subset_of_perm permuted.symm member)
      rw [mem_lines_appendAll known, mem_lines_appendAll unknownOrder]
      have sameTexts : line ∈ texts order ↔ line ∈ texts rules :=
        (permuted.map RuleLine.text).mem_iff
      rw [sameTexts]

/-- A file that ends in the rule and a carriage return has the rule twice after the append. -/
theorem not_durable_returned :
    ¬Durable ((allowPrefixRule ["ls".toList]).text ++ ['\r']) [allowPrefixRule ["ls".toList]] := by
  rintro ⟨-, once, -, -⟩
  have counted := once _ (List.Perm.refl _) _ List.mem_cons_self
  revert counted
  decide

end CodexPilot.ExecPolicy
