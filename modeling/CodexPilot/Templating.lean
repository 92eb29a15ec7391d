import CodexPilot.Library.Tables
import CodexPilot.RustStd.Iter
import Mathlib.Algebra.Ring.Parity
import Mathlib.Data.Finset.Sort
import Mathlib.Data.List.Chain

/-!
# Templates

`parse` cuts a source into literals and placeholders; doubled delimiters stand for themselves.  A
template lists the names of its placeholders beside its segments, and the two agree by construction.
A list of segments can be written down and read back when no literal runs into the delimiter that
follows it.
-/

namespace CodexPilot.Templating

open RustStd Text Tables

/-! ## Segments -/

/-- Why a template is refused. -/
inductive TemplateParseError where
  | emptyPlaceholder (start : ℕ)
  | nestedPlaceholder (start : ℕ)
  | unmatchedClosingDelimiter (start : ℕ)
  | unterminatedPlaceholder (start : ℕ)

/-- Why values are refused. -/
inductive TemplateRenderError where
  | duplicateValue (name : Text)
  | extraValue (name : Text)
  | missingValue (name : Text)

/-- A piece of a template. -/
inductive Segment where
  | literal (text : Text)
  | placeholder (name : Text)
  deriving DecidableEq

/-- `push_literal`. -/
def pushLiteral (segments : List Segment) (literal : Text) : List Segment :=
  if literal = [] then segments
  else
    match segments.getLast? with
    | some (.literal existing) => segments.dropLast ++ [.literal (existing ++ literal)]
    | _ => segments ++ [.literal literal]

theorem placeholder_mem_pushLiteral {segments : List Segment} {literal name : Text} :
    .placeholder name ∈ pushLiteral segments literal ↔ .placeholder name ∈ segments := by
  rw [pushLiteral]
  split
  · rfl
  · split
    · rename_i existing last
      obtain ⟨front, rfl⟩ := List.getLast?_eq_some_iff.mp last
      simp
    · simp

theorem pushLiteral_concat (front : List Segment) (existing literal : Text) :
    pushLiteral (front ++ [.literal existing]) literal =
      front ++ [.literal (existing ++ literal)] := by
  rw [pushLiteral]
  split
  case isTrue nil => rw [nil, List.append_nil]
  case isFalse => simp

theorem pushLiteral_of_getLast?_ne {segments : List Segment} {literal : Text}
    (other : ∀ existing, segments.getLast? ≠ some (.literal existing)) (nonempty : literal ≠ []) :
    pushLiteral segments literal = segments ++ [.literal literal] := by
  rw [pushLiteral, if_neg nonempty]
  split
  · rename_i existing last
    exact absurd last (other existing)
  · rfl

theorem pushLiteral_pushLiteral (segments : List Segment) (left right : Text) :
    pushLiteral (pushLiteral segments left) right = pushLiteral segments (left ++ right) := by
  by_cases nonempty : left = []
  · rw [nonempty, List.nil_append]
    rfl
  by_cases last : ∃ existing, segments.getLast? = some (.literal existing)
  · obtain ⟨existing, last⟩ := last
    obtain ⟨front, rfl⟩ := List.getLast?_eq_some_iff.mp last
    simp only [pushLiteral_concat, List.append_assoc]
  · rw [not_exists] at last
    have wholeNonempty : left ++ right ≠ [] := List.append_ne_nil_of_left_ne_nil nonempty right
    rw [pushLiteral_of_getLast?_ne last nonempty, pushLiteral_concat,
      pushLiteral_of_getLast?_ne last wholeNonempty]

/-- `Template`, with the names of the placeholders among the segments. -/
@[ext]
structure Template where
  placeholders : Finset Text
  segments : List Segment
  mem_placeholders : ∀ name, name ∈ placeholders ↔ .placeholder name ∈ segments

namespace Template

/-- No segments yet. -/
def empty : Template := ⟨∅, [], by simp⟩

def pushLiteral (template : Template) (literal : Text) : Template where
  placeholders := template.placeholders
  segments := Templating.pushLiteral template.segments literal
  mem_placeholders name := by rw [placeholder_mem_pushLiteral, template.mem_placeholders]

/-- Append a placeholder. -/
def pushPlaceholder (template : Template) (name : Text) : Template where
  placeholders := insert name template.placeholders
  segments := template.segments ++ [.placeholder name]
  mem_placeholders other := by
    rw [Finset.mem_insert, template.mem_placeholders, List.mem_append, List.mem_singleton,
      Segment.placeholder.injEq, or_comm]

theorem pushLiteral_append (template : Template) (left right : Text) :
    (template.pushLiteral left).pushLiteral right = template.pushLiteral (left ++ right) :=
  Template.ext rfl (pushLiteral_pushLiteral template.segments left right)

end Template

/-! ## Parsing -/

def openDelimiter : Text := ['\x7b', '\x7b']

def closeDelimiter : Text := ['\x7d', '\x7d']

/-- The loop of `parse_placeholder`; `passed` is the source between the start and the cursor. -/
def parsePlaceholder (start : ℕ) (passed : Text) (cursor : ℕ) :
    Text → Except TemplateParseError (Text × ℕ × Text)
  | [] => .error (.unterminatedPlaceholder start)
  | c :: rest =>
      if startsWith (c :: rest) openDelimiter then .error (.nestedPlaceholder start)
      else if startsWith (c :: rest) closeDelimiter then
        if trim passed = [] then .error (.emptyPlaceholder start)
        else .ok (trim passed, cursor + 2, rest.drop 1)
      else parsePlaceholder start (passed ++ [c]) (cursor + c.utf8Size) rest

theorem length_of_parsePlaceholder {start cursor next : ℕ} {passed name rest after : Text}
    (found : parsePlaceholder start passed cursor rest = .ok (name, next, after)) :
    after.length ≤ rest.length := by
  induction rest generalizing passed cursor with
  | nil => cases found
  | cons c rest ih =>
      rw [parsePlaceholder] at found
      split at found
      · cases found
      · split at found
        · split at found
          · cases found
          · cases found
            rw [List.length_drop, List.length_cons]
            omega
        · exact (ih found).trans (Nat.le_succ _)

/-- The loop of `Template::parse`; `pending` is the source between `literal_start` and the
cursor. -/
def parseFrom (template : Template) (pending : Text) (cursor : ℕ) :
    Text → Except TemplateParseError Template
  | [] => .ok (template.pushLiteral pending)
  | c :: rest =>
      if startsWith (c :: rest) (openDelimiter ++ openDelimiter) then
        parseFrom ((template.pushLiteral pending).pushLiteral openDelimiter) [] (cursor + 4)
          (rest.drop 3)
      else if startsWith (c :: rest) (closeDelimiter ++ closeDelimiter) then
        parseFrom ((template.pushLiteral pending).pushLiteral closeDelimiter) [] (cursor + 4)
          (rest.drop 3)
      else if startsWith (c :: rest) openDelimiter then
        match _found : parsePlaceholder cursor [] (cursor + 2) (rest.drop 1) with
        | .error err => .error err
        | .ok (placeholder, next, after) =>
            parseFrom ((template.pushLiteral pending).pushPlaceholder placeholder) [] next after
      else if startsWith (c :: rest) closeDelimiter then
        .error (.unmatchedClosingDelimiter cursor)
      else parseFrom template (pending ++ [c]) (cursor + c.utf8Size) rest
termination_by rest => rest.length
decreasing_by
  · rw [List.length_drop, List.length_cons]
    omega
  · rw [List.length_drop, List.length_cons]
    omega
  · have shorter := length_of_parsePlaceholder _found
    rw [List.length_drop] at shorter
    rw [List.length_cons]
    omega
  · rw [List.length_cons]
    omega

/-- `Template::parse`. -/
def parse (source : Text) : Except TemplateParseError Template :=
  parseFrom Template.empty [] 0 source

/-! ## Rendering -/

def insertVariable (map : Table Text Text) (entry : Text × Text) :
    Except TemplateRenderError (Table Text Text) :=
  if entry.1 ∈ map then .error (.duplicateValue entry.1) else .ok (map.insert entry.1 entry.2)

/-- `build_variable_map`. -/
def buildVariableMap (given : List (Text × Text)) : Except TemplateRenderError (Table Text Text) :=
  given.foldlM insertVariable ∅

/-- One segment of `render`. -/
def renderSegment (map : Table Text Text) (rendered : Text) :
    Segment → Except TemplateRenderError Text
  | .literal literal => .ok (rendered ++ literal)
  | .placeholder name =>
      match map.lookup name with
      | none => .error (.missingValue name)
      | some value => .ok (rendered ++ value)

/-- The names of a set, in order. -/
def inOrder (names : Finset Text) : List Text :=
  @Finset.sort Text names (· ≤ ·) _ trans_text antisymm_text total_text

theorem mem_inOrder {names : Finset Text} {name : Text} : name ∈ inOrder names ↔ name ∈ names :=
  Finset.mem_sort _

/-- `Template::render`, after the map of the values has been built. -/
def Template.renderMap (template : Template) (map : Table Text Text) :
    Except TemplateRenderError Text :=
  match (inOrder template.placeholders).find? (· ∉ map) with
  | some placeholder => .error (.missingValue placeholder)
  | none =>
      match (inOrder map.keys.toFinset).find? (· ∉ template.placeholders) with
      | some name => .error (.extraValue name)
      | none => template.segments.foldlM (renderSegment map) []

/-- `Template::render`. -/
def Template.render (template : Template) (given : List (Text × Text)) :
    Except TemplateRenderError Text :=
  buildVariableMap given >>= template.renderMap

/-! ## One step of the parser -/

theorem startsWith_pair {c d : Char} {first second : Char} {rest : Text} :
    startsWith (c :: d :: rest) [first, second] = true ↔ c = first ∧ d = second := by
  rw [startsWith_iff, List.cons_prefix_cons, List.cons_prefix_cons, eq_comm, @eq_comm _ second]
  simp

/-- The source does not begin with a delimiter. -/
def Plain (source : Text) : Prop :=
  startsWith source openDelimiter = false ∧ startsWith source closeDelimiter = false

theorem plain_singleton (c : Char) : Plain [c] := ⟨Bool.and_false _, Bool.and_false _⟩

theorem plain_cons_cons {c d : Char} {rest : Text} :
    Plain (c :: d :: rest) ↔ ¬(c = d ∧ (c = '\x7b' ∨ c = '\x7d')) := by
  rw [Plain, openDelimiter, closeDelimiter, ← Bool.not_eq_true, ← Bool.not_eq_true,
    startsWith_pair, startsWith_pair]
  grind

theorem Plain.longer {source : Text} (plain : Plain source) :
    startsWith source (openDelimiter ++ openDelimiter) = false ∧
      startsWith source (closeDelimiter ++ closeDelimiter) = false := by
  simp only [Plain, ← Bool.not_eq_true, startsWith_iff] at plain ⊢
  exact ⟨fun begins => plain.1 ((List.prefix_append _ _).trans begins),
    fun begins => plain.2 ((List.prefix_append _ _).trans begins)⟩

section Steps

variable {template : Template} {pending : Text} {cursor : ℕ} {rest : Text}

theorem parseFrom_cons {c : Char} (plain : Plain (c :: rest)) :
    parseFrom template pending cursor (c :: rest) =
      parseFrom template (pending ++ [c]) (cursor + c.utf8Size) rest := by
  rw [parseFrom]
  simp only [plain.1, plain.2, plain.longer, Bool.false_eq_true, if_false]

theorem startsWith_append (marker : Text) : startsWith (marker ++ rest) marker = true :=
  startsWith_iff.mpr (List.prefix_append marker rest)

theorem parseFrom_open_open :
    parseFrom template pending cursor (openDelimiter ++ openDelimiter ++ rest) =
      parseFrom ((template.pushLiteral pending).pushLiteral openDelimiter) []
        (cursor + 4) rest := by
  have begins : startsWith ('\x7b' :: (['\x7b', '\x7b', '\x7b'] ++ rest))
      (openDelimiter ++ openDelimiter) = true := startsWith_append _
  change parseFrom _ _ _ (_ :: (['\x7b', '\x7b', '\x7b'] ++ rest)) = _
  rw [parseFrom, if_pos begins]
  rfl

theorem parseFrom_close_close :
    parseFrom template pending cursor (closeDelimiter ++ closeDelimiter ++ rest) =
      parseFrom ((template.pushLiteral pending).pushLiteral closeDelimiter) [] (cursor + 4)
        rest := by
  have begins : startsWith ('\x7d' :: (['\x7d', '\x7d', '\x7d'] ++ rest))
      (closeDelimiter ++ closeDelimiter) = true := startsWith_append _
  change parseFrom _ _ _ (_ :: (['\x7d', '\x7d', '\x7d'] ++ rest)) = _
  rw [parseFrom, if_neg, if_pos begins]
  · rfl
  · exact Bool.false_ne_true

theorem parseFrom_open {name after : Text} {next : ℕ}
    (single : startsWith rest openDelimiter = false)
    (found : parsePlaceholder cursor [] (cursor + 2) rest = .ok (name, next, after)) :
    parseFrom template pending cursor (openDelimiter ++ rest) =
      parseFrom ((template.pushLiteral pending).pushPlaceholder name) [] next after := by
  have begins : startsWith ('\x7b' :: (['\x7b'] ++ rest)) openDelimiter = true :=
    startsWith_append _
  have notTwice : ¬startsWith ('\x7b' :: (['\x7b'] ++ rest))
      (openDelimiter ++ openDelimiter) = true := by
    rw [startsWith_iff]
    intro twice
    have again : openDelimiter <+: rest := (List.prefix_append_right_inj openDelimiter).mp twice
    rw [← startsWith_iff, single] at again
    cases again
  have notClose : ¬startsWith ('\x7b' :: (['\x7b'] ++ rest))
      (closeDelimiter ++ closeDelimiter) = true := Bool.false_ne_true
  change parseFrom _ _ _ (_ :: (['\x7b'] ++ rest)) = _
  rw [parseFrom, if_neg notTwice, if_neg notClose, if_pos begins]
  change (match _found : parsePlaceholder cursor [] (cursor + 2) rest with
    | .error err => Except.error err
    | .ok (placeholder, next, after) =>
        parseFrom ((template.pushLiteral pending).pushPlaceholder placeholder) [] next after) = _
  rw [found]

/-- The name of a placeholder does not begin a delimiter, not with what follows it either. -/
theorem plain_name {c : Char} {name : Text} (openFree : ¬openDelimiter <:+: c :: name)
    (closeFree : ¬closeDelimiter <:+: c :: name) (noClose : (c :: name).getLast? ≠ some '\x7d')
    (rest : Text) : Plain (c :: (name ++ closeDelimiter ++ rest)) := by
  cases name with
  | nil =>
      refine plain_cons_cons.mpr ?_
      rintro ⟨rfl, -⟩
      exact noClose rfl
  | cons d name =>
      refine plain_cons_cons.mpr ?_
      rintro ⟨rfl, rfl | rfl⟩
      · exact openFree ⟨[], name, rfl⟩
      · exact closeFree ⟨[], name, rfl⟩

/-- The loop over the name of a placeholder. -/
theorem parsePlaceholder_append {start : ℕ} {passed name : Text}
    (openFree : ¬openDelimiter <:+: name) (closeFree : ¬closeDelimiter <:+: name)
    (noClose : name.getLast? ≠ some '\x7d') (ink : trim (passed ++ name) ≠ []) (rest : Text) :
    ∃ next, parsePlaceholder start passed cursor (name ++ closeDelimiter ++ rest) =
      .ok (trim (passed ++ name), next, rest) := by
  induction name generalizing passed cursor with
  | nil =>
      have begins : startsWith ('\x7d' :: (['\x7d'] ++ rest)) closeDelimiter = true :=
        startsWith_append _
      have notOpen : ¬startsWith ('\x7d' :: (['\x7d'] ++ rest)) openDelimiter = true :=
        Bool.false_ne_true
      rw [List.append_nil] at ink ⊢
      change ∃ next, parsePlaceholder _ _ _ ('\x7d' :: (['\x7d'] ++ rest)) = _
      rw [parsePlaceholder, if_neg notOpen, if_pos begins, if_neg ink]
      exact ⟨_, rfl⟩
  | cons c name ih =>
      have plain := plain_name openFree closeFree noClose rest
      rw [List.infix_cons_iff, not_or] at openFree closeFree
      rw [List.append_cons] at ink ⊢
      have noClose' : name.getLast? ≠ some '\x7d' := by
        intro ends
        apply noClose
        rw [List.getLast?_cons, ends]
        rfl
      obtain ⟨next, parsed⟩ := @ih (cursor + c.utf8Size) (passed ++ [c]) openFree.2
        closeFree.2 noClose' ink
      refine ⟨next, ?_⟩
      rw [← parsed, List.cons_append, List.cons_append, parsePlaceholder, plain.1, plain.2]
      rfl

/-- A placeholder is read back. -/
theorem parseFrom_placeholder {name : Text} (nonempty : name ≠ []) (trimmed : trim name = name)
    (openFree : ¬openDelimiter <:+: name) (closeFree : ¬closeDelimiter <:+: name)
    (noClose : name.getLast? ≠ some '\x7d') :
    ∃ next, parseFrom template pending cursor (openDelimiter ++ name ++ closeDelimiter ++ rest) =
      parseFrom ((template.pushLiteral pending).pushPlaceholder name) [] next rest := by
  have ink : trim ([] ++ name) ≠ [] := by rwa [List.nil_append, trimmed]
  obtain ⟨next, parsed⟩ := @parsePlaceholder_append (cursor + 2) cursor [] name openFree closeFree
    noClose ink rest
  rw [List.nil_append, trimmed] at parsed
  refine ⟨next, ?_⟩
  rw [List.append_assoc, List.append_assoc, ← List.append_assoc name]
  apply parseFrom_open _ parsed
  cases name with
  | nil => exact absurd rfl nonempty
  | cons c name => exact (plain_name openFree closeFree noClose rest).1

end Steps

/-! ## Writing segments down -/

/-- Every delimiter doubled, from left to right. -/
def doubled : Text → Text
  | c :: d :: rest =>
      if c = d ∧ (c = '\x7b' ∨ c = '\x7d') then c :: c :: c :: c :: doubled rest
      else c :: doubled (d :: rest)
  | short => short

/-- The text of a segment. -/
def Segment.encode : Segment → Text
  | .literal text => doubled text
  | .placeholder name => openDelimiter ++ name ++ closeDelimiter

/-- The text of the segments. -/
def encode (segments : List Segment) : Text := segments.flatMap Segment.encode

/-- The text ends in an odd run of opening braces. -/
def EndsInOddRun (text : Text) : Prop := Odd (text.rtakeWhile (· = '\x7b')).length

/-- What a parse can give. -/
def Segment.WellFormed : Segment → Prop
  | .literal text => text ≠ []
  | .placeholder name =>
      name ≠ [] ∧ trim name = name ∧ ¬openDelimiter <:+: name ∧ ¬closeDelimiter <:+: name ∧
        name.getLast? ≠ some '\x7d'

/-- What may follow a segment. -/
def Segment.MayPrecede : Segment → Segment → Prop
  | .literal _, .literal _ => False
  | .literal text, .placeholder _ => ¬EndsInOddRun text
  | .placeholder _, _ => True

/-- The segments that can be written down and read back. -/
structure WellFormed (segments : List Segment) : Prop where
  each : ∀ segment ∈ segments, segment.WellFormed
  adjacent : segments.IsChain Segment.MayPrecede

theorem WellFormed.tail {segment : Segment} {segments : List Segment}
    (formed : WellFormed (segment :: segments)) : WellFormed segments :=
  ⟨fun other member => formed.each other (List.mem_cons_of_mem _ member), formed.adjacent.tail⟩

theorem rtakeWhile_cons {α : Type*} (p : α → Bool) (a : α) (l : List α) :
    (a :: l).rtakeWhile p =
      if l.all p = true ∧ p a = true then a :: l else l.rtakeWhile p := by
  induction l using List.reverseRecOn with
  | nil => cases value : p a <;> simp [List.rtakeWhile, value]
  | append_singleton front last ih =>
      rw [← List.cons_append, List.rtakeWhile_concat, List.rtakeWhile_concat, ih,
        List.all_append]
      cases value : p last with
      | false => simp [value]
      | true =>
          simp only [value, if_true, List.all_cons, List.all_nil, Bool.and_true]
          split <;> rfl

theorem endsInOddRun_singleton (c : Char) : EndsInOddRun [c] ↔ c = '\x7b' := by
  rw [EndsInOddRun, rtakeWhile_cons]
  by_cases same : c = '\x7b' <;> simp [same]

/-- A pair of equal characters does not change the parity of the last run. -/
theorem endsInOddRun_pair {c : Char} {text : Text} (ends : EndsInOddRun text) :
    EndsInOddRun (c :: c :: text) := by
  rw [EndsInOddRun, rtakeWhile_cons, rtakeWhile_cons]
  by_cases run : text.all (· = '\x7b') = true ∧ decide (c = '\x7b') = true
  · have whole : (c :: text).all (· = '\x7b') = true := by
      rw [List.all_cons, run.1, run.2]
      rfl
    have same : text.rtakeWhile (· = '\x7b') = text :=
      List.rtakeWhile_eq_self_iff.mpr fun d member => List.all_eq_true.mp run.1 d member
    rw [EndsInOddRun, same, Nat.odd_iff] at ends
    rw [if_pos ⟨whole, run.2⟩, List.length_cons, List.length_cons, Nat.odd_iff]
    omega
  · have whole : ¬((c :: text).all (· = '\x7b') = true ∧ decide (c = '\x7b') = true) := by
      rw [List.all_cons, Bool.and_eq_true]
      exact fun all => run ⟨all.1.2, all.2⟩
    rwa [if_neg whole, if_neg run]

theorem endsInOddRun_cons {c d : Char} {text : Text} (apart : ¬(c = d ∧ c = '\x7b'))
    (ends : EndsInOddRun (d :: text)) : EndsInOddRun (c :: d :: text) := by
  have run : ¬((d :: text).all (· = '\x7b') = true ∧ decide (c = '\x7b') = true) := by
    rw [List.all_cons, Bool.and_eq_true, decide_eq_true_iff, decide_eq_true_iff]
    exact fun all => apart ⟨all.2.trans all.1.1.symm, all.2⟩
  rwa [EndsInOddRun, rtakeWhile_cons, if_neg run]

/-! ## Reading segments back -/

theorem doubled_cons (c d : Char) (rest : Text) :
    doubled (c :: d :: rest) =
      if c = d ∧ (c = '\x7b' ∨ c = '\x7d') then c :: c :: c :: c :: doubled rest
      else c :: doubled (d :: rest) := by
  rw [doubled]

/-- Doubling keeps the first character. -/
theorem exists_doubled_eq_cons (c : Char) (rest : Text) :
    ∃ after, doubled (c :: rest) = c :: after := by
  cases rest with
  | nil => exact ⟨[], rfl⟩
  | cons d rest =>
      rw [doubled_cons]
      split
      · exact ⟨_, rfl⟩
      · exact ⟨_, rfl⟩

/-- A literal is read back, whatever has been read before, up to a text that it does not run
into. -/
theorem parseFrom_doubled {literal rest : Text}
    (apart : rest = [] ∨ rest.head? = some '\x7b' ∧ ¬EndsInOddRun literal) (template : Template)
    (pending : Text) (cursor : ℕ) :
    ∃ template' pending' cursor',
      parseFrom template pending cursor (doubled literal ++ rest) =
        parseFrom template' pending' cursor' rest ∧
      template'.pushLiteral pending' = template.pushLiteral (pending ++ literal) := by
  induction literal using doubled.induct generalizing template pending cursor with
  | case1 c d literal brace ih =>
      obtain ⟨rfl, brace⟩ := brace
      have apart' : rest = [] ∨ rest.head? = some '\x7b' ∧ ¬EndsInOddRun literal :=
        apart.imp_right fun next => ⟨next.1, mt endsInOddRun_pair next.2⟩
      obtain ⟨template', pending', cursor', parsed, pushed⟩ :=
        ih apart' ((template.pushLiteral pending).pushLiteral [c, c]) [] (cursor + 4)
      refine ⟨template', pending', cursor', ?_, ?_⟩
      · rw [doubled_cons, if_pos ⟨rfl, brace⟩, ← parsed]
        obtain rfl | rfl := brace
        · exact parseFrom_open_open
        · exact parseFrom_close_close
      · rw [pushed, List.nil_append, Template.pushLiteral_append, Template.pushLiteral_append]
        rfl
  | case2 c d literal plain ih =>
      have apart' : rest = [] ∨ rest.head? = some '\x7b' ∧ ¬EndsInOddRun (d :: literal) :=
        apart.imp_right fun next => ⟨next.1, mt (endsInOddRun_cons fun same =>
          plain ⟨same.1, .inl same.2⟩) next.2⟩
      obtain ⟨template', pending', cursor', parsed, pushed⟩ :=
        ih apart' template (pending ++ [c]) (cursor + c.utf8Size)
      refine ⟨template', pending', cursor', ?_, ?_⟩
      · obtain ⟨after, whole⟩ := exists_doubled_eq_cons d literal
        rw [whole] at parsed
        rw [doubled_cons, if_neg plain, whole, ← parsed]
        exact parseFrom_cons (plain_cons_cons.mpr plain)
      · rw [pushed, List.append_assoc]
        rfl
  | case3 literal short =>
      cases literal with
      | nil => exact ⟨template, pending, cursor, rfl, by rw [List.append_nil]⟩
      | cons c literal =>
          cases literal with
          | cons d literal => exact absurd rfl (short c d literal)
          | nil =>
              refine ⟨template, pending ++ [c], cursor + c.utf8Size, ?_, rfl⟩
              apply parseFrom_cons
              obtain rfl | ⟨begins, odd⟩ := apart
              · exact plain_singleton c
              · obtain ⟨after, rfl⟩ := List.head?_eq_some_iff.mp begins
                rw [endsInOddRun_singleton] at odd
                refine plain_cons_cons.mpr ?_
                rintro ⟨rfl, -⟩
                exact odd rfl

theorem head?_encode_placeholder (name : Text) (segments : List Segment) :
    (encode (.placeholder name :: segments)).head? = some '\x7b' := rfl

theorem parseFrom_encode {segments : List Segment} (formed : WellFormed segments)
    (template : Template) (pending : Text) (cursor : ℕ)
    (apart : ∀ text, segments.head? = some (.literal text) → ∀ existing,
      (template.pushLiteral pending).segments.getLast? ≠ some (.literal existing)) :
    ∃ result, parseFrom template pending cursor (encode segments) = .ok result ∧
      result.segments = (template.pushLiteral pending).segments ++ segments := by
  induction segments generalizing template pending cursor with
  | nil => exact ⟨template.pushLiteral
    pending, by rw [encode, List.flatMap_nil, parseFrom], by simp⟩
  | cons segment segments ih =>
      have segmentFormed := formed.each segment List.mem_cons_self
      have next := formed.adjacent
      cases segment with
      | literal text =>
          have boundary : encode segments = [] ∨
              (encode segments).head? = some '\x7b' ∧ ¬EndsInOddRun text := by
            cases segments with
            | nil => exact .inl rfl
            | cons segment segments =>
                have follows := (List.isChain_cons_cons.mp next).1
                cases segment with
                | literal other => exact follows.elim
                | placeholder name => exact .inr ⟨head?_encode_placeholder name segments, follows⟩
          obtain ⟨template', pending', cursor', parsed, pushed⟩ :=
            parseFrom_doubled boundary template pending cursor
          have written : (template'.pushLiteral pending').segments =
              (template.pushLiteral pending).segments ++ [.literal text] := by
            rw [pushed, ← Template.pushLiteral_append]
            exact pushLiteral_of_getLast?_ne (apart text rfl) segmentFormed
          have apart' : ∀ other, segments.head? = some (.literal other) → ∀ existing,
              (template'.pushLiteral pending').segments.getLast? ≠ some (.literal existing) := by
            intro other begins
            obtain ⟨rest, rfl⟩ := List.head?_eq_some_iff.mp begins
            exact (List.isChain_cons_cons.mp next).1.elim
          obtain ⟨result, ok, same⟩ := ih formed.tail template' pending' cursor' apart'
          refine ⟨result, ?_, ?_⟩
          · rw [encode, List.flatMap_cons]
            exact parsed.trans ok
          · rw [same, written, List.append_assoc]
            rfl
      | placeholder name =>
          obtain ⟨nonempty, trimmed, openFree, closeFree, noClose⟩ := segmentFormed
          obtain ⟨next, parsed⟩ := @parseFrom_placeholder template pending cursor (encode segments)
            name nonempty trimmed openFree closeFree noClose
          have last : (((template.pushLiteral pending).pushPlaceholder name).pushLiteral
              []).segments.getLast? = some (.placeholder name) := List.getLast?_concat
          have apart' : ∀ other, segments.head? = some (.literal other) → ∀ existing,
              (((template.pushLiteral pending).pushPlaceholder name).pushLiteral
                []).segments.getLast? ≠ some (.literal existing) := by
            intro other _ existing same
            rw [last] at same
            cases same
          obtain ⟨result, ok, same⟩ := ih formed.tail _ [] next apart'
          refine ⟨result, ?_, ?_⟩
          · rw [encode, List.flatMap_cons]
            exact parsed.trans ok
          · rw [same]
            exact List.append_assoc _ _ _

/-! ## Filling a template in -/

/-- The text of a segment under the given values. -/
def Segment.fill (given : List (Text × Text)) : Segment → Text
  | .literal text => text
  | .placeholder name => (given.lookup name).getD []

/-- Every placeholder has one value, and every value a placeholder. -/
structure Fits (given : List (Text × Text)) (segments : List Segment) : Prop where
  once : (given.map Prod.fst).Nodup
  mem_iff : ∀ name, name ∈ given.map Prod.fst ↔ .placeholder name ∈ segments

/-- The loop of `build_variable_map`, behind the names that are in the map already. -/
theorem foldlM_insertVariable (given : List (Text × Text)) (map : Table Text Text) :
    (¬((given.map Prod.fst).Nodup ∧ ∀ name ∈ given.map Prod.fst, name ∉ map) ∧
      ∃ name, given.foldlM insertVariable map = .error (.duplicateValue name)) ∨
    (given.map Prod.fst).Nodup ∧ (∀ name ∈ given.map Prod.fst, name ∉ map) ∧
      ∃ built, given.foldlM insertVariable map = .ok built ∧
        ∀ name, built.lookup name = (given.lookup name).or (map.lookup name) := by
  induction given generalizing map with
  | nil => exact .inr ⟨List.nodup_nil, by simp, map, rfl, fun name => rfl⟩
  | cons entry given ih =>
      obtain ⟨name, value⟩ := entry
      rw [List.foldlM_cons, insertVariable]
      by_cases present : name ∈ map
      · rw [if_pos present]
        exact .inl ⟨fun fits => fits.2 name List.mem_cons_self present, name, rfl⟩
      rw [if_neg present]
      obtain ⟨repeated, twice, failed⟩ | ⟨once, absent, built, ok, lookup⟩ :=
        ih (map.insert name value)
      · refine .inl ⟨fun fits => repeated ⟨?_, ?_⟩, twice, failed⟩
        · exact (List.nodup_cons.mp fits.1).2
        · intro other member inside
          obtain rfl | inside := (AList.mem_insert _).mp inside
          · exact (List.nodup_cons.mp fits.1).1 member
          · exact fits.2 other (List.mem_cons_of_mem _ member) inside
      · have nameAbsent : name ∉ given.map Prod.fst :=
          fun member => absent name member ((AList.mem_insert _).mpr (.inl rfl))
        refine .inr ⟨List.nodup_cons.mpr ⟨nameAbsent, once⟩, ?_, built, ok, fun other => ?_⟩
        · intro other member
          obtain rfl | member := List.mem_cons.mp member
          · exact present
          · exact fun inside => absent other member ((AList.mem_insert _).mpr (.inr inside))
        · rw [lookup, List.lookup_cons]
          obtain rfl | apart := eq_or_ne other name
          · have gone : List.lookup other given = none := by
              rw [List.lookup_eq_none_iff]
              intro entry member
              rw [bne_iff_ne]
              rintro rfl
              exact nameAbsent (List.mem_map_of_mem member)
            rw [gone, AList.lookup_insert, beq_self_eq_true]
            rfl
          · rw [AList.lookup_insert_ne apart, beq_false_of_ne apart]

theorem buildVariableMap_of_nodup {given : List (Text × Text)} (once : (given.map Prod.fst).Nodup) :
    ∃ map, buildVariableMap given = .ok map ∧ ∀ name, map.lookup name = given.lookup name := by
  obtain ⟨repeated, -⟩ | ⟨-, -, built, ok, lookup⟩ := foldlM_insertVariable given ∅
  · exact absurd ⟨once, fun name _ => AList.notMem_empty name⟩ repeated
  · exact ⟨built, ok, fun name => by rw [lookup, AList.lookup_empty, Option.or_none]⟩

theorem buildVariableMap_of_not_nodup {given : List (Text × Text)}
    (repeated : ¬(given.map Prod.fst).Nodup) :
    ∃ name, buildVariableMap given = .error (.duplicateValue name) := by
  obtain ⟨-, name, failed⟩ | ⟨once, -⟩ := foldlM_insertVariable given ∅
  · exact ⟨name, failed⟩
  · exact absurd once repeated

theorem lookup_isSome_iff {given : List (Text × Text)} {name : Text} :
    (given.lookup name).isSome = true ↔ name ∈ given.map Prod.fst := by
  rw [← not_iff_not, Bool.not_eq_true, Option.isSome_eq_false_iff, Option.isNone_iff_eq_none,
    List.lookup_eq_none_iff]
  simp only [bne_iff_ne, List.mem_map, not_exists, not_and]
  exact ⟨fun apart entry member same => apart entry member same.symm,
    fun apart entry member same => apart entry member same.symm⟩

/-- The loop over the segments, when every placeholder has a value. -/
theorem foldlM_renderSegment {given : List (Text × Text)} {map : Table Text Text}
    (lookup : ∀ name, map.lookup name = given.lookup name) (segments : List Segment)
    (found : ∀ name, .placeholder name ∈ segments → name ∈ given.map Prod.fst) (rendered : Text) :
    segments.foldlM (renderSegment map) rendered =
      .ok (rendered ++ segments.flatMap (Segment.fill given)) := by
  induction segments generalizing rendered with
  | nil =>
      rw [List.flatMap_nil, List.append_nil]
      rfl
  | cons segment segments ih =>
      have found' : ∀ name, .placeholder name ∈ segments → name ∈ given.map Prod.fst :=
        fun name member => found name (List.mem_cons_of_mem _ member)
      rw [List.foldlM_cons, List.flatMap_cons, ← List.append_assoc]
      cases segment with
      | literal text => exact ih found' (rendered ++ text)
      | placeholder name =>
          have isSome := lookup_isSome_iff.mpr (found name List.mem_cons_self)
          obtain ⟨value, stored⟩ := Option.isSome_iff_exists.mp isSome
          rw [renderSegment, lookup, Segment.fill, stored]
          exact ih found' (rendered ++ value)

namespace Template

variable {template : Template} {given : List (Text × Text)}

theorem find?_missing_eq_none_iff {map : Table Text Text} :
    (inOrder template.placeholders).find? (· ∉ map) = none ↔
      ∀ name, .placeholder name ∈ template.segments → name ∈ map := by
  simp only [List.find?_eq_none, mem_inOrder, decide_eq_true_iff, not_not,
    template.mem_placeholders]

theorem find?_extra_eq_none_iff {map : Table Text Text} :
    (inOrder map.keys.toFinset).find? (· ∉ template.placeholders) = none ↔
      ∀ name ∈ map, .placeholder name ∈ template.segments := by
  simp only [List.find?_eq_none, mem_inOrder, List.mem_toFinset, AList.mem_keys,
    decide_eq_true_iff, not_not, template.mem_placeholders]

/-- Rendering with one value for every placeholder and none besides. -/
theorem render_eq_ok (fits : Fits given template.segments) :
    template.render given = .ok (template.segments.flatMap (Segment.fill given)) := by
  obtain ⟨map, built, lookup⟩ := buildVariableMap_of_nodup fits.once
  have mem_map (name : Text) : name ∈ map ↔ .placeholder name ∈ template.segments := by
    rw [← AList.lookup_isSome, lookup, lookup_isSome_iff, fits.mem_iff]
  have missing := (@find?_missing_eq_none_iff template map).mpr fun name => (mem_map name).mpr
  have extra := (@find?_extra_eq_none_iff template map).mpr fun name => (mem_map name).mp
  rw [render, built]
  change template.renderMap map = _
  rw [renderMap, missing, extra]
  exact foldlM_renderSegment lookup template.segments
    (fun name member => (fits.mem_iff name).mpr member) []

/-- Any other list of values is refused. -/
theorem render_eq_error (unfit : ¬Fits given template.segments) :
    ∃ err, template.render given = .error err := by
  by_cases once : (given.map Prod.fst).Nodup
  · obtain ⟨map, built, lookup⟩ := buildVariableMap_of_nodup once
    have mem_map (name : Text) : name ∈ map ↔ name ∈ given.map Prod.fst := by
      rw [← AList.lookup_isSome, lookup, lookup_isSome_iff]
    rw [render, built]
    change ∃ err, template.renderMap map = _
    rw [renderMap]
    cases missing : (inOrder template.placeholders).find? (· ∉ map) with
    | some name => exact ⟨_, rfl⟩
    | none =>
        cases extra : (inOrder map.keys.toFinset).find? (· ∉ template.placeholders) with
        | some name => exact ⟨_, rfl⟩
        | none =>
            refine absurd ⟨once, fun name => ⟨fun member => ?_, fun member => ?_⟩⟩ unfit
            · exact find?_extra_eq_none_iff.mp extra name ((mem_map name).mpr member)
            · exact (mem_map name).mp (find?_missing_eq_none_iff.mp missing name member)
  · obtain ⟨name, failed⟩ := buildVariableMap_of_not_nodup once
    exact ⟨.duplicateValue name, by rw [render, failed]; rfl⟩

end Template

/-- Segments that are written down are read back; the template is filled in with one value for
every name, and refuses values with a name that is missing, extra or given twice. -/
theorem parse_encode {segments : List Segment} (formed : WellFormed segments) :
    ∃ template, parse (encode segments) = .ok template ∧ template.segments = segments ∧
      (∀ given, (given.map Prod.fst).Nodup →
        (∀ name, name ∈ given.map Prod.fst ↔ .placeholder name ∈ segments) →
        template.render given = .ok (segments.flatMap (Segment.fill given))) ∧
      ∀ given : List (Text × Text), (∃ err, template.render given = .error err) ↔
        (∃ name, .placeholder name ∈ segments ∧ name ∉ given.map Prod.fst) ∨
          (∃ name ∈ given.map Prod.fst, .placeholder name ∉ segments) ∨
          ¬(given.map Prod.fst).Nodup := by
  obtain ⟨template, parsed, same⟩ := parseFrom_encode formed Template.empty [] 0 (by
    intro text begins existing ends
    cases ends)
  replace same : template.segments = segments := same
  refine ⟨template, parsed, same, ?_, fun given => ⟨?_, ?_⟩⟩
  · intro given once mem_iff
    rw [← same] at mem_iff ⊢
    exact Template.render_eq_ok ⟨once, mem_iff⟩
  · rintro ⟨err, failed⟩
    by_contra fits
    simp only [not_or, not_exists, not_and, not_not] at fits
    obtain ⟨missing, extra, once⟩ := fits
    have fits : Fits given template.segments := by
      rw [same]
      exact ⟨once, fun name => ⟨extra name, missing name⟩⟩
    rw [Template.render_eq_ok fits] at failed
    cases failed
  · intro unfit
    apply Template.render_eq_error
    rintro ⟨once, mem_iff⟩
    rw [same] at mem_iff
    obtain ⟨name, used, absent⟩ | ⟨name, present, unused⟩ | repeated := unfit
    · exact absent ((mem_iff name).mpr used)
    · exact unused ((mem_iff name).mp present)
    · exact repeated once

/-- A pair of braces before a placeholder with a brace in its name. -/
theorem parse_encode_braces :
    ∃ template, parse "\x7b\x7b\x7b\x7b\x7b\x7ba\x7b\x7d\x7d".toList = .ok template ∧
      template.render [("a\x7b".toList, "v".toList)] = .ok "\x7b\x7bv".toList := by
  have formed : WellFormed [.literal "\x7b\x7b".toList, .placeholder "a\x7b".toList] := by
    refine ⟨?_, List.isChain_pair.mpr ?_⟩
    · intro segment member
      obtain rfl | rfl := by simpa using member
      · exact List.cons_ne_nil _ _
      · refine ⟨?_, ?_, ?_, ?_, ?_⟩ <;> decide
    · change ¬Odd _
      decide
  obtain ⟨template, parsed, -, rendered, -⟩ := parse_encode formed
  refine ⟨template, parsed, ?_⟩
  apply rendered
  · decide
  · intro name
    simp

end CodexPilot.Templating
