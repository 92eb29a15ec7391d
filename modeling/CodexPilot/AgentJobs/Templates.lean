import CodexPilot.AgentJobs.Values
import CodexPilot.Library.Replacing

/-!
# Instructions with placeholders

The placeholders of an instruction are replaced key by key, each time in the whole text, and doubled
braces travel as sentinel words.  So what is filled in for one key is searched for the next ones,
and for the sentinels.
-/

namespace CodexPilot.AgentJobs
namespace Templates

open RustStd Text Replacing

/-! ## The code -/

def openBraceSentinel : Text := "__CODEX_OPEN_BRACE__".toList

def closeBraceSentinel : Text := "__CODEX_CLOSE_BRACE__".toList

/-- A key in braces. -/
def placeholder (key : Text) : Text := ['\x7b'] ++ key ++ ['\x7d']

variable {ν : Type} (numberText : ν → Text)

/-- What a key is replaced by. -/
def replacementOf (value : Value ν) : Text := value.asStr.getD (value.toText numberText)

/-- The sentinels are braces at the end. -/
def restoreBraces (rendered : Text) : Text :=
  replace closeBraceSentinel ['\x7d'] (replace openBraceSentinel ['\x7b'] rendered)

/-- `render_instruction_template`. -/
def renderInstructionTemplate (instruction : Text) (rowJson : Value ν) : Text :=
  let rendered := replace "\x7d\x7d".toList closeBraceSentinel
    (replace "\x7b\x7b".toList openBraceSentinel instruction)
  match rowJson.asObject with
  | none => restoreBraces rendered
  | some row =>
      restoreBraces (row.foldl (fun rendered (key, value) =>
        replace (placeholder key) (replacementOf numberText value) rendered) rendered)

/-! ## Templates -/

/-- A part of an instruction. -/
inductive Part where
  | text (text : Text)
  | hole (key : Text)

/-- No brace in a text. -/
def Braceless (text : Text) : Prop := '\x7b' ∉ text ∧ '\x7d' ∉ text

/-- A part with the keys that have been filled in. -/
def fill (filled : List (Text × Text)) : Part → Text
  | .text text => text
  | .hole key => (filled.lookup key).getD (placeholder key)

/-- A template with some holes filled. -/
def shown (filled : List (Text × Text)) (template : List Part) : Text :=
  template.flatMap (fill filled)

/-- All placeholders of a run have been filled in. -/
def Settled (filled : List (Text × Text)) (run : List Part) : Prop :=
  ∀ key, .hole key ∈ run → key ∈ filled.map Prod.fst

/-- No run of text and placeholders filled in before has the placeholder of a key. -/
def Apart (filled : List (Text × Text)) (key : Text) (template : List Part) : Prop :=
  ∀ run, run <:+: template → Settled filled run → ¬placeholder key <:+: shown filled run

/-- No key meets its placeholder in what was filled in before it, unless its value is that
placeholder. -/
def Undisturbed (filled : List (Text × Text)) (template : List Part) : Prop :=
  ∀ before key value after, filled = before ++ (key, value) :: after →
    value = placeholder key ∨ Apart before key template

section Stage

variable {filled more : List (Text × Text)} {key other value : Text} {run rest template : List Part}

theorem shown_append (filled : List (Text × Text)) (first second : List Part) :
    shown filled (first ++ second) = shown filled first ++ shown filled second :=
  List.flatMap_append

theorem shown_cons (filled : List (Text × Text)) (part : Part) (template : List Part) :
    shown filled (part :: template) = fill filled part ++ shown filled template :=
  List.flatMap_cons

theorem lookup_eq_none (unfilled : other ∉ filled.map Prod.fst) : filled.lookup other = none := by
  rw [List.lookup_eq_none_iff]
  intro entry member
  simpa using fun same : other = entry.1 => unfilled (same ▸ List.mem_map_of_mem member)

theorem fill_open (unfilled : other ∉ filled.map Prod.fst) :
    fill filled (.hole other) = placeholder other := by
  rw [fill, lookup_eq_none unfilled]
  rfl

theorem fill_settled (settled : other ∈ filled.map Prod.fst) (more : List (Text × Text)) :
    fill (filled ++ more) (.hole other) = fill filled (.hole other) := by
  obtain ⟨entry, member, rfl⟩ := List.mem_map.mp settled
  have found : (filled.lookup entry.1).isSome :=
    List.lookup_isSome_iff.mpr ⟨entry, member, beq_self_eq_true _⟩
  obtain ⟨value, found⟩ := Option.isSome_iff_exists.mp found
  rw [fill, fill, List.lookup_append, found]
  rfl

theorem fill_next (unfilled : key ∉ filled.map Prod.fst) :
    fill (filled ++ [(key, value)]) (.hole key) = value := by
  rw [fill, List.lookup_append, lookup_eq_none unfilled]
  simp

theorem fill_other (unfilled : other ∉ filled.map Prod.fst) (differ : other ≠ key) :
    fill (filled ++ [(key, value)]) (.hole other) = placeholder other := by
  apply fill_open
  simp [unfilled, differ]

theorem shown_settled (settled : Settled filled run) (more : List (Text × Text)) :
    shown (filled ++ more) run = shown filled run := by
  induction run with
  | nil => rfl
  | cons part run ih =>
      have rest := ih fun key member => settled key (List.mem_cons_of_mem _ member)
      rw [shown_cons, shown_cons, rest]
      congr 1
      cases part with
      | text => rfl
      | hole other => exact fill_settled (settled other List.mem_cons_self) more

theorem placeholder_ne_nil : placeholder key ≠ [] := by simp [placeholder]

theorem eq_of_placeholder_inside (otherClean : Braceless other)
    (inside : placeholder key <:+: placeholder other) : other = key := by
  obtain ⟨front, back, whole⟩ := inside
  simp only [placeholder, List.append_assoc, List.cons_append, List.nil_append] at whole
  cases front with
  | nil =>
      rw [List.nil_append, List.cons.injEq] at whole
      exact ((List.append_cons_inj_of_notMem otherClean.2 (by simp)).mp whole.2.symm).1
  | cons first front =>
      rw [List.cons_append, List.cons.injEq] at whole
      have member : '\x7b' ∈ other ++ ['\x7d'] := by
        rw [← whole.2]
        simp
      simp [otherClean.1] at member

theorem not_straddles_placeholder_left (keyClean : Braceless key) (before after : Text) :
    ¬Straddles (placeholder key) before (placeholder other ++ after) := by
  have first : (placeholder other ++ after).head? = some '\x7b' := rfl
  apply not_straddles_of_head first
  simp [placeholder, keyClean.1]

theorem not_straddles_placeholder_right (keyClean : Braceless key) (after : Text) :
    ¬Straddles (placeholder key) (placeholder other) after := by
  have last : (placeholder other).getLast? = some '\x7d' := List.getLast?_concat
  apply not_straddles_of_last last
  rw [placeholder, List.dropLast_concat]
  simp [keyClean.2]

/-- A placeholder that is left is replaced when it is the key's. -/
theorem replace_hole (keyClean : Braceless key) (otherClean : Braceless other)
    (unfilled : other ∉ filled.map Prod.fst) :
    replace (placeholder key) value (placeholder other) =
      fill (filled ++ [(key, value)]) (.hole other) := by
  by_cases same : other = key
  · subst same
    rw [replace_self placeholder_ne_nil, fill_next unfilled]
  · rw [fill_other unfilled same,
      replace_of_absent fun inside => same (eq_of_placeholder_inside otherClean inside)]

theorem Settled.concat_text (settled : Settled filled run) (text : Text) :
    Settled filled (run ++ [.text text]) := by
  intro other member
  exact settled other (by simpa using member)

theorem Settled.concat_hole (settled : Settled filled run) (known : other ∈ filled.map Prod.fst) :
    Settled filled (run ++ [.hole other]) := by
  intro key member
  obtain inRun | last := List.mem_append.mp member
  · exact settled key inRun
  · cases List.mem_singleton.mp last
    exact known

theorem apart_settled (settled : Settled filled run) :
    Apart filled key run ↔ ¬placeholder key <:+: shown filled run := by
  constructor
  · exact fun apart => apart run List.infix_rfl settled
  · rintro absent inner ⟨front, back, rfl⟩ - occurs
    rw [shown_append, shown_append] at absent
    exact absent (occurs.trans (List.infix_append _ _ _))

/-- A placeholder that is left separates runs. -/
theorem apart_append_hole (unfilled : other ∉ filled.map Prod.fst) :
    Apart filled key (run ++ .hole other :: rest) ↔
      Apart filled key run ∧ Apart filled key rest := by
  constructor
  · intro apart
    constructor
    · exact fun inner inside => apart inner (inside.trans (List.prefix_append _ _).isInfix)
    · intro inner inside
      apply apart inner
      exact (inside.trans (List.suffix_cons _ _).isInfix).trans (List.suffix_append _ _).isInfix
  · rintro ⟨first, second⟩ inner inside settled occurs
    have excluded {front back : List Part} (whole : inner = front ++ back) (nonempty : back ≠ [])
        (begins : back <+: .hole other :: rest) : False := by
      obtain ⟨part, back, rfl⟩ := List.exists_cons_of_ne_nil nonempty
      rw [List.cons_prefix_cons] at begins
      obtain ⟨rfl, -⟩ := begins
      exact unfilled (settled other (by simp [whole]))
    obtain inRun | inRest | ⟨front, back, -, nonempty, whole, -, begins⟩ :=
      infix_append_cases inside
    · exact first inner inRun settled occurs
    · obtain begins | inRest := List.infix_cons_iff.mp inRest
      · by_cases empty : inner = []
        · subst empty
          exact placeholder_ne_nil (List.infix_nil.mp occurs)
        · exact excluded (List.nil_append inner).symm empty begins
      · exact second inner inRest settled occurs
    · exact excluded whole nonempty begins

/-- The replacement goes through runs and placeholders one by one. -/
theorem replace_append_hole (keyClean : Braceless key) (otherClean : Braceless other)
    (unfilled : other ∉ filled.map Prod.fst) (run rest : List Part) :
    replace (placeholder key) value (shown filled (run ++ .hole other :: rest)) =
      replace (placeholder key) value (shown filled run) ++
        (fill (filled ++ [(key, value)]) (.hole other) ++
          replace (placeholder key) value (shown filled rest)) := by
  rw [shown_append, shown_cons, fill_open unfilled,
    replace_append (not_straddles_placeholder_left keyClean _ _),
    replace_append (not_straddles_placeholder_right keyClean _),
    replace_hole keyClean otherClean unfilled]

/-- A template is a run of text and filled in placeholders, alone or before an open placeholder and
a template behind it; this is the induction on the number of open placeholders. -/
@[elab_as_elim]
theorem induction_on_open {motive : List Part → Prop}
    (runs : ∀ run, Settled filled run → motive run)
    (open_ : ∀ run other rest, Settled filled run → other ∉ filled.map Prod.fst →
      Braceless other → (∀ name, .hole name ∈ rest → Braceless name) → motive rest →
      motive (run ++ .hole other :: rest))
    (holesClean : ∀ other, .hole other ∈ template → Braceless other) : motive template := by
  have go : ∀ run, Settled filled run → motive (run ++ template) := by
    induction template with
    | nil =>
        intro run settled
        rw [List.append_nil]
        exact runs run settled
    | cons part rest ih =>
        intro run settled
        have restClean : ∀ name, .hole name ∈ rest → Braceless name :=
          fun name member => holesClean name (List.mem_cons_of_mem _ member)
        have later := ih restClean
        cases part with
        | text text =>
            rw [List.append_cons]
            exact later _ (settled.concat_text text)
        | hole other =>
            by_cases known : other ∈ filled.map Prod.fst
            · rw [List.append_cons]
              exact later _ (settled.concat_hole known)
            · apply open_ run other rest settled known
                (holesClean other List.mem_cons_self) restClean
              exact later [] fun _ member => nomatch member
  exact go [] fun _ member => nomatch member

/-- The whole text and its parts change in the same direction. -/
theorem length_replace_shown {le : ℕ → ℕ → Prop} (refl : ∀ size, le size size)
    (add : ∀ {first first' second second'}, le first first' → le second second' →
      le (first + second) (first' + second'))
    (runs : ∀ run, le (replace (placeholder key) value (shown filled run)).length
      (shown filled run).length)
    (keyClean : Braceless key)
    (holesClean : ∀ other, .hole other ∈ template → Braceless other) :
    le (replace (placeholder key) value (shown filled template)).length
      (shown (filled ++ [(key, value)]) template).length := by
  refine induction_on_open (fun run (settled : Settled filled run) => ?_) ?_ holesClean
  · rw [shown_settled settled]
    exact runs run
  · intro run other rest settled unfilled otherClean _ later
    rw [replace_append_hole keyClean otherClean unfilled, shown_append, shown_cons,
      shown_settled settled]
    simp only [List.length_append]
    exact add (runs run) (add (refl _) later)

theorem lengths_replace_shown (keyClean : Braceless key)
    (holesClean : ∀ other, .hole other ∈ template → Braceless other) (run : List Part) :
    (replace (placeholder key) value (shown filled run)).length ≤ (shown filled run).length ∧
        (replace (placeholder key) value (shown filled template)).length ≤
          (shown (filled ++ [(key, value)]) template).length ∨
      (shown filled run).length ≤ (replace (placeholder key) value (shown filled run)).length ∧
        (shown (filled ++ [(key, value)]) template).length ≤
          (replace (placeholder key) value (shown filled template)).length := by
  obtain shorter | longer := le_total value.length (placeholder key).length
  · have runs (run : List Part) := length_replace_le shorter placeholder_ne_nil (shown filled run)
    exact .inl ⟨runs run, length_replace_shown Nat.le_refl Nat.add_le_add runs keyClean holesClean⟩
  · have runs (run : List Part) := le_length_replace longer placeholder_ne_nil (shown filled run)
    refine .inr ⟨runs run, ?_⟩
    let ge : ℕ → ℕ → Prop := fun first second => second ≤ first
    have add : ∀ {first first' second second'}, ge first first' → ge second second' →
        ge (first + second) (first' + second') := Nat.add_le_add
    exact @length_replace_shown _ _ _ _ ge Nat.le_refl add runs keyClean holesClean

/-- Replacing one key fills in its placeholders, and nothing else, when it is apart. -/
theorem replace_shown_iff (keyClean : Braceless key)
    (holesClean : ∀ other, .hole other ∈ template → Braceless other) :
    replace (placeholder key) value (shown filled template) =
        shown (filled ++ [(key, value)]) template ↔
      value = placeholder key ∨ Apart filled key template := by
  refine induction_on_open (fun run (settled : Settled filled run) => ?_) ?_ holesClean
  · rw [shown_settled settled, replace_eq_self_iff placeholder_ne_nil, apart_settled settled]
  · intro run other rest settled unfilled otherClean restClean later
    rw [replace_append_hole keyClean otherClean unfilled, shown_append, shown_cons,
      shown_settled settled, apart_append_hole unfilled, or_and_left, ← later,
      apart_settled settled, ← replace_eq_self_iff placeholder_ne_nil]
    constructor
    · intro whole
      have lengths := @lengths_replace_shown filled key value rest keyClean restClean run
      have parts := append_inj_of_length_le whole (by
        simp only [List.length_append, Nat.add_le_add_iff_left]
        exact lengths)
      exact ⟨parts.1, List.append_cancel_left parts.2⟩
    · rintro ⟨first, second⟩
      rw [first, second]

end Stage

/-! ## The loop -/

section Loop

variable {filled before rest : List (Text × Text)} {template : List Part}

/-- The text of the loop after some keys. -/
def replaceKeys (row : List (Text × Text)) (rendered : Text) : Text :=
  row.foldl (fun rendered (key, value) => replace (placeholder key) value rendered) rendered

theorem replaceKeys_concat (row : List (Text × Text)) (key value rendered : Text) :
    replaceKeys (row ++ [(key, value)]) rendered =
      replace (placeholder key) value (replaceKeys row rendered) := by
  rw [replaceKeys, List.foldl_append]
  rfl

/-- The loop fills in the placeholders, and nothing else, key by key, when it is undisturbed. -/
theorem undisturbed_iff (keysClean : ∀ key ∈ filled.map Prod.fst, Braceless key)
    (holesClean : ∀ other, .hole other ∈ template → Braceless other) :
    (∀ before, before <+: filled → replaceKeys before (shown [] template) = shown before template) ↔
      Undisturbed filled template := by
  constructor
  · rintro verbatim before key value after rfl
    have keyClean : Braceless key := keysClean key (by simp)
    have earlier := verbatim before (List.prefix_append _ _)
    have later := verbatim (before ++ [(key, value)]) ⟨after, by simp⟩
    rw [replaceKeys_concat, earlier] at later
    exact (replace_shown_iff keyClean holesClean).mp later
  · intro undisturbed before inside
    induction before using List.reverseRecOn with
    | nil => rfl
    | append_singleton before entry ih =>
        obtain ⟨key, value⟩ := entry
        obtain ⟨after, rfl⟩ := inside
        rw [replaceKeys_concat, ih ⟨[(key, value)] ++ after, by simp⟩]
        apply (replace_shown_iff (keysClean key (by simp)) holesClean).mpr
        exact undisturbed before key value after (by simp)

/-! ## Braces that stand alone -/

theorem count_placeholder {key : Text} (clean : Braceless key) :
    (placeholder key).count '\x7b' = 1 ∧ (placeholder key).count '\x7d' = 1 := by
  have opening := List.count_eq_zero.mpr clean.1
  have closing := List.count_eq_zero.mpr clean.2
  simp [placeholder, opening, closing]

theorem head?_shown_ne (texts : ∀ text, .text text ∈ template → Braceless text) :
    (shown [] template).head? ≠ some '\x7d' := by
  induction template with
  | nil => exact nofun
  | cons part template ih =>
      have rest := ih fun text member => texts text (List.mem_cons_of_mem _ member)
      rw [shown_cons]
      cases part with
      | text text =>
          cases text with
          | nil => exact rest
          | cons first text =>
              intro same
              cases same
              exact (texts _ List.mem_cons_self).2 List.mem_cons_self
      | hole key => exact nofun

/-- No brace stands next to one of its kind. -/
theorem not_doubled {brace : Char} (isBrace : brace = '\x7b' ∨ brace = '\x7d')
    (texts : ∀ text, .text text ∈ template → Braceless text)
    (holes : ∀ key, .hole key ∈ template → Braceless key) :
    ¬[brace, brace] <:+: shown [] template := by
  induction template with
  | nil => exact fun occurs => nomatch List.infix_nil.mp occurs
  | cons part template ih =>
      have textsRest : ∀ text, .text text ∈ template → Braceless text :=
        fun text member => texts text (List.mem_cons_of_mem _ member)
      have rest := ih textsRest fun key member => holes key (List.mem_cons_of_mem _ member)
      rw [shown_cons]
      intro occurs
      obtain inPart | inRest | straddles := infix_append_cases occurs
      · cases part with
        | text text =>
            have clean := texts text List.mem_cons_self
            have member : brace ∈ text := inPart.subset List.mem_cons_self
            obtain rfl | rfl := isBrace
            · exact clean.1 member
            · exact clean.2 member
        | hole key =>
            have once := count_placeholder (holes key List.mem_cons_self)
            have twice := inPart.sublist.count_le brace
            rw [List.count_cons_self, List.count_cons_self, List.count_nil] at twice
            have same : fill [] (.hole key) = placeholder key := rfl
            rw [same] at twice
            obtain rfl | rfl := isBrace <;> omega
      · exact rest inRest
      · obtain ⟨last, first⟩ := straddles.pair
        obtain rfl | rfl := isBrace
        · cases part with
          | text text => exact (texts text List.mem_cons_self).1 (List.mem_of_getLast? last)
          | hole key => cases List.getLast?_concat.symm.trans last
        · exact head?_shown_ne textsRest first

end Loop

/-! ## The rendered instruction -/

section Rendering

variable {row : List (Text × Value ν)} {template : List Part} {text : Text}

/-- What the keys of a row are replaced by. -/
def replacements (row : List (Text × Value ν)) : List (Text × Text) :=
  row.map fun (key, value) => (key, replacementOf numberText value)

theorem map_fst_replacements (row : List (Text × Value ν)) :
    (replacements numberText row).map Prod.fst = row.map Prod.fst := by
  simp [replacements]

/-- Braces stand in placeholders only, which are of keys of the row. -/
structure IsTemplate (keys : List Text) (template : List Part) : Prop where
  texts : ∀ text, .text text ∈ template → Braceless text
  holes : ∀ key, .hole key ∈ template → key ∈ keys

theorem renderInstructionTemplate_eq (keysClean : ∀ key ∈ row.map Prod.fst, Braceless key)
    (isTemplate : IsTemplate (row.map Prod.fst) template) :
    renderInstructionTemplate numberText (shown [] template) (.object row) =
      restoreBraces (replaceKeys (replacements numberText row) (shown [] template)) := by
  have holesClean : ∀ key, .hole key ∈ template → Braceless key :=
    fun key member => keysClean key (isTemplate.holes key member)
  have noOpen : replace "\x7b\x7b".toList openBraceSentinel (shown [] template) =
      shown [] template :=
    replace_of_absent (not_doubled (.inl rfl) isTemplate.texts holesClean)
  have noClose : replace "\x7d\x7d".toList closeBraceSentinel (shown [] template) =
      shown [] template :=
    replace_of_absent (not_doubled (.inr rfl) isTemplate.texts holesClean)
  rw [renderInstructionTemplate, noOpen, noClose, replaceKeys, replacements, List.foldl_map]
  rfl

/-- Braces are restored in texts with a sentinel word only. -/
theorem restoreBraces_eq_self_iff :
    restoreBraces text = text ↔
      ¬openBraceSentinel <:+: text ∧ ¬closeBraceSentinel <:+: text := by
  have opened := @length_replace_le _ openBraceSentinel ['\x7b'] _ (by decide) (by decide) text
  have closed := @length_replace_le _ closeBraceSentinel ['\x7d'] _ (by decide) (by decide)
    (replace openBraceSentinel ['\x7b'] text)
  constructor
  · intro same
    have length := congrArg List.length same
    rw [restoreBraces] at length same
    have noOpen : ¬openBraceSentinel <:+: text := by
      intro occurs
      have shorter := @length_replace_lt _ _ ['\x7b'] _ _ (by decide) occurs
      omega
    refine ⟨noOpen, fun occurs => ?_⟩
    rw [replace_of_absent noOpen] at length
    have shorter := @length_replace_lt _ _ ['\x7d'] _ _ (by decide) occurs
    omega
  · rintro ⟨noOpen, noClose⟩
    rw [restoreBraces, replace_of_absent noOpen, replace_of_absent noClose]

/-- The loop is verbatim at every key exactly when it is undisturbed; then the rendered instruction
is the template with the values, exactly when that has no sentinel word. -/
theorem renderInstructionTemplate_verbatim
    (keysClean : ∀ key ∈ row.map Prod.fst, Braceless key)
    (isTemplate : IsTemplate (row.map Prod.fst) template) :
    ((∀ before, before <+: replacements numberText row →
        replaceKeys before (shown [] template) = shown before template) ↔
      Undisturbed (replacements numberText row) template) ∧
    (Undisturbed (replacements numberText row) template →
      (renderInstructionTemplate numberText (shown [] template) (.object row) =
          shown (replacements numberText row) template ↔
        ¬openBraceSentinel <:+: shown (replacements numberText row) template ∧
          ¬closeBraceSentinel <:+: shown (replacements numberText row) template)) := by
  have holesClean : ∀ key, .hole key ∈ template → Braceless key :=
    fun key member => keysClean key (isTemplate.holes key member)
  have loop := @undisturbed_iff (replacements numberText row) template
    (by rwa [map_fst_replacements]) holesClean
  refine ⟨loop, fun undisturbed => ?_⟩
  rw [renderInstructionTemplate_eq numberText keysClean isTemplate,
    loop.mpr undisturbed _ List.prefix_rfl]
  exact restoreBraces_eq_self_iff

/-- The later value has braces around the earlier key. -/
theorem renderInstructionTemplate_verbatim_braces :
    renderInstructionTemplate (fun n : ℕ => (toString n).toList) "Do \x7ba\x7d, \x7bb\x7d.".toList
        (.object [(['a'], .string ['x']), (['b'], .string "\x7ba\x7d".toList)]) =
      "Do x, \x7ba\x7d.".toList := by
  have verbatim := @renderInstructionTemplate_verbatim ℕ (fun n => (toString n).toList)
    [(['a'], .string ['x']), (['b'], .string "\x7ba\x7d".toList)]
    [.text "Do ".toList, .hole ['a'], .text ", ".toList, .hole ['b'], .text ['.']]
    (by simp [Braceless]) ⟨by simp [Braceless], by simp⟩
  have undisturbed := verbatim.1.mp (by
    intro before inside
    have values : replacements (fun n : ℕ => (toString n).toList)
        [(['a'], .string ['x']), (['b'], .string "\x7ba\x7d".toList)] =
          [(['a'], ['x']), (['b'], "\x7ba\x7d".toList)] := rfl
    rw [values] at inside
    obtain rfl | ⟨rest, rfl, later⟩ := List.prefix_cons_iff.mp inside
    · rfl
    · obtain rfl | ⟨rest, rfl, none⟩ := List.prefix_cons_iff.mp later
      · decide
      · cases List.prefix_nil.mp none
        decide)
  exact (verbatim.2 undisturbed).mpr (by decide)

/-- A value with the placeholder of a later key, and one with a sentinel word. -/
theorem values_not_verbatim :
    let numberText := fun n : ℕ => (toString n).toList
    let later : List (Text × Value ℕ) :=
      [(['a'], .string "\x7bb\x7d".toList), (['b'], .string "x".toList)]
    let sentinel : List (Text × Value ℕ) := [(['a'], .string openBraceSentinel)]
    renderInstructionTemplate numberText "\x7ba\x7d".toList (.object later) = "x".toList ∧
      shown (replacements numberText later) [.hole ['a']] = "\x7bb\x7d".toList ∧
      renderInstructionTemplate numberText "\x7ba\x7d".toList (.object sentinel) =
        "\x7b".toList ∧
      shown (replacements numberText sentinel) [.hole ['a']] = openBraceSentinel := by
  decide

-- A later replacement can undo what an earlier one has done.
example : renderInstructionTemplate (fun n : ℕ => (toString n).toList) "\x7bc\x7d".toList
    (.object [(['c'], .string "\x7ba\x7d".toList), (['a'], .string "\x7bb\x7d".toList),
      (['b'], .string "\x7ba\x7d".toList)]) = "\x7ba\x7d".toList := by decide

end Rendering

end Templates
end CodexPilot.AgentJobs
