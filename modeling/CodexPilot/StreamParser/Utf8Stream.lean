import CodexPilot.RustStd.Utf8
import CodexPilot.StreamParser.StreamText

/-!
# A parser that is fed bytes

Bytes are decoded before the wrapped parser sees them.  A chunk may end inside of a character;
its bytes wait for the next chunk.  A chunk that cannot go on from there is refused, and nothing
remains of it.
-/

namespace CodexPilot.StreamParser

open RustStd Utf8 PrefixCodes PrefixCode Streams

/-- `Utf8StreamParserError`. -/
inductive Utf8StreamParserError where
  | invalidUtf8 (validUpTo errorLen : ℕ)
  | incompleteUtf8AtEof
deriving DecidableEq

/-- `Utf8StreamParser`. -/
structure Utf8StreamParser (σ : Type*) where
  inner : σ
  pendingUtf8 : List UInt8

/-- `std::str::from_utf8`. -/
def fromUtf8 (bytes : List UInt8) : Except Failure Text := utf8.decode bytes

namespace Utf8StreamParser

variable {σ ε : Type*}

/-- `Utf8StreamParser::new`. -/
def new (inner : σ) : Utf8StreamParser σ where
  inner := inner
  pendingUtf8 := []

/-- `Utf8StreamParser::push_bytes`. -/
def pushBytes (parser : StreamTextParser σ ε) (self : Utf8StreamParser σ) (chunk : List UInt8) :
    Utf8StreamParser σ × Except Utf8StreamParserError (StreamTextChunk ε) :=
  let oldLen := self.pendingUtf8.length
  let pending := self.pendingUtf8 ++ chunk
  match fromUtf8 pending with
  | .ok text =>
      let (inner, out) := parser.pushStr self.inner text
      (⟨inner, []⟩, .ok out)
  | .error ⟨validUpTo, some errorLen⟩ =>
      (⟨self.inner, pending.take oldLen⟩, .error (.invalidUtf8 validUpTo errorLen))
  | .error ⟨validUpTo, none⟩ =>
      if validUpTo = 0 then (⟨self.inner, pending⟩, .ok .empty)
      else
        match fromUtf8 (pending.take validUpTo) with
        | .ok text =>
            let (inner, out) := parser.pushStr self.inner text
            (⟨inner, pending.drop validUpTo⟩, .ok out)
        | .error failure =>
            (⟨self.inner, pending.take oldLen⟩,
              .error (.invalidUtf8 failure.validUpTo (failure.errorLen.getD 0)))

/-- `Utf8StreamParser::finish`. -/
def finish (parser : StreamTextParser σ ε) (self : Utf8StreamParser σ) :
    Utf8StreamParser σ × Except Utf8StreamParserError (StreamTextChunk ε) :=
  if self.pendingUtf8.isEmpty then
    let (inner, tail) := parser.finish self.inner
    (⟨inner, []⟩, .ok (.empty ++ tail))
  else
    match fromUtf8 self.pendingUtf8 with
    | .ok text =>
        let (inner, out) := parser.pushStr self.inner text
        let (inner, tail) := parser.finish inner
        (⟨inner, []⟩, .ok (out ++ tail))
    | .error ⟨validUpTo, some errorLen⟩ => (self, .error (.invalidUtf8 validUpTo errorLen))
    | .error ⟨_, none⟩ => (self, .error .incompleteUtf8AtEof)

/-! ## One chunk -/

section Push

variable (parser : StreamTextParser σ ε) (self : Utf8StreamParser σ) (chunk : List UInt8)

/-- A chunk is refused and leaves nothing, or whole characters go to the wrapped parser and a part
of one is left over. -/
theorem pushBytes_cases :
    (∃ failure, pushBytes parser self chunk = (self, .error failure) ∧
        ∀ text, ¬self.pendingUtf8 ++ chunk <+: utf8.encodeAll text) ∨
      (pushBytes parser self chunk = (⟨self.inner, self.pendingUtf8 ++ chunk⟩, .ok .empty) ∧
        utf8.Unfinished (self.pendingUtf8 ++ chunk)) ∨
      ∃ text rest, self.pendingUtf8 ++ chunk = utf8.encodeAll text ++ rest ∧
        utf8.Unfinished rest ∧
        pushBytes parser self chunk =
          (⟨(parser.pushStr self.inner text).1, rest⟩,
            .ok (parser.pushStr self.inner text).2) := by
  cases decoded : fromUtf8 (self.pendingUtf8 ++ chunk) with
  | ok text =>
      refine .inr (.inr ⟨text, [], ?_, ?_, ?_⟩)
      · rw [List.append_nil]
        exact decode_eq_ok_iff.mp decoded
      · exact ⟨'a', List.nil_prefix, (utf8.encode_ne_nil 'a').symm⟩
      · simp only [pushBytes, decoded]
  | error failure =>
      obtain ⟨validUpTo, _ | errorLen⟩ := failure
      · obtain ⟨text, rest, whole, valid, -, unfinished⟩ := exists_of_decode_short decoded
        by_cases nothing : validUpTo = 0
        · refine .inr (.inl ⟨?_, ?_⟩)
          · simp only [pushBytes, decoded, if_pos nothing]
          · have empty := List.length_eq_zero_iff.mp (valid.symm.trans nothing)
            rw [whole, empty]
            exact unfinished
        · refine .inr (.inr ⟨text, rest, whole, unfinished, ?_⟩)
          have front : fromUtf8 ((self.pendingUtf8 ++ chunk).take validUpTo) = .ok text := by
            rw [whole, valid, List.take_left]
            exact decode_eq_ok_iff.mpr rfl
          have behind : (self.pendingUtf8 ++ chunk).drop validUpTo = rest := by
            rw [whole, valid, List.drop_left]
          simp only [pushBytes, decoded, if_neg nothing, front, behind]
      · refine .inl ⟨.invalidUtf8 validUpTo errorLen, ?_, not_isPrefix_of_decode_broken decoded⟩
        simp only [pushBytes, decoded, List.take_left]

/-- A chunk that is refused leaves nothing. -/
theorem pushBytes_of_error {failure : Utf8StreamParserError}
    (refused : (pushBytes parser self chunk).2 = .error failure) :
    (pushBytes parser self chunk).1 = self := by
  obtain ⟨_, push, -⟩ | ⟨push, -⟩ | ⟨text, rest, -, -, push⟩ := pushBytes_cases parser self chunk
  · rw [push]
  all_goals
    rw [push] at refused
    cases refused

end Push

/-! ## What the wrapped parser receives -/

/-- A parser, and the texts that it has received. -/
def recording (parser : StreamTextParser σ ε) : StreamTextParser (σ × List Text) ε where
  pushStr state text :=
    let (inner, out) := parser.pushStr state.1 text
    ((inner, state.2 ++ [text]), out)
  finish state :=
    let (inner, out) := parser.finish state.1
    ((inner, state.2), out)

/-- A parser without the record of its texts. -/
def forget (self : Utf8StreamParser (σ × List Text)) : Utf8StreamParser σ where
  inner := self.inner.1
  pendingUtf8 := self.pendingUtf8

/-- The texts that the wrapped parser receives while the chunks are pushed. -/
def received (parser : StreamTextParser σ ε) (start : σ) (chunks : List (List UInt8)) : List Text :=
  (feed (pushBytes (recording parser)) (new (start, [])) chunks).1.inner.2

/-- The chunks that are not refused. -/
def accepted {ω φ : Type*} : List (List UInt8) → List (Except φ ω) → List (List UInt8)
  | chunk :: chunks, .ok _ :: outs => chunk :: accepted chunks outs
  | _ :: chunks, .error _ :: outs => accepted chunks outs
  | _, _ => []

section Run

variable (parser : StreamTextParser σ ε)

theorem pushBytes_forget (self : Utf8StreamParser (σ × List Text)) (chunk : List UInt8) :
    pushBytes parser (forget self) chunk =
      (forget (pushBytes (recording parser) self chunk).1,
        (pushBytes (recording parser) self chunk).2) := by
  simp only [pushBytes, forget, recording]
  cases fromUtf8 (self.pendingUtf8 ++ chunk) with
  | ok text => rfl
  | error failure =>
      obtain ⟨validUpTo, _ | errorLen⟩ := failure
      · by_cases nothing : validUpTo = 0
        · simp only [if_pos nothing]
        · simp only [if_neg nothing]
          cases fromUtf8 ((self.pendingUtf8 ++ chunk).take validUpTo) <;> rfl
      · rfl

/-- The record makes no difference. -/
theorem feed_forget (self : Utf8StreamParser (σ × List Text)) (chunks : List (List UInt8)) :
    feed (pushBytes parser) (forget self) chunks =
      (forget (feed (pushBytes (recording parser)) self chunks).1,
        (feed (pushBytes (recording parser)) self chunks).2) :=
  feed_map forget (pushBytes_forget parser) self chunks

/-- What is accepted is received, but for a part of a character. -/
theorem feed_recording (self : Utf8StreamParser (σ × List Text)) (chunks : List (List UInt8))
    (unfinished : utf8.Unfinished self.pendingUtf8) :
    ∃ texts,
      let run := feed (pushBytes (recording parser)) self chunks
      run.1.inner = ((feed parser.pushStr self.inner.1 texts).1, self.inner.2 ++ texts) ∧
        self.pendingUtf8 ++ (accepted chunks run.2).flatten =
          utf8.encodeAll texts.flatten ++ run.1.pendingUtf8 ∧
        utf8.Unfinished run.1.pendingUtf8 := by
  induction chunks generalizing self with
  | nil => exact ⟨[], by simp [feed], by simp [feed, accepted, encodeAll], unfinished⟩
  | cons chunk chunks ih =>
      obtain ⟨failure, push, -⟩ | ⟨push, later⟩ | ⟨text, rest, whole, later, push⟩ :=
        pushBytes_cases (recording parser) self chunk
      · obtain ⟨texts, inner, whole, later⟩ := ih self unfinished
        refine ⟨texts, ?_⟩
        simp only [feed, push, accepted]
        exact ⟨inner, whole, later⟩
      · obtain ⟨texts, inner, whole, later⟩ :=
          ih ⟨self.inner, self.pendingUtf8 ++ chunk⟩ later
        refine ⟨texts, ?_⟩
        simp only [feed, push, accepted, List.flatten_cons, ← List.append_assoc]
        exact ⟨inner, whole, later⟩
      · obtain ⟨texts, inner, wholeRest, later⟩ :=
          ih ⟨((recording parser).pushStr self.inner text).1, rest⟩ later
        refine ⟨text :: texts, ?_⟩
        simp only [feed, push, accepted, List.flatten_cons, encodeAll_append]
        refine ⟨?_, ?_, later⟩
        · rw [inner]
          simp only [recording, List.append_assoc, List.singleton_append]
        · rw [← List.append_assoc, whole, List.append_assoc, List.append_assoc, wholeRest]

end Run

theorem length_le_of_unfinished {letters : List UInt8} (unfinished : utf8.Unfinished letters) :
    letters.length ≤ 3 := by
  obtain ⟨symbol, begins, apart⟩ := unfinished
  have most : (utf8.encode symbol).length ≤ 4 := length_utf8EncodeChar_le symbol
  have shorter : letters.length < (utf8.encode symbol).length :=
    lt_of_le_of_ne begins.length_le fun same => apart (begins.eq_of_length same)
  omega

/-- In the end a part of a character is refused, and nothing is lost. -/
theorem finish_of_unfinished (parser : StreamTextParser σ ε) {self : Utf8StreamParser σ}
    (unfinished : utf8.Unfinished self.pendingUtf8) (nonempty : self.pendingUtf8 ≠ []) :
    finish parser self = (self, .error .incompleteUtf8AtEof) := by
  have waits : self.pendingUtf8.isEmpty = false := by simpa using nonempty
  have short : fromUtf8 self.pendingUtf8 = .error ⟨0, none⟩ :=
    decode_of_unfinished nonempty unfinished
  rw [finish, waits, short]
  rfl

/-- Chunks of bytes are taken as a whole or not at all, and the wrapped parser receives what is
accepted, but for the bytes of a character that is not complete yet. -/
theorem transactional (parser : StreamTextParser σ ε) (start : σ) (chunks : List (List UInt8)) :
    (∀ self chunk failure, (pushBytes parser self chunk).2 = .error failure →
      (pushBytes parser self chunk).1 = self) ∧
    let run := feed (pushBytes parser) (new start) chunks
    let texts := received parser start chunks
    run.1.inner = (feed parser.pushStr start texts).1 ∧
      (∃ decoded, (accepted chunks run.2).flatten = decoded ++ run.1.pendingUtf8 ∧
        fromUtf8 decoded = .ok texts.flatten) ∧
      run.1.pendingUtf8.length ≤ 3 ∧
      ∃ character, run.1.pendingUtf8 <+: String.utf8EncodeChar character ∧
        run.1.pendingUtf8 ≠ String.utf8EncodeChar character := by
  refine ⟨fun self chunk _ => pushBytes_of_error parser self chunk, ?_⟩
  have unfinished : utf8.Unfinished [] := ⟨'a', List.nil_prefix, (utf8.encode_ne_nil 'a').symm⟩
  obtain ⟨texts, inner, whole, later⟩ :=
    feed_recording parser (new (start, [])) chunks unfinished
  have record : received parser start chunks = texts := by rw [received, inner]; rfl
  have same := feed_forget parser (new (start, [])) chunks
  have new_eq : forget (new (start, [])) = new start := rfl
  rw [new_eq] at same
  simp only [record, same, forget, inner]
  exact ⟨rfl, ⟨_, whole, decode_eq_ok_iff.mpr rfl⟩, length_le_of_unfinished later, later⟩

end Utf8StreamParser

end CodexPilot.StreamParser
