import CodexPilot.Config.Documents
import CodexPilot.Library.Transitions
import Mathlib.Data.List.Pairwise

/-!
# Concurrent edits of one configuration file

Each call reads the whole file, edits its own copy, and replaces the file.  Two calls that set
values at unrelated key paths both get them into the file exactly when all the paths can be written
and no call replaces a value of the other call that it has not read.
-/

namespace CodexPilot.Config

open RustStd Transitions

variable {α : Type*}

/-- `Scope`. -/
inductive Scope where
  | Global
  | Profile
  deriving DecidableEq

/-- The kinds of `ConfigEdit` that set or clear a value at a key path: at the path itself, or at a
path of a scope. -/
inductive ConfigEdit (α : Type*) where
  | SetPath (segments : List Text) (value : TomlItem α)
  | ClearPath (segments : List Text)
  | WriteValue (scope : Scope) (segments : List Text) (value : TomlItem α)
  | Clear (scope : Scope) (segments : List Text)

/-- `scoped_segments`. -/
def scopedSegments (profile : Option Text) (scope : Scope) (segments : List Text) : List Text :=
  match scope, profile with
  | .Profile, some profile =>
      if segments.head? = some "profiles".toList then segments
      else "profiles".toList :: profile :: segments
  | _, _ => segments

/-- `ConfigDocument::apply`. -/
def ConfigEdit.apply (profile : Option Text) (document : Document α) :
    ConfigEdit α → Bool × Document α
  | .SetPath segments value => document.insert value segments
  | .ClearPath segments => document.remove segments
  | .WriteValue scope segments value =>
      document.insert value (scopedSegments profile scope segments)
  | .Clear scope segments => document.remove (scopedSegments profile scope segments)

/-- Apply the edits in order, and say whether one of them has changed something. -/
def applyEdits (profile : Option Text) (edits : List (ConfigEdit α)) (document : Document α) :
    Bool × Document α :=
  edits.foldl
    (fun state edit =>
      let applied := edit.apply profile state.2
      (state.1 || applied.1, applied.2))
    (false, document)

/-- The file: missing, not a TOML document, or the document that it holds. -/
inductive ConfigFile (α : Type*) where
  | missing
  | malformed
  | holds (document : Document α)

/-- What a call has read: an error, or the document that it edits. -/
def ConfigFile.read : ConfigFile α → Option (Document α)
  | .missing => some []
  | .malformed => none
  | .holds document => some document

/-- Where a call of `apply_blocking` is. -/
inductive Progress (α : Type*) where
  | called
  /-- It has read the file. -/
  | loaded (document : Document α)
  /-- It has edited a copy of what it has read. -/
  | edited (original : Document α) (mutated : Bool) (copy : Document α)
  /-- It has returned, `Ok` or not. -/
  | returned (ok : Bool)

/-- Two calls of `apply_blocking` on one file. -/
structure Calls (α : Type*) where
  file : ConfigFile α
  progress : Bool → Progress α

/-- A step of one of two calls. -/
inductive CallEvent where
  | read (call : Bool)
  | edit (call : Bool)
  | write (call : Bool)

/-- The profile that a call edits: the one that it is given, or the one of the document. -/
def resolveProfile (asText : TomlItem α → Option Text) (profile : Option Text)
    (document : Document α) : Option Text :=
  profile.or ((document.get ["profile".toList]).bind asText)

/-- What the calls are given. -/
structure Arguments (α : Type*) where
  profile : Bool → Option Text
  edits : Bool → List (ConfigEdit α)

namespace Calls

variable (asText : TomlItem α → Option Text) (arguments : Arguments α)

def proceed (calls : Calls α) (call : Bool) (progress : Progress α) : Calls α :=
  { calls with progress := Function.update calls.progress call progress }

/-- One step of a call; none where the event is not possible. -/
def step (calls : Calls α) : CallEvent → Option (Calls α)
  | .read call =>
      match calls.progress call with
      | .called =>
          if (arguments.edits call).isEmpty then some (calls.proceed call (.returned true))
          else
            match calls.file.read with
            | some document => some (calls.proceed call (.loaded document))
            | none => some (calls.proceed call (.returned false))
      | _ => none
  | .edit call =>
      match calls.progress call with
      | .loaded document =>
          let edited := applyEdits (resolveProfile asText (arguments.profile call) document)
            (arguments.edits call) document
          some (calls.proceed call (.edited document edited.1 edited.2))
      | _ => none
  | .write call =>
      match calls.progress call with
      | .edited _ false _ => some (calls.proceed call (.returned true))
      | .edited _ true copy =>
          some
            { calls.proceed call (.returned true) with file := .holds copy }
      | _ => none

end Calls

/-! ## Values at unrelated key paths -/

/-- A key path with the value that is set there. -/
abbrev Setting (α : Type*) := List Text × TomlItem α

/-- Neither path is above the other one. -/
def Unrelated (path other : List Text) : Prop := ¬path <+: other ∧ ¬other <+: path

theorem Unrelated.symm {path other : List Text} (unrelated : Unrelated path other) :
    Unrelated other path :=
  ⟨unrelated.2, unrelated.1⟩

/-- The edits that set values. -/
def setPaths (settings : List (Setting α)) : List (ConfigEdit α) :=
  settings.map fun setting => .SetPath setting.1 setting.2

/-- The document with the values set, one after the other. -/
def Document.insertAll (document : Document α) (settings : List (Setting α)) : Document α :=
  settings.foldl (fun document setting => (document.insert setting.2 setting.1).2) document

section Settings

variable {profile : Option Text} {document : Document α} {settings : List (Setting α)}
  {path : List Text}

theorem applyEdits_snd :
    (applyEdits profile (setPaths settings) document).2 = document.insertAll settings := by
  rw [applyEdits, setPaths, List.foldl_map]
  generalize false = mutated
  induction settings generalizing mutated document with
  | nil => rfl
  | cons setting settings ih => exact ih _

/-- One value that can be set is a change. -/
theorem applyEdits_fst {setting : Setting α} (opened : document.opens setting.1 = true) :
    (applyEdits profile (setPaths (setting :: settings)) document).1 = true := by
  rw [applyEdits, setPaths, List.map_cons, List.foldl_cons, List.foldl_map]
  have first : (ConfigEdit.apply profile document (.SetPath setting.1 setting.2)).1 = true :=
    Document.insert_fst.trans opened
  simp only [first, Bool.or_true]
  generalize (ConfigEdit.apply profile document (.SetPath setting.1 setting.2)).2 = state
  induction settings generalizing state with
  | nil => rfl
  | cons setting settings ih => exact ih _

/-- Settings elsewhere leave what is at a path. -/
theorem get_insertAll (unrelated : ∀ setting ∈ settings, Unrelated setting.1 path) :
    (document.insertAll settings).get path = document.get path := by
  induction settings generalizing document with
  | nil => rfl
  | cons setting settings ih =>
      obtain ⟨own, rest⟩ := List.forall_mem_cons.mp unrelated
      exact (ih rest).trans (Document.insert_of_apart own.1 own.2).1

/-- Settings at a path or elsewhere leave it whether the path can be written. -/
theorem opens_insertAll
    (unrelated : ∀ setting ∈ settings, setting.1 = path ∨ Unrelated setting.1 path) :
    (document.insertAll settings).opens path = document.opens path := by
  induction settings generalizing document with
  | nil => rfl
  | cons setting settings ih =>
      obtain ⟨own, rest⟩ := List.forall_mem_cons.mp unrelated
      refine (ih rest).trans ?_
      obtain rfl | apart := own
      · exact Document.opens_insert_self
      · exact (Document.insert_of_apart apart.1 apart.2).2

/-- Unrelated settings at paths that can be written are all there in the end. -/
theorem get_insertAll_of_mem
    (unrelated : settings.Pairwise fun setting other => Unrelated setting.1 other.1)
    (opened : ∀ setting ∈ settings, document.opens setting.1 = true) :
    ∀ setting ∈ settings, (document.insertAll settings).get setting.1 = some setting.2 := by
  induction settings generalizing document with
  | nil => exact fun _ member => absurd member List.not_mem_nil
  | cons first settings ih =>
      obtain ⟨others, rest⟩ := List.pairwise_cons.mp unrelated
      obtain ⟨own, later⟩ := List.forall_mem_cons.mp opened
      refine List.forall_mem_cons.mpr ⟨?_, ?_⟩
      · exact (get_insertAll fun other member => (others other member).symm).trans
          (Document.get_insert_self own)
      · refine ih rest fun setting member => ?_
        rw [(Document.insert_of_apart (others setting member).1 (others setting member).2).2]
        exact later setting member

end Settings

/-! ## Two calls -/

section Calls

variable (settings : Bool → List (Setting α))

/-- The file has the value at a key path. -/
def ConfigFile.get (file : ConfigFile α) (path : List Text) : Option (TomlItem α) :=
  file.read.bind fun document => document.get path

/-- A key path can be written in the file. -/
def ConfigFile.opens (file : ConfigFile α) (path : List Text) : Bool :=
  file.read.any fun document => document.opens path

/-- The file has the values of both calls. -/
def HasBoth (file : ConfigFile α) : Prop :=
  ∀ call, ∀ setting ∈ settings call, file.get setting.1 = some setting.2

/-- All key paths of the two calls are unrelated. -/
def AllUnrelated : Prop :=
  (settings true ++ settings false).Pairwise fun setting other => Unrelated setting.1 other.1

/-- A call that replaces the file has read what the file has of the values of the other call. -/
def HasReadOther (calls : Calls α) : CallEvent → Prop
  | .write call => ∀ original copy, calls.progress call = .edited original true copy →
      ∀ setting ∈ settings (!call), calls.file.get setting.1 = some setting.2 →
        original.get setting.1 = some setting.2
  | _ => True

/-- What the file holds, or a call has read. -/
inductive Seen (calls : Calls α) : Document α → Prop
  | file {document : Document α} (reads : calls.file.read = some document) : Seen calls document
  | loaded (call : Bool) {document : Document α}
      (loaded : calls.progress call = .loaded document) : Seen calls document
  | edited (call : Bool) {document copy : Document α} {mutated : Bool}
      (edited : calls.progress call = .edited document mutated copy) : Seen calls document

/-- The state of the calls against the file that they have started with. -/
structure Consistent (start : ConfigFile α) (calls : Calls α) : Prop where
  /-- Whether a key path can be written is the same throughout. -/
  opens : ∀ document, Seen calls document → ∀ call, ∀ setting ∈ settings call,
    document.opens setting.1 = start.opens setting.1
  /-- A call that has not returned has not set its values. -/
  unwritten : ∀ call, (∀ ok, calls.progress call ≠ .returned ok) → ∀ document,
    Seen calls document → ∀ setting ∈ settings call, document.get setting.1 = start.get setting.1
  copies : ∀ call original mutated copy, calls.progress call = .edited original mutated copy →
    settings call ≠ [] ∧
      ∃ profile, applyEdits profile (setPaths (settings call)) original = (mutated, copy)
  loaded : ∀ call document, calls.progress call = .loaded document → settings call ≠ []

end Calls

section Runs

variable {settings : Bool → List (Setting α)} {asText : TomlItem α → Option Text}
  {profile : Bool → Option Text} {start : ConfigFile α} {calls next : Calls α} {event : CallEvent}

/-- What the calls are given: a profile and the values that they set. -/
def setting (profile : Bool → Option Text) (settings : Bool → List (Setting α)) : Arguments α where
  profile := profile
  edits call := setPaths (settings call)

theorem Calls.progress_proceed_self (call : Bool) (progress : Progress α) :
    (calls.proceed call progress).progress call = progress :=
  Function.update_self ..

theorem Calls.progress_proceed_of_ne {call other : Bool} (apart : other ≠ call)
    (progress : Progress α) : (calls.proceed call progress).progress other = calls.progress other :=
  Function.update_of_ne apart ..

/-- What is seen behind a step that leaves the file has been seen before it, when the call that
takes the step has seen it. -/
theorem Seen.of_proceed {call : Bool} {progress : Progress α} {document : Document α}
    (seen : Seen (calls.proceed call progress) document)
    (loaded : progress = .loaded document → Seen calls document)
    (edited : ∀ mutated copy, progress = .edited document mutated copy → Seen calls document) :
    Seen calls document := by
  cases seen with
  | file reads => exact .file reads
  | loaded other found =>
      obtain rfl | apart := eq_or_ne other call
      · exact loaded ((Calls.progress_proceed_self _ _).symm.trans found)
      · exact .loaded other ((Calls.progress_proceed_of_ne apart _).symm.trans found)
  | edited other found =>
      obtain rfl | apart := eq_or_ne other call
      · exact edited _ _ ((Calls.progress_proceed_self _ _).symm.trans found)
      · exact .edited other ((Calls.progress_proceed_of_ne apart _).symm.trans found)

/-- The copy of a call that has edited is what it has loaded, with its values. -/
theorem Consistent.copied (consistent : Consistent settings start calls) {call mutated : Bool}
    {original copy : Document α} (edited : calls.progress call = .edited original mutated copy) :
    copy = original.insertAll (settings call) := by
  obtain ⟨nonempty, profile', applied⟩ := consistent.copies call original mutated copy edited
  have second : (applyEdits profile' (setPaths (settings call)) original).2 =
      original.insertAll (settings call) := applyEdits_snd
  rw [← second, applied]

/-- A step of a call that leaves the file, and ends with what has been seen, keeps the state
consistent. -/
theorem Consistent.proceed (consistent : Consistent settings start calls) {call : Bool}
    {progress : Progress α} (loaded : ∀ document, progress = .loaded document →
      Seen calls document ∧ settings call ≠ [])
    (edited : ∀ document mutated copy, progress = .edited document mutated copy →
      Seen calls document ∧ settings call ≠ [] ∧
        ∃ profile, applyEdits profile (setPaths (settings call)) document = (mutated, copy))
    (going : (∀ ok, progress ≠ .returned ok) → ∀ ok, calls.progress call ≠ .returned ok) :
    Consistent settings start (calls.proceed call progress) := by
  have before {document : Document α} (seen : Seen (calls.proceed call progress) document) :
      Seen calls document :=
    seen.of_proceed (fun same => (loaded document same).1)
      fun mutated copy same => (edited document mutated copy same).1
  constructor
  · exact fun document seen => consistent.opens document (before seen)
  · intro other running document seen
    refine consistent.unwritten other ?_ document (before seen)
    obtain rfl | apart := eq_or_ne other call
    · refine going fun ok returned => running ok ?_
      rw [Calls.progress_proceed_self, returned]
    · intro ok returned
      exact running ok ((Calls.progress_proceed_of_ne apart _).trans returned)
  · intro other original mutated copy found
    obtain rfl | apart := eq_or_ne other call
    · rw [Calls.progress_proceed_self] at found
      exact (edited original mutated copy found).2
    · rw [Calls.progress_proceed_of_ne apart] at found
      exact consistent.copies other original mutated copy found
  · intro other document found
    obtain rfl | apart := eq_or_ne other call
    · rw [Calls.progress_proceed_self] at found
      exact (loaded document found).2
    · rw [Calls.progress_proceed_of_ne apart] at found
      exact consistent.loaded other document found

/-- Where all key paths can be written, and calls have read what they replace, a call that has
returned `Ok` has its values in the file. -/
def Held (settings : Bool → List (Setting α)) (calls : Calls α) : Prop :=
  ∀ call, calls.progress call = .returned true →
    ∀ setting ∈ settings call, calls.file.get setting.1 = some setting.2

theorem Held.proceed (held : Held settings calls) {call : Bool} {progress : Progress α}
    (own : progress = .returned true → settings call = []) :
    Held settings (calls.proceed call progress) := by
  intro other returned setting member
  obtain rfl | apart := eq_or_ne other call
  · rw [Calls.progress_proceed_self] at returned
    rw [own returned] at member
    cases member
  · exact held other ((Calls.progress_proceed_of_ne apart _).symm.trans returned) setting member

/-- Both calls have returned, and the file does not have all their values. -/
def Lost (settings : Bool → List (Setting α)) (calls : Calls α) : Prop :=
  (∀ call, ∃ ok, calls.progress call = .returned ok) ∧ ¬HasBoth settings calls.file

/-- When both calls have returned there is no further step. -/
theorem step_eq_none_of_returned {arguments : Arguments α}
    (returned : ∀ call, ∃ ok, calls.progress call = .returned ok) :
    calls.step asText arguments event = none := by
  cases event with
  | read call | edit call | write call =>
      obtain ⟨ok, done⟩ := returned call
      simp [Calls.step, done]

section Unrelated

variable (unrelated : AllUnrelated settings)
include unrelated

theorem unrelated_own (call : Bool) :
    (settings call).Pairwise fun setting other => Unrelated setting.1 other.1 := by
  obtain ⟨first, second, -⟩ := List.pairwise_append.mp unrelated
  cases call
  · exact second
  · exact first

theorem unrelated_other {call : Bool} {setting other : Setting α} (member : setting ∈ settings call)
    (member' : other ∈ settings !call) : Unrelated setting.1 other.1 := by
  obtain ⟨-, -, across⟩ := List.pairwise_append.mp unrelated
  cases call
  · exact (across other member' setting member).symm
  · exact across setting member other member'

/-- The values of a call leave it whether the key paths can be written. -/
theorem opens_copy {call other : Bool} {setting : Setting α} (member : setting ∈ settings other)
    (original : Document α) :
    (original.insertAll (settings call)).opens setting.1 = original.opens setting.1 := by
  refine opens_insertAll fun own among => ?_
  obtain rfl | apart := eq_or_ne other call
  · obtain same | differ := eq_or_ne own.1 setting.1
    · exact .inl same
    · have symmetric : Std.Symm fun setting other : Setting α => Unrelated setting.1 other.1 :=
        ⟨fun _ _ apart => apart.symm⟩
      exact .inr ((unrelated_own unrelated other).forall among member
        fun same => differ (same ▸ rfl))
  · obtain rfl : other = !call := Bool.eq_not_of_ne apart
    exact .inr (unrelated_other unrelated among member)

theorem Consistent.step (consistent : Consistent settings start calls)
    (stepped : calls.step asText (setting profile settings) event = some next) :
    Consistent settings start next := by
  cases event with
  | read call =>
      simp only [Calls.step] at stepped
      split at stepped
      case h_2 => cases stepped
      case h_1 called =>
        have running : ∀ ok, calls.progress call ≠ .returned ok := fun ok returned => by
          cases called.symm.trans returned
        split at stepped
        case isTrue =>
          cases stepped
          exact consistent.proceed (fun _ same => nomatch same) (fun _ _ _ same => nomatch same)
            fun _ => running
        case isFalse nonempty =>
          split at stepped
          case h_1 document reads =>
            cases stepped
            refine consistent.proceed (fun other same => ?_) (fun _ _ _ same => nomatch same)
              fun _ => running
            cases same
            refine ⟨.file reads, fun empty => nonempty ?_⟩
            simp [setting, setPaths, empty]
          case h_2 =>
            cases stepped
            exact consistent.proceed (fun _ same => nomatch same) (fun _ _ _ same => nomatch same)
              fun _ => running
  | edit call =>
      simp only [Calls.step] at stepped
      split at stepped
      case h_2 => cases stepped
      case h_1 document loaded =>
        cases stepped
        refine consistent.proceed (fun _ same => nomatch same) (fun other mutated copy same => ?_)
          fun _ ok returned => by cases loaded.symm.trans returned
        cases same
        exact ⟨.loaded call loaded, consistent.loaded call document loaded, _, rfl⟩
  | write call =>
      simp only [Calls.step] at stepped
      split at stepped
      case h_3 => cases stepped
      case h_1 original copy edited =>
        cases stepped
        exact consistent.proceed (fun _ same => nomatch same) (fun _ _ _ same => nomatch same)
          fun _ ok returned => by cases edited.symm.trans returned
      case h_2 original copy edited =>
        cases stepped
        have copied := consistent.copied edited
        have proceeded : Consistent settings start (calls.proceed call (.returned true)) :=
          consistent.proceed (fun _ same => nomatch same) (fun _ _ _ same => nomatch same)
            fun _ ok returned => by cases edited.symm.trans returned
        have seen : Seen calls original := .edited call edited
        constructor
        · intro document sees other own member
          cases sees with
          | file reads =>
              cases reads
              rw [copied, opens_copy unrelated member]
              exact consistent.opens original seen other own member
          | loaded other' loaded =>
              exact proceeded.opens document (.loaded other' loaded) other own member
          | edited other' edited =>
              exact proceeded.opens document (.edited other' edited) other own member
        · intro other running document sees own member
          cases sees with
          | file reads =>
              cases reads
              have apart : other ≠ call := by
                rintro rfl
                exact running true (Calls.progress_proceed_self other _)
              obtain rfl : other = !call := Bool.eq_not_of_ne apart
              rw [copied, get_insertAll fun setting among =>
                unrelated_other unrelated among member]
              refine consistent.unwritten _ (fun ok returned => running ok ?_) original seen own
                member
              exact (Calls.progress_proceed_of_ne apart _).trans returned
          | loaded other' loaded =>
              exact proceeded.unwritten other running document (.loaded other' loaded) own member
          | edited other' edited =>
              exact proceeded.unwritten other running document (.edited other' edited) own member
        · exact proceeded.copies
        · exact proceeded.loaded

theorem Held.step (held : Held settings calls) (consistent : Consistent settings start calls)
    (opened : ∀ call, ∀ setting ∈ settings call, start.opens setting.1 = true)
    (reads : HasReadOther settings calls event)
    (stepped : calls.step asText (setting profile settings) event = some next) :
    Held settings next := by
  cases event with
  | read call =>
      simp only [Calls.step] at stepped
      split at stepped
      case h_2 => cases stepped
      case h_1 called =>
        split at stepped
        case isTrue empty =>
          cases stepped
          refine held.proceed fun _ => ?_
          simpa [setting, setPaths] using empty
        case isFalse =>
          split at stepped
          case h_1 | h_2 =>
            cases stepped
            exact held.proceed fun same => nomatch same
  | edit call =>
      simp only [Calls.step] at stepped
      split at stepped
      case h_2 => cases stepped
      case h_1 =>
        cases stepped
        exact held.proceed fun same => nomatch same
  | write call =>
      have openedIn {original copy : Document α} {mutated : Bool}
          (edited : calls.progress call = .edited original mutated copy) :
          ∀ setting ∈ settings call, original.opens setting.1 = true := fun own member =>
        (consistent.opens original (.edited call edited) call own member).trans
          (opened call own member)
      simp only [Calls.step] at stepped
      split at stepped
      case h_3 => cases stepped
      case h_1 original copy edited =>
        cases stepped
        refine held.proceed fun _ => ?_
        obtain ⟨nonempty, profile', applied⟩ := consistent.copies call original false copy edited
        cases own : settings call with
        | nil => rfl
        | cons first rest =>
            have changed : (applyEdits profile' (setPaths (first :: rest)) original).1 = true :=
              applyEdits_fst (openedIn edited first (own ▸ List.mem_cons_self))
            rw [← own, applied] at changed
            cases changed
      case h_2 original copy edited =>
        cases stepped
        have copied := consistent.copied edited
        intro other returned own member
        change copy.get own.1 = some own.2
        rw [copied]
        obtain rfl | apart := eq_or_ne other call
        · exact get_insertAll_of_mem (unrelated_own unrelated other) (openedIn edited) own member
        · have before : calls.progress other = .returned true :=
            (Calls.progress_proceed_of_ne apart _).symm.trans returned
          obtain rfl : other = !call := Bool.eq_not_of_ne apart
          rw [get_insertAll fun setting among => unrelated_other unrelated among member]
          exact reads original copy edited own member (held _ before own member)

/-- A call that replaces a value of the other call that it has not read loses it for good. -/
theorem lost_of_step (consistent : Consistent settings start calls)
    (unread : ¬HasReadOther settings calls event)
    (stepped : calls.step asText (setting profile settings) event = some next) :
    Lost settings next := by
  cases event with
  | read call | edit call => exact absurd trivial unread
  | write call =>
      simp only [HasReadOther, not_forall] at unread
      obtain ⟨original, copy, edited, own, member, has, misses⟩ := unread
      simp only [Calls.step, edited] at stepped
      cases stepped
      have copied := consistent.copied edited
      have apart : (!call) ≠ call := by cases call <;> simp
      refine ⟨fun other => ?_, fun both => misses ?_⟩
      · obtain rfl | differ := eq_or_ne other call
        · exact ⟨true, Calls.progress_proceed_self other _⟩
        · obtain rfl : other = !call := Bool.eq_not_of_ne differ
          by_contra running
          have notReturned : ∀ ok, calls.progress (!call) ≠ .returned ok := fun ok returned =>
            running ⟨ok, (Calls.progress_proceed_of_ne apart _).trans returned⟩
          obtain ⟨document, reads, held⟩ := Option.bind_eq_some_iff.mp has
          have same := consistent.unwritten _ notReturned document (.file reads) own member
          rw [consistent.unwritten _ notReturned original (.edited call edited) own member,
            ← same, held] at misses
          exact misses rfl
      · have holds := both (!call) own member
        change copy.get own.1 = some own.2 at holds
        rwa [copied, get_insertAll fun setting among =>
          unrelated_other unrelated among member] at holds

/-- When both calls have returned `Ok`, the file has all their values exactly when all key paths can
be written, and no call has replaced a value of the other one that it had not read. -/
theorem hasBoth_iff_of_run (events : List CallEvent) (final : Calls α)
    (ran : run (Calls.step asText (setting profile settings)) ⟨start, fun _ => .called⟩ events =
      some final) (ok : ∀ call, final.progress call = .returned true) :
    HasBoth settings final.file ↔
      (∀ call, ∀ setting ∈ settings call, start.opens setting.1 = true) ∧
        Along (Calls.step asText (setting profile settings)) (HasReadOther settings)
          ⟨start, fun _ => .called⟩ events := by
  have kept : ∀ (calls : Calls α) event next, Consistent settings start calls →
      calls.step asText (setting profile settings) event = some next →
      Consistent settings start next :=
    fun calls event next consistent stepped => consistent.step unrelated stepped
  have begins : Consistent settings start ⟨start, fun _ => .called⟩ := by
    have seen {document : Document α} (seen : Seen ⟨start, fun _ => .called⟩ document) :
        start.read = some document := by
      cases seen with
      | file reads => exact reads
      | loaded call loaded => cases loaded
      | edited call edited => cases edited
    refine ⟨fun document sees call own member => ?_, fun call _ document sees own member => ?_,
      fun _ _ _ _ edited => ?_, fun _ _ loaded => ?_⟩
    · simp [ConfigFile.opens, seen sees]
    · simp [ConfigFile.get, seen sees]
    · cases edited
    · cases loaded
  constructor
  · intro both
    constructor
    · intro call own member
      obtain ⟨document, reads, held⟩ := Option.bind_eq_some_iff.mp (both call own member)
      have reached : Consistent settings start final := preserved_of_run kept begins ran
      rw [← reached.opens document (.file reads) call own member]
      by_contra closed
      rw [Document.get_eq_none_of_not_opens (by simpa using closed)] at held
      cases held
    · have along := along_of_invariant kept begins events
      refine along_of_unspoilt (fun calls event next consistent unread stepped =>
        lost_of_step unrelated consistent unread stepped) ?_ along ran fun lost => lost.2 both
      intro calls event next lost _ stepped
      rw [step_eq_none_of_returned lost.1] at stepped
      cases stepped
  · rintro ⟨opened, along⟩ call own member
    have together := along_and (along_of_invariant kept begins events) along
    have keeps : ∀ (calls : Calls α) event next, Held settings calls →
        Consistent settings start calls ∧ HasReadOther settings calls event →
        calls.step asText (setting profile settings) event = some next → Held settings next :=
      fun calls event next held met stepped => held.step unrelated met.1 opened met.2 stepped
    have first : Held settings ⟨start, fun _ => .called⟩ := fun _ returned => nomatch returned
    exact invariant_of_run keeps first together ran call (ok call) own member

end Unrelated

/-- The model is written by one call, the approval policy by the other one. -/
def modelAndPolicy (call : Bool) : List (Setting Text) :=
  if call then [(["model".toList], .value "m".toList)]
  else [(["approval_policy".toList], .value "never".toList)]

/-- One call behind the other. -/
def inTurn : List CallEvent :=
  [.read true, .edit true, .write true, .read false, .edit false, .write false]

/-- Both read before one of them writes. -/
def readTogether : List CallEvent :=
  [.read true, .read false, .edit true, .edit false, .write true, .write false]

theorem hasBoth_inTurn :
    ∃ final, run (Calls.step (fun _ => none) (setting (fun _ => none) modelAndPolicy))
        ⟨.missing, fun _ => .called⟩ inTurn = some final ∧
      HasBoth modelAndPolicy final.file := by
  have unrelated : AllUnrelated modelAndPolicy := by
    simp [AllUnrelated, modelAndPolicy, Unrelated]
  obtain ⟨final, ran, returned⟩ : ∃ final,
      run (Calls.step (fun _ => none) (setting (fun _ => none) modelAndPolicy))
          ⟨.missing, fun _ => .called⟩ inTurn = some final ∧
        ∀ call, final.progress call = .returned true :=
    ⟨_, rfl, fun call => by cases call <;> rfl⟩
  have reads : Along (Calls.step (fun _ => none) (setting (fun _ => none) modelAndPolicy))
      (HasReadOther modelAndPolicy) ⟨.missing, fun _ => .called⟩ inTurn := by
    refine along_cons rfl trivial (along_cons rfl trivial (along_cons rfl ?_ ?_))
    · intro original copy edited own member has
      cases List.mem_singleton.mp member
      cases has
    · refine along_cons rfl trivial (along_cons rfl trivial (along_cons rfl ?_ trivial))
      intro original copy edited own member has
      cases edited
      cases List.mem_singleton.mp member
      rfl
  refine ⟨final, ran, (hasBoth_iff_of_run unrelated inTurn final ran returned).mpr ⟨?_, reads⟩⟩
  intro call own member
  cases call <;> cases List.mem_singleton.mp member <;> rfl

/-- The call that writes last replaces the file with what it has read before: the model is lost. -/
theorem not_hasBoth_readTogether :
    ∃ final, run (Calls.step (fun _ => none) (setting (fun _ => none) modelAndPolicy))
        ⟨.missing, fun _ => .called⟩ readTogether = some final ∧
      (∀ call, final.progress call = .returned true) ∧
      final.file.get ["model".toList] = none ∧ ¬HasBoth modelAndPolicy final.file := by
  refine ⟨_, rfl, fun call => by cases call <;> rfl, rfl, fun both => ?_⟩
  cases both true _ (List.mem_singleton_self _)

end Runs

end CodexPilot.Config
