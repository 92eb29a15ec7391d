import CodexPilot.Library.Framing
import CodexPilot.Library.Transitions
import CodexPilot.RustStd.Text

/-!
# Frames over the escalation socket

A frame is the length of a payload in four bytes and the payload.  The sending loop hands the socket
what is left of a frame, with the descriptors the first time, and the socket takes as many bytes as
it likes.  The receiving loops read what the socket gives them, and the first read of a header takes
the descriptors.

What the receiver has consumed of a frame, what is on the stream and what the sender has still to
hand to it are together the frames of the messages that are not received yet, however reads and
writes are cut.
-/

namespace CodexPilot.ShellEscalation
namespace Socket

open RustStd Transitions

/-- `MAX_FDS_PER_MESSAGE`. -/
def maxFdsPerMessage : ℕ := 16

/-- `LENGTH_PREFIX_SIZE`. -/
def lengthPrefixSize : ℕ := 4

/-- `io::Error`: its kind and its message. -/
inductive SocketError
  | invalidInput (message : Text)
  | unexpectedEof (message : Text)
  | writeZero (message : Text)
  deriving DecidableEq

/-- `to_le_bytes` of a number, in so many bytes. -/
def toLeBytes : ℕ → ℕ → List UInt8
  | 0, _ => []
  | size + 1, number => UInt8.ofNat number :: toLeBytes size (number / 256)

/-- `from_le_bytes`. -/
def fromLeBytes : List UInt8 → ℕ
  | [] => 0
  | byte :: bytes => byte.toNat + 256 * fromLeBytes bytes

/-- `encode_length`. -/
def encodeLength (len : ℕ) : Except SocketError (List UInt8) :=
  if len < UInt32.size then .ok (toLeBytes lengthPrefixSize len)
  else .error (.invalidInput ("message too large: ".toList ++ (toString len).toList))

/-- A payload and the descriptors that go with it. -/
structure Message (δ : Type*) where
  payload : List UInt8
  fds : List δ
  deriving DecidableEq

/-- A byte on the stream, with the descriptors of the write that it is the first byte of. -/
structure Cell (δ : Type*) where
  byte : UInt8
  fds : List δ
  deriving DecidableEq

variable {δ : Type*}

/-- What a write puts on the stream. -/
def attach (fds : List δ) : List UInt8 → List (Cell δ)
  | [] => []
  | byte :: bytes => ⟨byte, fds⟩ :: bytes.map fun byte => ⟨byte, []⟩

/-- `make_control_message`: a control message is its descriptors. -/
def makeControlMessage (fds : List δ) : Except SocketError (List δ) :=
  if maxFdsPerMessage < fds.length then
    .error (.invalidInput ("too many fds: ".toList ++ (toString fds.length).toList))
  else .ok fds

/-! ## Sending -/

/-- Where the loop of `send_stream_frame` is. -/
structure Sending (δ : Type*) where
  frame : List UInt8
  fds : List δ
  written : ℕ
  includeFds : Bool
  deriving DecidableEq

/-- `send_with_fds`, up to its loop. -/
def sendWithFds (message : Message δ) : Except SocketError (Sending δ) :=
  (encodeLength message.payload.length).map fun header =>
    { frame := header ++ message.payload
      fds := message.fds
      written := 0
      includeFds := !message.fds.isEmpty }

/-- `send_stream_chunk`, of which the socket takes so many bytes: what goes on the stream. -/
def sendStreamChunk (sending : Sending δ) (count : ℕ) : Except SocketError (List (Cell δ)) :=
  (if sending.includeFds then makeControlMessage sending.fds else .ok []).map fun control =>
    attach control ((sending.frame.drop sending.written).take count)

/-- The sending side: the frame under way, what is to be sent after it, and the error of a send. -/
structure Sender (δ : Type*) where
  current : Option (Sending δ)
  pending : List (Message δ)
  error : Option SocketError
  deriving DecidableEq

/-! ## Receiving -/

/-- Where `read_frame` is: in `read_frame_header` or in `read_frame_payload`, with what it has. -/
inductive Reading (δ : Type*)
  | frameHeader (header : List UInt8) (control : List δ) (capturedControl : Bool)
  | framePayload (messageLen : ℕ) (fds : List δ) (payload : List UInt8)
  deriving DecidableEq

/-- `read_frame_header`, before its first read. -/
def Reading.start : Reading δ := .frameHeader [] [] false

/-- What a round of a loop leads to. -/
inductive Round (δ : Type*)
  | again (reading : Reading δ)
  | received (message : Message δ)
  | failed (error : SocketError)

/-- How many bytes the next read has room for. -/
def Reading.room : Reading δ → ℕ
  | .frameHeader header _ _ => lengthPrefixSize - header.length
  | .framePayload messageLen _ payload => messageLen - payload.length

/-- One round of the loop of `read_frame_header`, of what `recvmsg` or `recv` has given.  The
control buffer has space for so many descriptors; `recv` takes none.  A message without payload is
read at once. -/
def readFrameHeader (header : List UInt8) (control : List δ) (capturedControl : Bool)
    (given : List (Cell δ)) : Round δ :=
  let control :=
    if capturedControl then control
    else (given.head?.elim [] fun cell => cell.fds).take maxFdsPerMessage
  if given = [] then
    .failed (.unexpectedEof "socket closed while receiving frame header".toList)
  else
    let header := header ++ given.map fun cell => cell.byte
    if header.length = lengthPrefixSize then
      let messageLen := fromLeBytes header
      if messageLen = 0 then .received ⟨[], control⟩
      else .again (.framePayload messageLen control [])
    else .again (.frameHeader header control true)

/-- One round of the loop of `read_frame_payload`, of what `recv` has given. -/
def readFramePayload (messageLen : ℕ) (fds : List δ) (payload : List UInt8)
    (given : List (Cell δ)) : Round δ :=
  if given = [] then
    .failed (.unexpectedEof "socket closed while receiving frame payload".toList)
  else
    let payload := payload ++ given.map fun cell => cell.byte
    if payload.length = messageLen then .received ⟨payload, fds⟩
    else .again (.framePayload messageLen fds payload)

/-- One round of `read_frame`. -/
def Reading.round : Reading δ → List (Cell δ) → Round δ
  | .frameHeader header control capturedControl => readFrameHeader header control capturedControl
  | .framePayload messageLen fds payload => readFramePayload messageLen fds payload

/-! ## The two ends -/

/-- A sending side, a stream that its end may have closed, and a receiving side. -/
structure Link (δ : Type*) where
  sender : Sender δ
  closed : Bool
  stream : List (Cell δ)
  reading : Reading δ
  error : Option SocketError
  received : List (Message δ)
  deriving DecidableEq

/-- The sender begins the next message, or the stream takes bytes of the frame under way; the
sender's end is closed; the receiver is given bytes, none at the end of the stream. -/
inductive Event
  | begin
  | write (count : ℕ)
  | close
  | read (count : ℕ)

/-- What a read gives: bytes from the front of the stream, of which only the first may have
descriptors; nothing when the stream has ended. -/
def recv [DecidableEq δ] (closed : Bool) (stream : List (Cell δ)) (room count : ℕ) :
    Option (List (Cell δ)) :=
  if stream = [] then if closed ∧ count = 0 then some [] else none
  else if 0 < count ∧ count ≤ room ∧ count ≤ stream.length ∧
      ∀ cell ∈ (stream.take count).tail, cell.fds = [] then some (stream.take count)
  else none

/-- One step. -/
def step [DecidableEq δ] (link : Link δ) : Event → Option (Link δ)
  | .begin =>
      match link.sender with
      | ⟨none, message :: pending, none⟩ =>
          some { link with
            sender :=
              match sendWithFds message with
              | .ok sending => ⟨some sending, pending, none⟩
              | .error error => ⟨none, pending, some error⟩ }
      | _ => none
  | .write count =>
      match link.sender with
      | ⟨some sending, pending, none⟩ =>
          if link.closed ∨ sending.frame.length - sending.written < count then none
          else
            match sendStreamChunk sending count with
            | .error error => some { link with sender := ⟨some sending, pending, some error⟩ }
            | .ok cells =>
                if count = 0 then
                  some { link with
                    sender := ⟨some sending, pending,
                      some (.writeZero "socket closed while sending frame payload".toList)⟩ }
                else
                  let written := sending.written + count
                  some { link with
                    stream := link.stream ++ cells
                    sender :=
                      if written < sending.frame.length then
                        ⟨some { sending with written, includeFds := false }, pending, none⟩
                      else ⟨none, pending, none⟩ }
      | _ => none
  | .close => if link.closed then none else some { link with closed := true }
  | .read count =>
      if link.error = none then
        (recv link.closed link.stream link.reading.room count).map fun given =>
          let link := { link with stream := link.stream.drop count }
          match link.reading.round given with
          | .again reading => { link with reading }
          | .received message =>
              { link with reading := .start, received := link.received ++ [message] }
          | .failed error => { link with error := some error }
      else none

/-- Nothing has been sent. -/
def Link.start (messages : List (Message δ)) : Link δ where
  sender := ⟨none, messages, none⟩
  closed := false
  stream := []
  reading := .start
  error := none
  received := []

/-! ## Bytes with descriptors -/

section Attach

variable {fds fds' : List δ} {bytes bytes' more : List UInt8} {cells : List (Cell δ)}

@[simp]
theorem attach_bare : attach ([] : List δ) bytes = bytes.map fun byte => ⟨byte, []⟩ := by
  cases bytes <;> rfl

@[simp]
theorem length_attach : (attach fds bytes).length = bytes.length := by
  cases bytes <;> simp [attach]

@[simp]
theorem bytes_attach : (attach fds bytes).map Cell.byte = bytes := by
  cases bytes <;> simp [attach, Function.comp_def]

theorem attach_append (given : bytes ≠ []) :
    attach fds (bytes ++ more) = attach fds bytes ++ attach [] more := by
  cases bytes with
  | nil => exact absurd rfl given
  | cons byte bytes =>
      rw [attach_bare]
      simp [attach]

theorem take_attach (count : ℕ) :
    (attach fds bytes).take count = attach fds (bytes.take count) := by
  cases bytes with
  | nil => simp
  | cons byte bytes => cases count <;> simp [attach]

/-- The front of a write is a write of the front. -/
theorem eq_attach_of_front (front : cells <+: attach fds bytes) :
    cells = attach fds (cells.map Cell.byte) ∧ cells.map Cell.byte <+: bytes := by
  have taken := List.prefix_iff_eq_take.mp front
  rw [take_attach] at taken
  have same : cells.map Cell.byte = bytes.take cells.length := by
    rw [congrArg (List.map Cell.byte) taken, bytes_attach]
  exact ⟨same ▸ taken, same ▸ List.take_prefix _ _⟩

end Attach

/-! ## Lengths -/

theorem length_toLeBytes (size number : ℕ) : (toLeBytes size number).length = size := by
  induction size generalizing number with
  | zero => rfl
  | succ size ih => simp [toLeBytes, ih]

theorem fromLeBytes_toLeBytes {number : ℕ} (small : number < UInt32.size) :
    fromLeBytes (toLeBytes lengthPrefixSize number) = number := by
  simp only [lengthPrefixSize, toLeBytes, fromLeBytes, UInt8.toNat_ofNat', UInt32.size] at small ⊢
  omega

/-! ## The code -/

/-- `frame` of `send_with_fds`. -/
def Message.frame (message : Message δ) : List UInt8 :=
  toLeBytes lengthPrefixSize message.payload.length ++ message.payload

/-- A frame as it travels: its first byte has the descriptors. -/
def code : Framing.Code (Message δ) (Cell δ) where
  frame message := attach message.fds message.frame
  frame_ne_nil message := by
    simp [Message.frame, attach, toLeBytes, lengthPrefixSize]

/-- The message can be sent: its length fits in its prefix, and a control message holds its
descriptors. -/
def Message.Valid (message : Message δ) : Prop :=
  message.payload.length < UInt32.size ∧ message.fds.length ≤ maxFdsPerMessage

instance (message : Message δ) : Decidable message.Valid :=
  inferInstanceAs (Decidable (_ ∧ _))

/-- What has been read of the frame under way. -/
def Reading.consumed : Reading δ → List (Cell δ)
  | .frameHeader header control _ => attach control header
  | .framePayload messageLen fds payload =>
      attach fds (toLeBytes lengthPrefixSize messageLen ++ payload)

/-- The loops are within the frame of the message, and the first read has taken its descriptors. -/
def Reading.Within (message : Message δ) : Reading δ → Prop
  | .frameHeader header control capturedControl =>
      header.length < lengthPrefixSize ∧
        (capturedControl = false ∧ header = [] ∨ capturedControl = true ∧ control = message.fds)
  | .framePayload messageLen fds payload =>
      messageLen = message.payload.length ∧ fds = message.fds ∧ payload.length < messageLen

/-- What is left of the frame under way. -/
def Sending.unsent (sending : Sending δ) : List (Cell δ) :=
  attach (if sending.includeFds then sending.fds else []) (sending.frame.drop sending.written)

/-- What the sender has still to hand to the stream. -/
def Sender.unsent (sender : Sender δ) : List (Cell δ) :=
  sender.current.elim [] Sending.unsent ++ sender.pending.flatMap code.frame

/-! ## Receiving -/

section Receiving

variable {messages received rest : List (Message δ)} {message : Message δ} {reading : Reading δ}
  {given ahead : List (Cell δ)}

theorem length_frame : message.frame.length = lengthPrefixSize + message.payload.length := by
  simp [Message.frame, length_toLeBytes]

/-- What has been read and what is read next are a front of the frame, with its descriptors. -/
theorem consumed_append (within : reading.Within message) (fits : given.length ≤ reading.room)
    (next : Framing.Next code messages received reading.consumed (given ++ ahead) message rest) :
    Framing.Next code messages received (reading.consumed ++ given) ahead message rest ∧
      reading.consumed ++ given =
        attach message.fds ((reading.consumed ++ given).map Cell.byte) ∧
      (reading.consumed ++ given).map Cell.byte <+: message.frame := by
  have taken :
      Framing.Next code messages received (reading.consumed ++ given) ahead message rest := by
    refine next.take ?_
    have whole : (code.frame message).length = lengthPrefixSize + message.payload.length :=
      length_attach.trans length_frame
    rw [List.length_append, whole]
    cases reading with
    | frameHeader header control capturedControl =>
        have short := within.1
        simp only [Reading.consumed, Reading.room, length_attach] at fits ⊢
        omega
    | framePayload messageLen fds payload =>
        obtain ⟨rfl, -, short⟩ := within
        simp only [Reading.consumed, Reading.room, length_attach, List.length_append,
          length_toLeBytes] at fits ⊢
        omega
  exact ⟨taken, eq_attach_of_front taken.front⟩

/-- What a round leaves: the loops within the same frame, or the message. -/
def Round.Right (messages received : List (Message δ)) (ahead : List (Cell δ)) (message : Message δ)
    (rest : List (Message δ)) : Round δ → Prop
  | .again reading =>
      reading.Within message ∧
        Framing.Next code messages received reading.consumed ahead message rest
  | .received other =>
      other = message ∧
        Framing.Next code messages received (code.frame message) ahead message rest
  | .failed _ => False

/-- The first read takes the descriptors of the message, and no other read takes any. -/
theorem control_eq (valid : message.Valid) {header : List UInt8} {control : List δ}
    {capturedControl : Bool} (some : given ≠ [])
    (within : (Reading.frameHeader header control capturedControl).Within message)
    (same : attach control header ++ given =
      attach message.fds (header ++ given.map Cell.byte)) :
    (if capturedControl then control
      else (given.head?.elim [] fun cell => cell.fds).take maxFdsPerMessage) = message.fds := by
  obtain ⟨-, ⟨rfl, rfl⟩ | ⟨rfl, rfl⟩⟩ := within
  · obtain ⟨cell, more, rfl⟩ := List.exists_cons_of_ne_nil some
    have first : cell.fds = message.fds := congrArg Cell.fds (List.cons.inj same).1
    simp only [Bool.false_eq_true, if_false, List.head?_cons, Option.elim_some, first]
    exact List.take_of_length_le valid.2
  · exact if_pos rfl

theorem readFrameHeader_right (valid : message.Valid) {header : List UInt8} {control : List δ}
    {capturedControl : Bool} (some : given ≠ [])
    (within : (Reading.frameHeader header control capturedControl).Within message)
    (fits : given.length ≤ (Reading.frameHeader header control capturedControl).room)
    (next : Framing.Next code messages received
      (Reading.frameHeader header control capturedControl).consumed (given ++ ahead) message rest) :
    (readFrameHeader header control capturedControl given).Right messages received ahead message
      rest := by
  obtain ⟨taken, same, front⟩ := consumed_append within fits next
  simp only [Reading.consumed, List.map_append, bytes_attach] at taken same front
  unfold readFrameHeader
  rw [control_eq valid some within same, if_neg some]
  rw [same] at taken
  dsimp only
  have room : (header ++ given.map Cell.byte).length ≤ lengthPrefixSize := by
    have short := within.1
    simp only [Reading.room] at fits
    rw [List.length_append, List.length_map]
    omega
  split
  case isTrue full =>
    have whole :
        header ++ given.map Cell.byte = toLeBytes lengthPrefixSize message.payload.length := by
      have short : (header ++ given.map Cell.byte).length ≤
          (toLeBytes lengthPrefixSize message.payload.length).length := by
        rw [full, length_toLeBytes]
      have inside := List.prefix_of_prefix_length_le front (List.prefix_append _ _) short
      exact inside.eq_of_length (by rw [full, length_toLeBytes])
    rw [whole] at taken
    rw [whole, fromLeBytes_toLeBytes valid.1]
    split
    case isTrue empty =>
      have nothing := List.eq_nil_of_length_eq_zero empty
      refine ⟨?_, ?_⟩
      · rw [← nothing]
      · simpa [code, Message.frame, nothing] using taken
    case isFalse some =>
      refine ⟨⟨rfl, rfl, Nat.pos_of_ne_zero some⟩, ?_⟩
      simpa only [Reading.consumed, List.append_nil] using taken
  case isFalse partly =>
    exact ⟨⟨Nat.lt_of_le_of_ne room partly, .inr ⟨rfl, rfl⟩⟩, taken⟩

theorem readFramePayload_right {messageLen : ℕ} {fds : List δ} {payload : List UInt8}
    (some : given ≠ []) (within : (Reading.framePayload messageLen fds payload).Within message)
    (fits : given.length ≤ (Reading.framePayload messageLen fds payload).room)
    (next : Framing.Next code messages received
      (Reading.framePayload messageLen fds payload).consumed (given ++ ahead) message rest) :
    (readFramePayload messageLen fds payload given).Right messages received ahead message rest := by
  obtain ⟨taken, same, front⟩ := consumed_append within fits next
  obtain ⟨rfl, rfl, short⟩ := within
  simp only [Reading.consumed, List.map_append, bytes_attach, List.append_assoc] at taken same front
  have inside : payload ++ given.map Cell.byte <+: message.payload :=
    (List.prefix_append_right_inj _).mp front
  unfold readFramePayload
  rw [if_neg some]
  rw [same] at taken
  dsimp only
  split
  case isTrue full =>
    have whole := inside.eq_of_length full
    refine ⟨by rw [whole], ?_⟩
    rw [whole] at taken
    exact taken
  case isFalse partly =>
    exact ⟨⟨rfl, rfl, Nat.lt_of_le_of_ne inside.length_le partly⟩, taken⟩

/-- A read that gives something leaves the loops within the frame, or gives the message. -/
theorem round_right (valid : message.Valid) (some : given ≠ []) (within : reading.Within message)
    (fits : given.length ≤ reading.room)
    (next : Framing.Next code messages received reading.consumed (given ++ ahead) message rest) :
    (reading.round given).Right messages received ahead message rest := by
  cases reading with
  | frameHeader header control capturedControl =>
      exact readFrameHeader_right valid some within fits next
  | framePayload messageLen fds payload => exact readFramePayload_right some within fits next

end Receiving

/-! ## Sending -/

section Sends

variable {message : Message δ} {sending : Sending δ} {sender : Sender δ}

/-- `WriteZero`, the only error of a send of a valid message. -/
def writeZero : SocketError := .writeZero "socket closed while sending frame payload".toList

/-- What is pending can be sent, the frame under way is not finished, and only a write of no bytes
has failed. -/
structure Sender.Sane (sender : Sender δ) : Prop where
  pending : ∀ message ∈ sender.pending, message.Valid
  current : ∀ sending, sender.current = some sending →
    sending.written < sending.frame.length ∧ sending.fds.length ≤ maxFdsPerMessage
  error : ∀ error, sender.error = some error → error = writeZero

/-- A valid message is encoded, and its whole frame is to be sent. -/
theorem sendWithFds_of_valid (valid : message.Valid) :
    ∃ sending, sendWithFds message = .ok sending ∧ sending.unsent = code.frame message ∧
      sending.written < sending.frame.length ∧ sending.fds.length ≤ maxFdsPerMessage := by
  have encoded : sendWithFds message =
      .ok ⟨message.frame, message.fds, 0, !message.fds.isEmpty⟩ := by
    simp [sendWithFds, encodeLength, valid.1, Except.map, Message.frame]
  refine ⟨_, encoded, ?_, ?_, valid.2⟩
  · obtain none | some := Decidable.em (message.fds = [])
    · simp [Sending.unsent, code, none]
    · simp [Sending.unsent, code, some]
  · show 0 < message.frame.length
    rw [length_frame]
    exact Nat.add_pos_left (by decide) _

/-- What the stream takes of a chunk, and what is left, are what was left before. -/
theorem sendStreamChunk_spec (count : ℕ) (few : sending.fds.length ≤ maxFdsPerMessage) :
    ∃ cells, sendStreamChunk sending count = .ok cells ∧
      (count ≠ 0 → count ≤ sending.frame.length - sending.written →
        sending.unsent = cells ++ attach [] (sending.frame.drop (sending.written + count))) := by
  have control : (if sending.includeFds then makeControlMessage sending.fds else .ok []) =
      .ok (if sending.includeFds then sending.fds else []) := by
    rw [makeControlMessage, if_neg (Nat.not_lt.mpr few)]
    split <;> rfl
  refine ⟨_, by rw [sendStreamChunk, control]; rfl, fun positive fits => ?_⟩
  have given : (sending.frame.drop sending.written).take count ≠ [] := by
    apply List.ne_nil_of_length_pos
    rw [List.length_take, List.length_drop]
    omega
  show sending.unsent = attach _ _ ++ attach [] _
  rw [← attach_append given, ← List.drop_drop, List.take_append_drop]
  rfl

/-- A write of nothing is an error; any other puts the front of what is left on the stream. -/
theorem write_spec [DecidableEq δ] {link next : Link δ} {count : ℕ} (sane : link.sender.Sane)
    (wrote : step link (.write count) = some next) :
    link.closed = false ∧ next.sender.Sane ∧
      ∃ cells, next = { link with stream := link.stream ++ cells, sender := next.sender } ∧
        link.sender.unsent = cells ++ next.sender.unsent := by
  obtain ⟨⟨current, pending, error⟩, closed, stream, reading, failure, received⟩ := link
  cases current with
  | none => cases wrote
  | some sending =>
      cases error with
      | some error => cases wrote
      | none =>
          obtain ⟨unfinished, few⟩ := sane.current sending rfl
          obtain ⟨cells, sent, split⟩ := sendStreamChunk_spec count few
          simp only [step, sent] at wrote
          split at wrote
          case isTrue => cases wrote
          case isFalse taken =>
            obtain ⟨opened, fits⟩ := not_or.mp taken
            refine ⟨Bool.eq_false_iff.mpr opened, ?_⟩
            split at wrote
            case isTrue zero =>
              cases wrote
              refine ⟨⟨sane.pending, sane.current, ?_⟩, [], by simp, rfl⟩
              rintro _ ⟨⟩
              rfl
            case isFalse positive =>
              have split := split positive (Nat.not_lt.mp fits)
              split at wrote
              case isTrue more =>
                cases wrote
                refine ⟨⟨sane.pending, ?_, fun _ absent => nomatch absent⟩, cells, rfl, ?_⟩
                · rintro _ ⟨⟩
                  exact ⟨more, few⟩
                · show sending.unsent ++ _ = _
                  rw [split, List.append_assoc]
                  rfl
              case isFalse finished =>
                cases wrote
                rw [List.drop_eq_nil_of_le (Nat.not_lt.mp finished)] at split
                refine ⟨⟨sane.pending, ?_, fun _ absent => nomatch absent⟩, cells, rfl, ?_⟩
                · exact fun _ absent => nomatch absent
                · show sending.unsent ++ _ = _
                  rw [split, List.append_assoc]
                  rfl

/-- A message is begun as a whole frame. -/
theorem begin_spec [DecidableEq δ] {link next : Link δ} (sane : link.sender.Sane)
    (began : step link .begin = some next) :
    next.sender.Sane ∧ next = { link with sender := next.sender } ∧
      next.sender.unsent = link.sender.unsent := by
  obtain ⟨⟨current, pending, error⟩, closed, stream, reading, failure, received⟩ := link
  cases current with
  | some sending => cases began
  | none =>
      cases error with
      | some error => cases pending <;> cases began
      | none =>
          cases pending with
          | nil => cases began
          | cons message pending =>
              obtain ⟨sending, encoded, whole, unfinished, few⟩ :=
                sendWithFds_of_valid (sane.pending message List.mem_cons_self)
              simp only [step, encoded, Option.some.injEq] at began
              subst began
              refine ⟨⟨?_, ?_, fun _ absent => nomatch absent⟩, rfl, ?_⟩
              · exact fun later member => sane.pending later (List.mem_cons_of_mem message member)
              · rintro _ ⟨⟩
                exact ⟨unfinished, few⟩
              · simp [Sender.unsent, whole]

end Sends

/-! ## Runs -/

section Runs

variable {messages : List (Message δ)} {link next : Link δ} {events : List Event}

/-- What a read gives is the front of the stream, or the stream has ended. -/
theorem recv_spec [DecidableEq δ] {closed : Bool} {stream given : List (Cell δ)} {room count : ℕ}
    (gave : recv closed stream room count = some given) :
    stream = given ++ stream.drop count ∧
      (given = [] ∧ stream = [] ∧ closed = true ∨ given ≠ [] ∧ given.length ≤ room) := by
  unfold recv at gave
  split at gave
  case isTrue empty =>
    split at gave
    case isTrue ended =>
      cases gave
      exact ⟨by simp [empty], .inl ⟨rfl, empty, ended.1⟩⟩
    case isFalse => cases gave
  case isFalse some =>
    split at gave
    case isTrue taken =>
      cases gave
      obtain ⟨positive, fits, inside, -⟩ := taken
      refine ⟨(List.take_append_drop count stream).symm, .inr ⟨?_, ?_⟩⟩
      · apply List.ne_nil_of_length_pos
        rw [List.length_take]
        omega
      · rw [List.length_take]
        omega
    case isFalse => cases gave

/-- Either everything has been received, or the loops are within the frame of the next message. -/
def Link.Receives (messages : List (Message δ)) (link : Link δ) : Prop :=
  (link.received = messages ∧ link.reading = .start ∧ link.stream ++ link.sender.unsent = []) ∨
    ∃ message rest,
      Framing.Next code messages link.received link.reading.consumed
        (link.stream ++ link.sender.unsent) message rest ∧
      link.reading.Within message

/-- What holds of a link after every step. -/
structure Link.Sound (messages : List (Message δ)) (link : Link δ) : Prop where
  sane : link.sender.Sane
  receives : link.Receives messages
  fails_at_end : link.error ≠ none → link.closed = true ∧ link.stream = []

theorem receives_of_assembles (starting : link.reading = .start)
    (assembles : Framing.Assembles code messages link.received []
      (link.stream ++ link.sender.unsent)) : link.Receives messages := by
  obtain ⟨all, -, nothing⟩ | ⟨message, rest, next⟩ := assembles
  · exact .inl ⟨all, starting, nothing⟩
  · refine .inr ⟨message, rest, ?_, ?_⟩
    · rw [starting]
      exact next
    · rw [starting]
      exact ⟨by decide, .inl ⟨rfl, rfl⟩⟩

theorem start_sound (valid : ∀ message ∈ messages, message.Valid) :
    (Link.start messages).Sound messages where
  sane := ⟨valid, (fun _ absent => nomatch absent), fun _ absent => nomatch absent⟩
  receives := receives_of_assembles rfl (Framing.assembles_of_rest messages rfl rfl)
  fails_at_end failed := absurd rfl failed

theorem round_nil (reading : Reading δ) :
    ∃ message, reading.round [] = .failed (.unexpectedEof message) := by
  cases reading with
  | frameHeader header control capturedControl
  | framePayload messageLen fds payload => exact ⟨_, rfl⟩

/-- A message that is not received yet is one of the messages. -/
theorem Link.Receives.exists_next (receives : link.Receives messages)
    (valid : ∀ message ∈ messages, message.Valid) (some : link.stream ≠ []) :
    ∃ message rest,
      Framing.Next code messages link.received link.reading.consumed
        (link.stream ++ link.sender.unsent) message rest ∧
      link.reading.Within message ∧ message.Valid := by
  obtain ⟨-, -, nothing⟩ | ⟨message, rest, ahead, within⟩ := receives
  · exact absurd (List.append_eq_nil_iff.mp nothing).1 some
  · refine ⟨message, rest, ahead, within, valid message ?_⟩
    rw [ahead.messages_eq]
    exact List.mem_append_right _ List.mem_cons_self

theorem read_sound [DecidableEq δ] {count : ℕ} (valid : ∀ message ∈ messages, message.Valid)
    (sound : link.Sound messages) (read : step link (.read count) = some next) :
    next.Sound messages := by
  simp only [step] at read
  split at read
  case isFalse => cases read
  case isTrue sofar =>
    obtain ⟨given, gave, same⟩ := Option.map_eq_some_iff.mp read
    obtain ⟨front, ⟨rfl, empty, ended⟩ | ⟨some, fits⟩⟩ := recv_spec gave
    · obtain ⟨message, failed⟩ := round_nil link.reading
      rw [failed] at same
      subst same
      rw [empty] at front
      refine ⟨sound.sane, ?_, fun _ => ⟨ended, by simp [empty]⟩⟩
      have receives := sound.receives
      rw [Link.Receives, empty] at receives
      simpa [Link.Receives, empty] using receives
    · have bytes : link.stream ≠ [] := by
        rw [front]
        exact List.append_ne_nil_of_left_ne_nil some _
      obtain ⟨message, rest, ahead, within, validMessage⟩ := sound.receives.exists_next valid bytes
      rw [front, List.append_assoc] at ahead
      have right := round_right validMessage some within fits ahead
      cases outcome : link.reading.round given with
      | again reading =>
          rw [outcome] at right same
          subst same
          refine ⟨sound.sane, .inr ⟨message, rest, right.2, right.1⟩, ?_⟩
          exact fun failed => absurd sofar failed
      | received other =>
          rw [outcome] at right same
          subst same
          obtain ⟨rfl, whole⟩ := right
          refine ⟨sound.sane, receives_of_assembles rfl whole.deliver, ?_⟩
          exact fun failed => absurd sofar failed
      | failed error =>
          rw [outcome] at right
          exact right.elim

theorem step_sound [DecidableEq δ] (valid : ∀ message ∈ messages, message.Valid) (event : Event)
    (sound : link.Sound messages) (stepped : step link event = some next) :
    next.Sound messages := by
  cases event with
  | begin =>
      obtain ⟨sane, same, unsent⟩ := begin_spec sound.sane stepped
      rw [same]
      refine ⟨sane, ?_, sound.fails_at_end⟩
      have receives := sound.receives
      rw [Link.Receives, ← unsent] at receives
      exact receives
  | write count =>
      obtain ⟨opened, sane, cells, same, unsent⟩ := write_spec sound.sane stepped
      rw [same]
      refine ⟨sane, ?_, ?_⟩
      · have receives := sound.receives
        rw [Link.Receives, unsent, ← List.append_assoc] at receives
        exact receives
      · intro failed
        obtain ⟨ended, -⟩ := sound.fails_at_end failed
        exact absurd (ended.symm.trans opened) (by decide)
  | close =>
      simp only [step] at stepped
      split at stepped
      case isTrue => cases stepped
      case isFalse opened =>
        cases stepped
        refine ⟨sound.sane, sound.receives, ?_⟩
        exact fun failed => absurd (sound.fails_at_end failed).1 opened
  | read count => exact read_sound valid sound stepped

/-- Within a frame, its end is still ahead. -/
theorem Reading.Within.shorter {message : Message δ} {reading : Reading δ}
    (within : reading.Within message) : reading.consumed.length < (code.frame message).length := by
  have whole : (code.frame message).length = lengthPrefixSize + message.payload.length :=
    length_attach.trans length_frame
  rw [whole]
  cases reading with
  | frameHeader header control capturedControl =>
      have short := within.1
      simp only [Reading.consumed, length_attach]
      omega
  | framePayload messageLen fds payload =>
      obtain ⟨rfl, -, short⟩ := within
      simp only [Reading.consumed, length_attach, List.length_append, length_toLeBytes]
      omega

theorem Reading.Within.room_pos {message : Message δ} {reading : Reading δ}
    (within : reading.Within message) : 0 < reading.room := by
  cases reading with
  | frameHeader header control capturedControl => exact Nat.sub_pos_of_lt within.1
  | framePayload messageLen fds payload => exact Nat.sub_pos_of_lt within.2.2

/-- Every message has been begun and its frame has been taken by the stream. -/
def Sender.Finished (sender : Sender δ) : Prop :=
  sender.current = none ∧ sender.pending = []

/-- The messages are received as they were sent, or the receiver is told that the stream has
ended. -/
structure Link.Faithful [DecidableEq δ] (messages : List (Message δ)) (link : Link δ) : Prop where
  in_order : link.received <+: messages
  complete : link.sender.Finished → link.stream = [] → link.received = messages
  fails_at_end : link.error ≠ none → link.closed = true ∧ link.stream = []
  ends : link.closed = true → link.stream = [] → link.error = none →
    ∃ message, step link (.read 0) = some { link with error := some (.unexpectedEof message) }
  readable : link.stream ≠ [] → link.error = none →
    ∃ next, step link (.read 1) = some next ∧ next.error = none
  writable : link.closed = false → link.sender.error = none → ¬ link.sender.Finished →
    ∃ next, (step link .begin = some next ∨ step link (.write 1) = some next) ∧
      next.sender.error = none
  write_fails : ∀ error, link.sender.error = some error → error = writeZero

namespace Link.Sound

theorem complete (sound : link.Sound messages) (finished : link.sender.Finished)
    (empty : link.stream = []) : link.received = messages := by
  obtain ⟨all, -, -⟩ | ⟨message, rest, next, within⟩ := sound.receives
  · exact all
  · have nothing : link.stream ++ link.sender.unsent = [] := by
      simp [empty, Sender.unsent, finished.1, finished.2]
    rw [nothing] at next
    have whole := congrArg List.length next.eq_of_nil
    exact absurd whole (Nat.ne_of_lt within.shorter)

theorem in_order (sound : link.Sound messages) : link.received <+: messages := by
  obtain ⟨all, -, -⟩ | ⟨message, rest, next, -⟩ := sound.receives
  · exact all ▸ List.prefix_rfl
  · exact ⟨message :: rest, next.messages_eq.symm⟩

end Link.Sound

theorem ends_of_closed [DecidableEq δ] (closed : link.closed = true) (empty : link.stream = [])
    (sofar : link.error = none) :
    ∃ message, step link (.read 0) = some { link with error := some (.unexpectedEof message) } := by
  obtain ⟨message, failed⟩ := round_nil link.reading
  refine ⟨message, ?_⟩
  have given : recv link.closed link.stream link.reading.room 0 = some [] := by
    simp [recv, empty, closed]
  simp only [step, sofar, given, if_true, Option.map_some, failed, List.drop_zero]

theorem readable_of_sound [DecidableEq δ] (valid : ∀ message ∈ messages, message.Valid)
    (sound : link.Sound messages) (bytes : link.stream ≠ []) (sofar : link.error = none) :
    ∃ next, step link (.read 1) = some next ∧ next.error = none := by
  obtain ⟨message, rest, ahead, within, validMessage⟩ := sound.receives.exists_next valid bytes
  obtain ⟨cell, more, same⟩ := List.exists_cons_of_ne_nil bytes
  have room := within.room_pos
  have given : recv link.closed link.stream link.reading.room 1 = some [cell] := by
    simp [recv, same]
    omega
  rw [same] at ahead
  have right := round_right validMessage (List.cons_ne_nil cell []) within room ahead
  simp only [step, sofar, given, if_true, Option.map_some]
  cases outcome : link.reading.round [cell] with
  | again reading | received other => exact ⟨_, rfl, rfl⟩
  | failed error =>
      rw [outcome] at right
      exact right.elim

theorem writable_of_sane [DecidableEq δ] (sane : link.sender.Sane) (opened : link.closed = false)
    (sofar : link.sender.error = none) (unfinished : ¬ link.sender.Finished) :
    ∃ next, (step link .begin = some next ∨ step link (.write 1) = some next) ∧
      next.sender.error = none := by
  obtain ⟨⟨current, pending, error⟩, closed, stream, reading, failure, received⟩ := link
  cases sofar
  cases opened
  cases current with
  | some sending =>
      obtain ⟨left, few⟩ := sane.current sending rfl
      obtain ⟨cells, sent, -⟩ := sendStreamChunk_spec 1 few
      have fits : ¬ sending.frame.length - sending.written < 1 := by
        omega
      have wrote : step ⟨⟨some sending, pending, none⟩, false, stream, reading, failure, received⟩
          (.write 1) = some
            { sender :=
                if sending.written + 1 < sending.frame.length then
                  ⟨some { sending with written := sending.written + 1, includeFds := false },
                    pending, none⟩
                else ⟨none, pending, none⟩
              closed := false
              stream := stream ++ cells
              reading := reading
              error := failure
              received := received } := by
        simp [step, sent, fits]
      refine ⟨_, .inr wrote, ?_⟩
      dsimp only
      split <;> rfl
  | none =>
      cases pending with
      | nil => exact absurd ⟨rfl, rfl⟩ unfinished
      | cons message pending =>
          obtain ⟨sending, encoded, -⟩ :=
            sendWithFds_of_valid (sane.pending message List.mem_cons_self)
          refine ⟨_, .inl rfl, ?_⟩
          simp only [encoded]

/-- However writes and reads are cut, the messages are received in order and whole, each with its
descriptors, and a stream that ends early is an error. -/
theorem faithful_of_run [DecidableEq δ] (valid : ∀ message ∈ messages, message.Valid)
    (ran : run step (Link.start messages) events = some link) : link.Faithful messages := by
  have kept : ∀ state event next, Link.Sound messages state → step state event = some next →
      Link.Sound messages next :=
    fun state event next sound stepped => step_sound valid event sound stepped
  have sound := preserved_of_run kept (start_sound valid) ran
  exact {
    in_order := sound.in_order
    complete := sound.complete
    fails_at_end := sound.fails_at_end
    ends := ends_of_closed
    readable := readable_of_sound valid sound
    writable := writable_of_sane sound.sane
    write_fails := sound.sane.error }

/-- Two messages in pieces, and a byte of a third. -/
def pieces : List Event :=
  [.begin, .write 2, .read 1, .read 1, .write 5, .read 2, .begin, .read 3, .write 4, .read 4,
    .begin, .write 1, .read 1, .close, .read 0]

/-- The third message is never received. -/
theorem faithful_of_pieces :
    ∃ link : Link ℕ,
      (run step (Link.start [⟨[1, 2, 3], [7, 8]⟩, ⟨[], [9]⟩, ⟨[5], []⟩]) pieces = some link ∧
        link.received = [⟨[1, 2, 3], [7, 8]⟩, ⟨[], [9]⟩] ∧
        link.error = some (.unexpectedEof "socket closed while receiving frame header".toList)) ∧
      link.Faithful [⟨[1, 2, 3], [7, 8]⟩, ⟨[], [9]⟩, ⟨[5], []⟩] := by
  have ran : run step (Link.start [⟨[1, 2, 3], [7, 8]⟩, ⟨[], [9]⟩, ⟨[5], []⟩]) pieces = some
      { sender := ⟨some ⟨[1, 0, 0, 0, 5], ([] : List ℕ), 1, false⟩, [], none⟩
        closed := true
        stream := []
        reading := .frameHeader [1] [] true
        error := some (.unexpectedEof "socket closed while receiving frame header".toList)
        received := [⟨[1, 2, 3], [7, 8]⟩, ⟨[], [9]⟩] } := by
    decide
  exact ⟨_, ⟨ran, rfl, rfl⟩, faithful_of_run (by decide) ran⟩

end Runs

end Socket
end CodexPilot.ShellEscalation
