import CodexPilot.Library.Ends

/-!
# The buffer of a head and a tail

The output of a process is kept up to a number of bytes: chunks fill the head first, the tail keeps
the last bytes behind it, and what is between them is dropped and counted.  However the output is
chunked, the buffer holds what its bytes say.
-/

namespace CodexPilot.UnifiedExec

/-- `usize::MAX`. -/
def usizeMax : ℕ := 18446744073709551615

/-- `usize::saturating_add`. -/
def saturatingAdd (left right : ℕ) : ℕ := min (left + right) usizeMax

theorem saturatingAdd_of_le {left right : ℕ} (below : left + right ≤ usizeMax) :
    saturatingAdd left right = left + right :=
  Nat.min_eq_left below

/-- `HeadTailBuffer`. -/
structure HeadTailBuffer where
  maxBytes : ℕ
  headBudget : ℕ
  tailBudget : ℕ
  head : List (List UInt8)
  tail : List (List UInt8)
  headBytes : ℕ
  tailBytes : ℕ
  omittedBytes : ℕ

namespace HeadTailBuffer

/-- `HeadTailBuffer::new`. -/
def new (maxBytes : ℕ) : HeadTailBuffer where
  maxBytes := maxBytes
  headBudget := maxBytes / 2
  tailBudget := maxBytes - maxBytes / 2
  head := []
  tail := []
  headBytes := 0
  tailBytes := 0
  omittedBytes := 0

/-- `retained_bytes`. -/
def retainedBytes (buffer : HeadTailBuffer) : ℕ :=
  saturatingAdd buffer.headBytes buffer.tailBytes

/-- The loop of `trim_tail_to_budget`, on the chunks of the tail. -/
def trimTail (buffer : HeadTailBuffer) (excess : ℕ) : List (List UInt8) → HeadTailBuffer
  | [] => { buffer with tail := [] }
  | front :: chunks =>
      if excess = 0 then { buffer with tail := front :: chunks }
      else if front.length ≤ excess then
        let buffer :=
          { buffer with
            tailBytes := buffer.tailBytes - front.length
            omittedBytes := saturatingAdd buffer.omittedBytes front.length }
        buffer.trimTail (excess - front.length) chunks
      else
        { buffer with
          tail := front.drop excess :: chunks
          tailBytes := buffer.tailBytes - excess
          omittedBytes := saturatingAdd buffer.omittedBytes excess }

/-- `trim_tail_to_budget`. -/
def trimTailToBudget (buffer : HeadTailBuffer) : HeadTailBuffer :=
  buffer.trimTail (buffer.tailBytes - buffer.tailBudget) buffer.tail

/-- `push_to_tail`. -/
def pushToTail (buffer : HeadTailBuffer) (chunk : List UInt8) : HeadTailBuffer :=
  if buffer.tailBudget = 0 then
    { buffer with omittedBytes := saturatingAdd buffer.omittedBytes chunk.length }
  else if buffer.tailBudget ≤ chunk.length then
    let start := chunk.length - buffer.tailBudget
    let kept := chunk.drop start
    let dropped := chunk.length - kept.length
    { buffer with
      omittedBytes := saturatingAdd (saturatingAdd buffer.omittedBytes buffer.tailBytes) dropped
      tail := [kept]
      tailBytes := kept.length }
  else
    trimTailToBudget
      { buffer with
        tailBytes := saturatingAdd buffer.tailBytes chunk.length
        tail := buffer.tail ++ [chunk] }

/-- `push_chunk`. -/
def pushChunk (buffer : HeadTailBuffer) (chunk : List UInt8) : HeadTailBuffer :=
  if buffer.maxBytes = 0 then
    { buffer with omittedBytes := saturatingAdd buffer.omittedBytes chunk.length }
  else if buffer.headBytes < buffer.headBudget then
    let remainingHead := buffer.headBudget - buffer.headBytes
    if chunk.length ≤ remainingHead then
      { buffer with
        headBytes := saturatingAdd buffer.headBytes chunk.length
        head := buffer.head ++ [chunk] }
    else
      let headPart := chunk.take remainingHead
      let tailPart := chunk.drop remainingHead
      let buffer :=
        if headPart = [] then buffer
        else
          { buffer with
            headBytes := saturatingAdd buffer.headBytes headPart.length
            head := buffer.head ++ [headPart] }
      buffer.pushToTail tailPart
  else buffer.pushToTail chunk

/-- `to_bytes`. -/
def toBytes (buffer : HeadTailBuffer) : List UInt8 := buffer.head.flatten ++ buffer.tail.flatten

/-- `drain_chunks`: the chunks, and the buffer that is left. -/
def drainChunks (buffer : HeadTailBuffer) : List (List UInt8) × HeadTailBuffer :=
  (buffer.head ++ buffer.tail,
    { buffer with head := [], tail := [], headBytes := 0, tailBytes := 0, omittedBytes := 0 })

end HeadTailBuffer

/-- What is done to a buffer. -/
inductive BufferOp where
  | push (chunk : List UInt8)
  | drain

namespace HeadTailBuffer

/-- One operation on a buffer. -/
def apply (buffer : HeadTailBuffer) : BufferOp → HeadTailBuffer
  | .push chunk => buffer.pushChunk chunk
  | .drain => buffer.drainChunks.2

/-- The operations in their order. -/
def run (buffer : HeadTailBuffer) (operations : List BufferOp) : HeadTailBuffer :=
  operations.foldl apply buffer

end HeadTailBuffer

/-- The chunks pushed since the last drain, behind those that were there. -/
def chunksSinceDrain (chunks : List (List UInt8)) : List BufferOp → List (List UInt8)
  | [] => chunks
  | .push chunk :: operations => chunksSinceDrain (chunks ++ [chunk]) operations
  | .drain :: operations => chunksSinceDrain [] operations

namespace HeadTailBuffer

/-! ## The budgets stay -/

/-- The sizes that a buffer is made with. -/
def limits (buffer : HeadTailBuffer) : ℕ × ℕ × ℕ :=
  (buffer.maxBytes, buffer.headBudget, buffer.tailBudget)

theorem limits_trimTail (buffer : HeadTailBuffer) (excess : ℕ) (chunks : List (List UInt8)) :
    (buffer.trimTail excess chunks).limits = buffer.limits := by
  induction chunks generalizing buffer excess with
  | nil => rfl
  | cons front chunks ih =>
      rw [trimTail]
      split
      · rfl
      · split
        · exact ih _ _
        · rfl

theorem limits_pushToTail (buffer : HeadTailBuffer) (chunk : List UInt8) :
    (buffer.pushToTail chunk).limits = buffer.limits := by
  rw [pushToTail]
  split
  · rfl
  · split
    · rfl
    · exact limits_trimTail _ _ _

theorem limits_pushChunk (buffer : HeadTailBuffer) (chunk : List UInt8) :
    (buffer.pushChunk chunk).limits = buffer.limits := by
  rw [pushChunk]
  split
  · rfl
  · split
    · dsimp only
      split
      · rfl
      · rw [limits_pushToTail]
        split <;> rfl
    · exact limits_pushToTail _ _

theorem limits_apply (buffer : HeadTailBuffer) (operation : BufferOp) :
    (buffer.apply operation).limits = buffer.limits := by
  cases operation with
  | push chunk => exact limits_pushChunk buffer chunk
  | drain => rfl

/-! ## The tail -/

/-- Trimming cuts bytes off in front, be it whole chunks or a part of one, and counts them. -/
theorem trimTail_eq {buffer : HeadTailBuffer} {excess : ℕ} {chunks : List (List UInt8)}
    (enough : excess ≤ chunks.flatten.length) (below : buffer.omittedBytes + excess ≤ usizeMax) :
    ∃ tail, buffer.trimTail excess chunks =
        { buffer with
          tail := tail
          tailBytes := buffer.tailBytes - excess
          omittedBytes := buffer.omittedBytes + excess } ∧
      tail.flatten = chunks.flatten.drop excess := by
  induction chunks generalizing buffer excess with
  | nil =>
      obtain rfl : excess = 0 := Nat.le_zero.mp enough
      exact ⟨[], rfl, rfl⟩
  | cons front chunks ih =>
      rw [List.flatten_cons, List.length_append] at enough
      rw [trimTail]
      split
      case isTrue none =>
        subst none
        exact ⟨front :: chunks, rfl, rfl⟩
      case isFalse some =>
        split
        case isTrue whole =>
          have counted : saturatingAdd buffer.omittedBytes front.length =
              buffer.omittedBytes + front.length :=
            saturatingAdd_of_le (by omega)
          have cut := @ih
            { buffer with
              tailBytes := buffer.tailBytes - front.length
              omittedBytes := saturatingAdd buffer.omittedBytes front.length }
            (excess - front.length) (by omega) (by dsimp only; omega)
          obtain ⟨tail, same, bytes⟩ := cut
          have first : buffer.tailBytes - front.length - (excess - front.length) =
              buffer.tailBytes - excess := by omega
          have second : buffer.omittedBytes + front.length + (excess - front.length) =
              buffer.omittedBytes + excess := by omega
          refine ⟨tail, ?_, ?_⟩
          · rw [same]
            dsimp only
            rw [first, counted, second]
          · rw [bytes, List.flatten_cons, List.drop_append, List.drop_of_length_le whole,
              List.nil_append]
        case isFalse part =>
          refine ⟨front.drop excess :: chunks, ?_, ?_⟩
          · rw [saturatingAdd_of_le below]
          · have inside : excess - front.length = 0 := by omega
            rw [List.flatten_cons, List.flatten_cons, List.drop_append, inside, List.drop_zero]

/-- The tail keeps the last bytes of what it held and what comes, and counts the others. -/
theorem pushToTail_eq {buffer : HeadTailBuffer} {chunk : List UInt8}
    (counted : buffer.tailBytes = buffer.tail.flatten.length)
    (within : buffer.tailBytes ≤ buffer.tailBudget)
    (below : buffer.omittedBytes + buffer.tailBytes + chunk.length ≤ usizeMax) :
    ∃ tail omitted, buffer.pushToTail chunk =
        { buffer with tail := tail, tailBytes := tail.flatten.length, omittedBytes := omitted } ∧
      tail.flatten = (buffer.tail.flatten ++ chunk).rtake buffer.tailBudget ∧
      omitted + tail.flatten.length = buffer.omittedBytes + buffer.tailBytes + chunk.length := by
  rw [pushToTail]
  split
  case isTrue none =>
    have empty : buffer.tail.flatten = [] := List.eq_nil_of_length_eq_zero (by omega)
    have zero : buffer.tailBytes = 0 := by omega
    refine ⟨buffer.tail, buffer.omittedBytes + chunk.length, ?_, ?_, ?_⟩
    · rw [saturatingAdd_of_le (by omega), ← counted]
    · rw [none, List.rtake_zero, empty]
    · rw [← counted, zero, Nat.add_zero, Nat.add_zero]
  case isFalse positive =>
    split
    case isTrue large =>
      have kept : chunk.drop (chunk.length - buffer.tailBudget) =
          (buffer.tail.flatten ++ chunk).rtake buffer.tailBudget :=
        (Ends.rtake_append_of_le_length large).symm
      have size : (chunk.drop (chunk.length - buffer.tailBudget)).length = buffer.tailBudget := by
        rw [List.length_drop]
        omega
      refine ⟨[chunk.drop (chunk.length - buffer.tailBudget)],
        buffer.omittedBytes + buffer.tailBytes + (chunk.length - buffer.tailBudget), ?_, ?_, ?_⟩
      · have held : saturatingAdd buffer.omittedBytes buffer.tailBytes =
            buffer.omittedBytes + buffer.tailBytes :=
          saturatingAdd_of_le (by omega)
        dsimp only
        rw [size, held, saturatingAdd_of_le (by omega), List.flatten_singleton, size]
      · rw [List.flatten_singleton, kept]
      · rw [List.flatten_singleton, size]
        omega
    case isFalse small =>
      have grown : saturatingAdd buffer.tailBytes chunk.length =
          buffer.tailBytes + chunk.length :=
        saturatingAdd_of_le (by omega)
      have whole : (buffer.tail ++ [chunk]).flatten = buffer.tail.flatten ++ chunk := by
        rw [List.flatten_append, List.flatten_singleton]
      have length : (buffer.tail ++ [chunk]).flatten.length =
          buffer.tailBytes + chunk.length := by
        rw [whole, List.length_append, counted]
      rw [trimTailToBudget, grown]
      dsimp only
      obtain ⟨tail, same, bytes⟩ := @trimTail_eq
        { buffer with tailBytes := buffer.tailBytes + chunk.length, tail := buffer.tail ++ [chunk] }
        (buffer.tailBytes + chunk.length - buffer.tailBudget) (buffer.tail ++ [chunk])
        (by omega) (by dsimp only; omega)
      have left : tail.flatten.length = buffer.tailBytes + chunk.length -
          (buffer.tailBytes + chunk.length - buffer.tailBudget) := by
        rw [bytes, List.length_drop, length]
      refine ⟨tail, buffer.omittedBytes +
        (buffer.tailBytes + chunk.length - buffer.tailBudget), ?_, ?_, ?_⟩
      · rw [same, left]
      · rw [bytes, List.rtake, whole, List.length_append, counted]
      · omega

/-! ## The whole buffer -/

/-- The buffer holds the two ends of the bytes, and its counters say how many. -/
structure Holds (bytes : List UInt8) (buffer : HeadTailBuffer) : Prop where
  head : buffer.head.flatten = bytes.take buffer.headBudget
  headBytes : buffer.headBytes = buffer.head.flatten.length
  tail : buffer.tail.flatten = (bytes.drop buffer.headBudget).rtake buffer.tailBudget
  tailBytes : buffer.tailBytes = buffer.tail.flatten.length
  counted : buffer.omittedBytes + (buffer.headBytes + buffer.tailBytes) = bytes.length

theorem holds_new (maxBytes : ℕ) : Holds [] (new maxBytes) where
  head := List.take_nil.symm
  headBytes := rfl
  tail := by simp [new]
  tailBytes := rfl
  counted := rfl

section Push

variable {maxBytes : ℕ} {bytes chunk : List UInt8} {buffer : HeadTailBuffer}

/-- Once the head is full, everything goes to the tail. -/
theorem Holds.pushToTail (holds : Holds bytes buffer) (full : buffer.headBudget ≤ bytes.length)
    (below : (bytes ++ chunk).length ≤ usizeMax) :
    Holds (bytes ++ chunk) (buffer.pushToTail chunk) := by
  have counted := holds.counted
  have within : buffer.tailBytes ≤ buffer.tailBudget := by
    rw [holds.tailBytes, holds.tail, Ends.length_rtake]
    exact Nat.min_le_right _ _
  rw [List.length_append] at below
  obtain ⟨tail, omitted, same, kept, total⟩ :=
    @pushToTail_eq buffer chunk holds.tailBytes within (by omega)
  rw [same]
  refine ⟨?_, holds.headBytes, ?_, rfl, ?_⟩
  · rw [List.take_append_of_le_length full]
    exact holds.head
  · dsimp only
    rw [kept, holds.tail, Ends.rtake_rtake_append, List.drop_append_of_le_length full]
  · dsimp only
    rw [List.length_append]
    omega

/-- A chunk that fits into the head goes there. -/
theorem Holds.pushToHead (holds : Holds bytes buffer)
    (fits : bytes.length + chunk.length ≤ buffer.headBudget)
    (below : (bytes ++ chunk).length ≤ usizeMax) :
    Holds (bytes ++ chunk) { buffer with
        headBytes := saturatingAdd buffer.headBytes chunk.length
        head := buffer.head ++ [chunk] } := by
  rw [List.length_append] at below
  have head : buffer.head.flatten = bytes := by
    rw [holds.head, List.take_of_length_le (by omega)]
  have none : bytes.drop buffer.headBudget = [] := List.drop_of_length_le (by omega)
  have later : (bytes ++ chunk).drop buffer.headBudget = [] :=
    List.drop_of_length_le (by rwa [List.length_append])
  have tail : buffer.tail.flatten = [] := by rw [holds.tail, none, List.rtake_nil]
  have headBytes := holds.headBytes
  have tailBytes := holds.tailBytes
  have counted := holds.counted
  rw [head] at headBytes
  rw [tail, List.length_nil] at tailBytes
  have grown : saturatingAdd buffer.headBytes chunk.length = buffer.headBytes + chunk.length :=
    saturatingAdd_of_le (by omega)
  rw [grown]
  refine ⟨?_, ?_, ?_, holds.tailBytes, ?_⟩
  · dsimp only
    rw [List.flatten_append, List.flatten_singleton, head, Ends.take_append_of_le fits]
  · dsimp only
    rw [List.flatten_append, List.flatten_singleton, head, List.length_append, headBytes]
  · dsimp only
    rw [later, List.rtake_nil, tail]
  · dsimp only
    rw [List.length_append]
    omega

theorem Holds.pushChunk (holds : Holds bytes buffer)
    (limits : buffer.limits = (new maxBytes).limits) (below : (bytes ++ chunk).length ≤ usizeMax) :
    Holds (bytes ++ chunk) (buffer.pushChunk chunk) := by
  have filled : buffer.headBytes = min buffer.headBudget bytes.length := by
    rw [holds.headBytes, holds.head, List.length_take]
  rw [HeadTailBuffer.pushChunk]
  split
  case isTrue zero =>
    -- Without a budget the tail drops the chunk in the same way.
    simp only [HeadTailBuffer.limits, new, Prod.mk.injEq] at limits
    obtain ⟨sizes, headBudget, tailBudget⟩ := limits
    have dropped : Holds (bytes ++ chunk) (buffer.pushToTail chunk) :=
      holds.pushToTail (by omega) below
    rwa [HeadTailBuffer.pushToTail, if_pos (by omega)] at dropped
  case isFalse positive =>
    split
    case isTrue room =>
      dsimp only
      split
      case isTrue fits => exact holds.pushToHead (by omega) below
      case isFalse beyond =>
        have length : (chunk.take (buffer.headBudget - buffer.headBytes)).length =
            buffer.headBudget - buffer.headBytes := by
          rw [List.length_take]
          omega
        have some : chunk.take (buffer.headBudget - buffer.headBytes) ≠ [] := by
          rw [← List.length_pos_iff, length]
          omega
        have whole : (bytes ++ chunk.take (buffer.headBudget - buffer.headBytes)) ++
            chunk.drop (buffer.headBudget - buffer.headBytes) = bytes ++ chunk := by
          rw [List.append_assoc, List.take_append_drop]
        rw [if_neg some, ← whole]
        rw [← whole, List.length_append] at below
        refine (holds.pushToHead ?_ ?_).pushToTail ?_ ?_
        · omega
        · omega
        · dsimp only
          rw [List.length_append]
          omega
        · rwa [List.length_append]
    case isFalse full => exact holds.pushToTail (by omega) below

end Push

section Run

variable {maxBytes : ℕ} {bytes : List UInt8} {buffer : HeadTailBuffer}

theorem drainChunks_eq (limits : buffer.limits = (new maxBytes).limits) :
    buffer.drainChunks.2 = new maxBytes := by
  simp only [HeadTailBuffer.limits, new, Prod.mk.injEq] at limits
  obtain ⟨sizes, headBudget, tailBudget⟩ := limits
  rw [drainChunks, sizes, headBudget, tailBudget]
  rfl

/-- Whatever was pushed before the last drain, the buffer holds what was pushed since. -/
theorem holds_run (operations : List BufferOp) {chunks : List (List UInt8)}
    (limits : buffer.limits = (new maxBytes).limits)
    (holds : chunks.flatten.length ≤ usizeMax → Holds chunks.flatten buffer)
    (below : (chunksSinceDrain chunks operations).flatten.length ≤ usizeMax) :
    (buffer.run operations).limits = (new maxBytes).limits ∧
      Holds (chunksSinceDrain chunks operations).flatten (buffer.run operations) := by
  induction operations generalizing buffer chunks with
  | nil => exact ⟨limits, holds below⟩
  | cons operation operations ih =>
      have same := (limits_apply buffer operation).trans limits
      cases operation with
      | push chunk =>
          refine ih same (fun small => ?_) below
          rw [List.flatten_append, List.flatten_singleton] at small ⊢
          refine (holds ?_).pushChunk limits small
          rw [List.length_append] at small
          omega
      | drain =>
          refine ih same (fun _ => ?_) below
          have empty := holds_new maxBytes
          rw [← drainChunks_eq limits] at empty
          exact empty

theorem Holds.toBytes (holds : Holds bytes buffer) :
    buffer.toBytes = Ends.keep buffer.headBudget buffer.tailBudget bytes := by
  rw [HeadTailBuffer.toBytes, holds.head, holds.tail, Ends.keep]

theorem Holds.retainedBytes (holds : Holds bytes buffer) (below : bytes.length ≤ usizeMax) :
    buffer.retainedBytes = buffer.toBytes.length := by
  have counted := holds.counted
  rw [HeadTailBuffer.retainedBytes, saturatingAdd_of_le (by omega), HeadTailBuffer.toBytes,
    List.length_append, ← holds.headBytes, ← holds.tailBytes]

/-- What is retained and what is omitted, of the bytes pushed since the last drain. -/
theorem run_eq (maxBytes : ℕ) (operations : List BufferOp)
    (below : (chunksSinceDrain [] operations).flatten.length < usizeMax) :
    ((new maxBytes).run operations).toBytes =
        Ends.keep (maxBytes / 2) (maxBytes - maxBytes / 2)
          (chunksSinceDrain [] operations).flatten ∧
      ((new maxBytes).run operations).retainedBytes =
        ((new maxBytes).run operations).toBytes.length ∧
      ((new maxBytes).run operations).omittedBytes =
        (chunksSinceDrain [] operations).flatten.length -
          ((new maxBytes).run operations).retainedBytes := by
  obtain ⟨limits, holds⟩ :=
    @holds_run maxBytes (new maxBytes) operations [] rfl (fun _ => holds_new maxBytes) below.le
  have headBudget : ((new maxBytes).run operations).headBudget = maxBytes / 2 :=
    congrArg (·.2.1) limits
  have tailBudget : ((new maxBytes).run operations).tailBudget = maxBytes - maxBytes / 2 :=
    congrArg (·.2.2) limits
  have retained := holds.retainedBytes below.le
  have counted := holds.counted
  refine ⟨?_, retained, ?_⟩
  · rw [holds.toBytes, headBudget, tailBudget]
  · rw [retained, HeadTailBuffer.toBytes, List.length_append, ← holds.headBytes,
      ← holds.tailBytes]
    omega

/-- The buffer is what its bytes say, however they were chunked: as many first bytes as half of the
budget allows, as many of the last bytes behind them as the other half allows, and the counts. -/
theorem run_spec (maxBytes : ℕ) (operations : List BufferOp)
    (below : (chunksSinceDrain [] operations).flatten.length < usizeMax) :
    let buffer := (new maxBytes).run operations
    let bytes := (chunksSinceDrain [] operations).flatten
    let kept := min bytes.length (maxBytes / 2)
    let last := min (bytes.length - kept) (maxBytes - maxBytes / 2)
    buffer.toBytes = bytes.take kept ++ bytes.drop (bytes.length - last) ∧
      buffer.retainedBytes = buffer.toBytes.length ∧
      buffer.omittedBytes = bytes.length - buffer.retainedBytes ∧
      ∀ others, (chunksSinceDrain [] others).flatten = bytes →
        ((new maxBytes).run others).toBytes = buffer.toBytes ∧
          ((new maxBytes).run others).retainedBytes = buffer.retainedBytes ∧
          ((new maxBytes).run others).omittedBytes = buffer.omittedBytes := by
  intro buffer bytes kept last
  obtain ⟨output, retained, omitted⟩ := run_eq maxBytes operations below
  refine ⟨?_, retained, omitted, ?_⟩
  · exact output.trans (Ends.keep_eq _ _ _)
  · intro others same
    obtain ⟨output', retained', omitted'⟩ := run_eq maxBytes others (same ▸ below)
    have outputs : ((new maxBytes).run others).toBytes = buffer.toBytes := by
      rw [output', same]
      exact output.symm
    have counts : ((new maxBytes).run others).retainedBytes = buffer.retainedBytes := by
      rw [retained', outputs]
      exact retained.symm
    refine ⟨outputs, counts, ?_⟩
    rw [omitted', same, counts]
    exact omitted.symm

/-- Two bytes in front and three at the end of what came since the drain. -/
theorem run_spec_five :
    let operations : List BufferOp :=
      [.push [9, 9, 9], .drain, .push [1], .push [], .push [2, 3, 4], .push [5, 6, 7]]
    (chunksSinceDrain [] operations).flatten.length < usizeMax ∧
      ((new 5).run operations).toBytes = [1, 2, 5, 6, 7] ∧
      ((new 5).run operations).omittedBytes = 2 := by
  intro operations
  have below : (chunksSinceDrain [] operations).flatten.length < usizeMax := by decide
  obtain ⟨output, retained, omitted, -⟩ := run_spec 5 operations below
  refine ⟨below, output.trans rfl, ?_⟩
  rw [omitted, retained, output]
  rfl

end Run

end HeadTailBuffer

end CodexPilot.UnifiedExec
