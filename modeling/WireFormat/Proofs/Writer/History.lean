/-
# What a buffer holds after any writes

Items are written into a buffer one after the other, whether the ones before them
were written or not. An item is written chunk by chunk up to the first chunk that is
longer than the space left; the chunks before that one stay, and the next item, which
may be shorter, goes on behind them.

The history of a run says for each item which of its chunks were written and what
came of it, from the number of bytes left alone. After any run the buffer begins with
the chunks of its history, one behind the other, and from there on it holds what it
held at first. What was written once is never written again. All this is so too when
the items are written by position.

Key definitions: `Item.totalLength`, `Writer.Taken`, `Writer.History`, `Writer.writeAll`.
Key theorems: `Writer.put_eq_error_iff`, `Writer.exists_taken`,
`Writer.exists_history`, `Writer.writeAll_of_le`.
-/
import WireFormat.Proofs.Writer.Positioned

namespace WireFormat

/-- How many bytes items take one after the other. -/
def Item.totalLength : List Item → Nat
  | [] => 0
  | item :: items => item.length + totalLength items

namespace Writer

/-! ### Histories -/

/-- What comes of offering chunks to a buffer with `left` bytes of space: those of
`lead` are written. -/
inductive Taken (left : Nat) (chunks lead : List Bytes) : Except Error Unit → Prop where
  /-- All chunks fit. -/
  | complete : lead = chunks → lead.flatten.length ≤ left → Taken left chunks lead (.ok ())
  /-- The chunk after `lead` is longer than the space that `lead` leaves. -/
  | refused (chunk : Bytes) (rest : List Bytes) : chunks = lead ++ chunk :: rest →
      lead.flatten.length ≤ left → left - lead.flatten.length < chunk.length →
      Taken left chunks lead
        (.error (.invalidArgument
          (.bufferTooSmall chunk.length (left - lead.flatten.length))))

/-- What comes of writing items one after the other into `left` bytes, and which
chunks of each are written. -/
inductive History : (left : Nat) → List Item → List (Except Error Unit) → List (List Bytes) →
    Prop where
  | nil (left : Nat) : History left [] [] []
  | cons {left : Nat} {item : Item} {items : List Item} {result : Except Error Unit}
      {results : List (Except Error Unit)} {lead : List Bytes} {leads : List (List Bytes)} :
      Taken left item.chunks lead result →
      History (left - lead.flatten.length) items results leads →
      History left (item :: items) (result :: results) (lead :: leads)

variable {left : Nat}

theorem Taken.length_le {chunks lead : List Bytes} {result : Except Error Unit}
    (h : Taken left chunks lead result) : lead.flatten.length ≤ left := by
  cases h with
  | complete _ hle => exact hle
  | refused _ _ _ hle _ => exact hle

theorem History.length_le {items : List Item} {results : List (Except Error Unit)}
    {leads : List (List Bytes)} (h : History left items results leads) :
    leads.flatten.flatten.length ≤ left := by
  induction h with
  | nil left => exact Nat.zero_le _
  | @cons left item items result results lead leads htaken _ ih =>
    have hle := htaken.length_le
    rw [List.flatten_cons, List.flatten_append, List.length_append]
    omega

/-! ### One item -/

/-- The writer after `bs` more bytes were written. -/
def advance (w : Writer) (bs : Bytes) : Writer := ⟨w.written ++ bs, w.free.drop bs.length⟩

@[simp] theorem written_advance (w : Writer) (bs : Bytes) :
    (w.advance bs).written = w.written ++ bs := rfl

@[simp] theorem length_free_advance (w : Writer) (bs : Bytes) :
    (w.advance bs).free.length = w.free.length - bs.length := List.length_drop

theorem advance_nil (w : Writer) : w.advance [] = w := by
  simp [advance]

theorem advance_advance (w : Writer) (xs ys : Bytes) :
    (w.advance xs).advance ys = w.advance (xs ++ ys) := by
  simp [advance, List.drop_drop]

/-- A chunk is refused exactly if it is longer than the space left. -/
theorem put_eq_error_iff {w : Writer} {chunk : Bytes} {e : Error} :
    w.put chunk = .error e ↔ w.free.length < chunk.length ∧
      e = .invalidArgument (.bufferTooSmall chunk.length w.free.length) := by
  by_cases hle : chunk.length ≤ w.free.length
  · have hnot : ¬ w.free.length < chunk.length := by omega
    simp [put_of_le hle, hnot]
  · have hlt : w.free.length < chunk.length := by omega
    simp [put_of_lt hlt, hlt, eq_comm]

/-- Of every item some leading chunks are written, and its history is that. -/
theorem exists_taken (w : Writer) (item : Item) :
    ∃ lead, Taken w.free.length item.chunks lead (w.write item).1 ∧
      (w.write item).2 = w.advance lead.flatten := by
  by_cases hle : item.chunks.flatten.length ≤ w.free.length
  · have hput : w.write item = (.ok (), w.advance item.chunks.flatten) := putAll_of_le hle
    rw [hput]
    exact ⟨item.chunks, .complete rfl hle, rfl⟩
  · have hgt : w.free.length < item.chunks.flatten.length := by omega
    obtain ⟨lead, chunk, rest, hchunks, hfits, hlt, hput⟩ := putAll_of_lt hgt
    have hwrite : w.write item =
        (.error (.invalidArgument
          (.bufferTooSmall chunk.length (w.free.length - lead.flatten.length))),
          w.advance lead.flatten) := hput
    rw [hwrite]
    exact ⟨lead, .refused chunk rest hchunks hfits (by omega), rfl⟩

/-! ### Items one after the other -/

/-- Writes items one after the other, whatever comes of each. -/
def writeAll (w : Writer) : List Item → List (Except Error Unit) × Writer
  | [] => ([], w)
  | item :: items =>
    let (result, w') := w.write item
    let (results, w'') := w'.writeAll items
    (result :: results, w'')

theorem writeAll_cons (w : Writer) (item : Item) (items : List Item) :
    w.writeAll (item :: items) =
      ((w.write item).1 :: ((w.write item).2.writeAll items).1,
        ((w.write item).2.writeAll items).2) := rfl

/-- Writes items by position one after the other; nothing if one goes out of range. -/
def Positioned.writeAll (p : Place) : List Item → Option (List (Except Error Unit) × Place)
  | [] => some ([], p)
  | i :: items => do
    let (result, p') ← item i p
    let (results, p'') ← writeAll p' items
    return (result :: results, p'')

/-- Writing by position stays in range, and does what writing does. -/
theorem Positioned.writeAll_eq (w : Writer) (items : List Item) :
    writeAll w.place items = some ((w.writeAll items).1, (w.writeAll items).2.place) := by
  induction items generalizing w with
  | nil => rfl
  | cons i items ih =>
    have hitem : item i w.place = some ((w.write i).1, (w.write i).2.place) := follows_item i w
    rw [writeAll, hitem, writeAll_cons]
    simp only [Option.bind_eq_bind, Option.bind_some, ih]
    rfl

/-- A run of writes has a history, and the writer has moved on by the chunks in it. -/
theorem exists_history (w : Writer) (items : List Item) :
    ∃ leads, History w.free.length items (w.writeAll items).1 leads ∧
      (w.writeAll items).2 = w.advance leads.flatten.flatten := by
  induction items generalizing w with
  | nil => exact ⟨[], .nil _, (advance_nil w).symm⟩
  | cons item items ih =>
    obtain ⟨lead, htaken, hnext⟩ := exists_taken w item
    obtain ⟨leads, hhistory, hlast⟩ := ih (w.write item).2
    rw [hnext, length_free_advance] at hhistory
    refine ⟨lead :: leads, ?_, ?_⟩
    · rw [writeAll_cons, hnext]
      exact .cons htaken hhistory
    · calc (w.writeAll (item :: items)).2
          = (w.write item).2.advance leads.flatten.flatten := hlast
        _ = w.advance (lead.flatten ++ leads.flatten.flatten) := by rw [hnext, advance_advance]
        _ = w.advance (lead :: leads).flatten.flatten := by
            rw [List.flatten_cons, List.flatten_append]

theorem writeAll_of_le {w : Writer} {items : List Item}
    (h : Item.totalLength items ≤ w.free.length) :
    w.writeAll items =
      (items.map fun _ => .ok (), w.advance (items.flatMap Item.chunks).flatten) := by
  induction items generalizing w with
  | nil => exact congrArg (Prod.mk []) (advance_nil w).symm
  | cons item items ih =>
    rw [Item.totalLength, ← Item.length_chunks] at h
    have hfits : item.chunks.flatten.length ≤ w.free.length := by omega
    have hput : w.write item = (.ok (), w.advance item.chunks.flatten) := putAll_of_le hfits
    have hrest : Item.totalLength items ≤ (w.advance item.chunks.flatten).free.length := by
      rw [length_free_advance]
      omega
    rw [writeAll_cons, hput, ih hrest, advance_advance, List.flatMap_cons, List.flatten_append]
    rfl

/-! ### The buffer -/

theorem buffer_advance_ofBuffer (buffer bs : Bytes) :
    ((ofBuffer buffer).advance bs).buffer = bs ++ buffer.drop bs.length := rfl

theorem finish_advance_ofBuffer_iff {buffer bs : Bytes} (h : bs.length ≤ buffer.length) :
    ((ofBuffer buffer).advance bs).finish = .ok () ↔ bs.length = buffer.length := by
  rw [finish_eq_ok_iff]
  show buffer.drop bs.length = [] ↔ _
  rw [List.drop_eq_nil_iff]
  omega

/-- **A buffer holds what was written, and behind it what it held.** After any writes it
begins with the chunks of their history, which later writes never change, and a chunk
is refused exactly if it is longer than the space left. -/
theorem writeAll_keeps_frame (buffer : Bytes) (items more : List Item) :
    let run := (ofBuffer buffer).writeAll items
    let later := run.2.writeAll more
    (Positioned.writeAll ⟨buffer, 0⟩ items = some (run.1, run.2.place) ∧
      Positioned.writeAll run.2.place more = some (later.1, later.2.place) ∧
      Positioned.finish run.2.place = some (run.2.finish, run.2.place)) ∧
    (∃ leads, History buffer.length items run.1 leads ∧
      run.2.buffer.take run.2.written.length = leads.flatten.flatten) ∧
    run.2.written.length ≤ buffer.length ∧
    run.2.buffer.length = buffer.length ∧
    run.2.buffer.drop run.2.written.length = buffer.drop run.2.written.length ∧
    (∃ leads, History (buffer.length - run.2.written.length) more later.1 leads ∧
      later.2.buffer.take later.2.written.length =
        run.2.buffer.take run.2.written.length ++ leads.flatten.flatten) ∧
    run.2.written.length ≤ later.2.written.length ∧
    later.2.buffer.take run.2.written.length = run.2.buffer.take run.2.written.length ∧
    (∀ chunk, ((∃ e, run.2.put chunk = .error e) ↔
        buffer.length - run.2.written.length < chunk.length) ∧
      ∀ e, run.2.put chunk = .error e → ∃ misuse, e = .invalidArgument misuse) ∧
    (run.2.finish = .ok () ↔ run.2.written.length = buffer.length) := by
  intro run later
  obtain ⟨leads, hhistory, hrun⟩ := exists_history (ofBuffer buffer) items
  obtain ⟨laterLeads, hlaterHistory, hlater⟩ := exists_history run.2 more
  have hw : run.2 = (ofBuffer buffer).advance leads.flatten.flatten := hrun
  have hlw : later.2 = run.2.advance laterLeads.flatten.flatten := hlater
  have hle : leads.flatten.flatten.length ≤ buffer.length := hhistory.length_le
  have hfree : run.2.free.length = buffer.length - run.2.written.length := by
    rw [hw, length_free_advance, written_advance]
    rfl
  have hwritten : run.2.written = leads.flatten.flatten := by
    rw [hw]
    rfl
  have hlaterWritten : later.2.written = run.2.written ++ laterLeads.flatten.flatten := by
    rw [hlw]
    rfl
  have hgrows : run.2.written.length ≤ later.2.written.length := by
    rw [hlaterWritten, List.length_append]
    omega
  -- what a writer has written is what its buffer begins with
  have htake : ∀ w : Writer, w.buffer.take w.written.length = w.written := fun w => by
    simp [Writer.buffer]
  rw [hfree] at hlaterHistory
  refine ⟨⟨Positioned.writeAll_eq (ofBuffer buffer) items, Positioned.writeAll_eq run.2 more,
      Positioned.finish_eq run.2⟩,
    ⟨leads, hhistory, (htake _).trans hwritten⟩, ?_, ?_, ?_, ⟨laterLeads, hlaterHistory, ?_⟩,
    hgrows, ?_, fun chunk => ⟨?_, ?_⟩, ?_⟩
  · rw [hwritten]
    exact hle
  · rw [hw, buffer_advance_ofBuffer, List.length_append, List.length_drop]
    omega
  · rw [hwritten, hw, buffer_advance_ofBuffer, List.drop_left]
  · rw [htake, htake, hlaterWritten]
  · rw [htake, Writer.buffer, List.take_append_of_le_length hgrows, hlaterWritten, List.take_left]
  · rw [← hfree]
    simp only [put_eq_error_iff, exists_and_left, exists_eq, and_true]
  · intro e he
    exact ⟨_, (put_eq_error_iff.1 he).2⟩
  · rw [hwritten, hw]
    exact finish_advance_ofBuffer_iff hle

/-- A number that does not fit behind its key leaves the key, and shorter items still
follow; then a text leaves its key and its length. -/
theorem writeAll_keeps_frame_refused :
    let items : List Item :=
      [.bytes [0x01], .key ⟨3, .startGroup⟩, .int32 1 (-1), .varint 300, .delimited [0x61]]
    let more : List Item := [.text 2 "abcd", .delimited [0x62, 0x63, 0x64]]
    let run := (ofBuffer (List.replicate 12 0xEE)).writeAll items
    let later := run.2.writeAll more
    run.1.map Except.isOk = [true, true, false, true, true] ∧
      later.1.map Except.isOk = [false, false] ∧
      run.2.buffer = [0x01, 0x1B, 0x08, 0xAC, 0x02, 0x01, 0x61, 0xEE, 0xEE, 0xEE, 0xEE, 0xEE] ∧
      later.2.buffer = [0x01, 0x1B, 0x08, 0xAC, 0x02, 0x01, 0x61, 0x12, 0x04, 0x03, 0xEE, 0xEE] ∧
      later.2.buffer.take 7 = run.2.buffer.take 7 ∧
      (∃ e, run.2.put [0x01, 0x02, 0x03, 0x04, 0x05, 0x06] = .error e) ∧ run.2.finish ≠ .ok () ∧
      Positioned.writeAll ⟨List.replicate 12 0xEE, 0⟩ items = some (run.1, ⟨run.2.buffer, 7⟩) := by
  intro items more run later
  have hwritten : run.2.written.length = 7 := by decide +kernel
  obtain ⟨⟨hplaced, -⟩, -, -, -, -, -, -, hsame, hput, hfinish⟩ :=
    writeAll_keeps_frame (List.replicate 12 0xEE) items more
  rw [hwritten] at hsame hput hfinish
  refine ⟨by decide +kernel, by decide +kernel, by decide +kernel, by decide +kernel, hsame,
    (hput _).1.2 (by decide), fun h => absurd (hfinish.1 h) (by decide), ?_⟩
  rw [hplaced, place, hwritten]

end Writer
end WireFormat
