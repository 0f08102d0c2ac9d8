/-
# Items read back

What a writer was asked to write can be read again with the calls that belong to it:
a number or a key with one call, a signed number or a text with one for its key and
one for the value. This is so of every item that says where it ends, whatever follows
it, so a run of items reads back item by item. A buffer that has the length of all of
them takes them all and is full then, and reading it takes all of it.

Key definitions: `Item.Readable`, `Item.calls`, `Item.values`.
Key theorems: `Payload.run_text_encode`, `Item.calls_chunks`, `Item.calls_flatMap`.
-/
import WireFormat.Proofs.Cursor.Calls
import WireFormat.Proofs.Writer.History

namespace WireFormat

open Cursor (Call Value)

theorem Payload.run_text_encode {s : String} (h : s.utf8ByteSize < UInt64.size) (rest : Bytes) :
    text.run ((Item.delimitedChunks (Text.encode s)).flatten ++ rest) = (.ok s, rest) := by
  have hlen : (Text.encode s).length < UInt64.size := h
  have hbody : delimited.run ((Item.delimitedChunks (Text.encode s)).flatten ++ rest) =
      (.ok (Text.encode s), rest) := by
    have := run_delimited_encode hlen rest
    simpa [Item.delimitedChunks] using this
  rw [text, Reader.run_bind_of_ok hbody, Text.decode_encode]
  rfl

namespace Cursor

variable {limits : Limits} {consumed used rest : Bytes} {call : Call} {v : Value}

theorem calls_cons_of_ok (h : (call.reader limits).run (used ++ rest) = (.ok v, rest))
    (cs : List Call) :
    (Cursor.mk consumed (used ++ rest)).calls limits (call :: cs) =
      (.ok v :: ((Cursor.mk (consumed ++ used) rest).calls limits cs).1,
        ((Cursor.mk (consumed ++ used) rest).calls limits cs).2) := by
  have hrun : (Cursor.mk consumed (used ++ rest)).run (call.reader limits) =
      (.ok v, ⟨consumed ++ used, rest⟩) := run_of_append rfl h
  rw [calls_cons, hrun]

end Cursor

namespace Item

/-! ### Reading one item -/

/-- A field number that a key can hold. -/
def FieldFits (field : UInt32) : Prop := 1 ≤ field.toNat ∧ field.toNat ≤ Key.maxField

/-- An item that says where it ends, under a field number that a key can hold and with
a length of at most sixty-four bits. Bytes as they are do not say where they end. -/
def Readable : Item → Prop
  | bytes _ => False
  | varint _ => True
  | key k => FieldFits k.field
  | int32 field _ => FieldFits field
  | text field s => FieldFits field ∧ s.utf8ByteSize < UInt64.size
  | delimited bs => bs.length < UInt64.size

instance (field : UInt32) : Decidable (FieldFits field) :=
  inferInstanceAs (Decidable (_ ∧ _))

instance : (item : Item) → Decidable item.Readable
  | bytes _ => inferInstanceAs (Decidable False)
  | varint _ => inferInstanceAs (Decidable True)
  | key k => inferInstanceAs (Decidable (FieldFits k.field))
  | int32 field _ => inferInstanceAs (Decidable (FieldFits field))
  | text field s => inferInstanceAs (Decidable (FieldFits field ∧ s.utf8ByteSize < UInt64.size))
  | delimited bs => inferInstanceAs (Decidable (bs.length < UInt64.size))

/-- The calls that read an item. -/
def calls : Item → List Call
  | bytes _ => []
  | varint _ => [.varint]
  | key _ => [.key]
  | int32 _ _ => [.key, .int32]
  | text _ _ => [.key, .text]
  | delimited _ => [.delimited]

/-- What the calls that read an item give. -/
def values : Item → List Value
  | bytes _ => []
  | varint v => [.number v]
  | key k => [.key k]
  | int32 field v => [.key ⟨field, .varint⟩, .int32 v]
  | text field s => [.key ⟨field, .lengthDelimited⟩, .text s]
  | delimited bs => [.bytes bs]

variable {limits : Limits}

theorem run_varint (v : UInt64) (rest : Bytes) :
    (Call.reader limits .varint).run (Varint.encode v ++ rest) = (.ok (.number v), rest) := by
  rw [Call.reader, Reader.run_map, Varint.run_read_encode]

theorem run_key {k : Key} (h : FieldFits k.field) (rest : Bytes) :
    (Call.reader limits .key).run (k.encode ++ rest) = (.ok (.key k), rest) := by
  rw [Call.reader, Reader.run_map, Key.run_read_encode h.1 h.2]

theorem run_int32 (v : Int32) (rest : Bytes) :
    (Call.reader limits .int32).run (Varint.encode (Payload.ofInt32 v) ++ rest) =
      (.ok (.int32 v), rest) := by
  rw [Call.reader, Reader.run_map, Payload.run_int32_encode]

theorem run_text {s : String} (h : s.utf8ByteSize < UInt64.size) (rest : Bytes) :
    (Call.reader limits .text).run ((delimitedChunks (Text.encode s)).flatten ++ rest) =
      (.ok (.text s), rest) := by
  rw [Call.reader, Reader.run_map, Payload.run_text_encode h]

theorem run_delimited {bs : Bytes} (h : bs.length < UInt64.size) (rest : Bytes) :
    (Call.reader limits .delimited).run ((delimitedChunks bs).flatten ++ rest) =
      (.ok (.bytes bs), rest) := by
  have hbody : Payload.delimited.run ((delimitedChunks bs).flatten ++ rest) = (.ok bs, rest) := by
    simpa [delimitedChunks] using Payload.run_delimited_encode h rest
  rw [Call.reader, Reader.run_map, hbody]

/-- An item reads back with its own calls, whatever stands before and behind it. -/
theorem calls_chunks (limits : Limits) {item : Item} (h : item.Readable) (consumed rest : Bytes) :
    (Cursor.mk consumed (item.chunks.flatten ++ rest)).calls limits item.calls =
      (item.values.map .ok, ⟨consumed ++ item.chunks.flatten, rest⟩) := by
  cases item with
  | bytes bs => exact h.elim
  | varint v =>
    rw [show (varint v).chunks.flatten = Varint.encode v from List.flatten_singleton, calls,
      Cursor.calls_cons_of_ok (run_varint v rest)]
    rfl
  | key k =>
    rw [show (key k).chunks.flatten = k.encode from List.flatten_singleton, calls,
      Cursor.calls_cons_of_ok (run_key h rest)]
    rfl
  | int32 field v =>
    have hchunks : (int32 field v).chunks.flatten =
        Key.encode ⟨field, .varint⟩ ++ Varint.encode (Payload.ofInt32 v) := by
      simp [chunks]
    have hfield : FieldFits field := h
    rw [hchunks, List.append_assoc, calls, Cursor.calls_cons_of_ok (run_key hfield _),
      Cursor.calls_cons_of_ok (run_int32 v rest), List.append_assoc]
    rfl
  | text field s =>
    have hchunks : (text field s).chunks.flatten =
        Key.encode ⟨field, .lengthDelimited⟩ ++ (delimitedChunks (Text.encode s)).flatten := by
      simp [chunks]
    rw [hchunks, List.append_assoc, calls, Cursor.calls_cons_of_ok (run_key h.1 _),
      Cursor.calls_cons_of_ok (run_text h.2 rest), List.append_assoc]
    rfl
  | delimited bs =>
    rw [show (delimited bs).chunks = delimitedChunks bs from rfl, calls,
      Cursor.calls_cons_of_ok (run_delimited h rest)]
    rfl

/-! ### Reading items one after the other -/

theorem length_flatMap_chunks (items : List Item) :
    (items.flatMap chunks).flatten.length = totalLength items := by
  induction items with
  | nil => rfl
  | cons item items ih =>
    rw [List.flatMap_cons, List.flatten_append, List.length_append, length_chunks, ih,
      totalLength]

/-- Items read back one after the other. -/
theorem calls_flatMap (limits : Limits) {items : List Item} (h : ∀ item ∈ items, item.Readable)
    (consumed rest : Bytes) :
    (Cursor.mk consumed ((items.flatMap chunks).flatten ++ rest)).calls limits
        (items.flatMap calls) =
      ((items.flatMap values).map .ok, ⟨consumed ++ (items.flatMap chunks).flatten, rest⟩) := by
  induction items generalizing consumed with
  | nil => simp [Cursor.calls]
  | cons item items ih =>
    have hitem := calls_chunks limits (h item List.mem_cons_self) consumed
      ((items.flatMap chunks).flatten ++ rest)
    have hitems := ih (fun item' hmem => h item' (List.mem_cons_of_mem _ hmem))
      (consumed ++ item.chunks.flatten)
    simp only [List.flatMap_cons, List.flatten_append, List.append_assoc, Cursor.calls_append,
      List.map_append] at hitems ⊢
    rw [hitem, hitems]

/-- **What is written reads back.** Items that can be read fill a buffer of their
length, and the calls that belong to them give what was written, in the same order and
with nothing left. -/
theorem writeAll_reads_back (items : List Item) (hitems : ∀ item ∈ items, item.Readable)
    (buffer : Bytes) (hsize : buffer.length = totalLength items) (limits : Limits) :
    let run := (Writer.ofBuffer buffer).writeAll items
    let read := (Cursor.ofBytes run.2.buffer).calls limits (items.flatMap calls ++ [.finish])
    run.1 = items.map (fun _ => .ok ()) ∧ run.2.finish = .ok () ∧
      read.1 = (items.flatMap values).map .ok ++ [.ok .done] ∧
      read.2 = ⟨run.2.buffer, []⟩ := by
  intro run read
  have hrun : run = (items.map fun _ => .ok (),
      (Writer.ofBuffer buffer).advance (items.flatMap chunks).flatten) :=
    Writer.writeAll_of_le (Nat.le_of_eq hsize.symm)
  have hlen : (items.flatMap chunks).flatten.length = buffer.length := by
    rw [length_flatMap_chunks, hsize]
  have hbuffer : run.2.buffer = (items.flatMap chunks).flatten := by
    rw [hrun, Writer.buffer_advance_ofBuffer, hlen, List.drop_length, List.append_nil]
  have hread : (Cursor.ofBytes run.2.buffer).calls limits (items.flatMap calls) =
      ((items.flatMap values).map .ok, ⟨run.2.buffer, []⟩) := by
    have := calls_flatMap limits hitems [] []
    rwa [List.append_nil, List.nil_append, ← hbuffer] at this
  have hfinish : (Cursor.mk run.2.buffer []).calls limits [.finish] =
      ([.ok .done], ⟨run.2.buffer, []⟩) := by
    rw [Cursor.calls_cons, Cursor.Call.run_finish]
    rfl
  have hall : read = _ := Cursor.calls_append _ _ _
  rw [hread, hfinish] at hall
  refine ⟨congrArg Prod.fst hrun, ?_, congrArg Prod.fst hall, congrArg Prod.snd hall⟩
  rw [hrun]
  exact (Writer.finish_advance_ofBuffer_iff (Nat.le_of_eq hlen)).2 hlen

/-- A negative number, a text, a key that ends a group, a large number and some bytes
are written one behind the other and read back. -/
theorem writeAll_reads_back_five :
    let items : List Item := [.int32 1 (-5), .text 2 "text", .key ⟨536870911, .endGroup⟩,
      .varint 18446744073709551615, .delimited [0x00, 0xFF]]
    let run := (Writer.ofBuffer (List.replicate 35 0xEE)).writeAll items
    run.2.finish = .ok () ∧
      ((Cursor.ofBytes run.2.buffer).calls {}
        [.key, .int32, .key, .text, .key, .varint, .delimited, .finish]).1 =
      [.ok (.key ⟨1, .varint⟩), .ok (.int32 (-5)), .ok (.key ⟨2, .lengthDelimited⟩),
        .ok (.text "text"), .ok (.key ⟨536870911, .endGroup⟩),
        .ok (.number 18446744073709551615), .ok (.bytes [0x00, 0xFF]), .ok .done] := by
  intro items run
  have hreadable : ∀ item ∈ items, item.Readable := by decide +kernel
  have hsize : (List.replicate 35 (0xEE : UInt8)).length = totalLength items := by decide +kernel
  obtain ⟨-, hfinish, hread, -⟩ := writeAll_reads_back items hreadable _ hsize {}
  exact ⟨hfinish, hread⟩

end Item
end WireFormat
