/-
# What is written

Chunks go into a buffer one after the other, up to the first that does not fit:
the buffer then holds the chunks before that one and, after them, what it held
before. So a buffer of a claimed size is filled exactly if the claim is the total
length of the chunks; a claim that is too small is found out by a chunk that does
not fit, and one that is too large by the bytes left over.

A message is encoded into a buffer of the size that it claims, and a frame into
one that has room for the claim in front of it. Both succeed exactly if the claim
is right, and fail in the same way if it is not. A reply claims what it is written
with, so it is always encoded; into a buffer of any other size it is written as
far as its chunks fit.

Key definitions: `Frame.appendInPlace`, `CopyReply.Outcome.chunks`.
Key theorems: `Writer.putAll_append`, `Writer.putAll_of_lt`, `Writer.prefix_of_fits`,
`Writer.putAll_ofBuffer_of_le`, `Writer.putAll_ofBuffer_of_lt`, `Writer.fill_of_lt`,
`Writer.fill_of_gt`, `Writer.fill_cons`, `Frame.encode_eq_map`,
`Frame.appendInPlace_eq`, `CopyReply.chunks_eq`.
-/
import Mathlib.Data.List.Infix
import WireFormat.CopyReply
import WireFormat.Frame
import WireFormat.Relay

namespace WireFormat
namespace Writer

/-! ### Chunks up to the first that does not fit -/

theorem putAll_append (w : Writer) (xs ys : List Bytes) :
    w.putAll (xs ++ ys) =
      match w.putAll xs with
      | (.ok (), w') => w'.putAll ys
      | (.error e, w') => (.error e, w') := by
  induction xs generalizing w with
  | nil => rfl
  | cons chunk xs ih =>
    rw [List.cons_append, putAll, putAll]
    rcases w.put chunk with e | w'
    · rfl
    · exact ih w'

/-- Of chunks that are too long together, there is a first that does not fit. -/
theorem exists_lead {chunks : List Bytes} {n : Nat} (h : n < chunks.flatten.length) :
    ∃ lead chunk rest, chunks = lead ++ chunk :: rest ∧
      lead.flatten.length ≤ n ∧ n < lead.flatten.length + chunk.length := by
  induction chunks generalizing n with
  | nil => simp at h
  | cons chunk chunks ih =>
    by_cases hn : n < chunk.length
    · exact ⟨[], chunk, chunks, rfl, by simp, by simpa using hn⟩
    · rw [List.flatten_cons, List.length_append] at h
      obtain ⟨lead, next, rest, rfl, hle, hlt⟩ := ih (n := n - chunk.length) (by omega)
      refine ⟨chunk :: lead, next, rest, rfl, ?_, ?_⟩
      · rw [List.flatten_cons, List.length_append]
        omega
      · rw [List.flatten_cons, List.length_append]
        omega

/-- Of chunks that do not all fit, those before the first that does not are written. -/
theorem putAll_of_lt {w : Writer} {chunks : List Bytes}
    (h : w.free.length < chunks.flatten.length) :
    ∃ lead chunk rest, chunks = lead ++ chunk :: rest ∧
      lead.flatten.length ≤ w.free.length ∧
      w.free.length < lead.flatten.length + chunk.length ∧
      w.putAll chunks =
        (.error (.invalidArgument
            (.bufferTooSmall chunk.length (w.free.length - lead.flatten.length))),
          ⟨w.written ++ lead.flatten, w.free.drop lead.flatten.length⟩) := by
  obtain ⟨lead, chunk, rest, rfl, hle, hlt⟩ := exists_lead h
  have hshort : (w.free.drop lead.flatten.length).length < chunk.length := by
    rw [List.length_drop]
    omega
  refine ⟨lead, chunk, rest, rfl, hle, hlt, ?_⟩
  simp only [putAll_append, putAll_of_le hle]
  rw [putAll, put_of_lt hshort, List.length_drop]

/-- The chunks before the first that does not fit are all that fit from the start. -/
theorem prefix_of_fits {lead rest other : List Bytes} {chunk : Bytes} {n : Nat}
    (hlt : n < lead.flatten.length + chunk.length) (hother : other <+: lead ++ chunk :: rest)
    (hfits : other.flatten.length ≤ n) : other <+: lead := by
  rcases List.prefix_or_prefix_of_prefix hother (List.prefix_append lead _) with h | h
  · exact h
  · obtain ⟨more, rfl⟩ := h
    rw [List.prefix_append_right_inj] at hother
    cases more with
    | nil => simp
    | cons first more =>
      -- the chunk that does not fit would be among those that do
      obtain ⟨rfl, -⟩ := List.cons_prefix_cons.1 hother
      simp only [List.flatten_append, List.flatten_cons, List.length_append] at hfits
      omega

theorem finish_eq_ok_iff {w : Writer} : w.finish = .ok () ↔ w.free = [] := by
  unfold finish
  split_ifs with h <;> simp [h]

theorem putAll_ofBuffer_of_le {buffer : Bytes} {chunks : List Bytes}
    (h : chunks.flatten.length ≤ buffer.length) :
    ∃ w, (ofBuffer buffer).putAll chunks = (.ok (), w) ∧
      w.written.length = chunks.flatten.length ∧
      w.buffer = chunks.flatten ++ buffer.drop chunks.flatten.length ∧
      (w.finish = .ok () ↔ buffer.length = chunks.flatten.length) := by
  have hput := putAll_of_le (w := ofBuffer buffer) h
  refine ⟨_, hput, rfl, rfl, ?_⟩
  rw [finish_eq_ok_iff]
  show buffer.drop chunks.flatten.length = [] ↔ _
  rw [List.drop_eq_nil_iff]
  exact ⟨fun hle => Nat.le_antisymm hle h, Nat.le_of_eq⟩

/-- A buffer that is too short holds the longest run of leading chunks that fits
and then what it held before. -/
theorem putAll_ofBuffer_of_lt {buffer : Bytes} {chunks : List Bytes}
    (h : buffer.length < chunks.flatten.length) :
    ∃ lead chunk rest misuse w, chunks = lead ++ chunk :: rest ∧
      lead.flatten.length ≤ buffer.length ∧
      buffer.length < lead.flatten.length + chunk.length ∧
      (∀ other, other <+: chunks → other.flatten.length ≤ buffer.length → other <+: lead) ∧
      (ofBuffer buffer).putAll chunks = (.error (.invalidArgument misuse), w) ∧
      w.written.length = lead.flatten.length ∧
      w.buffer = lead.flatten ++ buffer.drop lead.flatten.length := by
  obtain ⟨lead, chunk, rest, rfl, hle, hlt, hput⟩ := putAll_of_lt (w := ofBuffer buffer) h
  refine ⟨lead, chunk, rest, _, _, rfl, hle, hlt, fun other hother hfits => ?_, hput, rfl, rfl⟩
  exact prefix_of_fits hlt hother hfits

/-! ### Buffers of a claimed size -/

theorem fill_eq_of_putAll {size : Nat} {chunks : List Bytes} {result : Except Error Unit}
    {w : Writer} (h : (ofBuffer (List.replicate size 0)).putAll chunks = (result, w)) :
    fill size chunks = (do result; w.finish; return w.buffer) := by
  unfold fill
  rw [h]

/-- Chunks that are longer than the buffer are found out by the first that does
not fit. -/
theorem fill_of_lt {size : Nat} {chunks : List Bytes} (h : size < chunks.flatten.length) :
    ∃ wanted left, left < wanted ∧
      fill size chunks = .error (.invalidArgument (.bufferTooSmall wanted left)) := by
  have hsize : (ofBuffer (List.replicate size 0)).free.length = size := by simp [ofBuffer]
  obtain ⟨lead, chunk, rest, -, hle, hlt, hput⟩ :=
    putAll_of_lt (w := ofBuffer (List.replicate size 0)) (hsize ▸ h)
  exact ⟨_, _, by omega, fill_eq_of_putAll hput⟩

theorem fill_of_gt {size : Nat} {chunks : List Bytes} (h : chunks.flatten.length < size) :
    fill size chunks =
      .error (.invalidArgument (.bufferNotFilled (size - chunks.flatten.length))) := by
  have hsize : (ofBuffer (List.replicate size 0)).free.length = size := by simp [ofBuffer]
  have hleft : ((ofBuffer (List.replicate size 0)).free.drop chunks.flatten.length).length =
      size - chunks.flatten.length := by rw [List.length_drop, hsize]
  have hne : (ofBuffer (List.replicate size 0)).free.drop chunks.flatten.length ≠ [] := by
    rw [← List.length_pos_iff, hleft]
    omega
  rw [fill_eq_of_putAll (putAll_of_le (by omega)), finish, if_neg hne, hleft]
  rfl

/-- What was written before does not matter to what is written after it. -/
theorem putAll_written (pre written free : Bytes) (chunks : List Bytes) :
    (Writer.mk (pre ++ written) free).putAll chunks =
      (((Writer.mk written free).putAll chunks).1,
        ⟨pre ++ ((Writer.mk written free).putAll chunks).2.written,
          ((Writer.mk written free).putAll chunks).2.free⟩) := by
  induction chunks generalizing written free with
  | nil => rfl
  | cons chunk chunks ih =>
    by_cases h : chunk.length ≤ free.length
    · rw [putAll, putAll, put_of_le h, put_of_le h]
      simp only [List.append_assoc, ih]
    · rw [putAll, putAll, put_of_lt (by simpa using h), put_of_lt (by simpa using h)]

theorem fill_cons (size : Nat) (chunk : Bytes) (chunks : List Bytes) :
    fill (chunk.length + size) (chunk :: chunks) = (fill size chunks).map (chunk ++ ·) := by
  rcases hput : (ofBuffer (List.replicate size 0)).putAll chunks with ⟨result, w⟩
  have hfit : chunk.length ≤
      (ofBuffer (List.replicate (chunk.length + size) 0)).free.length := by simp [ofBuffer]
  have hcons : (ofBuffer (List.replicate (chunk.length + size) 0)).putAll (chunk :: chunks) =
      (result, ⟨chunk ++ w.written, w.free⟩) := by
    have hnext := putAll_written chunk [] (List.replicate size 0) chunks
    rw [← ofBuffer, hput] at hnext
    rw [putAll, put_of_le hfit]
    simpa [ofBuffer] using hnext
  rw [fill_eq_of_putAll hcons, fill_eq_of_putAll hput]
  cases result with
  | error e => rfl
  | ok _ =>
    by_cases hfree : w.free = []
    · simp [finish, hfree, buffer, bind, Except.bind, pure, Except.pure, Except.map]
    · simp [finish, hfree, bind, Except.bind, Except.map]

end Writer

namespace Message

variable {α : Type} [Message α]

/-! ### Messages and their frames -/

/-- A claim that is not the length of the chunks is refused for a misuse that says
in which way it is wrong. -/
theorem encode_of_claim_ne {m : α}
    (h : claimedLength m ≠ (chunks m).flatten.length) :
    ∃ misuse, encode m = .error (.invalidArgument misuse) ∧
      (claimedLength m < (chunks m).flatten.length →
        ∃ wanted left, left < wanted ∧ misuse = .bufferTooSmall wanted left) ∧
      ((chunks m).flatten.length < claimedLength m →
        misuse =
          .bufferNotFilled (claimedLength m - (chunks m).flatten.length)) := by
  rcases Nat.lt_or_gt_of_ne h with hlt | hgt
  · obtain ⟨wanted, left, hleft, hfill⟩ := Writer.fill_of_lt hlt
    exact ⟨_, hfill, fun _ => ⟨wanted, left, hleft, rfl⟩, fun hgt => by omega⟩
  · exact ⟨_, Writer.fill_of_gt hgt, fun hlt => by omega, fun _ => rfl⟩

end Message

namespace Frame

variable {α : Type} [Message α]

/-- A frame is the claimed length of a message and what the message is encoded
as; it fails as the message does. -/
theorem encode_eq_map (m : α) :
    encode m =
      (Message.encode m).map (Varint.encode (UInt64.ofNat (Message.claimedLength m)) ++ ·) := by
  unfold encode Message.encode
  simp only
  rw [← Varint.length_encode, Writer.fill_cons]

/-- Appends a message to a stream in place: makes room for the frame that the
message claims, writes into the room, and if that fails cuts the stream off where
it ended before. -/
def appendInPlace (m : α) (stream : Bytes) : Except Error Unit × Bytes :=
  let length := Message.claimedLength m
  let room := Varint.length (UInt64.ofNat length) + length
  let resized := stream ++ List.replicate room 0
  let (result, w) := (Writer.ofBuffer (resized.drop stream.length)).putAll
    (Varint.encode (UInt64.ofNat length) :: Message.chunks m)
  let changed := resized.take stream.length ++ w.buffer
  match (do result; w.finish) with
  | .ok () => (.ok (), changed)
  | .error e => (.error e, changed.take stream.length)

/-- Appending in place gives the same result and leaves the same stream. -/
theorem appendInPlace_eq (m : α) (stream : Bytes) : appendInPlace m stream = append m stream := by
  unfold appendInPlace append encode
  simp only [List.drop_left, List.take_left]
  rcases hput : (Writer.ofBuffer (List.replicate _ 0)).putAll
    (Varint.encode (UInt64.ofNat (Message.claimedLength m)) :: Message.chunks m) with ⟨result, w⟩
  rw [Writer.fill_eq_of_putAll hput]
  cases result with
  | error e => simp [bind, Except.bind]
  | ok _ =>
    rcases hfinish : w.finish with e | _ <;>
      simp [bind, Except.bind, pure, Except.pure]

theorem append_of_encode_ok {m : α} {bs : Bytes} (h : Message.encode m = .ok bs)
    (stream : Bytes) :
    append m stream =
      (.ok (), stream ++ (Varint.encode (UInt64.ofNat (Message.claimedLength m)) ++ bs)) := by
  apply append_of_ok
  rw [encode_eq_map, h]
  rfl

theorem append_of_encode_error {m : α} {e : Error} (h : Message.encode m = .error e)
    (stream : Bytes) : append m stream = (.error e, stream) := by
  apply append_of_error
  rw [encode_eq_map, h]
  rfl

/-- **No message is written with a wrong length.** Encoding a message and appending it
to a stream succeed exactly if the length it claims is that of its chunks; otherwise
both fail for the same misuse, and the stream is what it was. -/
theorem written_iff_claim_exact (m : α) :
    ((∃ bs, Message.encode m = .ok bs) ↔
      Message.claimedLength m = (Message.chunks m).flatten.length) ∧
    (∀ stream, (append m stream).1 = .ok () ↔
      Message.claimedLength m = (Message.chunks m).flatten.length) ∧
    (Message.claimedLength m = (Message.chunks m).flatten.length →
      Message.encode m = .ok (Message.chunks m).flatten ∧
      ∀ stream, append m stream =
        (.ok (), stream ++ (Varint.encode (UInt64.ofNat (Message.claimedLength m)) ++
          (Message.chunks m).flatten))) ∧
    (Message.claimedLength m ≠ (Message.chunks m).flatten.length →
      ∃ misuse, Message.encode m = .error (.invalidArgument misuse) ∧
        (∀ stream, append m stream = (.error (.invalidArgument misuse), stream)) ∧
        (Message.claimedLength m < (Message.chunks m).flatten.length →
          ∃ wanted left, left < wanted ∧ misuse = .bufferTooSmall wanted left) ∧
        ((Message.chunks m).flatten.length < Message.claimedLength m →
          misuse =
            .bufferNotFilled (Message.claimedLength m - (Message.chunks m).flatten.length))) ∧
    ∀ stream, appendInPlace m stream = append m stream := by
  refine ⟨⟨fun hx => ?_, fun h => ⟨_, Message.encode_of_claim_eq h⟩⟩,
    fun stream => ⟨fun hx => ?_, fun h => ?_⟩, fun h => ?_, fun h => ?_, appendInPlace_eq m⟩
  · by_contra hne
    obtain ⟨misuse, hencode, -⟩ := Message.encode_of_claim_ne hne
    obtain ⟨bs, hbs⟩ := hx
    rw [hencode] at hbs
    cases hbs
  · by_contra hne
    obtain ⟨misuse, hencode, -⟩ := Message.encode_of_claim_ne hne
    rw [append_of_encode_error hencode] at hx
    cases hx
  · rw [append_of_encode_ok (Message.encode_of_claim_eq h)]
  · exact ⟨Message.encode_of_claim_eq h, append_of_encode_ok (Message.encode_of_claim_eq h)⟩
  · obtain ⟨misuse, hencode, hlt, hgt⟩ := Message.encode_of_claim_ne h
    exact ⟨misuse, hencode, append_of_encode_error hencode, hlt, hgt⟩

/-- A relay of 128 bytes that claims one less and one of 127 that claims one more are
not written, and the stream is kept. -/
theorem written_iff_claim_exact_relay :
    let relay (surplus : Int) (size : Nat) : Relay :=
      { surplus, entries := [⟨⟨3, .lengthDelimited⟩,
        0x1A :: UInt8.ofNat size :: List.replicate size 0x61⟩] }
    (append (relay 0 126) [0xFF] =
      (.ok (), [0xFF] ++ ([0x80, 0x01] ++ (Message.chunks (relay 0 126)).flatten))) ∧
    (append (relay (-1) 126) [0xFF]).2 = [0xFF] ∧
    append (relay 1 125) [0xFF] = (.error (.invalidArgument (.bufferNotFilled 1)), [0xFF]) := by
  intro relay
  have hexact := written_iff_claim_exact (relay 0 126)
  have hbelow := written_iff_claim_exact (relay (-1) 126)
  have habove := written_iff_claim_exact (relay 1 125)
  refine ⟨?_, ?_, ?_⟩
  · have hlength : Varint.encode (UInt64.ofNat (Message.claimedLength (relay 0 126))) =
        [0x80, 0x01] := by decide +kernel
    rw [(hexact.2.2.1 (by decide +kernel)).2 [0xFF], hlength]
  · obtain ⟨misuse, -, happend, -⟩ := hbelow.2.2.2.1 (by decide +kernel)
    rw [happend]
  · obtain ⟨misuse, -, happend, -, hgt⟩ := habove.2.2.2.1 (by decide +kernel)
    rw [happend, hgt (by decide +kernel)]
    decide +kernel

end Frame

namespace CopyReply

/-! ### Replies -/

/-- The chunks of an outcome: the byte of its key, then the number of an index, or
the length and the bytes of the description of a failure. -/
def Outcome.chunks : Outcome → List Bytes
  | unset => []
  | index v => [[0x08], Varint.encode (Payload.ofInt32 v)]
  | error description =>
    [[0x12], Varint.encode (UInt64.ofNat (Text.encode description).length),
      Text.encode description]

/-- A reply is written as the chunks of its outcome and the entries it does not
know. -/
theorem chunks_eq (m : CopyReply) :
    Message.chunks m = m.outcome.chunks ++ m.unknown.map Entry.raw := by
  have hindex : Key.encode ⟨indexField, .varint⟩ = [0x08] := by decide +kernel
  have herror : Key.encode ⟨errorField, .lengthDelimited⟩ = [0x12] := by decide +kernel
  show (m.outcome.item?.map Item.chunks).getD [] ++ m.unknown.map Entry.raw = _
  cases m.outcome with
  | unset => rfl
  | index v => simp [Outcome.item?, Outcome.chunks, Item.chunks, hindex]
  | error description =>
    simp [Outcome.item?, Outcome.chunks, Item.chunks, Item.delimitedChunks, herror]

/-- **A reply is written exactly, into a buffer of any size.** It claims the length of
its chunks and is encoded as them; a buffer that is too short takes those before the
first that does not fit, and what follows them is as it was. -/
theorem write_reply_exact (m : CopyReply) :
    let chunks := m.outcome.chunks ++ m.unknown.map Entry.raw
    chunks.flatten.length = Message.claimedLength m ∧
    Message.encode m = .ok chunks.flatten ∧
    ∀ buffer : Bytes,
      (chunks.flatten.length ≤ buffer.length →
        ∃ w, Message.write (.ofBuffer buffer) m = (.ok (), w) ∧
          w.written.length = chunks.flatten.length ∧
          w.buffer = chunks.flatten ++ buffer.drop chunks.flatten.length ∧
          (w.finish = .ok () ↔ buffer.length = chunks.flatten.length)) ∧
      (buffer.length < chunks.flatten.length →
        ∃ lead chunk rest misuse w, chunks = lead ++ chunk :: rest ∧
          lead.flatten.length ≤ buffer.length ∧
          buffer.length < lead.flatten.length + chunk.length ∧
          (∀ other, other <+: chunks → other.flatten.length ≤ buffer.length → other <+: lead) ∧
          Message.write (.ofBuffer buffer) m = (.error (.invalidArgument misuse), w) ∧
          w.written.length = lead.flatten.length ∧
          w.buffer = lead.flatten ++ buffer.drop lead.flatten.length) := by
  intro chunks
  have hchunks : Message.chunks m = chunks := chunks_eq m
  have hclaim := claimedLength_eq m
  rw [← hchunks]
  refine ⟨hclaim.symm, Message.encode_of_claim_eq hclaim,
    fun buffer => ⟨fun hle => ?_, fun hlt => ?_⟩⟩
  · exact Writer.putAll_ofBuffer_of_le hle
  · exact Writer.putAll_ofBuffer_of_lt hlt

/-- A failure of four chunks in six and in nine bytes, and a negative index, whose
number has ten bytes, in six and in eleven. -/
theorem write_reply_exact_six :
    let m : CopyReply :=
      { outcome := .error "abc", unknown := [⟨⟨3, .varint⟩, [0x18, 0x07]⟩] }
    let negative : CopyReply := ofIndex (-2)
    ((∃ misuse w, Message.write (.ofBuffer (List.replicate 6 0xEE)) m =
        (.error (.invalidArgument misuse), w) ∧
      w.buffer = [0x12, 0x03, 0x61, 0x62, 0x63, 0xEE] ∧ w.written.length = 5) ∧
    ∃ w, Message.write (.ofBuffer (List.replicate 9 0xEE)) m = (.ok (), w) ∧
      w.buffer = [0x12, 0x03, 0x61, 0x62, 0x63, 0x18, 0x07, 0xEE, 0xEE] ∧ w.finish ≠ .ok ()) ∧
    (∃ misuse w, Message.write (.ofBuffer (List.replicate 6 0xEE)) negative =
        (.error (.invalidArgument misuse), w) ∧
      w.buffer = [0x08, 0xEE, 0xEE, 0xEE, 0xEE, 0xEE] ∧ w.written.length = 1) ∧
    ∃ w, Message.write (.ofBuffer (List.replicate 11 0xEE)) negative = (.ok (), w) ∧
      w.buffer = [0x08, 0xFE, 0xFF, 0xFF, 0xFF, 0xFF, 0xFF, 0xFF, 0xFF, 0xFF, 0x01] ∧
      w.finish = .ok () := by
  intro m negative
  obtain ⟨-, -, hwrite⟩ := write_reply_exact m
  obtain ⟨-, -, hwrite'⟩ := write_reply_exact negative
  -- of a run of chunks that fits, all but the last, no longer run fits
  have hlast : ∀ {fits lead rest chunks : List Bytes} {chunk : Bytes}, fits <+: lead →
      chunks = lead ++ chunk :: rest → chunks.length = fits.length + 1 → fits = lead := by
    rintro fits lead rest _ chunk hfits rfl hlength
    refine hfits.eq_of_length_le ?_
    simp only [List.length_append, List.length_cons] at hlength
    omega
  refine ⟨⟨?_, ?_⟩, ?_, ?_⟩
  · obtain ⟨lead, chunk, rest, misuse, w, heq, -, -, hall, hput, hlen, hbuf⟩ :=
      (hwrite (List.replicate 6 0xEE)).2 (by decide +kernel)
    have hfits := hall [[0x12], [0x03], [0x61, 0x62, 0x63]] (by decide +kernel) (by decide)
    obtain rfl := hlast hfits heq (by decide +kernel)
    exact ⟨misuse, w, hput, hbuf, hlen⟩
  · obtain ⟨w, hput, -, hbuf, hfinish⟩ := (hwrite (List.replicate 9 0xEE)).1 (by decide +kernel)
    refine ⟨w, hput, ?_, fun h => ?_⟩
    · rw [hbuf]
      decide +kernel
    · exact absurd (hfinish.1 h) (by decide +kernel)
  · obtain ⟨lead, chunk, rest, misuse, w, heq, -, -, hall, hput, hlen, hbuf⟩ :=
      (hwrite' (List.replicate 6 0xEE)).2 (by decide +kernel)
    have hfits := hall [[0x08]] (by decide +kernel) (by decide)
    obtain rfl := hlast hfits heq (by decide +kernel)
    exact ⟨misuse, w, hput, hbuf, hlen⟩
  · obtain ⟨w, hput, -, hbuf, hfinish⟩ := (hwrite' (List.replicate 11 0xEE)).1 (by decide +kernel)
    refine ⟨w, hput, ?_, hfinish.2 (by decide +kernel)⟩
    rw [hbuf]
    decide +kernel

end CopyReply
end WireFormat
