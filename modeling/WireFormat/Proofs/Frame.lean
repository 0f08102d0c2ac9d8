/-
# Frames on a stream

A frame is a length and a body of that many bytes. Taking one off a stream
depends on these bytes alone: a length that cannot be read or that asks for more
than is there is an error of its own, and otherwise the body is decoded as if it
stood alone. A failure leaves the stream as it was. So what follows a complete
frame never changes what it gives, and an entry that the end of the body cuts off
is not completed from the next frame.

Messages that are appended to a stream one after the other are taken off it one
after the other, whatever the stream held before and whatever follows them.

Key definitions: `Frame.ofBody`, `Frame.appendAll`, `Frame.takeMany`.
Key theorems: `Frame.take_eq_of_le`, `Frame.snd_take_of_error`,
`Frame.take_append`, `Frame.encode_eq_ofBody`, `Frame.take_ofBody`,
`Frame.appendAll_eq`, `Frame.takeMany_eq`.
-/
import WireFormat.Frame
import WireFormat.Proofs.CopyReply.RoundTrip
import WireFormat.Proofs.Written

namespace WireFormat

namespace Payload

/-! ### A run of bytes after its length -/

variable {stream rest : Bytes}

theorem run_delimited_of_error {e : Error} (h : Varint.read.run stream = (.error e, rest)) :
    delimited.run stream = (.error e, rest) := by
  rw [delimited, Reader.run_bind_of_error h]

theorem run_delimited_of_lt {n : UInt64} (h : Varint.read.run stream = (.ok n, rest))
    (hlt : rest.length < n.toNat) :
    delimited.run stream = (.error (.truncated n.toNat rest.length), rest) := by
  have hle : ¬ n.toNat ≤ rest.length := by omega
  rw [delimited, Reader.run_bind_of_ok h, Reader.run_take, if_neg hle]

theorem run_delimited_of_le {n : UInt64} (h : Varint.read.run stream = (.ok n, rest))
    (hle : n.toNat ≤ rest.length) :
    delimited.run stream = (.ok (rest.take n.toNat), rest.drop n.toNat) := by
  rw [delimited, Reader.run_bind_of_ok h, Reader.run_take, if_pos hle]

end Payload

namespace Frame

open Grammar

variable {α : Type} [Message α] {limits : Limits} {stream rest : Bytes}

/-! ### Taking a frame -/

theorem take_of_delimited_error {e : Error} (h : Payload.delimited.run stream = (.error e, rest)) :
    (take limits stream : Report α × Bytes) = (⟨.error e, []⟩, stream) := by
  rw [take, h]

theorem take_of_delimited {body : Bytes} (h : Payload.delimited.run stream = (.ok body, rest)) :
    (take limits stream : Report α × Bytes) =
      (Message.decode limits body,
        match (Message.decode limits body : Report α).result with
        | .ok _ => rest
        | .error _ => stream) := by
  rw [take, h]
  rcases hr : (Message.decode limits body : Report α).result with e | m <;> simp only [hr]

/-- A complete frame gives what its body decodes to. -/
theorem take_eq_of_le {n : UInt64} (h : Varint.read.run stream = (.ok n, rest))
    (hle : n.toNat ≤ rest.length) :
    (take limits stream : Report α × Bytes) =
      (Message.decode limits (rest.take n.toNat),
        match (Message.decode limits (rest.take n.toNat) : Report α).result with
        | .ok _ => rest.drop n.toNat
        | .error _ => stream) :=
  take_of_delimited (Payload.run_delimited_of_le h hle)

theorem snd_take_of_error {e : Error}
    (h : (take limits stream : Report α × Bytes).1.result = .error e) :
    (take limits stream : Report α × Bytes).2 = stream := by
  rcases hd : Payload.delimited.run stream with ⟨e' | body, rest⟩
  · rw [take_of_delimited_error hd]
  · rw [take_of_delimited hd] at h ⊢
    simp only at h ⊢
    rw [h]

/-- What follows a complete frame stays behind it and changes nothing else. -/
theorem take_append {n : UInt64} (h : Varint.read.run stream = (.ok n, rest))
    (hle : n.toNat ≤ rest.length) (s : Bytes) :
    (take limits (stream ++ s) : Report α × Bytes) =
      ((take limits stream).1, (take limits stream : Report α × Bytes).2 ++ s) := by
  have hread : Varint.read.run (stream ++ s) = (.ok n, rest ++ s) := accepts_varint.run_append h s
  have hle' : n.toNat ≤ (rest ++ s).length := by
    rw [List.length_append]
    omega
  -- the body ends before `s` begins, so both streams have the same one
  have hbody : (rest ++ s).take n.toNat = rest.take n.toNat := List.take_append_of_le_length hle
  have hrest : (rest ++ s).drop n.toNat = rest.drop n.toNat ++ s :=
    List.drop_append_of_le_length hle
  rw [take_eq_of_le hread hle', take_eq_of_le h hle, hbody, hrest]
  split <;> rfl

/-- **A frame stands alone.** Its body is decoded by itself, whatever follows it, and
only a success moves the stream, to just behind the frame. -/
theorem take_depends_on_frame (α : Type) [Message α] (limits : Limits) (stream : Bytes) :
    (∀ e rest, Varint.read.run stream = (.error e, rest) →
      (take limits stream : Report α × Bytes) = (⟨.error e, []⟩, stream)) ∧
    (∀ n rest, Varint.read.run stream = (.ok n, rest) → rest.length < n.toNat →
      (take limits stream : Report α × Bytes) =
        (⟨.error (.truncated n.toNat rest.length), []⟩, stream)) ∧
    (∀ n rest, Varint.read.run stream = (.ok n, rest) → n.toNat ≤ rest.length →
      (take limits stream : Report α × Bytes).1 = Message.decode limits (rest.take n.toNat) ∧
      (∀ m, (take limits stream : Report α × Bytes).1.result = .ok m →
        (take limits stream : Report α × Bytes).2 = rest.drop n.toNat) ∧
      ∀ s, (take limits (stream ++ s) : Report α × Bytes) =
        ((take limits stream).1, (take limits stream : Report α × Bytes).2 ++ s)) ∧
    ∀ e, (take limits stream : Report α × Bytes).1.result = .error e →
      (take limits stream : Report α × Bytes).2 = stream := by
  refine ⟨fun e rest h => ?_, fun n rest h hlt => ?_, fun n rest h hle => ?_,
    fun e => snd_take_of_error⟩
  · exact take_of_delimited_error (Payload.run_delimited_of_error h)
  · exact take_of_delimited_error (Payload.run_delimited_of_lt h hlt)
  · refine ⟨?_, fun m hm => ?_, take_append h hle⟩
    · rw [take_eq_of_le h hle]
    · rw [take_eq_of_le h hle] at hm ⊢
      simp only at hm ⊢
      rw [hm]

/-- A text is cut off by the end of its frame, also when the next frame starts with
bytes that would complete it. -/
theorem take_depends_on_frame_text :
    let frame : Bytes := [0x83, 0x00, 0x12, 0x05, 0x61]
    let next : Bytes := [0x04, 0x62, 0x63, 0x64, 0x65]
    (take {} frame : Report CopyReply × Bytes).1.result = .error (.truncated 5 1) ∧
      (take {} (frame ++ next) : Report CopyReply × Bytes) =
        ((take {} frame).1, frame ++ next) ∧
      (take {} [0x83, 0x00, 0x12, 0x05] : Report CopyReply × Bytes) =
        (⟨.error (.truncated 3 2), []⟩, [0x83, 0x00, 0x12, 0x05]) := by
  intro frame next
  have hread : Varint.read.run frame = (.ok 3, [0x12, 0x05, 0x61]) := by decide +kernel
  have hcut : Varint.read.run [0x83, 0x00, 0x12, 0x05] = (.ok 3, [0x12, 0x05]) := by decide +kernel
  have herror : (take {} frame : Report CopyReply × Bytes).1.result = .error (.truncated 5 1) := by
    decide +kernel
  obtain ⟨-, -, hwhole, hkept⟩ := take_depends_on_frame CopyReply {} frame
  refine ⟨herror, ?_, ?_⟩
  · rw [(hwhole 3 _ hread (by decide)).2.2 next, hkept _ herror]
  · exact (take_depends_on_frame CopyReply {} _).2.1 3 _ hcut (by decide)

/-! ### Frames one after the other -/

/-- The frame of a body. -/
def ofBody (body : Bytes) : Bytes := Varint.encode (UInt64.ofNat body.length) ++ body

/-- Appends messages to a stream, one call after the other: what each call gave,
and the stream after them. -/
def appendAll : List α → Bytes → List (Except Error Unit) × Bytes
  | [], stream => ([], stream)
  | m :: ms, stream =>
    let (result, stream') := append m stream
    let (results, stream'') := appendAll ms stream'
    (result :: results, stream'')

/-- Takes `count` messages off a stream, one call after the other: what each call
gave, and the stream after them. -/
def takeMany (limits : Limits) : (count : Nat) → Bytes → List (Except Error α) × Bytes
  | 0, stream => ([], stream)
  | count + 1, stream =>
    let (report, stream') := take limits stream
    let (results, stream'') := takeMany limits count stream'
    (report.result :: results, stream'')

theorem encode_eq_ofBody {m : α}
    (h : Message.claimedLength m = (Message.chunks m).flatten.length) :
    encode m = .ok (ofBody (Message.chunks m).flatten) := by
  rw [encode_eq_map, Message.encode_of_claim_eq h, h]
  rfl

theorem take_ofBody {body : Bytes} {m : α} (hlen : body.length < UInt64.size)
    (hm : (Message.decode limits body : Report α).result = .ok m) (rest : Bytes) :
    (take limits (ofBody body ++ rest) : Report α × Bytes) =
      (Message.decode limits body, rest) := by
  rw [ofBody, take_of_delimited (Payload.run_delimited_encode hlen rest), hm]

/-- Messages that have frames are appended as these, one after the other. -/
theorem appendAll_eq {frame : α → Bytes} {ms : List α} (h : ∀ m ∈ ms, encode m = .ok (frame m))
    (stream : Bytes) :
    appendAll ms stream = (ms.map fun _ => .ok (), stream ++ (ms.map frame).flatten) := by
  induction ms generalizing stream with
  | nil => simp [appendAll]
  | cons m ms ih =>
    have hm := append_of_ok (h m List.mem_cons_self) stream
    have htail := ih (fun m' hm' => h m' (List.mem_cons_of_mem _ hm')) (stream ++ frame m)
    rw [appendAll, hm]
    simp only [htail, List.map_cons, List.flatten_cons, List.append_assoc]

/-- Frames whose bodies decode are taken one after the other. -/
theorem takeMany_eq {body : α → Bytes} {ms : List α}
    (h : ∀ m ∈ ms, (body m).length < UInt64.size ∧
      (Message.decode limits (body m) : Report α).result = .ok m) (rest : Bytes) :
    takeMany limits ms.length ((ms.map fun m => ofBody (body m)).flatten ++ rest) =
      (ms.map .ok, rest) := by
  induction ms with
  | nil => simp [takeMany]
  | cons m ms ih =>
    obtain ⟨hlen, hm⟩ := h m List.mem_cons_self
    have htail := ih fun m' hm' => h m' (List.mem_cons_of_mem _ hm')
    rw [List.length_cons, takeMany, List.map_cons, List.flatten_cons, List.append_assoc,
      take_ofBody hlen hm]
    simp only [htail, hm, List.map_cons]

/-- **Replies that are appended to a stream are taken off it.** Appending always
succeeds, and replies that read back under some limits are taken off in order, with what
follows them left. -/
theorem takeMany_appendAll_replies (ms : List CopyReply) :
    ∃ frames : Bytes,
      (∀ stream, appendAll ms stream = (ms.map fun _ => .ok (), stream ++ frames)) ∧
      ∀ limits : Limits,
        (∀ m ∈ ms,
          (∀ entry ∈ m.unknown, entry.WellFormed ∧
            (entry.key.field ≠ CopyReply.indexField ∧ entry.key.field ≠ CopyReply.errorField) ∧
            entry.Skippable limits) ∧
          Message.claimedLength m ≤ limits.maxMessageLength.toNat) →
        ∀ rest, takeMany limits ms.length (frames ++ rest) = (ms.map .ok, rest) := by
  let body (m : CopyReply) : Bytes := (Message.chunks m).flatten
  refine ⟨(ms.map fun m => ofBody (body m)).flatten, fun stream => ?_, fun limits h rest => ?_⟩
  · exact appendAll_eq (fun m _ => encode_eq_ofBody m.claimedLength_eq) stream
  · refine takeMany_eq (fun m hm => ?_) rest
    obtain ⟨hunknown, hlen⟩ := h m hm
    rw [m.claimedLength_eq] at hlen
    refine ⟨Nat.lt_of_le_of_lt hlen limits.maxMessageLength.toNat_lt, ?_⟩
    refine (CopyReply.result_decode_chunks_iff m limits).2 ⟨hlen, fun entry hentry => ?_⟩
    obtain ⟨hwf, hforeign, hskip⟩ := hunknown entry hentry
    exact ⟨hforeign, (hwf.skippable_iff limits).1 hskip⟩

/-- A reply of no bytes, a failure whose frame has two bytes of length, and an
index with a group under a padded key. -/
theorem takeMany_appendAll_replies_three :
    let ms : List CopyReply :=
      [{}, .ofError (String.ofList (List.replicate 126 'a')),
        { outcome := .index (-1), unknown := [⟨⟨3, .startGroup⟩, [0x9B, 0x00, 0x08, 0x05, 0x1C]⟩] }]
    ms.map Message.claimedLength = [0, 128, 16] ∧
    ∃ frames : Bytes,
      appendAll ms [0x01, 0x02] = ([.ok (), .ok (), .ok ()], [0x01, 0x02] ++ frames) ∧
      takeMany {} 3 (frames ++ [0xFF]) = (ms.map .ok, [0xFF]) := by
  intro ms
  have hwf : Entry.WellFormed ⟨⟨3, .startGroup⟩, [0x9B, 0x00, 0x08, 0x05, 0x1C]⟩ :=
    ⟨{}, by decide +kernel⟩
  have hskip : Entry.Skippable {} ⟨⟨3, .startGroup⟩, [0x9B, 0x00, 0x08, 0x05, 0x1C]⟩ :=
    ⟨⟨3, .startGroup⟩, [], by decide +kernel⟩
  have hlengths : ms.map Message.claimedLength = [0, 128, 16] := by decide +kernel
  obtain ⟨frames, happend, htake⟩ := takeMany_appendAll_replies ms
  refine ⟨hlengths, frames, happend [0x01, 0x02], htake {} (fun m hm => ⟨?_, ?_⟩) [0xFF]⟩
  · intro entry hentry
    have hentry : entry = ⟨⟨3, .startGroup⟩, [0x9B, 0x00, 0x08, 0x05, 0x1C]⟩ := by
      simp only [ms, List.mem_cons, List.not_mem_nil, or_false] at hm
      rcases hm with rfl | rfl | rfl
      · simp at hentry
      · simp [CopyReply.ofError] at hentry
      · simpa using hentry
    rw [hentry]
    exact ⟨hwf, by decide, hskip⟩
  · have hmem : Message.claimedLength m ∈ ms.map Message.claimedLength := List.mem_map_of_mem hm
    rw [hlengths] at hmem
    have hle : Message.claimedLength m ≤ 128 := by
      simp at hmem
      omega
    exact Nat.le_trans hle (by decide)

end Frame
end WireFormat
