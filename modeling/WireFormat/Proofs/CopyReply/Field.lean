/-
# Fields that a reply knows

A field is handed to a reply with its key read and its payload next. A reply knows
two fields, and what it reads of them is what anybody would pass over: a varint, or
bytes after their length. The value is only looked at when all of its bytes have
been taken. So a reply that reads a field and a reader that passes over it stop at
the same byte, and fail with the same error where the bytes run out or the varint
does not end; only text that is not UTF-8 is refused by the reply alone. A key of
another wire type is refused before anything is taken. In every case the reply is
changed only if the field was read, and the entries that it does not know never are.

Key definitions: `Reader.checked`.
Key theorems: `Cursor.run_checked`, `Cursor.run_discard`, `Message.mergeField_of_error`,
`CopyReply.mergeField_index`, `CopyReply.mergeField_error`, `CopyReply.mergeField_eq_skip`,
`CopyReply.mergeField_follows_skip`.
-/
import WireFormat.Proofs.CopyReply.Clause

namespace WireFormat

variable {α β : Type}

/-! ### Reading and then looking -/

namespace Reader

/-- Runs `r`, then looks at its value; looking takes nothing. -/
def checked (r : Reader α) (check : α → Except Error β) : Reader β :=
  r >>= fun a => ofExcept (check a)

theorem run_checked (r : Reader α) (check : α → Except Error β) (bs : Bytes) :
    (r.checked check).run bs =
      match r.run bs with
      | (.ok a, rest) => (check a, rest)
      | (.error e, rest) => (.error e, rest) := by
  unfold checked
  rw [run_bind]
  rcases r.run bs with ⟨e | a, rest⟩
  · rfl
  · exact run_ofExcept (check a) rest

theorem map_checked {γ : Type} (f : β → γ) (r : Reader α) (check : α → Except Error β) :
    f <$> r.checked check = r.checked fun a => (check a).map f := by
  ext bs : 2
  rw [run_map, run_checked, run_checked]
  rcases r.run bs with ⟨e | a, rest⟩
  · rfl
  · rcases hc : check a with e | b <;> simp [Except.map, hc]

end Reader

namespace Cursor

variable (c : Cursor)

/-- A cursor stops where the reader stops, whatever is found when the value is looked at. -/
theorem run_checked (r : Reader α) (check : α → Except Error β) :
    c.run (r.checked check) = ((c.run r).1 >>= check, (c.run r).2) := by
  unfold run
  rw [Reader.run_checked]
  rcases r.run c.unread with ⟨e | a, rest⟩ <;> rfl

theorem run_map (f : α → β) (r : Reader α) :
    c.run (f <$> r) = ((c.run r).1.map f, (c.run r).2) := by
  unfold run
  rw [Reader.run_map]
  rcases r.run c.unread with ⟨e | a, rest⟩ <;> rfl

theorem run_discard (r : Reader α) :
    c.run (discard r) = ((c.run r).1.map fun _ => (), (c.run r).2) :=
  c.run_map (fun _ => ()) r

theorem run_of_untouched {r : Reader α} {x : Except Error α}
    (h : r.run c.unread = (x, c.unread)) : c.run r = (x, c) := by
  unfold run
  rw [h]
  simp

end Cursor

/-! ### Handing a field on -/

namespace Message

variable [Message α]

theorem mergeField_of_unknown {m : α} {key : Key} (h : known? m key = none) (c : Cursor) :
    mergeField m key c = { known := .ok false, message := m, events := [], cursor := c } := by
  unfold mergeField
  rw [h]

/-- Only a field that was read changes the message, or is heard of. -/
theorem mergeField_of_error {m : α} {key : Key} {c : Cursor} {e : Error}
    (h : (mergeField m key c).known = .error e) :
    (mergeField m key c).message = m ∧ (mergeField m key c).events = [] := by
  revert h
  unfold mergeField
  rcases known? m key with _ | payload
  · exact fun _ => ⟨rfl, rfl⟩
  · rcases hrun : c.run payload with ⟨e' | ⟨m', events⟩, c'⟩ <;> simp [hrun]

theorem known_mergeField_eq_false_iff {m : α} {key : Key} {c : Cursor} :
    (mergeField m key c).known = .ok false ↔ known? m key = none := by
  unfold mergeField
  rcases known? m key with _ | payload
  · simp
  · rcases hrun : c.run payload with ⟨e | ⟨m', events⟩, c'⟩ <;> simp [hrun]

/-- The cursor stops where reading stops, and the message is changed only if nothing is
wrong with the value. -/
theorem mergeField_of_checked {m : α} {key : Key} {r : Reader β}
    {check : β → Except Error (α × List Event)} (h : known? m key = some (r.checked check))
    (c : Cursor) :
    mergeField m key c =
      match c.run r with
      | (.ok b, c') =>
        match check b with
        | .ok (m', events) => { known := .ok true, message := m', events, cursor := c' }
        | .error e => { known := .error e, message := m, events := [], cursor := c' }
      | (.error e, c') => { known := .error e, message := m, events := [], cursor := c' } := by
  unfold mergeField
  rw [h]
  simp only [Cursor.run_checked]
  rcases c.run r with ⟨e | b, c'⟩
  · rfl
  · rcases hb : check b with e | ⟨m', events⟩ <;> simp [bind, Except.bind, hb]

end Message

namespace CopyReply

open Message

variable (m : CopyReply) (c : Cursor)

/-- The text of a payload, or why it is none. -/
def textOf (body : Bytes) : Except Error String :=
  (Text.decode body).mapError fun fault => .malformed (.invalidText fault)

theorem text_eq_checked : Payload.text = Payload.delimited.checked textOf := by
  unfold Payload.text Reader.checked textOf
  congr 1
  funext body
  rcases Text.decode body with fault | s <;> rfl

theorem readIndex_eq_checked {key : Key} (htype : key.type = .varint) :
    Clause.readIndex key = Varint.read.checked fun v => .ok (.index v.toUInt32.toInt32) := by
  unfold Clause.readIndex Payload.int32 Reader.checked
  rw [Key.expect_eq_ok_iff.2 htype]
  simp only [Reader.ofExcept, pure_bind, bind_assoc]

theorem readError_eq_checked {key : Key} (htype : key.type = .lengthDelimited) :
    Clause.readError key = Payload.delimited.checked fun body => (textOf body).map .error := by
  unfold Clause.readError
  rw [Key.expect_eq_ok_iff.2 htype, text_eq_checked, ← Reader.map_checked]
  rfl

theorem known?_eq_none_iff {key : Key} :
    known? m key = none ↔ key.field ≠ indexField ∧ key.field ≠ errorField := by
  rw [known?_eq, Option.map_eq_none_iff, Clause.payload?]
  by_cases h1 : key.field = indexField
  · simp [h1]
  · by_cases h2 : key.field = errorField
    · simp only [if_neg h1, if_pos h2]
      simp [h2]
    · simp [h1, h2]

/-- Whatever the field is, the entries that a reply keeps are those it kept. -/
theorem unknown_mergeField (key : Key) :
    (mergeField m key c).message.unknown = m.unknown := by
  have hknown : known? m key = (Outcome.reader? key).map fun payload =>
      m.replace key.field <$> payload := rfl
  unfold mergeField
  rw [hknown]
  rcases Outcome.reader? key with _ | payload
  · rfl
  · simp only [Option.map_some, Cursor.run_map]
    rcases c.run payload with ⟨e | outcome, c'⟩ <;> rfl

/-- A key of another wire type than its field has is refused, with nothing taken. -/
theorem mergeField_refused {key : Key} {type : WireType} (htype : key.type ≠ type)
    (h : key.field = indexField ∧ type = .varint ∨
      key.field = errorField ∧ type = .lengthDelimited) :
    mergeField m key c =
      { known := .error (.malformed (.unexpectedWireType key.field key.type type))
        message := m, events := [], cursor := c } := by
  have hexpect : key.expect type =
      .error (.malformed (.unexpectedWireType key.field key.type type)) := by
    rw [Key.expect, if_neg htype]
  -- the key is checked before anything is read
  have hrefuse : ∃ payload, known? m key = some payload ∧ ∀ bs, payload.run bs =
      (.error (.malformed (.unexpectedWireType key.field key.type type)), bs) := by
    rw [known?_eq, Clause.payload?]
    rcases h with ⟨hf, rfl⟩ | ⟨hf, rfl⟩
    · refine ⟨_, by rw [if_pos hf]; rfl, fun bs => ?_⟩
      rw [Clause.readIndex, hexpect]
      rfl
    · have hne : key.field ≠ indexField := by
        rw [hf]
        decide
      refine ⟨_, by rw [if_neg hne, if_pos hf]; rfl, fun bs => ?_⟩
      rw [Clause.readError, hexpect]
      rfl
  obtain ⟨payload, hknown, hrun⟩ := hrefuse
  unfold mergeField
  rw [hknown]
  simp only [c.run_of_untouched (hrun c.unread)]

theorem mergeField_index :
    mergeField m ⟨indexField, .varint⟩ c =
      match c.run Varint.read with
      | (.ok v, c') =>
        { known := .ok true, message := m.setIndex v.toUInt32.toInt32
          events := (m.replace indexField (.index v.toUInt32.toInt32)).2, cursor := c' }
      | (.error e, c') => { known := .error e, message := m, events := [], cursor := c' } := by
  have hknown : known? m ⟨indexField, .varint⟩ = some (Varint.read.checked fun v =>
      .ok (m.replace indexField (.index v.toUInt32.toInt32))) := by
    rw [known?_eq, Clause.payload?, if_pos rfl, Option.map_some, readIndex_eq_checked rfl,
      Reader.map_checked]
    rfl
  rw [mergeField_of_checked hknown]
  rcases c.run Varint.read with ⟨e | v, c'⟩ <;> rfl

/-- A description is read as bytes after their length are, then looked at. -/
theorem mergeField_error :
    mergeField m ⟨errorField, .lengthDelimited⟩ c =
      match c.run Payload.delimited with
      | (.ok body, c') =>
        match Text.decode body with
        | .ok s =>
          { known := .ok true, message := m.setError s
            events := (m.replace errorField (.error s)).2, cursor := c' }
        | .error fault =>
          { known := .error (.malformed (.invalidText fault)), message := m, events := []
            cursor := c' }
      | (.error e, c') => { known := .error e, message := m, events := [], cursor := c' } := by
  have hne : errorField ≠ indexField := by decide
  have hknown : known? m ⟨errorField, .lengthDelimited⟩ =
      some (Payload.delimited.checked fun body =>
        ((textOf body).map .error).map (Clause.apply m)) := by
    rw [known?_eq, Clause.payload?, if_neg hne, if_pos rfl, Option.map_some,
      readError_eq_checked rfl, Reader.map_checked]
  rw [mergeField_of_checked hknown]
  rcases c.run Payload.delimited with ⟨e | body, c'⟩
  · rfl
  · unfold textOf
    rcases hdecode : Text.decode body with fault | s
    · simp only [hdecode]
      rfl
    · simp only [hdecode]
      rfl

/-! ### Reading and passing over -/

theorem skip_index (limits : Limits) :
    c.run (Skip.field limits.maxGroupDepth.toNat ⟨indexField, .varint⟩) =
      ((c.run Varint.read).1.map fun _ => (), (c.run Varint.read).2) :=
  c.run_discard Varint.read

theorem skip_error (limits : Limits) :
    c.run (Skip.field limits.maxGroupDepth.toNat ⟨errorField, .lengthDelimited⟩) =
      ((c.run Payload.delimited).1.map fun _ => (), (c.run Payload.delimited).2) :=
  c.run_discard Payload.delimited

/-- What a reply reads of a field is what is passed over of it: reading stops at the
same byte and fails with the same error, except that text may turn out to be none. -/
theorem mergeField_eq_skip (limits : Limits) {key : Key}
    (hkey : key = ⟨indexField, .varint⟩ ∨ key = ⟨errorField, .lengthDelimited⟩) :
    let merged := mergeField m key c
    let skipped := c.run (Skip.field limits.maxGroupDepth.toNat key)
    merged.cursor = skipped.2 ∧
    (∀ e, skipped.1 = .error e → merged.known = .error e) ∧
    (skipped.1 = .ok () → merged.known = .ok true ∨
      key.field = errorField ∧ ∃ body fault, (c.run Payload.delimited).1 = .ok body ∧
        Text.decode body = .error fault ∧
        merged.known = .error (.malformed (.invalidText fault))) := by
  rcases hkey with rfl | rfl
  · simp only [mergeField_index, skip_index]
    rcases c.run Varint.read with ⟨e | v, c'⟩
    · exact ⟨rfl, fun _ he => by cases he; rfl, nofun⟩
    · exact ⟨rfl, nofun, fun _ => .inl rfl⟩
  · simp only [mergeField_error, skip_error]
    rcases c.run Payload.delimited with ⟨e | body, c'⟩
    · exact ⟨rfl, fun _ he => by cases he; rfl, nofun⟩
    · rcases hdecode : Text.decode body with fault | s <;> simp [hdecode, Except.map]

/-- **A reply reads a field as it would be passed over, or leaves everything alone.** It
stops at the same byte with the same error, except that text may turn out to be none,
and an error leaves the reply as it was. -/
theorem mergeField_follows_skip (limits : Limits) (m : CopyReply) (key : Key) (c : Cursor) :
    let merged := mergeField m key c
    let skipped := c.run (Skip.field limits.maxGroupDepth.toNat key)
    (merged.known = .ok false ↔ key.field ≠ indexField ∧ key.field ≠ errorField) ∧
    (merged.known = .ok false → merged.message = m ∧ merged.cursor = c) ∧
    (key.field = indexField → key.type ≠ .varint →
      merged.known = .error (.malformed (.unexpectedWireType key.field key.type .varint)) ∧
      merged.cursor = c) ∧
    (key.field = errorField → key.type ≠ .lengthDelimited →
      merged.known =
        .error (.malformed (.unexpectedWireType key.field key.type .lengthDelimited)) ∧
      merged.cursor = c) ∧
    (key = ⟨indexField, .varint⟩ ∨ key = ⟨errorField, .lengthDelimited⟩ →
      merged.cursor = skipped.2 ∧
      (∀ e, skipped.1 = .error e → merged.known = .error e) ∧
      (skipped.1 = .ok () → merged.known = .ok true ∨
        key.field = errorField ∧ ∃ body fault, (c.run Payload.delimited).1 = .ok body ∧
          Text.decode body = .error fault ∧
          merged.known = .error (.malformed (.invalidText fault)))) ∧
    (∀ e, merged.known = .error e → merged.message = m) ∧
    merged.message.unknown = m.unknown := by
  have hforeign : (mergeField m key c).known = .ok false ↔
      key.field ≠ indexField ∧ key.field ≠ errorField :=
    known_mergeField_eq_false_iff.trans (known?_eq_none_iff m)
  refine ⟨hforeign, fun hfalse => ?_, fun hfield htype => ?_, fun hfield htype => ?_,
    mergeField_eq_skip m c limits, fun e he => (mergeField_of_error he).1,
    unknown_mergeField m c key⟩
  · rw [mergeField_of_unknown (known_mergeField_eq_false_iff.1 hfalse)]
    exact ⟨rfl, rfl⟩
  · rw [mergeField_refused m c htype (.inl ⟨hfield, rfl⟩)]
    exact ⟨rfl, rfl⟩
  · rw [mergeField_refused m c htype (.inr ⟨hfield, rfl⟩)]
    exact ⟨rfl, rfl⟩

/-- One byte of text, and it is not UTF-8: it is refused, but it was taken. -/
theorem mergeField_follows_skip_text :
    let merged := mergeField (ofIndex 7) ⟨errorField, .lengthDelimited⟩
      ⟨[0x12], [0x01, 0xff, 0x08]⟩
    merged.known = .error (.malformed (.invalidText (.invalid 0 1))) ∧
      merged.message = ofIndex 7 ∧ merged.cursor = ⟨[0x12, 0x01, 0xff], [0x08]⟩ := by
  obtain ⟨-, -, -, -, hskip, hatomic, -⟩ := mergeField_follows_skip {} (ofIndex 7)
    ⟨errorField, .lengthDelimited⟩ ⟨[0x12], [0x01, 0xff, 0x08]⟩
  have hknown : (mergeField (ofIndex 7) ⟨errorField, .lengthDelimited⟩
      ⟨[0x12], [0x01, 0xff, 0x08]⟩).known =
        .error (.malformed (.invalidText (.invalid 0 1))) := by decide +kernel
  exact ⟨hknown, hatomic _ hknown, (hskip (.inr rfl)).1.trans (by decide +kernel)⟩

end CopyReply
end WireFormat
