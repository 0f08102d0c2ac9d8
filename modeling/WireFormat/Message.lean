/-
# Messages

A message is a value made of entries. It says for which keys it has a reader,
how it keeps an entry it does not know, and which chunks it is written as; the
rest is the same for all messages. Decoding folds the entries of a byte string
into a message one by one; a failure leaves the message as it was. Encoding
fills a buffer of the length that the message claims, so a wrong claim is an
error and never a wrong byte string.

Key definitions: `Message`, `Message.mergeField`, `Message.mergeEntry`,
`Message.mergeEntries`, `Message.mergeBytes`, `Message.decode`, `Message.encode`.
Key theorems: `Message.consumes_mergeEntry`, `Message.encode_of_claim_eq`.
-/
import WireFormat.Cursor
import WireFormat.Entry
import WireFormat.Event
import WireFormat.Writer

namespace WireFormat

/-- A type of values made of entries. -/
class Message (α : Type) where
  /-- The name of the type in the log. -/
  name : String
  /-- The message of no entries. -/
  empty : α
  /-- The reader of the payload of a key, if the message knows its field: what
  the message becomes, and what happened on the way. -/
  known? : α → Key → Option (Reader (α × List Event))
  /-- The message with one more entry that it does not know. -/
  keep : α → Entry → α
  /-- What the message is written as. -/
  chunks : α → List Bytes
  /-- How many bytes the message says it is written as. -/
  claimedLength : α → Nat

/-- The outcome of decoding, and what happened on the way. -/
structure Report (α : Type) where
  result : Except Error α
  events : List Event

namespace Message

variable {α : Type} [Message α]

/-! ### One field -/

/-- What came of handing a field to a message: whether the message knows the field,
the message and what happened to it, and where reading goes on. -/
structure Handing (α : Type) where
  known : Except Error Bool
  message : α
  events : List Event
  cursor : Cursor

/-- Hands the field of a key, whose payload is next, to `m`. The payload of a field
that `m` does not know stays unread, and one that cannot be read leaves `m` as it was. -/
def mergeField (m : α) (key : Key) (c : Cursor) : Handing α :=
  match known? m key with
  | none => { known := .ok false, message := m, events := [], cursor := c }
  | some payload =>
    match c.run payload with
    | (.ok (m', events), c') => { known := .ok true, message := m', events, cursor := c' }
    | (.error e, c') => { known := .error e, message := m, events := [], cursor := c' }

/-! ### Decoding -/

/-- How the payload of a key was read: into the message, or passed over. -/
inductive Reading (α : Type) where
  | merged (message : α) (events : List Event)
  | skipped (key : Key)

/-- Reads an entry into `m` if `m` knows it, and passes over it otherwise. -/
def readEntry (limits : Limits) (m : α) : Reader (Reading α) := do
  let key ← Key.read
  match known? m key with
  | some payload =>
    let (m', events) ← payload
    return .merged m' events
  | none =>
    Skip.field limits.maxGroupDepth.toNat key
    return .skipped key

/-- Merges the next entry into `m`, keeping its bytes if `m` does not know it. -/
def mergeEntry (limits : Limits) (m : α) : Reader (α × List Event) := do
  let (reading, raw) ← (readEntry limits m).captured
  match reading with
  | .merged m' events => return (m', events)
  | .skipped key => return (keep m ⟨key, raw⟩, [.kept key])

theorem consumes_readEntry (limits : Limits) (m : α) : (readEntry limits m).Consumes :=
  Key.consumes_read.bind _

theorem consumes_mergeEntry (limits : Limits) (m : α) : (mergeEntry limits m).Consumes :=
  (consumes_readEntry limits m).captured.bind _

/-- A pass over entries: its outcome, the bytes it left and what happened. -/
structure Pass (α : Type) where
  result : Except Error α
  unread : Bytes
  events : List Event

/-- Merges entries into `m` until nothing is left or one cannot be read. -/
def mergeEntries (limits : Limits) (m : α) (bs : Bytes) : Pass α :=
  if bs = [] then ⟨.ok m, [], []⟩
  else
    match h : (mergeEntry limits m).run bs with
    | (.ok (m', events), rest) =>
      have : rest.length < bs.length := consumes_mergeEntry limits m bs _ rest h
      let pass := mergeEntries limits m' rest
      { pass with events := events ++ pass.events }
    | (.error e, rest) => ⟨.error e, rest, []⟩
termination_by bs.length

/-- Decodes a byte string on top of `m`. -/
def mergeBytes (limits : Limits) (m : α) (bs : Bytes) : Report α :=
  match limits.checkLength bs.length with
  | .error e => ⟨.error e, []⟩
  | .ok () =>
    let pass := mergeEntries limits m bs
    match pass.result with
    | .ok m' => ⟨.ok m', pass.events⟩
    | .error e => ⟨.error e, pass.events ++ [.failed (bs.length - pass.unread.length) e]⟩

/-- Decodes a byte string. -/
def decode (limits : Limits) (bs : Bytes) : Report α :=
  mergeBytes limits empty bs

/-! ### Encoding -/

/-- The bytes of a message, if it is as long as it claims. -/
def encode (m : α) : Except Error Bytes :=
  Writer.fill (claimedLength m) (chunks m)

/-- Writes a message up to the first chunk that does not fit. -/
def write (w : Writer) (m : α) : Except Error Unit × Writer :=
  w.putAll (chunks m)

/-- A message that claims the length of its chunks is encoded as them. -/
theorem encode_of_claim_eq {m : α} (h : claimedLength m = (chunks m).flatten.length) :
    encode m = .ok (chunks m).flatten := by
  rw [encode, h, Writer.fill_length]

/-! ### Equations of the pass -/

@[simp] theorem mergeEntries_nil (limits : Limits) (m : α) :
    mergeEntries limits m [] = ⟨.ok m, [], []⟩ := by
  rw [mergeEntries, if_pos rfl]

theorem mergeEntries_of_ok {limits : Limits} {m m' : α} {bs rest : Bytes} {events : List Event}
    (h : (mergeEntry limits m).run bs = (.ok (m', events), rest)) :
    mergeEntries limits m bs =
      { mergeEntries limits m' rest with
        events := events ++ (mergeEntries limits m' rest).events } := by
  have hne : bs ≠ [] := by
    rintro rfl
    exact absurd (consumes_mergeEntry limits m [] _ rest h) (Nat.not_lt_zero _)
  rw [mergeEntries, if_neg hne]
  split
  · next h' =>
    rw [h] at h'
    cases h'
    rfl
  · next h' =>
    rw [h] at h'
    cases h'

theorem mergeEntries_of_error {limits : Limits} {m : α} {bs rest : Bytes} {e : Error}
    (hne : bs ≠ []) (h : (mergeEntry limits m).run bs = (.error e, rest)) :
    mergeEntries limits m bs = ⟨.error e, rest, []⟩ := by
  rw [mergeEntries, if_neg hne]
  split
  · next h' =>
    rw [h] at h'
    cases h'
  · next h' =>
    rw [h] at h'
    cases h'
    rfl

end Message
end WireFormat
