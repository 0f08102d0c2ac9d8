/-
# Entries

An entry is a key and its payload. An entry that nobody knows is kept as the
bytes it was read from, key included, so that it can be written again without
change.

Key definitions: `Entry`, `Entry.read`, `Entry.parse`, `Entry.totalLength`.
Key theorems: `Entry.consumes_read`, `Entry.totalLength_eq`.
-/
import WireFormat.Limits
import WireFormat.Skip

namespace WireFormat

/-- An entry as it stands on the wire. -/
structure Entry where
  key : Key
  /-- All bytes of the entry, those of the key included. -/
  raw : Bytes
  deriving DecidableEq, Hashable

namespace Entry

/-- A key, whose payload is passed over. -/
def readKey (limits : Limits) : Reader Key := do
  let key ← Key.read
  Skip.field limits.maxGroupDepth.toNat key
  return key

/-- The next entry. -/
def read (limits : Limits) : Reader Entry := do
  let (key, raw) ← (readKey limits).captured
  return ⟨key, raw⟩

/-- The entry that a byte string is, with nothing before or after it. -/
def parse (raw : Bytes) : Except Error Entry :=
  Prod.fst <| Reader.run (do
    let entry ← read Limits.standard
    Reader.finish
    return entry) raw

/-- The number of bytes of some entries. -/
def totalLength : List Entry → Nat
  | [] => 0
  | entry :: entries => entry.raw.length + totalLength entries

theorem consumes_readKey (limits : Limits) : (readKey limits).Consumes :=
  Key.consumes_read.bind _

theorem consumes_read (limits : Limits) : (read limits).Consumes :=
  (consumes_readKey limits).captured.bind _

theorem totalLength_eq (entries : List Entry) :
    totalLength entries = (entries.map Entry.raw).flatten.length := by
  induction entries with
  | nil => rfl
  | cons entry entries ih =>
    rw [totalLength, List.map_cons, List.flatten_cons, List.length_append, ih]

end Entry
end WireFormat
