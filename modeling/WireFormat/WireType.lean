/-
# Wire types

The wire type of an entry says how its payload is delimited. It is stored as a
code in the lowest three bits of the entry's key; of the eight codes, six are
assigned.

Key definitions: `WireType`, `WireType.code`, `WireType.ofCode?`.
Key theorems: `WireType.ofCode?_code`, `WireType.ofCode?_eq_some_iff`,
`WireType.ofCode?_eq_none_iff`.
-/

namespace WireFormat

/-- How the payload of an entry is delimited. -/
inductive WireType where
  /-- A number in base 128. -/
  | varint
  /-- Eight bytes. -/
  | fixed64
  /-- A length and that many bytes. -/
  | lengthDelimited
  /-- Entries up to an end key of the same field. -/
  | startGroup
  /-- The end of a group; no payload. -/
  | endGroup
  /-- Four bytes. -/
  | fixed32
  deriving DecidableEq, Hashable

namespace WireType

/-- The code of a wire type. -/
def code : WireType → Nat
  | varint => 0
  | fixed64 => 1
  | lengthDelimited => 2
  | startGroup => 3
  | endGroup => 4
  | fixed32 => 5

/-- The wire type of a code, if the code is assigned. -/
def ofCode? : Nat → Option WireType
  | 0 => some varint
  | 1 => some fixed64
  | 2 => some lengthDelimited
  | 3 => some startGroup
  | 4 => some endGroup
  | 5 => some fixed32
  | _ => none

/-- The name of a wire type in messages. -/
def name : WireType → String
  | varint => "Varint"
  | fixed64 => "Fixed64"
  | lengthDelimited => "LengthDelimited"
  | startGroup => "StartGroup"
  | endGroup => "EndGroup"
  | fixed32 => "Fixed32"

/-- What is said of a code that is not assigned. -/
def unassignedMessage (code : Nat) : String :=
  s!"Invalid WireType value {code} for conversion"

theorem code_le_five (t : WireType) : t.code ≤ 5 := by
  cases t <;> decide

@[simp] theorem ofCode?_code (t : WireType) : ofCode? t.code = some t := by
  cases t <;> rfl

theorem ofCode?_eq_some_iff {n : Nat} {t : WireType} : ofCode? n = some t ↔ n = t.code := by
  constructor
  · intro h
    unfold ofCode? at h
    split at h <;> cases h <;> rfl
  · rintro rfl
    exact ofCode?_code t

theorem ofCode?_eq_none_iff {n : Nat} : ofCode? n = none ↔ 6 ≤ n := by
  match n with
  | 0 | 1 | 2 | 3 | 4 | 5 => simp [ofCode?]
  | n + 6 => exact ⟨fun _ => Nat.le_add_left 6 n, fun _ => rfl⟩

theorem code_injective {s t : WireType} (h : s.code = t.code) : s = t := by
  have := ofCode?_code s
  rw [h, ofCode?_code] at this
  exact (Option.some.inj this).symm

end WireType
end WireFormat
