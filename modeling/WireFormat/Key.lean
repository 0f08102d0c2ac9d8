/-
# Keys

Every entry starts with a key: a field number and a wire type, joined into one
tag whose lowest three bits are the wire type. A tag has thirty-two bits, so
field numbers go up to `2 ^ 29 - 1`; writing does not check this and loses the
upper bits of a larger number, reading accepts only what a tag can hold.

Key definitions: `Key`, `Key.tag`, `Key.ofTag`, `Key.encode`, `Key.length`,
`Key.read`, `Key.expect`.
Key theorems: `Key.toNat_tag`, `Key.length_encode`, `Key.ofTag_tag`,
`Key.run_read_encode`.
-/
import WireFormat.Varint

namespace WireFormat

/-- The field number and the wire type of an entry. -/
structure Key where
  field : UInt32
  type : WireType
  deriving DecidableEq, Hashable

namespace Key

/-- The largest field number that fits into a tag. -/
def maxField : Nat := 536870911

/-- The tag of a key; field numbers above `maxField` lose their upper bits. -/
def tag (key : Key) : UInt32 := key.field * 8 + UInt32.ofNat key.type.code

/-- The key of a tag. The wire type is looked at first, then the field number. -/
def ofTag (tag : UInt64) : Except Error Key :=
  match WireType.ofCode? (tag.toNat % 8) with
  | none => .error (.malformed (.unassignedWireType (tag.toNat % 8)))
  | some type =>
    let field := tag.toNat / 8
    if field = 0 then .error (.malformed .fieldZero)
    else if maxField < field then .error (.malformed (.fieldTooLarge field maxField))
    else .ok ⟨UInt32.ofNat field, type⟩

/-- The bytes of a key. -/
def encode (key : Key) : Bytes := Varint.encode key.tag.toUInt64

/-- The number of bytes of a key. -/
def length (key : Key) : Nat := Varint.length key.tag.toUInt64

/-- A key. -/
def read : Reader Key := do
  let tag ← Varint.read
  Reader.ofExcept (ofTag tag)

/-- Checks that an entry has the wire type that its field requires. -/
def expect (key : Key) (type : WireType) : Except Error Unit :=
  if key.type = type then .ok ()
  else .error (.malformed (.unexpectedWireType key.field key.type type))

theorem length_encode (key : Key) : key.encode.length = key.length :=
  Varint.length_encode _

theorem consumes_read : read.Consumes :=
  Varint.consumes_read.bind _

/-! ### Keys and tags -/

theorem toNat_tag (key : Key) :
    key.tag.toNat = key.field.toNat % (maxField + 1) * 8 + key.type.code := by
  have hcode := key.type.code_le_five
  have hf := key.field.toNat_lt
  simp only [tag, maxField, UInt32.toNat_add, UInt32.toNat_mul, UInt32.toNat_ofNat',
    UInt32.reduceToNat]
  omega

/-- A key whose field number fits into a tag is the key of its tag. -/
theorem ofTag_tag {key : Key} (hpos : 0 < key.field.toNat) (hmax : key.field.toNat ≤ maxField) :
    ofTag key.tag.toUInt64 = .ok key := by
  have hcode := key.type.code_le_five
  unfold maxField at hmax
  have htag : key.tag.toUInt64.toNat = key.field.toNat * 8 + key.type.code := by
    rw [UInt32.toNat_toUInt64, toNat_tag, maxField]
    omega
  have hmod : (key.field.toNat * 8 + key.type.code) % 8 = key.type.code := by omega
  have hdiv : (key.field.toNat * 8 + key.type.code) / 8 = key.field.toNat := by omega
  unfold ofTag maxField
  simp only [htag, hmod, hdiv, WireType.ofCode?_code]
  rw [if_neg (by omega), if_neg (by omega), UInt32.ofNat_toNat]

/-- A key whose field number fits into a tag reads back, whatever follows it. -/
theorem run_read_encode {key : Key} (hpos : 0 < key.field.toNat)
    (hmax : key.field.toNat ≤ maxField) (rest : Bytes) :
    read.run (key.encode ++ rest) = (.ok key, rest) := by
  rw [read, encode, Reader.run_bind_of_ok (Varint.run_read_encode _ _), ofTag_tag hpos hmax]
  rfl

end Key
end WireFormat
