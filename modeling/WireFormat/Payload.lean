/-
# Payloads

What follows a key, by the kind of value a field holds. A signed number is
sign extended to sixty-four bits before it is written, so a negative one takes
ten bytes; reading keeps the lowest thirty-two bits. Bytes and text are
preceded by their length.

Key definitions: `Payload.int32`, `Payload.delimited`, `Payload.text`,
`Payload.fixed32`, `Payload.fixed64`, `Payload.ofInt32`.
Key theorems: `Payload.run_int32_encode`, `Payload.run_delimited_encode`.
-/
import WireFormat.Key

namespace WireFormat
namespace Payload

/-- A signed number as sixty-four bits, the sign extended. -/
def ofInt32 (v : Int32) : UInt64 := v.toInt64.toUInt64

/-- A signed number: the lowest thirty-two bits of a varint. -/
def int32 : Reader Int32 := do
  let v ← Varint.read
  return v.toUInt32.toInt32

/-- A run of bytes after its length. -/
def delimited : Reader Bytes := do
  let length ← Varint.read
  Reader.take length.toNat

/-- Text after its length in bytes. -/
def text : Reader String := do
  let bs ← delimited
  match Text.decode bs with
  | .ok s => return s
  | .error fault => Reader.fail (.malformed (.invalidText fault))

/-- Four bytes. -/
def fixed32 : Reader Bytes := Reader.take 4

/-- Eight bytes. -/
def fixed64 : Reader Bytes := Reader.take 8

/-! ### Reading back -/

theorem toInt32_ofInt32 (v : Int32) : (ofInt32 v).toUInt32.toInt32 = v := by
  apply Int32.toBitVec_inj.1
  show (v.toBitVec.signExtend 64).setWidth 32 = v.toBitVec
  ext i hi
  simp [BitVec.getElem_setWidth, BitVec.getLsbD_signExtend, hi]
  omega

theorem run_int32_encode (v : Int32) (rest : Bytes) :
    int32.run (Varint.encode (ofInt32 v) ++ rest) = (.ok v, rest) := by
  rw [int32, Reader.run_bind_of_ok (Varint.run_read_encode _ _), Reader.run_pure, toInt32_ofInt32]

theorem run_delimited_encode {bs : Bytes} (h : bs.length < UInt64.size) (rest : Bytes) :
    delimited.run (Varint.encode (UInt64.ofNat bs.length) ++ bs ++ rest) = (.ok bs, rest) := by
  have hlen : (UInt64.ofNat bs.length).toNat = bs.length := UInt64.toNat_ofNat_of_lt' h
  rw [delimited, List.append_assoc, Reader.run_bind_of_ok (Varint.run_read_encode _ _), hlen,
    Reader.run_take_append]

end Payload
end WireFormat
