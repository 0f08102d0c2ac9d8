/-
# Text

Text travels as UTF-8. Bytes without a fault encode a list of scalar values,
which is what makes them a `String`; reading and writing undo each other.

Key definitions: `Text.encode`, `Text.decode`.
Key theorems: `Text.encode_of_decode_eq_ok`, `Text.decode_encode`,
`Text.decode_eq_error_iff`.
-/
import WireFormat.Text.Scalar

namespace WireFormat
namespace Text

/-- The bytes of a text. -/
def encode (s : String) : Bytes := s.toUTF8.data.toList

theorem isValidUTF8_of_fault?_eq_none {bs : Bytes} (h : fault? bs = none) :
    bs.toByteArray.IsValidUTF8 := by
  obtain ⟨cs, rfl⟩ := fault?_eq_none_iff.1 h
  exact ⟨cs, rfl⟩

/-- The text that a byte string encodes, or its first fault. -/
def decode (bs : Bytes) : Except Fault String :=
  match h : fault? bs with
  | some fault => .error fault
  | none => .ok (String.fromUTF8 bs.toByteArray (isValidUTF8_of_fault?_eq_none h))

/-- Text that was read has exactly the bytes it was read from. -/
theorem encode_of_decode_eq_ok {bs : Bytes} {s : String} (h : decode bs = .ok s) :
    encode s = bs := by
  unfold decode at h
  split at h
  · cases h
  · cases h
    simp [encode, String.fromUTF8]

theorem decode_eq_error_iff {bs : Bytes} {fault : Fault} :
    decode bs = .error fault ↔ fault? bs = some fault := by
  unfold decode
  split <;> simp_all

theorem encode_eq_flatMap (s : String) : encode s = s.toList.flatMap String.utf8EncodeChar := by
  rw [encode, String.toUTF8_eq_toByteArray, ← String.utf8Encode_toList, List.utf8Encode,
    List.data_toByteArray]

theorem fault?_encode (s : String) : fault? (encode s) = none :=
  fault?_eq_none_iff.2 ⟨s.toList, (encode_eq_flatMap s).symm⟩

/-- Text reads back from its bytes. -/
@[simp] theorem decode_encode (s : String) : decode (encode s) = .ok s := by
  unfold decode
  split
  · next h => rw [fault?_encode] at h; cases h
  · simp only [Except.ok.injEq]
    apply String.toByteArray_inj.1
    show (encode s).toByteArray = s.toByteArray
    apply ByteArray.ext
    simp [encode]

end Text
end WireFormat
