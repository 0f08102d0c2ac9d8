/-
# Descriptions given in bytes

The description of a failure comes into a reply as bytes in two ways: it is set, or it
is decoded from its field, where the bytes stand after their length. All ways look at
the bytes with the same scan, so they accept the same byte strings, and where they
refuse one they give the same fault. What they accept is UTF-8 and nothing else, the
description then has exactly the bytes that were given, and the words of a fault tell
what is wrong with them. They differ in whose fault it is: bytes that are set are an
argument, and those that are read are input.

Key definitions: `CopyReply.counted`.
Key theorems: `CopyReply.run_text_counted`, `CopyReply.result_decode_description`,
`CopyReply.description_checked_alike`.
-/
import WireFormat.Proofs.CopyReply.Field
import WireFormat.Proofs.CopyReply.Registers
import WireFormat.Proofs.Text.Explained

namespace WireFormat
namespace CopyReply

open Text (Valid Explains validLengths begunLengths)

/-! ### The bytes of a field -/

/-- Bytes after their length. -/
def counted (bs : Bytes) : Bytes :=
  Varint.encode (UInt64.ofNat bs.length) ++ bs

variable {bs : Bytes} {limits : Limits}

/-- Bytes after their length are read as the text that they are, or refused as none. -/
theorem run_text_counted (h : bs.length < UInt64.size) :
    Payload.text.run (counted bs) = (textOf bs, []) := by
  have hdelimited : Payload.delimited.run (counted bs) = (.ok bs, []) := by
    simpa [counted] using Payload.run_delimited_encode h []
  rw [text_eq_checked, Reader.run_checked, hdelimited]

theorem run_readOpen_description (h : bs.length < UInt64.size) :
    (Clause.readOpen limits).run (0x12 :: counted bs) =
      ((textOf bs).map fun s => .inl (.error s), []) := by
  have hkey : Key.read.run (0x12 :: counted bs) =
      (.ok ⟨errorField, .lengthDelimited⟩, counted bs) := by
    have hencode : Key.encode ⟨errorField, .lengthDelimited⟩ = [0x12] := by decide +kernel
    rw [← List.singleton_append, ← hencode]
    exact Key.run_read_encode (by decide) (by decide) (counted bs)
  have hpayload : Clause.payload? ⟨errorField, .lengthDelimited⟩ =
      some (Clause.error <$> Payload.text) := by
    have hne : errorField ≠ indexField := by decide
    rw [Clause.payload?, if_neg hne, if_pos rfl]
    rfl
  rw [Clause.readOpen, Reader.run_bind_of_ok hkey, Clause.afterKey, hpayload]
  simp only [Reader.run_map, run_text_counted h]
  rcases textOf bs with e | s <;> rfl

theorem run_read_description (limits : Limits) (h : bs.length < UInt64.size) :
    (Clause.read limits).run (0x12 :: counted bs) = ((textOf bs).map .error, []) := by
  rw [Clause.read, Reader.run_map]
  simp only [Reader.captured, run_readOpen_description h]
  rcases textOf bs with e | s <;> rfl

theorem result_clauses_description (h : bs.length < UInt64.size) :
    (clauses limits (0x12 :: counted bs)).result = (textOf bs).map fun s => [.error s] := by
  have hread := run_read_description limits h
  rcases htext : textOf bs with e | s
  · rw [htext] at hread
    rw [clauses, Reader.items_of_error (List.cons_ne_nil _ _) hread]
    rfl
  · rw [htext] at hread
    rw [clauses, Reader.items_of_ok hread, Reader.items_nil]
    rfl

/-- The field of a description decodes to a reply that holds it, or is refused as its
bytes are. -/
theorem result_decode_description (h : bs.length < UInt64.size)
    (hle : (0x12 :: counted bs).length ≤ limits.maxMessageLength.toNat) :
    (Message.decode limits (0x12 :: counted bs) : Report CopyReply).result =
      (textOf bs).map ofError := by
  rw [result_decode_of_le hle, result_clauses_description h]
  rcases textOf bs with e | s <;> rfl

/-! ### What is accepted and what is refused -/

theorem exists_text_of_valid (h : Valid bs) :
    ∃ s, Text.encode s = bs ∧ Text.decode bs = .ok s := by
  rcases hdecode : Text.decode bs with fault | s
  · rw [Text.valid_iff_fault?, Text.decode_eq_error_iff.1 hdecode] at h
    cases h
  · exact ⟨s, Text.encode_of_decode_eq_ok hdecode, rfl⟩

theorem exists_fault_of_not_valid (h : ¬ Valid bs) :
    ∃ fault, Explains bs fault ∧ Text.decode bs = .error fault := by
  rcases hdecode : Text.decode bs with fault | s
  · exact ⟨fault, Text.explains_of_fault?_eq_some (Text.decode_eq_error_iff.1 hdecode), rfl⟩
  · refine absurd ⟨s.toList, ?_⟩ h
    rw [← Text.encode_eq_flatMap, Text.encode_of_decode_eq_ok hdecode]

theorem message_invalidArgument (fault : Text.Fault) :
    (Error.invalidArgument (.invalidText fault)).message =
      "Invalid argument: Error description is not valid UTF-8: " ++ fault.message := by
  have hwords : "Invalid argument: " ++ "Error description is not valid UTF-8: " =
      "Invalid argument: Error description is not valid UTF-8: " := by decide
  calc (Error.invalidArgument (.invalidText fault)).message
    _ = "Invalid argument: " ++ ("Error description is not valid UTF-8: " ++ fault.message) := rfl
    _ = _ := by rw [← String.append_assoc, hwords]

theorem message_malformed (fault : Text.Fault) :
    (Error.malformed (.invalidText fault)).message =
      "Malformed input: String is not valid UTF-8: " ++ fault.message := by
  have hwords : "Malformed input: " ++ "String is not valid UTF-8: " =
      "Malformed input: String is not valid UTF-8: " := by decide
  calc (Error.malformed (.invalidText fault)).message
    _ = "Malformed input: " ++ ("String is not valid UTF-8: " ++ fault.message) := rfl
    _ = _ := by rw [← String.append_assoc, hwords]

variable {ι : Type} [DecidableEq ι]

/-- **Descriptions are checked alike everywhere.** Bytes that are set, read after their
length or decoded from their field are accepted by all three exactly if they are UTF-8,
and otherwise refused by all in the same words, which tell what is wrong with them. -/
theorem description_checked_alike (s : ι → CopyReply) (r : ι) (bs : Bytes)
    (hlen : bs.length < UInt64.size) :
    (Valid bs → ∃ text : String, Text.encode text = bs ∧
      (s r).setErrorBytes bs = .ok ((s r).setError text) ∧
      step s (.setErrorBytes r bs) = Function.update s r ((s r).setError text) ∧
      Text.encode (step s (.setErrorBytes r bs) r).error = bs ∧
      Payload.text.run (counted bs) = (.ok text, []) ∧
      ∀ limits : Limits, (0x12 :: counted bs).length ≤ limits.maxMessageLength.toNat →
        (Message.decode limits (0x12 :: counted bs) : Report CopyReply).result =
          .ok (ofError text)) ∧
    (¬ Valid bs → ∃ fault : Text.Fault, Explains bs fault ∧
      (s r).setErrorBytes bs = .error (.invalidArgument (.invalidText fault)) ∧
      step s (.setErrorBytes r bs) = s ∧
      Payload.text.run (counted bs) = (.error (.malformed (.invalidText fault)), []) ∧
      (∀ limits : Limits, (0x12 :: counted bs).length ≤ limits.maxMessageLength.toNat →
        (Message.decode limits (0x12 :: counted bs) : Report CopyReply).result =
          .error (.malformed (.invalidText fault))) ∧
      (Error.invalidArgument (.invalidText fault)).message =
        "Invalid argument: Error description is not valid UTF-8: " ++ fault.message ∧
      (Error.malformed (.invalidText fault)).message =
        "Malformed input: String is not valid UTF-8: " ++ fault.message ∧
      ("incomplete".toList <+: fault.message.toList ↔ ∃ more, Valid (bs ++ more)) ∧
      ∃ index : Nat, IsGreatest (validLengths bs) index ∧
        ((∃ more, Valid (bs ++ more)) →
          fault.message = "incomplete utf-8 byte sequence from index " ++ toString index) ∧
        ((¬ ∃ more, Valid (bs ++ more)) → ∃ count : Nat,
          (IsGreatest (begunLengths (bs.drop index)) count ∨
            begunLengths (bs.drop index) = ∅ ∧ count = 1) ∧
          fault.message = "invalid utf-8 sequence of " ++ toString count ++
            " bytes from index " ++ toString index)) := by
  refine ⟨fun hvalid => ?_, fun hvalid => ?_⟩
  · obtain ⟨text, hencode, hdecode⟩ := exists_text_of_valid hvalid
    have htext : textOf bs = .ok text := by
      rw [textOf, hdecode]
      rfl
    have hset : (s r).setErrorBytes bs = .ok ((s r).setError text) := by
      rw [setErrorBytes, hdecode]
    have hstep : step s (.setErrorBytes r bs) = Function.update s r ((s r).setError text) :=
      step_of_ok hset
    refine ⟨text, hencode, hset, hstep, ?_, ?_, fun limits hle => ?_⟩
    · rw [hstep, Function.update_self]
      exact hencode
    · rw [run_text_counted hlen, htext]
    · rw [result_decode_description hlen hle, htext]
      rfl
  · obtain ⟨fault, hexplains, hdecode⟩ := exists_fault_of_not_valid hvalid
    have htext : textOf bs = .error (.malformed (.invalidText fault)) := by
      rw [textOf, hdecode]
      rfl
    have hset : (s r).setErrorBytes bs = .error (.invalidArgument (.invalidText fault)) := by
      rw [setErrorBytes, hdecode]
    refine ⟨fault, hexplains, hset, step_of_error hset, ?_, fun limits hle => ?_,
      message_invalidArgument fault, message_malformed fault, hexplains.message_eq⟩
    · rw [run_text_counted hlen, htext]
    · rw [result_decode_description hlen hle, htext]
      rfl

/-- A letter and two bytes of a longer scalar value are incomplete; with a bracket behind
them they are invalid, two bytes from index 1. The whole scalar value is accepted. -/
theorem description_checked_alike_broken_off :
    let broken : Bytes := [0x61, 0xE2, 0x82, 0x28]
    let cut : Bytes := [0x61, 0xE2, 0x82]
    let whole : Bytes := [0xE2, 0x82, 0xAC]
    let s : Unit → CopyReply := fun _ => ofIndex 7
    (¬ Valid broken ∧ Explains broken (.invalid 1 2) ∧
      step s (.setErrorBytes () broken) = s ∧
      (Message.decode .standard [0x12, 0x04, 0x61, 0xE2, 0x82, 0x28] : Report CopyReply).result =
        .error (.malformed (.invalidText (.invalid 1 2))) ∧
      (Error.invalidArgument (.invalidText (.invalid 1 2))).message =
        "Invalid argument: Error description is not valid UTF-8: " ++
          "invalid utf-8 sequence of 2 bytes from index 1" ∧
      (Error.malformed (.invalidText (.invalid 1 2))).message =
        "Malformed input: String is not valid UTF-8: " ++
          "invalid utf-8 sequence of 2 bytes from index 1") ∧
    (¬ Valid cut ∧ (∃ more, Valid (cut ++ more)) ∧
      (s ()).setErrorBytes cut = .error (.invalidArgument (.invalidText (.incomplete 1))) ∧
      (Error.invalidArgument (.invalidText (.incomplete 1))).message =
        "Invalid argument: Error description is not valid UTF-8: " ++
          "incomplete utf-8 byte sequence from index 1") ∧
    Valid whole ∧ step s (.setErrorBytes () whole) = (fun _ => ofError "€") ∧
      (Message.decode .standard [0x12, 0x03, 0xE2, 0x82, 0xAC] : Report CopyReply).result =
        .ok (ofError "€") := by
  intro broken cut whole s
  have hbroken : ¬ Valid broken := by
    rw [Text.valid_iff_fault?]
    decide +kernel
  have hcut : ¬ Valid cut := by
    rw [Text.valid_iff_fault?]
    decide +kernel
  have hwhole : Valid whole := ⟨['€'], by decide +kernel⟩
  obtain ⟨-, hrefused⟩ := description_checked_alike s () broken (by decide)
  obtain ⟨-, hrefused'⟩ := description_checked_alike s () cut (by decide)
  obtain ⟨haccepted, -⟩ := description_checked_alike s () whole (by decide)
  obtain ⟨fault, hexplains, hset, hstep, -, hdecode, hargument, hinput, -⟩ := hrefused hbroken
  obtain ⟨fault', -, hset', -, -, -, hargument', -, hincomplete, -⟩ := hrefused' hcut
  obtain ⟨text, -, hset'', hstep'', -, -, hdecode''⟩ := haccepted hwhole
  obtain rfl : fault = .invalid 1 2 := by
    have hfault : (s ()).setErrorBytes broken =
        .error (.invalidArgument (.invalidText (.invalid 1 2))) := by decide +kernel
    simpa using hset.symm.trans hfault
  obtain rfl : fault' = .incomplete 1 := by
    have hfault : (s ()).setErrorBytes cut =
        .error (.invalidArgument (.invalidText (.incomplete 1))) := by decide +kernel
    simpa using hset'.symm.trans hfault
  obtain rfl : text = "€" := by
    have htext : (s ()).setErrorBytes whole = .ok (ofError "€") := by decide +kernel
    have hreply : (s ()).setError text = ofError "€" := Except.ok.inj (hset''.symm.trans htext)
    exact congrArg error hreply
  have hcounted : counted broken = 0x04 :: broken := by decide +kernel
  have hcounted' : counted whole = 0x03 :: whole := by decide +kernel
  rw [hcounted] at hdecode
  rw [hcounted'] at hdecode''
  refine ⟨⟨hbroken, hexplains, hstep, hdecode .standard (by decide),
    hargument.trans (by decide +kernel), hinput.trans (by decide +kernel)⟩,
    ⟨hcut, hincomplete.1 (by decide +kernel), hset', hargument'.trans (by decide +kernel)⟩,
    hwhole, ?_, hdecode'' .standard (by decide)⟩
  rw [hstep'']
  exact Function.update_eq_const_of_subsingleton _ _ _

end CopyReply
end WireFormat
