/-
# Keys and their tags

A tag has thirty-two bits, three of them for the wire type, so it has space for
twenty-nine bits of the field number. The tag of a key is therefore that of the key
with the field number modulo `2 ^ 29`, and this is the one thing that gets lost: two
keys have the same tag exactly if they agree up to that. Reading takes the tag apart
again, so what comes back is the key with its field number cut, unless that is zero,
which no key may have.

In the other direction nothing is lost. A number is accepted as a tag exactly if it is
the tag of a key that reads back, and then it is the tag of the key it gives.

Key definitions: `Key.truncated`.
Key theorems: `Key.tag_eq_shift_or`, `Key.tag_truncated`, `Key.ofTag_tag_eq`,
`Key.tag_eq_tag_iff`, `Key.exists_ofTag_iff`, `Key.ofTag_tag_eq_ok_iff`.
-/
import WireFormat.Proofs.Varint.Exact

namespace WireFormat
namespace Key

/-! ### Tags by their bits -/

/-- The field number stands above the three bits of the wire type. -/
theorem tag_eq_shift_or (key : Key) :
    key.tag = key.field <<< 3 ||| UInt32.ofNat key.type.code := by
  have hcode := key.type.code_le_five
  have hfield : (key.field <<< 3).toNat = 2 ^ 3 * (key.field.toNat % (maxField + 1)) := by
    have hshift : (key.field <<< 3).toNat = key.field.toNat <<< 3 % 2 ^ 32 :=
      UInt32.toNat_shiftLeft ..
    rw [hshift, Nat.shiftLeft_eq, maxField]
    omega
  have htype : (UInt32.ofNat key.type.code).toNat = key.type.code :=
    UInt32.toNat_ofNat_of_lt' (show key.type.code < 2 ^ 32 by omega)
  apply UInt32.toNat_inj.1
  calc key.tag.toNat
      = 2 ^ 3 * (key.field.toNat % (maxField + 1)) + key.type.code := by
        rw [toNat_tag]
        omega
    _ = 2 ^ 3 * (key.field.toNat % (maxField + 1)) ||| key.type.code :=
        Nat.two_pow_add_eq_or_of_lt (show key.type.code < 2 ^ 3 by omega) _
    _ = (key.field <<< 3 ||| UInt32.ofNat key.type.code).toNat := by
        rw [UInt32.toNat_or, hfield, htype]

/-- A tag that gives a key is taken apart into the bits of the two. -/
theorem bits_of_ofTag {t : UInt64} {key : Key} (h : ofTag t = .ok key) :
    key.field = (t >>> 3).toUInt32 ∧ UInt64.ofNat key.type.code = t &&& 7 := by
  have hcode := key.type.code_le_five
  obtain ⟨ht, -, hmax⟩ := Grammar.ofTag_eq_ok_iff.1 h
  unfold maxField at hmax
  have hhigh : (t >>> 3).toNat = t.toNat / 8 := by
    rw [UInt64.toNat_shiftRight]
    exact Nat.shiftRight_eq_div_pow t.toNat 3
  have hlow : (t &&& 7).toNat = t.toNat % 8 := Nat.and_two_pow_sub_one_eq_mod t.toNat 3
  refine ⟨UInt32.toNat_inj.1 ?_, UInt64.toNat_inj.1 ?_⟩
  · rw [UInt64.toNat_toUInt32, hhigh, ht]
    omega
  · rw [UInt64.toNat_ofNat_of_lt' (show key.type.code < 2 ^ 64 by omega), hlow, ht]
    omega

/-! ### From tags to keys -/

theorem tag_of_ofTag {t : UInt64} {key : Key} (h : ofTag t = .ok key) : key.tag.toUInt64 = t := by
  obtain ⟨ht, -, hmax⟩ := Grammar.ofTag_eq_ok_iff.1 h
  apply UInt64.toNat_inj.1
  rw [UInt32.toNat_toUInt64, toNat_tag, Nat.mod_eq_of_lt (Nat.lt_succ_of_le hmax), ht]

theorem exists_ofTag_iff {t : UInt64} :
    (∃ key, ofTag t = .ok key) ↔ 8 ≤ t.toNat ∧ t.toNat < 2 ^ 32 ∧ t.toNat % 8 ≤ 5 := by
  constructor
  · rintro ⟨key, h⟩
    have hcode := key.type.code_le_five
    obtain ⟨ht, hpos, hmax⟩ := Grammar.ofTag_eq_ok_iff.1 h
    unfold maxField at hmax
    omega
  · rintro ⟨hlow, hhigh, hcode⟩
    obtain ⟨type, htype⟩ : ∃ type, WireType.ofCode? (t.toNat % 8) = some type := by
      rw [← Option.isSome_iff_exists, ← Option.ne_none_iff_isSome]
      exact fun hnone => absurd (WireType.ofCode?_eq_none_iff.1 hnone) (by omega)
    have hfield : (UInt32.ofNat (t.toNat / 8)).toNat = t.toNat / 8 :=
      UInt32.toNat_ofNat_of_lt' (show t.toNat / 8 < 2 ^ 32 by omega)
    refine ⟨⟨UInt32.ofNat (t.toNat / 8), type⟩, Grammar.ofTag_eq_ok_iff.2 ?_⟩
    rw [WireType.ofCode?_eq_some_iff] at htype
    simp only [hfield, maxField]
    omega

/-! ### From keys to tags -/

/-- The key that a tag has space for: the field number without its upper bits. -/
def truncated (key : Key) : Key := ⟨UInt32.ofNat (key.field.toNat % 2 ^ 29), key.type⟩

theorem toNat_field_truncated (key : Key) :
    key.truncated.field.toNat = key.field.toNat % 2 ^ 29 :=
  UInt32.toNat_ofNat_of_lt' (show key.field.toNat % 2 ^ 29 < 2 ^ 32 by omega)

theorem truncated_eq_iff {key : Key} : key.truncated = key ↔ key.field.toNat < 2 ^ 29 := by
  constructor
  · intro h
    have hfield := toNat_field_truncated key
    rw [h] at hfield
    omega
  · intro h
    unfold truncated
    rw [Nat.mod_eq_of_lt h, UInt32.ofNat_toNat]

/-- A tag does not hold the upper bits of a field number. -/
theorem tag_truncated (key : Key) : key.truncated.tag = key.tag := by
  apply UInt32.toNat_inj.1
  rw [toNat_tag, toNat_tag, toNat_field_truncated]
  exact congrArg (· * 8 + key.type.code) (Nat.mod_mod _ _)

/-- What a tag gives back is the key that it has space for, if that has a field. -/
theorem ofTag_tag_eq (key : Key) :
    ofTag key.tag.toUInt64 =
      if key.field.toNat % 2 ^ 29 = 0 then .error (.malformed .fieldZero)
      else .ok key.truncated := by
  have hfield := toNat_field_truncated key
  by_cases hzero : key.field.toNat % 2 ^ 29 = 0
  · have htag : key.tag.toUInt64.toNat = key.type.code := by
      rw [UInt32.toNat_toUInt64, toNat_tag]
      show key.field.toNat % 2 ^ 29 * 8 + _ = _
      rw [hzero]
      omega
    have hcode := key.type.code_le_five
    rw [if_pos hzero, ofTag, htag, Nat.mod_eq_of_lt (by omega), WireType.ofCode?_code]
    exact if_pos (by omega)
  · rw [if_neg hzero, ← tag_truncated]
    exact ofTag_tag (by omega) (by rw [maxField]; omega)

theorem tag_eq_tag_iff {k k' : Key} :
    k.tag = k'.tag ↔ k.type = k'.type ∧ k.field.toNat % 2 ^ 29 = k'.field.toNat % 2 ^ 29 := by
  have hcode := k.type.code_le_five
  have hcode' := k'.type.code_le_five
  rw [← UInt32.toNat_inj, toNat_tag, toNat_tag, maxField]
  constructor
  · intro h
    exact ⟨WireType.code_injective (by omega), by omega⟩
  · rintro ⟨htype, hfield⟩
    rw [htype]
    omega

theorem ofTag_tag_eq_ok_iff {key : Key} :
    ofTag key.tag.toUInt64 = .ok key ↔ 1 ≤ key.field.toNat ∧ key.field.toNat ≤ 2 ^ 29 - 1 := by
  rw [ofTag_tag_eq]
  by_cases hzero : key.field.toNat % 2 ^ 29 = 0
  · rw [if_pos hzero]
    refine iff_of_false (fun h => ?_) (by omega)
    cases h
  · rw [if_neg hzero, Except.ok.injEq, truncated_eq_iff]
    omega

/-- **Keys and tags correspond, up to what a tag has no space for.** What gives a key is
the tag of that key, and the tag of a key gives back its wire type and its field number
modulo `2 ^ 29`. -/
theorem tag_correspondence (t : UInt64) (k k' : Key) (w : Writer) :
    ((∃ key, ofTag t = .ok key) ↔ 8 ≤ t.toNat ∧ t.toNat < 2 ^ 32 ∧ t.toNat % 8 ≤ 5) ∧
    (∀ key, ofTag t = .ok key → key.tag.toUInt64 = t ∧
      key.field = (t >>> 3).toUInt32 ∧ UInt64.ofNat key.type.code = t &&& 7) ∧
    k.tag = k.field <<< 3 ||| UInt32.ofNat k.type.code ∧
    (ofTag k.tag.toUInt64 = .ok k ↔ 1 ≤ k.field.toNat ∧ k.field.toNat ≤ 2 ^ 29 - 1) ∧
    (ofTag k.tag.toUInt64 =
      if k.field.toNat % 2 ^ 29 = 0 then .error (.malformed .fieldZero)
      else .ok ⟨UInt32.ofNat (k.field.toNat % 2 ^ 29), k.type⟩) ∧
    (k.tag = k'.tag ↔
      k.type = k'.type ∧ k.field.toNat % 2 ^ 29 = k'.field.toNat % 2 ^ 29) ∧
    k.encode.length = k.length ∧
    w.write (.key k) =
      if k.length ≤ w.free.length then (.ok (), w.advance k.encode)
      else (.error (.invalidArgument (.bufferTooSmall k.length w.free.length)), w) :=
  ⟨exists_ofTag_iff, fun _ h => ⟨tag_of_ofTag h, bits_of_ofTag h⟩, tag_eq_shift_or k,
    ofTag_tag_eq_ok_iff, ofTag_tag_eq k, tag_eq_tag_iff, length_encode k,
    w.write_varint k.tag.toUInt64⟩

/-- The field number `2 ^ 29 + 2` has the tag of field 2, and comes back as that. -/
theorem tag_correspondence_truncated :
    let k : Key := ⟨536870914, .lengthDelimited⟩
    ofTag 18 = .ok ⟨2, .lengthDelimited⟩ ∧
      (Key.tag ⟨2, .lengthDelimited⟩).toUInt64 = 18 ∧
      (2 : UInt32) = ((18 : UInt64) >>> 3).toUInt32 ∧
      k.tag = Key.tag ⟨2, .lengthDelimited⟩ ∧ ofTag k.tag.toUInt64 ≠ .ok k ∧
      ofTag k.tag.toUInt64 = .ok ⟨2, .lengthDelimited⟩ := by
  intro k
  have hkey : ofTag 18 = .ok ⟨2, .lengthDelimited⟩ := by decide
  obtain ⟨-, hparts, -, hback, htruncated, hsame, -⟩ :=
    tag_correspondence 18 k ⟨2, .lengthDelimited⟩ (Writer.ofBuffer [])
  obtain ⟨htag, hfield, -⟩ := hparts _ hkey
  refine ⟨hkey, htag, hfield, hsame.2 (by decide), ?_, htruncated.trans (by decide)⟩
  exact fun h => absurd (hback.1 h).2 (by decide)

end Key
end WireFormat
