/-
# UTF-8 and scalar values

The scan for faults accepts exactly the encodings of scalar values, one after
the other: a lead byte and bytes in the ranges it owes encode one scalar value,
and the encoding of a scalar value is a lead byte and such bytes.

Key definitions: `Text.Fills`.
Key theorems: `Text.exists_char_of_owed`, `Text.exists_owed_of_char`,
`Text.fault?_eq_none_iff`.
-/
import WireFormat.Text.Fault

namespace WireFormat
namespace Text

/-- Bytes that fill the given ranges one by one. -/
def Fills : List Span → Bytes → Prop
  | [], bs => bs = []
  | _ :: _, [] => False
  | span :: spans, b :: bs => span.contains b = true ∧ Fills spans bs

/-! ### A lead byte and what it owes encode a scalar value -/

theorem toNat_val_ofNat {v : Nat} (h : v.isValidChar) : (Char.ofNat v).val.toNat = v := by
  rw [Char.ofNat, dif_pos h]
  rfl

theorem span_contains_iff {span : Span} {b : UInt8} :
    span.contains b = true ↔ span.low.toNat ≤ b.toNat ∧ b.toNat ≤ span.high.toNat := by
  simp [Span.contains, UInt8.le_iff_toNat_le]

theorem ofNat_eq_of_toNat {n : Nat} {b : UInt8} (h : n = b.toNat) : UInt8.ofNat n = b := by
  rw [h, UInt8.ofNat_toNat]

theorem exists_char_one {a : UInt8} (ha : a.toNat < 128) : ∃ c, String.utf8EncodeChar c = [a] := by
  refine ⟨Char.ofNat a.toNat, ?_⟩
  have hv : (a.toNat).isValidChar := by unfold Nat.isValidChar; omega
  simp only [String.utf8EncodeChar, toNat_val_ofNat hv]
  rw [if_pos (by omega), ofNat_eq_of_toNat rfl]

theorem exists_char_two {a b : UInt8} (ha : 0xC2 ≤ a.toNat) (ha' : a.toNat < 0xE0)
    (hb : 0x80 ≤ b.toNat) (hb' : b.toNat ≤ 0xBF) : ∃ c, String.utf8EncodeChar c = [a, b] := by
  refine ⟨Char.ofNat ((a.toNat - 0xC0) * 64 + (b.toNat - 0x80)), ?_⟩
  have hv : ((a.toNat - 0xC0) * 64 + (b.toNat - 0x80)).isValidChar := by
    unfold Nat.isValidChar; omega
  simp only [String.utf8EncodeChar, toNat_val_ofNat hv]
  rw [if_neg (by omega), if_pos (by omega), ofNat_eq_of_toNat (b := a) (by omega),
    ofNat_eq_of_toNat (b := b) (by omega)]

theorem exists_char_three {a b c : UInt8} (ha : 0xE0 ≤ a.toNat) (ha' : a.toNat < 0xF0)
    (hb : 0x80 ≤ b.toNat) (hb' : b.toNat ≤ 0xBF) (hlow : a.toNat = 0xE0 → 0xA0 ≤ b.toNat)
    (hhigh : a.toNat = 0xED → b.toNat ≤ 0x9F)
    (hc : 0x80 ≤ c.toNat) (hc' : c.toNat ≤ 0xBF) :
    ∃ ch, String.utf8EncodeChar ch = [a, b, c] := by
  refine ⟨Char.ofNat ((a.toNat - 0xE0) * 4096 + (b.toNat - 0x80) * 64 + (c.toNat - 0x80)), ?_⟩
  have hv : ((a.toNat - 0xE0) * 4096 + (b.toNat - 0x80) * 64 + (c.toNat - 0x80)).isValidChar := by
    unfold Nat.isValidChar; omega
  simp only [String.utf8EncodeChar, toNat_val_ofNat hv]
  rw [if_neg (by omega), if_neg (by omega), if_pos (by omega),
    ofNat_eq_of_toNat (b := a) (by omega), ofNat_eq_of_toNat (b := b) (by omega),
    ofNat_eq_of_toNat (b := c) (by omega)]

theorem exists_char_four {a b c d : UInt8} (ha : 0xF0 ≤ a.toNat) (ha' : a.toNat < 0xF5)
    (hb : 0x80 ≤ b.toNat) (hb' : b.toNat ≤ 0xBF) (hlow : a.toNat = 0xF0 → 0x90 ≤ b.toNat)
    (hhigh : a.toNat = 0xF4 → b.toNat ≤ 0x8F)
    (hc : 0x80 ≤ c.toNat) (hc' : c.toNat ≤ 0xBF) (hd : 0x80 ≤ d.toNat) (hd' : d.toNat ≤ 0xBF) :
    ∃ ch, String.utf8EncodeChar ch = [a, b, c, d] := by
  refine ⟨Char.ofNat ((a.toNat - 0xF0) * 262144 + (b.toNat - 0x80) * 4096 +
    (c.toNat - 0x80) * 64 + (d.toNat - 0x80)), ?_⟩
  have hv : ((a.toNat - 0xF0) * 262144 + (b.toNat - 0x80) * 4096 +
      (c.toNat - 0x80) * 64 + (d.toNat - 0x80)).isValidChar := by
    unfold Nat.isValidChar; omega
  simp only [String.utf8EncodeChar, toNat_val_ofNat hv]
  rw [if_neg (by omega), if_neg (by omega), if_neg (by omega),
    ofNat_eq_of_toNat (b := a) (by omega), ofNat_eq_of_toNat (b := b) (by omega),
    ofNat_eq_of_toNat (b := c) (by omega), ofNat_eq_of_toNat (b := d) (by omega)]

/-- A lead byte and bytes that fill what it owes encode a scalar value. -/
theorem exists_char_of_owed {lead : UInt8} {spans : List Span} {bs : Bytes}
    (h : owed lead = some spans) (hf : Fills spans bs) :
    ∃ c, String.utf8EncodeChar c = lead :: bs := by
  unfold owed at h
  simp only [UInt8.lt_iff_toNat_lt, ← UInt8.toNat_inj, UInt8.reduceToNat] at h
  split at h
  · cases h
    cases hf
    exact exists_char_one (by assumption)
  split at h
  · cases h
  split at h
  · cases h
    match bs, hf with
    | [b], ⟨hb, rfl⟩ =>
      simp only [span_contains_iff, Span.tail, UInt8.reduceToNat] at hb
      exact exists_char_two (by omega) (by omega) hb.1 hb.2
  split at h
  · cases h
    match bs, hf with
    | [b, c], ⟨hb, hc, rfl⟩ =>
      simp only [span_contains_iff, Span.tail, apply_ite UInt8.toNat, UInt8.reduceToNat] at hb hc
      obtain ⟨low, high⟩ := hb
      have hb : 0x80 ≤ b.toNat ∧ b.toNat ≤ 0xBF ∧ (lead.toNat = 0xE0 → 0xA0 ≤ b.toNat) ∧
          (lead.toNat = 0xED → b.toNat ≤ 0x9F) := by
        split at low <;> split at high <;> omega
      exact exists_char_three (by omega) (by omega) hb.1 hb.2.1 hb.2.2.1 hb.2.2.2 hc.1 hc.2
  split at h
  · cases h
    match bs, hf with
    | [b, c, d], ⟨hb, hc, hd, rfl⟩ =>
      simp only [span_contains_iff, Span.tail, apply_ite UInt8.toNat, UInt8.reduceToNat] at hb hc hd
      obtain ⟨low, high⟩ := hb
      have hb : 0x80 ≤ b.toNat ∧ b.toNat ≤ 0xBF ∧ (lead.toNat = 0xF0 → 0x90 ≤ b.toNat) ∧
          (lead.toNat = 0xF4 → b.toNat ≤ 0x8F) := by
        split at low <;> split at high <;> omega
      exact exists_char_four (by omega) (by omega) hb.1 hb.2.1 hb.2.2.1 hb.2.2.2 hc.1 hc.2
        hd.1 hd.2
  · cases h

/-! ### The encoding of a scalar value is a lead byte and what it owes -/

/-- The encoding of a scalar value is a lead byte and bytes that fill what it owes. -/
theorem exists_owed_of_char (c : Char) :
    ∃ lead spans tail, String.utf8EncodeChar c = lead :: tail ∧ owed lead = some spans ∧
      Fills spans tail := by
  have hv := c.valid
  unfold UInt32.isValidChar Nat.isValidChar at hv
  unfold String.utf8EncodeChar
  generalize c.val.toNat = v at hv ⊢
  simp only
  by_cases h1 : v ≤ 127
  · rw [if_pos h1]
    refine ⟨_, [], _, rfl, ?_, rfl⟩
    have h := Bytes.toNat_ofNat_of_lt (n := v) (by omega)
    rw [owed, if_pos (by rw [UInt8.lt_iff_toNat_lt, h]; exact Nat.lt_succ_of_le h1)]
  by_cases h2 : v ≤ 2047
  · rw [if_neg h1, if_pos h2]
    have h := Bytes.toNat_ofNat_of_lt (n := v / 64 % 32 + 192) (by omega)
    have hb := Bytes.toNat_ofNat_of_lt (n := v % 64 + 128) (by omega)
    refine ⟨_, [.tail], _, rfl, ?_, ?_, rfl⟩
    · simp only [owed, UInt8.lt_iff_toNat_lt, h, UInt8.reduceToNat]
      rw [if_neg (by omega), if_neg (by omega), if_pos (by omega)]
    · rw [span_contains_iff, hb]
      exact ⟨show 128 ≤ _ by omega, show _ ≤ 191 by omega⟩
  by_cases h3 : v ≤ 65535
  · rw [if_neg h1, if_neg h2, if_pos h3]
    have h := Bytes.toNat_ofNat_of_lt (n := v / 4096 % 16 + 224) (by omega)
    have hb := Bytes.toNat_ofNat_of_lt (n := v / 64 % 64 + 128) (by omega)
    have hc := Bytes.toNat_ofNat_of_lt (n := v % 64 + 128) (by omega)
    generalize UInt8.ofNat (v / 4096 % 16 + 224) = lead at h ⊢
    refine ⟨lead, [⟨if lead = 0xE0 then 0xA0 else 0x80, if lead = 0xED then 0x9F else 0xBF⟩, .tail],
      _, rfl, ?_, ?_, ?_, rfl⟩
    · simp only [owed, UInt8.lt_iff_toNat_lt, h, UInt8.reduceToNat]
      rw [if_neg (by omega), if_neg (by omega), if_neg (by omega), if_pos (by omega)]
    · rw [span_contains_iff, hb]
      simp only [apply_ite UInt8.toNat, ← UInt8.toNat_inj, h, UInt8.reduceToNat]
      constructor <;> split <;> omega
    · rw [span_contains_iff, hc]
      exact ⟨show 128 ≤ _ by omega, show _ ≤ 191 by omega⟩
  · rw [if_neg h1, if_neg h2, if_neg h3]
    have h := Bytes.toNat_ofNat_of_lt (n := v / 262144 % 8 + 240) (by omega)
    have hb := Bytes.toNat_ofNat_of_lt (n := v / 4096 % 64 + 128) (by omega)
    have hc := Bytes.toNat_ofNat_of_lt (n := v / 64 % 64 + 128) (by omega)
    have hd := Bytes.toNat_ofNat_of_lt (n := v % 64 + 128) (by omega)
    generalize UInt8.ofNat (v / 262144 % 8 + 240) = lead at h ⊢
    refine ⟨lead, [⟨if lead = 0xF0 then 0x90 else 0x80, if lead = 0xF4 then 0x8F else 0xBF⟩, .tail,
      .tail], _, rfl, ?_, ?_, ?_, ?_, rfl⟩
    · simp only [owed, UInt8.lt_iff_toNat_lt, h, UInt8.reduceToNat]
      rw [if_neg (by omega), if_neg (by omega), if_neg (by omega), if_neg (by omega),
        if_pos (by omega)]
    · rw [span_contains_iff, hb]
      simp only [apply_ite UInt8.toNat, ← UInt8.toNat_inj, h, UInt8.reduceToNat]
      constructor <;> split <;> omega
    · rw [span_contains_iff, hc]
      exact ⟨show 128 ≤ _ by omega, show _ ≤ 191 by omega⟩
    · rw [span_contains_iff, hd]
      exact ⟨show 128 ≤ _ by omega, show _ ≤ 191 by omega⟩

/-! ### Scans -/

/-- The rest of a faultless scan first fills what is owed. -/
theorem fills_of_faultFrom_eq_none : ∀ {start seen : Nat} {spans : List Span} {bs : Bytes},
    faultFrom start seen spans bs = none →
    ∃ head rest start' seen', bs = head ++ rest ∧ Fills spans head ∧
      faultFrom start' seen' [] rest = none
  | start, seen, [], bs, h => ⟨[], bs, start, seen, rfl, rfl, h⟩
  | _, _, _ :: _, [], h => by simp [faultFrom] at h
  | start, seen, span :: spans, b :: bs, h => by
    rw [faultFrom] at h
    split at h
    · next hb =>
      obtain ⟨head, rest, start', seen', rfl, hf, hr⟩ := fills_of_faultFrom_eq_none h
      exact ⟨b :: head, rest, start', seen', rfl, ⟨hb, hf⟩, hr⟩
    · cases h

theorem exists_chars_of_faultFrom_eq_none {start seen : Nat} {bs : Bytes}
    (h : faultFrom start seen [] bs = none) :
    ∃ cs : List Char, cs.flatMap String.utf8EncodeChar = bs := by
  match bs with
  | [] => exact ⟨[], rfl⟩
  | b :: bs =>
    rw [faultFrom] at h
    split at h
    · next spans hb =>
      obtain ⟨head, rest, start', seen', rfl, hf, hr⟩ := fills_of_faultFrom_eq_none h
      obtain ⟨c, hc⟩ := exists_char_of_owed hb hf
      have : rest.length < (b :: (head ++ rest)).length := by
        rw [List.length_cons, List.length_append]
        omega
      obtain ⟨cs, hcs⟩ := exists_chars_of_faultFrom_eq_none hr
      exact ⟨c :: cs, by simp [hc, hcs]⟩
    · cases h
termination_by bs.length

theorem faultFrom_append_of_fills (start seen : Nat) (rest : Bytes) :
    ∀ {spans : List Span} {head : Bytes}, Fills spans head →
    faultFrom start seen spans (head ++ rest) = faultFrom start (seen + head.length) [] rest
  | [], head, h => by
    cases h
    rfl
  | span :: spans, b :: head, ⟨hb, hf⟩ => by
    rw [List.cons_append, faultFrom, if_pos hb,
      faultFrom_append_of_fills start (seen + 1) rest hf, List.length_cons]
    congr 1
    omega

theorem faultFrom_flatMap (cs : List Char) : ∀ start seen : Nat,
    faultFrom start seen [] (cs.flatMap String.utf8EncodeChar) = none := by
  induction cs with
  | nil => intro start seen; rfl
  | cons c cs ih =>
    intro start seen
    obtain ⟨lead, spans, tail, hc, ho, hf⟩ := exists_owed_of_char c
    rw [List.flatMap_cons, hc, List.cons_append, faultFrom, ho]
    simp only
    rw [faultFrom_append_of_fills _ _ _ hf, ih]

/-- Bytes have no fault exactly if they encode a list of scalar values. -/
theorem fault?_eq_none_iff {bs : Bytes} :
    fault? bs = none ↔ ∃ cs : List Char, cs.flatMap String.utf8EncodeChar = bs := by
  constructor
  · exact exists_chars_of_faultFrom_eq_none
  · rintro ⟨cs, rfl⟩
    exact faultFrom_flatMap cs 0 0

end Text
end WireFormat
