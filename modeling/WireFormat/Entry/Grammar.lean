/-
# The grammar of entries

Which byte strings are a varint, a key, the payload of a key or an entry, said
without a reader: a varint may be padded up to ten bytes, a key is a varint whose
value is a tag, and a group is entries of any fields up to an end key of its own
field. The depth of a payload is the number of groups that may be open in it at
once. The readers accept exactly these byte strings, whatever follows them.

Key definitions: `Grammar.Digits`, `Grammar.IsVarint`, `Grammar.IsKey`,
`Grammar.IsPayload`, `Grammar.IsBody`, `Grammar.IsEntry`.
Key theorems: `Grammar.run_varint_eq_ok_iff`, `Grammar.run_key_eq_ok_iff`,
`Grammar.run_skip_eq_ok_iff`, `Grammar.run_entry_eq_ok_iff`.
-/
import WireFormat.Entry

namespace WireFormat
namespace Grammar

/-- The base 128 digits of a number, with zeros at the end allowed. -/
inductive Digits : Bytes → Nat → Prop where
  | last {b : UInt8} : b.toNat < 128 → Digits [b] b.toNat
  | more {b : UInt8} {bs : Bytes} {n : Nat} : 128 ≤ b.toNat → Digits bs n →
      Digits (b :: bs) (b.toNat % 128 + 128 * n)

/-- A varint of a value: at most ten digits, of which sixty-four bits count. -/
def IsVarint (bs : Bytes) (v : UInt64) : Prop :=
  bs.length ≤ Varint.maxLength ∧ ∃ n, Digits bs n ∧ v = UInt64.ofNat n

/-- A key: a varint of its tag, with a field number that is not 0. -/
def IsKey (bs : Bytes) (key : Key) : Prop :=
  ∃ tag : UInt64, IsVarint bs tag ∧ tag.toNat = key.field.toNat * 8 + key.type.code ∧
    0 < key.field.toNat ∧ key.field.toNat ≤ Key.maxField

mutual
/-- The payload of a key, with at most so many groups open at once. -/
inductive IsPayload : Nat → Key → Bytes → Prop where
  | varint {depth : Nat} {key : Key} {bs : Bytes} {v : UInt64} :
      key.type = .varint → IsVarint bs v → IsPayload depth key bs
  | fixed64 {depth : Nat} {key : Key} {bs : Bytes} :
      key.type = .fixed64 → bs.length = 8 → IsPayload depth key bs
  | delimited {depth : Nat} {key : Key} {length body : Bytes} {v : UInt64} :
      key.type = .lengthDelimited → IsVarint length v → body.length = v.toNat →
      IsPayload depth key (length ++ body)
  | fixed32 {depth : Nat} {key : Key} {bs : Bytes} :
      key.type = .fixed32 → bs.length = 4 → IsPayload depth key bs
  | group {depth : Nat} {key : Key} {body : Bytes} :
      key.type = .startGroup → IsBody depth key.field body → IsPayload (depth + 1) key body

/-- Entries up to the end key of a field. -/
inductive IsBody : Nat → UInt32 → Bytes → Prop where
  | close {depth : Nat} {field : UInt32} {bs : Bytes} :
      IsKey bs ⟨field, .endGroup⟩ → IsBody depth field bs
  | entry {depth : Nat} {field : UInt32} {key : Key} {head payload rest : Bytes} :
      IsKey head key → IsPayload depth key payload → IsBody depth field rest →
      IsBody depth field (head ++ (payload ++ rest))
end

/-- An entry whose bytes are its key and a payload of it. -/
def IsEntry (depth : Nat) (entry : Entry) : Prop :=
  ∃ head payload, entry.raw = head ++ payload ∧ IsKey head entry.key ∧
    IsPayload depth entry.key payload

/-! ### Varints and keys -/

theorem run_readDigits_eq_ok_iff {count n : Nat} {bs rest : Bytes} :
    (Varint.readDigits count).run bs = (.ok n, rest) ↔
      ∃ used, bs = used ++ rest ∧ used.length ≤ count ∧ Digits used n := by
  induction count generalizing bs n with
  | zero =>
    constructor
    · intro h
      cases h
    · rintro ⟨used, -, hl, hd⟩
      cases hd <;> simp at hl
  | succ count ih =>
    cases bs with
    | nil =>
      constructor
      · intro h
        cases h
      · rintro ⟨used, hb, -, hd⟩
        cases hd <;> simp at hb
    | cons b bs =>
      by_cases hb : b.toNat < 128
      · rw [Varint.run_readDigits_cons_lt count bs hb]
        constructor
        · intro h
          cases h
          exact ⟨[b], rfl, by simp, .last hb⟩
        · rintro ⟨used, hu, -, hd⟩
          cases hd with
          | last _ =>
            cases hu
            rfl
          | more h _ =>
            cases hu
            omega
      · rw [Varint.run_readDigits_cons_ge count bs (by omega)]
        constructor
        · intro h
          split at h
          · next high mid hr =>
            cases h
            obtain ⟨used, rfl, hl, hd⟩ := ih.1 hr
            exact ⟨b :: used, rfl, by simpa using hl, .more (by omega) hd⟩
          · cases h
        · rintro ⟨used, hu, hl, hd⟩
          cases hd with
          | last h =>
            cases hu
            omega
          | @more _ digits n _ hd =>
            rw [List.cons_append, List.cons.injEq] at hu
            obtain ⟨rfl, rfl⟩ := hu
            rw [ih.2 ⟨digits, rfl, by simpa using hl, hd⟩]

/-- A varint reads as its value, and nothing else reads as a value. -/
theorem run_varint_eq_ok_iff {bs rest : Bytes} {v : UInt64} :
    Varint.read.run bs = (.ok v, rest) ↔ ∃ used, bs = used ++ rest ∧ IsVarint used v := by
  rw [Varint.read, Reader.run_bind]
  constructor
  · intro h
    split at h
    · next n mid hr =>
      cases h
      obtain ⟨used, hb, hl, hd⟩ := run_readDigits_eq_ok_iff.1 hr
      exact ⟨used, hb, hl, n, hd, rfl⟩
    · cases h
  · rintro ⟨used, hb, hl, n, hd, rfl⟩
    rw [run_readDigits_eq_ok_iff.2 ⟨used, hb, hl, hd⟩]
    rfl

theorem ofTag_eq_ok_iff {tag : UInt64} {key : Key} :
    Key.ofTag tag = .ok key ↔
      tag.toNat = key.field.toNat * 8 + key.type.code ∧ 0 < key.field.toNat ∧
        key.field.toNat ≤ Key.maxField := by
  constructor
  · intro h
    unfold Key.ofTag at h
    split at h
    · cases h
    · next type ht =>
      rw [WireType.ofCode?_eq_some_iff] at ht
      simp only at h
      split at h
      · cases h
      split at h
      · cases h
      · next h0 hmax =>
        cases h
        unfold Key.maxField at hmax ⊢
        have hf : (UInt32.ofNat (tag.toNat / 8)).toNat = tag.toNat / 8 :=
          UInt32.toNat_ofNat_of_lt' (show tag.toNat / 8 < 4294967296 by omega)
        simp only [hf]
        omega
  · rintro ⟨ht, hpos, hmax⟩
    have htag : key.tag.toUInt64 = tag := by
      apply UInt64.toNat_inj.1
      rw [UInt32.toNat_toUInt64, Key.toNat_tag, ht]
      unfold Key.maxField at hmax ⊢
      omega
    rw [← htag]
    exact Key.ofTag_tag hpos hmax

theorem run_key_eq_ok_iff {bs rest : Bytes} {key : Key} :
    Key.read.run bs = (.ok key, rest) ↔ ∃ used, bs = used ++ rest ∧ IsKey used key := by
  rw [Key.read, Reader.run_bind]
  constructor
  · intro h
    split at h
    · next tag mid hr =>
      rw [Reader.run_ofExcept] at h
      obtain ⟨used, hb, hv⟩ := run_varint_eq_ok_iff.1 hr
      simp only [Prod.mk.injEq] at h
      obtain ⟨hk, rfl⟩ := h
      exact ⟨used, hb, tag, hv, ofTag_eq_ok_iff.1 hk⟩
    · cases h
  · rintro ⟨used, hb, tag, hv, hk⟩
    rw [run_varint_eq_ok_iff.2 ⟨used, hb, hv⟩]
    simp only [Reader.run_ofExcept, ofTag_eq_ok_iff.2 hk]

/-! ### Payloads -/

theorem run_take_eq_ok_iff {n : Nat} {bs rest taken : Bytes} :
    (Reader.take n).run bs = (.ok taken, rest) ↔ bs = taken ++ rest ∧ taken.length = n := by
  rw [Reader.run_take]
  constructor
  · intro h
    split at h
    · next hn =>
      cases h
      exact ⟨(List.take_append_drop n bs).symm, List.length_take_of_le hn⟩
    · cases h
  · rintro ⟨rfl, rfl⟩
    simp

theorem run_delimited_eq_ok_iff {bs rest body : Bytes} :
    Payload.delimited.run bs = (.ok body, rest) ↔
      ∃ length v, bs = length ++ body ++ rest ∧ IsVarint length v ∧ body.length = v.toNat := by
  rw [Payload.delimited, Reader.run_bind]
  constructor
  · intro h
    split at h
    · next v mid hr =>
      obtain ⟨length, rfl, hv⟩ := run_varint_eq_ok_iff.1 hr
      obtain ⟨rfl, hl⟩ := run_take_eq_ok_iff.1 h
      exact ⟨length, v, (List.append_assoc _ _ _).symm, hv, hl⟩
    · cases h
  · rintro ⟨length, v, rfl, hv, hl⟩
    rw [run_varint_eq_ok_iff.2 ⟨length, List.append_assoc _ _ _, hv⟩]
    exact run_take_eq_ok_iff.2 ⟨rfl, hl⟩

theorem run_discard {α : Type} (r : Reader α) (bs : Bytes) :
    (discard r).run bs =
      match r.run bs with
      | (.ok _, rest) => (.ok (), rest)
      | (.error e, rest) => (.error e, rest) := rfl

theorem run_discard_eq_ok_iff {α : Type} {r : Reader α} {bs rest : Bytes} :
    (discard r).run bs = (.ok (), rest) ↔ ∃ a, r.run bs = (.ok a, rest) := by
  rw [run_discard]
  constructor
  · intro h
    split at h
    · next a mid hr =>
      cases h
      exact ⟨a, hr⟩
    · cases h
  · rintro ⟨a, h⟩
    rw [h]

mutual
/-- A payload is passed over, whatever follows it. -/
theorem run_payload_of_isPayload {limit depth : Nat} {key : Key} {used : Bytes} (rest : Bytes) :
    IsPayload depth key used →
    (Skip.payload (Skip.group limit depth) key).run (used ++ rest) = (.ok (), rest)
  | .varint ht hv => by
    simp only [Skip.payload, ht]
    exact run_discard_eq_ok_iff.2 ⟨_, run_varint_eq_ok_iff.2 ⟨used, rfl, hv⟩⟩
  | .fixed64 ht hl => by
    simp only [Skip.payload, ht]
    exact run_discard_eq_ok_iff.2 ⟨_, run_take_eq_ok_iff.2 ⟨rfl, hl⟩⟩
  | .delimited ht hv hl => by
    simp only [Skip.payload, ht]
    exact run_discard_eq_ok_iff.2 ⟨_, run_delimited_eq_ok_iff.2 ⟨_, _, rfl, hv, hl⟩⟩
  | .fixed32 ht hl => by
    simp only [Skip.payload, ht]
    exact run_discard_eq_ok_iff.2 ⟨_, run_take_eq_ok_iff.2 ⟨rfl, hl⟩⟩
  | .group ht hb => by
    simp only [Skip.payload, ht]
    exact run_group_of_isBody rest hb

theorem run_group_of_isBody {limit depth : Nat} {field : UInt32} {used : Bytes} (rest : Bytes) :
    IsBody depth field used →
    (Skip.group limit (depth + 1) field).run (used ++ rest) = (.ok (), rest)
  | .close hk => by
    have hr : (Skip.groupRound (Skip.payload (Skip.group limit depth)) field).run (used ++ rest) =
        (.ok (some ()), rest) := by
      rw [Skip.groupRound, Reader.run_bind_of_ok (run_key_eq_ok_iff.2 ⟨used, rfl, hk⟩)]
      simp
    rw [Skip.run_group_succ, hr]
  | @IsBody.entry _ _ key head payload tail hk hp hb => by
    have htype : key.type ≠ .endGroup := by
      intro h
      cases hp <;> simp_all
    have hr : (Skip.groupRound (Skip.payload (Skip.group limit depth)) field).run
        (head ++ (payload ++ tail) ++ rest) = (.ok none, tail ++ rest) := by
      rw [Skip.groupRound, Reader.run_bind_of_ok (run_key_eq_ok_iff.2
        ⟨head, List.append_assoc _ _ _, hk⟩), if_neg htype, List.append_assoc,
        Reader.run_bind_of_ok (run_payload_of_isPayload (tail ++ rest) hp)]
      rfl
    rw [Skip.run_group_succ, hr]
    exact run_group_of_isBody rest hb
end

/-- What a round inside a group read: the end of the group, or an entry. -/
theorem run_groupRound_eq_ok {skip : Key → Reader Unit} {field : UInt32} {bs rest : Bytes}
    {done? : Option Unit}
    (h : (Skip.groupRound skip field).run bs = (.ok done?, rest)) :
    ∃ head key mid, bs = head ++ mid ∧ IsKey head key ∧
      (done? = some () ∧ key = ⟨field, .endGroup⟩ ∧ rest = mid ∨
        done? = none ∧ (skip key).run mid = (.ok (), rest)) := by
  rw [Skip.groupRound, Reader.run_bind] at h
  split at h
  · next key mid hr =>
    obtain ⟨head, rfl, hk⟩ := run_key_eq_ok_iff.1 hr
    refine ⟨head, key, mid, rfl, hk, ?_⟩
    split at h
    · next htype =>
      split at h
      · next hfield =>
        cases h
        exact .inl ⟨rfl, by cases key; simp_all, rfl⟩
      · cases h
    · rw [Reader.run_bind] at h
      split at h
      · next hs =>
        cases h
        exact .inr ⟨rfl, hs⟩
      · cases h
  · cases h

/-- What is passed over inside a group is a body, if what is passed over in it is payloads. -/
theorem isBody_of_run_group {limit depth : Nat} {field : UInt32} {bs rest : Bytes}
    (hp : ∀ {key : Key} {bs rest : Bytes},
      (Skip.payload (Skip.group limit depth) key).run bs = (.ok (), rest) →
      ∃ used, bs = used ++ rest ∧ IsPayload depth key used)
    (h : (Skip.group limit (depth + 1) field).run bs = (.ok (), rest)) :
    ∃ used, bs = used ++ rest ∧ IsBody depth field used := by
  rw [Skip.run_group_succ] at h
  split at h
  · next hr =>
    cases h
    obtain ⟨head, key, mid, rfl, hk, ⟨-, rfl, rfl⟩ | ⟨hn, -⟩⟩ := run_groupRound_eq_ok hr
    · exact ⟨head, rfl, .close hk⟩
    · cases hn
  · next next hr =>
    have hlt : next.length < bs.length := Skip.consumes_groupRound _ _ bs _ next hr
    obtain ⟨used, rfl, hb⟩ := isBody_of_run_group hp h
    obtain ⟨head, key, mid, rfl, hk, ⟨hn, -⟩ | ⟨-, hs⟩⟩ := run_groupRound_eq_ok hr
    · cases hn
    · obtain ⟨payload, rfl, hpay⟩ := hp hs
      exact ⟨head ++ (payload ++ used), by simp, .entry hk hpay hb⟩
  · cases h
termination_by bs.length

/-- What is passed over after a key is a payload of it, if this holds of groups. -/
theorem isPayload_of_run_payload_of_group {group : UInt32 → Reader Unit} {depth : Nat} {key : Key}
    {bs rest : Bytes}
    (hg : key.type = .startGroup → (group key.field).run bs = (.ok (), rest) →
      ∃ used, bs = used ++ rest ∧ IsPayload depth key used)
    (h : (Skip.payload group key).run bs = (.ok (), rest)) :
    ∃ used, bs = used ++ rest ∧ IsPayload depth key used := by
  unfold Skip.payload at h
  split at h
  · next ht =>
    obtain ⟨v, hr⟩ := run_discard_eq_ok_iff.1 h
    obtain ⟨used, hb, hv⟩ := run_varint_eq_ok_iff.1 hr
    exact ⟨used, hb, .varint ht hv⟩
  · next ht =>
    obtain ⟨used, hr⟩ := run_discard_eq_ok_iff.1 h
    obtain ⟨hb, hl⟩ := run_take_eq_ok_iff.1 hr
    exact ⟨used, hb, .fixed64 ht hl⟩
  · next ht =>
    obtain ⟨body, hr⟩ := run_discard_eq_ok_iff.1 h
    obtain ⟨length, v, hb, hv, hl⟩ := run_delimited_eq_ok_iff.1 hr
    exact ⟨length ++ body, hb, .delimited ht hv hl⟩
  · next ht =>
    obtain ⟨used, hr⟩ := run_discard_eq_ok_iff.1 h
    obtain ⟨hb, hl⟩ := run_take_eq_ok_iff.1 hr
    exact ⟨used, hb, .fixed32 ht hl⟩
  · next ht => exact hg ht h
  · cases h

theorem isPayload_of_run_payload {limit depth : Nat} {key : Key} {bs rest : Bytes}
    (h : (Skip.payload (Skip.group limit depth) key).run bs = (.ok (), rest)) :
    ∃ used, bs = used ++ rest ∧ IsPayload depth key used := by
  induction depth generalizing key bs rest with
  | zero =>
    refine isPayload_of_run_payload_of_group (fun _ hr => ?_) h
    cases hr
  | succ depth ih =>
    refine isPayload_of_run_payload_of_group (fun ht hr => ?_) h
    obtain ⟨used, hb, hbody⟩ := isBody_of_run_group ih hr
    exact ⟨used, hb, .group ht hbody⟩

/-- A payload is passed over, and nothing else is. -/
theorem run_skip_eq_ok_iff {limit : Nat} {key : Key} {bs rest : Bytes} :
    (Skip.field limit key).run bs = (.ok (), rest) ↔
      ∃ used, bs = used ++ rest ∧ IsPayload limit key used := by
  constructor
  · exact isPayload_of_run_payload
  · rintro ⟨used, rfl, hp⟩
    exact run_payload_of_isPayload rest hp

/-! ### Entries -/

theorem run_readKey_eq_ok_iff {limits : Limits} {key : Key} {bs rest : Bytes} :
    (Entry.readKey limits).run bs = (.ok key, rest) ↔
      ∃ head payload, bs = head ++ payload ++ rest ∧ IsKey head key ∧
        IsPayload limits.maxGroupDepth.toNat key payload := by
  rw [Entry.readKey, Reader.run_bind]
  constructor
  · intro h
    split at h
    · next mid hr =>
      obtain ⟨head, rfl, hk⟩ := run_key_eq_ok_iff.1 hr
      rw [Reader.run_bind] at h
      split at h
      · next hs =>
        cases h
        obtain ⟨payload, rfl, hp⟩ := run_skip_eq_ok_iff.1 hs
        exact ⟨head, payload, (List.append_assoc _ _ _).symm, hk, hp⟩
      · cases h
    · cases h
  · rintro ⟨head, payload, rfl, hk, hp⟩
    rw [run_key_eq_ok_iff.2 ⟨head, List.append_assoc _ _ _, hk⟩]
    simp only
    rw [Reader.run_bind_of_ok (run_skip_eq_ok_iff.2 ⟨payload, rfl, hp⟩)]
    rfl

theorem run_entry_eq_ok_iff {limits : Limits} {entry : Entry} {bs rest : Bytes} :
    (Entry.read limits).run bs = (.ok entry, rest) ↔
      bs = entry.raw ++ rest ∧ IsEntry limits.maxGroupDepth.toNat entry := by
  constructor
  · intro h
    rw [Entry.read, Reader.run_bind] at h
    split at h
    · next taken mid hc =>
      cases h
      obtain ⟨hr, ht⟩ := Reader.run_captured_eq_ok_iff.1 hc
      obtain ⟨head, payload, rfl, hk, hp⟩ := run_readKey_eq_ok_iff.1 hr
      have hraw : taken.2 = head ++ payload := List.append_cancel_right ht.symm
      exact ⟨by rw [hraw], head, payload, hraw, hk, hp⟩
    · cases h
  · rintro ⟨rfl, head, payload, hraw, hk, hp⟩
    have hr : (Entry.readKey limits).run (entry.raw ++ rest) = (.ok entry.key, rest) :=
      run_readKey_eq_ok_iff.2 ⟨head, payload, by rw [hraw], hk, hp⟩
    rw [Entry.read, Reader.run_bind_of_ok (Reader.run_captured_of_ok hr)]
    rfl

end Grammar
end WireFormat
