/-
# Reading what is not complete yet

A byte string may be the beginning of a longer one. What a reader says of it
then falls into three cases: it gives a value, and gives the same value for every
longer byte string, leaving what follows; it finds a broken rule, and finds the
same one in every longer byte string; or it is cut off, and asks for more bytes
than are left. In the third case it asks for the same number until so many are
there. A reader that always says one of the three is incremental. The readers of
the format are, because none of them looks past what it takes.

Key definitions: `Reader.Settles`, `Reader.Incremental`, `Reader.ItemsSettle`.
Key theorems: `Reader.Incremental.bind`, `Reader.Incremental.untilSome`,
`Reader.Incremental.itemsSettle`, `Varint.incremental_read`,
`Key.incremental_read`, `Payload.incremental_text`, `Skip.incremental_field`.
-/
import WireFormat.Proofs.Items

namespace WireFormat
namespace Reader

variable {α β γ : Type}

/-! ### What a reader says of a beginning -/

/-- What `r` says of `bs`, when `bs` may go on with any `s`. -/
inductive Settles (r : Reader α) (bs : Bytes) : Prop where
  /-- A value, whatever follows. -/
  | value (a : α) (rest : Bytes) :
      (∀ s, r.run (bs ++ s) = (.ok a, rest ++ s)) → Settles r bs
  /-- A broken rule, whatever follows. -/
  | malformed (cause : Malformation) (rest : Bytes) :
      (∀ s, r.run (bs ++ s) = (.error (.malformed cause), rest ++ s)) → Settles r bs
  /-- Cut off, for as long as fewer bytes are left than are needed. -/
  | cutOff (needed : Nat) (rest : Bytes) :
      rest.length < needed →
      (∀ s, (rest ++ s).length < needed →
        r.run (bs ++ s) = (.error (.truncated needed (rest ++ s).length), rest ++ s)) →
      Settles r bs

/-- A reader that settles whatever it is given. -/
def Incremental (r : Reader α) : Prop := ∀ bs, r.Settles bs

/-- A reader that goes on as another one does settles as that one does. -/
theorem Settles.of_run_eq {r : Reader α} {r' : Reader α} {bs rest : Bytes}
    (h : ∀ s, r.run (bs ++ s) = r'.run (rest ++ s)) (hr : r'.Settles rest) : r.Settles bs := by
  cases hr with
  | value a left ha => exact .value a left fun s => (h s).trans (ha s)
  | malformed cause left hc => exact .malformed cause left fun s => (h s).trans (hc s)
  | cutOff needed left hlt hn => exact .cutOff needed left hlt fun s hs => (h s).trans (hn s hs)

/-! ### Primitive readers -/

theorem incremental_pure (a : α) : (pure a : Reader α).Incremental :=
  fun bs => .value a bs fun _ => rfl

theorem incremental_fail (cause : Malformation) :
    (fail (.malformed cause) : Reader α).Incremental :=
  fun bs => .malformed cause bs fun _ => rfl

/-- A check settles if all it finds is broken rules. -/
theorem incremental_ofExcept {x : Except Error α}
    (h : ∀ e, x = .error e → ∃ cause, e = .malformed cause) : (ofExcept x).Incremental := by
  cases x with
  | ok a => exact incremental_pure a
  | error e =>
    obtain ⟨cause, rfl⟩ := h e rfl
    exact incremental_fail cause

/-- Bytes are there or are missing, and more of them take nothing away. -/
theorem incremental_take (n : Nat) : (take n).Incremental := by
  intro bs
  by_cases hn : n ≤ bs.length
  · refine .value (bs.take n) (bs.drop n) fun s => ?_
    have hle : n ≤ (bs ++ s).length := by
      rw [List.length_append]
      omega
    rw [run_take, if_pos hle, List.take_append_of_le_length hn, List.drop_append_of_le_length hn]
  · refine .cutOff n bs (by omega) fun s hs => ?_
    rw [run_take, if_neg (by omega)]

theorem incremental_byte : byte.Incremental := by
  intro bs
  cases bs with
  | nil =>
    refine .cutOff 1 [] (by decide) fun s hs => ?_
    obtain rfl : s = [] := List.length_eq_zero_iff.1 (by simpa using hs)
    rfl
  | cons b bs => exact .value b bs fun _ => rfl

/-! ### Readers put together -/

/-- What comes after a value settles on the bytes that the value left. -/
theorem Incremental.bind {r : Reader α} {f : α → Reader β} (hr : r.Incremental)
    (hf : ∀ a, (f a).Incremental) : (r >>= f).Incremental := by
  intro bs
  cases hr bs with
  | value a rest h => exact .of_run_eq (fun s => run_bind_of_ok (h s)) (hf a rest)
  | malformed cause rest h => exact .malformed cause rest fun s => run_bind_of_error (h s)
  | cutOff needed rest hlt h =>
    exact .cutOff needed rest hlt fun s hs => run_bind_of_error (h s hs)

theorem Incremental.map {r : Reader α} (hr : r.Incremental) (f : α → β) :
    (f <$> r).Incremental :=
  hr.bind fun a => incremental_pure (f a)

theorem Incremental.discard {r : Reader α} (hr : r.Incremental) : (discard r).Incremental :=
  hr.map fun _ => ()

theorem run_captured_of_error {r : Reader α} {bs rest : Bytes} {e : Error}
    (h : r.run bs = (.error e, rest)) : r.captured.run bs = (.error e, rest) := by
  simp [Reader.captured, h]

theorem Incremental.captured {r : Reader α} (hr : r.Incremental) : r.captured.Incremental := by
  intro bs
  cases hr bs with
  | value a rest h =>
    -- what was taken is fixed by what is left, so it does not depend on what follows
    have hrun : r.run bs = (.ok a, rest) := by simpa using h []
    have hsuffix := r.rest_suffix bs
    rw [hrun] at hsuffix
    obtain ⟨taken, rfl⟩ := hsuffix
    refine .value (a, taken) rest fun s => run_captured_eq_ok_iff.2 ⟨h s, ?_⟩
    exact List.append_assoc _ _ _
  | malformed cause rest h => exact .malformed cause rest fun s => run_captured_of_error (h s)
  | cutOff needed rest hlt h =>
    exact .cutOff needed rest hlt fun s hs => run_captured_of_error (h s hs)

theorem Incremental.untilSome {round : Reader (Option α)} (hr : round.Incremental)
    (hc : round.Consumes) : (untilSome round hc).Incremental := by
  intro bs
  cases hr bs with
  | value done? rest h =>
    cases done? with
    | some a => exact .value a rest fun s => by rw [run_untilSome, h s]
    | none =>
      have hlt : rest.length < bs.length := hc bs none rest (by simpa using h [])
      have hnext : ∀ s, (Reader.untilSome round hc).run (bs ++ s) =
          (Reader.untilSome round hc).run (rest ++ s) := by
        intro s
        rw [run_untilSome, h s]
      exact .of_run_eq hnext (Incremental.untilSome hr hc rest)
  | malformed cause rest h => exact .malformed cause rest fun s => by rw [run_untilSome, h s]
  | cutOff needed rest hlt h =>
    exact .cutOff needed rest hlt fun s hs => by rw [run_untilSome, h s hs]
termination_by bs => bs.length

/-! ### Items one after the other -/

/-- What reading items says of `bs`, when `bs` may go on with any `s`. -/
inductive ItemsSettle (r : Reader γ) (h : r.Consumes) (bs : Bytes) : Prop where
  /-- Items to the end of `bs`. -/
  | complete (cs : List γ) : r.items h bs = ⟨cs, none⟩ → ItemsSettle r h bs
  /-- A broken rule after some items, whatever follows. -/
  | malformed (cs : List γ) (cause : Malformation) (rest : Bytes) :
      (∀ s, r.items h (bs ++ s) = ⟨cs, some (.malformed cause, rest ++ s)⟩) →
      ItemsSettle r h bs
  /-- Cut off after some items, for as long as fewer bytes are left than are
  needed. -/
  | cutOff (cs : List γ) (needed : Nat) (rest : Bytes) :
      rest.length < needed →
      (∀ s, (rest ++ s).length < needed →
        r.items h (bs ++ s) =
          ⟨cs, some (.truncated needed (rest ++ s).length, rest ++ s)⟩) →
      ItemsSettle r h bs

theorem ItemsSettle.cons {r : Reader γ} {h : r.Consumes} {bs rest : Bytes} {c : γ}
    (hc : ∀ s, r.run (bs ++ s) = (.ok c, rest ++ s)) (hrest : r.ItemsSettle h rest) :
    r.ItemsSettle h bs := by
  cases hrest with
  | complete cs hi =>
    have hrun : r.run bs = (.ok c, rest) := by simpa using hc []
    refine .complete (c :: cs) ?_
    rw [items_of_ok hrun, hi]
  | malformed cs cause left hi =>
    refine .malformed (c :: cs) cause left fun s => ?_
    rw [items_of_ok (hc s), hi s]
  | cutOff cs needed left hlt hi =>
    refine .cutOff (c :: cs) needed left hlt fun s hs => ?_
    rw [items_of_ok (hc s), hi s hs]

/-- Items of an incremental reader settle. -/
theorem Incremental.itemsSettle {r : Reader γ} (hr : r.Incremental) (h : r.Consumes)
    (bs : Bytes) : r.ItemsSettle h bs := by
  by_cases hne : bs = []
  · subst hne
    exact .complete [] (items_nil r h)
  · have hne' : ∀ s, bs ++ s ≠ [] := fun s he => hne (List.append_eq_nil_iff.1 he).1
    cases hr bs with
    | value c rest hc =>
      have hlt : rest.length < bs.length := h bs c rest (by simpa using hc [])
      exact .cons hc (Incremental.itemsSettle hr h rest)
    | malformed cause rest hc =>
      exact .malformed [] cause rest fun s => items_of_error (hne' s) (hc s)
    | cutOff needed rest hlt hc =>
      exact .cutOff [] needed rest hlt fun s hs => items_of_error (hne' s) (hc s hs)
termination_by bs.length

end Reader

open Reader

/-! ### The readers of the format -/

namespace Varint

theorem incremental_readDigits (count : Nat) : (readDigits count).Incremental := by
  induction count with
  | zero => exact incremental_fail _
  | succ count ih =>
    refine incremental_byte.bind fun b => ?_
    by_cases hb : b.toNat < 128
    · rw [if_pos hb]
      exact incremental_pure _
    · rw [if_neg hb]
      exact ih.bind fun high => incremental_pure _

theorem incremental_read : read.Incremental :=
  (incremental_readDigits maxLength).bind fun _ => incremental_pure _

end Varint

namespace Key

theorem ofTag_eq_error {tag : UInt64} {e : Error} (h : ofTag tag = .error e) :
    ∃ cause, e = .malformed cause := by
  unfold ofTag at h
  split at h
  · cases h
    exact ⟨_, rfl⟩
  · simp only at h
    split_ifs at h <;> cases h <;> exact ⟨_, rfl⟩

theorem expect_eq_error {key : Key} {type : WireType} {e : Error}
    (h : key.expect type = .error e) : ∃ cause, e = .malformed cause := by
  unfold expect at h
  split_ifs at h
  cases h
  exact ⟨_, rfl⟩

theorem incremental_read : read.Incremental :=
  Varint.incremental_read.bind fun _ => incremental_ofExcept fun _ => ofTag_eq_error

theorem incremental_expect (key : Key) (type : WireType) :
    (ofExcept (key.expect type)).Incremental :=
  incremental_ofExcept fun _ => expect_eq_error

end Key

namespace Payload

theorem incremental_int32 : int32.Incremental :=
  Varint.incremental_read.bind fun _ => incremental_pure _

theorem incremental_delimited : delimited.Incremental :=
  Varint.incremental_read.bind fun length => incremental_take length.toNat

/-- Text is looked at only when all of its bytes are there. -/
theorem incremental_text : text.Incremental := by
  refine incremental_delimited.bind fun bs => ?_
  split
  · exact incremental_pure _
  · exact incremental_fail _

end Payload

namespace Skip

theorem incremental_payload {group : UInt32 → Reader Unit} (hg : ∀ f, (group f).Incremental)
    (key : Key) : (payload group key).Incremental := by
  unfold payload
  split
  · exact Varint.incremental_read.discard
  · exact (incremental_take 8).discard
  · exact Payload.incremental_delimited.discard
  · exact (incremental_take 4).discard
  · exact hg key.field
  · exact incremental_fail _

theorem incremental_groupRound {skip : Key → Reader Unit} (hs : ∀ key, (skip key).Incremental)
    (f : UInt32) : (groupRound skip f).Incremental := by
  refine Key.incremental_read.bind fun key => ?_
  split
  · split
    · exact incremental_pure _
    · exact incremental_fail _
  · exact (hs key).bind fun _ => incremental_pure _

theorem incremental_group (limit budget : Nat) (f : UInt32) :
    (group limit budget f).Incremental := by
  induction budget generalizing f with
  | zero => exact incremental_fail _
  | succ budget ih => exact (incremental_groupRound (incremental_payload ih) f).untilSome _

theorem incremental_field (limit : Nat) (key : Key) : (field limit key).Incremental :=
  incremental_payload (incremental_group limit limit) key

end Skip
end WireFormat
