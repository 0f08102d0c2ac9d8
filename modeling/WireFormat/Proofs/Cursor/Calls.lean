/-
# Calls on a cursor

A cursor is read from by calls, one after the other. Each gives a value or fails, and
the next one goes on from where it stopped, also if it failed half way: a length may
have been taken and the bytes after it not, or some of the entries of a group.

Whatever the calls, the cursor stays in its buffer and never moves back. A call that
succeeds has taken a byte, unless it only asks whether anything is left; one that is
cut off asked for more than the cursor has left. What was taken since an earlier place
is the piece of the buffer between the two. All of this is kept by every single
reader, so it holds after any run of calls.

Key definitions: `Cursor.Call`, `Cursor.Call.reader`, `Cursor.calls`, `Indexed.calls`.
Key theorems: `Skip.consumes_field`, `Reader.Incremental.lt_of_truncated`,
`Cursor.Call.consumes_reader`, `Cursor.Call.lt_of_truncated`, `Indexed.calls_eq`,
`Cursor.consumedSince_eq_slice`.
-/
import WireFormat.Limits
import WireFormat.Proofs.Cursor.Indexed
import WireFormat.Proofs.Incremental

namespace WireFormat

/-! ### What a single reader does -/

namespace Reader

variable {α β : Type}

theorem Consumes.map {r : Reader α} (hr : r.Consumes) (f : α → β) : (f <$> r).Consumes := by
  rw [map_eq_pure_bind]
  exact hr.bind _

theorem Incremental.lt_of_truncated {r : Reader α} (hr : r.Incremental) {bs rest : Bytes}
    {needed remaining : Nat} (h : r.run bs = (.error (.truncated needed remaining), rest)) :
    remaining < needed ∧ remaining = rest.length := by
  cases hr bs with
  | value a left hv =>
    have hrun : r.run bs = (.ok a, left) := by simpa using hv []
    rw [hrun] at h
    cases h
  | malformed cause left hm =>
    have hrun : r.run bs = (.error (.malformed cause), left) := by simpa using hm []
    rw [hrun] at h
    cases h
  | cutOff needed' left hlt hn =>
    have hrun : r.run bs = (.error (.truncated needed' left.length), left) := by
      simpa using hn [] (by simpa using hlt)
    rw [hrun] at h
    cases h
    exact ⟨hlt, rfl⟩

end Reader

namespace Skip

theorem consumes_group (limit budget : Nat) (f : UInt32) : (group limit budget f).Consumes := by
  cases budget with
  | zero => exact Reader.consumes_fail _
  | succ budget =>
    rw [group, Reader.untilSome_eq_bind]
    exact (consumes_groupRound _ _).bind _

/-- A payload that can be passed over has a byte. -/
theorem consumes_field (limit : Nat) (key : Key) : (field limit key).Consumes := by
  unfold field payload
  cases key.type with
  | varint => exact Varint.consumes_read.map _
  | fixed64 => exact (Reader.consumes_take (by decide)).map _
  | lengthDelimited => exact (Varint.consumes_read.bind _).map _
  | fixed32 => exact (Reader.consumes_take (by decide)).map _
  | startGroup => exact consumes_group _ _ _
  | endGroup => exact Reader.consumes_fail _

end Skip

namespace Cursor

/-! ### Calls -/

/-- What a cursor can be asked for. -/
inductive Call where
  | varint
  | key
  | int32
  | text
  | delimited
  | fixed32
  | fixed64
  /-- To pass over the payload of a key, which need not be one that can be read. -/
  | skip (k : Key)
  /-- Whether nothing is left. -/
  | finish
  deriving DecidableEq

/-- What a call gives. -/
inductive Value where
  | number (v : UInt64)
  | key (k : Key)
  | int32 (v : Int32)
  | text (s : String)
  | bytes (bs : Bytes)
  /-- There is nothing to give. -/
  | done
  deriving DecidableEq

namespace Call

/-- The reader of a call. -/
def reader (limits : Limits) : Call → Reader Value
  | varint => .number <$> Varint.read
  | key => .key <$> Key.read
  | int32 => .int32 <$> Payload.int32
  | text => .text <$> Payload.text
  | delimited => .bytes <$> Payload.delimited
  | fixed32 => .bytes <$> Payload.fixed32
  | fixed64 => .bytes <$> Payload.fixed64
  | skip k => (fun _ => .done) <$> Skip.field limits.maxGroupDepth.toNat k
  | finish => (fun _ => .done) <$> Reader.finish

/-- The reader of a call by position. -/
def indexed (limits : Limits) : Call → Indexed Value
  | varint => .number <$> Indexed.varint
  | key => .key <$> Indexed.key
  | int32 => .int32 <$> Indexed.int32
  | text => .text <$> Indexed.text
  | delimited => .bytes <$> Indexed.delimited
  | fixed32 => .bytes <$> Indexed.array 4
  | fixed64 => .bytes <$> Indexed.array 8
  | skip k => (fun _ => .done) <$> Indexed.skip limits.maxGroupDepth.toNat 0 k
  | finish => (fun _ => .done) <$> Indexed.finish

variable {limits : Limits} {c c' : Cursor}

theorem follows_indexed (call : Call) : (call.indexed limits).Follows (call.reader limits) c := by
  cases call with
  | varint => exact Indexed.follows_varint.map _
  | key => exact Indexed.follows_key.map _
  | int32 => exact Indexed.follows_int32.map _
  | text => exact Indexed.follows_text.map _
  | delimited => exact Indexed.follows_delimited.map _
  | fixed32 => exact (Indexed.follows_array 4).map _
  | fixed64 => exact (Indexed.follows_array 8).map _
  | skip k => exact (Indexed.follows_skip limits.maxGroupDepth.toNat 0 k c).map _
  | finish => exact Indexed.follows_finish.map _

/-- A call takes a byte if it succeeds, unless it only asks whether nothing is left. -/
theorem consumes_reader {call : Call} (h : call ≠ .finish) : (call.reader limits).Consumes := by
  cases call with
  | varint => exact Varint.consumes_read.map _
  | key => exact Key.consumes_read.map _
  | int32 => exact (Varint.consumes_read.bind _).map _
  | text => exact ((Varint.consumes_read.bind _).bind _).map _
  | delimited => exact (Varint.consumes_read.bind _).map _
  | fixed32 => exact (Reader.consumes_take (by decide)).map _
  | fixed64 => exact (Reader.consumes_take (by decide)).map _
  | skip k => exact (Skip.consumes_field _ k).map _
  | finish => exact absurd rfl h

theorem incremental_reader {call : Call} (h : call ≠ .finish) :
    (call.reader limits).Incremental := by
  cases call with
  | varint => exact Varint.incremental_read.map _
  | key => exact Key.incremental_read.map _
  | int32 => exact Payload.incremental_int32.map _
  | text => exact Payload.incremental_text.map _
  | delimited => exact Payload.incremental_delimited.map _
  | fixed32 => exact (Reader.incremental_take 4).map _
  | fixed64 => exact (Reader.incremental_take 8).map _
  | skip k => exact (Skip.incremental_field _ k).map _
  | finish => exact absurd rfl h

/-- Asking whether nothing is left takes nothing, and the answer is what is left. -/
theorem run_finish : c.run (reader limits .finish) =
    (if c.remaining = 0 then .ok .done else .error (.malformed (.unconsumed c.remaining)), c) := by
  have hrun : (reader limits .finish).run c.unread =
      (if c.remaining = 0 then .ok .done else .error (.malformed (.unconsumed c.remaining)),
        c.unread) := by
    unfold remaining
    cases c.unread <;> rfl
  rw [run_of_append (List.nil_append _).symm hrun, List.append_nil]

theorem exists_ok_finish_iff :
    (∃ v, (c.run (reader limits .finish)).1 = .ok v) ↔ c.remaining = 0 := by
  rw [run_finish]
  by_cases hend : c.remaining = 0
  · simp [hend]
  · simp [hend]

theorem position_lt_of_ok {call : Call} (h : call ≠ .finish) {v : Value}
    (hrun : c.run (call.reader limits) = (.ok v, c')) : c.position < c'.position := by
  have hbytes := c.bytes_run (call.reader limits)
  have hlt := unread_length_lt_of_run (consumes_reader h) hrun
  rw [hrun] at hbytes
  have hlen := congrArg List.length hbytes
  simp only [bytes, List.length_append] at hlen
  unfold position
  omega

/-- A call that is cut off asks for more bytes than the cursor has left then. -/
theorem lt_of_truncated {call : Call} {needed remaining : Nat}
    (hrun : c.run (call.reader limits) = (.error (.truncated needed remaining), c')) :
    remaining < needed ∧ remaining = c'.remaining := by
  by_cases hfinish : call = .finish
  · rw [hfinish, run_finish] at hrun
    split at hrun <;> cases hrun
  · obtain ⟨x, used, rest, -, hr, hc⟩ := c.exists_used (call.reader limits)
    rw [hc] at hrun
    cases hrun
    exact (incremental_reader hfinish).lt_of_truncated hr

end Call

/-! ### Runs of calls -/

variable {limits : Limits}

/-- Makes calls one after the other, whatever comes of each: what they gave, and where
the cursor is then. -/
def calls (limits : Limits) (c : Cursor) : List Call → List (Except Error Value) × Cursor
  | [] => ([], c)
  | call :: rest =>
    let (result, c') := c.run (call.reader limits)
    let (results, c'') := c'.calls limits rest
    (result :: results, c'')

theorem calls_cons (c : Cursor) (call : Call) (rest : List Call) :
    c.calls limits (call :: rest) =
      ((c.run (call.reader limits)).1 :: ((c.run (call.reader limits)).2.calls limits rest).1,
        ((c.run (call.reader limits)).2.calls limits rest).2) := rfl

theorem calls_append (c : Cursor) (xs ys : List Call) :
    c.calls limits (xs ++ ys) =
      ((c.calls limits xs).1 ++ ((c.calls limits xs).2.calls limits ys).1,
        ((c.calls limits xs).2.calls limits ys).2) := by
  induction xs generalizing c with
  | nil => rfl
  | cons call xs ih => rw [List.cons_append, calls_cons, ih, calls_cons, List.cons_append]

theorem bytes_calls (c : Cursor) (cs : List Call) : (c.calls limits cs).2.bytes = c.bytes := by
  induction cs generalizing c with
  | nil => rfl
  | cons call cs ih =>
    calc (c.calls limits (call :: cs)).2.bytes
        = (c.run (call.reader limits)).2.bytes := ih _
      _ = c.bytes := c.bytes_run _

theorem position_le_calls (c : Cursor) (cs : List Call) :
    c.position ≤ (c.calls limits cs).2.position := by
  induction cs generalizing c with
  | nil => exact Nat.le_refl _
  | cons call cs ih =>
    calc c.position
        ≤ (c.run (call.reader limits)).2.position := c.position_le_run _
      _ ≤ (c.calls limits (call :: cs)).2.position := ih _

/-- What was taken since an earlier place is what the buffer holds from there on. -/
theorem consumedSince_eq_slice (c : Cursor) (start : Nat) :
    c.consumedSince start = Indexed.slice c.bytes start c.position := by
  unfold consumedSince Indexed.slice
  by_cases hstart : start ≤ c.position
  · have hdrop : (c.bytes.drop start).take (c.position - start) = c.consumed.drop start := by
      have hle : start ≤ c.consumed.length := hstart
      have hlen : (c.consumed.drop start).length = c.position - start := List.length_drop
      rw [bytes, List.drop_append_of_le_length hle, List.take_left' hlen]
    rw [if_pos hstart, if_pos ⟨hstart, c.position_le_length⟩, hdrop]
  · rw [if_neg hstart, if_neg fun h => hstart h.1]

end Cursor

namespace Indexed

/-- Makes calls by position one after the other; nothing if one goes out of range. -/
def calls (limits : Limits) (source : Bytes) (position : Nat) :
    List Cursor.Call → Option (List (Except Error Cursor.Value) × Nat)
  | [] => some ([], position)
  | call :: rest => do
    let (result, position') ← call.indexed limits source position
    let (results, position'') ← calls limits source position' rest
    return (result :: results, position'')

/-- Calls by position stay in range, and give what the calls give. -/
theorem calls_eq (limits : Limits) (c : Cursor) (cs : List Cursor.Call) :
    calls limits c.bytes c.position cs =
      some ((c.calls limits cs).1, (c.calls limits cs).2.position) := by
  induction cs generalizing c with
  | nil => rfl
  | cons call cs ih =>
    have hcall : call.indexed limits c.bytes c.position = some _ := call.follows_indexed
    have hnext := ih (c.run (call.reader limits)).2
    rw [c.bytes_run] at hnext
    rw [calls, hcall, Cursor.calls_cons]
    simp only [Option.bind_eq_bind, Option.bind_some, hnext]
    rfl

end Indexed

namespace Cursor

/-- **Whatever is read, a cursor stays in its buffer.** After any calls it stands where
it was or further on, calls made by position go the same way, and what was taken since a
place is what the buffer holds from there on. -/
theorem calls_stay_in_range (limits : Limits) (bs : Bytes) (earlier later : List Call)
    (call : Call) :
    let start := ((ofBytes bs).calls limits earlier).2
    let run := (ofBytes bs).calls limits (earlier ++ later)
    let c := run.2
    let next := c.run (call.reader limits)
    (Indexed.calls limits bs 0 (earlier ++ later) = some (run.1, c.position) ∧
      call.indexed limits bs c.position = some (next.1, next.2.position)) ∧
    (c.bytes = bs ∧ c.position + c.remaining = bs.length) ∧
    (start.position ≤ c.position ∧ c.position ≤ next.2.position ∧
      next.2.position ≤ bs.length) ∧
    (∀ v, next.1 = .ok v → call ≠ .finish → c.position < next.2.position) ∧
    (call = .finish → next.2 = c ∧ ((∃ v, next.1 = .ok v) ↔ c.position = bs.length)) ∧
    (∀ needed remaining, next.1 = .error (.truncated needed remaining) →
      remaining < needed ∧ remaining = next.2.remaining) ∧
    c.consumedSince start.position =
      some ((bs.drop start.position).take (c.position - start.position)) ∧
    ∀ s, (s ≤ c.position → c.consumedSince s = some ((bs.drop s).take (c.position - s))) ∧
      (c.consumedSince s = none ↔ c.position < s) := by
  intro start run c next
  have hbytes : c.bytes = bs := bytes_calls (ofBytes bs) (earlier ++ later)
  have hnextBytes : next.2.bytes = bs := (c.bytes_run _).trans hbytes
  have hle : c.position ≤ bs.length := hbytes ▸ c.position_le_length
  have hremaining : bs.length - c.position = c.remaining := hbytes ▸ c.length_sub_position
  have hstart : start.position ≤ c.position := by
    show start.position ≤ ((ofBytes bs).calls limits (earlier ++ later)).2.position
    rw [calls_append]
    exact start.position_le_calls later
  have hslice : ∀ s, s ≤ c.position →
      c.consumedSince s = some ((bs.drop s).take (c.position - s)) := by
    intro s hs
    rw [consumedSince_eq_slice, hbytes, Indexed.slice, if_pos ⟨hs, hle⟩]
  refine ⟨⟨Indexed.calls_eq limits (ofBytes bs) _, ?_⟩, ⟨hbytes, by omega⟩,
    ⟨hstart, c.position_le_run _, hnextBytes ▸ next.2.position_le_length⟩,
    fun v hok hcall => Call.position_lt_of_ok hcall (Prod.ext hok rfl : next = (.ok v, next.2)),
    fun hfinish => ?_, fun needed remaining herror => ?_, hslice _ hstart,
    fun s => ⟨hslice s, ?_⟩⟩
  · have hcall : call.indexed limits c.bytes c.position = some _ := call.follows_indexed
    rw [hbytes] at hcall
    exact hcall
  · subst hfinish
    have hend : c.remaining = 0 ↔ c.position = bs.length := by omega
    exact ⟨congrArg Prod.snd Call.run_finish, Call.exists_ok_finish_iff.trans hend⟩
  · exact Call.lt_of_truncated
      (Prod.ext herror rfl : next = (.error (.truncated needed remaining), next.2))
  · unfold consumedSince
    by_cases hs : s ≤ c.position
    · simp [hs]
    · simp only [hs, if_false, true_iff]
      omega

/-- Five bytes are asked for where three are left; the length is taken all the same, and
a varint is read after it. Then a group is passed over, which is cut off after its
first entry. -/
theorem calls_stay_in_range_cut_off :
    let bs : Bytes := [0x05, 0x61, 0x08, 0x01]
    let run := (ofBytes bs).calls {} ([.delimited] ++ [.varint])
    let next := run.2.run (Call.reader {} (.skip ⟨3, .startGroup⟩))
    run.1 = [.error (.truncated 5 3), .ok (.number 97)] ∧ run.2.position = 2 ∧
      next.1 = .error (.truncated 1 0) ∧ 0 = next.2.remaining ∧
      run.2.consumedSince 1 = some [0x61] ∧ run.2.consumedSince 3 = none ∧
      Indexed.calls {} bs 0 ([.delimited] ++ [.varint]) = some (run.1, 2) := by
  intro bs run next
  obtain ⟨⟨hindexed, -⟩, -, -, -, -, htruncated, hsince, hbeyond⟩ :=
    calls_stay_in_range {} bs [.delimited] [.varint] (.skip ⟨3, .startGroup⟩)
  have hposition : run.2.position = 2 := by decide +kernel
  have hnext : next.1 = .error (.truncated 1 0) := by decide +kernel
  refine ⟨by decide +kernel, hposition, hnext, (htruncated _ _ hnext).2, ?_, ?_, ?_⟩
  · exact hsince.trans (by decide +kernel)
  · exact (hbeyond 3).2.2 (by decide +kernel)
  · rw [hindexed, hposition]

end Cursor
end WireFormat
