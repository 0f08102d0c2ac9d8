/-
# Nesting and a stack come to the same

A payload is passed over by a recursion that goes one level down with each group,
or by one scan that keeps the fields of the open groups on a stack. The two read
the same bytes and find the same errors, on every input: the loop of a group is
what the scan does until the field of the group is off the stack, and a payload
inside the group leaves the stack as it was.

The recursion knows how deep it is by a count in 32 bits. The count is the height
of the stack at every call, and it is raised only where it is below the limit, so
it never overflows. This is said by a recursion that carries both and raises an
alarm when they differ or when the count cannot be raised: whatever the alarm is,
it does what the recursion without it does.

Key definitions: `Skip.Counted.field`.
Key theorems: `Skip.Scan.close_cons`, `Skip.Scan.step_bind_close`,
`Skip.field_eq_scan`, `Skip.Counted.field_eq`.
-/
import Mathlib.Order.Basic
import WireFormat.Cursor
import WireFormat.Limits
import WireFormat.Skip.Scan

namespace WireFormat

theorem Reader.seqRight_pure_bind {α β γ : Type} (r : Reader α) (b : β) (f : β → Reader γ) :
    (r *> pure b) >>= f = discard r >>= fun _ => f b := by
  simp [seqRight_eq_bind, discard, LawfulFunctor.map_const]

namespace Skip

open Reader

/-! ### The scan follows the recursion -/

namespace Scan

variable {limit : Nat} {opened : List UInt32}

theorem close_nil : close limit [] = pure () := by
  ext bs : 2
  exact run_close_nil limit bs

/-- Passing over a payload and closing the open groups is scanning, if this is so
of a group that may stand in its place. -/
theorem step_bind_close_of_group {key : Key} (hkey : key.type ≠ .endGroup)
    (hg : opened.length < limit → close limit (key.field :: opened) =
      group limit (limit - opened.length) key.field >>= fun _ => close limit opened) :
    step limit opened key >>= close limit =
      payload (group limit (limit - opened.length)) key >>= fun _ => close limit opened := by
  unfold step payload
  cases htype : key.type with
  | varint | fixed64 | lengthDelimited | fixed32 => exact seqRight_pure_bind _ _ _
  | startGroup =>
    by_cases hroom : opened.length < limit
    · simp only [if_pos hroom, pure_bind]
      exact hg hroom
    · have hnone : limit - opened.length = 0 := by omega
      simp only [if_neg hroom, hnone]
      rfl
  | endGroup => exact absurd htype hkey

/-- The scan of an open group goes on as the loop of the group does, if payloads
inside the group leave the stack as it is. -/
theorem run_close_cons_of_payload {budget : Nat} {f : UInt32}
    (hpayload : ∀ key : Key, key.type ≠ .endGroup →
      step limit (f :: opened) key >>= close limit =
        payload (group limit budget) key >>= fun _ => close limit (f :: opened))
    (bs : Bytes) :
    (close limit (f :: opened)).run bs =
      (group limit (budget + 1) f >>= fun _ => close limit opened).run bs := by
  rw [run_close_cons, round, bind_assoc, run_bind, run_bind, run_group_succ, groupRound, run_bind]
  rcases hk : Key.read.run bs with ⟨e | key, mid⟩
  · rfl
  · by_cases hend : key.type = .endGroup
    · by_cases hf : key.field = f
      · simp [step, hend, hf]
      · simp [step, hend, hf, run_bind]
    · simp only [hpayload key hend, if_neg hend, run_bind]
      rcases hp : (payload (group limit budget) key).run mid with ⟨e | _, rest⟩
      · rfl
      · have hmid : mid.length < bs.length := Key.consumes_read bs key mid hk
        have hrest : rest.length ≤ mid.length := by
          have := (payload (group limit budget) key).rest_length_le mid
          rwa [hp] at this
        exact run_close_cons_of_payload hpayload rest
termination_by bs.length

/-- The scan of an open group is the loop of the group, then the scan of the groups
around it. -/
theorem close_cons (f : UInt32) (hroom : opened.length < limit) :
    close limit (f :: opened) =
      group limit (limit - opened.length) f >>= fun _ => close limit opened := by
  -- on the number of groups that may still be opened
  induction hbudget : limit - opened.length generalizing opened f with
  | zero => omega
  | succ budget ih =>
    have hinner : limit - (f :: opened).length = budget := by
      rw [List.length_cons]
      omega
    ext bs : 2
    refine run_close_cons_of_payload (fun key hkey => ?_) bs
    rw [← hinner]
    refine step_bind_close_of_group hkey fun hmore => ?_
    rw [hinner]
    exact ih key.field hmore hinner

/-- Passing over a payload and closing the open groups is scanning. -/
theorem step_bind_close {key : Key} (hkey : key.type ≠ .endGroup) :
    step limit opened key >>= close limit =
      payload (group limit (limit - opened.length)) key >>= fun _ => close limit opened :=
  step_bind_close_of_group hkey (close_cons key.field)

end Scan

/-- A payload is passed over by nesting and by a stack in the same way. -/
theorem field_eq_scan (limit : Nat) (key : Key) : field limit key = Scan.field limit key := by
  by_cases hend : key.type = .endGroup
  · ext bs : 2
    simp [field, payload, Scan.field, Scan.step, hend, run_bind]
  · rw [Scan.field, Scan.step_bind_close hend, Scan.close_nil]
    exact (bind_pure _).symm

/-! ### The count of the depth -/

namespace Counted

theorem toNat_add_one {depth limit : UInt32} (h : depth < limit) :
    (depth + 1).toNat = depth.toNat + 1 := by
  have hlt := UInt32.lt_iff_toNat_lt.1 h
  have hmax := limit.toNat_lt
  rw [UInt32.toNat_add]
  exact Nat.mod_eq_of_lt (show depth.toNat + 1 < 2 ^ 32 by omega)

/-- Passes over the payload of a key at a depth that is counted in 32 bits, with
the fields of the groups that are open there. If the count is not their number, or
has to be raised and cannot be, that is the alarm. -/
def field (alarm : Error) (limit depth : UInt32) (opened : List UInt32) (key : Key) :
    Reader Unit :=
  if depth.toNat = opened.length then
    payload (fun f =>
      if depth < limit then
        if depth.toNat + 1 < UInt32.size then
          Reader.untilSome (groupRound (field alarm limit (depth + 1) (f :: opened)) f)
            (consumes_groupRound _ _)
        else Reader.fail alarm
      else Reader.fail (.malformed (.groupsTooDeep limit.toNat))) key
  else Reader.fail alarm
termination_by limit.toNat - depth.toNat
decreasing_by
  rename_i h _
  have hlt := UInt32.lt_iff_toNat_lt.1 h
  rw [toNat_add_one h]
  omega

/-- The alarm is never raised: the count is the number of open groups at every
call, and below the limit it can be raised. -/
theorem field_eq (alarm : Error) (limit depth : UInt32) (opened : List UInt32) (key : Key)
    (hdepth : depth.toNat = opened.length) :
    field alarm limit depth opened key =
      payload (group limit.toNat (limit.toNat - opened.length)) key := by
  induction hbudget : limit.toNat - opened.length generalizing depth opened key with
  | zero =>
    have hfull : ¬ depth < limit := by
      rw [UInt32.lt_iff_toNat_lt]
      omega
    rw [field, if_pos hdepth]
    simp only [if_neg hfull]
    rfl
  | succ budget ih =>
    have hroom : depth < limit := by
      rw [UInt32.lt_iff_toNat_lt]
      omega
    have hraised : depth.toNat + 1 < UInt32.size := by
      rw [← toNat_add_one hroom]
      exact (depth + 1).toNat_lt
    have hinner : ∀ f, field alarm limit (depth + 1) (f :: opened) =
        payload (group limit.toNat budget) := by
      intro f
      funext inner
      refine ih (depth + 1) (f :: opened) inner ?_ ?_
      · rw [toNat_add_one hroom, hdepth, List.length_cons]
      · rw [List.length_cons]
        omega
    rw [field, if_pos hdepth]
    simp only [if_pos hroom, if_pos hraised, hinner]
    rfl

end Counted

/-- **Nesting and a stack come to the same.** Passing over a payload gives the result
and leaves the place of the scan with a stack, and the depth that is counted is the
height of the stack at every call. -/
theorem skip_eq_stack_scan (limits : Limits) (key : Key) :
    (∀ c : Cursor, c.run (field limits.maxGroupDepth.toNat key) =
      c.run (Scan.field limits.maxGroupDepth.toNat key)) ∧
    (∀ (top : UInt32) (outer : List UInt32),
      (Scan.close limits.maxGroupDepth.toNat (top :: outer)).run [] =
        (.error (.truncated 1 0), [])) ∧
    ∀ alarm : Error,
      Counted.field alarm limits.maxGroupDepth 0 [] key =
        field limits.maxGroupDepth.toNat key ∧
      ∀ (depth : UInt32) (opened : List UInt32), depth.toNat = opened.length →
        key.type ≠ .endGroup →
        Scan.step limits.maxGroupDepth.toNat opened key >>=
            Scan.close limits.maxGroupDepth.toNat =
          Counted.field alarm limits.maxGroupDepth depth opened key >>= fun _ =>
            Scan.close limits.maxGroupDepth.toNat opened := by
  refine ⟨fun c => ?_, fun top outer => ?_, fun alarm => ⟨?_, fun depth opened hdepth hkey => ?_⟩⟩
  · rw [field_eq_scan]
  · rw [Scan.run_close_cons]
    rfl
  · exact Counted.field_eq alarm limits.maxGroupDepth 0 [] key rfl
  · rw [Counted.field_eq alarm limits.maxGroupDepth depth opened key hdepth]
    exact Scan.step_bind_close hkey

/-- A group inside a group from the second byte on, with the largest limit there is, and
the inner one at depth 1. -/
theorem skip_eq_stack_scan_nested :
    let limits : Limits := { maxGroupDepth := 4294967295 }
    let c : Cursor := ⟨[0x1B], [0x23, 0x24, 0x1C, 0x08]⟩
    c.run (field limits.maxGroupDepth.toNat ⟨3, .startGroup⟩) =
      (.ok (), ⟨[0x1B, 0x23, 0x24, 0x1C], [0x08]⟩) ∧
    ∀ alarm : Error,
      Scan.step limits.maxGroupDepth.toNat [3] ⟨4, .startGroup⟩ >>=
          Scan.close limits.maxGroupDepth.toNat =
        Counted.field alarm limits.maxGroupDepth 1 [3] ⟨4, .startGroup⟩ >>= fun _ =>
          Scan.close limits.maxGroupDepth.toNat [3] := by
  intro limits c
  have hscan : c.run (Scan.field limits.maxGroupDepth.toNat ⟨3, .startGroup⟩) =
      (.ok (), ⟨[0x1B, 0x23, 0x24, 0x1C], [0x08]⟩) := by decide +kernel
  refine ⟨((skip_eq_stack_scan limits ⟨3, .startGroup⟩).1 c).trans hscan, fun alarm => ?_⟩
  exact ((skip_eq_stack_scan limits ⟨4, .startGroup⟩).2.2 alarm).2 1 [3] rfl (by decide)

end Skip
end WireFormat
