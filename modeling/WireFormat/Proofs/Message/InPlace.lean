/-
# Merging in place

A message can also be changed while its bytes are read: a key is read, the field is
handed to the message, and only if the message does not know it the payload is passed
over and the bytes since the key are cut out and kept. A failure in the middle then
finds the message with the entries before it already merged. To be left as it was, a
message is copied first; the entries are merged into the copy, and the message becomes
the copy only when all of them could be read.

Here the copy is part of the state of the loop, and a failure keeps it. A round of the
loop does to it what merging an entry does, so the loop stops where a pass over the
entries stops, with the same outcome and the same events. The loop looks at every
place it cuts at, and whether each round took a byte; were it not so, it would have no
outcome at all.

Key definitions: `Message.Work`, `Message.InPlace`, `Message.InPlace.round`,
`Message.InPlace.mergeEntries`, `Message.mergeBytesInPlace`.
Key theorems: `Message.InPlace.round_eq`, `Message.InPlace.exists_mergeEntries`,
`Message.mergeBytesInPlace_eq`.
-/
import WireFormat.Message
import WireFormat.Proofs.Cursor.Indexed

namespace WireFormat

variable {α β : Type}

/-! ### What a cursor took -/

namespace Cursor

theorem run_captured (c : Cursor) (r : Reader α) :
    c.run r.captured =
      match c.run r with
      | (.ok a, c') => (.ok (a, c'.consumed.drop c.position), c')
      | (.error e, c') => (.error e, c') := by
  obtain ⟨x, used, rest, hunread, hrun, hc⟩ := c.exists_used r
  rw [hc]
  cases x with
  | error e => exact run_of_append hunread (by simp [Reader.captured, hrun])
  | ok a =>
    have hcaptured : r.captured.run c.unread = (.ok (a, used), rest) :=
      Reader.run_captured_eq_ok_iff.2 ⟨hrun, hunread⟩
    rw [run_of_append hunread hcaptured]
    simp [position]

end Cursor

namespace Message

variable [Message α]

/-! ### The loop -/

/-- What merging in place works on: a copy of a message, the place it reads at, and
what happened so far. -/
structure Work (α : Type) where
  message : α
  cursor : Cursor
  events : List Event

/-- A computation that changes its work as it goes, also when it fails. It has no
outcome if it cuts where it has not been. -/
abbrev InPlace (α : Type) := Ranged (Work α)

namespace InPlace

/-- Where reading goes on. -/
def position : InPlace α Nat := fun w => some (.ok w.cursor.position, w)

/-- Runs a reader. -/
def read (r : Reader β) : InPlace α β := fun w =>
  let (result, cursor) := w.cursor.run r
  some (result, { w with cursor })

/-- Hands the field of a key to the message. -/
def handField (key : Key) : InPlace α Bool := fun w =>
  let handing := mergeField w.message key w.cursor
  some (handing.known,
    { message := handing.message, cursor := handing.cursor, events := w.events ++ handing.events })

/-- Keeps what was read since `start` as an entry of the message. -/
def keepSince (start : Nat) (key : Key) : InPlace α Unit := fun w =>
  (w.cursor.consumedSince start).map fun raw =>
    (.ok (), { w with message := keep w.message ⟨key, raw⟩, events := w.events ++ [.kept key] })

/-- Merges the next entry. -/
def round (limits : Limits) : InPlace α Unit := do
  let start ← position
  let key ← read Key.read
  if ← handField key then
    return ()
  else
    read (Skip.field limits.maxGroupDepth.toNat key)
    keepSince start key

/-- Merges entries until nothing is left. There is no outcome if a round takes nothing. -/
def mergeEntries (limits : Limits) : InPlace α Unit := fun w =>
  if w.cursor.remaining = 0 then some (.ok (), w)
  else
    match round limits w with
    | none => none
    | some (.error e, w') => some (.error e, w')
    | some (.ok (), w') =>
      if w'.cursor.remaining < w.cursor.remaining then mergeEntries limits w' else none
termination_by w => w.cursor.remaining

/-- A round merges the next entry into the copy; if there is none to read, the copy
keeps what was merged before. -/
theorem round_eq (limits : Limits) (w : Work α) :
    round limits w =
      match w.cursor.run (mergeEntry limits w.message) with
      | (.ok (m, events), c) => some (.ok (), ⟨m, c, w.events ++ events⟩)
      | (.error e, c) => some (.error e, ⟨w.message, c, w.events⟩) := by
  obtain ⟨m, c, events⟩ := w
  have hkey := c.position_le_run Key.read
  simp only [mergeEntry, Cursor.run_captured, readEntry, Cursor.run_bind]
  simp only [round, Ranged.run_bind, position, read, handField, mergeField]
  rcases hkeyRun : c.run Key.read with ⟨e | key, c₁⟩
  · rfl
  · have hskip := c₁.position_le_run (Skip.field limits.maxGroupDepth.toNat key)
    rw [hkeyRun] at hkey
    simp only
    rcases known? m key with _ | payload
    · simp only [Bool.false_eq_true, if_false, Ranged.run_bind, read, Cursor.run_bind,
        Cursor.run_pure]
      rcases hskipRun : c₁.run (Skip.field limits.maxGroupDepth.toNat key) with ⟨e | _, c₂⟩
      · simp
      · -- the place before the key has been passed, so there are bytes to cut out
        rw [hskipRun] at hskip
        have hsince : c₂.consumedSince c.position = some (c₂.consumed.drop c.position) :=
          if_pos (Nat.le_trans hkey hskip)
        simp [keepSince, hsince, Cursor.run_pure]
    · simp only [Cursor.run_bind]
      rcases c₁.run payload with ⟨e | ⟨m', events'⟩, c₂⟩
      · simp
      · simp only [Cursor.run_pure, if_true]
        rfl

variable {limits : Limits} {w w' : Work α}

theorem mergeEntries_of_end (h : w.cursor.unread = []) :
    mergeEntries limits w = some (.ok (), w) := by
  rw [mergeEntries, if_pos (by rw [Cursor.remaining, h]; rfl)]

theorem mergeEntries_of_ok (h : round limits w = some (.ok (), w'))
    (hlt : w'.cursor.remaining < w.cursor.remaining) :
    mergeEntries limits w = mergeEntries limits w' := by
  rw [mergeEntries, if_neg (by omega), h]
  exact if_pos hlt

theorem mergeEntries_of_error {e : Error} (hne : w.cursor.unread ≠ [])
    (h : round limits w = some (.error e, w')) :
    mergeEntries limits w = some (.error e, w') := by
  have hpos : w.cursor.remaining ≠ 0 := mt List.length_eq_zero_iff.1 hne
  rw [mergeEntries, if_neg hpos, h]

/-- The loop goes as a pass over the entries goes; if that succeeds, the copy is then
its message. -/
theorem exists_mergeEntries (limits : Limits) (m : α) (c : Cursor) (events : List Event) :
    let pass := Message.mergeEntries limits m c.unread
    ∃ copy : Work α,
      mergeEntries limits ⟨m, c, events⟩ = some (pass.result.map fun _ => (), copy) ∧
      (∀ m', pass.result = .ok m' → copy.message = m') ∧
      copy.events = events ++ pass.events ∧
      copy.cursor.bytes = c.bytes ∧ copy.cursor.unread = pass.unread := by
  intro pass
  by_cases hend : c.unread = []
  · have hpass : pass = ⟨.ok m, [], []⟩ := by
      show Message.mergeEntries limits m c.unread = _
      rw [hend, Message.mergeEntries_nil]
    rw [hpass]
    exact ⟨⟨m, c, events⟩, mergeEntries_of_end hend, fun m' hm => Except.ok.inj hm,
      (List.append_nil _).symm, rfl, hend⟩
  · have hround := round_eq limits ⟨m, c, events⟩
    have hbytes := c.bytes_run (mergeEntry limits m)
    obtain ⟨x, used, rest, -, hrun, hc⟩ := c.exists_used (mergeEntry limits m)
    rw [hc] at hround hbytes
    rcases x with e | ⟨m', more⟩
    · have hpass : pass = ⟨.error e, rest, []⟩ := Message.mergeEntries_of_error hend hrun
      rw [hpass]
      exact ⟨_, mergeEntries_of_error hend hround, nofun, (List.append_nil _).symm, hbytes, rfl⟩
    · have hlt : rest.length < c.unread.length := consumes_mergeEntry limits m _ _ rest hrun
      have hpass : pass = { Message.mergeEntries limits m' rest with
          events := more ++ (Message.mergeEntries limits m' rest).events } :=
        Message.mergeEntries_of_ok hrun
      obtain ⟨copy, hloop, hmessage, hevents, hsame, hunread⟩ :=
        exists_mergeEntries limits m' ⟨c.consumed ++ used, rest⟩ (events ++ more)
      rw [hpass]
      refine ⟨copy, (mergeEntries_of_ok hround hlt).trans hloop, hmessage, ?_,
        hsame.trans hbytes, hunread⟩
      rw [hevents, List.append_assoc]
termination_by c.unread.length

end InPlace

/-! ### A copy, and then the message -/

/-- What came of merging bytes into a message in place: the message is what it is
now, whatever the result. -/
structure Merging (α : Type) where
  result : Except Error Unit
  message : α
  events : List Event

/-- Decodes a byte string into `m` in place: the entries are merged into a copy, and
`m` becomes the copy if all of them could be. -/
def mergeBytesInPlace (limits : Limits) (m : α) (bs : Bytes) : Option (Merging α) :=
  match limits.checkLength bs.length with
  | .error e => some { result := .error e, message := m, events := [] }
  | .ok () =>
    (InPlace.mergeEntries limits { message := m, cursor := .ofBytes bs, events := [] }).map fun
      | (.ok (), copy) => { result := .ok (), message := copy.message, events := copy.events }
      | (.error e, copy) =>
        { result := .error e, message := m
          events := copy.events ++ [.failed copy.cursor.position e] }

/-- Merging in place gives the result and the events of decoding on top of the message,
and leaves what that gives, or else the message. -/
theorem mergeBytesInPlace_eq (limits : Limits) (m : α) (bs : Bytes) :
    mergeBytesInPlace limits m bs =
      some { result := (mergeBytes limits m bs).result.map fun _ => ()
             message := ((mergeBytes limits m bs).result.toOption).getD m
             events := (mergeBytes limits m bs).events } := by
  unfold mergeBytesInPlace mergeBytes
  rcases limits.checkLength bs.length with e | _
  · rfl
  · obtain ⟨copy, hloop, hmessage, hevents, hbytes, hunread⟩ :=
      InPlace.exists_mergeEntries limits m (.ofBytes bs) []
    have hpass : mergeEntries limits m bs = mergeEntries limits m (Cursor.ofBytes bs).unread := rfl
    have hposition : copy.cursor.position =
        bs.length - (mergeEntries limits m bs).unread.length := by
      have hlength : copy.cursor.bytes.length = bs.length := congrArg List.length hbytes
      have hremaining : copy.cursor.remaining = (mergeEntries limits m bs).unread.length :=
        congrArg List.length hunread
      have hle := copy.cursor.position_le_length
      have hsub := copy.cursor.length_sub_position
      omega
    simp only [hloop, Option.map_some]
    simp only [← hpass] at hmessage hevents ⊢
    rw [List.nil_append] at hevents
    rcases hresult : (mergeEntries limits m bs).result with e | m'
    · simp only [Except.map, hevents, hposition]
      rfl
    · simp only [Except.map, hevents, hmessage m' hresult]
      rfl

end Message
end WireFormat
