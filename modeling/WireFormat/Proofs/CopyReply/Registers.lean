/-
# Replies in registers

Replies are held in registers and changed by calls, one after the other. A call
gives its register a new reply or fails, and a call that fails changes nothing.
Entries come into a register in two ways only: they are parsed and pushed, under
the standard limits, or a decoder keeps them, under the limits of the call. All
others were in some register before.

So whatever the calls, every entry in a register is one complete entry of the
grammar, with groups nested no deeper than the largest limit in use; a reply can
be written, and reads back if no entry that was pushed stands under a field that
a reply knows.

Bytes are merged into a register as the reply that they decode to. If they do not
decode, the entries before the broken one leave no trace. This is so although a reply
is changed in place: a call made so leaves the registers as the call does.

Key definitions: `CopyReply.Call`, `CopyReply.Call.result`, `CopyReply.step`,
`CopyReply.run`, `CopyReply.stepInPlace`, `CopyReply.maxDepth`.
Key theorems: `CopyReply.origin_of_step`, `CopyReply.stepInPlace_eq`,
`CopyReply.forall_unknown_foldl`, `CopyReply.isEntry_of_run`, `CopyReply.foreign_of_run`,
`CopyReply.step_mergeBytes_of_ok`, `CopyReply.step_mergeBytes_of_error`.
-/
import Mathlib.Logic.Function.Basic
import WireFormat.Cursor
import WireFormat.Frame
import WireFormat.Proofs.CopyReply.Concatenation
import WireFormat.Proofs.CopyReply.Field
import WireFormat.Proofs.CopyReply.RoundTrip
import WireFormat.Proofs.Message.InPlace

namespace WireFormat
namespace CopyReply

open Grammar

/-! ### Calls -/

/-- A call on registers named by `ι`; it changes the register it names first. -/
inductive Call (ι : Type) where
  /-- A reply that holds nothing. -/
  | new (r : ι)
  /-- A reply that holds an index. -/
  | ofIndex (r : ι) (v : Int32)
  /-- A reply that holds a failure. -/
  | ofError (r : ι) (description : String)
  /-- The reply that tells a result. -/
  | ofResult (r : ι) (result : Except String Int32)
  /-- The reply of another register. -/
  | copy (r source : ι)
  | setIndex (r : ι) (v : Int32)
  | setError (r : ι) (description : String)
  | setErrorBytes (r : ι) (bs : Bytes)
  | clear (r : ι)
  | clearIndex (r : ι)
  | clearError (r : ι)
  | clearUnknown (r : ι)
  /-- One more entry that the reply does not know, parsed from bytes. -/
  | push (r : ι) (raw : Bytes)
  /-- What another register, or the same one, holds. -/
  | merge (r source : ι)
  /-- The payload of a key, read where a cursor stands. -/
  | mergeField (r : ι) (key : Key) (cursor : Cursor)
  /-- The reply that a byte string is. -/
  | decode (r : ι) (limits : Limits) (bs : Bytes)
  /-- What a byte string adds to the reply. -/
  | mergeBytes (r : ι) (limits : Limits) (bs : Bytes)
  /-- The reply in front of a stream. -/
  | takeFrame (r : ι) (limits : Limits) (stream : Bytes)

namespace Call

variable {ι : Type}

/-- The register that a call changes. -/
def register : Call ι → ι
  | new r | ofIndex r _ | ofError r _ | ofResult r _ | copy r _ | setIndex r _ | setError r _
  | setErrorBytes r _ | clear r | clearIndex r | clearError r | clearUnknown r | push r _
  | merge r _ | mergeField r _ _ | decode r _ _ | mergeBytes r _ _ | takeFrame r _ _ => r

/-- The reply that a call puts into its register, if it succeeds. -/
def result (s : ι → CopyReply) : Call ι → Except Error CopyReply
  | new _ => .ok {}
  | ofIndex _ v => .ok (.ofIndex v)
  | ofError _ description => .ok (.ofError description)
  | ofResult _ result => .ok (.ofResult result)
  | copy _ source => .ok (s source)
  | setIndex r v => .ok ((s r).setIndex v)
  | setError r description => .ok ((s r).setError description)
  | setErrorBytes r bs => (s r).setErrorBytes bs
  | clear r => .ok (s r).clear
  | clearIndex r => .ok (s r).clearIndex
  | clearError r => .ok (s r).clearError
  | clearUnknown r => .ok (s r).clearUnknown
  | push r raw => (Entry.parse raw).map (s r).addUnknown
  | merge r source => .ok ((s r).merge (s source))
  | mergeField r key cursor =>
    let handing := Message.mergeField (s r) key cursor
    handing.known.map fun _ => handing.message
  | decode _ limits bs => (Message.decode limits bs).result
  | mergeBytes r limits bs => (Message.mergeBytes limits (s r) bs).result
  | takeFrame _ limits stream => (Frame.take limits stream).1.result

/-- The most groups that a call lets an entry open at once. -/
def depth : Call ι → UInt32
  | decode _ limits _ | mergeBytes _ limits _ | takeFrame _ limits _ => limits.maxGroupDepth
  | _ => Limits.standard.maxGroupDepth

end Call

/-! ### What calls do to the entries of a reply -/

variable {ι : Type}

@[simp] theorem unknown_clearIndex (m : CopyReply) : m.clearIndex.unknown = m.unknown := by
  unfold clearIndex
  split <;> rfl

@[simp] theorem unknown_clearError (m : CopyReply) : m.clearError.unknown = m.unknown := by
  unfold clearError
  split <;> rfl

theorem unknown_ofResult (result : Except String Int32) :
    (ofResult result).unknown = [] := by
  cases result <;> rfl

theorem unknown_of_setErrorBytes {m m' : CopyReply} {bs : Bytes}
    (h : m.setErrorBytes bs = .ok m') : m'.unknown = m.unknown := by
  unfold setErrorBytes at h
  split at h
  · cases h
    rfl
  · cases h

theorem result_decode_of_takeFrame {limits : Limits} {stream : Bytes} {m : CopyReply}
    (h : (Frame.take limits stream : Report CopyReply × Bytes).1.result = .ok m) :
    ∃ body, (Message.decode limits body : Report CopyReply).result = .ok m := by
  unfold Frame.take at h
  split at h
  · cases h
  · next body _ _ =>
    refine ⟨body, ?_⟩
    simp only at h
    split at h <;> exact h

/-- Where an entry of the reply that a call gives comes from. -/
inductive Origin (s : ι → CopyReply) (call : Call ι) (entry : Entry) : Prop where
  /-- It was in a register before. -/
  | held (r : ι) : entry ∈ (s r).unknown → Origin s call entry
  /-- It was parsed and pushed. -/
  | pushed (r : ι) (raw : Bytes) : call = .push r raw → Entry.parse raw = .ok entry →
      Origin s call entry
  /-- A decoder kept it. -/
  | kept : Foreign entry → IsEntry call.depth.toNat entry → Origin s call entry

/-- Every entry of the reply that a call gives was held, pushed or kept. -/
theorem origin_of_result {s : ι → CopyReply} {call : Call ι} {m : CopyReply}
    (h : call.result s = .ok m) {entry : Entry} (hmem : entry ∈ m.unknown) :
    Origin s call entry := by
  cases call with
  | new r | ofIndex r v | ofError r description | clearUnknown r =>
    cases h
    cases hmem
  | ofResult r result =>
    cases h
    rw [unknown_ofResult] at hmem
    cases hmem
  | copy r source =>
    cases h
    exact .held source hmem
  | setIndex r v | setError r description | clear r =>
    cases h
    exact .held r hmem
  | setErrorBytes r bs =>
    rw [unknown_of_setErrorBytes h] at hmem
    exact .held r hmem
  | clearIndex r | clearError r =>
    cases h
    simp only [unknown_clearIndex, unknown_clearError] at hmem
    exact .held r hmem
  | push r raw =>
    rcases hp : Entry.parse raw with e | parsed
    · simp [Call.result, hp, Except.map] at h
    · simp only [Call.result, hp, Except.map, Except.ok.injEq] at h
      subst h
      rcases List.mem_append.1 hmem with hold | hnew
      · exact .held r hold
      · rw [List.mem_singleton.1 hnew]
        exact .pushed r raw rfl hp
  | merge r source =>
    cases h
    rcases List.mem_append.1 hmem with hleft | hright
    · exact .held r hleft
    · exact .held source hright
  | mergeField r key cursor =>
    rcases hknown : (Message.mergeField (s r) key cursor).known with e | known
    · simp [Call.result, hknown, Except.map] at h
    · simp only [Call.result, hknown, Except.map, Except.ok.injEq] at h
      rw [← h, unknown_mergeField] at hmem
      exact .held r hmem
  | decode r limits bs =>
    obtain ⟨hforeign, hentry⟩ := mem_unknown_of_decode h hmem
    exact .kept hforeign hentry
  | mergeBytes r limits bs =>
    simp only [Call.result, result_mergeBytes_eq] at h
    rcases hd : (Message.decode limits bs : Report CopyReply).result with e | decoded
    · simp [hd, Except.map] at h
    · simp only [hd, Except.map, Except.ok.injEq] at h
      subst h
      rcases List.mem_append.1 hmem with hold | hnew
      · exact .held r hold
      · obtain ⟨hforeign, hentry⟩ := mem_unknown_of_decode hd hnew
        exact .kept hforeign hentry
  | takeFrame r limits stream =>
    obtain ⟨body, hd⟩ := result_decode_of_takeFrame h
    obtain ⟨hforeign, hentry⟩ := mem_unknown_of_decode hd hmem
    exact .kept hforeign hentry

/-! ### Runs -/

/-- The most groups that any of the calls lets an entry open at once, and at
least as many as the standard limits do. -/
def maxDepth (calls : List (Call ι)) : UInt32 :=
  calls.foldr (fun call depth => max call.depth depth) Limits.standard.maxGroupDepth

theorem standard_le_maxDepth (calls : List (Call ι)) :
    Limits.standard.maxGroupDepth.toNat ≤ (maxDepth calls).toNat := by
  induction calls with
  | nil => exact Nat.le_refl _
  | cons call calls ih =>
    rw [maxDepth, List.foldr_cons, UInt32.toNat_max]
    exact Nat.le_trans ih (Nat.le_max_right _ _)

theorem depth_le_maxDepth {calls : List (Call ι)} {call : Call ι} (h : call ∈ calls) :
    call.depth.toNat ≤ (maxDepth calls).toNat := by
  induction calls with
  | nil => cases h
  | cons first calls ih =>
    rw [maxDepth, List.foldr_cons, UInt32.toNat_max]
    rcases List.mem_cons.1 h with rfl | h
    · exact Nat.le_max_left _ _
    · exact Nat.le_trans (ih h) (Nat.le_max_right _ _)

variable [DecidableEq ι]

/-- The registers after a call. -/
def step (s : ι → CopyReply) (call : Call ι) : ι → CopyReply :=
  match call.result s with
  | .ok m => Function.update s call.register m
  | .error _ => s

/-- The registers after calls, when they held nothing before. -/
def run (calls : List (Call ι)) : ι → CopyReply :=
  calls.foldl step fun _ => {}

theorem step_of_ok {s : ι → CopyReply} {call : Call ι} {m : CopyReply}
    (h : call.result s = .ok m) : step s call = Function.update s call.register m := by
  rw [step, h]

theorem step_of_error {s : ι → CopyReply} {call : Call ι} {e : Error}
    (h : call.result s = .error e) : step s call = s := by
  rw [step, h]

/-! ### Calls made in place -/

/-- The registers after a call made in place. A field and bytes are merged into the
reply of the register itself, which is left as it then is, and a byte string is decoded
into a new reply; any other call has its answer before it touches the register. -/
def stepInPlace (s : ι → CopyReply) : Call ι → Option (ι → CopyReply)
  | .mergeField r key cursor =>
    some (Function.update s r (Message.mergeField (s r) key cursor).message)
  | .mergeBytes r limits bs =>
    (Message.mergeBytesInPlace limits (s r) bs).map fun merging =>
      Function.update s r merging.message
  | .decode r limits bs =>
    (Message.mergeBytesInPlace limits Message.empty bs).map fun merging =>
      match merging.result with
      | .ok () => Function.update s r merging.message
      | .error _ => s
  | call => some (step s call)

/-- The registers after calls made in place, when they held nothing before. -/
def runInPlace (calls : List (Call ι)) : Option (ι → CopyReply) :=
  calls.foldlM stepInPlace fun _ => {}

/-- A call made in place leaves the registers as the call does. -/
theorem stepInPlace_eq (s : ι → CopyReply) (call : Call ι) :
    stepInPlace s call = some (step s call) := by
  cases call with
  | mergeField r key cursor =>
    rcases hknown : (Message.mergeField (s r) key cursor).known with e | known
    · have hstep : step s (.mergeField r key cursor) = s :=
        step_of_error (e := e) (by rw [Call.result, hknown]; rfl)
      rw [stepInPlace, (Message.mergeField_of_error hknown).1, Function.update_eq_self, hstep]
    · rw [stepInPlace, step_of_ok (by rw [Call.result, hknown]; rfl)]
      rfl
  | mergeBytes r limits bs =>
    rw [stepInPlace, Message.mergeBytesInPlace_eq, Option.map_some, step, Call.result]
    rcases (Message.mergeBytes limits (s r) bs).result with e | m
    · exact congrArg some (Function.update_eq_self r s)
    · rfl
  | decode r limits bs =>
    rw [stepInPlace, Message.mergeBytesInPlace_eq, Option.map_some, step, Call.result,
      Message.decode]
    rcases (Message.mergeBytes limits (Message.empty : CopyReply) bs).result with e | m <;> rfl
  | _ => rfl

theorem foldlM_stepInPlace (calls : List (Call ι)) (s : ι → CopyReply) :
    calls.foldlM stepInPlace s = some (calls.foldl step s) := by
  induction calls generalizing s with
  | nil => rfl
  | cons call calls ih =>
    rw [List.foldlM_cons, stepInPlace_eq, Option.bind_eq_bind, Option.bind_some, ih,
      List.foldl_cons]

/-! ### What registers hold -/

theorem origin_of_step {s : ι → CopyReply} {call : Call ι} {r : ι} {entry : Entry}
    (hmem : entry ∈ (step s call r).unknown) : Origin s call entry := by
  rcases hr : call.result s with e | m
  · rw [step_of_error hr] at hmem
    exact .held r hmem
  · rw [step_of_ok hr] at hmem
    by_cases hreg : r = call.register
    · rw [hreg, Function.update_self] at hmem
      exact origin_of_result hr hmem
    · rw [Function.update_of_ne hreg] at hmem
      exact .held r hmem

/-- What holds of all entries that are pushed or kept holds of all entries in
registers, after any calls. -/
theorem forall_unknown_foldl {P : Entry → Prop} {calls : List (Call ι)} {s : ι → CopyReply}
    (hs : ∀ r, ∀ entry ∈ (s r).unknown, P entry)
    (hpush : ∀ r raw entry, .push r raw ∈ calls → Entry.parse raw = .ok entry → P entry)
    (hkeep : ∀ call ∈ calls, ∀ entry, Foreign entry → IsEntry call.depth.toNat entry → P entry)
    (r : ι) : ∀ entry ∈ (calls.foldl step s r).unknown, P entry := by
  induction calls generalizing s with
  | nil => exact hs r
  | cons call calls ih =>
    refine ih (fun r' entry hmem => ?_)
      (fun r' raw entry h => hpush r' raw entry (List.mem_cons_of_mem _ h))
      (fun call' h => hkeep call' (List.mem_cons_of_mem _ h))
    cases origin_of_step hmem with
    | held r'' h => exact hs r'' entry h
    | pushed r'' raw hcall hparse =>
      exact hpush r'' raw entry (hcall ▸ List.mem_cons_self) hparse
    | kept hforeign hentry => exact hkeep call List.mem_cons_self entry hforeign hentry

/-- After any calls, every entry in a register is one entry of the grammar. -/
theorem isEntry_of_run (calls : List (Call ι)) (r : ι) :
    ∀ entry ∈ (run calls r).unknown, IsEntry (maxDepth calls).toNat entry := by
  refine forall_unknown_foldl (fun r' entry h => by cases h) (fun r' raw entry _ hparse => ?_)
    (fun call hcall entry _ hentry => ?_) r
  · exact (Entry.parse_eq_ok_iff.1 hparse).2.mono (standard_le_maxDepth calls)
  · exact hentry.mono (depth_le_maxDepth hcall)

/-- After any calls, an entry stands under a field that a reply knows only if one
was pushed. -/
theorem foreign_of_run {calls : List (Call ι)}
    (hpush : ∀ r raw entry, .push r raw ∈ calls → Entry.parse raw = .ok entry → Foreign entry)
    (r : ι) : ∀ entry ∈ (run calls r).unknown, Foreign entry :=
  forall_unknown_foldl (fun r' entry h => by cases h) hpush (fun _ _ _ hforeign _ => hforeign) r

/-- **After any calls, every reply is whole.** The entries it does not know are each
one entry of the grammar, and it can be written; if none was pushed under a field that
a reply knows, it reads back. -/
theorem run_reply_whole (calls : List (Call ι)) (r : ι) :
    runInPlace calls = some (run calls) ∧
    (∀ entry ∈ (run calls r).unknown,
      (Entry.readWhole { maxGroupDepth := maxDepth calls }).run entry.raw = (.ok entry.key, []) ∧
      2 ≤ entry.raw.length ∧
      (1 ≤ entry.key.field.toNat ∧ entry.key.field.toNat ≤ 536870911) ∧
      entry.key.type ≠ .endGroup ∧
      IsEntry (maxDepth calls).toNat entry) ∧
    ∃ bs, Message.encode (run calls r) = .ok bs ∧
      ((∀ r' raw entry, .push r' raw ∈ calls → Entry.parse raw = .ok entry →
          entry.key.field ≠ indexField ∧ entry.key.field ≠ errorField) →
        (∀ entry ∈ (run calls r).unknown,
          entry.key.field ≠ indexField ∧ entry.key.field ≠ errorField) ∧
        ∀ limits : Limits, maxDepth calls ≤ limits.maxGroupDepth →
          Message.claimedLength (run calls r) ≤ limits.maxMessageLength.toNat →
          (Message.decode limits bs : Report CopyReply).result = .ok (run calls r)) := by
  have hentries := isEntry_of_run calls r
  refine ⟨foldlM_stepInPlace calls _, fun entry hmem => ?_, _, encode_eq _,
    fun hpush => ⟨foreign_of_run hpush r, ?_⟩⟩
  · have he := hentries entry hmem
    exact ⟨Entry.run_readWhole_eq_ok_iff.2 he, he.two_le_length, ⟨he.field_pos, he.field_le⟩,
      he.type_ne_endGroup, he⟩
  · intro limits hdepth hlen
    rw [claimedLength_eq] at hlen
    refine (result_decode_chunks_iff _ limits).2 ⟨hlen, fun entry hmem => ?_⟩
    exact ⟨foreign_of_run hpush r entry hmem, (hentries entry hmem).mono hdepth⟩

/-- An entry is pushed, a group and an index are decoded on top of it, a decoder
fails, and the reply is merged into another register: there it reads back. -/
theorem run_reply_whole_pushed :
    let calls : List (Call Bool) :=
      [.push true [0x9A, 0x06, 0x02, 0x68, 0x69],
        .mergeBytes true { maxGroupDepth := 200 } [0x08, 0x05, 0x1B, 0x1C],
        .decode true {} [0x08], .merge false true]
    (run calls false = ⟨.index 5, [⟨⟨99, .lengthDelimited⟩, [0x9A, 0x06, 0x02, 0x68, 0x69]⟩,
      ⟨⟨3, .startGroup⟩, [0x1B, 0x1C]⟩]⟩) ∧
    runInPlace calls = some (run calls) ∧
    ∃ bs, Message.encode (run calls false) = .ok bs ∧
      (Message.decode { maxGroupDepth := 200 } bs : Report CopyReply).result =
        .ok (run calls false) := by
  intro calls
  have hparse : Entry.parse [0x9A, 0x06, 0x02, 0x68, 0x69] =
      .ok ⟨⟨99, .lengthDelimited⟩, [0x9A, 0x06, 0x02, 0x68, 0x69]⟩ := by decide +kernel
  obtain ⟨hplace, -, bs, hbs, hback⟩ := run_reply_whole calls false
  refine ⟨by decide +kernel, hplace, bs, hbs, ?_⟩
  refine (hback fun r raw entry hmem hp => ?_).2 _ (by decide +kernel) (by decide +kernel)
  have hraw : raw = [0x9A, 0x06, 0x02, 0x68, 0x69] := by
    have h : r = true ∧ raw = [0x9A, 0x06, 0x02, 0x68, 0x69] := by simpa [calls] using hmem
    exact h.2
  rw [hraw, hparse] at hp
  cases hp
  decide

/-! ### Bytes merged into a register -/

section MergeBytes

variable {s : ι → CopyReply} {r : ι} {limits : Limits} {bs : Bytes}

/-- Bytes that decode are merged as the reply that they decode to. -/
theorem step_mergeBytes_of_ok {d : CopyReply}
    (h : (Message.decode limits bs : Report CopyReply).result = .ok d) :
    (Message.mergeBytes limits (s r) bs).result = .ok ((s r).merge d) ∧
      step s (.mergeBytes r limits bs) = Function.update s r ((s r).merge d) ∧
      Message.mergeBytesInPlace limits (s r) bs =
        some { result := .ok (), message := (s r).merge d
               events := (Message.mergeBytes limits (s r) bs).events } := by
  have hresult : (Message.mergeBytes limits (s r) bs).result = .ok ((s r).merge d) := by
    rw [result_mergeBytes_eq, h]
    rfl
  refine ⟨hresult, step_of_ok hresult, ?_⟩
  rw [Message.mergeBytesInPlace_eq, hresult]
  rfl

/-- Bytes that do not decode fail as decoding them does, and change nothing. -/
theorem step_mergeBytes_of_error {e : Error}
    (h : (Message.decode limits bs : Report CopyReply).result = .error e) :
    (Message.mergeBytes limits (s r) bs).result = .error e ∧
      step s (.mergeBytes r limits bs) = s ∧
      Message.mergeBytesInPlace limits (s r) bs =
        some { result := .error e, message := s r
               events := (Message.mergeBytes limits (s r) bs).events } := by
  have hresult : (Message.mergeBytes limits (s r) bs).result = .error e := by
    rw [result_mergeBytes_eq, h]
    rfl
  refine ⟨hresult, step_of_error hresult, ?_⟩
  rw [Message.mergeBytesInPlace_eq, hresult]
  rfl

end MergeBytes

/-- **Merging bytes is decoding and then merging, all or nothing.** It succeeds exactly
if decoding does, and otherwise fails with its error and every register holds what it
held, also when the entries before the broken one were merged into a copy. -/
theorem step_mergeBytes_all_or_nothing (s : ι → CopyReply) (r : ι) (limits : Limits)
    (bs : Bytes) :
    ((∃ m, (Message.mergeBytes limits (s r) bs).result = .ok m) ↔
      ∃ d, (Message.decode limits bs : Report CopyReply).result = .ok d) ∧
    (∀ d, (Message.decode limits bs : Report CopyReply).result = .ok d →
      (Message.mergeBytes limits (s r) bs).result = .ok ((s r).merge d) ∧
      step s (.mergeBytes r limits bs) = Function.update s r ((s r).merge d) ∧
      Message.mergeBytesInPlace limits (s r) bs =
        some { result := .ok (), message := (s r).merge d
               events := (Message.mergeBytes limits (s r) bs).events }) ∧
    (∀ e, (Message.decode limits bs : Report CopyReply).result = .error e →
      (Message.mergeBytes limits (s r) bs).result = .error e ∧
      step s (.mergeBytes r limits bs) = s ∧
      Message.mergeBytesInPlace limits (s r) bs =
        some { result := .error e, message := s r
               events := (Message.mergeBytes limits (s r) bs).events }) ∧
    stepInPlace s (.mergeBytes r limits bs) = some (step s (.mergeBytes r limits bs)) ∧
    ∀ (valid : Bytes) (a : CopyReply) (e : Error),
      (valid ++ bs).length ≤ limits.maxMessageLength.toNat →
      (Message.decode limits valid : Report CopyReply).result = .ok a →
      (Message.decode limits bs : Report CopyReply).result = .error e →
      (Message.mergeBytes limits (s r) (valid ++ bs)).result = .error e ∧
      step s (.mergeBytes r limits (valid ++ bs)) = s ∧
      Message.mergeBytesInPlace limits (s r) (valid ++ bs) =
        some { result := .error e, message := s r
               events := (Message.mergeBytes limits (s r) (valid ++ bs)).events } := by
  refine ⟨⟨fun hx => ?_, fun hx => ?_⟩, fun d => step_mergeBytes_of_ok,
    fun e => step_mergeBytes_of_error, stepInPlace_eq s _, fun valid a e hlen hvalid hbs => ?_⟩
  · obtain ⟨m, hm⟩ := hx
    rcases hd : (Message.decode limits bs : Report CopyReply).result with e | d
    · rw [(step_mergeBytes_of_error (s := s) hd).1] at hm
      cases hm
    · exact ⟨d, rfl⟩
  · obtain ⟨d, hd⟩ := hx
    exact ⟨_, (step_mergeBytes_of_ok (s := s) hd).1⟩
  · apply step_mergeBytes_of_error
    rw [result_decode_append hlen hvalid, hbs]
    rfl

/-- A reply with an entry takes an index and another entry from bytes. Before a text
that is cut off the same bytes change the copy, but not the reply. -/
theorem step_mergeBytes_cut_off :
    let m : CopyReply := { outcome := .error "e", unknown := [⟨⟨4, .startGroup⟩, [0x23, 0x24]⟩] }
    let merged : CopyReply :=
      { outcome := .index 5
        unknown := [⟨⟨4, .startGroup⟩, [0x23, 0x24]⟩, ⟨⟨3, .varint⟩, [0x18, 0x07]⟩] }
    let valid : Bytes := [0x08, 0x05, 0x18, 0x07]
    let cut : Bytes := valid ++ [0x12, 0x05, 0x61]
    step (fun _ : Unit => m) (.mergeBytes () {} valid) =
        Function.update (fun _ => m) () merged ∧
      (Message.mergeBytes {} m cut).result = .error (.truncated 5 1) ∧
      step (fun _ : Unit => m) (.mergeBytes () {} cut) = (fun _ => m) ∧
      (Message.InPlace.mergeEntries {} ⟨m, .ofBytes cut, []⟩).map (·.2.message) = some merged ∧
      (Message.mergeBytesInPlace {} m cut).map (·.message) = some m := by
  intro m merged valid cut
  have hvalid : (Message.decode {} valid : Report CopyReply).result =
      .ok { outcome := .index 5, unknown := [⟨⟨3, .varint⟩, [0x18, 0x07]⟩] } := by
    decide +kernel
  have hcut : (Message.decode {} [0x12, 0x05, 0x61] : Report CopyReply).result =
      .error (.truncated 5 1) := by decide +kernel
  obtain ⟨-, hok, -⟩ := step_mergeBytes_all_or_nothing (fun _ : Unit => m) () {} valid
  obtain ⟨-, -, -, -, hbefore⟩ :=
    step_mergeBytes_all_or_nothing (fun _ : Unit => m) () {} [0x12, 0x05, 0x61]
  obtain ⟨hresult, hstep, hplace⟩ := hbefore valid _ _ (by decide) hvalid hcut
  refine ⟨(hok _ hvalid).2.1, hresult, hstep, by decide +kernel, ?_⟩
  exact congrArg (Option.map (·.message)) hplace

end CopyReply
end WireFormat
