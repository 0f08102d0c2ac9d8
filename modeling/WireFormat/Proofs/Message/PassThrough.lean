/-
# Messages that pass everything on

A message that knows no field keeps every entry it is given, so decoding it is
reading entries until nothing is left. What is read to the end is tiled by its
entries: each is one complete entry of the grammar, and their bytes, in order,
are the byte string. A message that is written as the entries it keeps is
therefore written as the bytes it was decoded from, whatever padding or nesting
these have. Relays are such messages.

Key definitions: `Entry.readAll`, `Message.PassesThrough`.
Key theorems: `Entry.result_readAll_eq_ok_iff`, `Message.mergeEntry_eq_keep`,
`Message.result_decode_eq_ok_iff_readAll`, `Relay.passesThrough`,
`Relay.result_decode_eq_ok_iff`.
-/
import WireFormat.Proofs.Entry.WellFormed
import WireFormat.Relay

namespace WireFormat
namespace Entry

open Grammar

/-! ### The entries of a byte string -/

/-- The entries of a byte string, up to its end or to one that cannot be read. -/
def readAll (limits : Limits) (bs : Bytes) : Reader.Items Entry :=
  (read limits).items (consumes_read limits) bs

theorem accepts_read (limits : Limits) : (read limits).Accepts fun used entry =>
    used = entry.raw ∧ IsEntry limits.maxGroupDepth.toNat entry := by
  intro bs entry rest
  rw [run_entry_eq_ok_iff]
  simp

theorem forall₂_raw_iff {P : Entry → Prop} {pieces : List Bytes} {entries : List Entry} :
    List.Forall₂ (fun used entry => used = entry.raw ∧ P entry) pieces entries ↔
      pieces = entries.map Entry.raw ∧ ∀ entry ∈ entries, P entry := by
  induction entries generalizing pieces with
  | nil => simp
  | cons entry entries ih =>
    cases pieces with
    | nil => simp
    | cons piece pieces =>
      rw [List.forall₂_cons, ih]
      simp only [List.map_cons, List.cons.injEq, List.forall_mem_cons]
      tauto

/-- Entries are read to the end of a byte string exactly if they tile it. -/
theorem result_readAll_eq_ok_iff {limits : Limits} {bs : Bytes} {entries : List Entry} :
    (readAll limits bs).result = .ok entries ↔
      (entries.map Entry.raw).flatten = bs ∧
        ∀ entry ∈ entries, IsEntry limits.maxGroupDepth.toNat entry := by
  rw [Reader.Items.result_eq_ok_iff, readAll, Reader.items_eq_complete_iff (accepts_read limits)]
  simp only [forall₂_raw_iff]
  refine ⟨fun hx => ?_, fun hx => ?_⟩
  · obtain ⟨_, hflat, rfl, hentries⟩ := hx
    exact ⟨hflat, hentries⟩
  · obtain ⟨hflat, hentries⟩ := hx
    exact ⟨_, hflat, rfl, hentries⟩

theorem two_mul_length_le {depth : Nat} {entries : List Entry}
    (h : ∀ entry ∈ entries, IsEntry depth entry) :
    2 * entries.length ≤ (entries.map Entry.raw).flatten.length := by
  induction entries with
  | nil => simp
  | cons entry entries ih =>
    have hhead := (h entry List.mem_cons_self).two_le_length
    have htail := ih fun e he => h e (List.mem_cons_of_mem _ he)
    simp only [List.map_cons, List.flatten_cons, List.length_append, List.length_cons]
    omega

end Entry

namespace Message

open Grammar

variable {α : Type} [Message α]

/-! ### Messages that know no field -/

/-- A message that knows no field keeps the next entry, whichever it is. -/
theorem mergeEntry_eq_keep (hnone : ∀ (m : α) (key : Key), known? m key = none)
    (limits : Limits) (m : α) :
    mergeEntry limits m =
      (fun entry => (keep m entry, [.kept entry.key])) <$> Entry.read limits := by
  -- no key has a reader, so the payload of every key is passed over
  have hread : readEntry limits m = Reading.skipped <$> Entry.readKey limits := by
    unfold readEntry Entry.readKey
    simp only [hnone, map_bind, map_pure]
  ext bs : 2
  unfold mergeEntry Entry.read
  rw [hread, map_bind, Reader.run_bind, Reader.run_bind]
  simp only [Reader.captured, Reader.run_map]
  rcases (Entry.readKey limits).run bs with ⟨e | key, rest⟩ <;> rfl

/-- A message that knows no field decodes to the entries of a byte string, kept
one after the other. -/
theorem result_decode_eq_ok_iff_readAll (hnone : ∀ (m : α) (key : Key), known? m key = none)
    {limits : Limits} {bs : Bytes} {m : α} :
    (decode limits bs : Report α).result = .ok m ↔
      bs.length ≤ limits.maxMessageLength.toNat ∧
        ∃ entries, (Entry.readAll limits bs).result = .ok entries ∧
          m = entries.foldl keep empty :=
  result_decode_eq_ok_iff_items (Entry.consumes_read limits) (mergeEntry_eq_keep hnone limits)

/-! ### Messages written as what they keep -/

/-- The messages of a type know no field and are written as the entries they
keep, which `entries` gives. Only a message that was made by keeping entries has
to claim their length. -/
structure PassesThrough (entries : α → List Entry) : Prop where
  known?_eq_none (m : α) (key : Key) : known? m key = none
  entries_empty : entries empty = []
  entries_keep (m : α) (entry : Entry) : entries (keep m entry) = entries m ++ [entry]
  chunks_eq (m : α) : chunks m = (entries m).map Entry.raw
  claimedLength_foldl (kept : List Entry) :
    claimedLength (kept.foldl keep (empty : α)) = Entry.totalLength kept

variable {entries : α → List Entry}

theorem PassesThrough.entries_foldl (h : PassesThrough entries) (m : α) (kept : List Entry) :
    entries (kept.foldl keep m) = entries m ++ kept := by
  induction kept generalizing m with
  | nil => simp
  | cons entry kept ih =>
    rw [List.foldl_cons, ih, h.entries_keep, List.append_assoc, List.singleton_append]

theorem PassesThrough.entries_foldl_empty (h : PassesThrough entries) (kept : List Entry) :
    entries (kept.foldl keep (empty : α)) = kept := by
  rw [h.entries_foldl, h.entries_empty, List.nil_append]

/-- A message made by keeping entries is encoded as their bytes. -/
theorem PassesThrough.encode_foldl (h : PassesThrough entries) (kept : List Entry) :
    encode (kept.foldl keep (empty : α)) = .ok (kept.map Entry.raw).flatten := by
  have hchunks : chunks (kept.foldl keep (empty : α)) = kept.map Entry.raw := by
    rw [h.chunks_eq, h.entries_foldl_empty]
  rw [encode, h.claimedLength_foldl, hchunks, Entry.totalLength_eq, Writer.fill_length]

end Message

namespace Relay

open Grammar

/-! ### Relays -/

theorem foldl_keep (relay : Relay) (kept : List Entry) :
    kept.foldl Message.keep relay = { relay with entries := relay.entries ++ kept } := by
  induction kept generalizing relay with
  | nil => simp
  | cons entry kept ih =>
    rw [List.foldl_cons, ih]
    simp [Message.keep]

theorem passesThrough : Message.PassesThrough Relay.entries where
  known?_eq_none _ _ := rfl
  entries_empty := rfl
  entries_keep _ _ := rfl
  chunks_eq _ := rfl
  claimedLength_foldl kept := by
    rw [foldl_keep]
    simp [Message.claimedLength, Message.empty]

theorem result_decode_eq_ok_iff {limits : Limits} {bs : Bytes} {relay : Relay} :
    (Message.decode limits bs : Report Relay).result = .ok relay ↔
      bs.length ≤ limits.maxMessageLength.toNat ∧
        ∃ entries : List Entry, (entries.map Entry.raw).flatten = bs ∧
          (∀ entry ∈ entries, IsEntry limits.maxGroupDepth.toNat entry) ∧
          relay = { entries } := by
  rw [Message.result_decode_eq_ok_iff_readAll passesThrough.known?_eq_none]
  simp only [Entry.result_readAll_eq_ok_iff, foldl_keep, and_assoc]
  rfl

end Relay

namespace Message

open Grammar

/-! ### Nothing is lost -/

variable {α : Type} [Message α] {entries : α → List Entry}

/-- **A message that passes everything on loses nothing.** Its entries tile the byte
string it was decoded from, which is also what it is encoded as. -/
theorem decode_tiles_input (h : PassesThrough entries) (limits : Limits) (bs : Bytes) {m : α}
    (hm : (decode limits bs : Report α).result = .ok m) :
    ((entries m).map Entry.raw).flatten = bs ∧
      (∀ entry ∈ entries m, IsEntry limits.maxGroupDepth.toNat entry) ∧
      encode m = .ok bs ∧
      (entries m).length ≤ bs.length / 2 := by
  obtain ⟨-, kept, hread, rfl⟩ := (result_decode_eq_ok_iff_readAll h.known?_eq_none).1 hm
  obtain ⟨hflat, hentries⟩ := Entry.result_readAll_eq_ok_iff.1 hread
  have hcount := Entry.two_mul_length_le hentries
  rw [h.entries_foldl_empty]
  refine ⟨hflat, hentries, ?_, ?_⟩
  · rw [h.encode_foldl, hflat]
  · rw [hflat] at hcount
    omega

/-- A relay takes a padded key and number, bytes that are no text after a padded
length, and a group inside a group, and gives back the twelve bytes of these. -/
theorem decode_tiles_input_padded :
    let bs : Bytes := [0x88, 0x00, 0x85, 0x00, 0x12, 0x81, 0x00, 0xFF, 0x1B, 0x23, 0x24, 0x1C]
    let relay : Relay :=
      { entries := [⟨⟨1, .varint⟩, [0x88, 0x00, 0x85, 0x00]⟩,
          ⟨⟨2, .lengthDelimited⟩, [0x12, 0x81, 0x00, 0xFF]⟩,
          ⟨⟨3, .startGroup⟩, [0x1B, 0x23, 0x24, 0x1C]⟩] }
    (decode {} bs : Report Relay).result = .ok relay ∧
      (relay.entries.map Entry.raw).flatten = bs ∧ encode relay = .ok bs := by
  intro bs relay
  have hm : (decode {} bs : Report Relay).result = .ok relay := by decide +kernel
  obtain ⟨hflat, -, hencode, -⟩ := decode_tiles_input Relay.passesThrough {} bs hm
  exact ⟨hm, hflat, hencode⟩

end Message
end WireFormat
