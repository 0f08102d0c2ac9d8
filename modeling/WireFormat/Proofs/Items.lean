/-
# Items one after the other

A reader that takes at least one byte for each item is run again and again on
what it left, until nothing is left or an item cannot be read. If the reader
accepts exactly the byte strings of a grammar, then a byte string is read to its
end exactly if it is a concatenation of pieces of the grammar, and such a
concatenation is read in the same way whatever follows it.

A message whose entries are read without looking at the message is decoded in
two steps: the items are read, then they are merged one by one.

Key definitions: `Reader.Accepts`, `Reader.Items`, `Reader.items`,
`Message.mergeItems`.
Key theorems: `Reader.Accepts.bind`, `Reader.items_flatten_append`,
`Reader.items_eq_complete_iff`, `Message.mergeEntries_eq_of_items`,
`Message.result_decode_eq_ok_iff_items`.
-/
import Mathlib.Data.List.Forall2
import WireFormat.Message

namespace WireFormat
namespace Reader

variable {β γ : Type}

/-! ### Readers of a grammar -/

/-- A reader that takes exactly the byte strings of a grammar off the front. -/
def Accepts (r : Reader γ) (P : Bytes → γ → Prop) : Prop :=
  ∀ bs c rest, r.run bs = (.ok c, rest) ↔ ∃ used, bs = used ++ rest ∧ P used c

theorem run_bind_eq_ok_iff {r : Reader β} {f : β → Reader γ} {bs rest : Bytes} {c : γ} :
    (r >>= f).run bs = (.ok c, rest) ↔
      ∃ b mid, r.run bs = (.ok b, mid) ∧ (f b).run mid = (.ok c, rest) := by
  rw [run_bind]
  rcases r.run bs with ⟨e | b, mid⟩ <;> simp

theorem run_map (f : β → γ) (r : Reader β) (bs : Bytes) :
    (f <$> r).run bs =
      match r.run bs with
      | (.ok b, rest) => (.ok (f b), rest)
      | (.error e, rest) => (.error e, rest) := rfl

/-- Two readers one after the other accept the two grammars one after the other. -/
theorem Accepts.bind {r : Reader β} {P : Bytes → β → Prop} {f : β → Reader γ}
    {Q : β → Bytes → γ → Prop} (hr : r.Accepts P) (hf : ∀ b, (f b).Accepts (Q b)) :
    (r >>= f).Accepts fun used c =>
      ∃ b head tail, used = head ++ tail ∧ P head b ∧ Q b tail c := by
  intro bs c rest
  rw [run_bind_eq_ok_iff]
  refine ⟨fun hx => ?_, fun hx => ?_⟩
  · obtain ⟨b, mid, h1, h2⟩ := hx
    obtain ⟨head, rfl, hP⟩ := (hr _ _ _).1 h1
    obtain ⟨tail, rfl, hQ⟩ := (hf b _ _ _).1 h2
    exact ⟨head ++ tail, (List.append_assoc _ _ _).symm, b, head, tail, rfl, hP, hQ⟩
  · obtain ⟨_, rfl, b, head, tail, rfl, hP, hQ⟩ := hx
    exact ⟨b, tail ++ rest, (hr _ _ _).2 ⟨head, List.append_assoc _ _ _, hP⟩,
      (hf b _ _ _).2 ⟨tail, rfl, hQ⟩⟩

theorem accepts_pure (c : γ) : (pure c : Reader γ).Accepts fun used c' => used = [] ∧ c' = c := by
  intro bs c' rest
  simp [and_comm, eq_comm (a := c)]

theorem accepts_ofExcept (x : Except Error γ) :
    (ofExcept x).Accepts fun used c => used = [] ∧ x = .ok c := by
  intro bs c rest
  simp [and_comm]

theorem Accepts.map {r : Reader β} {P : Bytes → β → Prop} (hr : r.Accepts P) (f : β → γ) :
    (f <$> r).Accepts fun used c => ∃ b, P used b ∧ c = f b := by
  intro bs c rest
  rw [run_map]
  refine ⟨fun h => ?_, fun hx => ?_⟩
  · split at h
    · next b _ hb =>
      cases h
      obtain ⟨used, hbs, hP⟩ := (hr _ _ _).1 hb
      exact ⟨used, hbs, b, hP, rfl⟩
    · cases h
  · obtain ⟨used, hbs, b, hP, rfl⟩ := hx
    rw [(hr _ _ _).2 ⟨used, hbs, hP⟩]

theorem Accepts.captured {r : Reader γ} {P : Bytes → γ → Prop} (hr : r.Accepts P) :
    r.captured.Accepts fun used c => P used c.1 ∧ c.2 = used := by
  intro bs c rest
  obtain ⟨c, taken⟩ := c
  rw [run_captured_eq_ok_iff]
  refine ⟨fun hx => ?_, fun hx => ?_⟩
  · obtain ⟨h, rfl⟩ := hx
    obtain ⟨used, hbs, hP⟩ := (hr _ _ _).1 h
    have hused : taken = used := List.append_cancel_right hbs
    exact ⟨used, hbs, hP, hused⟩
  · obtain ⟨used, hbs, hP, hused⟩ := hx
    exact ⟨(hr _ _ _).2 ⟨used, hbs, hP⟩, by rw [hbs, ← hused]⟩

theorem Accepts.congr {r : Reader γ} {P Q : Bytes → γ → Prop} (hr : r.Accepts P)
    (h : ∀ used c, P used c ↔ Q used c) : r.Accepts Q := by
  intro bs c rest
  rw [hr]
  simp only [h]

theorem Accepts.run_append {r : Reader γ} {P : Bytes → γ → Prop} (hr : r.Accepts P)
    {bs rest : Bytes} {c : γ} (h : r.run bs = (.ok c, rest)) (s : Bytes) :
    r.run (bs ++ s) = (.ok c, rest ++ s) := by
  obtain ⟨used, rfl, hc⟩ := (hr _ _ _).1 h
  exact (hr _ _ _).2 ⟨used, List.append_assoc _ _ _, hc⟩

/-! ### Reading to the end -/

/-- What was read item by item, and where it stopped early: the error and the
bytes unread. -/
structure Items (γ : Type) where
  read : List γ
  failure : Option (Error × Bytes)

/-- The items, if all of them could be read. -/
def Items.result (items : Items γ) : Except Error (List γ) :=
  match items.failure with
  | none => .ok items.read
  | some (e, _) => .error e

/-- Reads items until nothing is left or one cannot be read. -/
def items (r : Reader γ) (h : r.Consumes) (bs : Bytes) : Items γ :=
  if bs = [] then ⟨[], none⟩
  else
    match hr : r.run bs with
    | (.ok c, rest) =>
      have : rest.length < bs.length := h bs c rest hr
      let tail := items r h rest
      { tail with read := c :: tail.read }
    | (.error e, rest) => ⟨[], some (e, rest)⟩
termination_by bs.length

variable {r : Reader γ} {h : r.Consumes} {P : Bytes → γ → Prop}

@[simp] theorem items_nil (r : Reader γ) (h : r.Consumes) : r.items h [] = ⟨[], none⟩ := by
  rw [items, if_pos rfl]

theorem items_of_ok {bs rest : Bytes} {c : γ} (hr : r.run bs = (.ok c, rest)) :
    r.items h bs = ⟨c :: (r.items h rest).read, (r.items h rest).failure⟩ := by
  have hne : bs ≠ [] := by
    rintro rfl
    exact absurd (h [] c rest hr) (Nat.not_lt_zero _)
  rw [items, if_neg hne]
  split
  · next hr' =>
    rw [hr] at hr'
    cases hr'
    rfl
  · next hr' =>
    rw [hr] at hr'
    cases hr'

theorem items_of_error {bs rest : Bytes} {e : Error} (hne : bs ≠ [])
    (hr : r.run bs = (.error e, rest)) : r.items h bs = ⟨[], some (e, rest)⟩ := by
  rw [items, if_neg hne]
  split
  · next hr' =>
    rw [hr] at hr'
    cases hr'
  · next hr' =>
    rw [hr] at hr'
    cases hr'
    rfl

/-! ### Items and the grammar -/

theorem exists_piece_of_mem {pieces : List Bytes} {cs : List γ} (hp : List.Forall₂ P pieces cs)
    {c : γ} (hc : c ∈ cs) : ∃ piece ∈ pieces, P piece c := by
  induction hp with
  | nil => cases hc
  | @cons piece _ pieces _ hpc _ ih =>
    rcases List.mem_cons.1 hc with rfl | hc
    · exact ⟨piece, List.mem_cons_self, hpc⟩
    · obtain ⟨piece', hmem, h'⟩ := ih hc
      exact ⟨piece', List.mem_cons_of_mem _ hmem, h'⟩

/-- Reading can stop after a piece and go on with what follows it. -/
theorem items_flatten_append (ha : r.Accepts P) {pieces : List Bytes} {cs : List γ}
    (hp : List.Forall₂ P pieces cs) (rest : Bytes) :
    r.items h (pieces.flatten ++ rest) =
      ⟨cs ++ (r.items h rest).read, (r.items h rest).failure⟩ := by
  induction hp with
  | nil => rfl
  | @cons piece c pieces cs hpc _ ih =>
    have hr : r.run (piece ++ (pieces.flatten ++ rest)) = (.ok c, pieces.flatten ++ rest) :=
      (ha _ _ _).2 ⟨piece, rfl, hpc⟩
    rw [List.flatten_cons, List.append_assoc, items_of_ok hr, ih]
    rfl

theorem exists_pieces_of_items (ha : r.Accepts P) {bs : Bytes} {cs : List γ}
    (hi : r.items h bs = ⟨cs, none⟩) :
    ∃ pieces : List Bytes, pieces.flatten = bs ∧ List.Forall₂ P pieces cs := by
  by_cases hne : bs = []
  · subst hne
    rw [items_nil] at hi
    cases hi
    exact ⟨[], rfl, .nil⟩
  · rcases hr : r.run bs with ⟨e | c, rest⟩
    · rw [items_of_error hne hr] at hi
      cases hi
    · rw [items_of_ok hr, Items.mk.injEq] at hi
      obtain ⟨rfl, hf⟩ := hi
      have hlt : rest.length < bs.length := h bs c rest hr
      have htail : r.items h rest = ⟨(r.items h rest).read, none⟩ := by rw [← hf]
      obtain ⟨pieces, hflat, hp⟩ := exists_pieces_of_items ha htail
      obtain ⟨used, rfl, hused⟩ := (ha _ _ _).1 hr
      exact ⟨used :: pieces, by rw [List.flatten_cons, hflat], .cons hused hp⟩
termination_by bs.length

/-- A byte string is read to its end exactly if it is a concatenation of pieces. -/
theorem items_eq_complete_iff (ha : r.Accepts P) {bs : Bytes} {cs : List γ} :
    r.items h bs = ⟨cs, none⟩ ↔
      ∃ pieces : List Bytes, pieces.flatten = bs ∧ List.Forall₂ P pieces cs := by
  constructor
  · exact exists_pieces_of_items ha
  · rintro ⟨pieces, rfl, hp⟩
    have := items_flatten_append (h := h) ha hp []
    simpa using this

theorem Items.result_eq_ok_iff {items : Items γ} {cs : List γ} :
    items.result = .ok cs ↔ items = ⟨cs, none⟩ := by
  obtain ⟨read, failure⟩ := items
  cases failure <;> simp [Items.result]

theorem Items.result_append (items : Items γ) (cs : List γ) :
    (Items.mk (cs ++ items.read) items.failure).result = items.result.map (cs ++ ·) := by
  obtain ⟨read, failure⟩ := items
  cases failure <;> rfl

/-- Once the items of `x` are read, those of `x ++ y` are read as those of `y` are. -/
theorem result_items_append (ha : r.Accepts P) {x : Bytes} {cs : List γ}
    (hx : (r.items h x).result = .ok cs) (y : Bytes) :
    (r.items h (x ++ y)).result = (r.items h y).result.map (cs ++ ·) := by
  obtain ⟨pieces, rfl, hp⟩ := (items_eq_complete_iff ha).1 (Items.result_eq_ok_iff.1 hx)
  rw [items_flatten_append ha hp, Items.result_append]

end Reader

/-! ### Decoding in two steps -/

namespace Message

variable {α γ : Type}

/-- Merges items into `m` one by one; `apply` says what one of them does. -/
def mergeItems (apply : α → γ → α × List Event) (m : α) : List γ → α × List Event
  | [] => (m, [])
  | c :: cs =>
    let (m', events) := apply m c
    let (m'', later) := mergeItems apply m' cs
    (m'', events ++ later)

/-- The message that items are merged into is the fold of what each does. -/
theorem fst_mergeItems (apply : α → γ → α × List Event) (m : α) (cs : List γ) :
    (mergeItems apply m cs).1 = cs.foldl (fun m c => (apply m c).1) m := by
  induction cs generalizing m with
  | nil => rfl
  | cons c cs ih => exact ih (apply m c).1

variable [Message α]

/-- If the next item is read without looking at the message, decoding reads the
items first and merges them then. -/
theorem mergeEntries_eq_of_items {limits : Limits} {r : Reader γ} (h : r.Consumes)
    {apply : α → γ → α × List Event} (hr : ∀ m, mergeEntry limits m = apply m <$> r)
    (m : α) (bs : Bytes) :
    mergeEntries limits m bs =
      { result := (r.items h bs).result.map fun cs => (mergeItems apply m cs).1
        unread := ((r.items h bs).failure.map Prod.snd).getD []
        events := (mergeItems apply m (r.items h bs).read).2 } := by
  by_cases hne : bs = []
  · subst hne
    rw [mergeEntries_nil, Reader.items_nil]
    rfl
  · have hrun : (mergeEntry limits m).run bs =
        match r.run bs with
        | (.ok c, rest) => (.ok (apply m c), rest)
        | (.error e, rest) => (.error e, rest) := by
      rw [hr m, Reader.run_map]
    rcases hb : r.run bs with ⟨e | c, rest⟩
    · rw [hb] at hrun
      rw [mergeEntries_of_error hne hrun, Reader.items_of_error hne hb]
      rfl
    · rw [hb] at hrun
      have hlt : rest.length < bs.length := h bs c rest hb
      rw [mergeEntries_of_ok hrun, Reader.items_of_ok hb,
        mergeEntries_eq_of_items h hr (apply m c).1 rest]
      rcases r.items h rest with ⟨cs, _ | ⟨e, left⟩⟩ <;> rfl
termination_by bs.length

/-! ### Decoding within the length limit -/

theorem result_mergeBytes_of_le {limits : Limits} {bs : Bytes}
    (h : bs.length ≤ limits.maxMessageLength.toNat) (m : α) :
    (mergeBytes limits m bs).result = (mergeEntries limits m bs).result := by
  rw [mergeBytes, Limits.checkLength_eq_ok_iff.2 h]
  rcases hr : (mergeEntries limits m bs).result with e | m' <;> simp only [hr]

theorem result_mergeBytes_of_lt {limits : Limits} {bs : Bytes}
    (h : limits.maxMessageLength.toNat < bs.length) (m : α) :
    (mergeBytes limits m bs).result =
      .error (.malformed (.messageTooLong bs.length limits.maxMessageLength.toNat)) := by
  rw [mergeBytes, Limits.checkLength, if_pos h]

theorem length_le_of_result_mergeBytes {limits : Limits} {bs : Bytes} {m m' : α}
    (h : (mergeBytes limits m bs).result = .ok m') :
    bs.length ≤ limits.maxMessageLength.toNat := by
  by_contra hgt
  rw [result_mergeBytes_of_lt (by omega)] at h
  cases h

/-- A message whose items are read without looking at it decodes to what the items
of a byte string within the length limit make of the empty message. -/
theorem result_decode_eq_ok_iff_items {limits : Limits} {r : Reader γ} (h : r.Consumes)
    {apply : α → γ → α × List Event} (hr : ∀ m, mergeEntry limits m = apply m <$> r)
    {bs : Bytes} {m : α} :
    (decode limits bs : Report α).result = .ok m ↔
      bs.length ≤ limits.maxMessageLength.toNat ∧
        ∃ cs, (r.items h bs).result = .ok cs ∧ m = cs.foldl (fun m c => (apply m c).1) empty := by
  have hlen : (decode limits bs : Report α).result = .ok m →
      bs.length ≤ limits.maxMessageLength.toNat := length_le_of_result_mergeBytes
  rw [← and_iff_right_of_imp hlen, and_congr_right_iff]
  intro hle
  rw [decode, result_mergeBytes_of_le hle, mergeEntries_eq_of_items h hr]
  simp only [fst_mergeItems]
  rcases (r.items h bs).result with e | cs <;> simp [Except.map, eq_comm]

end Message
end WireFormat
