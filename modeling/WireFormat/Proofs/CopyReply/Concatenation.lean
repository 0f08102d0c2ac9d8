/-
# Byte strings put together

Decoding turns concatenation into merging. If `x` decodes, then what follows `x`
is decoded as if it stood alone: its reply is merged into that of `x`, and its
error is the error of the whole. Merging is associative, so byte strings that
decode one by one decode together to the merge of their replies, taken in order
and with the parentheses anywhere.

Key definitions: `Grouping`, `Grouping.fold`.
Key theorems: `CopyReply.result_decode_append`, `CopyReply.result_decode_flatten`,
`CopyReply.fold_merge_eq`.
-/
import WireFormat.Proofs.CopyReply.Clause

namespace WireFormat

/-- A way to put parentheses around the members of a list. -/
inductive Grouping (α : Type) where
  | single (a : α)
  | join (left right : Grouping α)

namespace Grouping

variable {α : Type}

/-- The members, from left to right. -/
def leaves : Grouping α → List α
  | single a => [a]
  | join left right => left.leaves ++ right.leaves

/-- The members joined by `op` as the parentheses say. -/
def fold (op : α → α → α) : Grouping α → α
  | single a => a
  | join left right => op (left.fold op) (right.fold op)

end Grouping

namespace CopyReply

/-! ### Merging many replies -/

instance : Std.Associative merge := ⟨merge_assoc⟩

theorem foldl_merge (m : CopyReply) (ms : List CopyReply) :
    ms.foldl merge m = m.merge (ms.foldl merge {}) := by
  have h : ms.foldl merge (m.merge {}) = m.merge (ms.foldl merge {}) := List.foldl_assoc
  rwa [merge_empty] at h

/-- Replies merge to the same reply however they are grouped. -/
theorem fold_merge_eq (g : Grouping CopyReply) : g.fold merge = g.leaves.foldl merge {} := by
  induction g with
  | single m => exact (empty_merge m).symm
  | join left right ihl ihr =>
    rw [Grouping.fold, Grouping.leaves, List.foldl_append, ihl, ihr]
    exact (foldl_merge _ _).symm

/-! ### Decoding what is put together -/

/-- What follows a byte string that decodes is decoded as if it stood alone. -/
theorem result_decode_append {limits : Limits} {x y : Bytes} {a : CopyReply}
    (hlen : (x ++ y).length ≤ limits.maxMessageLength.toNat)
    (hx : (Message.decode limits x : Report CopyReply).result = .ok a) :
    (Message.decode limits (x ++ y) : Report CopyReply).result =
      (Message.decode limits y : Report CopyReply).result.map a.merge := by
  have hy : y.length ≤ limits.maxMessageLength.toNat := by
    rw [List.length_append] at hlen
    omega
  obtain ⟨-, cs, hcs, rfl⟩ := result_decode_eq_ok_iff_clauses.1 hx
  have happend : (clauses limits (x ++ y)).result = (clauses limits y).result.map (cs ++ ·) :=
    Reader.result_items_append (accepts_read limits) hcs y
  rw [result_decode_of_le hlen, result_decode_of_le hy, happend]
  rcases (clauses limits y).result with e | ds
  · rfl
  · simp only [Except.map, ofClauses_append]

theorem result_decode_flatten {limits : Limits} (parts : List (Bytes × CopyReply))
    (hparts : ∀ p ∈ parts, (Message.decode limits p.1 : Report CopyReply).result = .ok p.2)
    (hlen : (parts.map Prod.fst).flatten.length ≤ limits.maxMessageLength.toNat) :
    (Message.decode limits (parts.map Prod.fst).flatten : Report CopyReply).result =
      .ok ((parts.map Prod.snd).foldl merge {}) := by
  induction parts with
  | nil =>
    rw [result_decode_of_le hlen, List.map_nil, List.flatten_nil, clauses, Reader.items_nil]
    rfl
  | cons p parts ih =>
    rw [List.map_cons, List.flatten_cons] at hlen ⊢
    have hp := hparts p List.mem_cons_self
    have htail := ih (fun q hq => hparts q (List.mem_cons_of_mem _ hq)) (by
      rw [List.length_append] at hlen
      omega)
    rw [result_decode_append hlen hp, htail, List.map_cons, List.foldl_cons, empty_merge,
      foldl_merge p.2]
    rfl

/-- **Decoding turns concatenation into merging.** If `x` decodes, `x ++ y` decodes to
its reply with that of `y` merged in, or fails with the error of `y`; so it is for any
number of byte strings, however grouped. -/
theorem decode_concatenation_eq_merge (limits : Limits) :
    (∀ (x y : Bytes) (a : CopyReply), (x ++ y).length ≤ limits.maxMessageLength.toNat →
      (Message.decode limits x : Report CopyReply).result = .ok a →
      (Message.decode limits (x ++ y) : Report CopyReply).result =
        (Message.decode limits y : Report CopyReply).result.map a.merge) ∧
    ∀ parts : List (Bytes × CopyReply),
      (∀ p ∈ parts, (Message.decode limits p.1 : Report CopyReply).result = .ok p.2) →
      (parts.map Prod.fst).flatten.length ≤ limits.maxMessageLength.toNat →
      (Message.decode limits (parts.map Prod.fst).flatten : Report CopyReply).result =
          .ok ((parts.map Prod.snd).foldl merge {}) ∧
        ∀ g : Grouping CopyReply, g.leaves = parts.map Prod.snd →
          (Message.decode limits (parts.map Prod.fst).flatten : Report CopyReply).result =
            .ok (g.fold merge) := by
  refine ⟨fun x y a hlen hx => result_decode_append hlen hx, fun parts hparts hlen => ?_⟩
  have hall := result_decode_flatten parts hparts hlen
  refine ⟨hall, fun g hg => ?_⟩
  rw [hall, fold_merge_eq g, hg]

/-- An index, then a failure with an entry, then another entry; and an index, then
a failure whose text is cut off. -/
theorem decode_concatenation_index_error :
    (Message.decode {} [0x08, 0x05, 0x12, 0x01, 0x78, 0x18, 0x07, 0x23, 0x24] :
        Report CopyReply).result =
      .ok { outcome := .error "x"
            unknown := [⟨⟨3, .varint⟩, [0x18, 0x07]⟩, ⟨⟨4, .startGroup⟩, [0x23, 0x24]⟩] } ∧
    (Message.decode {} [0x08, 0x05, 0x12, 0x05, 0x61] : Report CopyReply).result =
      .error (.truncated 5 1) := by
  have hparts : ∀ p ∈ ([([0x08, 0x05], { outcome := .index 5 }),
      ([0x12, 0x01, 0x78, 0x18, 0x07],
        { outcome := .error "x", unknown := [⟨⟨3, .varint⟩, [0x18, 0x07]⟩] }),
      ([0x23, 0x24], { unknown := [⟨⟨4, .startGroup⟩, [0x23, 0x24]⟩] })] :
        List (Bytes × CopyReply)),
      (Message.decode {} p.1 : Report CopyReply).result = .ok p.2 := by decide +kernel
  have hcut : (Message.decode {} [0x12, 0x05, 0x61] : Report CopyReply).result =
      .error (.truncated 5 1) := by decide +kernel
  obtain ⟨happend, hflatten⟩ := decode_concatenation_eq_merge {}
  constructor
  · exact (hflatten _ hparts (by decide)).1
  · have h := happend [0x08, 0x05] [0x12, 0x05, 0x61] _ (by decide) (hparts _ List.mem_cons_self)
    rw [hcut] at h
    exact h

end CopyReply
end WireFormat
