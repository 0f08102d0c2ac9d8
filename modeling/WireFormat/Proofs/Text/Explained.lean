/-
# What a fault says of the bytes

A scan for faults looks at ranges of bytes; a fault is read by people who think of
scalar values. Here the two are brought together. Bytes with a fault are text up to
the index of the fault. What stands there begins some scalar value, and either the
bytes end before it does, or the next byte continues no scalar value that begins so.
From that alone, and from no encoding being the beginning of another, it follows what
a fault tells: its index is the length of the longest beginning that is text, it says
that the bytes are incomplete exactly if more bytes could make them text, and
otherwise it counts the most bytes that begin a scalar value, or 1 if there are none.

Key definitions: `Text.Valid`, `Text.Begins`, `Text.Stop`, `Text.Explains`.
Key theorems: `Text.exists_stop_of_faultFrom`, `Text.Stop.eq_nil_of_valid`,
`Text.explains_of_fault?_eq_some`.
-/
import Mathlib.Order.Bounds.Defs
import WireFormat.Text

namespace WireFormat
namespace Text

open String (utf8EncodeChar)

/-! ### Text and beginnings of scalar values -/

/-- Bytes that encode scalar values, one after the other. -/
def Valid (bs : Bytes) : Prop :=
  ∃ cs : List Char, cs.flatMap utf8EncodeChar = bs

/-- Bytes that begin the encoding of a scalar value and do not end it. -/
def Begins (bs : Bytes) : Prop :=
  ∃ c, bs <+: utf8EncodeChar c ∧ bs.length < (utf8EncodeChar c).length

/-- The lengths of the beginnings of a byte string that are text. -/
def validLengths (bs : Bytes) : Set Nat :=
  {n | n ≤ bs.length ∧ Valid (bs.take n)}

/-- The lengths of the beginnings of a byte string, the empty one apart, that begin
a scalar value and do not end it. -/
def begunLengths (bs : Bytes) : Set Nat :=
  {k | 0 < k ∧ k ≤ bs.length ∧ Begins (bs.take k)}

/-- A fault tells what is wrong with a byte string: it stands after the longest
beginning that is text, and either more bytes could make text of all, or it counts
the most bytes from there on that begin a scalar value, 1 if none do. -/
inductive Explains (bs : Bytes) : Fault → Prop where
  | incomplete {index : Nat} : IsGreatest (validLengths bs) index →
      (∃ more, Valid (bs ++ more)) → Explains bs (.incomplete index)
  | invalid {index length : Nat} : IsGreatest (validLengths bs) index →
      (∀ more, ¬ Valid (bs ++ more)) →
      (IsGreatest (begunLengths (bs.drop index)) length ∨
        begunLengths (bs.drop index) = ∅ ∧ length = 1) →
      Explains bs (.invalid index length)

/-- The words of a fault that tells what is wrong: it reads incomplete exactly if more
bytes could make text of all, and gives its index and its count in digits. -/
theorem Explains.message_eq {bs : Bytes} {fault : Fault} (h : Explains bs fault) :
    ("incomplete".toList <+: fault.message.toList ↔ ∃ more, Valid (bs ++ more)) ∧
    ∃ index : Nat, IsGreatest (validLengths bs) index ∧
      ((∃ more, Valid (bs ++ more)) →
        fault.message = "incomplete utf-8 byte sequence from index " ++ toString index) ∧
      ((¬ ∃ more, Valid (bs ++ more)) → ∃ count : Nat,
        (IsGreatest (begunLengths (bs.drop index)) count ∨
          begunLengths (bs.drop index) = ∅ ∧ count = 1) ∧
        fault.message = "invalid utf-8 sequence of " ++ toString count ++
          " bytes from index " ++ toString index) := by
  cases h with
  | @incomplete index hlongest hmore =>
    have hmessage : (Fault.incomplete index).message =
        "incomplete utf-8 byte sequence from index " ++ toString index := rfl
    refine ⟨iff_of_true ?_ hmore, index, hlongest, fun _ => hmessage, fun h => absurd hmore h⟩
    rw [hmessage]
    simp
  | @invalid index count hlongest hmore hcount =>
    have hnone : ¬ ∃ more, Valid (bs ++ more) := fun ⟨more, h⟩ => hmore more h
    have hmessage : (Fault.invalid index count).message =
        "invalid utf-8 sequence of " ++ toString count ++ " bytes from index " ++
          toString index := rfl
    refine ⟨iff_of_false ?_ hnone, index, hlongest, fun h => absurd h hnone,
      fun _ => ⟨count, hcount, hmessage⟩⟩
    rw [hmessage]
    simp

theorem valid_iff_fault? {bs : Bytes} : Valid bs ↔ fault? bs = none :=
  fault?_eq_none_iff.symm

theorem Valid.append {xs ys : Bytes} (hx : Valid xs) (hy : Valid ys) : Valid (xs ++ ys) := by
  obtain ⟨cs, rfl⟩ := hx
  obtain ⟨ds, rfl⟩ := hy
  exact ⟨cs ++ ds, List.flatMap_append⟩

theorem valid_utf8EncodeChar (c : Char) : Valid (utf8EncodeChar c) :=
  ⟨[c], by simp⟩

theorem valid_of_utf8EncodeChar_append {c : Char} {bs : Bytes}
    (h : Valid (utf8EncodeChar c ++ bs)) : Valid bs := by
  obtain ⟨lead, spans, tail, hc, howed, hfills⟩ := exists_owed_of_char c
  have hscan : fault? (utf8EncodeChar c ++ bs) = faultFrom 0 (1 + tail.length) [] bs := by
    rw [hc, List.cons_append, fault?, faultFrom, howed]
    exact faultFrom_append_of_fills 0 1 bs hfills
  rw [valid_iff_fault?, hscan] at h
  exact exists_chars_of_faultFrom_eq_none h

theorem Valid.of_append {xs ys : Bytes} (hx : Valid xs) (h : Valid (xs ++ ys)) : Valid ys := by
  obtain ⟨cs, rfl⟩ := hx
  induction cs with
  | nil => exact h
  | cons c cs ih =>
    rw [List.flatMap_cons, List.append_assoc] at h
    exact ih (valid_of_utf8EncodeChar_append h)

/-! ### The ranges that a lead byte owes -/

theorem Fills.length_eq : ∀ {spans : List Span} {bs : Bytes}, Fills spans bs →
    bs.length = spans.length
  | [], bs, h => by
    cases h
    rfl
  | _ :: _, _ :: _, ⟨_, h⟩ => by rw [List.length_cons, List.length_cons, h.length_eq]

theorem Fills.append_iff {spans : List Span} {bs : Bytes} :
    ∀ {done : List Span} {good : Bytes}, Fills done good →
    (Fills (done ++ spans) (good ++ bs) ↔ Fills spans bs)
  | [], good, h => by
    cases h
    rfl
  | _ :: _, _ :: _, ⟨hb, h⟩ => (and_iff_right hb).trans h.append_iff

/-- A range that is narrowed from below for one lead byte and from above for another
has a byte in it, as no lead byte is both. -/
theorem contains_low_of_ne {lead first last low low' high high' : UInt8} (hne : first ≠ last)
    (h : low ≤ high ∧ low' ≤ high ∧ low ≤ high') :
    Span.contains ⟨if lead = first then low' else low, if lead = last then high' else high⟩
      (if lead = first then low' else low) = true := by
  unfold Span.contains
  by_cases hfirst : lead = first
  · simp [hfirst, hne, h.2.1]
  · by_cases hlast : lead = last <;> simp [hlast, hne.symm, hfirst, h.1, h.2.2]

theorem contains_low_of_owed {lead : UInt8} {spans : List Span} (h : owed lead = some spans) :
    ∀ span ∈ spans, span.contains span.low = true := by
  have htail : Span.tail.contains Span.tail.low = true := by decide
  unfold owed at h
  split at h
  · cases h
    exact fun _ hs => absurd hs List.not_mem_nil
  split at h
  · cases h
  split at h
  · cases h
    simpa using htail
  split at h
  · cases h
    simpa [htail] using contains_low_of_ne (by decide) (by decide)
  split at h
  · cases h
    simpa [htail] using contains_low_of_ne (by decide) (by decide)
  · cases h

theorem exists_fills {spans : List Span} (h : ∀ span ∈ spans, span.contains span.low = true) :
    ∃ bs, Fills spans bs := by
  induction spans with
  | nil => exact ⟨[], rfl⟩
  | cons span spans ih =>
    obtain ⟨bs, hbs⟩ := ih fun s hs => h s (List.mem_cons_of_mem _ hs)
    exact ⟨span.low :: bs, h span List.mem_cons_self, hbs⟩

/-- An encoding goes on after its lead byte with bytes that fill what that byte owes. -/
theorem exists_fills_of_prefix {c : Char} {lead : UInt8} {bs : Bytes} {spans : List Span}
    (h : lead :: bs <+: utf8EncodeChar c) (howed : owed lead = some spans) :
    ∃ tail, utf8EncodeChar c = lead :: tail ∧ bs <+: tail ∧ Fills spans tail := by
  obtain ⟨lead', spans', tail, hc, howed', hfills⟩ := exists_owed_of_char c
  rw [hc, List.cons_prefix_cons] at h
  obtain ⟨rfl, hbs⟩ := h
  obtain rfl : spans = spans' := Option.some.inj (howed.symm.trans howed')
  exact ⟨tail, hc, hbs, hfills⟩

/-- Bytes that begin a scalar value hold no other, as no encoding begins another
without ending it. -/
theorem Begins.not_utf8EncodeChar_prefix {bs : Bytes} (h : Begins bs) (c : Char) :
    ¬ utf8EncodeChar c <+: bs := by
  intro hbs
  obtain ⟨d, hd, hlt⟩ := h
  have hcd := hbs.trans hd
  obtain ⟨lead, spans, tail, hc, howed, hfills⟩ := exists_owed_of_char c
  rw [hc] at hcd
  obtain ⟨tail', hd', -, hfills'⟩ := exists_fills_of_prefix hcd howed
  have hlength : (utf8EncodeChar d).length = (utf8EncodeChar c).length := by
    rw [hc, hd', List.length_cons, List.length_cons, hfills.length_eq, hfills'.length_eq]
  have hle := hbs.length_le
  omega

section Owed

variable {lead : UInt8} {good : Bytes} {done later : List Span} {span : Span}

/-- A lead byte and some of what it owes begin a scalar value. -/
theorem begins_of_fills (howed : owed lead = some (done ++ span :: later))
    (hfills : Fills done good) : Begins (lead :: good) := by
  have hlow := contains_low_of_owed howed
  obtain ⟨more, hmore⟩ := exists_fills fun s hs => hlow s (List.mem_append_right done hs)
  obtain ⟨c, hc⟩ := exists_char_of_owed howed (hfills.append_iff.2 hmore)
  have hlen := hmore.length_eq
  refine ⟨c, ?_, ?_⟩
  · rw [hc]
    exact ⟨more, rfl⟩
  · rw [hc, List.length_cons, List.length_cons, List.length_append, hlen, List.length_cons]
    omega

/-- A byte outside the range that is owed continues no scalar value. -/
theorem not_prefix_of_not_contains {b : UInt8} (howed : owed lead = some (done ++ span :: later))
    (hfills : Fills done good) (hb : ¬ span.contains b = true) (c : Char) :
    ¬ lead :: good ++ [b] <+: utf8EncodeChar c := by
  intro h
  obtain ⟨tail, -, ⟨rest, hrest⟩, htail⟩ := exists_fills_of_prefix h howed
  have hsplit : tail = good ++ b :: rest := by
    rw [← hrest]
    exact List.append_assoc good [b] rest
  rw [hsplit, hfills.append_iff] at htail
  exact hb htail.1

end Owed

theorem not_prefix_of_owed_eq_none {b : UInt8} (howed : owed b = none) (c : Char) :
    ¬ [b] <+: utf8EncodeChar c := by
  intro h
  obtain ⟨lead, spans, tail, hc, howed', -⟩ := exists_owed_of_char c
  rw [hc, List.cons_prefix_cons] at h
  obtain ⟨rfl, -⟩ := h
  cases howed.symm.trans howed'

/-! ### Where a scan stops -/

/-- How the bytes at `start`, where a scalar value should begin, come to have a fault. -/
inductive Stop (start : Nat) : Bytes → Fault → Prop where
  /-- The next byte continues no scalar value that begins with the good bytes. -/
  | invalid {good bs : Bytes} {b : UInt8} : Begins good →
      (∀ c, ¬ good ++ [b] <+: utf8EncodeChar c) →
      Stop start (good ++ b :: bs) (.invalid start (max 1 good.length))
  /-- The bytes end inside a scalar value. -/
  | incomplete {good : Bytes} : Begins good → good ≠ [] →
      Stop start good (.incomplete start)

theorem begins_nil : Begins [] :=
  ⟨'a', List.nil_prefix, by decide⟩

/-- A scan inside a sequence stops there, or goes on after what was owed. -/
theorem stop_or_filled {lead : UInt8} {start : Nat} {fault : Fault} :
    ∀ {spans done : List Span} {good bs : Bytes}, owed lead = some (done ++ spans) →
    Fills done good → faultFrom start (1 + good.length) spans bs = some fault →
    Stop start (lead :: (good ++ bs)) fault ∨
      ∃ head rest seen, bs = head ++ rest ∧ Fills (done ++ spans) (good ++ head) ∧
        seen = (lead :: (good ++ head)).length ∧ faultFrom start seen [] rest = some fault
  | [], done, good, bs, howed, hfills, h => by
    refine .inr ⟨[], bs, _, rfl, ?_, ?_, h⟩
    · simpa using hfills
    · rw [List.append_nil, List.length_cons, Nat.add_comm]
  | span :: spans, done, good, [], howed, hfills, h => by
    cases h
    rw [List.append_nil]
    exact .inl (.incomplete (begins_of_fills howed hfills) (List.cons_ne_nil _ _))
  | span :: spans, done, good, b :: bs, howed, hfills, h => by
    rw [faultFrom] at h
    by_cases hb : span.contains b = true
    · rw [if_pos hb] at h
      have hnext : Fills (done ++ [span]) (good ++ [b]) := hfills.append_iff.2 ⟨hb, rfl⟩
      have h' : faultFrom start (1 + (good ++ [b]).length) spans bs = some fault := by
        simpa [Nat.add_assoc] using h
      have hcons := List.append_cons done span spans
      rcases stop_or_filled (hcons ▸ howed) hnext h' with hstop | hfilled
      · exact .inl (by simpa using hstop)
      · obtain ⟨head, rest, seen, rfl, hhead, hseen, hrest⟩ := hfilled
        refine .inr ⟨b :: head, rest, seen, rfl, ?_, ?_, hrest⟩
        · simpa using hhead
        · simpa using hseen
    · rw [if_neg hb] at h
      cases h
      have hcount : max 1 (lead :: good).length = 1 + good.length := by
        rw [List.length_cons]
        omega
      have hgood := begins_of_fills howed hfills
      exact .inl (hcount ▸ .invalid hgood (not_prefix_of_not_contains howed hfills hb))

/-- Bytes with a fault are text up to where the scan stops. -/
theorem exists_stop_of_faultFrom {start seen : Nat} {bs : Bytes} {fault : Fault}
    (h : faultFrom start seen [] bs = some fault) :
    ∃ text rest, bs = text ++ rest ∧ Valid text ∧
      Stop (start + seen + text.length) rest fault := by
  match bs with
  | [] => cases h
  | lead :: bs =>
    rw [faultFrom] at h
    split at h
    · next spans howed =>
      have howed' : owed lead = some ([] ++ spans) := howed
      have hnone : Fills [] [] := rfl
      rcases stop_or_filled howed' hnone h with hstop | hfilled
      · exact ⟨[], lead :: bs, rfl, ⟨[], rfl⟩, hstop⟩
      · obtain ⟨head, rest, seen', rfl, hhead, hseen, hrest⟩ := hfilled
        obtain ⟨c, hc⟩ := exists_char_of_owed howed hhead
        have : rest.length < (lead :: (head ++ rest)).length := by
          rw [List.length_cons, List.length_append]
          omega
        obtain ⟨text, rest', rfl, htext, hstop⟩ := exists_stop_of_faultFrom hrest
        refine ⟨utf8EncodeChar c ++ text, rest', ?_, (valid_utf8EncodeChar c).append htext, ?_⟩
        · simp [hc]
        · rw [hseen] at hstop
          rwa [hc, List.length_append, ← Nat.add_assoc]
    · next howed =>
      cases h
      have hstop : Stop (start + seen) ([] ++ lead :: bs) (.invalid (start + seen) 1) :=
        .invalid begins_nil (not_prefix_of_owed_eq_none howed)
      exact ⟨[], lead :: bs, rfl, ⟨[], rfl⟩, hstop⟩
termination_by bs.length

namespace Stop

variable {start : Nat} {bs : Bytes} {fault : Fault}

theorem ne_nil (h : Stop start bs fault) : bs ≠ [] := by
  cases h with
  | invalid _ _ => simp
  | incomplete _ hne => exact hne

theorem not_utf8EncodeChar_prefix (h : Stop start bs fault) (c : Char) :
    ¬ utf8EncodeChar c <+: bs := by
  intro hc
  cases h with
  | @invalid good bs b hgood hnext =>
    -- the encoding ends within the good bytes, or goes on with the byte after them
    by_cases hlen : (utf8EncodeChar c).length ≤ good.length
    · exact hgood.not_utf8EncodeChar_prefix c
        (List.prefix_of_prefix_length_le hc (List.prefix_append _ _) hlen)
    · refine hnext c (List.prefix_of_prefix_length_le ⟨bs, ?_⟩ hc ?_)
      · simp
      · rw [List.length_append, List.length_singleton]
        omega
  | incomplete hgood _ => exact hgood.not_utf8EncodeChar_prefix c hc

theorem eq_nil_of_valid (h : Stop start bs fault) {text : Bytes} (htext : Valid text)
    (hbegin : text <+: bs) : text = [] := by
  obtain ⟨cs, rfl⟩ := htext
  cases cs with
  | nil => rfl
  | cons c cs =>
    refine absurd ?_ (h.not_utf8EncodeChar_prefix c)
    rw [List.flatMap_cons] at hbegin
    exact (List.prefix_append _ _).trans hbegin

/-- The longest text that a byte string begins with ends where the scan stops. -/
theorem isGreatest_validLengths (h : Stop start bs fault) {text : Bytes} (htext : Valid text) :
    IsGreatest (validLengths (text ++ bs)) text.length := by
  constructor
  · refine ⟨?_, ?_⟩
    · rw [List.length_append]
      omega
    · rwa [List.take_left]
  · rintro n ⟨hn, hvalid⟩
    refine Nat.le_of_not_lt fun hlt => ?_
    have hsplit : (text ++ bs).take n = text ++ bs.take (n - text.length) := by
      rw [List.take_append, List.take_of_length_le (by omega)]
    rw [hsplit] at hvalid
    have hnil := h.eq_nil_of_valid (htext.of_append hvalid) (List.take_prefix _ _)
    rw [List.take_eq_nil_iff] at hnil
    rcases hnil with hzero | hnil
    · omega
    · exact h.ne_nil hnil

theorem exists_valid_append {index : Nat} (h : Stop start bs (.incomplete index)) :
    ∃ more, Valid (bs ++ more) := by
  cases h with
  | incomplete hgood _ =>
    obtain ⟨c, ⟨more, hc⟩, -⟩ := hgood
    exact ⟨more, hc ▸ valid_utf8EncodeChar c⟩

theorem not_valid_append {index length : Nat} (h : Stop start bs (.invalid index length))
    (more : Bytes) : ¬ Valid (bs ++ more) := by
  intro hvalid
  cases h with
  | @invalid good bs b hgood hnext =>
    rw [List.append_assoc, List.cons_append] at hvalid
    have hstop : Stop start (good ++ b :: (bs ++ more)) (.invalid start (max 1 good.length)) :=
      .invalid hgood hnext
    exact hstop.ne_nil (hstop.eq_nil_of_valid hvalid (List.prefix_refl _))

theorem counted {index length : Nat} (h : Stop start bs (.invalid index length)) :
    IsGreatest (begunLengths bs) length ∨ begunLengths bs = ∅ ∧ length = 1 := by
  cases h with
  | @invalid good bs b hgood hnext =>
    have hle : ∀ j ∈ begunLengths (good ++ b :: bs), j ≤ good.length := by
      rintro j ⟨-, hj, c, hc, -⟩
      refine Nat.le_of_not_lt fun hlt => ?_
      have hlong : good ++ [b] <+: (good ++ b :: bs).take j := by
        refine List.prefix_of_prefix_length_le ⟨bs, by simp⟩ (List.take_prefix _ _) ?_
        rw [List.length_take, List.length_append, List.length_singleton]
        omega
      exact hnext c (hlong.trans hc)
    by_cases hnil : good = []
    · refine .inr ⟨?_, by simp [hnil]⟩
      ext j
      refine ⟨fun hj => ?_, nofun⟩
      have hpos := hj.1
      have hzero := hle j hj
      rw [hnil, List.length_nil] at hzero
      omega
    · have hpos := List.length_pos_iff.2 hnil
      rw [Nat.max_eq_right hpos]
      refine .inl ⟨⟨hpos, ?_, ?_⟩, hle⟩
      · rw [List.length_append]
        omega
      · rwa [List.take_left]

end Stop

/-- **A fault tells what is wrong.** It stands after the longest beginning that is text,
says whether more bytes could make text of all, and otherwise counts the most bytes that
begin a scalar value. -/
theorem explains_of_fault?_eq_some {bs : Bytes} {fault : Fault} (h : fault? bs = some fault) :
    Explains bs fault := by
  obtain ⟨text, rest, rfl, htext, hstop⟩ := exists_stop_of_faultFrom h
  rw [Nat.zero_add] at hstop
  have hlongest := hstop.isGreatest_validLengths htext
  have hmore : ∀ more, Valid (text ++ rest ++ more) ↔ Valid (rest ++ more) := by
    intro more
    rw [List.append_assoc]
    exact ⟨htext.of_append, htext.append⟩
  match fault, hstop with
  | .incomplete index, hstop =>
    obtain rfl : index = text.length := by
      cases hstop
      rfl
    obtain ⟨more, hvalid⟩ := hstop.exists_valid_append
    exact .incomplete hlongest ⟨more, (hmore more).2 hvalid⟩
  | .invalid index length, hstop =>
    obtain rfl : index = text.length := by
      cases hstop
      rfl
    refine .invalid hlongest (fun more hvalid => ?_) ?_
    · exact hstop.not_valid_append more ((hmore more).1 hvalid)
    · rw [List.drop_left]
      exact hstop.counted

end Text
end WireFormat
