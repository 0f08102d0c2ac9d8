/-
# Writers

A writer fills a buffer of a fixed size from the front. It takes whole chunks:
a chunk that does not fit is refused and nothing of it is written, but the
chunks before it stay, and a shorter chunk may still follow.

Key definitions: `Writer`, `Writer.ofBuffer`, `Writer.buffer`, `Writer.put`,
`Writer.putAll`, `Writer.finish`, `Writer.fill`.
Key theorems: `Writer.putAll_of_le`, `Writer.fill_length`.
-/
import WireFormat.Error

namespace WireFormat

/-- A buffer, cut at the place where writing goes on. -/
structure Writer where
  /-- What was written. -/
  written : Bytes
  /-- What the rest of the buffer still holds. -/
  free : Bytes
  deriving DecidableEq

namespace Writer

/-- A writer at the start of a buffer. -/
def ofBuffer (buffer : Bytes) : Writer := ⟨[], buffer⟩

/-- The buffer of a writer. -/
def buffer (w : Writer) : Bytes := w.written ++ w.free

/-- Writes a chunk if it fits. -/
def put (w : Writer) (chunk : Bytes) : Except Error Writer :=
  if chunk.length ≤ w.free.length then
    .ok ⟨w.written ++ chunk, w.free.drop chunk.length⟩
  else
    .error (.invalidArgument (.bufferTooSmall chunk.length w.free.length))

/-- Writes chunks up to the first that does not fit. -/
def putAll (w : Writer) : List Bytes → Except Error Unit × Writer
  | [] => (.ok (), w)
  | chunk :: chunks =>
    match w.put chunk with
    | .ok w' => w'.putAll chunks
    | .error e => (.error e, w)

/-- Checks that the buffer is full. -/
def finish (w : Writer) : Except Error Unit :=
  if w.free = [] then .ok ()
  else .error (.invalidArgument (.bufferNotFilled w.free.length))

/-- The chunks in a new buffer of `size` bytes, which they must fill. -/
def fill (size : Nat) (chunks : List Bytes) : Except Error Bytes := do
  let (result, w) := (ofBuffer (List.replicate size 0)).putAll chunks
  result
  w.finish
  return w.buffer

/-! ### What a writer does to its buffer -/

theorem put_of_le {w : Writer} {chunk : Bytes} (h : chunk.length ≤ w.free.length) :
    w.put chunk = .ok ⟨w.written ++ chunk, w.free.drop chunk.length⟩ := by
  rw [put, if_pos h]

theorem put_of_lt {w : Writer} {chunk : Bytes} (h : w.free.length < chunk.length) :
    w.put chunk = .error (.invalidArgument (.bufferTooSmall chunk.length w.free.length)) := by
  rw [put, if_neg (by omega)]

/-- Chunks that fit together are written one after the other. -/
theorem putAll_of_le {w : Writer} {chunks : List Bytes}
    (h : chunks.flatten.length ≤ w.free.length) :
    w.putAll chunks =
      (.ok (), ⟨w.written ++ chunks.flatten, w.free.drop chunks.flatten.length⟩) := by
  induction chunks generalizing w with
  | nil => simp [putAll]
  | cons chunk chunks ih =>
    rw [List.flatten_cons, List.length_append] at h
    have hput : w.put chunk = _ := put_of_le (by omega)
    have hrest : chunks.flatten.length ≤ (w.free.drop chunk.length).length := by
      rw [List.length_drop]
      omega
    rw [putAll, hput]
    simp only
    rw [ih hrest]
    simp [List.drop_drop]

theorem fill_length (chunks : List Bytes) :
    fill chunks.flatten.length chunks = .ok chunks.flatten := by
  have hfit : chunks.flatten.length ≤
      (ofBuffer (List.replicate chunks.flatten.length 0)).free.length := by
    simp [ofBuffer]
  have hput := putAll_of_le hfit
  unfold fill
  rw [hput]
  simp [ofBuffer, finish, buffer, bind, Except.bind, pure, Except.pure]

end Writer
end WireFormat
