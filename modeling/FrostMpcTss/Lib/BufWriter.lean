import Mathlib

/-!
# `FrostMpcTss.Lib.BufWriter`: a buffered writer and what is left in its buffer

`BufWriter` keeps a bounded buffer in front of an inner sink.
`writeAll` follows the standard library's documented behaviour: data
that fits goes into the buffer; data that does not fit flushes the
buffer first; data as long as the whole buffer goes straight to the
inner sink. The bound on the buffer is a field of the structure, so
every writer that can be built respects it.

A reader of the buffer alone sees only what was not flushed.
`buf_writeAlls_of_le` says that a run of writes within the capacity
stays in the buffer whole, and `length_buf_writeAlls_lt` says how
much a run beyond the capacity has lost: everything that stood in
the buffer at the first flush.
-/

set_option autoImplicit false

namespace FrostMpcTss.Lib

/-- A buffered writer of capacity `cap` over an in-memory sink. -/
structure BufWriter (α : Type) (cap : Nat) where
  inner : List α
  buf : List α
  fits : buf.length ≤ cap

namespace BufWriter

variable {α : Type} {cap : Nat}

/-- A writer over an empty sink. -/
def new : BufWriter α cap where
  inner := []
  buf := []
  fits := Nat.zero_le cap

/-- What the buffer can still take. -/
def spareCapacity (w : BufWriter α cap) : Nat := cap - w.buf.length

/-- Hand the buffer to the inner sink. -/
def flushBuf (w : BufWriter α cap) : BufWriter α cap where
  inner := w.inner ++ w.buf
  buf := []
  fits := Nat.zero_le cap

/-- Write `data` whole. Data shorter than the spare capacity goes to
the buffer at once. Otherwise the buffer is flushed if the data is
longer than the spare capacity, and the data goes to the buffer when
it is shorter than the capacity and to the inner sink when it is
not. -/
def writeAll (w : BufWriter α cap) (data : List α) : BufWriter α cap :=
  if hlt : data.length < w.spareCapacity then
    { w with
        buf := w.buf ++ data
        fits := by
          rw [List.length_append]
          unfold spareCapacity at hlt
          omega }
  else if hflush : w.spareCapacity < data.length then
    if hbig : cap ≤ data.length then
      { w.flushBuf with inner := w.flushBuf.inner ++ data }
    else
      { w.flushBuf with
          buf := data
          fits := by omega }
  else if hbig : cap ≤ data.length then
    { w with inner := w.inner ++ data }
  else
    { w with
        buf := w.buf ++ data
        fits := by
          have hfits := w.fits
          rw [List.length_append]
          unfold spareCapacity at hlt hflush
          omega }

/-- One write per chunk, in order. -/
def writeAlls (w : BufWriter α cap) (chunks : List (List α)) : BufWriter α cap :=
  chunks.foldl writeAll w

/-- The buffer after one write. -/
theorem buf_writeAll (w : BufWriter α cap) (data : List α) :
    (w.writeAll data).buf
      = if data.length < cap then
          if w.buf.length + data.length ≤ cap then w.buf ++ data else data
        else [] := by
  have hfits := w.fits
  unfold writeAll spareCapacity
  split
  · rw [if_pos (by omega), if_pos (by omega)]
  · split
    · split
      · rw [if_neg (by omega)]
        rfl
      · rw [if_pos (by omega), if_neg (by omega)]
    · split
      · -- The data is as long as the capacity and still fits: the buffer was empty.
        rw [if_neg (by omega)]
        exact List.eq_nil_of_length_eq_zero (by simp only; omega)
      · rw [if_pos (by omega), if_pos (by omega)]

@[simp] theorem writeAlls_nil (w : BufWriter α cap) : w.writeAlls [] = w := rfl

@[simp] theorem writeAlls_cons (w : BufWriter α cap) (c : List α) (cs : List (List α)) :
    w.writeAlls (c :: cs) = (w.writeAll c).writeAlls cs := rfl

/-- Chunks that fit together stay in the buffer, one after the
other. Each must be shorter than the capacity, since a chunk of
exactly that length bypasses the buffer. -/
theorem buf_writeAlls_of_le (chunks : List (List α)) :
    ∀ w : BufWriter α cap, (∀ c ∈ chunks, c.length < cap) →
      w.buf.length + chunks.flatten.length ≤ cap →
      (w.writeAlls chunks).buf = w.buf ++ chunks.flatten := by
  induction chunks with
  | nil => intro w _ _; simp
  | cons c cs ih =>
      intro w hlt hle
      rw [List.flatten_cons, List.length_append] at hle
      have hbuf : (w.writeAll c).buf = w.buf ++ c := by
        rw [buf_writeAll, if_pos (hlt c (by simp)), if_pos (by omega)]
      rw [writeAlls_cons, ih _ (fun c' hc' => hlt c' (by simp [hc'])), hbuf,
        List.flatten_cons, List.append_assoc]
      rw [hbuf, List.length_append]
      omega

/-- The buffer never holds more than was written. -/
theorem length_buf_writeAlls_le (chunks : List (List α)) :
    ∀ w : BufWriter α cap,
      (w.writeAlls chunks).buf.length ≤ w.buf.length + chunks.flatten.length := by
  induction chunks with
  | nil => intro w; simp
  | cons c cs ih =>
      intro w
      have hstep : (w.writeAll c).buf.length ≤ w.buf.length + c.length := by
        rw [buf_writeAll]
        split
        · split
          · rw [List.length_append]
          · omega
        · simp
      have hrec := ih (w.writeAll c)
      rw [writeAlls_cons, List.flatten_cons, List.length_append]
      omega

/-- Chunks of at most `bound` elements that together exceed the
capacity lose more than `cap - bound` of what was written: the first
flush empties a buffer that had less than one chunk of room left. -/
theorem length_buf_writeAlls_lt {bound : Nat} (hbound : bound < cap)
    (chunks : List (List α)) :
    ∀ w : BufWriter α cap, (∀ c ∈ chunks, c.length ≤ bound) →
      cap < w.buf.length + chunks.flatten.length →
      (w.writeAlls chunks).buf.length + (cap - bound)
        < w.buf.length + chunks.flatten.length := by
  induction chunks with
  | nil =>
      intro w _ hgt
      have hfits := w.fits
      simp only [List.flatten_nil, List.length_nil] at hgt
      omega
  | cons c cs ih =>
      intro w hle hgt
      have hc : c.length ≤ bound := hle c (by simp)
      rw [List.flatten_cons, List.length_append] at hgt
      rw [writeAlls_cons, List.flatten_cons, List.length_append]
      by_cases hroom : w.buf.length + c.length ≤ cap
      · -- No flush at this chunk, so the loss lies further on.
        have hbuf : (w.writeAll c).buf = w.buf ++ c := by
          rw [buf_writeAll, if_pos (by omega), if_pos hroom]
        have hrec := ih (w.writeAll c) (fun c' hc' => hle c' (by simp [hc']))
        rw [hbuf, List.length_append] at hrec
        have := hrec (by omega)
        omega
      · -- The flush drops the whole buffer, and nothing of it comes back.
        have hbuf : (w.writeAll c).buf = c := by
          rw [buf_writeAll, if_pos (by omega), if_neg hroom]
        have hrec := length_buf_writeAlls_le cs (w.writeAll c)
        rw [hbuf] at hrec
        omega

end BufWriter

end FrostMpcTss.Lib
