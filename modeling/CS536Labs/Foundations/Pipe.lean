import Mathlib.Data.List.Basic

/-!
# Pipes with atomic writes

A byte stream between any number of writers and one reader. The writers write whole messages, each
at once. A read takes some of the bytes that are queued, and the stream keeps no boundaries: what
the reads returned and what is queued are the messages in the order of the writes
(`Pipe.conserved`).
-/

namespace CS536Labs

/-- The messages that were written, what the reads returned, and the bytes in between. -/
structure Pipe {α : Type*} (encode : α → List UInt8) where
  written : List α
  reads : List (List UInt8)
  queue : List UInt8
  conserved : reads.flatten ++ queue = written.flatMap encode
  reads_ne_nil : ∀ chunk ∈ reads, chunk ≠ []

namespace Pipe

variable {α : Type*} {encode : α → List UInt8}

/-- The pipe before the first write. -/
def empty : Pipe encode where
  written := []
  reads := []
  queue := []
  conserved := rfl
  reads_ne_nil := by simp

/-- A message is written. -/
def write (pipe : Pipe encode) (a : α) : Pipe encode where
  written := pipe.written ++ [a]
  reads := pipe.reads
  queue := pipe.queue ++ encode a
  conserved := by
    rw [← List.append_assoc, pipe.conserved, List.flatMap_append, List.flatMap_singleton]
  reads_ne_nil := pipe.reads_ne_nil

/-- A read into a buffer of `size` bytes returns the first `n` bytes that are queued. -/
def read (pipe : Pipe encode) (size n : ℕ) : Option (List UInt8 × Pipe encode) :=
  if h : 0 < n ∧ n ≤ size ∧ n ≤ pipe.queue.length then
    some (pipe.queue.take n,
      { written := pipe.written
        reads := pipe.reads ++ [pipe.queue.take n]
        queue := pipe.queue.drop n
        conserved := by
          rw [List.flatten_append, List.flatten_singleton, List.append_assoc,
            List.take_append_drop, pipe.conserved]
        reads_ne_nil := by
          intro chunk hchunk
          rcases List.mem_append.mp hchunk with hchunk | hchunk
          · exact pipe.reads_ne_nil chunk hchunk
          · rw [List.mem_singleton.mp hchunk, ← List.length_pos_iff, List.length_take]
            omega })
  else none

/-- **What a read does.** -/
theorem read_eq_some {pipe pipe' : Pipe encode} {size n : ℕ} {chunk : List UInt8}
    (h : pipe.read size n = some (chunk, pipe')) :
    chunk ≠ [] ∧ chunk = pipe.queue.take n ∧ pipe.queue = chunk ++ pipe'.queue ∧
      pipe'.reads = pipe.reads ++ [chunk] ∧ pipe'.written = pipe.written := by
  rw [read] at h
  split_ifs at h with hn
  obtain ⟨rfl, rfl⟩ := Prod.mk.inj (Option.some.inj h)
  refine ⟨?_, rfl, (List.take_append_drop n pipe.queue).symm, rfl, rfl⟩
  rw [← List.length_pos_iff, List.length_take]
  omega

theorem length_le_of_read {pipe pipe' : Pipe encode} {size n : ℕ} {chunk : List UInt8}
    (h : pipe.read size n = some (chunk, pipe')) : chunk.length ≤ size := by
  rw [read] at h
  split_ifs at h with hn
  obtain ⟨rfl, -⟩ := Prod.mk.inj (Option.some.inj h)
  rw [List.length_take]
  omega

/-- A read can return any non-empty prefix of the queue that fits the buffer. -/
theorem exists_read_eq_some {pipe : Pipe encode} {size : ℕ} {chunk rest : List UInt8}
    (hqueue : pipe.queue = chunk ++ rest) (hne : chunk ≠ []) (hsize : chunk.length ≤ size) :
    ∃ pipe', pipe.read size chunk.length = some (chunk, pipe') ∧ pipe'.queue = rest ∧
      pipe'.written = pipe.written := by
  have hpos := List.length_pos_iff.mpr hne
  have hlength : pipe.queue.length = chunk.length + rest.length := by
    rw [hqueue, List.length_append]
  have htake : pipe.queue.take chunk.length = chunk := by rw [hqueue, List.take_left]
  have hdrop : pipe.queue.drop chunk.length = rest := by rw [hqueue, List.drop_left]
  exact ⟨_, (dif_pos ⟨hpos, hsize, by omega⟩).trans (congrArg some (Prod.ext htake rfl)), hdrop,
    rfl⟩

end Pipe

end CS536Labs
