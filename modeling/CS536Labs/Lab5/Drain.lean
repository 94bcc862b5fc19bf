import CS536Labs.Lab5.InterruptedWrite
import CS536Labs.Lab5.QueueFifo

/-!
# The drain loop at the end of `start_client`

`stream_audio_to_device` reads one frame and writes it to the audio device; when there is no whole
frame in the queue it reads nothing, and returns 0 all the same. The loop calls it as long as
anything is queued. The device accepts every write, and `clock` says which calls of `gettimeofday`
in `log_stream` succeed.

`drain_terminates_iff` is the condition on which the loop ends, and `drain_played` what was played
then.
-/

namespace CS536Labs.Lab5

/-- `stream_audio_to_device`: the queue, the bytes written to the device, and the return value. -/
def streamAudioToDevice (queue : Queue) (clock : Bool) : Queue × List UInt8 × ℤ :=
  let r := readQueue queue audioFrameSize
  (r.1, if r.2.2 > 0 then r.2.1 else [], if clock then 0 else -1)

/-- The drain loop from the `i`-th iteration on, `none` when it does not end within as many
iterations: the queue, the bytes written to the device, and the return value of the call that
ended it, or 0. -/
def drain (clock : ℕ → Bool) : ℕ → ℕ → Queue → Option (Queue × List UInt8 × ℤ)
  | 0, _, _ => none
  | fuel + 1, i, queue =>
    if getQueueLoad queue > 0 then
      let r := streamAudioToDevice queue (clock i)
      if r.2.2 < 0 then some r
      else (drain clock fuel (i + 1) r.1).map fun t => (t.1, r.2.1 ++ t.2.1, t.2.2)
    else some (queue, [], 0)

/-- The loop ends after finitely many iterations. -/
def DrainTerminates (clock : ℕ → Bool) (queue : Queue) : Prop :=
  ∃ fuel r, drain clock fuel 0 queue = some r

/-- The number of bytes that are read: a whole frame, or nothing. -/
def frameOf (buf : List UInt8) : ℕ := if audioFrameSize ≤ buf.length then audioFrameSize else 0

section

variable {L : ℕ} {queue : Queue} {buf : List UInt8} {clock : ℕ → Bool}

/-- **One call.** -/
theorem streamAudioToDevice_eq (h : Represents L queue buf) (hL : L ≤ sizeMax) (ok : Bool) :
    streamAudioToDevice queue ok =
        (queue.moveTail (frameOf buf), buf.take (frameOf buf), if ok then 0 else -1) ∧
      Represents L (queue.moveTail (frameOf buf)) (buf.drop (frameOf buf)) := by
  rw [streamAudioToDevice]
  by_cases hframe : audioFrameSize ≤ buf.length
  · rw [frameOf, if_pos hframe]
    obtain ⟨hread, hrep⟩ := readQueue_done h hL hframe
    have hret : toSsize audioFrameSize > 0 := by decide
    rw [hread]
    exact ⟨by simp only [if_pos hret], hrep⟩
  · rw [frameOf, if_neg hframe, readQueue_refused h hL (Nat.lt_of_not_le hframe),
      h.moveTail_zero]
    exact ⟨rfl, h⟩

/-- **One iteration.** -/
theorem drain_succ (h : Represents L queue buf) (hL : L ≤ sizeMax) (fuel i : ℕ) :
    drain clock (fuel + 1) i queue =
      if buf = [] then some (queue, [], 0)
      else if clock i then
        (drain clock fuel (i + 1) (queue.moveTail (frameOf buf))).map fun t =>
          (t.1, buf.take (frameOf buf) ++ t.2.1, t.2.2)
      else some (queue.moveTail (frameOf buf), buf.take (frameOf buf), -1) := by
  rw [drain, getQueueLoad_eq h hL, (streamAudioToDevice_eq h hL (clock i)).1]
  rcases buf with _ | ⟨byte, rest⟩
  · rfl
  · have hload : (byte :: rest).length > 0 := Nat.succ_pos _
    rw [if_pos hload, if_neg (List.cons_ne_nil _ _)]
    cases clock i with
    | true => rfl
    | false => rfl

/-- What is left of a number of bytes that are not whole frames. -/
theorem not_dvd_drop (hdvd : ¬ audioFrameSize ∣ buf.length) :
    ¬ audioFrameSize ∣ (buf.drop (frameOf buf)).length := by
  rw [List.length_drop, frameOf]
  split_ifs with hframe
  · rwa [Nat.dvd_sub_iff_left hframe (Nat.dvd_refl _)]
  · exact hdvd

/-- The loop goes on for ever. -/
theorem drain_eq_none (h : Represents L queue buf) (hL : L ≤ sizeMax)
    (hdvd : ¬ audioFrameSize ∣ buf.length) (hclock : ∀ i, clock i = true) (fuel i : ℕ) :
    drain clock fuel i queue = none := by
  induction fuel generalizing i queue buf with
  | zero => rfl
  | succ fuel ih =>
    have hne : buf ≠ [] := by
      rintro rfl
      exact hdvd (Nat.dvd_zero _)
    rw [drain_succ h hL, if_neg hne, if_pos (hclock i),
      ih (streamAudioToDevice_eq h hL true).2 (not_dvd_drop hdvd)]
    rfl

/-- Whole frames are drained, one in each iteration. -/
theorem exists_drain_of_frames (h : Represents L queue buf) (hL : L ≤ sizeMax) {frames : ℕ}
    (hframes : buf.length = audioFrameSize * frames) (i : ℕ) :
    ∃ r, drain clock (frames + 1) i queue = some r := by
  induction frames generalizing i queue buf with
  | zero =>
    have hnil : buf = [] := List.length_eq_zero_iff.mp hframes
    exact ⟨_, (drain_succ h hL _ _).trans (if_pos hnil)⟩
  | succ frames ih =>
    obtain ⟨-, hrep⟩ := streamAudioToDevice_eq h hL true
    have hframe : audioFrameSize ≤ buf.length := by
      rw [hframes, Nat.mul_succ]
      exact Nat.le_add_left _ _
    have hrest : (buf.drop (frameOf buf)).length = audioFrameSize * frames := by
      rw [List.length_drop, frameOf, if_pos hframe, hframes, Nat.mul_succ, Nat.add_sub_cancel]
    obtain ⟨r, hr⟩ := ih hrep hrest (i + 1)
    rw [drain_succ h hL, hr]
    split_ifs <;> exact ⟨_, rfl⟩

/-- A failed `gettimeofday` ends the loop. -/
theorem exists_drain_of_clock (h : Represents L queue buf) (hL : L ≤ sizeMax) {i k : ℕ}
    (hclock : clock (i + k) = false) : ∃ r, drain clock (k + 1) i queue = some r := by
  induction k generalizing i queue buf with
  | zero =>
    have hnow : ¬ clock i = true := Bool.eq_false_iff.mp hclock
    rw [drain_succ h hL, if_neg hnow]
    split_ifs <;> exact ⟨_, rfl⟩
  | succ k ih =>
    obtain ⟨-, hrep⟩ := streamAudioToDevice_eq h hL true
    obtain ⟨r, hr⟩ := ih hrep (i := i + 1) (by rwa [Nat.add_right_comm])
    rw [drain_succ h hL, hr]
    split_ifs <;> exact ⟨_, rfl⟩

/-- **When the drain ends.** -/
theorem drain_terminates_iff (h : Represents L queue buf) (hL : L ≤ sizeMax) (clock : ℕ → Bool) :
    DrainTerminates clock queue ↔ audioFrameSize ∣ buf.length ∨ ∃ i, clock i = false := by
  constructor
  · rintro ⟨fuel, r, hr⟩
    by_contra hnot
    rw [not_or, not_exists] at hnot
    have hclock : ∀ i, clock i = true := by
      intro i
      simpa using hnot.2 i
    rw [drain_eq_none h hL hnot.1 hclock] at hr
    cases hr
  · rintro (⟨frames, hframes⟩ | ⟨k, hk⟩)
    · exact ⟨frames + 1, exists_drain_of_frames h hL hframes 0⟩
    · exact ⟨k + 1, exists_drain_of_clock h hL (by rwa [Nat.zero_add])⟩

/-- A drain that returns 0 has played everything. -/
theorem drain_played (h : Represents L queue buf) (hL : L ≤ sizeMax) {fuel i : ℕ}
    {r : Queue × List UInt8 × ℤ} (hr : drain clock fuel i queue = some r) (hret : r.2.2 = 0) :
    r.2.1 = buf := by
  induction fuel generalizing i queue buf r with
  | zero => cases hr
  | succ fuel ih =>
    rw [drain_succ h hL] at hr
    split_ifs at hr with hnil hclock
    · rw [← Option.some.inj hr, hnil]
    · obtain ⟨t, ht, rfl⟩ := Option.map_eq_some_iff.mp hr
      have hrest := ih (streamAudioToDevice_eq h hL true).2 ht hret
      show buf.take (frameOf buf) ++ t.2.1 = buf
      rw [hrest, List.take_append_drop]
    · rw [← Option.some.inj hr] at hret
      cases hret

end

/-- One byte in an array for one frame. -/
def oneByte : Queue := ⟨1, 0, 4097, fun _ => 0⟩

theorem represents_oneByte : Represents 4097 oneByte [0] :=
  show Represents 4097 (zeroQueue 0 1 4097) _ from represents_zeroQueue (by decide) (by decide)

/-- Two frames are drained. -/
theorem drain_terminates_zeroQueue : DrainTerminates (fun _ => true) (zeroQueue 0 8192 12289) := by
  have hrep : Represents 12289 (zeroQueue 0 8192 12289) (List.replicate 8192 0) :=
    represents_zeroQueue (by decide) (by decide)
  refine (drain_terminates_iff hrep (by decide) _).mpr (.inl ?_)
  rw [List.length_replicate]
  decide

/-- One byte keeps the loop going. -/
theorem not_drain_terminates_oneByte : ¬ DrainTerminates (fun _ => true) oneByte := by
  rintro ⟨fuel, r, hr⟩
  rw [drain_eq_none represents_oneByte (by decide) (by decide) fun _ => rfl] at hr
  cases hr

end CS536Labs.Lab5
