import CS536Labs.Lab5.InterruptedWriteSafety
import Mathlib.Logic.Function.Iterate

/-!
# `get_queue_load` interrupted by the playback signal handler

The main thread compares `head` with `tail` and loads both again for the subtraction; the signal
handler can run any number of times in front of each of the four loads. Nothing but the handler
changes the queue during the call, so that its moments are the numbers of runs so far.

* `Linearizable`: the value is the number of queued bytes at some moment, a write that it rejects
  did not fit at some moment, and it is not above the capacity.
* `interruptedLoad_eq`: the value is the number of bytes at the last load, or the length of the
  array more, when `tail` moves over the end of the array in between.
* `Writer.run_schedule`: the interrupted capacity test of `write_queue` is the one with this load.
-/

namespace CS536Labs.Lab5

/-- What a run of the handler does to the queue. -/
def handlerRun (queue : Queue) : Queue := (readQueue queue audioFrameSize).1

/-- How often the handler runs in front of the loads of `head` and `tail` for the comparison and
for the subtraction. -/
structure Interruptions where
  geHead : ℕ
  geTail : ℕ
  subHead : ℕ
  subTail : ℕ

/-- The runs in front of the load of `tail` for the comparison. -/
def Interruptions.compared (i : Interruptions) : ℕ := i.geHead + i.geTail

/-- All runs. -/
def Interruptions.total (i : Interruptions) : ℕ := i.compared + (i.subHead + i.subTail)

/-- `get_queue_load` with its interruptions. -/
def interruptedLoad (queue : Queue) (i : Interruptions) : ℕ :=
  let atGeHead := handlerRun^[i.geHead] queue
  let atGeTail := handlerRun^[i.geTail] atGeHead
  let atSubHead := handlerRun^[i.subHead] atGeTail
  let atSubTail := handlerRun^[i.subTail] atSubHead
  if atGeHead.head ≥ atGeTail.tail then sizeSub atSubHead.head atSubTail.tail
  else sizeSub (sizeAdd atSubHead.length atSubHead.head) atSubTail.tail

/-- The number of queued bytes: those from `tail` up to `head`, around the array. -/
def Queue.queued (queue : Queue) : ℕ := (queue.head + queue.length - queue.tail) % queue.length

/-- The call has the value of a moment during it, and so have the decisions based on it. -/
structure Linearizable (queue : Queue) (i : Interruptions) : Prop where
  load_eq : ∃ moment ≤ i.total, interruptedLoad queue i = (handlerRun^[moment] queue).queued
  /-- The capacity test of `write_queue`. -/
  rejected : ∀ length ≤ 65535,
    sizeAdd (interruptedLoad queue i) length > sizeSub queue.length 1 →
      ∃ moment ≤ i.total, queue.length - 1 < (handlerRun^[moment] queue).queued + length
  /-- What the congestion control laws see. -/
  load_le : interruptedLoad queue i ≤ queue.length - 1

/-- How many frames the handler takes from the queue in some runs. -/
def framesRead (queued runs : ℕ) : ℕ := min runs (queued / audioFrameSize)

/-- Between the two loads of `tail` the handler moves it over the end of the array. -/
def TailWraps (queue : Queue) (i : Interruptions) : Prop :=
  queue.tail + audioFrameSize * framesRead queue.queued i.compared < queue.length ∧
    queue.length ≤ queue.tail + audioFrameSize * framesRead queue.queued i.total

instance (queue : Queue) (i : Interruptions) : Decidable (TailWraps queue i) :=
  inferInstanceAs (Decidable (_ ∧ _))

theorem framesRead_le (queued runs : ℕ) : audioFrameSize * framesRead queued runs ≤ queued := by
  unfold framesRead audioFrameSize
  omega

theorem framesRead_mono (queued : ℕ) {runs runs' : ℕ} (h : runs ≤ runs') :
    audioFrameSize * framesRead queued runs ≤ audioFrameSize * framesRead queued runs' := by
  unfold framesRead audioFrameSize
  omega

section Functions

variable {L : ℕ} {queue : Queue} {buf : List UInt8}

theorem Represents.queued_eq (h : Represents L queue buf) : queue.queued = buf.length := by
  have htail := h.tail_lt
  have hlen := h.holds.length_lt
  have hhead := h.holds.head_eq_ite
  rw [Queue.queued, h.length_eq]
  split_ifs at hhead with hwrap
  · have hsum : queue.head + L - queue.tail = buf.length + L := by omega
    rw [hsum, Nat.add_mod_right, Nat.mod_eq_of_lt hlen]
  · have hsum : queue.head + L - queue.tail = buf.length := by omega
    rw [hsum, Nat.mod_eq_of_lt hlen]

/-- **The runs of the handler** move `tail` over the frames that are read. -/
theorem handlerRun_iterate (h : Represents L queue buf) (hL : L ≤ sizeMax) (runs : ℕ) :
    handlerRun^[runs] queue =
        queue.moveTail (audioFrameSize * framesRead buf.length runs) ∧
      Represents L (handlerRun^[runs] queue)
        (buf.drop (audioFrameSize * framesRead buf.length runs)) := by
  induction runs with
  | zero =>
    rw [framesRead, Nat.zero_min, Nat.mul_zero, h.moveTail_zero]
    exact ⟨rfl, h⟩
  | succ runs ih =>
    obtain ⟨heq, hrep⟩ := ih
    rw [Function.iterate_succ_apply']
    have hle := framesRead_le buf.length runs
    have hleft : (buf.drop (audioFrameSize * framesRead buf.length runs)).length =
        buf.length - audioFrameSize * framesRead buf.length runs := List.length_drop
    rcases Nat.lt_or_ge buf.length (audioFrameSize * framesRead buf.length runs + audioFrameSize)
      with hlt | hge
    · have hread := readQueue_refused hrep hL (n := audioFrameSize) (by omega)
      have hframes : framesRead buf.length (runs + 1) = framesRead buf.length runs := by
        unfold framesRead audioFrameSize at *
        omega
      rw [handlerRun, hread, hframes]
      exact ⟨heq, hrep⟩
    · obtain ⟨hread, hrep'⟩ := readQueue_done hrep hL (n := audioFrameSize) (by omega)
      have hframes : audioFrameSize * framesRead buf.length (runs + 1) =
          audioFrameSize * framesRead buf.length runs + audioFrameSize := by
        unfold framesRead audioFrameSize at *
        omega
      rw [handlerRun, hread, hframes]
      refine ⟨?_, ?_⟩
      · rw [heq, Queue.moveTail_moveTail]
      · rw [← List.drop_drop]
        exact hrep'

/-- `head` stays, and `tail` has gone at most once around the array. -/
theorem handlerRun_iterate_indices (h : Represents L queue buf) (hL : L ≤ sizeMax) (runs : ℕ) :
    (handlerRun^[runs] queue).head = queue.head ∧
      (handlerRun^[runs] queue).tail =
        if queue.tail + audioFrameSize * framesRead buf.length runs < L then
          queue.tail + audioFrameSize * framesRead buf.length runs
        else queue.tail + audioFrameSize * framesRead buf.length runs - L := by
  have hle := framesRead_le buf.length runs
  have hlen := h.holds.length_lt
  rw [(handlerRun_iterate h hL runs).1, Queue.moveTail_tail, h.length_eq,
    RingBuffer.index_eq h.tail_lt (by omega)]
  exact ⟨rfl, rfl⟩

theorem queued_handlerRun (h : Represents L queue buf) (hL : L ≤ sizeMax) (runs : ℕ) :
    (handlerRun^[runs] queue).queued =
      buf.length - audioFrameSize * framesRead buf.length runs := by
  rw [(handlerRun_iterate h hL runs).2.queued_eq, List.length_drop]

/-- `tail` is not above `head` when the bytes do not go around the array, or when `tail` has gone
around it. -/
theorem tail_le_head_iff (h : Represents L queue buf) (hL : L ≤ sizeMax) (runs : ℕ) :
    (handlerRun^[runs] queue).tail ≤ queue.head ↔
      queue.tail + buf.length < L ∨
        L ≤ queue.tail + audioFrameSize * framesRead buf.length runs := by
  obtain ⟨-, htail⟩ := handlerRun_iterate_indices h hL runs
  have hle := framesRead_le buf.length runs
  have hlen := h.holds.length_lt
  have hlt := h.tail_lt
  have hhead := h.holds.head_eq_ite
  rw [htail]
  generalize audioFrameSize * framesRead buf.length runs = read at *
  split_ifs at hhead ⊢ <;> omega

/-- The comparison is with `tail` at its first load, and the subtraction with `tail` at its
second. -/
theorem interruptedLoad_eq_sizeSub (h : Represents L queue buf) (hL : L ≤ sizeMax)
    (i : Interruptions) :
    interruptedLoad queue i =
      if (handlerRun^[i.compared] queue).tail ≤ queue.head then
        sizeSub queue.head (handlerRun^[i.total] queue).tail
      else sizeSub (sizeAdd L queue.head) (handlerRun^[i.total] queue).tail := by
  have hcompared : handlerRun^[i.geTail] (handlerRun^[i.geHead] queue) =
      handlerRun^[i.compared] queue := by
    rw [← Function.iterate_add_apply, Nat.add_comm]
    rfl
  have hsubHead : handlerRun^[i.subHead] (handlerRun^[i.compared] queue) =
      handlerRun^[i.subHead + i.compared] queue := (Function.iterate_add_apply ..).symm
  have htotal : handlerRun^[i.subTail] (handlerRun^[i.subHead + i.compared] queue) =
      handlerRun^[i.total] queue := by
    rw [← Function.iterate_add_apply, ← Nat.add_assoc, Nat.add_comm, Nat.add_comm i.subTail]
    rfl
  have hhead (runs : ℕ) : (handlerRun^[runs] queue).head = queue.head :=
    (handlerRun_iterate_indices h hL runs).1
  have hlength := (handlerRun_iterate h hL (i.subHead + i.compared)).2.length_eq
  simp only [interruptedLoad, hcompared, hsubHead, htotal, hhead, hlength, ge_iff_le]

/-- **The value of `get_queue_load`.** -/
theorem interruptedLoad_eq (h : Represents L queue buf) (hL : L < 2 ^ 63) (i : Interruptions) :
    interruptedLoad queue i =
      (handlerRun^[i.total] queue).queued + if TailWraps queue i then queue.length else 0 := by
  have hmax : L ≤ sizeMax := by
    unfold sizeMax
    omega
  obtain ⟨-, hrep⟩ := handlerRun_iterate h hmax i.total
  have hhead := (handlerRun_iterate_indices h hmax i.total).1
  have hcompared := tail_le_head_iff h hmax i.compared
  have htotal := tail_le_head_iff h hmax i.total
  have hmono : audioFrameSize * framesRead buf.length i.compared ≤
      audioFrameSize * framesRead buf.length i.total :=
    framesRead_mono buf.length (Nat.le_add_right _ _)
  have hle := framesRead_le buf.length i.total
  have hlt := h.holds.head_lt
  have htail := hrep.tail_lt
  have hwraps : TailWraps queue i ↔
      queue.tail + audioFrameSize * framesRead buf.length i.compared < L ∧
        L ≤ queue.tail + audioFrameSize * framesRead buf.length i.total := by
    rw [TailWraps, h.length_eq, h.queued_eq]
  rw [interruptedLoad_eq_sizeSub h hmax, if_congr hwraps rfl rfl, h.length_eq, hrep.queued_eq]
  by_cases hge : (handlerRun^[i.compared] queue).tail ≤ queue.head
  · -- `tail` cannot pass `head` any more.
    have hle' : (handlerRun^[i.total] queue).tail ≤ queue.head := by omega
    rw [if_pos hge, if_neg (by omega), sizeSub_of_le hle' (by omega), Nat.add_zero,
      ← hrep.holds.sub_eq_length (by rwa [hhead]), hhead]
  · have hsum : sizeAdd L queue.head = L + queue.head :=
      sizeAdd_of_le (by unfold sizeMax; omega)
    rw [if_neg hge, hsum, sizeSub_of_le (by omega) (by unfold sizeMax; omega)]
    by_cases hgone : L ≤ queue.tail + audioFrameSize * framesRead buf.length i.total
    · have hle' : (handlerRun^[i.total] queue).tail ≤ queue.head := by omega
      rw [if_pos ⟨by omega, hgone⟩, ← hrep.holds.sub_eq_length (by rwa [hhead]), hhead]
      omega
    · have hlt' : queue.head < (handlerRun^[i.total] queue).tail := by omega
      rw [if_neg fun hboth => hgone hboth.2, Nat.add_zero,
        ← hrep.holds.add_sub_eq_length (by rwa [hhead]), hhead]

/-- **When the load is one of a moment.** -/
theorem linearizable_iff (h : Represents L queue buf) (hL : L < 2 ^ 63) (i : Interruptions) :
    Linearizable queue i ↔ ¬ TailWraps queue i := by
  have hlen := h.holds.length_lt
  have hload := interruptedLoad_eq h hL i
  have hmax : L ≤ sizeMax := by
    unfold sizeMax
    omega
  constructor
  · rintro ⟨-, -, hle⟩ hwraps
    rw [hload, if_pos hwraps, h.length_eq] at hle
    omega
  · intro hwraps
    rw [if_neg hwraps, Nat.add_zero] at hload
    have hle : interruptedLoad queue i ≤ queue.length - 1 := by
      rw [hload, queued_handlerRun h hmax, h.length_eq]
      omega
    refine ⟨⟨i.total, Nat.le_refl _, hload⟩, fun length hlength htest => ?_, hle⟩
    refine ⟨i.total, Nat.le_refl _, ?_⟩
    rw [h.length_eq] at hle htest ⊢
    rw [← hload]
    rwa [sizeAdd_of_le (by unfold sizeMax; omega), sizeSub_of_le (by omega) hmax] at htest

end Functions

/-- Two frames, which the handler reads between the loads for the comparison and behind it. -/
theorem linearizable_zeroQueue :
    (handlerRun^[2] (zeroQueue 0 8192 12289)).tail = 8192 ∧
      interruptedLoad (zeroQueue 0 8192 12289) ⟨0, 1, 1, 0⟩ = 0 ∧
      Linearizable (zeroQueue 0 8192 12289) ⟨0, 1, 1, 0⟩ := by
  have hrep : Represents 12289 (zeroQueue 0 8192 12289) (List.replicate 8192 0) :=
    represents_zeroQueue (by decide) (by decide)
  have hqueued := hrep.queued_eq
  rw [List.length_replicate] at hqueued
  have hwraps : ¬ TailWraps (zeroQueue 0 8192 12289) ⟨0, 1, 1, 0⟩ := by
    rw [TailWraps, hqueued]
    decide
  have htail := (handlerRun_iterate_indices hrep (by decide) 2).2
  have hload := interruptedLoad_eq hrep (by decide) ⟨0, 1, 1, 0⟩
  rw [if_neg hwraps, queued_handlerRun hrep (by decide), List.length_replicate] at hload
  rw [List.length_replicate] at htail
  exact ⟨htail.trans (by decide), hload.trans (by decide),
    (linearizable_iff hrep (by decide) _).mpr hwraps⟩

/-- Two frames were read and three written, so that one frame is left, with `tail` at the last cell
of the array. -/
def lastFrame : Queue := ⟨4095, 8192, 8193, fun _ => 0⟩

theorem represents_lastFrame : Represents 8193 lastFrame (List.replicate 4096 0) :=
  show Represents 8193 (zeroQueue 8192 4096 8193) _ from
    represents_zeroQueue (by decide) (by decide)

/-- The handler reads it between the comparison and the subtraction: the load is above the
capacity. -/
theorem not_linearizable_lastFrame :
    interruptedLoad lastFrame ⟨0, 0, 1, 0⟩ = 8193 ∧ ¬ Linearizable lastFrame ⟨0, 0, 1, 0⟩ := by
  have hqueued := represents_lastFrame.queued_eq
  rw [List.length_replicate] at hqueued
  have hwraps : TailWraps lastFrame ⟨0, 0, 1, 0⟩ := by
    rw [TailWraps, hqueued]
    decide
  have hload := interruptedLoad_eq represents_lastFrame (by decide) ⟨0, 0, 1, 0⟩
  rw [if_pos hwraps, queued_handlerRun represents_lastFrame (by decide),
    List.length_replicate] at hload
  refine ⟨hload, fun h => ?_⟩
  have hle := h.load_le
  rw [hload] at hle
  exact absurd hle (by decide)

/-! ## The capacity test of `write_queue` -/

/-- The runs of the handler and the loads, in order. -/
def Interruptions.schedule (i : Interruptions) : List WriterLabel :=
  List.replicate i.geHead .handler ++ .access :: (List.replicate i.geTail .handler ++ .access ::
    (List.replicate i.subHead .handler ++ .access :: (List.replicate i.subTail .handler ++
      [.access])))

namespace Writer

theorem queue_iterate_handler (s : Writer) (runs : ℕ) :
    (handler^[runs] s).queue = handlerRun^[runs] s.queue := by
  induction runs with
  | zero => rfl
  | succ runs ih =>
    rw [Function.iterate_succ_apply', Function.iterate_succ_apply', ← ih]
    rfl

/-- Runs of the handler, and the next load. -/
theorem run_handlers (s : Writer) (pc : Pc) (runs : ℕ) (as : List WriterLabel) {t : Writer}
    (h : ({ handler^[runs] s with pc := pc } : Writer).exec .access = some t) :
    LTS.run exec (fun _ a => a.Fits) { s with pc := pc }
        (List.replicate runs .handler ++ .access :: as) =
      LTS.run exec (fun _ a => a.Fits) t as := by
  induction runs generalizing s with
  | zero => exact LTS.run_cons trivial h as
  | succ runs ih =>
    rw [List.replicate_succ, List.cons_append, LTS.run_cons trivial rfl]
    exact ih s.handler h

/-- Runs of the handler in front of a load that leads to another one. -/
theorem run_handlers_load (s : Writer) (pc pc' : Pc) (runs : ℕ) (as : List WriterLabel)
    (h : ({ handler^[runs] s with pc := pc } : Writer).exec .access =
      some { handler^[runs] s with pc := pc' }) :
    LTS.run exec (fun _ a => a.Fits) { s with pc := pc }
        (List.replicate runs .handler ++ .access :: as) =
      LTS.run exec (fun _ a => a.Fits) { handler^[runs] s with pc := pc' } as :=
  run_handlers s pc runs as h

/-- **The capacity test with its interruptions.** -/
theorem run_schedule (s : Writer) (i : Interruptions) :
    LTS.run exec (fun _ a => a.Fits) { s with pc := .geHead } i.schedule =
      some ((handler^[i.total] s).test (interruptedLoad s.queue i)) := by
  have htotal : handler^[i.subTail] (handler^[i.subHead] (handler^[i.geTail]
      (handler^[i.geHead] s))) = handler^[i.total] s := by
    rw [← Function.iterate_add_apply, ← Function.iterate_add_apply, ← Function.iterate_add_apply]
    congr 1
    unfold Interruptions.total Interruptions.compared
    omega
  rw [interruptedLoad, ← htotal]
  simp only [← queue_iterate_handler]
  rw [Interruptions.schedule,
    run_handlers_load s _ (.geTail (handler^[i.geHead] s).queue.head) _ _ rfl]
  generalize handler^[i.geHead] s = atGeHead
  rw [run_handlers_load atGeHead _ (if atGeHead.queue.head ≥
    (handler^[i.geTail] atGeHead).queue.tail then .diffHead else .wrapHead) _ _ rfl]
  generalize handler^[i.geTail] atGeHead = atGeTail
  split_ifs with hge
  · rw [run_handlers_load atGeTail _ (.diffTail (handler^[i.subHead] atGeTail).queue.head) _ _ rfl]
    rw [run_handlers _ _ _ _ rfl]
    exact congrArg some (test_withPc _ _ _)
  · rw [run_handlers_load atGeTail _ (.wrapTail (sizeAdd
      (handler^[i.subHead] atGeTail).queue.length (handler^[i.subHead] atGeTail).queue.head)) _ _
      rfl]
    rw [run_handlers _ _ _ _ rfl]
    exact congrArg some (test_withPc _ _ _)

end Writer

end CS536Labs.Lab5
