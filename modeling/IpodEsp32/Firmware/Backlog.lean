import IpodEsp32.Firmware.Metadata
import IpodEsp32.Flow.Backlog

/-!
# Bursts of metadata

`avrc_metadata_callback` does not wait for room in `avrcMetadataQueue`. Whether a run
discards metadata for want of room can be told from the order of its sends and receives
alone: it does not exactly when in no part of the run the callback sends more, beyond what
`processAVRCTask` receives, than the queue holds (`none_discarded_iff_balanced`).
-/

namespace IpodEsp32

namespace Firmware

open Flow (Tick)

variable {capacity : ℕ} {P : Platform}

def AvrcEvent.isNotQueued : AvrcEvent → Bool
  | .notQueued _ _ => true
  | _ => false

/-- What a move is to `avrcMetadataQueue`: a send, or a receive. -/
def queueTick (s : Avrc capacity) : AvrcMove → Option Tick
  | .callback _ => match s.callback with
    | .sending _ => some .arrive
    | _ => none
  | .process => match s.consumer with
    | .receiving => some .serve
    | _ => none
  | _ => none

def Avrc.level (s : Avrc capacity) : ℕ := s.queue.items.length

theorem level_of_tick_none {s : Avrc capacity} {m : AvrcMove} (htick : queueTick s m = none) :
    (s.step P m).1.level = s.level := by
  have hm := s.step_moves P m
  generalize (s.step P m).1 = s', (s.step P m).2 = events at hm
  cases hm with
  | send strdup c q hpc hq => simp [queueTick, hpc] at htick
  | receive c q hpc hq => simp [queueTick, hpc] at htick
  | _ => rfl

theorem queueBacklogged :
    Flow.Backlogged (Avrc.step P : Avrc capacity → _) (fun _ _ => True) capacity Avrc.level
      queueTick where
  other s m _ htick := level_of_tick_none htick
  arrive s m _ htick hlt := by
    cases m with
    | callback strdup =>
        cases hpc : s.callback with
        | sending c =>
            obtain ⟨q, hq, hlen⟩ := Rtos.Queue.exists_send c hlt
            simpa [Avrc.step, callbackMove, hpc, hq, Avrc.level] using hlen
        | _ => simp [queueTick, hpc] at htick
    | process => cases hpc : s.consumer <;> simp [queueTick, hpc] at htick
    | metadata | connectionStateChanged | connection => cases htick
  serve s m _ htick := by
    cases m with
    | callback strdup => cases hpc : s.callback <;> simp [queueTick, hpc] at htick
    | process =>
        cases hpc : s.consumer with
        | receiving =>
            cases hq : s.queue.receive with
            | none =>
                have hnone := Rtos.Queue.receive_eq_none_iff.1 hq
                simp [Avrc.step, consumerMove, hpc, hq, Avrc.level, hnone]
            | some next =>
                have hsome := Rtos.Queue.items_of_receive hq
                simp [Avrc.step, consumerMove, hpc, hq, Avrc.level, hsome]
        | _ => simp [queueTick, hpc] at htick
    | metadata | connectionStateChanged | connection => cases htick

theorem none_discarded_iff_room {s : Avrc capacity} {m : AvrcMove} :
    (∀ e ∈ (s.step P m).2, e.isNotQueued = false) ↔
      Flow.Room capacity Avrc.level queueTick s m := by
  constructor
  · intro h htick
    refine lt_of_le_of_ne s.queue.length_le fun hfull => ?_
    cases m with
    | callback strdup =>
        cases hpc : s.callback with
        | sending c =>
            have hfailed := Rtos.Queue.send_eq_none_iff (x := c).2 hfull
            simp [Avrc.step, callbackMove, hpc, hfailed, AvrcEvent.isNotQueued] at h
        | _ => simp [queueTick, hpc] at htick
    | process => cases hpc : s.consumer <;> simp [queueTick, hpc] at htick
    | metadata | connectionStateChanged | connection => cases htick
  · intro hroom
    have hm := s.step_moves P m
    generalize (s.step P m).1 = s', (s.step P m).2 = events at hm
    cases hm with
    | sendFailed strdup c hpc hfull => exact absurd hfull (hroom (by simp [queueTick, hpc])).ne
    | call c hpc => cases P.updateCall c.id c.text <;> simp [AvrcEvent.isNotQueued]
    | _ => simp [AvrcEvent.isNotQueued]

/-- In every interleaving, no metadata is discarded for want of room exactly when in no
part of the run more copies are sent, beyond those received, than the queue can hold. -/
theorem none_discarded_iff_balanced (P : Platform) (capacity : ℕ) (ms : List AvrcMove) :
    (∀ e ∈ (Transition.run (Avrc.step P) (Avrc.start capacity) ms).2,
        e.isNotQueued = false) ↔
      ∀ w, w <:+: Flow.ticks (Avrc.step P) queueTick (Avrc.start capacity) ms →
        Flow.Balanced capacity w := by
  rw [← queueBacklogged.stepsMeet_iff (Transition.stepsMeet_of_forall (fun _ _ _ => trivial) _)
    rfl, Transition.forall_mem_run_iff]
  exact ⟨fun h => h.imp fun s m hm => none_discarded_iff_room.1 hm,
    fun h => h.imp fun s m hm => none_discarded_iff_room.2 hm⟩

end Firmware

end IpodEsp32
