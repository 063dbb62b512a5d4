import IpodEsp32.Firmware.Disconnection
import IpodEsp32.Flow.Carried
import Mathlib.Order.Bounds.Basic

/-!
# How many updates are stale

An update that follows the reset for a disconnection is stale if its metadata was accepted
before that disconnection. It was under way at the reset: in the hands of
`processAVRCTask`, in the queue, or in the hands of the callback. So a reset is followed by
at most two more stale updates than the queue holds, and some reset by exactly so many
(`stale_isGreatest`).
-/

namespace IpodEsp32

namespace Firmware

/-- The updates of `after` for metadata accepted in `before`. -/
def staleUpdates (before after : List AvrcEvent) : List Update :=
  (updates after).filter fun u => decide (u.1 < (acceptedMetadata before).length)

/-- The numbers of stale updates after a reset, for a disconnection before it, in all
runs. -/
def staleCounts (P : Platform) (capacity : ℕ) : Set ℕ :=
  { n | ∃ (ms : List AvrcMove) (before between after : List AvrcEvent),
    (Transition.run (Avrc.step P) (Avrc.start capacity) ms).2 =
        before ++ .disconnected :: (between ++ .reset :: after) ∧
      (staleUpdates before after).length = n }

variable {capacity : ℕ} {P : Platform}

/-! ### No more than what is under way -/

theorem CallbackPc.length_updates_le (pc : CallbackPc) : (pc.updates P).length ≤ 1 := by
  cases pc with
  | copying | sending => exact Option.length_toList_le
  | idle | freeing => exact Nat.zero_le 1

theorem ConsumerPc.length_updates_le (pc : ConsumerPc) : (pc.updates P).length ≤ 1 := by
  cases pc with
  | processing => exact Option.length_toList_le
  | receiving | freeing => exact Nat.zero_le 1

theorem Avrc.length_flight_le (s : Avrc capacity) : (s.flight P).length ≤ capacity + 2 := by
  have hcallback := s.callback.length_updates_le (P := P)
  have hconsumer := s.consumer.length_updates_le (P := P)
  have hqueue := (List.length_filterMap_le (copyUpdate P) s.queue.items).trans
    s.queue.length_le
  simp only [flight, List.length_append]
  omega

theorem Avrc.Moves.eq_reset {s s' : Avrc capacity} {m : AvrcMove} {events : List AvrcEvent}
    (hm : s.Moves P m events s') (hreset : .reset ∈ events) : events = [.reset] := by
  rcases hm.connection_cases with ⟨rfl, -⟩ | ⟨_, -, -, hevents, -⟩ | ⟨-, hnone, -⟩
  · simp at hreset
  · exact hevents
  · exact absurd hreset hnone

/-- The stale updates were under way when the esPod had been reset. -/
theorem exists_flight_of_stale {ms : List AvrcMove} {before between after : List AvrcEvent}
    (h : (Transition.run (Avrc.step P) (Avrc.start capacity) ms).2 =
      before ++ .disconnected :: (between ++ .reset :: after)) :
    ∃ pre, pre <+: ms ∧ (staleUpdates before after).Sublist
      ((Transition.run (Avrc.step P) (Avrc.start capacity) pre).1.flight P) := by
  rw [← List.cons_append, ← List.append_assoc] at h
  obtain ⟨first, m, rest, front, back, rfl, hstep, hbefore, rfl⟩ :=
    Transition.exists_step_of_run h
  have hm := (Transition.run (Avrc.step P) (Avrc.start capacity) first).1.step_moves P m
  have hevents := hm.eq_reset (hstep ▸ List.mem_append_right front List.mem_cons_self)
  obtain ⟨rfl, rfl⟩ : front = [] ∧ back = [] := by
    rcases List.append_eq_singleton_iff.1 (hstep.symm.trans hevents) with
      ⟨hfront, hback⟩ | ⟨-, hback⟩
    · exact ⟨hfront, (List.cons.inj hback).2⟩
    · cases hback
  have hreset := (delivering_run P capacity (first ++ [m])).flowing
  have hlater := (delivering_run P capacity (first ++ [m] ++ rest)).flowing
  have hcut : Cut (Transition.run (Avrc.step P) (Avrc.start capacity) (first ++ [m])).2
      (acceptedMetadata before).length := by
    rw [List.append_nil] at hbefore
    rw [Transition.run_concat]
    exact Cut.append ⟨before, between, hbefore.symm, rfl⟩ _
  have hle := hcut.le_accepted.trans_eq hreset.counted.symm
  rw [Transition.run_append] at hlater
  refine ⟨first ++ [m], ⟨rest, by rw [List.append_assoc, List.singleton_append]⟩,
    List.Sublist.trans ?_ (hreset.delivered_later hlater)⟩
  rw [Transition.run_concat] at hle ⊢
  refine List.monotone_filter_right _ fun u hu => ?_
  rw [decide_eq_true_eq] at hu ⊢
  exact hu.trans_le hle

/-! ### As many as can be under way -/

theorem letter_ne_zero : (0x00 : UInt8) ∉ [(0x41 : UInt8)] := by
  decide

def letter : CString := ⟨[0x41], letter_ne_zero⟩

def bring (P : Platform) : List AvrcMove :=
  [.metadata P.ids.title (some letter), .callback true, .callback true]

theorem guardChecks_letter (P : Platform) :
    P.guardChecks P.ids.title (some letter) = .ok letter :=
  (guardChecks_ok_iff P).2 ⟨rfl, Or.inr (List.cons_ne_nil _ _)⟩

/-- `n` more updates are under way in the queue, and neither the callback nor the handler
of the connection is running. -/
structure Brought (P : Platform) (n : ℕ) (s s' : Avrc capacity) : Prop where
  callback : s'.callback = .idle
  connection : s'.connection = .idle
  consumer : s'.consumer = s.consumer
  queue : s'.queue.items.length = s.queue.items.length + n
  flight : (s'.flight P).length = (s.flight P).length + n

theorem brought_zero {s : Avrc capacity} (hcallback : s.callback = .idle)
    (hconnection : s.connection = .idle) : Brought P 0 s s :=
  ⟨hcallback, hconnection, rfl, rfl, rfl⟩

theorem Brought.bring {n : ℕ} {s s' : Avrc capacity} (h : Brought P n s s')
    (hroom : s.queue.items.length + n < capacity) :
    Brought P (n + 1) s (Transition.run (Avrc.step P) s' (bring P)).1 := by
  obtain ⟨q, hq, hlen⟩ := Rtos.Queue.exists_send
    (⟨s'.allocated, s'.received, P.ids.title, letter⟩ : Copy) (h.queue.trans_lt hroom)
  have hitems := Rtos.Queue.items_of_send hq
  have hrun : (Transition.run (Avrc.step P) s' (Firmware.bring P)).1 =
      { s' with
        queue := q
        received := s'.received + 1
        allocated := s'.allocated + 1 } := by
    simp [Firmware.bring, Transition.run, Avrc.step, metadataMove, callbackMove, h.callback,
      guardChecks_letter, hq]
  have hflight : (s'.flight P).length + 1 = (s.flight P).length + (n + 1) :=
    congrArg Nat.succ h.flight
  rw [hrun]
  refine ⟨h.callback, h.connection, h.consumer, hlen.trans (congrArg Nat.succ h.queue), ?_⟩
  rw [← hflight]
  simp [Avrc.flight, hitems, h.callback, CallbackPc.updates, copyUpdate, callFor_title,
    Nat.add_assoc]

theorem brought_replicate {s : Avrc capacity} (hcallback : s.callback = .idle)
    (hconnection : s.connection = .idle) (n : ℕ)
    (hroom : s.queue.items.length + n ≤ capacity) :
    Brought P n s
      (Transition.run (Avrc.step P) s (List.replicate n (bring P)).flatten).1 := by
  induction n with
  | zero => exact brought_zero hcallback hconnection
  | succ n ih =>
      have hmore := (ih (Nat.le_of_succ_le hroom)).bring hroom
      rwa [List.replicate_succ', List.flatten_append, List.flatten_singleton,
        Transition.run_append]

theorem receive_one {s : Avrc capacity} (hconsumer : s.consumer = .receiving)
    (hone : s.queue.items.length = 1) :
    (s.step P .process).1.queue.items = [] ∧
      (s.step P .process).1.callback = s.callback ∧
        (s.step P .process).1.connection = s.connection ∧
          (s.step P .process).1.flight P = s.flight P := by
  cases hq : s.queue.receive with
  | none =>
      rw [Rtos.Queue.receive_eq_none_iff.1 hq] at hone
      cases hone
  | some next =>
      have hitems := Rtos.Queue.items_of_receive hq
      have hstep : s.step P .process =
          ({ s with queue := next.2, consumer := .processing next.1 }, []) := by
        simp [Avrc.step, consumerMove, hconsumer, hq]
      rw [hitems, List.length_cons, Nat.add_eq_right] at hone
      rw [hstep]
      exact ⟨List.length_eq_zero_iff.1 hone, rfl, rfl,
        (Avrc.Moves.receive next.1 next.2 hconsumer hitems).flight_process⟩

/-- One title in the hands of `processAVRCTask`, a full queue of them, and one in the hands
of the callback. -/
theorem exists_full (P : Platform) (hcapacity : 0 < capacity) :
    ∃ ms : List AvrcMove,
      let s := (Transition.run (Avrc.step P) (Avrc.start capacity) ms).1
      s.connection = .idle ∧ (s.flight P).length = capacity + 2 := by
  have hfirst : Brought P 1 (Avrc.start capacity)
      (Transition.run (Avrc.step P) (Avrc.start capacity) (bring P)).1 :=
    (brought_zero rfl rfl).bring hcapacity
  obtain ⟨hempty, hcallback, hconnection, hflight⟩ :=
    receive_one (P := P) hfirst.consumer hfirst.queue
  have hmany := brought_replicate (P := P) (hcallback.trans hfirst.callback)
    (hconnection.trans hfirst.connection) capacity (by rw [hempty]; exact (Nat.zero_add _).le)
  refine ⟨bring P ++ [.process] ++ (List.replicate capacity (bring P)).flatten ++
    [.metadata P.ids.title (some letter)], ?_⟩
  rw [Transition.run_concat, Transition.run_append, Transition.run_concat]
  generalize (Transition.run (Avrc.step P) _ (List.replicate capacity (bring P)).flatten).1 = s
    at hmany
  have hstep : (s.step P (.metadata P.ids.title (some letter))).1 =
      { s with
        callback := .copying s.received P.ids.title letter
        received := s.received + 1 } := by
    simp [Avrc.step, metadataMove, hmany.callback, guardChecks_letter]
  have hlast : (({ s with
        callback := .copying s.received P.ids.title letter
        received := s.received + 1 } : Avrc capacity).flight P).length =
      (s.flight P).length + 1 := by
    simp [Avrc.flight, hmany.callback, CallbackPc.updates, callFor_title, Nat.add_assoc]
  have hcount := hmany.flight
  have hone := hfirst.flight
  have hnone : (Avrc.start capacity).flight P = [] := rfl
  rw [hflight, hone, hnone, List.length_nil] at hcount
  simp only [hstep]
  exact ⟨hmany.connection, by omega⟩

/-- The most stale updates that can follow a reset are two more than the queue holds. -/
theorem stale_isGreatest (P : Platform) (hcapacity : 0 < capacity) :
    IsGreatest (staleCounts P capacity) (capacity + 2) := by
  constructor
  · obtain ⟨ms, hidle, hlen⟩ := exists_full P hcapacity
    have hflowing := (delivering_run P capacity ms).flowing
    generalize hreached : Transition.run (Avrc.step P) (Avrc.start capacity) ms = reached
      at hidle hlen hflowing
    obtain ⟨s, h⟩ := reached
    simp only at hidle hlen hflowing
    obtain ⟨more, -, hupdates⟩ := exists_run_updates_eq_flight P hcapacity
      { s with connection := .disabling }
    refine ⟨ms ++ .connectionStateChanged .disconnected :: .connection :: more, h, [],
      (Transition.run (Avrc.step P) { s with connection := .disabling } more).2, ?_, ?_⟩
    · have hdisconnect : s.step P (.connectionStateChanged .disconnected) =
          ({ s with connection := .resetting s.received }, [.disconnected]) := by
        simp [Avrc.step, connectionChange, hidle]
      rw [Transition.run_append, hreached, Transition.run_cons, hdisconnect,
        Transition.run_cons]
      rfl
    · have hbefore := hflowing.before fun r hr => hflowing.conserved.complete.subset
        (List.mem_append_left _ (List.mem_append_right _ hr))
      rw [hflowing.counted] at hbefore
      rw [staleUpdates, hupdates, ← hlen]
      exact congrArg List.length hbefore
  · rintro n ⟨ms, before, between, after, h, rfl⟩
    obtain ⟨pre, -, hsub⟩ := exists_flight_of_stale h
    exact hsub.length_le.trans (Avrc.length_flight_le _)

/-- With the stock size of `avrcMetadataQueue` there are up to 34. -/
theorem stale_isGreatest_espIdf : IsGreatest (staleCounts espIdf 32) 34 :=
  stale_isGreatest espIdf (by decide)

end Firmware

end IpodEsp32
