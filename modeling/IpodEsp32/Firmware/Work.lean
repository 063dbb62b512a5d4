import IpodEsp32.Firmware.Metadata
import IpodEsp32.Transition.Progress
import Mathlib.Data.Fintype.Basic

/-!
# The work left on the way to the esPod

What the callback and `processAVRCTask` have to do for the metadata under way, counted in
moves. While the Bluetooth stack brings nothing new each move of theirs lowers it
(`workedOff`), and where there is none nothing is under way. Some of their moves lose
nothing, so from any state all that is under way can still be made known
(`exists_run_updates_eq_flight`).
-/

namespace IpodEsp32

namespace Firmware

/-- The two parties that bring metadata on its way. -/
inductive Party
  | callback
  | consumer
  deriving DecidableEq

instance : Fintype Party where
  elems := {.callback, .consumer}
  complete k := by cases k <;> decide

def AvrcMove.party? : AvrcMove → Option Party
  | .callback _ => some .callback
  | .process => some .consumer
  | _ => none

variable {capacity : ℕ} {P : Platform}

/-- The move is not a call of the callback that is to be accepted. -/
def NoNews (P : Platform) (s : Avrc capacity) (m : AvrcMove) : Prop :=
  (s.notification m).filterMap P.admitted = []

instance (P : Platform) (s : Avrc capacity) (m : AvrcMove) : Decidable (NoNews P s m) :=
  inferInstanceAs (Decidable (_ = _))

/-! ### The work left -/

/-- What the callback has to do: a copy to send stands for its processing as well. -/
def CallbackPc.work : CallbackPc → ℕ
  | .idle => 0
  | .copying _ _ _ => 5
  | .sending _ => 4
  | .freeing _ => 1

def ConsumerPc.work : ConsumerPc → ℕ
  | .receiving => 0
  | .processing _ => 2
  | .freeing _ => 1

def Avrc.work : Party → Avrc capacity → ℕ
  | .callback, s => s.callback.work
  | .consumer, s => s.consumer.work + 3 * s.queue.items.length

theorem total_work (s : Avrc capacity) :
    Transition.total Avrc.work s =
      s.callback.work + (s.consumer.work + 3 * s.queue.items.length) := by
  have huniv : (Finset.univ : Finset Party) = {.callback, .consumer} := rfl
  rw [Transition.total, huniv, Finset.sum_insert (by decide), Finset.sum_singleton]
  rfl

section

variable (s : Avrc capacity)

theorem callbackMove_work (strdup : Bool) :
    Transition.total Avrc.work (callbackMove s strdup).1 < Transition.total Avrc.work s ∨
      ((callbackMove s strdup).1 = s ∧ s.callback.work = 0) := by
  simp only [total_work, callbackMove]
  cases hpc : s.callback with
  | idle => exact Or.inr ⟨rfl, rfl⟩
  | copying origin id text =>
      cases strdup with
      | false | true => simp [CallbackPc.work]
  | sending c =>
      cases hq : s.queue.send c with
      | none => simp [hq, CallbackPc.work]
      | some q =>
          simp only [hq, Rtos.Queue.items_of_send hq, List.length_append,
            List.length_singleton, CallbackPc.work]
          omega
  | freeing c => simp [CallbackPc.work]

theorem consumerMove_work :
    Transition.total Avrc.work (consumerMove P s).1 < Transition.total Avrc.work s ∨
      ((consumerMove P s).1 = s ∧ Avrc.work .consumer s = 0) := by
  simp only [total_work, Avrc.work, consumerMove]
  cases hpc : s.consumer with
  | receiving =>
      cases hq : s.queue.receive with
      | none =>
          rw [Rtos.Queue.receive_eq_none_iff.1 hq]
          exact Or.inr ⟨rfl, rfl⟩
      | some next =>
          simp only [Rtos.Queue.items_of_receive hq, List.length_cons, ConsumerPc.work]
          omega
  | processing c | freeing c =>
      simp only [ConsumerPc.work]
      omega

theorem metadataMove_eq_of_noNews {id : UInt8} {text : Option CString}
    (h : NoNews P s (.metadata id text)) : (metadataMove P s id text).1 = s := by
  rw [NoNews, ← accepted_step] at h
  simp only [Avrc.step, metadataMove] at h ⊢
  cases hpc : s.callback with
  | idle =>
      cases hguard : P.guardChecks id text with
      | error why => rfl
      | ok t =>
          simp only [hpc, hguard] at h
          cases h
  | copying | sending | freeing => rfl

theorem work_connectionMove (k : Party) : Avrc.work k (connectionMove s).1 = Avrc.work k s := by
  unfold connectionMove
  split <;> cases k <;> rfl

theorem work_connectionChange (state : ConnectionState) (k : Party) :
    Avrc.work k (connectionChange s state).1 = Avrc.work k s := by
  unfold connectionChange
  split
  · cases state <;> cases k <;> rfl
  · rfl

end

/-- As long as nothing new comes, the two parties work off what is under way. -/
theorem workedOff :
    Transition.WorkedOff (Avrc.step P : Avrc capacity → _) (NoNews P) AvrcMove.party?
      Avrc.work where
  lowers_or_keeps s m hnews := by
    cases m with
    | metadata id text =>
        exact Or.inr fun k => by rw [Avrc.step, metadataMove_eq_of_noNews s hnews]
    | callback strdup =>
        exact (callbackMove_work s strdup).imp_right fun h k => by rw [Avrc.step, h.1]
    | process => exact (consumerMove_work s).imp_right fun h k => by rw [Avrc.step, h.1]
    | connectionStateChanged state => exact Or.inr (work_connectionChange s state)
    | connection => exact Or.inr (work_connectionMove s)
  lowers s m k hnews hparty hwork := by
    cases m with
    | callback strdup =>
        cases hparty
        exact (callbackMove_work s strdup).resolve_right fun h => hwork.ne' h.2
    | process =>
        cases hparty
        exact (consumerMove_work s).resolve_right fun h => hwork.ne' h.2
    | metadata | connectionStateChanged | connection => cases hparty

theorem total_work_le (s : Avrc capacity) :
    Transition.total Avrc.work s ≤ 3 * capacity + 7 := by
  have hqueue := s.queue.length_le
  have hcallback : s.callback.work ≤ 5 := by cases s.callback <;> simp [CallbackPc.work]
  have hconsumer : s.consumer.work ≤ 2 := by cases s.consumer <;> simp [ConsumerPc.work]
  rw [total_work]
  omega

theorem idle_of_total_work {s : Avrc capacity} (h : Transition.total Avrc.work s = 0) :
    s.callback = .idle ∧ s.consumer = .receiving ∧ s.queue.items = [] := by
  have hcallback : s.callback.work = 0 := Transition.work_eq_zero h .callback
  have hconsumer : s.consumer.work + 3 * s.queue.items.length = 0 :=
    Transition.work_eq_zero h .consumer
  refine ⟨?_, ?_, List.length_eq_zero_iff.1 (by omega)⟩
  · cases hpc : s.callback <;> simp_all [CallbackPc.work]
  · cases hpc : s.consumer <;> simp_all [ConsumerPc.work]

theorem flight_of_total_work {s : Avrc capacity} (h : Transition.total Avrc.work s = 0) :
    s.flight P = [] := by
  obtain ⟨hcallback, hconsumer, hqueue⟩ := idle_of_total_work h
  rw [Avrc.flight, hcallback, hconsumer, hqueue]
  rfl

theorem held_of_total_work {s : Avrc capacity} (h : Transition.total Avrc.work s = 0) :
    s.held = [] := by
  obtain ⟨hcallback, hconsumer, hqueue⟩ := idle_of_total_work h
  rw [Avrc.held, hcallback, hconsumer, hqueue]
  rfl

/-! ### What is under way is made known -/

section

variable {s s' : Avrc capacity} {events : List AvrcEvent}

theorem Avrc.Moves.flight_process (hm : s.Moves P .process events s') :
    updates events ++ s'.flight P = s.flight P := by
  cases hm with
  | stay => rfl
  | receive c q hpc hq =>
      simp [Avrc.flight, hpc, hq, ConsumerPc.updates, updates, Flow.filterMap_cons_toList]
  | call c hpc =>
      rw [updateCall_eq]
      cases hcall : P.callFor c.id c.text <;>
        simp [Avrc.flight, hpc, ConsumerPc.updates, copyUpdate, updates, AvrcEvent.update?,
          hcall]
  | freeProcessed c hpc =>
      simp [Avrc.flight, hpc, ConsumerPc.updates, updates, AvrcEvent.update?]

theorem Avrc.Moves.flight_callback (hm : s.Moves P (.callback true) events s')
    (hroom : s.queue.items.length < capacity) :
    updates events ++ s'.flight P = s.flight P := by
  cases hm with
  | stay => rfl
  | copy origin id text hpc =>
      simp [Avrc.flight, hpc, CallbackPc.updates, copyUpdate, updates]
  | send _ c q hpc hq =>
      simp [Avrc.flight, hpc, hq, CallbackPc.updates, updates, Flow.filterMap_cons_toList]
  | sendFailed _ c hpc hfull => exact absurd hfull hroom.ne
  | freeUnsent _ c hpc =>
      simp [Avrc.flight, hpc, CallbackPc.updates, updates, AvrcEvent.update?]

end

/-- The move only brings further what is under way. -/
def Forwards (P : Platform) (s : Avrc capacity) (m : AvrcMove) : Prop :=
  m ≠ .connection ∧ updates (s.step P m).2 ++ (s.step P m).1.flight P = s.flight P

/-- As long as there is work, the callback or `processAVRCTask` can bring what is under way
further. -/
theorem exists_forwards (hcapacity : 0 < capacity) (s : Avrc capacity)
    (hwork : 0 < Transition.total Avrc.work s) :
    ∃ m, Forwards P s m ∧
      Transition.total Avrc.work (s.step P m).1 < Transition.total Avrc.work s := by
  rcases Nat.eq_zero_or_pos (Avrc.work .consumer s) with hnone | hpos
  · -- nothing is queued, so there is room for what the callback sends
    have hconsumer : s.consumer.work + 3 * s.queue.items.length = 0 := hnone
    rw [total_work, hconsumer, Nat.add_zero] at hwork
    exact ⟨.callback true, ⟨nofun, (s.step_moves P _).flight_callback (by omega)⟩,
      (callbackMove_work s true).resolve_right fun h => hwork.ne' h.2⟩
  · exact ⟨.process, ⟨nofun, (s.step_moves P _).flight_process⟩,
      (consumerMove_work s).resolve_right fun h => hpos.ne' h.2⟩

theorem updates_of_forwards {s : Avrc capacity} {ms : List AvrcMove}
    (hforwards : Transition.StepsMeet (Avrc.step P) (Forwards P) s ms) :
    updates (Transition.run (Avrc.step P) s ms).2 ++
      (Transition.run (Avrc.step P) s ms).1.flight P = s.flight P := by
  induction ms generalizing s with
  | nil => rfl
  | cons m ms ih =>
      rw [Transition.stepsMeet_cons] at hforwards
      rw [Transition.run_cons, updates, List.filterMap_append, List.append_assoc]
      exact (congrArg _ (ih hforwards.2)).trans hforwards.1.2

/-- The callback and `processAVRCTask` can go on until every update under way has been
made. -/
theorem exists_run_updates_eq_flight (P : Platform) (hcapacity : 0 < capacity)
    (s : Avrc capacity) :
    ∃ more, (∀ m ∈ more, m ≠ .connection) ∧
      updates (Transition.run (Avrc.step P) s more).2 = s.flight P := by
  obtain ⟨more, hforwards, hdone⟩ := Transition.exists_run_of_progress
    (exists_forwards (P := P) hcapacity) s
  have hupdates := updates_of_forwards hforwards
  rw [flight_of_total_work hdone, List.append_nil] at hupdates
  refine ⟨more, fun m hm => ?_, hupdates⟩
  obtain ⟨pre, rest, rfl⟩ := List.append_of_mem hm
  exact (hforwards pre m ⟨rest, by simp⟩).1

end Firmware

end IpodEsp32
