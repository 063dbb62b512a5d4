import IpodEsp32.Firmware.Work

/-!
# Metadata and disconnections

On a disconnection `connectionStateChanged` resets the esPod, and nothing else: an event
of the old session that is still in the callback, in the queue, or in the hands of
`processAVRCTask` is not recalled, and its update follows the reset
(`stale_update_after_reset`). As long as nothing of the old session is under way at any
of the resets, no update crosses one (`noStale_of_settled`); and if something is, the
tasks need only go on for its update to be made (`exists_stale_of_not_settled`).
-/

namespace IpodEsp32

namespace Firmware

/-- After the reset for a disconnection, no update is made for an event accepted before
that disconnection. -/
def NoStale (h : List AvrcEvent) : Prop :=
  ∀ before between after, h = before ++ .disconnected :: (between ++ .reset :: after) →
    ∀ u ∈ updates after, (acceptedMetadata before).length ≤ u.1

variable {capacity : ℕ} {P : Platform}

/-- If the move is the call of `resetState` for a disconnection, no update is under way
for an event accepted before that disconnection. -/
def Settled (P : Platform) (s : Avrc capacity) (m : AvrcMove) : Prop :=
  m = .connection → ∀ received, s.connection = .resetting received →
    ∀ u ∈ s.flight P, received ≤ u.1

theorem settled_of_ne {s : Avrc capacity} {m : AvrcMove} (hm : m ≠ .connection) :
    Settled P s m :=
  fun h => absurd h hm

theorem settled_of_flight_nil {s : Avrc capacity} {m : AvrcMove} (hs : s.flight P = []) :
    Settled P s m := by
  intro _ received _ u hu
  rw [hs] at hu
  cases hu

/-! ### Disconnections and resets of a history -/

/-- A disconnection of the history came after `n` accepted events. -/
def Cut (h : List AvrcEvent) (n : ℕ) : Prop :=
  ∃ before after, h = before ++ .disconnected :: after ∧ (acceptedMetadata before).length = n

/-- A disconnection of the history came after `n` accepted events, and the esPod has been
reset since. -/
def Barrier (h : List AvrcEvent) (n : ℕ) : Prop :=
  ∃ before between after, h = before ++ .disconnected :: (between ++ .reset :: after) ∧
    (acceptedMetadata before).length = n

section

variable {h : List AvrcEvent} {e : AvrcEvent} {n : ℕ}

theorem Cut.le_accepted (hcut : Cut h n) : n ≤ (acceptedMetadata h).length := by
  obtain ⟨before, after, rfl, rfl⟩ := hcut
  rw [acceptedMetadata, acceptedMetadata, List.filterMap_append, List.length_append]
  exact Nat.le_add_right _ _

theorem Barrier.cut (hbarrier : Barrier h n) : Cut h n := by
  obtain ⟨before, between, after, rfl, hn⟩ := hbarrier
  exact ⟨before, between ++ .reset :: after, rfl, hn⟩

theorem Cut.append (hcut : Cut h n) (events : List AvrcEvent) : Cut (h ++ events) n := by
  obtain ⟨before, after, rfl, hn⟩ := hcut
  exact ⟨before, after ++ events, by simp, hn⟩

theorem concat_eq_append_cons {before after : List AvrcEvent} {x : AvrcEvent}
    (heq : h ++ [e] = before ++ x :: after) :
    (h = before ∧ e = x ∧ after = []) ∨
      ∃ rest, after = rest ++ [e] ∧ h = before ++ x :: rest := by
  rcases List.eq_nil_or_concat after with rfl | ⟨rest, y, rfl⟩
  · obtain ⟨rfl, he⟩ := List.append_inj' heq rfl
    exact Or.inl ⟨rfl, List.singleton_inj.1 he, rfl⟩
  · have hlast : h ++ [e] = before ++ x :: rest ++ [y] := by simpa using heq
    obtain ⟨rfl, he⟩ := List.append_inj' hlast rfl
    rw [List.singleton_inj.1 he]
    exact Or.inr ⟨rest, List.concat_eq_append, rfl⟩

theorem cut_concat (hcut : Cut (h ++ [e]) n) :
    Cut h n ∨ (e = .disconnected ∧ n = (acceptedMetadata h).length) := by
  obtain ⟨before, after, heq, hn⟩ := hcut
  rcases concat_eq_append_cons heq with ⟨rfl, he, -⟩ | ⟨rest, -, hh⟩
  · exact Or.inr ⟨he, hn.symm⟩
  · exact Or.inl ⟨before, rest, hh, hn⟩

theorem barrier_concat (hbarrier : Barrier (h ++ [e]) n) :
    Barrier h n ∨ (e = .reset ∧ Cut h n) := by
  obtain ⟨before, between, after, heq, hn⟩ := hbarrier
  rw [← List.cons_append, ← List.append_assoc] at heq
  rcases concat_eq_append_cons heq with ⟨rfl, he, -⟩ | ⟨rest, -, rfl⟩
  · exact Or.inr ⟨he, before, between, rfl, hn⟩
  · exact Or.inl ⟨before, between, rest, by simp, hn⟩

/-- An update that comes last is stale only if it crosses a reset. -/
theorem noStale_concat (hstale : NoStale h)
    (he : ∀ u, e.update? = some u → ∀ n, Barrier h n → n ≤ u.1) : NoStale (h ++ [e]) := by
  intro before between after heq u hu
  rw [← List.cons_append, ← List.append_assoc] at heq
  rcases concat_eq_append_cons heq with ⟨-, -, rfl⟩ | ⟨rest, rfl, hh⟩
  · cases hu
  · have hold : h = before ++ .disconnected :: (between ++ .reset :: rest) := by
      simpa using hh
    rw [updates, Flow.filterMap_concat, List.mem_append, Option.mem_toList] at hu
    rcases hu with hu | hu
    · exact hstale before between rest hold u hu
    · exact he u hu _ ⟨before, between, rest, hold, rfl⟩

end

section

variable {h events : List AvrcEvent} {n : ℕ}

theorem cut_append (hquiet : .disconnected ∉ events) (hcut : Cut (h ++ events) n) :
    Cut h n := by
  induction events using List.reverseRecOn with
  | nil => rwa [List.append_nil] at hcut
  | append_singleton events e ih =>
      rw [List.mem_append, List.mem_singleton, not_or] at hquiet
      rw [← List.append_assoc] at hcut
      rcases cut_concat hcut with hcut | ⟨he, -⟩
      · exact ih hquiet.1 hcut
      · exact absurd he.symm hquiet.2

theorem barrier_append (hquiet : .reset ∉ events) (hbarrier : Barrier (h ++ events) n) :
    Barrier h n := by
  induction events using List.reverseRecOn with
  | nil => rwa [List.append_nil] at hbarrier
  | append_singleton events e ih =>
      rw [List.mem_append, List.mem_singleton, not_or] at hquiet
      rw [← List.append_assoc] at hbarrier
      rcases barrier_concat hbarrier with hbarrier | ⟨he, -⟩
      · exact ih hquiet.1 hbarrier
      · exact absurd he.symm hquiet.2

theorem noStale_append (hquiet : .reset ∉ events) (hstale : NoStale h)
    (hupdates : ∀ u ∈ updates events, ∀ n, Barrier h n → n ≤ u.1) :
    NoStale (h ++ events) := by
  induction events using List.reverseRecOn with
  | nil => rwa [List.append_nil]
  | append_singleton events e ih =>
      rw [List.mem_append, not_or] at hquiet
      rw [updates, Flow.filterMap_concat] at hupdates
      rw [← List.append_assoc]
      refine noStale_concat (ih hquiet.1 fun u hu => ?_) fun u hu n hbarrier => ?_
      · exact hupdates u (List.mem_append_left _ hu)
      · exact hupdates u (List.mem_append_right _ (Option.mem_toList.2 hu)) n
          (barrier_append hquiet.1 hbarrier)

end

/-! ### What is under way after a move -/

section

variable {h events : List AvrcEvent} {s s' : Avrc capacity} {m : AvrcMove}

/-- A move is the handling of a disconnection, the reset for one, or neither. -/
theorem Avrc.Moves.connection_cases (hm : s.Moves P m events s') :
    (events = [.disconnected] ∧ s' = { s with connection := .resetting s.received }) ∨
      (∃ received, m = .connection ∧ s.connection = .resetting received ∧
        events = [.reset] ∧ s' = { s with connection := .disabling }) ∨
      (.disconnected ∉ events ∧ .reset ∉ events ∧
        ∀ received, s'.connection = .resetting received →
          s.connection = .resetting received) := by
  cases hm with
  | disconnect hpc => exact Or.inl ⟨rfl, rfl⟩
  | reset received hpc => exact Or.inr (Or.inl ⟨received, rfl, hpc, rfl, rfl⟩)
  | call c hpc =>
      refine Or.inr (Or.inr ⟨?_, ?_, fun _ h => h⟩)
      · cases P.updateCall c.id c.text <;> simp
      · cases P.updateCall c.id c.text <;> simp
  | connected hpc | enable hpc | play hpc | disable hpc =>
      exact Or.inr (Or.inr ⟨by simp, by simp, by simp⟩)
  | _ => exact Or.inr (Or.inr ⟨by simp, by simp, fun _ h => h⟩)

/-- What is under way after a move was under way before it, or belongs to the event just
accepted. -/
theorem Avrc.Moves.flight_old (hm : s.Moves P m events s') {u : Update}
    (hu : u ∈ s'.flight P) : u ∈ s.flight P ∨ u.1 = s.received := by
  have hprocess : m = .process → u ∈ s.flight P := by
    rintro rfl
    rw [← hm.flight_process]
    exact List.mem_append_right _ hu
  cases hm with
  | accept id text hpc hguard =>
      simp only [Avrc.flight, CallbackPc.updates, List.mem_append, Option.mem_toList,
        Option.map_eq_some_iff] at hu ⊢
      rcases hu with hu | ⟨call, -, rfl⟩
      · exact Or.inl (Or.inl hu)
      · exact Or.inr rfl
  | copy origin id text hpc =>
      exact Or.inl (by simpa [Avrc.flight, hpc, CallbackPc.updates, copyUpdate] using hu)
  | copyFailed origin id text hpc | sendFailed strdup c hpc hfull | freeUnsent strdup c hpc =>
      exact Or.inl (List.mem_append_left _ (by simpa [Avrc.flight, CallbackPc.updates] using hu))
  | send strdup c q hpc hq =>
      simp only [Avrc.flight, hq, CallbackPc.updates, Flow.filterMap_concat] at hu
      exact Or.inl (by simpa [Avrc.flight, hpc, CallbackPc.updates] using hu)
  | receive | call | freeProcessed => exact Or.inl (hprocess rfl)
  | _ => exact Or.inl hu

theorem Avrc.Moves.update_flight (hm : s.Moves P m events s') {u : Update}
    (hu : u ∈ updates events) : u ∈ s.flight P := by
  cases hm with
  | call c hpc =>
      rw [← (Avrc.Moves.call c hpc).flight_process]
      exact List.mem_append_left _ hu
  | _ => simp [updates, AvrcEvent.update?] at hu

end

/-! ### The disconnection whose reset is due -/

theorem not_cut_nil (n : ℕ) : ¬ Cut [] n := by
  rintro ⟨before, after, heq, -⟩
  exact List.append_ne_nil_of_right_ne_nil before (List.cons_ne_nil _ after) heq.symm

/-- The reset that is due is that for the last disconnection. -/
structure Dated (P : Platform) (h : List AvrcEvent) (s : Avrc capacity) : Prop where
  delivering : Delivering P h s
  cut : ∀ received, s.connection = .resetting received → Cut h received
  cut_le : ∀ received, s.connection = .resetting received → ∀ n, Cut h n → n ≤ received

theorem dated_start : Dated P [] (Avrc.start capacity) where
  delivering := delivering_start
  cut received h := by cases h
  cut_le received h := by cases h

section

variable {h events : List AvrcEvent} {s s' : Avrc capacity} {m : AvrcMove}

theorem Dated.cut_received (hs : Dated P h s) {n : ℕ} (hcut : Cut h n) : n ≤ s.received :=
  hcut.le_accepted.trans_eq hs.delivering.flowing.counted.symm

theorem Dated.move (hs : Dated P h s) (hm : s.Moves P m events s') :
    Dated P (h ++ events) s' := by
  have hdelivering := hs.delivering.move hm
  rcases hm.connection_cases with ⟨rfl, rfl⟩ | ⟨_, -, -, rfl, rfl⟩ | ⟨hdisconnected, -, hpc⟩
  · have hcount : s.received = (acceptedMetadata h).length := hs.delivering.flowing.counted
    refine ⟨hdelivering, fun received hpc => ?_, fun received hpc n hcut => ?_⟩
    · obtain rfl : s.received = received := ConnectionPc.resetting.inj hpc
      exact ⟨h, [], rfl, hcount.symm⟩
    · obtain rfl : s.received = received := ConnectionPc.resetting.inj hpc
      rcases cut_concat hcut with hcut | ⟨-, rfl⟩
      · exact hs.cut_received hcut
      · exact hcount.ge
  · exact ⟨hdelivering, nofun, nofun⟩
  · exact ⟨hdelivering,
      fun received hdue => (hs.cut received (hpc received hdue)).append events,
      fun received hdue n hcut =>
        hs.cut_le received (hpc received hdue) n (cut_append hdisconnected hcut)⟩

end

theorem dated_run (P : Platform) (capacity : ℕ) (ms : List AvrcMove) :
    Dated P (Transition.run (Avrc.step P) (Avrc.start capacity) ms).2
      (Transition.run (Avrc.step P) (Avrc.start capacity) ms).1 :=
  Transition.invariant dated_start (fun _ s m hs => hs.move (s.step_moves P m)) ms

/-! ### Runs whose resets are settled -/

/-- Nothing under way is older than a disconnection whose reset has been made. -/
structure Separated (P : Platform) (h : List AvrcEvent) (s : Avrc capacity) : Prop where
  dated : Dated P h s
  barrier_le : ∀ n, Barrier h n → ∀ u ∈ s.flight P, n ≤ u.1
  noStale : NoStale h

theorem separated_start : Separated P [] (Avrc.start capacity) where
  dated := dated_start
  barrier_le n h := absurd h.cut (not_cut_nil n)
  noStale before _ _ heq :=
    absurd ⟨before, _, heq, rfl⟩ (not_cut_nil (acceptedMetadata before).length)

section

variable {h events : List AvrcEvent} {s s' : Avrc capacity} {m : AvrcMove}

/-- A move that does not reset the esPod leaves what is under way on its side. -/
theorem Separated.quiet (hs : Separated P h s) (hm : s.Moves P m events s')
    (hreset : .reset ∉ events) : Separated P (h ++ events) s' where
  dated := hs.dated.move hm
  barrier_le n hbarrier u hu := by
    have hold := barrier_append hreset hbarrier
    rcases hm.flight_old hu with hu | hu
    · exact hs.barrier_le n hold u hu
    · exact (hs.dated.cut_received hold.cut).trans_eq hu.symm
  noStale := noStale_append hreset hs.noStale fun u hu n hbarrier =>
    hs.barrier_le n hbarrier u (hm.update_flight hu)

theorem Separated.move (hs : Separated P h s) (hm : s.Moves P m events s')
    (hsettled : Settled P s m) : Separated P (h ++ events) s' := by
  rcases hm.connection_cases with ⟨rfl, -⟩ | ⟨received, hmove, hpc, rfl, rfl⟩ | ⟨-, hreset, -⟩
  · exact hs.quiet hm (by simp)
  · refine ⟨hs.dated.move hm, fun n hbarrier u hu => ?_,
      noStale_concat hs.noStale fun u hu => by cases hu⟩
    rcases barrier_concat hbarrier with hbarrier | ⟨-, hcut⟩
    · exact hs.barrier_le n hbarrier u hu
    · exact (hs.dated.cut_le received hpc n hcut).trans (hsettled hmove received hpc u hu)
  · exact hs.quiet hm hreset

end

theorem separated_of_settled {ms : List AvrcMove}
    (hsettled : Transition.StepsMeet (Avrc.step P) (Settled P) (Avrc.start capacity) ms) :
    Separated P (Transition.run (Avrc.step P) (Avrc.start capacity) ms).2
      (Transition.run (Avrc.step P) (Avrc.start capacity) ms).1 :=
  Transition.invariant_of_stepsMeet separated_start
    (fun _ s m hs => hs.move (s.step_moves P m)) hsettled

/-! ### Runs whose resets are not settled -/

/-- After a reset that is not settled, the callback and `processAVRCTask` can go on so
that an update of the old session is made. -/
theorem exists_stale_of_not_settled (P : Platform) (hcapacity : 0 < capacity)
    (ms : List AvrcMove) (m : AvrcMove)
    (hnot : ¬ Settled P (Transition.run (Avrc.step P) (Avrc.start capacity) ms).1 m) :
    ∃ more, (∀ m' ∈ more, m' ≠ .connection) ∧
      ¬ NoStale (Transition.run (Avrc.step P) (Avrc.start capacity) (ms ++ m :: more)).2 := by
  have hdated := dated_run P capacity ms
  simp only [Transition.run_append, Transition.run_cons]
  generalize Transition.run (Avrc.step P) (Avrc.start capacity) ms = reached at hnot hdated ⊢
  obtain ⟨s, h⟩ := reached
  simp only [Settled, not_forall, not_le] at hnot
  obtain ⟨rfl, received, hpc, u, hu, hlt⟩ := hnot
  have hstep : s.step P .connection = ({ s with connection := .disabling }, [.reset]) := by
    simp [Avrc.step, connectionMove, hpc]
  obtain ⟨more, hmore, hupdates⟩ := exists_run_updates_eq_flight P hcapacity
    { s with connection := .disabling }
  obtain ⟨before, between, rfl, rfl⟩ := hdated.cut received hpc
  refine ⟨more, hmore, fun hstale => ?_⟩
  rw [hstep] at hstale
  have hle := hstale before between _ (by simp; rfl) u (by rw [hupdates]; exact hu)
  exact absurd hlt hle.not_gt

/-- The resets of a run are settled exactly when, wherever the connection is left alone
from then on, no update crosses a reset. -/
theorem settled_iff_noStale (P : Platform) (hcapacity : 0 < capacity)
    (ms : List AvrcMove) :
    Transition.StepsMeet (Avrc.step P) (Settled P) (Avrc.start capacity) ms ↔
      ∀ pre more, pre <+: ms → (∀ m ∈ more, m ≠ .connection) →
        NoStale (Transition.run (Avrc.step P) (Avrc.start capacity) (pre ++ more)).2 := by
  constructor
  · intro hsettled pre more hpre hmore
    refine (separated_of_settled (Transition.stepsMeet_append.2
      ⟨hsettled.of_prefix hpre, ?_⟩)).noStale
    exact Transition.stepsMeet_of_forall (fun m hm _ => settled_of_ne (hmore m hm)) _
  · intro hstale pre m hpre
    by_contra hnot
    obtain ⟨more, hmore, hlate⟩ := exists_stale_of_not_settled P hcapacity pre m hnot
    refine hlate ?_
    rw [List.append_cons]
    exact hstale (pre ++ [m]) more hpre hmore

/-- In every interleaving in which nothing of the session that ended is under way when
`resetState` is called, no update for an event accepted before a disconnection follows
the reset for it. -/
theorem noStale_of_settled (P : Platform) (capacity : ℕ) (ms : List AvrcMove)
    (hsettled : Transition.StepsMeet (Avrc.step P) (Settled P) (Avrc.start capacity) ms) :
    Transition.Throughout (Avrc.step P) (fun h _ => NoStale h) (Avrc.start capacity) ms :=
  fun _ hpre => (separated_of_settled (hsettled.of_prefix hpre)).noStale

/-! ### A session and the next -/

/-- The identifiers of the Bluetooth stack, and `atoi` on unsigned numbers. -/
def espIdf : Platform where
  ids := ⟨0x04, 0x02, 0x01, 0x40, by decide⟩
  atoi text := (text.1.takeWhile fun b => 0x30 ≤ b ∧ b ≤ 0x39).foldl
    (fun n b => 10 * n + (b.toNat - 0x30)) 0

def titleMoves : List AvrcMove :=
  [.metadata 0x01 (some ⟨[0x41], by decide⟩), .callback true, .callback true]

/-- The title is made known before the disconnection, and another of the next session
after it. -/
theorem noStale_two_sessions :
    Transition.Throughout (Avrc.step espIdf) (fun h _ => NoStale h) (Avrc.start 32)
      (titleMoves ++ [.process, .process, .process, .connectionStateChanged .disconnected,
        .connection, .connection] ++ titleMoves ++ [.process, .process]) := by
  apply noStale_of_settled
  simp only [titleMoves, List.cons_append, List.nil_append, Transition.stepsMeet_cons]
  refine ⟨?_, ?_, ?_, ?_, ?_, ?_, ?_, ?_, ?_, ?_, ?_, ?_, ?_, ?_, Transition.stepsMeet_nil _ _⟩
  all_goals first
    | exact settled_of_flight_nil (by decide +kernel)
    | exact settled_of_ne nofun

/-- The title is still in the queue when the disconnection resets the esPod, and
`processAVRCTask` gives it to the esPod after that. -/
theorem stale_update_after_reset :
    let h := (Transition.run (Avrc.step espIdf) (Avrc.start 32)
      (titleMoves ++ [.connectionStateChanged .disconnected, .connection, .process,
        .process])).2
    h = [.accepted 0x01 ⟨[0x41], by decide⟩, .disconnected, .reset,
      .called 0 (.updateTrackTitle ⟨[0x41], by decide⟩)] ∧ ¬ NoStale h := by
  intro h
  have hrun : h = [.accepted 0x01 ⟨[0x41], by decide⟩, .disconnected, .reset,
      .called 0 (.updateTrackTitle ⟨[0x41], by decide⟩)] := by
    decide +kernel
  refine ⟨hrun, fun hstale => ?_⟩
  have hlate := hstale [.accepted 0x01 ⟨[0x41], by decide⟩] []
    [.called 0 (.updateTrackTitle ⟨[0x41], by decide⟩)] hrun
    (0, .updateTrackTitle ⟨[0x41], by decide⟩) (List.mem_singleton.2 rfl)
  exact absurd hlate (by decide)

end Firmware

end IpodEsp32
