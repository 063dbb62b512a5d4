import IpodEsp32.Firmware.Avrc
import IpodEsp32.Flow.Observed
import IpodEsp32.Ownership.Ledger
import IpodEsp32.Transition.Run

/-!
# From the callback to the esPod

The Bluetooth stack calls `avrc_metadata_callback` with an identifier and a text. What is
to become of the calls is said apart from the code: `Platform.admitted` picks those that
are to be accepted, and the table `Platform.calls` tells which call of the esPod belongs
to an identifier. The guard checks and the `switch` agree with them (`guardChecks_toOption`,
`updateCall_eq`).

In every interleaving the updates made and those still under way stand in the order of
the calls admitted, and every update is made, under way, or was given up because `strdup`
failed or the queue was full. Every copy of a text is freed once.
-/

namespace IpodEsp32

namespace Firmware

/-! ### Updates -/

/-- The number of an accepted event and the call of the esPod for it. -/
abbrev Update : Type := ℕ × EsPodCall

/-- The identifiers that are handled, each with the call that belongs to it. -/
def Platform.calls (P : Platform) : List (UInt8 × (CString → EsPodCall)) :=
  [(P.ids.album, .updateAlbumName), (P.ids.artist, .updateArtistName),
    (P.ids.title, .updateTrackTitle),
    (P.ids.playingTime, fun text => .updateTrackDuration (P.atoi text))]

def Platform.callFor (P : Platform) (id : UInt8) (text : CString) : Option EsPodCall :=
  (P.calls.lookup id).map fun call => call text

theorem lookup_cons_eq {β : Type} (id key : UInt8) (b : β) (table : List (UInt8 × β)) :
    ((key, b) :: table).lookup id = if id = key then some b else table.lookup id := by
  rw [List.lookup_cons]
  by_cases h : id = key
  · rw [if_pos h, h, beq_self_eq_true]
  · rw [if_neg h, beq_false_of_ne h]

/-- The `switch` makes the call that belongs to the identifier. -/
theorem updateCall_eq (P : Platform) (id : UInt8) (text : CString) :
    P.updateCall id text = P.callFor id text := by
  simp only [Platform.updateCall, Platform.callFor, Platform.calls, lookup_cons_eq,
    List.lookup_nil]
  split_ifs <;> rfl

theorem callFor_title (P : Platform) (text : CString) :
    P.callFor P.ids.title text = some (.updateTrackTitle text) := by
  have hnodup := P.ids.nodup
  simp only [List.nodup_cons, List.mem_cons, List.not_mem_nil, or_false, not_or] at hnodup
  obtain ⟨⟨-, halbum, -⟩, ⟨hartist, -⟩, -⟩ := hnodup
  simp only [Platform.callFor, Platform.calls, lookup_cons_eq, if_neg (Ne.symm halbum),
    if_neg (Ne.symm hartist), if_pos, Option.map_some]

/-! ### Calls of the callback -/

/-- A text is accepted unless it is empty, and one for a playing time whatever it is. -/
def Platform.admitted (P : Platform) :
    UInt8 × Option CString → Option (UInt8 × CString)
  | (_, none) => none
  | (id, some text) => if text.1 ≠ [] ∨ id = P.ids.playingTime then some (id, text) else none

/-- The guard checks accept what is to be accepted. -/
theorem guardChecks_toOption (P : Platform) (id : UInt8) (text : Option CString) :
    (P.guardChecks id text).toOption.map (fun t => (id, t)) = P.admitted (id, text) := by
  cases text with
  | none => rfl
  | some t =>
      rw [Platform.guardChecks, Platform.admitted]
      by_cases hrefused : id ≠ P.ids.playingTime ∧ t.1 = []
      · rw [if_pos hrefused, if_neg fun h => h.elim (absurd hrefused.2) hrefused.1]
        rfl
      · rw [if_neg hrefused, if_pos (by tauto)]
        rfl

/-- The call of `avrc_metadata_callback` that a move is: the stack makes it when the one
before has returned. -/
def Avrc.notification {capacity : ℕ} (s : Avrc capacity) :
    AvrcMove → List (UInt8 × Option CString)
  | .metadata id text => match s.callback with
    | .idle => [(id, text)]
    | _ => []
  | _ => []

def notifications {capacity : ℕ} (P : Platform) (s : Avrc capacity) (ms : List AvrcMove) :
    List (UInt8 × Option CString) :=
  Transition.collect (Avrc.step P) Avrc.notification s ms

/-! ### Histories -/

/-- The update that a copy will become. -/
def copyUpdate (P : Platform) (c : Copy) : Option Update :=
  (P.callFor c.id c.text).map fun call => (c.origin, call)

def AvrcEvent.accepted? : AvrcEvent → Option (UInt8 × CString)
  | .accepted id text => some (id, text)
  | _ => none

def AvrcEvent.update? : AvrcEvent → Option Update
  | .called origin call => some (origin, call)
  | _ => none

def AvrcEvent.lost? (P : Platform) : AvrcEvent → Option Update
  | .notCopied origin id text => (P.callFor id text).map fun call => (origin, call)
  | .notQueued c _ => copyUpdate P c
  | _ => none

def AvrcEvent.freed? : AvrcEvent → Option ℕ
  | .freed address => some address
  | _ => none

def metadataFlow (P : Platform) : Flow.Observer AvrcEvent (UInt8 × CString) EsPodCall where
  accepted? := AvrcEvent.accepted?
  outcome m := P.callFor m.1 m.2
  delivered? := AvrcEvent.update?
  lost? := AvrcEvent.lost? P

def acceptedMetadata (h : List AvrcEvent) : List (UInt8 × CString) :=
  h.filterMap AvrcEvent.accepted?

def updates (h : List AvrcEvent) : List Update := h.filterMap AvrcEvent.update?

/-- The updates given up because `strdup` failed or the queue was full. -/
def lostUpdates (P : Platform) (h : List AvrcEvent) : List Update :=
  h.filterMap (AvrcEvent.lost? P)

/-- The updates that belong to metadata admitted: those with a handled identifier, each with
the place of its metadata in the list. -/
def handledUpdates (P : Platform) (es : List (UInt8 × CString)) : List Update :=
  Flow.numbered (fun e => P.callFor e.1 e.2) es

theorem metadataFlow_source (P : Platform) (h : List AvrcEvent) :
    (metadataFlow P).source h = handledUpdates P (acceptedMetadata h) := rfl

variable {capacity : ℕ} {P : Platform}

theorem Avrc.Moves.accepted_eq_nil {s s' : Avrc capacity} {m : AvrcMove}
    {events : List AvrcEvent} (hm : s.Moves P m events s')
    (hother : ∀ id text, m ≠ .metadata id text) :
    events.filterMap AvrcEvent.accepted? = [] := by
  cases hm with
  | accept id text hpc hguard => exact absurd rfl (hother id (some text))
  | call c hpc => cases P.updateCall c.id c.text <;> rfl
  | _ => rfl

theorem accepted_step (s : Avrc capacity) (m : AvrcMove) :
    (s.step P m).2.filterMap AvrcEvent.accepted? =
      (s.notification m).filterMap P.admitted := by
  cases m with
  | metadata id text =>
      cases hpc : s.callback with
      | idle =>
          have hguard := guardChecks_toOption P id text
          simp only [Avrc.step, metadataMove, Avrc.notification, hpc,
            Flow.filterMap_cons_toList, ← hguard]
          cases P.guardChecks id text <;> rfl
      | copying | sending | freeing =>
          simp [Avrc.step, metadataMove, Avrc.notification, hpc]
  | callback | process | connectionStateChanged | connection =>
      exact (s.step_moves P _).accepted_eq_nil nofun

theorem acceptedMetadata_run (s : Avrc capacity) (ms : List AvrcMove) :
    acceptedMetadata (Transition.run (Avrc.step P) s ms).2 =
      (notifications P s ms).filterMap P.admitted :=
  Transition.filterMap_run accepted_step s ms

/-! ### Updates under way -/

def CallbackPc.updates (P : Platform) : CallbackPc → List Update
  | .copying origin id text =>
      ((P.callFor id text).map fun call => (origin, call)).toList
  | .sending c => (copyUpdate P c).toList
  | _ => []

def ConsumerPc.updates (P : Platform) : ConsumerPc → List Update
  | .processing c => (copyUpdate P c).toList
  | _ => []

/-- The updates under way, the next to be made first. -/
def Avrc.flight (P : Platform) (s : Avrc capacity) : List Update :=
  s.consumer.updates P ++ s.queue.items.filterMap (copyUpdate P) ++ s.callback.updates P

def CallbackPc.held : CallbackPc → List ℕ
  | .sending c | .freeing c => [c.address]
  | _ => []

def ConsumerPc.held : ConsumerPc → List ℕ
  | .processing c | .freeing c => [c.address]
  | .receiving => []

def Avrc.held (s : Avrc capacity) : List ℕ :=
  s.consumer.held ++ s.queue.items.map Copy.address ++ s.callback.held

/-- After the history `h`, every update is made, under way or given up, in the order of
the events; every copy is in one place or was freed once; and what was not queued found
the queue full. -/
structure Delivering (P : Platform) (h : List AvrcEvent) (s : Avrc capacity) : Prop where
  flowing : Flow.Flowing (metadataFlow P) h s.received (s.flight P)
  owned : Ownership.Books AvrcEvent.freed? h s.held s.allocated
  full : ∀ c queued, .notQueued c queued ∈ h → queued = capacity

theorem delivering_start : Delivering P [] (Avrc.start capacity) where
  flowing := Flow.flowing_start
  owned := Ownership.books_start
  full c queued h := by cases h

theorem loses_turnedAway {e : AvrcEvent} (why : Refusal) (id : UInt8)
    (ha : e.accepted? = none) (hu : e.update? = none) :
    (metadataFlow P).Loses [e, .turnedAway why id] (e.lost? P).toList := by
  have ha' : (AvrcEvent.turnedAway why id).accepted? = none := rfl
  have hu' : (AvrcEvent.turnedAway why id).update? = none := rfl
  refine ⟨?_, ?_, ?_⟩
  · simp [metadataFlow, Flow.Observer.accepted, ha, ha']
  · simp [metadataFlow, Flow.Observer.delivered, hu, hu']
  · rw [Flow.Observer.lost, Flow.filterMap_cons_toList]
    exact List.append_nil _

section

variable {h events : List AvrcEvent} {s s' : Avrc capacity} {m : AvrcMove}

theorem Delivering.flowing_move (hs : Delivering P h s) (hm : s.Moves P m events s') :
    Flow.Flowing (metadataFlow P) (h ++ events) s'.received (s'.flight P) := by
  have hflow := hs.flowing
  cases hm with
  | stay m => exact hflow.silent (Flow.loses_nil (by simp)) rfl rfl
  | refuse id text why => exact hflow.silent (Flow.loses_singleton rfl rfl rfl) rfl rfl
  | accept id text hpc hguard =>
      exact hflow.enter rfl rfl rfl rfl (by simp [Avrc.flight, hpc, CallbackPc.updates]; rfl)
  | copy origin id text hpc =>
      exact hflow.silent (Flow.loses_nil (by simp)) rfl
        (by simp [Avrc.flight, hpc, CallbackPc.updates, copyUpdate])
  | copyFailed origin id text hpc =>
      exact hflow.lose (loses_turnedAway .allocationFailed id rfl rfl)
        (s.consumer.updates P ++ s.queue.items.filterMap (copyUpdate P)) [] rfl
        (by simp [Avrc.flight, hpc, CallbackPc.updates, AvrcEvent.lost?])
        (by simp [Avrc.flight, CallbackPc.updates])
  | send strdup c q hpc hq =>
      exact hflow.silent (Flow.loses_nil (by simp)) rfl
        (by simp only [Avrc.flight, hpc, hq, CallbackPc.updates, Flow.filterMap_concat]
            simp)
  | sendFailed strdup c hpc hfull =>
      exact hflow.lose (loses_turnedAway .queueFull c.id rfl rfl)
        (s.consumer.updates P ++ s.queue.items.filterMap (copyUpdate P)) [] rfl
        (by simp [Avrc.flight, hpc, CallbackPc.updates, AvrcEvent.lost?])
        (by simp [Avrc.flight, CallbackPc.updates])
  | freeUnsent strdup c hpc =>
      exact hflow.silent (Flow.loses_singleton rfl rfl rfl) rfl
        (by simp [Avrc.flight, hpc, CallbackPc.updates])
  | receive c q hpc hq =>
      exact hflow.silent (Flow.loses_nil (by simp)) rfl
        (by simp only [Avrc.flight, hpc, hq, ConsumerPc.updates, Flow.filterMap_cons_toList]
            simp)
  | call c hpc =>
      rw [updateCall_eq]
      have hevents : (metadataFlow P).delivered
          ((P.callFor c.id c.text).map fun call =>
            AvrcEvent.called c.origin call).toList = (copyUpdate P c).toList := by
        rw [copyUpdate]
        cases P.callFor c.id c.text <;> rfl
      exact hflow.deliver (by cases P.callFor c.id c.text <;> rfl) hevents
        (by cases P.callFor c.id c.text <;> rfl) rfl
        (by simp [Avrc.flight, hpc, ConsumerPc.updates])
  | freeProcessed c hpc =>
      exact hflow.silent (Flow.loses_singleton rfl rfl rfl) rfl
        (by simp [Avrc.flight, hpc, ConsumerPc.updates])
  | connected hpc => exact hflow.silent (Flow.loses_nil (by simp)) rfl rfl
  | disconnect hpc | enable hpc | play hpc | reset received hpc | disable hpc =>
      exact hflow.silent (Flow.loses_singleton rfl rfl rfl) rfl rfl

theorem Delivering.owned_move (hs : Delivering P h s) (hm : s.Moves P m events s') :
    Ownership.Books AvrcEvent.freed? (h ++ events) s'.held s'.allocated := by
  have howned := hs.owned
  cases hm with
  | stay m => exact howned.stay rfl rfl rfl
  | refuse id text why | connected hpc | disconnect hpc | enable hpc | play hpc
  | reset received hpc | disable hpc => exact howned.stay rfl rfl rfl
  | accept id text hpc hguard | copyFailed origin id text hpc | sendFailed strdup c hpc hfull =>
      exact howned.stay rfl rfl (by simp [Avrc.held, hpc, CallbackPc.held])
  | copy origin id text hpc =>
      exact howned.allocate s.held [] rfl rfl (by simp)
        (by simp [Avrc.held, hpc, CallbackPc.held])
  | send strdup c q hpc hq =>
      exact howned.stay rfl rfl (by simp [Avrc.held, hpc, hq, CallbackPc.held])
  | freeUnsent strdup c hpc =>
      exact howned.free c.address (s.consumer.held ++ s.queue.items.map Copy.address) []
        rfl rfl (by simp [Avrc.held, hpc, CallbackPc.held])
        (by simp [Avrc.held, CallbackPc.held])
  | receive c q hpc hq =>
      exact howned.stay rfl rfl (by simp [Avrc.held, hpc, hq, ConsumerPc.held])
  | call c hpc =>
      exact howned.stay (by cases P.updateCall c.id c.text <;> rfl) rfl
        (by simp [Avrc.held, hpc, ConsumerPc.held])
  | freeProcessed c hpc =>
      exact howned.free c.address [] (s.queue.items.map Copy.address ++ s.callback.held)
        rfl rfl (by simp [Avrc.held, hpc, ConsumerPc.held])
        (by simp [Avrc.held, ConsumerPc.held])

theorem Avrc.Moves.queued_eq (hm : s.Moves P m events s') {c : Copy} {queued : ℕ}
    (he : .notQueued c queued ∈ events) : queued = capacity := by
  cases hm with
  | sendFailed strdup c' hpc hfull =>
      simp only [List.mem_cons, AvrcEvent.notQueued.injEq, List.not_mem_nil, or_false,
        reduceCtorEq] at he
      rw [he.2, hfull]
  | call c' hpc => cases hcall : P.updateCall c'.id c'.text <;> simp [hcall] at he
  | _ => simp at he

/-- If an update is given up, `strdup` fails for its text, or the queue is full when its
copy is sent. -/
def LossExplained (P : Platform) (s : Avrc capacity) (m : AvrcMove) : Prop :=
  lostUpdates P (s.step P m).2 ≠ [] →
    (m = .callback false ∧ ∃ origin id text, s.callback = .copying origin id text) ∨
      ∃ strdup c, m = .callback strdup ∧ s.callback = .sending c ∧
        s.queue.items.length = capacity

theorem lossExplained (s : Avrc capacity) (m : AvrcMove) : LossExplained P s m := by
  intro hlost
  have hm := s.step_moves P m
  generalize (s.step P m).1 = s', (s.step P m).2 = events at hm hlost
  cases hm with
  | copyFailed origin id text hpc => exact Or.inl ⟨rfl, origin, id, text, hpc⟩
  | sendFailed strdup c hpc hfull => exact Or.inr ⟨strdup, c, rfl, hpc, hfull⟩
  | call c hpc =>
      refine absurd ?_ hlost
      cases P.updateCall c.id c.text <;> rfl
  | _ => exact absurd rfl hlost

theorem Delivering.move (hs : Delivering P h s) (hm : s.Moves P m events s') :
    Delivering P (h ++ events) s' where
  flowing := hs.flowing_move hm
  owned := hs.owned_move hm
  full c queued he := by
    rcases List.mem_append.1 he with he | he
    · exact hs.full c queued he
    · exact hm.queued_eq he

end

theorem delivering_run (P : Platform) (capacity : ℕ) (ms : List AvrcMove) :
    Delivering P (Transition.run (Avrc.step P) (Avrc.start capacity) ms).2
      (Transition.run (Avrc.step P) (Avrc.start capacity) ms).1 :=
  Transition.invariant delivering_start (fun _ s m hs => hs.move (s.step_moves P m)) ms

/-! ### The calls of the esPod -/

/-- In every interleaving the callback accepts the calls that are to be admitted, and the
updates made are a selection of those that belong to them, each at most once and in their
order. Once the queue is empty and the task idle, each update has been made, is still in
the hands of the callback, or was given up, because `strdup` failed or the queue was full
when it was sent; and at any time each copy is in one place or was freed once. -/
theorem updates_of_run (P : Platform) (capacity : ℕ) (ms : List AvrcMove) :
    let start := Avrc.start capacity
    let s := (Transition.run (Avrc.step P) start ms).1
    let h := (Transition.run (Avrc.step P) start ms).2
    let admitted := (notifications P start ms).filterMap P.admitted
    acceptedMetadata h = admitted ∧
      (updates h).Sublist (handledUpdates P admitted) ∧
      (updates h).Pairwise (fun u u' => u.1 < u'.1) ∧
      (s.queue.items = [] → s.consumer = .receiving →
        (updates h ++ s.callback.updates P ++ lostUpdates P h).Perm
          (handledUpdates P admitted)) ∧
      Transition.StepsMeet (Avrc.step P) (LossExplained P) start ms ∧
      (∀ c queued, .notQueued c queued ∈ h → queued = capacity) ∧
      Ownership.Exact s.held (h.filterMap AvrcEvent.freed?) s.allocated := by
  intro start s h admitted
  obtain ⟨hflow, howned, hfull⟩ := delivering_run P capacity ms
  have haccepted : acceptedMetadata h = admitted := acceptedMetadata_run start ms
  have hcons := hflow.conserved
  have hselection := hflow.selection
  rw [metadataFlow_source, haccepted] at hcons hselection
  refine ⟨haccepted, hselection.1, hselection.2, fun hqueue hconsumer => ?_,
    Transition.stepsMeet_of_forall (fun m _ s => lossExplained s m) start, hfull, howned⟩
  have hflight : s.flight P = s.callback.updates P := by
    rw [Avrc.flight, hqueue, hconsumer]
    rfl
  rw [hflight] at hcons
  exact hcons.complete

end Firmware

end IpodEsp32
