import IpodEsp32.Snooper.Delivery
import IpodEsp32.Transition.Parallel

/-!
# Two snoopers on one console

`UART1` and `UART2` run the same tasks side by side, and both `_txTask`s write their
records to the one `Serial` console, each record by three calls. `WholeRecords` says
that a trace of calls consists of whole records, but for one still being written; `Line`
reads it call by call. Nothing keeps the two tasks apart: a record stays whole exactly
when no `printf` is called while the other task is inside its own record
(`wholeRecords_throughout_iff`).
-/

namespace IpodEsp32

namespace Snooper

/-- The two snoopers of `main.cpp`. -/
inductive Uart
  | uart1
  | uart2
  deriving DecidableEq

def Uart.other : Uart → Uart
  | .uart1 => .uart2
  | .uart2 => .uart1

def Uart.snooperName : Uart → String
  | .uart1 => "UART1"
  | .uart2 => "UART2"

/-- A call of `Serial`. The `printf` is that of the name and the voltage. -/
inductive SerialCall
  | printf (snooperName : String) (milliVolts : ℕ)
  | write (byteArray : List UInt8)
  | println
  deriving DecidableEq

abbrev Trace : Type := List (Uart × SerialCall)

/-- The record that `_sendPacket` writes. -/
def record (u : Uart) (milliVolts : ℕ) (byteArray : List UInt8) : Trace :=
  [(u, .printf u.snooperName milliVolts), (u, .write byteArray), (u, .println)]

/-- A snooper, the voltage it read, and the bytes it sent. -/
abbrev Sent : Type := Uart × ℕ × List UInt8

def records (sent : List Sent) : Trace :=
  sent.flatMap fun r => record r.1 r.2.1 r.2.2

/-- Whole records, followed by at most one that is still being written. -/
def WholeRecords (trace : Trace) : Prop :=
  ∃ sent part, trace = records sent ++ part ∧
    ∃ u milliVolts byteArray, part <+: record u milliVolts byteArray

theorem records_concat (sent : List Sent) (r : Sent) :
    records (sent ++ [r]) = records sent ++ record r.1 r.2.1 r.2.2 := by
  simp [records]

/-! ### Reading a trace call by call -/

/-- What has been written of the current record: nothing, the name of a snooper, or its
name and its bytes. -/
inductive Line
  | between
  | named (u : Uart)
  | filled (u : Uart)

def Line.next : Line → Uart × SerialCall → Option Line
  | .between, (u, .printf snooperName _) =>
      if snooperName = u.snooperName then some (.named u) else none
  | .named u, (v, .write _) => if v = u then some (.filled u) else none
  | .filled u, (v, .println) => if v = u then some .between else none
  | _, _ => none

def Line.follow (l : Line) (trace : Trace) : Option Line :=
  trace.foldlM Line.next l

theorem follow_append (l : Line) (trace more : Trace) :
    l.follow (trace ++ more) = (l.follow trace).bind fun l' => l'.follow more :=
  List.foldlM_append

theorem follow_records (sent : List Sent) :
    Line.between.follow (records sent) = some .between := by
  induction sent using List.reverseRecOn with
  | nil => rfl
  | append_singleton sent r ih =>
      rw [records_concat, follow_append, ih]
      simp [record, Line.follow, Line.next]

def Line.Part : Line → Trace → Prop
  | .between, part => part = []
  | .named u, part => ∃ milliVolts, part = [(u, .printf u.snooperName milliVolts)]
  | .filled u, part => ∃ milliVolts byteArray,
      part = [(u, .printf u.snooperName milliVolts), (u, .write byteArray)]

theorem Line.Part.prefix_record {l : Line} {part : Trace} (h : l.Part part) :
    ∃ u milliVolts byteArray, part <+: record u milliVolts byteArray := by
  cases l with
  | between =>
      rw [h]
      exact ⟨.uart1, 0, [], List.nil_prefix⟩
  | named u =>
      obtain ⟨milliVolts, rfl⟩ := h
      exact ⟨u, milliVolts, [], _, rfl⟩
  | filled u =>
      obtain ⟨milliVolts, byteArray, rfl⟩ := h
      exact ⟨u, milliVolts, byteArray, _, rfl⟩

theorem eq_records_of_follow {trace : Trace} {l : Line}
    (h : Line.between.follow trace = some l) :
    ∃ sent part, trace = records sent ++ part ∧ l.Part part := by
  induction trace using List.reverseRecOn generalizing l with
  | nil =>
      cases h
      exact ⟨[], [], rfl, rfl⟩
  | append_singleton trace call ih =>
      rw [follow_append, Option.bind_eq_some_iff] at h
      obtain ⟨l', hl', hcall⟩ := h
      obtain ⟨sent, part, rfl, hpart⟩ := ih hl'
      have hnext : l'.next call = some l := by
        simpa [Line.follow] using hcall
      obtain ⟨v, call⟩ := call
      cases l' with
      | between =>
          cases call with
          | printf snooperName milliVolts =>
              simp only [Line.next, Option.ite_none_right_eq_some, Option.some.injEq] at hnext
              obtain ⟨rfl, rfl⟩ := hnext
              exact ⟨sent, [(v, .printf v.snooperName milliVolts)],
                by rw [show part = [] from hpart, List.append_nil], milliVolts, rfl⟩
          | write byteArray => cases hnext
          | println => cases hnext
      | named u =>
          cases call with
          | printf snooperName milliVolts => cases hnext
          | write byteArray =>
              simp only [Line.next, Option.ite_none_right_eq_some, Option.some.injEq] at hnext
              obtain ⟨rfl, rfl⟩ := hnext
              obtain ⟨milliVolts, rfl⟩ := hpart
              exact ⟨sent, [(v, .printf v.snooperName milliVolts), (v, .write byteArray)],
                by simp, milliVolts, byteArray, rfl⟩
          | println => cases hnext
      | filled u =>
          cases call with
          | printf snooperName milliVolts => cases hnext
          | write byteArray => cases hnext
          | println =>
              simp only [Line.next, Option.ite_none_right_eq_some, Option.some.injEq] at hnext
              obtain ⟨rfl, rfl⟩ := hnext
              obtain ⟨milliVolts, byteArray, rfl⟩ := hpart
              exact ⟨sent ++ [(v, milliVolts, byteArray)], [],
                by rw [records_concat]; simp [record], rfl⟩

/-- Records are whole exactly in the traces that can be followed. -/
theorem wholeRecords_iff (trace : Trace) :
    WholeRecords trace ↔ (Line.between.follow trace).isSome := by
  constructor
  · rintro ⟨sent, part, rfl, u, milliVolts, byteArray, hpart⟩
    rw [follow_append, follow_records]
    have hlen : part.length ≤ 3 := hpart.length_le
    have htake := List.prefix_iff_eq_take.1 hpart
    have hcases : part.length = 0 ∨ part.length = 1 ∨ part.length = 2 ∨ part.length = 3 := by
      omega
    rcases hcases with h | h | h | h <;> rw [htake, h] <;>
      simp [record, Line.follow, Line.next]
  · intro h
    obtain ⟨l, hl⟩ := Option.isSome_iff_exists.1 h
    obtain ⟨sent, part, htrace, hpart⟩ := eq_records_of_follow hl
    exact ⟨sent, part, htrace, hpart.prefix_record⟩

instance (trace : Trace) : Decidable (WholeRecords trace) :=
  decidable_of_iff _ (wholeRecords_iff trace).symm

/-! ### The tasks of the two snoopers -/

variable {R : Receiver} {cmdSize txSize : ℕ}

abbrev Console (R : Receiver) (cmdSize txSize : ℕ) : Type :=
  Uart → Tasks R cmdSize txSize

def Console.start (cmdSize txSize : ℕ) (rx : Uart → R.State) : Console R cmdSize txSize :=
  fun u => Tasks.start cmdSize txSize (rx u)

def Console.step : Console R cmdSize txSize → Uart × Move R →
    Console R cmdSize txSize × List (Uart × Event) :=
  Transition.interleave Tasks.step

def serialCall (u : Uart) : Event → Option SerialCall
  | .printed milliVolts => some (.printf u.snooperName milliVolts)
  | .wrote t => some (.write t.content)
  | .ended => some .println
  | _ => none

def serialTrace (h : List (Uart × Event)) : Trace :=
  h.filterMap fun e => (serialCall e.1 e.2).map fun call => (e.1, call)

/-- How far a task is in its own record. -/
inductive Stage
  | quiet
  | named
  | filled
  deriving DecidableEq

def TxPc.stage : TxPc → Stage
  | .writing _ => .named
  | .ending _ => .filled
  | _ => .quiet

/-- If the move is a `printf`, the other snooper is not between its `printf` and its
`println`. -/
def PrintsAlone (c : Console R cmdSize txSize) (m : Uart × Move R) : Prop :=
  ∀ milliVolts t, m.2 = .tx milliVolts → (c m.1).txPc = .printing t →
    (c m.1.other).txPc.stage = .quiet

/-! ### Who is in the current record -/

def Line.stage (l : Line) (u : Uart) : Stage :=
  match l with
  | .between => .quiet
  | .named v => if u = v then .named else .quiet
  | .filled v => if u = v then .filled else .quiet

/-- The trace can be followed, and leads to where the two tasks are. -/
def Agree (h : List (Uart × Event)) (c : Console R cmdSize txSize) : Prop :=
  ∃ l, Line.between.follow (serialTrace h) = some l ∧ ∀ u, (c u).txPc.stage = l.stage u

theorem agree_start (rx : Uart → R.State) :
    Agree [] (Console.start cmdSize txSize rx) :=
  ⟨.between, rfl, fun _ => rfl⟩

theorem Line.eq_of_stage {l : Line} {u : Uart} :
    (l.stage u = .named → l = .named u) ∧ (l.stage u = .filled → l = .filled u) := by
  cases l with
  | between => simp [Line.stage]
  | named v => by_cases h : u = v <;> simp [Line.stage, h]
  | filled v => by_cases h : u = v <;> simp [Line.stage, h]

theorem Line.eq_between {l : Line} {u : Uart} (h : l.stage u = .quiet)
    (h' : l.stage u.other = .quiet) : l = .between := by
  cases l with
  | between => rfl
  | named v => cases u <;> cases v <;> simp_all [Line.stage, Uart.other]
  | filled v => cases u <;> cases v <;> simp_all [Line.stage, Uart.other]

/-- What a move of one snooper means for the console: nothing, or one of the three
calls of its record. -/
theorem Tasks.Moves.serial {s s' : Tasks R cmdSize txSize} {m : Move R}
    {events : List Event} (hm : s.Moves m events s') :
    ((∀ e ∈ events, ∀ u, serialCall u e = none) ∧ s'.txPc.stage = s.txPc.stage) ∨
      (∃ milliVolts t, m = .tx milliVolts ∧ s.txPc = .printing t ∧
        events = [.printed milliVolts] ∧ s'.txPc.stage = .named) ∨
      (∃ t, s.txPc.stage = .named ∧ events = [.wrote t] ∧ s'.txPc.stage = .filled) ∨
      (s.txPc.stage = .filled ∧ events = [.ended] ∧ s'.txPc.stage = .quiet) := by
  cases hm with
  | print milliVolts t hpc =>
      exact Or.inr (Or.inl ⟨milliVolts, t, rfl, hpc, rfl, rfl⟩)
  | write milliVolts t hpc =>
      exact Or.inr (Or.inr (Or.inl ⟨t, by rw [hpc]; rfl, rfl, rfl⟩))
  | println milliVolts t hpc =>
      exact Or.inr (Or.inr (Or.inr ⟨by rw [hpc]; rfl, rfl, rfl⟩))
  | resetCmd hpc | resetTx hpc => exact Or.inl ⟨by simp [serialCall], rfl⟩
  | look milliVolts hpc hrx | take milliVolts t q hpc hq | miss milliVolts hpc hq
  | freeTx milliVolts t hpc =>
      exact Or.inl ⟨by simp [serialCall], by rw [hpc]; rfl⟩
  | _ => exact Or.inl ⟨by simp [serialCall], rfl⟩

theorem serialTrace_append (h more : List (Uart × Event)) :
    serialTrace (h ++ more) = serialTrace h ++ serialTrace more :=
  List.filterMap_append

theorem serialTrace_of_silent (u : Uart) {events : List Event}
    (h : ∀ e ∈ events, ∀ u, serialCall u e = none) :
    serialTrace (events.map fun e => (u, e)) = [] := by
  rw [serialTrace, List.filterMap_map, List.filterMap_eq_nil_iff]
  intro e he
  simp [h e he u]

section

variable {h : List (Uart × Event)} {c : Console R cmdSize txSize}

theorem Agree.call {l : Line} (l' : Line) {u : Uart} {s' : Tasks R cmdSize txSize}
    {e : Event} {call : SerialCall} (hl : Line.between.follow (serialTrace h) = some l)
    (hstage : ∀ v, (c v).txPc.stage = l.stage v) (hcall : serialCall u e = some call)
    (hnext : l.next (u, call) = some l') (hself : s'.txPc.stage = l'.stage u)
    (hothers : ∀ v, v ≠ u → l.stage v = l'.stage v) :
    Agree (h ++ [(u, e)]) (Function.update c u s') := by
  refine ⟨l', ?_, fun v => ?_⟩
  · have htrace : serialTrace [(u, e)] = [(u, call)] := by
      simp [serialTrace, hcall]
    rw [serialTrace_append, htrace, follow_append, hl]
    simpa [Line.follow] using hnext
  · by_cases hv : v = u
    · subst hv
      rw [Function.update_self, hself]
    · rw [Function.update_of_ne hv, hstage, hothers v hv]

theorem Agree.step (hc : Agree h c) (m : Uart × Move R) (halone : PrintsAlone c m) :
    Agree (h ++ (c.step m).2) (c.step m).1 := by
  obtain ⟨l, hl, hstage⟩ := hc
  obtain ⟨u, m⟩ := m
  rcases ((c u).step_moves m).serial with ⟨hsilent, hsame⟩ |
    ⟨milliVolts, t, rfl, hpc, hev, hnew⟩ | ⟨t, hold, hev, hnew⟩ | ⟨hold, hev, hnew⟩
  · refine ⟨l, ?_, fun v => ?_⟩
    · rw [Console.step, Transition.interleave, serialTrace_append, serialTrace_of_silent u hsilent, List.append_nil,
        hl]
    · by_cases hv : v = u
      · subst hv
        simp only [Console.step, Transition.interleave, Function.update_self, hsame, hstage]
      · simp only [Console.step, Transition.interleave, Function.update_of_ne hv, hstage]
  · have hquiet : l.stage u = .quiet := by
      rw [← hstage, hpc]
      rfl
    have hquiet' : l.stage u.other = .quiet := by
      rw [← hstage]
      exact halone milliVolts t rfl hpc
    have hbetween := Line.eq_between hquiet hquiet'
    subst hbetween
    simp only [Console.step, Transition.interleave, hev, List.map_singleton]
    exact Agree.call (.named u) hl hstage rfl (by simp [Line.next])
      (by rw [hnew]; simp [Line.stage]) fun v hv => by simp [Line.stage, hv]
  · have hnamed := (Line.eq_of_stage (u := u)).1 ((hstage u).symm.trans hold)
    subst hnamed
    simp only [Console.step, Transition.interleave, hev, List.map_singleton]
    exact Agree.call (.filled u) hl hstage rfl (by simp [Line.next])
      (by rw [hnew]; simp [Line.stage]) fun v hv => by simp [Line.stage, hv]
  · have hfilled := (Line.eq_of_stage (u := u)).2 ((hstage u).symm.trans hold)
    subst hfilled
    simp only [Console.step, Transition.interleave, hev, List.map_singleton]
    exact Agree.call .between hl hstage rfl (by simp [Line.next])
      (by rw [hnew]; simp [Line.stage]) fun v hv => by simp [Line.stage, hv]

/-- A `printf` while the other snooper is in its record mixes the two. -/
theorem Agree.mixed (hc : Agree h c) (m : Uart × Move R) (hnot : ¬ PrintsAlone c m) :
    ¬ WholeRecords (serialTrace (h ++ (c.step m).2)) := by
  obtain ⟨l, hl, hstage⟩ := hc
  obtain ⟨u, m⟩ := m
  simp only [PrintsAlone, not_forall] at hnot
  obtain ⟨milliVolts, t, rfl, hpc, hbusy⟩ := hnot
  have hev : ((c u).step (.tx milliVolts)).2 = [.printed milliVolts] := by
    simp [Tasks.step, txMove, hpc]
  have htrace : serialTrace ((c.step (u, .tx milliVolts)).2) =
      [(u, .printf u.snooperName milliVolts)] := by
    simp [Console.step, Transition.interleave, hev, serialTrace, serialCall]
  rw [wholeRecords_iff, serialTrace_append, htrace, follow_append, hl]
  rw [hstage] at hbusy
  cases l with
  | between => exact absurd rfl hbusy
  | named v => simp [Line.follow, Line.next]
  | filled v => simp [Line.follow, Line.next]

end

theorem wholeRecords_iff_printsAlone (rx : Uart → R.State) (ms : List (Uart × Move R)) :
    Transition.Throughout Console.step (fun h _ => WholeRecords (serialTrace h))
        (Console.start cmdSize txSize rx) ms ↔
      Transition.StepsMeet Console.step PrintsAlone (Console.start cmdSize txSize rx) ms := by
  refine Transition.throughout_iff_stepsMeet (agree_start rx)
    (fun h c m hc halone => hc.step m halone) (fun h c hc => ?_)
    (fun h c m hc hnot => hc.mixed m hnot) ms
  obtain ⟨l, hl, -⟩ := hc
  rw [wholeRecords_iff, hl]
  rfl

/-! ### Whose payloads are written -/

def SerialCall.written? : SerialCall → Option (List UInt8)
  | .write byteArray => some byteArray
  | _ => none

/-- The payloads that a snooper writes are, in order, those of packets of Lingo `0x00` that
it accepted. -/
def WritesOwn (h : List (Uart × Event)) : Prop :=
  ∀ u, ((Transition.part u (serialTrace h)).filterMap SerialCall.written?).Sublist
    ((lingo0x00Records (acceptedPackets (Transition.part u h))).map Prod.snd)

theorem part_serialTrace (u : Uart) (h : List (Uart × Event)) :
    Transition.part u (serialTrace h) = (Transition.part u h).filterMap (serialCall u) := by
  rw [Transition.part, Transition.part, serialTrace, List.filterMap_filterMap,
    List.filterMap_filterMap]
  congr 1
  funext e
  obtain ⟨v, e⟩ := e
  by_cases hv : v = u
  · subst hv
    cases hcall : serialCall v e <;> simp [hcall]
  · cases serialCall v e <;> simp [hv]

theorem written_serialTrace (u : Uart) (h : List (Uart × Event)) :
    (Transition.part u (serialTrace h)).filterMap SerialCall.written? =
      (printedRecords (Transition.part u h)).map Prod.snd := by
  have hevent : (fun e => (serialCall u e).bind SerialCall.written?) =
      fun e => (Event.printed? e).map Prod.snd := by
    funext e
    cases e <;> rfl
  rw [part_serialTrace, List.filterMap_filterMap, hevent, printedRecords, List.map_filterMap]

theorem run_console (rx : Uart → R.State) (ms : List (Uart × Move R)) (u : Uart) :
    ((Transition.run Console.step (Console.start cmdSize txSize rx) ms).1 u,
        Transition.part u
          (Transition.run Console.step (Console.start cmdSize txSize rx) ms).2) =
      Transition.run Tasks.step (Tasks.start cmdSize txSize (rx u))
        (Transition.part u ms) :=
  Transition.run_interleave (Console.start cmdSize txSize rx) ms u

theorem writesOwn_run (rx : Uart → R.State) (ms : List (Uart × Move R)) :
    WritesOwn (Transition.run Console.step (Console.start cmdSize txSize rx) ms).2 := by
  intro u
  have hown := congrArg Prod.snd (@run_console R cmdSize txSize rx ms u)
  have hselection := (@flowing_run R cmdSize txSize (rx u) (Transition.part u ms)).selection.1
  rw [recordFlow_source, ← hown] at hselection
  rw [written_serialTrace]
  exact hselection.map Prod.snd

/-- In every interleaving of the two snoopers, the trace of the console consists at all
times of whole records of the payloads of their senders, but for the one being written,
exactly when each `printf` is called while the other snooper is not inside its own
record. -/
theorem wholeRecords_throughout_iff (rx : Uart → R.State) (ms : List (Uart × Move R)) :
    Transition.Throughout Console.step
        (fun h _ => WholeRecords (serialTrace h) ∧ WritesOwn h)
        (Console.start cmdSize txSize rx) ms ↔
      Transition.StepsMeet Console.step PrintsAlone (Console.start cmdSize txSize rx) ms := by
  rw [← wholeRecords_iff_printsAlone]
  exact ⟨fun h pre hpre => (h pre hpre).1,
    fun h pre hpre => ⟨h pre hpre, writesOwn_run rx pre⟩⟩

/-- A packet of Lingo `0x00` on both ports. `UART1` calls `printf`, then `UART2`, then
each writes its bytes. -/
theorem mixed_records :
    let both := fun ms : List (Move (rxTask {})) =>
      ms.map (fun m => (Uart.uart1, m)) ++ ms.map (fun m => (Uart.uart2, m))
    let h := (Transition.run Console.step (Console.start 32 32 fun _ => rxTaskStart {})
      (both (readBytes {} requestiPodName.frame ++ [.rx] ++ List.replicate 4 .process ++
        [.tx 3300, .tx 3300]) ++ both [.tx 3300] ++ both [.tx 3300])).2
    ¬ WholeRecords (serialTrace h) := by
  decide +kernel

end Snooper

end IpodEsp32
