import IpodEsp32.Flow.Observed
import IpodEsp32.Snooper.Pipeline
import IpodEsp32.Transition.Run

/-!
# From acceptance to the console

A packet of Lingo `0x00` that is accepted becomes a record: the number of the packet
and its bytes without the Lingo byte. In every interleaving of the three tasks the
records printed and those still under way stand in the order of acceptance, and every
record is printed, under way, or was given up by a failed send or by `resetState`.
-/

namespace IpodEsp32

namespace Snooper

/-! ### Records -/

/-- The number of an accepted packet and the bytes to print for it. -/
abbrev Record : Type := ℕ × List UInt8

/-- The record that a packet on its way to `_processTask` will become. -/
def cmdRecord (b : Buffer Packet) : Option Record :=
  b.content.forwarded.map fun bytes => (b.origin, bytes)

def txRecord (t : Buffer (List UInt8)) : Record := (t.origin, t.content)

def Event.accepted? : Event → Option Packet
  | .accepted p => some p
  | _ => none

def Event.printed? : Event → Option Record
  | .wrote t => some (txRecord t)
  | _ => none

def Event.dropped? : Event → Option Record
  | .droppedCmd b => cmdRecord b
  | .droppedTx t => some (txRecord t)
  | _ => none

def acceptedPackets (h : List Event) : List Packet := h.filterMap Event.accepted?

/-- The records that `_sendPacket` writes, in order. -/
def printedRecords (h : List Event) : List Record := h.filterMap Event.printed?

/-- The records given up by a failed send or by `resetState`. -/
def droppedRecords (h : List Event) : List Record := h.filterMap Event.dropped?

/-- The records of a list of accepted packets: those of Lingo `0x00`, each with its
place in the list and without its Lingo byte. -/
def lingo0x00Records (ps : List Packet) : List Record :=
  ps.zipIdx.filterMap fun (p, n) => if p.lingo = 0x00 then some (n, p.body) else none

def recordFlow : Flow.Observer Event Packet (List UInt8) where
  accepted? := Event.accepted?
  outcome := Packet.forwarded
  delivered? := Event.printed?
  lost? := Event.dropped?

theorem recordFlow_source (h : List Event) :
    recordFlow.source h = lingo0x00Records (acceptedPackets h) := by
  have hrecord : (fun x : Packet × ℕ => x.1.forwarded.map fun bytes => (x.2, bytes)) =
      fun x => if x.1.lingo = 0x00 then some (x.2, x.1.body) else none := by
    funext x
    rw [x.1.forwarded_eq]
    split <;> rfl
  change Flow.numbered Packet.forwarded (acceptedPackets h) = _
  rw [Flow.numbered, hrecord]
  rfl

/-- Among packets of the two Lingoes dispatched, those forwarded are all of them only if
there is none of Lingo `0x04`. -/
theorem filterMap_forwarded_eq_iff {ps : List Packet}
    (hps : ∀ p ∈ ps, p.lingo = 0x00 ∨ p.lingo = 0x04) :
    ps.filterMap Packet.forwarded = ps.map Packet.body ↔ ∀ p ∈ ps, p.lingo ≠ 0x04 := by
  induction ps with
  | nil => simp
  | cons p ps ih =>
      have hrest := ih fun q hq => hps q (List.mem_cons_of_mem p hq)
      rw [Flow.filterMap_cons_toList, p.forwarded_eq]
      rcases hps p List.mem_cons_self with h | h
      · simp [h, hrest]
      · have hlen : (ps.filterMap Packet.forwarded).length ≤ ps.length :=
          List.length_filterMap_le _ _
        constructor
        · intro heq
          have hcount := congrArg List.length heq
          simp [h] at hcount
          omega
        · intro hall
          exact absurd h (hall p List.mem_cons_self)

/-! ### Records under way -/

def cmdRecords (bs : List (Buffer Packet)) : List Record := bs.filterMap cmdRecord

@[simp] theorem cmdRecords_nil : cmdRecords [] = [] := rfl

theorem cmdRecords_cons (b : Buffer Packet) (bs : List (Buffer Packet)) :
    cmdRecords (b :: bs) = (cmdRecord b).toList ++ cmdRecords bs :=
  Flow.filterMap_cons_toList cmdRecord b bs

theorem cmdRecords_concat (bs : List (Buffer Packet)) (b : Buffer Packet) :
    cmdRecords (bs ++ [b]) = cmdRecords bs ++ (cmdRecord b).toList :=
  Flow.filterMap_concat cmdRecord bs b

def RxPc.records : RxPc → List Record
  | .sending b => (cmdRecord b).toList
  | _ => []

def ProcessPc.records : ProcessPc → List Record
  | .processing b => (cmdRecord b).toList
  | .queueing _ t => [txRecord t]
  | _ => []

/-- The record in the hands of `_txTask` and not yet written. -/
def TxPc.records : TxPc → List Record
  | .printing t | .writing t => [txRecord t]
  | _ => []

variable {R : Receiver} {cmdSize txSize : ℕ}

/-- The records under way, the next to be printed first. -/
def Tasks.flight (s : Tasks R cmdSize txSize) : List Record :=
  s.txPc.records ++ s.txQueue.items.map txRecord ++ s.processPc.records ++
    cmdRecords s.cmdQueue.items ++ s.rxPc.records

/-- After the history `h`, every record is printed, under way or given up, in the order
of acceptance. -/
def Flowing (h : List Event) (s : Tasks R cmdSize txSize) : Prop :=
  Flow.Flowing recordFlow h s.accepted s.flight

theorem loses_droppedCmd (bs : List (Buffer Packet)) :
    recordFlow.Loses (bs.map .droppedCmd) (cmdRecords bs) := by
  refine ⟨?_, ?_, List.filterMap_map⟩ <;>
    simp [recordFlow, Flow.Observer.accepted, Flow.Observer.delivered, Event.accepted?,
      Event.printed?]

theorem loses_droppedTx (ts : List (Buffer (List UInt8))) :
    recordFlow.Loses (ts.map .droppedTx) (ts.map txRecord) := by
  refine ⟨?_, ?_, ?_⟩
  · simp [recordFlow, Flow.Observer.accepted, Event.accepted?]
  · simp [recordFlow, Flow.Observer.delivered, Event.printed?]
  · have hlost : recordFlow.lost (ts.map .droppedTx) = ts.filterMap (some ∘ txRecord) :=
      List.filterMap_map
    rw [hlost, List.filterMap_eq_map]

section

variable {h events : List Event} {s s' : Tasks R cmdSize txSize}

theorem Flowing.move {m : Move R} (hs : Flowing h s) (hm : s.Moves m events s') :
    Flowing (h ++ events) s' := by
  cases hm with
  | stay m => exact hs.silent (Flow.loses_nil (by simp)) rfl rfl
  | read i hpc => exact hs.silent (Flow.loses_nil (by simp)) rfl rfl
  | accept i p hpc =>
      exact hs.enter rfl rfl rfl rfl (by simp [Tasks.flight, hpc, RxPc.records]; rfl)
  | reset i hpc | drainedCmd hpc hq | drainedTx hpc hq =>
      exact hs.silent (Flow.loses_nil (by simp)) rfl (by simp [Tasks.flight, hpc, RxPc.records])
  | dropCmd b hpc | drainCmdFree b hpc | drainTxFree t hpc =>
      exact hs.silent (Flow.loses_singleton rfl rfl rfl) rfl
        (by simp [Tasks.flight, hpc, RxPc.records])
  | send b q hpc hq =>
      exact hs.silent (Flow.loses_nil (by simp)) rfl
        (by simp [Tasks.flight, hpc, RxPc.records, hq, cmdRecords_concat])
  | sendFailed b hpc hfull =>
      exact hs.lose (loses_droppedCmd [b]) (s.txPc.records ++ s.txQueue.items.map txRecord ++
          s.processPc.records ++ cmdRecords s.cmdQueue.items) [] rfl
        (by simp [Tasks.flight, hpc, RxPc.records, cmdRecords_cons])
        (by simp [Tasks.flight, RxPc.records])
  | drainCmd b q hpc hq =>
      exact hs.lose (loses_droppedCmd [b]) (s.txPc.records ++ s.txQueue.items.map txRecord ++
          s.processPc.records) (cmdRecords q.items) rfl
        (by simp [Tasks.flight, hpc, hq, RxPc.records, cmdRecords_cons])
        (by simp [Tasks.flight, RxPc.records])
  | drainTx t q hpc hq =>
      exact hs.lose (loses_droppedTx [t]) s.txPc.records (q.items.map txRecord ++
          s.processPc.records ++ cmdRecords s.cmdQueue.items) rfl
        (by simp [Tasks.flight, hpc, hq, RxPc.records])
        (by simp [Tasks.flight, RxPc.records])
  | resetCmd hpc =>
      exact hs.lose (loses_droppedCmd s.cmdQueue.items) (s.txPc.records ++
          s.txQueue.items.map txRecord ++ s.processPc.records) [] rfl
        (by simp [Tasks.flight, hpc, RxPc.records])
        (by simp [Tasks.flight, RxPc.records])
  | resetTx hpc =>
      exact hs.lose (loses_droppedTx s.txQueue.items) s.txPc.records
        (s.processPc.records ++ cmdRecords s.cmdQueue.items) rfl
        (by simp [Tasks.flight, hpc, RxPc.records])
        (by simp [Tasks.flight, RxPc.records])
  | receive b q hpc hq =>
      exact hs.silent (Flow.loses_nil (by simp)) rfl
        (by simp [Tasks.flight, hpc, ProcessPc.records, hq, cmdRecords_cons])
  | forward b bytes hpc hf =>
      exact hs.silent (Flow.loses_nil (by simp)) rfl
        (by simp [Tasks.flight, hpc, ProcessPc.records, cmdRecord, txRecord, hf])
  | pass b hpc hf =>
      exact hs.silent (Flow.loses_nil (by simp)) rfl
        (by simp [Tasks.flight, hpc, ProcessPc.records, cmdRecord, hf])
  | queue b t q hpc hq =>
      exact hs.silent (Flow.loses_nil (by simp)) rfl
        (by simp [Tasks.flight, hpc, ProcessPc.records, hq])
  | queueFailed b t hpc hfull =>
      exact hs.lose (loses_droppedTx [t]) (s.txPc.records ++ s.txQueue.items.map txRecord)
        (cmdRecords s.cmdQueue.items ++ s.rxPc.records) rfl
        (by simp [Tasks.flight, hpc, ProcessPc.records])
        (by simp [Tasks.flight, ProcessPc.records])
  | dropTx b t hpc | freeCmd b hpc =>
      exact hs.silent (Flow.loses_singleton rfl rfl rfl) rfl
        (by simp [Tasks.flight, hpc, ProcessPc.records])
  | look milliVolts hpc hrx | miss milliVolts hpc hq =>
      exact hs.silent (Flow.loses_nil (by simp)) rfl (by simp [Tasks.flight, hpc, TxPc.records])
  | print milliVolts t hpc | println milliVolts t hpc | freeTx milliVolts t hpc =>
      exact hs.silent (Flow.loses_singleton rfl rfl rfl) rfl
        (by simp [Tasks.flight, hpc, TxPc.records])
  | take milliVolts t q hpc hq =>
      exact hs.silent (Flow.loses_nil (by simp)) rfl
        (by simp [Tasks.flight, hpc, TxPc.records, hq])
  | write milliVolts t hpc =>
      have hprinted : recordFlow.delivered [.wrote t] = [txRecord t] := rfl
      exact hs.deliver rfl hprinted rfl rfl (by simp [Tasks.flight, hpc, TxPc.records])

end

theorem flowing_run (rx : R.State) (ms : List (Move R)) :
    Flowing (Transition.run Tasks.step (Tasks.start cmdSize txSize rx) ms).2
      (Transition.run Tasks.step (Tasks.start cmdSize txSize rx) ms).1 :=
  Transition.invariant Flow.flowing_start (fun _ s m hs => hs.move (s.step_moves m)) ms

theorem flight_of_idle {s : Tasks R cmdSize txSize} (h : s.Idle) : s.flight = [] := by
  obtain ⟨hcmd, htx, hrx, hprocess, htxPc⟩ := h
  have hrx' : s.rxPc.records = [] := by
    cases hpc : s.rxPc <;> simp_all [RxPc.held, RxPc.records]
  have hprocess' : s.processPc.records = [] := by
    cases hpc : s.processPc <;> simp_all [ProcessPc.held, ProcessPc.records]
  have htxPc' : s.txPc.records = [] := by
    cases hpc : s.txPc <;> simp_all [TxPc.held, TxPc.records]
  rw [Tasks.flight, hcmd, htx, hrx', hprocess', htxPc']
  rfl

theorem Flowing.settled {h : List Event} {s : Tasks R cmdSize txSize} (hs : Flowing h s)
    (hidle : s.Idle) :
    (printedRecords h ++ droppedRecords h).Perm (lingo0x00Records (acceptedPackets h)) ∧
      (droppedRecords h = [] →
        printedRecords h = lingo0x00Records (acceptedPackets h)) := by
  have hcons := hs.conserved
  rw [recordFlow_source, flight_of_idle hidle] at hcons
  exact ⟨hcons.settled, hcons.delivered_eq⟩

/-! ### The console -/

/-- If the move gives a packet up, `_rxTask` is in `resetState`, or the packet is sent to a
full queue. -/
def DropExplained (s : Tasks R cmdSize txSize) (m : Move R) : Prop :=
  ∀ e ∈ (s.step m).2, e.isDrop = true →
    (m = .rx ∧ s.rxPc.resetting = true) ∨
      (∃ b, m = .rx ∧ s.rxPc = .sending b ∧ s.cmdQueue.items.length = cmdSize) ∨
      ∃ b t, m = .process ∧ s.processPc = .queueing b t ∧ s.txQueue.items.length = txSize

theorem dropExplained (s : Tasks R cmdSize txSize) (m : Move R) : DropExplained s m := by
  intro e he hdrop
  have hm := s.step_moves m
  generalize (s.step m).1 = s', (s.step m).2 = events at hm he
  cases hm with
  | sendFailed b hpc hfull => exact Or.inr (Or.inl ⟨b, rfl, hpc, hfull⟩)
  | queueFailed b t hpc hfull => exact Or.inr (Or.inr ⟨b, t, rfl, hpc, hfull⟩)
  | drainCmd b q hpc hq | drainTx t q hpc hq | resetCmd hpc | resetTx hpc =>
      exact Or.inl ⟨rfl, by rw [hpc]; rfl⟩
  | accept i p hpc | dropCmd b hpc | drainCmdFree b hpc | drainTxFree t hpc | dropTx b t hpc
  | freeCmd b hpc | print milliVolts t hpc | write milliVolts t hpc
  | println milliVolts t hpc | freeTx milliVolts t hpc =>
      rw [List.mem_singleton.1 he] at hdrop
      cases hdrop
  | _ => cases he

/-- In every interleaving the records printed are a selection of the records of the
packets accepted, each at most once and in their order; once nothing is under way, each
record has been printed or given up, and if none was given up all have been printed. A
packet is given up only in `resetState` or by a send to a full queue. -/
theorem printed_of_run (rx : R.State) (ms : List (Move R)) :
    let start : Tasks R cmdSize txSize := Tasks.start cmdSize txSize rx
    let s := (Transition.run Tasks.step start ms).1
    let h := (Transition.run Tasks.step start ms).2
    (printedRecords h).Sublist (lingo0x00Records (acceptedPackets h)) ∧
      (printedRecords h).Pairwise (fun r r' => r.1 < r'.1) ∧
      (s.Idle →
        (printedRecords h ++ droppedRecords h).Perm
            (lingo0x00Records (acceptedPackets h)) ∧
          (droppedRecords h = [] →
            printedRecords h = lingo0x00Records (acceptedPackets h))) ∧
      Transition.StepsMeet Tasks.step DropExplained start ms := by
  intro start s h
  have hflow : Flowing h s := flowing_run rx ms
  have hselection := hflow.selection
  rw [recordFlow_source] at hselection
  exact ⟨hselection.1, hselection.2, hflow.settled,
    Transition.stepsMeet_of_forall (fun m _ s => dropExplained s m) start⟩

/-- When packets of the two Lingoes dispatched are accepted, none is given up and
nothing is under way any more, the packets printed are those accepted, in order and
without their Lingo byte, exactly when none of them is of Lingo `0x04`. -/
theorem printed_eq_accepted_iff (rx : R.State) (ms : List (Move R))
    (hlingo : ∀ p ∈ acceptedPackets
      (Transition.run Tasks.step (Tasks.start cmdSize txSize rx) ms).2,
        p.lingo = 0x00 ∨ p.lingo = 0x04)
    (hdropped : droppedRecords
      (Transition.run Tasks.step (Tasks.start cmdSize txSize rx) ms).2 = [])
    (hidle : (Transition.run Tasks.step (Tasks.start cmdSize txSize rx) ms).1.Idle) :
    let h := (Transition.run Tasks.step (Tasks.start cmdSize txSize rx) ms).2
    (printedRecords h).map Prod.snd = (acceptedPackets h).map Packet.body ↔
      ∀ p ∈ acceptedPackets h, p.lingo ≠ 0x04 := by
  intro h
  have hcons := (@flowing_run R cmdSize txSize rx ms).conserved
  rw [flight_of_idle hidle] at hcons
  have hprinted : (printedRecords h).map Prod.snd =
      (acceptedPackets h).filterMap Packet.forwarded := by
    rw [← Flow.numbered_map_snd]
    exact congrArg _ (hcons.delivered_eq hdropped)
  rw [hprinted, filterMap_forwarded_eq_iff hlingo]

def rxTaskStart (t : Timeouts) : (rxTask t).State :=
  ⟨RxState.start maxPacketSize 0 0, RxState.sound_start 0 0⟩

def readBytes (t : Timeouts) (bs : List UInt8) : List (Move (rxTask t)) :=
  bs.map fun b => .read (.byte ⟨0, b, 0⟩)

/-- The task that sends an accepted packet, then the task that processes it, then the
task that prints what comes of it. -/
def carryOn (t : Timeouts) : List (Move (rxTask t)) :=
  [.rx] ++ List.replicate 4 .process ++ List.replicate 6 (.tx 3300)

def requestiPodName : Packet := ⟨[0x00, 0x07], by decide, by decide⟩

def requestProtocolVersion : Packet := ⟨[0x04, 0x00, 0x12], by decide, by decide⟩

/-- A packet of Lingo `0x00` read from the port and carried to the console. -/
theorem printed_requestiPodName :
    let h := (Transition.run Tasks.step (Tasks.start 32 32 (rxTaskStart {}))
      (readBytes {} requestiPodName.frame ++ carryOn {})).2
    (printedRecords h).map Prod.snd = (acceptedPackets h).map Packet.body ↔
      ∀ p ∈ acceptedPackets h, p.lingo ≠ 0x04 :=
  printed_eq_accepted_iff (rxTaskStart {}) _ (by decide +kernel) (by decide +kernel)
    (by decide +kernel)

/-- A packet of Lingo `0x04` read from the port: it is accepted, processed and deleted,
and nothing is printed. -/
theorem requestProtocolVersion_not_printed :
    let s := Transition.run Tasks.step (Tasks.start 32 32 (rxTaskStart {}))
      (readBytes {} requestProtocolVersion.frame ++ carryOn {})
    s.1.Idle ∧ s.2 = [.accepted requestProtocolVersion, .freed 0] ∧
      (printedRecords s.2).map Prod.snd ≠ (acceptedPackets s.2).map Packet.body := by
  decide +kernel

end Snooper

end IpodEsp32
