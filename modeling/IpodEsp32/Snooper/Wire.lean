import IpodEsp32.Snooper.Backlog
import IpodEsp32.Snooper.ConsoleText
import IpodEsp32.Snooper.Parsing

/-!
# From the wire to the console

Whatever the other tasks do, `_rxTask` runs as it would alone on the inputs it takes
(`run_receive`). So the packets that a snooper accepts in an interleaving are those with
which the bytes it took parse (`accepted_iff_parses`), and what a reader finds in the text
of the `Serial` calls can be told from the bytes on the two wires, as long as the queues
can take the bursts and the snoopers print one after the other (`wire_to_console`). Lines
of `ESP_LOG`, which share the port in builds with a level above 0, are left out of it.
-/

namespace IpodEsp32

namespace Snooper

/-! ### The receive task among the others -/

def Receiver.receive (R : Receiver) (s : R.State) (i : R.Input) : R.State × List Packet :=
  ((R.step s i).1, (R.step s i).2.packet?.toList)

variable {R : Receiver} {cmdSize txSize : ℕ}

/-- The input that `_rxTask` takes by a move, if it reads the port. -/
def Tasks.input (s : Tasks R cmdSize txSize) (m : Move R) : List R.Input :=
  match m, s.rxPc with
  | .read i, .reading => [i]
  | _, _ => []

def inputsTaken (s : Tasks R cmdSize txSize) (ms : List (Move R)) : List R.Input :=
  Transition.collect Tasks.step Tasks.input s ms

theorem acceptedPackets_append (h more : List Event) :
    acceptedPackets (h ++ more) = acceptedPackets h ++ acceptedPackets more :=
  List.filterMap_append

theorem step_of_ne_read (s : Tasks R cmdSize txSize) {m : Move R} (h : ∀ i, m ≠ .read i) :
    (s.step m).1.rx = s.rx ∧ acceptedPackets (s.step m).2 = [] := by
  have hm := s.step_moves m
  generalize (s.step m).1 = s', (s.step m).2 = events at hm ⊢
  cases hm with
  | read i | accept i | reset i => exact absurd rfl (h i)
  | _ => exact ⟨rfl, by simp [acceptedPackets, Event.accepted?]⟩

theorem step_receive (s : Tasks R cmdSize txSize) (m : Move R) :
    ((s.step m).1.rx, acceptedPackets (s.step m).2) =
      Transition.run R.receive s.rx (s.input m) := by
  by_cases hread : ∃ i, m = .read i
  · obtain ⟨i, rfl⟩ := hread
    cases hpc : s.rxPc with
    | reading =>
        cases haction : (R.step s.rx i).2 <;>
          simp [Tasks.step, readMove, Tasks.input, hpc, haction, Transition.run,
            Receiver.receive, RxAction.packet?, acceptedPackets, Event.accepted?]
    | _ => simp [Tasks.step, readMove, Tasks.input, hpc, acceptedPackets]
  · have hnone : s.input m = [] := by
      cases m with
      | read i => exact absurd ⟨i, rfl⟩ hread
      | _ => rfl
    obtain ⟨hrx, haccepted⟩ := step_of_ne_read s fun i h => hread ⟨i, h⟩
    rw [hnone, hrx, haccepted]
    rfl

/-- In every interleaving, the variables of `_rxTask` and the packets it accepts are those
of a run by itself on the inputs it takes. -/
theorem run_receive (s : Tasks R cmdSize txSize) (ms : List (Move R)) :
    ((Transition.run Tasks.step s ms).1.rx,
        acceptedPackets (Transition.run Tasks.step s ms).2) =
      Transition.run R.receive s.rx (inputsTaken s ms) := by
  induction ms using List.reverseRecOn with
  | nil => rfl
  | append_singleton ms m ih =>
      have hstep := step_receive (Transition.run Tasks.step s ms).1 m
      rw [Transition.run_concat, acceptedPackets_append, inputsTaken,
        Transition.collect_concat, Transition.run_append]
      have hstate := congrArg Prod.fst ih
      have hpackets := congrArg Prod.snd ih
      simp only at hstate hpackets
      rw [inputsTaken] at hstate hpackets
      rw [← hstate, ← hpackets, ← hstep]

/-! ### The bytes on the wire -/

variable {t : Timeouts}

theorem offers_append (log more : List (ℕ × RxEvent)) :
    offers (log ++ more) = offers log ++ offers more := by
  rw [offers, stampedOffers_append, List.map_append]
  rfl

theorem offers_map (n : ℕ) (events : List RxEvent) :
    offers (events.map fun e => (n, e)) = offered events := by
  rw [offers, stampedOffers_map, List.map_map]
  exact List.map_id _

theorem run_rxTask (s : (rxTask t).State) (n : ℕ) (inputs : List (rxTask t).Input) :
    (Transition.run (rxTask t).receive s inputs).2.map Packet.command =
      offers (rxLog t n s.1 inputs) := by
  induction inputs generalizing s n with
  | nil => rfl
  | cons i inputs ih =>
      let next : (rxTask t).State := ((rxTask t).step s i).1
      have haction : ((rxTask t).step s i).2.packet?.toList.map Packet.command =
          offered (rxStep t s.1 i).2 := (rxAction_events s.2 t i).1.symm
      calc (Transition.run (rxTask t).receive s (i :: inputs)).2.map Packet.command
          = ((rxTask t).step s i).2.packet?.toList.map Packet.command ++
              (Transition.run (rxTask t).receive next inputs).2.map Packet.command :=
            List.map_append
        _ = offers ((rxStep t s.1 i).2.map fun e => (n + RxInput.width i, e)) ++
              offers (rxLog t (n + RxInput.width i) next.1 inputs) :=
            congrArg₂ (· ++ ·) (haction.trans (offers_map _ _).symm) (ih next _)
        _ = offers (rxLog t n s.1 (i :: inputs)) := (offers_append _ _).symm

theorem bytes_injective : Function.Injective Packet.bytes := by
  intro p q h
  cases p
  cases q
  simp_all

theorem bytes_of_run_rxTask (s : (rxTask t).State) (inputs : List (rxTask t).Input) :
    (Transition.run (rxTask t).receive s inputs).2.map Packet.bytes =
      (Framing.feed ipodFormat s.1.framer (signals t s.1 inputs)).2 := by
  have hcommands : ((Transition.run (rxTask t).receive s inputs).2.map Packet.bytes).map
      AapCommand.ofBytes = (Transition.run (rxTask t).receive s inputs).2.map
        Packet.command := List.map_map
  exact ofBytes_injective.list_map (hcommands.trans
    ((run_rxTask s 0 inputs).trans (offers_eq_feed t (by decide) s.2 inputs)))

/-- From any state without a frame in progress and in every interleaving, the packets
accepted are those with which the bytes and discards of the inputs taken parse. -/
theorem accepted_iff_parses {rx : (rxTask t).State} (hidle : rx.1.rxIncomplete = false)
    (ms : List (Move (rxTask t))) (ps : List Packet) :
    let start : Tasks (rxTask t) cmdSize txSize := Tasks.start cmdSize txSize rx
    acceptedPackets (Transition.run Tasks.step start ms).2 = ps ↔
      Framing.Parses ipodFormat rx.1.prevByte (signals t rx.1 (inputsTaken start ms))
        (ps.map Packet.bytes) := by
  intro start
  have haccepted : acceptedPackets (Transition.run Tasks.step start ms).2 =
      (Transition.run (rxTask t).receive rx (inputsTaken start ms)).2 :=
    congrArg Prod.snd (run_receive start ms)
  have hframer : rx.1.framer = ⟨rx.1.prevByte, .hunting⟩ :=
    congrArg _ (RxState.phase_idle hidle)
  have hbytes := bytes_of_run_rxTask rx (inputsTaken start ms)
  rw [hframer] at hbytes
  rw [Framing.parses_iff, ← hbytes, ← haccepted]
  exact bytes_injective.list_map.eq_iff.symm

/-! ### From end to end -/

/-- In this run the snooper is not reset, the queues can take the bursts, and at its end
nothing is under way. -/
structure Unhindered (start : Tasks R cmdSize txSize) (ms : List (Move R)) : Prop where
  noReset : Transition.StepsMeet Tasks.step NotResetting start ms
  cmd : ∀ w, w <:+: Flow.ticks Tasks.step cmdTick start ms → Flow.Balanced cmdSize w
  tx : ∀ w, w <:+: Flow.ticks Tasks.step txTick start ms → Flow.Balanced txSize w
  idle : (Transition.run Tasks.step start ms).1.Idle

theorem stage_of_idle {s : Tasks R cmdSize txSize} (h : s.Idle) : s.txPc.stage = .quiet := by
  have hheld := h.2.2.2.2
  cases hpc : s.txPc with
  | printing t | writing t | ending t | freeing t => simp [hpc, TxPc.held] at hheld
  | _ => rfl

theorem filterMap_forwarded (ps : List Packet) :
    ps.filterMap Packet.forwarded = (ps.filter fun p => p.lingo = 0x00).map Packet.body := by
  rw [← List.filterMap_eq_map, List.filterMap_filter]
  congr 1
  funext p
  simp [p.forwarded_eq]

theorem Unhindered.printed {rx : (rxTask t).State} {ms : List (Move (rxTask t))}
    (h : Unhindered (Tasks.start cmdSize txSize rx) ms) {ps : List Packet}
    (hidle : rx.1.rxIncomplete = false)
    (hparses : Framing.Parses ipodFormat rx.1.prevByte
      (signals t rx.1 (inputsTaken (Tasks.start cmdSize txSize rx) ms))
      (ps.map Packet.bytes)) :
    (printedRecords (Transition.run Tasks.step
        (Tasks.start cmdSize txSize rx) ms).2).map Prod.snd =
      (ps.filter fun p => p.lingo = 0x00).map Packet.body := by
  have haccepted := (accepted_iff_parses hidle ms ps).2 hparses
  have hprinted := printed_eq_of_balanced rx ms h.noReset h.cmd h.tx h.idle
  simp only at hprinted
  rw [hprinted, ← recordFlow_source, ← filterMap_forwarded, ← haccepted]
  exact Flow.numbered_map_snd _ _

/-- From the bytes on two wires to the text written by the calls of `Serial`: if neither
snooper is hindered, each prints alone and no line feed is to be printed, then the payloads
found for a snooper are those of the packets of Lingo `0x00` with which the bytes on its
wire parse, in order. -/
theorem wire_to_console (rx : Uart → (rxTask t).State)
    (hidle : ∀ u, (rx u).1.rxIncomplete = false) (ms : List (Uart × Move (rxTask t)))
    (ps : Uart → List Packet)
    (hparses : ∀ u, Framing.Parses ipodFormat (rx u).1.prevByte
      (signals t (rx u).1
        (inputsTaken (Tasks.start cmdSize txSize (rx u)) (Transition.part u ms)))
      ((ps u).map Packet.bytes))
    (hfree : ∀ u, Unhindered (Tasks.start cmdSize txSize (rx u)) (Transition.part u ms))
    (halone : Transition.StepsMeet Console.step PrintsAlone
      (Console.start cmdSize txSize rx) ms)
    (hplain : ∀ u, ∀ p ∈ ps u, p.lingo = 0x00 → (0x0A : UInt8) ∉ p.body) :
    let found := readRecords (text (serialTrace
      (Transition.run Console.step (Console.start cmdSize txSize rx) ms).2))
    ∀ u, (Transition.part u found).map Prod.snd =
      ((ps u).filter fun p => p.lingo = 0x00).map Packet.body := by
  intro found u
  have hrun := fun u => @run_console (rxTask t) cmdSize txSize rx ms u
  have hstate := fun u => congrArg Prod.fst (hrun u)
  have hown := fun u => congrArg Prod.snd (hrun u)
  have hprinted := fun u => (hfree u).printed (hidle u) (hparses u)
  obtain ⟨sent, htrace⟩ := exists_records halone fun u =>
    (congrArg (fun s => s.txPc.stage) (hstate u)).trans (stage_of_idle (hfree u).idle)
  have hpayload : ∀ v, ∀ r ∈ printedRecords (Transition.part v (Transition.run Console.step
      (Console.start cmdSize txSize rx) ms).2), (0x0A : UInt8) ∉ r.2 := by
    intro v r hr
    have hr' : r ∈ printedRecords (Transition.run Tasks.step
        (Tasks.start cmdSize txSize (rx v)) (Transition.part v ms)).2 := hown v ▸ hr
    have hmem := List.mem_map_of_mem (f := Prod.snd) hr'
    rw [hprinted v] at hmem
    obtain ⟨p, hp, hbody⟩ := List.mem_map.1 hmem
    rw [List.mem_filter, decide_eq_true_eq] at hp
    exact hbody ▸ hplain v p hp.1 hp.2
  have hfound := (part_readRecords htrace hpayload u).2
  rw [show Transition.part u _ = _ from hown u] at hfound
  exact hfound.trans (hprinted u)

/-- The two packets of `twoPorts` on their ways from the wires to the console. -/
theorem wire_to_console_twoPorts :
    let rx := fun _ : Uart => rxTaskStart {}
    let found := readRecords (text (serialTrace
      (Transition.run Console.step (Console.start 2 2 rx) twoPorts).2))
    ∀ u, (Transition.part u found).map Prod.snd =
      ([requestiPodName].filter fun p => p.lingo = 0x00).map Packet.body := by
  have hquiet : Transition.StepsMeet Console.step
      (fun c m => (c (Uart.other m.1)).txPc.stage = .quiet)
      (Console.start 2 2 fun _ : Uart => rxTaskStart {}) twoPorts := by
    decide +kernel
  refine wire_to_console (fun _ => rxTaskStart {}) (fun _ => rfl) twoPorts
    (fun _ => [requestiPodName]) (fun u => ?_) (fun u => ?_)
    (hquiet.imp fun c m h => printsAlone_of_quiet h) (fun u => ?_)
  · rw [Framing.parses_iff]
    cases u <;> decide +kernel
  · have hreset : Transition.StepsMeet Tasks.step NotResetting
        (Tasks.start 2 2 (rxTaskStart {})) (Transition.part u twoPorts) := by
      cases u <;> decide +kernel
    have hcmd : Flow.ticks Tasks.step cmdTick (Tasks.start 2 2 (rxTaskStart {}))
        (Transition.part u twoPorts) = [.arrive, .serve] := by
      cases u <;> decide +kernel
    have htx : Flow.ticks Tasks.step txTick (Tasks.start 2 2 (rxTaskStart {}))
        (Transition.part u twoPorts) = [.arrive, .serve] := by
      cases u <;> decide +kernel
    exact ⟨hreset, (Flow.fits_iff 2 _).1 (hcmd ▸ ⟨by decide, trivial⟩),
      (Flow.fits_iff 2 _).1 (htx ▸ ⟨by decide, trivial⟩), by cases u <;> decide +kernel⟩
  · decide +kernel

end Snooper

end IpodEsp32
