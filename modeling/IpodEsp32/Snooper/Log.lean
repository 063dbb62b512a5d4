import IpodEsp32.Snooper.Delivery
import IpodEsp32.Snooper.Fields
import IpodEsp32.Transition.Annotate

/-!
# What a snooper does not show

Of most packets all that is ever seen are the lines that `_processPacket` logs, since only
those of Lingo `0x00` are printed. In every interleaving each packet accepted is processed
once, in order, unless it is given up before (`flowing_handled`). Which packets processed
leave neither a line nor a record depends on the build (`Packet.untraced_iff`); so the
packets a run accepts and shows nothing of are known exactly (`untraced_of_run`).
-/

namespace IpodEsp32

namespace Snooper

/-! ### The packets processed -/

abbrev Numbered : Type := ℕ × Packet

def numberedPacket (b : Buffer Packet) : Numbered := (b.origin, b.content)

variable {R : Receiver} {cmdSize txSize : ℕ}

def Tasks.handled (s : Tasks R cmdSize txSize) (m : Move R) : List Numbered :=
  match m, s.processPc with
  | .process, .processing b => [numberedPacket b]
  | _, _ => []

/-- The packets processed in a run, in order. -/
def handledPackets (s : Tasks R cmdSize txSize) (ms : List (Move R)) : List Numbered :=
  Transition.collect Tasks.step Tasks.handled s ms

def Event.unhandled? : Event → Option Numbered
  | .droppedCmd b => some (numberedPacket b)
  | _ => none

def unhandledPackets (h : List Event) : List Numbered := h.filterMap Event.unhandled?

def packetFlow : Flow.Observer (Numbered ⊕ Event) Packet Packet where
  accepted? e := e.getRight?.bind Event.accepted?
  outcome := some
  delivered? := Sum.getLeft?
  lost? e := e.getRight?.bind Event.unhandled?

def RxPc.packets : RxPc → List Numbered
  | .sending b => [numberedPacket b]
  | _ => []

def ProcessPc.packets : ProcessPc → List Numbered
  | .processing b => [numberedPacket b]
  | _ => []

/-- The packets still to be processed, the next one first. -/
def Tasks.toHandle (s : Tasks R cmdSize txSize) : List Numbered :=
  s.processPc.packets ++ s.cmdQueue.items.map numberedPacket ++ s.rxPc.packets

theorem loses_unhandled (bs : List (Buffer Packet)) :
    packetFlow.Loses ((bs.map Event.droppedCmd).map Sum.inr) (bs.map numberedPacket) := by
  refine ⟨?_, ?_, ?_⟩
  · simp [Flow.Observer.accepted, packetFlow, Event.accepted?]
  · simp [Flow.Observer.delivered, packetFlow]
  · simp [Flow.Observer.lost, packetFlow, Event.unhandled?, List.filterMap_map,
      Function.comp_def]

theorem loses_other {events : List Event}
    (h : ∀ e ∈ events, e.accepted? = none ∧ e.unhandled? = none) :
    packetFlow.Loses (events.map Sum.inr) [] := by
  refine Flow.loses_nil fun e he => ?_
  obtain ⟨event, hevent, rfl⟩ := List.mem_map.1 he
  exact ⟨(h event hevent).1, rfl, (h event hevent).2⟩

section

variable {h : List (Numbered ⊕ Event)} {events : List Event} {s s' : Tasks R cmdSize txSize}
  {m : Move R}

theorem flowing_of_not_handled (hs : Flow.Flowing packetFlow h s.accepted s.toHandle)
    (hm : s.Moves m events s') (hnone : s.handled m = []) :
    Flow.Flowing packetFlow (h ++ events.map Sum.inr) s'.accepted s'.toHandle := by
  cases hm with
  | stay m => exact hs.silent (loses_other (by simp)) rfl rfl
  | read i hpc => exact hs.silent (loses_other (by simp)) rfl rfl
  | accept i p hpc =>
      exact hs.enter rfl rfl rfl rfl
        (by simp [Tasks.toHandle, hpc, RxPc.packets, packetFlow, numberedPacket])
  | reset i hpc | drainedCmd hpc hq | drainedTx hpc hq =>
      exact hs.silent (loses_other (by simp)) rfl
        (by simp [Tasks.toHandle, hpc, RxPc.packets])
  | send b q hpc hq =>
      exact hs.silent (loses_other (by simp)) rfl
        (by simp [Tasks.toHandle, hpc, hq, RxPc.packets])
  | sendFailed b hpc hfull =>
      exact hs.lose (loses_unhandled [b]) (s.processPc.packets ++
          s.cmdQueue.items.map numberedPacket) [] rfl
        (by simp [Tasks.toHandle, hpc, RxPc.packets])
        (by simp [Tasks.toHandle, RxPc.packets])
  | drainCmd b q hpc hq =>
      exact hs.lose (loses_unhandled [b]) s.processPc.packets
          (q.items.map numberedPacket) rfl
        (by simp [Tasks.toHandle, hpc, hq, RxPc.packets])
        (by simp [Tasks.toHandle, RxPc.packets])
  | resetCmd hpc =>
      exact hs.lose (loses_unhandled s.cmdQueue.items) s.processPc.packets [] rfl
        (by simp [Tasks.toHandle, hpc, RxPc.packets])
        (by simp [Tasks.toHandle, RxPc.packets])
  | drainTx t q hpc hq | resetTx hpc =>
      exact hs.silent (loses_other (by simp [Event.accepted?, Event.unhandled?])) rfl
        (by simp [Tasks.toHandle, hpc, RxPc.packets])
  | dropCmd b hpc | drainCmdFree b hpc | drainTxFree b hpc =>
      exact hs.silent (loses_other (by simp [Event.accepted?, Event.unhandled?])) rfl
        (by simp [Tasks.toHandle, hpc, RxPc.packets])
  | receive b q hpc hq =>
      exact hs.silent (loses_other (by simp)) rfl
        (by simp [Tasks.toHandle, hpc, hq, ProcessPc.packets])
  | forward b bytes hpc hf | pass b hpc hf => simp [Tasks.handled, hpc] at hnone
  | queue b t q hpc hq | queueFailed b t hpc hfull | dropTx b t hpc | freeCmd b hpc =>
      exact hs.silent (loses_other (by simp [Event.accepted?, Event.unhandled?])) rfl
        (by simp [Tasks.toHandle, hpc, ProcessPc.packets])
  | look | take | miss | print | write | println | freeTx =>
      exact hs.silent (loses_other (by simp [Event.accepted?, Event.unhandled?])) rfl rfl

theorem flowing_step (hs : Flow.Flowing packetFlow h s.accepted s.toHandle) (m : Move R) :
    Flow.Flowing packetFlow (h ++ (Transition.annotate Tasks.step Tasks.handled s m).2)
      (s.step m).1.accepted (s.step m).1.toHandle := by
  rw [Transition.annotate]
  by_cases hnone : s.handled m = []
  · rw [hnone]
    exact flowing_of_not_handled hs (s.step_moves m) hnone
  · -- `_processTask` processes the packet in its hands
    cases m with
    | read | rx | tx => exact absurd rfl hnone
    | process =>
        cases hpc : s.processPc with
        | processing b =>
            have hhandled : s.handled .process = [numberedPacket b] := by
              simp [Tasks.handled, hpc]
            have hdelivered : packetFlow.delivered [Sum.inl (numberedPacket b)] =
                [numberedPacket b] := rfl
            cases hf : b.content.forwarded with
            | none | some bytes =>
                simp only [hhandled, Tasks.step, processMove, hpc, hf]
                exact hs.deliver rfl hdelivered rfl rfl
                  (by simp [Tasks.toHandle, hpc, ProcessPc.packets])
        | receiving | queueing | dropping | freeing => simp [Tasks.handled, hpc] at hnone

end

theorem flowing_handled (rx : R.State) (ms : List (Move R)) :
    let s := Transition.run (Transition.annotate Tasks.step Tasks.handled)
      (Tasks.start cmdSize txSize rx : Tasks R cmdSize txSize) ms
    Flow.Flowing packetFlow s.2 s.1.accepted s.1.toHandle :=
  Transition.invariant (I := fun h (s : Tasks R cmdSize txSize) =>
    Flow.Flowing packetFlow h s.accepted s.toHandle) Flow.flowing_start
    (fun _ _ m hs => flowing_step hs m) ms

/-- In every interleaving the packets processed are a selection of those accepted, each at
most once and in order; and those accepted were processed, were given up before, or are
still to be processed. -/
theorem handled_of_run (rx : R.State) (ms : List (Move R)) :
    let start : Tasks R cmdSize txSize := Tasks.start cmdSize txSize rx
    let s := Transition.run Tasks.step start ms
    (handledPackets start ms).Sublist (Flow.numbered some (acceptedPackets s.2)) ∧
      (handledPackets start ms ++ s.1.toHandle ++ unhandledPackets s.2).Perm
        (Flow.numbered some (acceptedPackets s.2)) := by
  intro start s
  obtain ⟨hstate, hnotes, houtputs⟩ :=
    Transition.run_annotate (f := Tasks.handled) start ms
  have hflow : Flow.Flowing packetFlow (Transition.run
      (Transition.annotate Tasks.step Tasks.handled) start ms).2 s.1.accepted s.1.toHandle := by
    rw [← hstate]
    exact flowing_handled rx ms
  have hdelivered : packetFlow.delivered (Transition.run
      (Transition.annotate Tasks.step Tasks.handled) start ms).2 = handledPackets start ms :=
    hnotes
  have haccepted : packetFlow.accepted (Transition.run
      (Transition.annotate Tasks.step Tasks.handled) start ms).2 = acceptedPackets s.2 := by
    rw [acceptedPackets, ← houtputs, Transition.outputs, List.filterMap_filterMap]
    rfl
  have hlost : packetFlow.lost (Transition.run
      (Transition.annotate Tasks.step Tasks.handled) start ms).2 = unhandledPackets s.2 := by
    rw [unhandledPackets, ← houtputs, Transition.outputs, List.filterMap_filterMap]
    rfl
  obtain ⟨-, hordered, hcomplete⟩ := hflow
  rw [Flow.Observer.source, haccepted, hdelivered] at hordered hcomplete
  rw [hlost] at hcomplete
  exact ⟨(List.sublist_append_left _ _).trans hordered, hcomplete⟩

/-! ### What is shown of a packet -/

/-- The lines that `_processPacket` logs for a packet, where `beyond` lies behind its
payload. -/
def Packet.lines (p : Packet) (coreDebugLevel : ℕ) (beyond : ℕ → UInt8) :
    List (LogLevel × String × List ℕ) :=
  (processPacket 0 (UInt32.ofNat p.bytes.length)).logged
    (Env.holding coreDebugLevel p.bytes beyond)

/-- The most urgent line for a packet that is not of Lingo `0x00`. -/
def Packet.urgency (p : Packet) (beyond : ℕ → UInt8) : LogLevel :=
  if p.lingo = 0x04 then
    match L0x04.ofByte (p.bytes.getD 2 (beyond 2)) with
    | some .getIndexedPlayingTrackInfo =>
        if p.bytes.getD 3 (beyond 3) ∈ [0x00, 0x01, 0x02, 0x05, 0x06] then .info else .warn
    | some _ => .info
    | none => .debug
  else .warn

theorem trackInfoLine_level (infoType : UInt8) :
    (trackInfoLine infoType).1 =
      if infoType ∈ [0x00, 0x01, 0x02, 0x05, 0x06] then .info else .warn := by
  unfold trackInfoLine
  by_cases h₀ : infoType = 0x00
  · simp [h₀]
  by_cases h₂ : infoType = 0x02
  · simp [h₂]
  by_cases h₁ : infoType = 0x01
  · simp [h₁]
  by_cases h₅ : infoType = 0x05
  · simp [h₅]
  by_cases h₆ : infoType = 0x06
  · simp [h₆]
  simp [h₀, h₁, h₂, h₅, h₆]

theorem logged_espLog_eq_nil_iff {level : LogLevel} {format : String}
    {args : Handler (List ℕ)} {env : Env} :
    (espLog level format args).logged env = [] ↔ env.coreDebugLevel < level.threshold := by
  rw [logged_espLog]
  by_cases h : level.threshold ≤ env.coreDebugLevel
  · simp [h]
  · simpa [h] using Nat.lt_of_not_le h

theorem logged_readByte (i : ℕ) (env : Env) : (readByte i).logged env = [] := rfl

theorem logged_readWord (i : ℕ) (env : Env) : (readWord i).logged env = [] := rfl

theorem logged_logLingo0x04_eq_nil_iff (byteArray : ℕ) (cmdID : UInt8) (env : Env) :
    (logLingo0x04 byteArray cmdID).logged env = [] ↔
      match L0x04.ofByte cmdID with
      | some .getIndexedPlayingTrackInfo =>
          env.coreDebugLevel < (trackInfoLine (env.memory (byteArray + 2))).1.threshold
      | some _ => env.coreDebugLevel < LogLevel.info.threshold
      | none => True := by
  unfold logLingo0x04
  cases L0x04.ofByte cmdID with
  | none => exact iff_of_true rfl trivial
  | some c =>
      cases c <;>
        simp only [logTrackIndex, logParameter, logged_bind, logged_readByte, logged_readWord,
          List.nil_append, logged_espLog_eq_nil_iff, value_readByte]

theorem logged_processPacket_eq_nil_iff (len : UInt32) {env : Env}
    (h0 : env.memory 0 ≠ 0x00) :
    (processPacket 0 len).logged env = [] ↔
      if env.memory 0 = 0x04 then
        env.coreDebugLevel < LogLevel.debug.threshold ∧
          (logLingo0x04 1 (env.memory 2)).logged env = []
      else env.coreDebugLevel < LogLevel.warn.threshold := by
  rw [processPacket, logged_bind, logged_readByte, List.nil_append, value_readByte, if_neg h0]
  by_cases h4 : env.memory 0 = 0x04
  · have henter : ∀ lingo len, (enterProcessor lingo len).logged env = [] := fun _ _ => rfl
    simp only [if_pos h4, logged_bind, henter, processLingo0x04, logged_readByte,
      List.nil_append, List.append_eq_nil_iff, logged_espLog_eq_nil_iff, value_readByte]
  · rw [if_neg h4, if_neg h4, logged_espLog_eq_nil_iff]

/-- The packets that leave neither a line nor a record. -/
theorem Packet.untraced_iff (p : Packet) (coreDebugLevel : ℕ) (beyond : ℕ → UInt8) :
    p.lines coreDebugLevel beyond = [] ∧ p.forwarded = none ↔
      p.lingo ≠ 0x00 ∧ coreDebugLevel < (p.urgency beyond).threshold := by
  rw [p.forwarded_eq]
  by_cases h0 : p.lingo = 0x00
  · simp [h0]
  have hfirst : (Env.holding coreDebugLevel p.bytes beyond).memory 0 = p.lingo := by
    rw [p.bytes_eq]
    rfl
  have hcmd : (Env.holding coreDebugLevel p.bytes beyond).memory 2 =
      p.bytes.getD 2 (beyond 2) := rfl
  have hinfo : (Env.holding coreDebugLevel p.bytes beyond).memory (1 + 2) =
      p.bytes.getD 3 (beyond 3) := rfl
  have hlevel : (Env.holding coreDebugLevel p.bytes beyond).coreDebugLevel =
      coreDebugLevel := rfl
  rw [lines, logged_processPacket_eq_nil_iff _ (hfirst.trans_ne h0), hfirst,
    logged_logLingo0x04_eq_nil_iff, trackInfoLine_level, hcmd, hinfo, hlevel, urgency,
    if_neg h0, and_iff_left rfl, and_iff_right h0]
  by_cases h4 : p.lingo = 0x04
  · -- where the line of the command is missing, so is that of its Lingo
    have himp : ∀ level : LogLevel, coreDebugLevel < level.threshold →
        coreDebugLevel < LogLevel.debug.threshold := by
      intro level h
      cases level <;> simp only [LogLevel.threshold] at h ⊢ <;> omega
    rw [if_pos h4, if_pos h4]
    cases L0x04.ofByte (p.bytes.getD 2 (beyond 2)) with
    | none => exact and_iff_left trivial
    | some c => cases c <;> exact and_iff_right_of_imp (himp _)
  · rw [if_neg h4, if_neg h4]

/-! ### What is shown of a run -/

/-- The lines logged for packets processed, each with the number of its packet. -/
def linesOf (coreDebugLevel : ℕ) (beyond : ℕ → ℕ → UInt8) (rs : List Numbered) :
    List (ℕ × LogLevel × String × List ℕ) :=
  rs.flatMap fun r => (r.2.lines coreDebugLevel (beyond r.1)).map fun line => (r.1, line)

def recordsOf (rs : List Numbered) : List Record :=
  rs.filterMap fun r => r.2.forwarded.map fun bytes => (r.1, bytes)

theorem not_shown_iff {rs : List Numbered} {r : Numbered} (coreDebugLevel : ℕ)
    (beyond : ℕ → ℕ → UInt8) (hinj : ∀ r' ∈ rs, r'.1 = r.1 → r' = r) :
    ((∀ line ∈ linesOf coreDebugLevel beyond rs, line.1 ≠ r.1) ∧
        ∀ c ∈ recordsOf rs, c.1 ≠ r.1) ↔
      (r ∈ rs → r.2.lines coreDebugLevel (beyond r.1) = [] ∧ r.2.forwarded = none) := by
  constructor
  · rintro ⟨hlines, hrecords⟩ hr
    constructor
    · refine List.eq_nil_iff_forall_not_mem.2 fun line hline => ?_
      exact hlines (r.1, line) (List.mem_flatMap.2 ⟨r, hr, List.mem_map_of_mem hline⟩) rfl
    · refine Option.eq_none_iff_forall_not_mem.2 fun bytes hbytes => ?_
      refine hrecords (r.1, bytes) (List.mem_filterMap.2 ⟨r, hr, ?_⟩) rfl
      rw [Option.mem_def.1 hbytes, Option.map_some]
  · intro h
    constructor
    · rintro line hline hnumber
      obtain ⟨r', hr', hline⟩ := List.mem_flatMap.1 hline
      obtain ⟨line', hline', rfl⟩ := List.mem_map.1 hline
      obtain rfl := hinj r' hr' hnumber
      rw [(h hr').1] at hline'
      cases hline'
    · rintro c hc hnumber
      obtain ⟨r', hr', hc⟩ := List.mem_filterMap.1 hc
      obtain ⟨bytes, hbytes, rfl⟩ := Option.map_eq_some_iff.1 hc
      obtain rfl := hinj r' hr' hnumber
      rw [(h hr').2] at hbytes
      cases hbytes

/-- In every interleaving and every build, once no packet is waiting to be processed, the
packets accepted of which neither a line nor a record is shown are those given up before
they were processed and, of those that are not of Lingo `0x00`, the ones whose most urgent
line is not compiled in. -/
theorem untraced_of_run (rx : R.State) (ms : List (Move R)) (coreDebugLevel : ℕ)
    (beyond : ℕ → ℕ → UInt8)
    (hdone : (Transition.run Tasks.step (Tasks.start cmdSize txSize rx) ms).1.toHandle = []) :
    let start : Tasks R cmdSize txSize := Tasks.start cmdSize txSize rx
    let h := (Transition.run Tasks.step start ms).2
    ∀ r ∈ Flow.numbered some (acceptedPackets h),
      ((∀ line ∈ linesOf coreDebugLevel beyond (handledPackets start ms), line.1 ≠ r.1) ∧
          ∀ c ∈ recordsOf (handledPackets start ms), c.1 ≠ r.1) ↔
        r ∈ unhandledPackets h ∨
          (r.2.lingo ≠ 0x00 ∧ coreDebugLevel < (r.2.urgency (beyond r.1)).threshold) := by
  intro start h r hr
  obtain ⟨hselected, hcomplete⟩ := @handled_of_run R cmdSize txSize rx ms
  rw [hdone, List.append_nil] at hcomplete
  have hnodup := Flow.numbered_nodup some (acceptedPackets h)
  have hdisjoint := (List.nodup_append.1 (hcomplete.nodup_iff.2 hnodup)).2.2
  have hinj : ∀ r' ∈ handledPackets start ms, r'.1 = r.1 → r' = r := fun r' hr' hnumber =>
    Flow.numbered_inj some (hselected.subset hr') hr hnumber
  rw [not_shown_iff coreDebugLevel beyond hinj, r.2.untraced_iff]
  rcases List.mem_append.1 (hcomplete.mem_iff.2 hr) with hhandled | hunhandled
  · have hnot : r ∉ unhandledPackets h := fun hr' => hdisjoint r hhandled r hr' rfl
    exact ⟨fun huntraced => Or.inr (huntraced hhandled),
      fun hcases _ => hcases.resolve_left hnot⟩
  · refine iff_of_true (fun hhandled => ?_) (Or.inl hunhandled)
    exact absurd rfl (hdisjoint r hhandled r hunhandled)

/-- `RequestProtocolVersion` is seen in no build below level 3. -/
theorem untraced_of_run_requestProtocolVersion :
    let start := Tasks.start 2 2 (rxTaskStart {})
    let ms := readBytes {} requestProtocolVersion.frame ++ carryOn {}
    let h := (Transition.run Tasks.step start ms).2
    ∀ r ∈ Flow.numbered some (acceptedPackets h),
      ((∀ line ∈ linesOf 2 (fun _ _ => 0x00) (handledPackets start ms), line.1 ≠ r.1) ∧
          ∀ c ∈ recordsOf (handledPackets start ms), c.1 ≠ r.1) ↔
        r ∈ unhandledPackets h ∨
          (r.2.lingo ≠ 0x00 ∧ 2 < (r.2.urgency fun _ => 0x00).threshold) :=
  untraced_of_run (rxTaskStart {}) _ 2 (fun _ _ => 0x00) (by decide +kernel)

end Snooper

end IpodEsp32
