import IpodEsp32.Framing.Framer
import IpodEsp32.Snooper.ByteEffect

/-!
# The receive task as a framer

`ipodFormat` is the framing of the iPod serial protocol: `FF 55`, a length byte,
the payload, and the byte that closes it. `RxState.framer` reads the variables of
`_rxTask` as a framer of that format: a frame in progress has received its first
`cursor` payload bytes into `buf`. With `N ≥ 256` each input of the task is one
step of the framer (`receiveByte_framer`, `rxRun_framer`), and the packets offered
are the payloads the framer offers, at the same positions (`stampedOffers_rxLog`).
-/

namespace IpodEsp32

namespace Snooper

open Framing (Framer Phase Signal)

def ipodFormat : Framing.Format UInt8 where
  first := 0xFF
  second := 0x55
  first_ne_second := by decide
  size := UInt8.toNat
  closes p c := decide (Closes p c)

variable {N : ℕ}

/-- What the variables of `_rxTask` say about the frame in progress. -/
def RxState.phase (s : RxState N) : Phase UInt8 :=
  if s.rxIncomplete then
    if s.expLength = 0 ∧ s.cursor = 0 then .length
    else .body s.expLength (s.buf.toList.take s.cursor)
  else .hunting

def RxState.framer (s : RxState N) : Framer UInt8 := ⟨s.prevByte, s.phase⟩

theorem RxState.phase_idle {s : RxState N} (h : s.rxIncomplete = false) :
    s.phase = .hunting := by
  simp [phase, h]

theorem RxState.phase_length {s : RxState N} (h : s.rxIncomplete = true)
    (hl : s.expLength = 0 ∧ s.cursor = 0) : s.phase = .length := by
  rw [phase, if_pos h, if_pos hl]

theorem RxState.phase_body {s : RxState N} (h : s.rxIncomplete = true)
    (hl : ¬ (s.expLength = 0 ∧ s.cursor = 0)) :
    s.phase = .body s.expLength (s.buf.toList.take s.cursor) := by
  rw [phase, if_pos h, if_neg hl]

theorem RxState.phase_eq_hunting_iff (s : RxState N) :
    s.phase = .hunting ↔ s.rxIncomplete = false := by
  cases h : s.rxIncomplete with
  | false => simp [phase_idle h]
  | true =>
      by_cases hl : s.expLength = 0 ∧ s.cursor = 0
      · simp [phase_length h hl]
      · simp [phase_body h hl]

/-! ### One input is one signal -/

def offered (events : List RxEvent) : List AapCommand :=
  events.filterMap RxEvent.offer?

@[simp] theorem offered_nil : offered [] = [] := rfl

@[simp] theorem offered_cons (e : RxEvent) (events : List RxEvent) :
    offered (e :: events) = e.offer?.toList ++ offered events := by
  unfold offered
  rw [List.filterMap_cons]
  cases h : e.offer? <;> rfl

/-- One byte of the task is one symbol of the framer. -/
theorem receiveByte_framer (hN : 256 ≤ N) {s : RxState N} (hs : s.Sound) (r : ByteRead) :
    (receiveByte s r).1.framer = (Framing.read ipodFormat s.framer r.incByte).1 ∧
      offered (receiveByte s r).2 =
        (Framing.read ipodFormat s.framer r.incByte).2.toList.map .ofBytes := by
  suffices hphase : (receiveByte s r).1.phase =
        (Framing.read ipodFormat s.framer r.incByte).1.phase ∧
      offered (receiveByte s r).2 =
        (Framing.read ipodFormat s.framer r.incByte).2.toList.map .ofBytes by
    have hprev := Framing.read_prev ipodFormat s.framer r.incByte
    exact ⟨congrArg₂ Framer.mk hprev.symm hphase.1, hphase.2⟩
  cases receiveByte_effect hs r with
  | ignored idle sync eq =>
      have hsync : ¬ Framing.Sync ipodFormat s.prevByte r.incByte := sync
      rw [eq, RxState.framer, RxState.phase_idle idle, Framing.read_hunting, if_neg hsync]
      exact ⟨RxState.phase_idle idle, rfl⟩
  | opened idle sync eq =>
      have hsync : Framing.Sync ipodFormat s.prevByte r.incByte := sync
      rw [eq, RxState.framer, RxState.phase_idle idle, Framing.read_hunting, if_pos hsync]
      exact ⟨RxState.phase_length rfl ⟨rfl, rfl⟩, rfl⟩
  | refused busy awaits length eq =>
      have hb := r.incByte.toNat_lt
      have hzero : ipodFormat.size r.incByte = 0 := length.resolve_left (by omega)
      rw [eq, RxState.framer, RxState.phase_length busy awaits, Framing.read_length,
        if_pos hzero]
      exact ⟨RxState.phase_idle rfl, rfl⟩
  | announced busy awaits pos fits eq =>
      have hsize : ¬ ipodFormat.size r.incByte = 0 := pos.ne'
      have hnone : s.buf.toList.take s.cursor = [] := by rw [awaits.2, List.take_zero]
      rw [eq, RxState.framer, RxState.phase_length busy awaits, Framing.read_length,
        if_neg hsize]
      exact ⟨Eq.trans (RxState.phase_body busy fun h => hsize h.1)
        (congrArg (Phase.body r.incByte.toNat) hnone), rfl⟩
  | stored busy more _ fits eq =>
      have hgot : (s.buf.toList.take s.cursor).length = s.cursor := by
        rw [List.length_take, Vector.length_toList]
        omega
      have hread := Framing.read_body_of_lt ipodFormat s.prevByte r.incByte
        (hgot.trans_lt more)
      have hstored := take_setIfInBounds_succ s.buf (more.trans_le fits) r.incByte
      rw [eq, RxState.framer, RxState.phase_body busy fun h => by omega, hread]
      exact ⟨Eq.trans (RxState.phase_body busy fun h => Nat.succ_ne_zero _ h.2)
        (congrArg (Phase.body s.expLength) hstored), rfl⟩
  | completed busy pos last _ fits eq =>
      have hgot : (s.buf.toList.take s.cursor).length = s.expLength := by
        rw [List.length_take, Vector.length_toList]
        omega
      have hread := Framing.read_body_last ipodFormat s.prevByte r.incByte
        (s.buf.toList.take s.cursor)
      have hcmd : (⟨s.buf.toList.take s.cursor, s.expLength⟩ : AapCommand) =
          .ofBytes (s.buf.toList.take s.cursor) := by
        rw [AapCommand.ofBytes, hgot]
      rw [hgot] at hread
      rw [eq, RxState.framer, RxState.phase_body busy fun h => pos.ne' h.1, hread, hcmd]
      refine ⟨RxState.phase_idle rfl, ?_⟩
      by_cases hc : Closes (s.buf.toList.take s.cursor) r.incByte <;>
        simp [ipodFormat, hc]

/-! ### A run is a feed -/

/-- What an input of the task is to the framer: a byte is a symbol, the end of a poll
a cut if the inter-byte timeout is seen, and nothing otherwise. -/
def signal (t : Timeouts) (s : RxState N) : RxInput → List (Signal UInt8)
  | .byte r => [.symbol r.incByte]
  | .pollEnd e => if interbyteExpired t s e.interbyteMillis then [.cut] else []

def signals (t : Timeouts) : RxState N → List RxInput → List (Signal UInt8)
  | _, [] => []
  | s, i :: inputs => signal t s i ++ signals t (rxStep t s i).1 inputs

theorem symbols_signals (t : Timeouts) (s : RxState N) (inputs : List RxInput) :
    Framing.symbols (signals t s inputs) = bytesRead inputs := by
  induction inputs generalizing s with
  | nil => rfl
  | cons i inputs ih =>
      rw [signals, Framing.symbols_append, ih]
      cases i with
      | byte r => rfl
      | pollEnd e =>
          cases h : interbyteExpired t s e.interbyteMillis <;>
            simp [signal, h, bytesRead]

theorem pollEnd_framer (t : Timeouts) (s : RxState N) (e : PollEnd) :
    (rxStep t s (.pollEnd e)).1.framer =
      if interbyteExpired t s e.interbyteMillis then ⟨s.prevByte, .hunting⟩
      else s.framer := by
  rw [rxStep_pollEnd_eq]
  cases interbyteExpired t s e.interbyteMillis with
  | true => exact congrArg _ (RxState.phase_idle (Bool.and_false _))
  | false => simp [RxState.framer, RxState.phase]

theorem offered_pollEnd (t : Timeouts) (s : RxState N) (e : PollEnd) :
    offered (rxStep t s (.pollEnd e)).2 = [] := by
  rw [rxStep_pollEnd_eq]
  cases interbyteExpired t s e.interbyteMillis <;>
    cases serialExpired t s e.serialMillis <;> rfl

/-- One input is fed to the framer as its signals. -/
theorem rxStep_framer (t : Timeouts) (hN : 256 ≤ N) {s : RxState N} (hs : s.Sound)
    (i : RxInput) :
    (Framing.feed ipodFormat s.framer (signal t s i)).1 = (rxStep t s i).1.framer ∧
      (Framing.feed ipodFormat s.framer (signal t s i)).2.map .ofBytes =
        offered (rxStep t s i).2 := by
  cases i with
  | byte r =>
      obtain ⟨hframer, hoff⟩ := receiveByte_framer hN hs r
      simp only [signal, Framing.feed_cons, Framing.step, Framing.feed_nil,
        List.append_nil, rxStep, hframer, hoff, and_self]
  | pollEnd e =>
      rw [pollEnd_framer, offered_pollEnd, signal]
      cases interbyteExpired t s e.interbyteMillis <;> exact ⟨rfl, rfl⟩

theorem rxRun_framer (t : Timeouts) (hN : 256 ≤ N) {s : RxState N} (hs : s.Sound)
    (inputs : List RxInput) :
    (rxRun t s inputs).framer =
      (Framing.feed ipodFormat s.framer (signals t s inputs)).1 := by
  induction inputs generalizing s with
  | nil => rfl
  | cons i inputs ih =>
      rw [rxRun, ih (rxStep_sound t hs i), signals, Framing.feed_append,
        (rxStep_framer t hN hs i).1]

theorem stampedOffers_append (log more : List (ℕ × RxEvent)) :
    stampedOffers (log ++ more) = stampedOffers log ++ stampedOffers more :=
  List.filterMap_append

theorem stampedOffers_map (n : ℕ) (events : List RxEvent) :
    stampedOffers (events.map fun e => (n, e)) =
      (offered events).map fun p => (n, p) := by
  induction events with
  | nil => rfl
  | cons e events ih =>
      have hcons : stampedOffers ((e :: events).map fun e => (n, e)) =
          (e.offer?.map fun p => (n, p)).toList ++
            stampedOffers (events.map fun e => (n, e)) := by
        rw [stampedOffers, List.map_cons, List.filterMap_cons]
        cases e.offer? <;> rfl
      rw [hcons, ih, offered_cons, List.map_append]
      cases e.offer? <;> rfl

theorem symbols_signal_length (t : Timeouts) (s : RxState N) (i : RxInput) :
    (Framing.symbols (signal t s i)).length = i.width := by
  cases i with
  | byte r => rfl
  | pollEnd e => cases h : interbyteExpired t s e.interbyteMillis <;> simp [signal, h] <;> rfl

theorem stamped_signal (t : Timeouts) (n : ℕ) (s : RxState N) (f : Framer UInt8)
    (i : RxInput) :
    Framing.stamped ipodFormat n f (signal t s i) =
      (Framing.feed ipodFormat f (signal t s i)).2.map fun p => (n + i.width, p) := by
  cases i with
  | byte r => simp [signal, Framing.stamped, Framing.feed_cons, RxInput.width]
  | pollEnd e =>
      cases h : interbyteExpired t s e.interbyteMillis <;>
        simp [signal, h, Framing.stamped, Framing.feed_cons, RxInput.width]

/-- The packets offered in a run, with their positions, are the payloads the framer
offers. -/
theorem stampedOffers_rxLog (t : Timeouts) (hN : 256 ≤ N) {s : RxState N} (hs : s.Sound)
    (n : ℕ) (inputs : List RxInput) :
    stampedOffers (rxLog t n s inputs) =
      (Framing.stamped ipodFormat n s.framer (signals t s inputs)).map
        fun o => (o.1, .ofBytes o.2) := by
  induction inputs generalizing n s with
  | nil => rfl
  | cons i inputs ih =>
      obtain ⟨hframer, hoff⟩ := rxStep_framer t hN hs i
      rw [rxLog, stampedOffers_append, stampedOffers_map, ih (rxStep_sound t hs i),
        signals, Framing.stamped_append, hframer, symbols_signal_length,
        List.map_append, stamped_signal, ← hoff, List.map_map, List.map_map]
      rfl

theorem interbyteDiscards_append (log more : List (ℕ × RxEvent)) :
    interbyteDiscards (log ++ more) =
      interbyteDiscards log ++ interbyteDiscards more :=
  List.filterMap_append

theorem interbyteDiscards_map {events : List RxEvent} (n : ℕ)
    (h : RxEvent.discarded .incomplete ∉ events) :
    interbyteDiscards (events.map fun e => (n, e)) = [] := by
  rw [interbyteDiscards, List.filterMap_eq_nil_iff]
  intro e he
  obtain ⟨e', he', rfl⟩ := List.mem_map.1 he
  refine if_neg fun hinc => h ?_
  rwa [← hinc]

theorem interbyteDiscards_rxLog (t : Timeouts) (n : ℕ) (s : RxState N)
    (inputs : List RxInput) :
    interbyteDiscards (rxLog t n s inputs) = Framing.cuts n (signals t s inputs) := by
  induction inputs generalizing n s with
  | nil => rfl
  | cons i inputs ih =>
      rw [rxLog, interbyteDiscards_append, ih, signals]
      cases i with
      | byte r =>
          have hbyte := interbyteDiscards_map (n + 1) (receiveByte_not_pollEnd s r).1
          rw [rxStep, RxInput.width, hbyte]
          rfl
      | pollEnd e =>
          rw [rxStep_pollEnd_eq, RxInput.width, Nat.add_zero, signal]
          cases interbyteExpired t s e.interbyteMillis <;>
            cases serialExpired t s e.serialMillis <;> rfl

theorem signals_of_no_discard (t : Timeouts) (s : RxState N) (inputs : List RxInput)
    (h : interbyteDiscards (rxLog t 0 s inputs) = []) :
    signals t s inputs = (bytesRead inputs).map .symbol := by
  rw [interbyteDiscards_rxLog] at h
  rw [Framing.eq_map_symbol_of_cuts h, symbols_signals]

/-- Without an inter-byte discard, a run reads its bytes one after the other,
however they are split into polls. -/
theorem rxRun_of_no_discard (t : Timeouts) (hN : 256 ≤ N) {s : RxState N} (hs : s.Sound)
    (inputs : List RxInput) (h : interbyteDiscards (rxLog t 0 s inputs) = []) :
    (rxRun t s inputs).framer =
        (Framing.readAll ipodFormat s.framer (bytesRead inputs)).1 ∧
      offers (rxLog t 0 s inputs) =
        (Framing.readAll ipodFormat s.framer (bytesRead inputs)).2.map .ofBytes := by
  rw [Framing.readAll, ← signals_of_no_discard t s inputs h, rxRun_framer t hN hs,
    offers, stampedOffers_rxLog t hN hs, ← Framing.stamped_map_snd ipodFormat 0,
    List.map_map, List.map_map]
  exact ⟨rfl, rfl⟩

end Snooper

end IpodEsp32
