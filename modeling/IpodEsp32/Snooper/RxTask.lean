import IpodEsp32.Snooper.Checksum

/-!
# The receive task

`snooper::_rxTask`, one input at a time. An input is either a byte read in the
inner loop, with the readings of `millis()` taken for it, or the end of a poll,
with the readings taken by the two timeout checks that follow the inner loop.
`MAX_PACKET_SIZE` is the parameter `N`; the timeouts are those of `esPod_conf.h`.
Both are overridable at build time.

Each step returns what it did as a list of `RxEvent`: the accesses to `buf`, the
packets offered to `_cmdQueue`, the frames discarded and the calls of `resetState`.
Whether a packet offered is taken by the queue does not influence the task.
`expLength` and `cursor` are natural numbers: neither exceeds 256 while a frame is
in progress.
-/

namespace IpodEsp32

namespace Snooper

/-- The stock value of `MAX_PACKET_SIZE`. -/
def maxPacketSize : ℕ := 1024

/-- `SERIAL_TIMEOUT` and `INTERBYTE_TIMEOUT`, in milliseconds. -/
structure Timeouts where
  serialTimeout : UInt32 := 60000
  interbyteTimeout : UInt32 := 500

/-- The local variables of `_rxTask` and the flag `_rxIncomplete`. -/
structure RxState (N : ℕ) where
  prevByte : UInt8
  buf : Vector UInt8 N
  expLength : ℕ
  cursor : ℕ
  rxIncomplete : Bool
  lastByteRX : UInt32
  lastActivity : UInt32

/-- The state in which `_rxTask` enters its loop. -/
def RxState.start (N : ℕ) (lastByteRX lastActivity : UInt32) : RxState N where
  prevByte := 0x00
  buf := Vector.replicate N 0x00
  expLength := 0
  cursor := 0
  rxIncomplete := false
  lastByteRX := lastByteRX
  lastActivity := lastActivity

/-- A byte read by the inner loop. `activityMillis` is the reading stored in
`lastActivity`, `byteMillis` the one stored in `lastByteRX`, if it is taken. -/
structure ByteRead where
  activityMillis : UInt32
  incByte : UInt8
  byteMillis : UInt32

/-- The readings after the inner loop: for the inter-byte check, for the serial
check, and for the reset of `lastActivity` when the latter fires. -/
structure PollEnd where
  interbyteMillis : UInt32
  serialMillis : UInt32
  resetMillis : UInt32

inductive RxInput
  | byte (r : ByteRead)
  | pollEnd (e : PollEnd)

/-- Why a frame is dropped. -/
inductive Discard
  | tooLong
  | zeroLength
  | checksumMismatch
  | incomplete
  deriving DecidableEq

/-- An `aapCommand`: the bytes its `payload` pointer was filled with, and its
`length`. -/
structure AapCommand where
  payload : List UInt8
  length : ℕ
  deriving DecidableEq

def AapCommand.ofBytes (p : List UInt8) : AapCommand := ⟨p, p.length⟩

/-- What a step of `_rxTask` does beyond its local variables: it writes
`buf[index]`, computes a checksum over the first `len` bytes of `buf`, copies a
payload out of `buf` and offers it to `_cmdQueue`, drops a frame, or calls
`resetState`. -/
inductive RxEvent
  | stored (index : ℕ)
  | summed (len : ℕ)
  | offered (cmd : AapCommand)
  | discarded (why : Discard)
  | resetState
  deriving DecidableEq

variable {N : ℕ}

/-- The length byte, first after `0xFF 0x55`. -/
def receiveLength (s : RxState N) (incByte : UInt8) : RxState N × List RxEvent :=
  let s := { s with expLength := incByte.toNat }
  if s.expLength > N then
    ({ s with rxIncomplete := false }, [.discarded .tooLong])
  else if s.expLength = 0 then
    ({ s with rxIncomplete := false }, [.discarded .zeroLength])
  else (s, [])

/-- A byte after the length: payload or checksum. -/
def receivePayload (s : RxState N) (incByte : UInt8) : RxState N × List RxEvent :=
  let stored := { s with
    buf := s.buf.setIfInBounds s.cursor incByte
    cursor := s.cursor + 1 }
  if stored.cursor = stored.expLength + 1 then
    let done := { stored with rxIncomplete := false }
    let calcChecksum := checksum done.buf.toList done.expLength
    if calcChecksum = incByte then
      (done, [.stored s.cursor, .summed done.expLength,
        .offered ⟨done.buf.toList.take done.expLength, done.expLength⟩])
    else
      (done, [.stored s.cursor, .summed done.expLength, .discarded .checksumMismatch])
  else (stored, [.stored s.cursor])

/-- One turn of the inner loop. -/
def receiveByte (s : RxState N) (r : ByteRead) : RxState N × List RxEvent :=
  let s := { s with lastActivity := r.activityMillis }
  let next :=
    if s.prevByte = 0xFF ∧ r.incByte = 0x55 ∧ s.rxIncomplete = false then
      ({ s with
        lastByteRX := r.byteMillis
        rxIncomplete := true
        expLength := 0
        cursor := 0 }, [])
    else if s.rxIncomplete then
      let s := { s with lastByteRX := r.byteMillis }
      if s.expLength = 0 ∧ s.cursor = 0 then receiveLength s r.incByte
      else receivePayload s r.incByte
    else (s, [])
  ({ next.1 with prevByte := r.incByte }, next.2)

/-- The inter-byte timeout is seen by the check at reading `now`. -/
def interbyteExpired (t : Timeouts) (s : RxState N) (now : UInt32) : Bool :=
  s.rxIncomplete && decide (now - s.lastByteRX > t.interbyteTimeout)

def interbyteCheck (t : Timeouts) (s : RxState N) (now : UInt32) :
    RxState N × List RxEvent :=
  if interbyteExpired t s now then
    ({ s with rxIncomplete := false }, [.discarded .incomplete])
  else (s, [])

/-- The serial check; `reset` is the reading stored in `lastActivity` when it
fires. -/
def serialCheck (t : Timeouts) (s : RxState N) (now reset : UInt32) :
    RxState N × List RxEvent :=
  if now - s.lastActivity > t.serialTimeout then
    ({ s with lastActivity := reset }, [.resetState])
  else (s, [])

def rxStep (t : Timeouts) (s : RxState N) : RxInput → RxState N × List RxEvent
  | .byte r => receiveByte s r
  | .pollEnd e =>
      let a := interbyteCheck t s e.interbyteMillis
      let b := serialCheck t a.1 e.serialMillis e.resetMillis
      (b.1, a.2 ++ b.2)

def RxInput.width : RxInput → ℕ
  | .byte _ => 1
  | .pollEnd _ => 0

def bytesRead : List RxInput → List UInt8
  | [] => []
  | .byte r :: inputs => r.incByte :: bytesRead inputs
  | .pollEnd _ :: inputs => bytesRead inputs

def rxRun (t : Timeouts) : RxState N → List RxInput → RxState N
  | s, [] => s
  | s, i :: inputs => rxRun t (rxStep t s i).1 inputs

/-- The events of a run, each with the number of bytes read when it happened,
counted from `n`. -/
def rxLog (t : Timeouts) : ℕ → RxState N → List RxInput → List (ℕ × RxEvent)
  | _, _, [] => []
  | n, s, i :: inputs =>
      (rxStep t s i).2.map (fun e => (n + i.width, e)) ++
        rxLog t (n + i.width) (rxStep t s i).1 inputs

@[simp] def RxEvent.offer? : RxEvent → Option AapCommand
  | .offered cmd => some cmd
  | _ => none

/-- The packets offered to `_cmdQueue` in a run, each with the number of bytes
read when it was offered. -/
def stampedOffers (log : List (ℕ × RxEvent)) : List (ℕ × AapCommand) :=
  log.filterMap fun e => e.2.offer?.map fun cmd => (e.1, cmd)

def offers (log : List (ℕ × RxEvent)) : List AapCommand :=
  (stampedOffers log).map Prod.snd

/-- For each inter-byte discard of a run, the number of bytes read before it. -/
def interbyteDiscards (log : List (ℕ × RxEvent)) : List ℕ :=
  log.filterMap fun e => if e.2 = .discarded .incomplete then some e.1 else none

def RxState.Reachable (t : Timeouts) (s : RxState N) : Prop :=
  ∃ lastByteRX lastActivity inputs,
    s = rxRun t (RxState.start N lastByteRX lastActivity) inputs

/-! ### What one input does -/

theorem receiveByte_sync {s : RxState N} (hs : s.rxIncomplete = false) (r : ByteRead)
    (h : s.prevByte = 0xFF ∧ r.incByte = 0x55) :
    receiveByte s r =
      ({ s with
        lastActivity := r.activityMillis
        lastByteRX := r.byteMillis
        rxIncomplete := true
        expLength := 0
        cursor := 0
        prevByte := r.incByte }, []) := by
  simp [receiveByte, h, hs]

theorem receiveByte_idle {s : RxState N} (hs : s.rxIncomplete = false) (r : ByteRead)
    (h : ¬ (s.prevByte = 0xFF ∧ r.incByte = 0x55)) :
    receiveByte s r =
      ({ s with lastActivity := r.activityMillis, prevByte := r.incByte }, []) := by
  have hsync : ¬ (s.prevByte = 0xFF ∧ r.incByte = 0x55 ∧ s.rxIncomplete = false) :=
    fun h' => h ⟨h'.1, h'.2.1⟩
  have hbusy : ¬ s.rxIncomplete = true := by simp [hs]
  simp only [receiveByte]
  rw [if_neg hsync, if_neg hbusy]

/-- The variables with which a byte inside a frame is handled. -/
def RxState.stampByte (s : RxState N) (r : ByteRead) : RxState N :=
  { s with lastActivity := r.activityMillis, lastByteRX := r.byteMillis }

theorem receiveByte_busy {s : RxState N} (hs : s.rxIncomplete = true) (r : ByteRead) :
    receiveByte s r =
      if s.expLength = 0 ∧ s.cursor = 0 then
        ({ (receiveLength (s.stampByte r) r.incByte).1 with prevByte := r.incByte },
          (receiveLength (s.stampByte r) r.incByte).2)
      else
        ({ (receivePayload (s.stampByte r) r.incByte).1 with prevByte := r.incByte },
          (receivePayload (s.stampByte r) r.incByte).2) := by
  have hsync : ¬ (s.prevByte = 0xFF ∧ r.incByte = 0x55 ∧ s.rxIncomplete = false) := by
    simp [hs]
  simp only [receiveByte]
  rw [if_neg hsync, if_pos hs]
  by_cases h : s.expLength = 0 ∧ s.cursor = 0
  · rw [if_pos h, if_pos h]
    rfl
  · rw [if_neg h, if_neg h]
    rfl

def serialExpired (t : Timeouts) (s : RxState N) (now : UInt32) : Bool :=
  decide (now - s.lastActivity > t.serialTimeout)

theorem serialCheck_eq (t : Timeouts) (s : RxState N) (now reset : UInt32) :
    serialCheck t s now reset =
      if serialExpired t s now then ({ s with lastActivity := reset }, [.resetState])
      else (s, []) := by
  by_cases h : now - s.lastActivity > t.serialTimeout
  · rw [serialCheck, if_pos h, serialExpired, decide_eq_true h, if_pos rfl]
  · rw [serialCheck, if_neg h, serialExpired, decide_eq_false h]
    rfl

/-- The end of a poll clears the flag if the inter-byte timeout is seen, refreshes
`lastActivity` if the serial timeout is, and tells what it saw. -/
theorem rxStep_pollEnd_eq (t : Timeouts) (s : RxState N) (e : PollEnd) :
    rxStep t s (.pollEnd e) =
      ({ s with
          rxIncomplete := s.rxIncomplete && !interbyteExpired t s e.interbyteMillis
          lastActivity :=
            if serialExpired t s e.serialMillis then e.resetMillis else s.lastActivity },
        (if interbyteExpired t s e.interbyteMillis then [.discarded .incomplete] else []) ++
          (if serialExpired t s e.serialMillis then [.resetState] else [])) := by
  have hkeep : (interbyteCheck t s e.interbyteMillis).1.lastActivity = s.lastActivity := by
    unfold interbyteCheck
    split <;> rfl
  have hserial : serialExpired t (interbyteCheck t s e.interbyteMillis).1 e.serialMillis =
      serialExpired t s e.serialMillis := by
    rw [serialExpired, hkeep, serialExpired]
  simp only [rxStep, serialCheck_eq, hserial]
  unfold interbyteCheck
  cases interbyteExpired t s e.interbyteMillis <;>
    cases serialExpired t s e.serialMillis <;> simp

end Snooper

end IpodEsp32
