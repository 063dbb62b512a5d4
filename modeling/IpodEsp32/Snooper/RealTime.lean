import IpodEsp32.Snooper.Reception
import IpodEsp32.Snooper.Timestamps
import IpodEsp32.Transition.Run

/-!
# Timeouts in real time

Real time is a count of milliseconds without bound, of which `millis()` returns the
value modulo `2 ^ 32`. A `TimedInput` is an input of `_rxTask` with the real times at
which the clock is read for it; `readings` are those of them that the task takes. If
consecutive readings are at most `D` apart, the two timeout checks decide about real
time, however often the clock has wrapped (`rxTask_realTime`): neither timestamp is
ever compared when it is as old as the wrap. `lastByteRX` may be arbitrarily old while
no frame is in progress, but then it is not compared.

The same bound limits the pauses inside a frame that is offered: each poll between two
of its bytes has seen the first of them in time.
-/

namespace IpodEsp32

namespace Snooper

/-- The value of `millis()` at a real time. -/
def millis (time : ℕ) : UInt32 := UInt32.ofNat time

/-- A byte read, with the real times of the readings for `lastActivity` and for
`lastByteRX`. -/
structure TimedByte where
  activity : ℕ
  incByte : UInt8
  stamp : ℕ

/-- The end of a poll, with the real times of its readings. -/
structure TimedPoll where
  interbyte : ℕ
  serial : ℕ
  reset : ℕ

inductive TimedInput
  | byte (b : TimedByte)
  | pollEnd (e : TimedPoll)

def TimedByte.read (b : TimedByte) : ByteRead :=
  ⟨millis b.activity, b.incByte, millis b.stamp⟩

def TimedPoll.read (e : TimedPoll) : PollEnd :=
  ⟨millis e.interbyte, millis e.serial, millis e.reset⟩

def TimedInput.read : TimedInput → RxInput
  | .byte b => .byte b.read
  | .pollEnd e => .pollEnd e.read

def timedBytes : List TimedInput → List TimedByte
  | [] => []
  | .byte b :: inputs => b :: timedBytes inputs
  | .pollEnd _ :: inputs => timedBytes inputs

variable {N : ℕ}

def timedStep (t : Timeouts) (s : RxState N) (i : TimedInput) : RxState N × List RxEvent :=
  rxStep t s i.read

/-- The readings stored in `lastActivity`: for a byte, and for a reset. -/
def activityReadings (t : Timeouts) (s : RxState N) : TimedInput → List ℕ
  | .byte b => [b.activity]
  | .pollEnd e =>
      if RxEvent.resetState ∈ (timedStep t s (.pollEnd e)).2 then [e.reset] else []

/-- The clock readings that an input takes, in order. -/
def readings (t : Timeouts) (s : RxState N) : TimedInput → List ℕ
  | .byte b => b.activity :: (if s.Stamps b.incByte then [b.stamp] else [])
  | .pollEnd e =>
      (if s.rxIncomplete then [e.interbyte] else []) ++
        e.serial :: activityReadings t s (.pollEnd e)

/-- Each reading is no earlier than the one before, and at most `D` later. -/
def Paced (D : ℕ) (times : List ℕ) : Prop :=
  times.IsChain fun x y => x ≤ y ∧ y ≤ x + D

instance (D : ℕ) (times : List ℕ) : Decidable (Paced D times) :=
  inferInstanceAs (Decidable (List.IsChain _ _))

def latest (first : ℕ) (times : List ℕ) : ℕ := times.getLast?.getD first

/-- Both readings taken for `y` follow those for `x` by at most `gap`. -/
def FollowsWithin (gap : ℕ) (x y : TimedByte) : Prop :=
  y.activity ≤ x.activity + gap ∧ y.stamp ≤ x.stamp + gap

/-- The two checks at the end of a poll decide about real time: `bytes` are the bytes
read so far and `activity` the last reading stored in `lastActivity`. -/
def ChecksRight (t : Timeouts) (s : RxState N) (bytes : List TimedByte) (activity : ℕ)
    (e : TimedPoll) : Prop :=
  (RxEvent.discarded .incomplete ∈ (timedStep t s (.pollEnd e)).2 ↔
      s.rxIncomplete = true ∧
        ∃ b, bytes.getLast? = some b ∧ b.stamp + t.interbyteTimeout.toNat < e.interbyte) ∧
    (RxEvent.resetState ∈ (timedStep t s (.pollEnd e)).2 ↔
      activity + t.serialTimeout.toNat < e.serial)

/-- The last bytes read are a frame of the packet from its `55` to its checksum byte,
and no two consecutive ones of them are more than `gap` apart. -/
def GapsWithin (gap : ℕ) (bytes : List TimedByte) (cmd : AapCommand) : Prop :=
  ∃ earlier frame l c, bytes = earlier ++ frame ∧
    frame.map TimedByte.incByte = 0x55 :: l :: (cmd.payload ++ [c]) ∧
    l.toNat = cmd.length ∧ cmd.payload.length = cmd.length ∧ frame.IsChain (FollowsWithin gap)

/-! ### Readings -/

@[simp] theorem latest_nil (first : ℕ) : latest first [] = first := rfl

@[simp] theorem latest_singleton (first x : ℕ) : latest first [x] = x := rfl

@[simp] theorem latest_cons (first x : ℕ) (times : List ℕ) :
    latest first (x :: times) = latest x times := by
  rw [latest, latest, List.getLast?_cons, Option.getD_some]

theorem latest_append (first : ℕ) (times more : List ℕ) :
    latest first (times ++ more) = latest (latest first times) more := by
  rw [latest, latest, latest, List.getLast?_append]
  cases more.getLast? <;> rfl

theorem Paced.of_append {D first : ℕ} {times more : List ℕ}
    (h : Paced D (first :: (times ++ more))) : Paced D (latest first times :: more) := by
  induction times generalizing first with
  | nil => exact h
  | cons x times ih =>
      rw [latest_cons]
      exact ih (List.isChain_cons_cons.1 h).2

theorem paced_cons_cons {D x y : ℕ} {times : List ℕ} :
    Paced D (x :: y :: times) ↔ (x ≤ y ∧ y ≤ x + D) ∧ Paced D (y :: times) :=
  List.isChain_cons_cons

/-- Readings less than the wrap apart are compared as the times they were taken at. -/
theorem millis_sub_gt_iff {x y : ℕ} {timeout : UInt32} (hle : x ≤ y)
    (hlt : y < x + 2 ^ 32) : millis y - millis x > timeout ↔ x + timeout.toNat < y := by
  have hsub : (millis y - millis x).toNat = y - x := by
    rw [UInt32.toNat_sub, millis, millis, UInt32.toNat_ofNat', UInt32.toNat_ofNat']
    omega
  rw [gt_iff_lt, UInt32.lt_iff_toNat_lt, hsub]
  omega

/-! ### The age of the timestamps -/

variable {t : Timeouts} {D : ℕ}

/-- What the timestamps say about real time, with the last clock reading at `now`:
`lastActivity` is a reading no older than the serial timeout allows, and while a frame
is in progress `lastByteRX` is the reading for its last byte, no older than the
inter-byte timeout allows. -/
structure Dated (t : Timeouts) (D : ℕ) (s : RxState N) (bytes : List TimedByte)
    (activity now : ℕ) : Prop where
  lastActivity_eq : s.lastActivity = millis activity
  activity_le : activity ≤ now
  now_le : now ≤ activity + t.serialTimeout.toNat + D
  frame : s.rxIncomplete = true → ∃ b, bytes.getLast? = some b ∧
    s.lastByteRX = millis b.stamp ∧ b.stamp ≤ b.activity + D ∧ b.stamp ≤ now ∧
      now ≤ b.stamp + t.interbyteTimeout.toNat + 2 * D

theorem dated_start (lastByteRX : UInt32) (time : ℕ) :
    Dated t D (RxState.start N lastByteRX (millis time)) [] time time where
  lastActivity_eq := rfl
  activity_le := le_rfl
  now_le := by omega
  frame h := by cases h

theorem Paced.pollEnd {s : RxState N} {e : TimedPoll} {now : ℕ}
    (h : Paced D (now :: readings t s (.pollEnd e))) :
    (s.rxIncomplete = true → now ≤ e.interbyte ∧ e.interbyte ≤ now + D ∧
        e.interbyte ≤ e.serial ∧ e.serial ≤ e.interbyte + D) ∧
      now ≤ e.serial ∧ e.serial ≤ now + 2 * D ∧
        Paced D (e.serial :: activityReadings t s (.pollEnd e)) := by
  cases hbusy : s.rxIncomplete with
  | false =>
      rw [readings, hbusy] at h
      obtain ⟨⟨h₁, h₂⟩, hrest⟩ := paced_cons_cons.1 h
      exact ⟨fun h' => (Bool.false_ne_true h').elim, h₁, by omega, hrest⟩
  | true =>
      rw [readings, hbusy] at h
      obtain ⟨⟨h₁, h₂⟩, h⟩ := paced_cons_cons.1 h
      obtain ⟨⟨h₃, h₄⟩, hrest⟩ := paced_cons_cons.1 h
      exact ⟨fun _ => ⟨h₁, h₂, h₃, h₄⟩, by omega, by omega, hrest⟩

section

variable {s : RxState N} {bytes : List TimedByte} {activity now : ℕ}

theorem Dated.interbyteExpired_iff (h : Dated t D s bytes activity now)
    (hD : 4 * D + t.interbyteTimeout.toNat < 2 ^ 32) {e : TimedPoll}
    (hpaced : Paced D (now :: readings t s (.pollEnd e))) :
    interbyteExpired t s (millis e.interbyte) = true ↔
      s.rxIncomplete = true ∧
        ∃ b, bytes.getLast? = some b ∧
          b.stamp + t.interbyteTimeout.toNat < e.interbyte := by
  rw [interbyteExpired, Bool.and_eq_true, decide_eq_true_iff]
  refine and_congr_right fun hbusy => ?_
  obtain ⟨b, hlast, hstamp, -, hle, hage⟩ := h.frame hbusy
  obtain ⟨h₁, h₂, -⟩ := hpaced.pollEnd.1 hbusy
  rw [hstamp, millis_sub_gt_iff (by omega) (by omega), hlast]
  simp

theorem Dated.serialExpired_iff (h : Dated t D s bytes activity now)
    (hD : 4 * D + t.serialTimeout.toNat < 2 ^ 32) {e : TimedPoll}
    (hpaced : Paced D (now :: readings t s (.pollEnd e))) :
    serialExpired t s (millis e.serial) = true ↔
      activity + t.serialTimeout.toNat < e.serial := by
  have hle := h.activity_le
  have hage := h.now_le
  obtain ⟨-, h₁, h₂, -⟩ := hpaced.pollEnd
  rw [serialExpired, decide_eq_true_iff, h.lastActivity_eq,
    millis_sub_gt_iff (by omega) (by omega)]

theorem Dated.checksRight (h : Dated t D s bytes activity now)
    (hserial : 4 * D + t.serialTimeout.toNat < 2 ^ 32)
    (hinterbyte : 4 * D + t.interbyteTimeout.toNat < 2 ^ 32) {e : TimedPoll}
    (hpaced : Paced D (now :: readings t s (.pollEnd e))) :
    ChecksRight t s bytes activity e :=
  ⟨(discarded_mem_iff t s e.read).trans (h.interbyteExpired_iff hinterbyte hpaced),
    (resetState_mem_iff t s e.read).trans (h.serialExpired_iff hserial hpaced)⟩

theorem Dated.pollEnd (h : Dated t D s bytes activity now)
    (hserial : 4 * D + t.serialTimeout.toNat < 2 ^ 32)
    (hinterbyte : 4 * D + t.interbyteTimeout.toNat < 2 ^ 32) {e : TimedPoll}
    (hpaced : Paced D (now :: readings t s (.pollEnd e))) :
    Dated t D (timedStep t s (.pollEnd e)).1 bytes
      (latest activity (activityReadings t s (.pollEnd e)))
      (latest now (readings t s (.pollEnd e))) := by
  have hnow : latest now (readings t s (.pollEnd e)) =
      latest e.serial (activityReadings t s (.pollEnd e)) := by
    rw [readings, latest_append, latest_cons]
  have hstate := congrArg Prod.fst (rxStep_pollEnd_eq t s e.read)
  obtain ⟨hcheck, hle, -, hreset⟩ := hpaced.pollEnd
  have hactivity := h.activity_le
  -- a frame that stays in progress has passed the inter-byte check
  have hframe : (timedStep t s (.pollEnd e)).1.rxIncomplete = true → ∃ b,
      bytes.getLast? = some b ∧ (timedStep t s (.pollEnd e)).1.lastByteRX = millis b.stamp ∧
        b.stamp ≤ b.activity + D ∧ b.stamp ≤ e.serial ∧
          e.serial ≤ b.stamp + t.interbyteTimeout.toNat + D := by
    intro hbusy
    rw [timedStep, TimedInput.read, hstate] at hbusy ⊢
    obtain ⟨hbusy, hquiet⟩ := Bool.and_eq_true_iff.1 hbusy
    obtain ⟨b, hlast, hstamp, hlag, hb, hage⟩ := h.frame hbusy
    obtain ⟨h₁, h₂, h₃, h₄⟩ := hcheck hbusy
    have hyoung : ¬ b.stamp + t.interbyteTimeout.toNat < e.interbyte := by
      intro hold
      have hexpired := (h.interbyteExpired_iff hinterbyte hpaced).2 ⟨hbusy, b, hlast, hold⟩
      rw [TimedPoll.read, hexpired] at hquiet
      cases hquiet
    exact ⟨b, hlast, hstamp, hlag, by omega, by omega⟩
  rw [hnow]
  by_cases hexpired : serialExpired t s (millis e.serial) = true
  · have hmem : RxEvent.resetState ∈ (timedStep t s (.pollEnd e)).2 :=
      (resetState_mem_iff t s e.read).2 hexpired
    rw [activityReadings, if_pos hmem] at hreset ⊢
    obtain ⟨⟨h₁, h₂⟩, -⟩ := paced_cons_cons.1 hreset
    refine ⟨?_, le_rfl, by simp; omega, fun hbusy => ?_⟩
    · rw [timedStep, TimedInput.read, hstate]
      exact if_pos hexpired
    · obtain ⟨b, hlast, hstamp, hlag, h₃, h₄⟩ := hframe hbusy
      exact ⟨b, hlast, hstamp, hlag, h₃.trans h₁, by rw [latest_singleton]; omega⟩
  · have hmem : RxEvent.resetState ∉ (timedStep t s (.pollEnd e)).2 :=
      fun hmem => hexpired ((resetState_mem_iff t s e.read).1 hmem)
    have hyoung := mt (h.serialExpired_iff hserial hpaced).2 hexpired
    rw [activityReadings, if_neg hmem, latest_nil, latest_nil]
    refine ⟨?_, hactivity.trans hle, by omega, fun hbusy => ?_⟩
    · rw [timedStep, TimedInput.read, hstate, ← h.lastActivity_eq]
      exact if_neg hexpired
    · obtain ⟨b, hlast, hstamp, hlag, h₃, h₄⟩ := hframe hbusy
      exact ⟨b, hlast, hstamp, hlag, h₃, by omega⟩

theorem Paced.byte {b : TimedByte} (h : Paced D (now :: readings t s (.byte b))) :
    now ≤ b.activity ∧ b.activity ≤ now + D ∧
      (s.Stamps b.incByte → b.activity ≤ b.stamp ∧ b.stamp ≤ b.activity + D) := by
  obtain ⟨⟨h₁, h₂⟩, hrest⟩ := paced_cons_cons.1 h
  refine ⟨h₁, h₂, fun hstamps => ?_⟩
  rw [if_pos hstamps] at hrest
  exact (paced_cons_cons.1 hrest).1

theorem dated_byte {b : TimedByte} (hpaced : Paced D (now :: readings t s (.byte b))) :
    Dated t D (timedStep t s (.byte b)).1 (bytes ++ [b])
      (latest activity (activityReadings t s (.byte b)))
      (latest now (readings t s (.byte b))) := by
  obtain ⟨h₁, h₂, hstamped⟩ := hpaced.byte
  have hactivity := receiveByte_lastActivity s b.read
  rw [activityReadings, latest_singleton, readings, latest_cons]
  by_cases hstamps : s.Stamps b.incByte
  · obtain ⟨h₃, h₄⟩ := hstamped hstamps
    have hbyte : (receiveByte s b.read).1.lastByteRX = millis b.stamp :=
      (receiveByte_of_stamps hstamps).1
    rw [if_pos hstamps, latest_singleton]
    exact ⟨hactivity, h₃, by omega,
      fun _ => ⟨b, List.getLast?_concat, hbyte, h₄, le_rfl, by omega⟩⟩
  · rw [if_neg hstamps, latest_nil]
    exact ⟨hactivity, le_rfl, by omega, fun hbusy => absurd (stamps_of_busy hbusy) hstamps⟩

/-- A byte of the frame in progress follows the one before it within the inter-byte
timeout and the time that four readings may take. -/
theorem Dated.followsWithin (h : Dated t D s bytes activity now)
    (hbusy : s.rxIncomplete = true) {b : TimedByte}
    (hpaced : Paced D (now :: readings t s (.byte b))) {x : TimedByte}
    (hx : bytes.getLast? = some x) :
    FollowsWithin (t.interbyteTimeout.toNat + 4 * D) x b := by
  obtain ⟨y, hlast, -, hlag, hle, hage⟩ := h.frame hbusy
  obtain ⟨-, h₁, hstamped⟩ := hpaced.byte
  obtain ⟨-, h₂⟩ := hstamped (Or.inl hbusy)
  rw [hx, Option.some_inj] at hlast
  subst hlast
  constructor <;> omega

end

/-! ### The frame in progress -/

/-- While a frame is in progress, the last bytes read are those of the frame from its
`55` on, none more than `gap` after the one before. -/
def FrameRead (gap : ℕ) (s : RxState N) (bytes : List TimedByte) : Prop :=
  s.rxIncomplete = true → ∃ earlier frame, bytes = earlier ++ frame ∧
    frame.IsChain (FollowsWithin gap) ∧
      if s.expLength = 0 ∧ s.cursor = 0 then frame.map TimedByte.incByte = [0x55]
      else ∃ l, l.toNat = s.expLength ∧
        frame.map TimedByte.incByte = 0x55 :: l :: s.buf.toList.take s.cursor

section

variable {gap : ℕ} {s : RxState N} {bytes : List TimedByte}

theorem frameRead_of_idle (h : s.rxIncomplete = false) : FrameRead gap s bytes := by
  intro hbusy
  rw [h] at hbusy
  cases hbusy

theorem FrameRead.extend (h : FrameRead gap s bytes) (hbusy : s.rxIncomplete = true)
    {b : TimedByte} (hgap : ∀ x, bytes.getLast? = some x → FollowsWithin gap x b) :
    ∃ earlier frame, bytes ++ [b] = earlier ++ (frame ++ [b]) ∧
      (frame ++ [b]).IsChain (FollowsWithin gap) ∧
        if s.expLength = 0 ∧ s.cursor = 0 then frame.map TimedByte.incByte = [0x55]
        else ∃ l, l.toNat = s.expLength ∧
          frame.map TimedByte.incByte = 0x55 :: l :: s.buf.toList.take s.cursor := by
  obtain ⟨earlier, frame, rfl, hchain, hframe⟩ := h hbusy
  have hnext : ∀ x ∈ frame.getLast?, FollowsWithin gap x b := by
    intro x hx
    refine hgap x ?_
    rw [List.getLast?_append, hx, Option.some_or]
  refine ⟨earlier, frame, List.append_assoc _ _ _, ?_, hframe⟩
  refine hchain.append (List.isChain_singleton b) fun x hx y hy => ?_
  rw [List.head?_singleton, Option.mem_some_iff] at hy
  rw [← hy]
  exact hnext x hx

theorem FrameRead.byte (hs : s.Sound) (h : FrameRead gap s bytes) {b : TimedByte}
    (hgap : s.rxIncomplete = true →
      ∀ x, bytes.getLast? = some x → FollowsWithin gap x b) :
    FrameRead gap (receiveByte s b.read).1 (bytes ++ [b]) := by
  cases receiveByte_effect hs b.read with
  | ignored idle _ eq =>
      rw [eq]
      exact frameRead_of_idle idle
  | opened _ sync eq =>
      rw [eq]
      exact fun _ => ⟨bytes, [b], rfl, List.isChain_singleton b,
        (if_pos ⟨rfl, rfl⟩).mpr (congrArg (fun c => [c]) sync.2)⟩
  | refused _ _ _ eq =>
      rw [eq]
      exact frameRead_of_idle rfl
  | announced busy awaits pos _ eq =>
      obtain ⟨earlier, frame, hbytes, hchain, hframe⟩ := h.extend busy (hgap busy)
      have hnone : s.buf.toList.take s.cursor = [] := by rw [awaits.2, List.take_zero]
      rw [if_pos awaits] at hframe
      rw [eq]
      refine fun _ => ⟨earlier, frame ++ [b], hbytes, hchain, ?_⟩
      rw [if_neg fun h' => pos.ne' h'.1, List.map_append, hframe]
      exact ⟨b.incByte, rfl, congrArg (fun bs => 0x55 :: b.incByte :: bs) hnone.symm⟩
  | stored busy more _ fits eq =>
      obtain ⟨earlier, frame, hbytes, hchain, hframe⟩ := h.extend busy (hgap busy)
      have hstored := take_setIfInBounds_succ s.buf (more.trans_le fits) b.incByte
      rw [if_neg fun h' => (Nat.zero_lt_of_lt more).ne' h'.1] at hframe
      obtain ⟨l, hlen, hframe⟩ := hframe
      rw [eq]
      refine fun _ => ⟨earlier, frame ++ [b], hbytes, hchain, ?_⟩
      rw [if_neg fun h' => Nat.succ_ne_zero _ h'.2, List.map_append, hframe]
      exact ⟨l, hlen, congrArg (fun bs => 0x55 :: l :: bs) hstored.symm⟩
  | completed _ _ _ _ _ eq =>
      rw [eq]
      exact frameRead_of_idle rfl

theorem FrameRead.offered (hs : s.Sound) (h : FrameRead gap s bytes) {b : TimedByte}
    (hgap : s.rxIncomplete = true →
      ∀ x, bytes.getLast? = some x → FollowsWithin gap x b) {cmd : AapCommand}
    (hcmd : RxEvent.offered cmd ∈ (receiveByte s b.read).2) :
    GapsWithin gap (bytes ++ [b]) cmd := by
  obtain ⟨hbusy, hlast, ⟨hpos, -, hfits⟩, rfl⟩ := completed_of_offered hs hcmd
  obtain ⟨earlier, frame, hbytes, hchain, hframe⟩ := h.extend hbusy (hgap hbusy)
  rw [if_neg fun h' => by omega] at hframe
  obtain ⟨l, hlen, hframe⟩ := hframe
  refine ⟨earlier, frame ++ [b], l, b.incByte, hbytes, ?_, hlen, ?_, hchain⟩
  · rw [List.map_append, hframe]
    rfl
  · change (s.buf.toList.take s.cursor).length = s.expLength
    rw [List.length_take, Vector.length_toList, hlast, Nat.min_eq_left hfits]

end

/-! ### Runs -/

theorem timedBytes_append (inputs more : List TimedInput) :
    timedBytes (inputs ++ more) = timedBytes inputs ++ timedBytes more := by
  induction inputs with
  | nil => rfl
  | cons i inputs ih =>
      cases i with
      | byte b => exact congrArg (fun bs => b :: bs) ih
      | pollEnd e => exact ih

/-- The invariant of a run, after the bytes read, the last reading stored in
`lastActivity` and the last reading of the clock. -/
structure Timed (t : Timeouts) (D : ℕ) (s : RxState N) (bytes : List TimedByte)
    (activity now : ℕ) : Prop where
  sound : s.Sound
  dated : Dated t D s bytes activity now
  frameRead : FrameRead (t.interbyteTimeout.toNat + 4 * D) s bytes

theorem Timed.step {s : RxState N} {bytes : List TimedByte} {activity now : ℕ}
    (h : Timed t D s bytes activity now)
    (hserial : 4 * D + t.serialTimeout.toNat < 2 ^ 32)
    (hinterbyte : 4 * D + t.interbyteTimeout.toNat < 2 ^ 32) {i : TimedInput}
    (hpaced : Paced D (now :: readings t s i)) :
    Timed t D (timedStep t s i).1 (bytes ++ timedBytes [i])
      (latest activity (activityReadings t s i)) (latest now (readings t s i)) := by
  refine ⟨rxStep_sound t h.sound i.read, ?_, ?_⟩
  · cases i with
    | byte b => exact dated_byte hpaced
    | pollEnd e =>
        rw [timedBytes, timedBytes, List.append_nil]
        exact h.dated.pollEnd hserial hinterbyte hpaced
  · cases i with
    | byte b =>
        exact h.frameRead.byte h.sound fun hbusy x hx =>
          h.dated.followsWithin hbusy hpaced hx
    | pollEnd e =>
        rw [timedBytes, timedBytes, List.append_nil, timedStep, TimedInput.read,
          rxStep_pollEnd_eq]
        exact fun hbusy => h.frameRead (Bool.and_eq_true_iff.1 hbusy).1

theorem Timed.gapsWithin {s : RxState N} {bytes : List TimedByte} {activity now : ℕ}
    (h : Timed t D s bytes activity now) {i : TimedInput}
    (hpaced : Paced D (now :: readings t s i)) {cmd : AapCommand}
    (hcmd : RxEvent.offered cmd ∈ (timedStep t s i).2) :
    GapsWithin (t.interbyteTimeout.toNat + 4 * D) (bytes ++ timedBytes [i]) cmd := by
  cases i with
  | byte b =>
      exact h.frameRead.offered h.sound
        (fun hbusy x hx => h.dated.followsWithin hbusy hpaced hx) hcmd
  | pollEnd e =>
      rw [timedStep, TimedInput.read, rxStep_pollEnd_eq] at hcmd
      split_ifs at hcmd <;> simp at hcmd

section

variable {s₀ : RxState N} {start : ℕ} {inputs : List TimedInput}

theorem paced_at
    (hpaced : Paced D (start :: Transition.collect (timedStep t) (readings t) s₀ inputs))
    {pre : List TimedInput} {i : TimedInput} (hpre : pre ++ [i] <+: inputs) :
    Paced D (latest start (Transition.collect (timedStep t) (readings t) s₀ pre) ::
      readings t (Transition.run (timedStep t) s₀ pre).1 i) := by
  have hread : Transition.collect (timedStep t) (readings t) s₀ (pre ++ [i]) <+:
      Transition.collect (timedStep t) (readings t) s₀ inputs :=
    Transition.collect_prefix _ _ hpre
  obtain ⟨rest, hrest⟩ := hread
  rw [← hrest, ← List.cons_append, Transition.collect_concat] at hpaced
  exact Paced.of_append (List.IsChain.left_of_append hpaced)

theorem timed_along (hstart : Timed t D s₀ [] start start)
    (hserial : 4 * D + t.serialTimeout.toNat < 2 ^ 32)
    (hinterbyte : 4 * D + t.interbyteTimeout.toNat < 2 ^ 32)
    (hpaced : Paced D (start :: Transition.collect (timedStep t) (readings t) s₀ inputs)) :
    ∀ pre, pre <+: inputs →
      Timed t D (Transition.run (timedStep t) s₀ pre).1 (timedBytes pre)
        (latest start (Transition.collect (timedStep t) (activityReadings t) s₀ pre))
        (latest start (Transition.collect (timedStep t) (readings t) s₀ pre)) := by
  refine Transition.invariant_along (I := fun pre s => Timed t D s (timedBytes pre)
    (latest start (Transition.collect (timedStep t) (activityReadings t) s₀ pre))
    (latest start (Transition.collect (timedStep t) (readings t) s₀ pre))) hstart ?_
  intro pre i hpre h
  rw [timedBytes_append, Transition.collect_concat, Transition.collect_concat,
    latest_append, latest_append]
  exact h.step hserial hinterbyte (paced_at hpaced hpre)

end

/-- If consecutive clock readings are at most `D` apart, then in a run of any duration
each evaluation of a timeout check decides about real time, and each packet offered was
received from its `55` to its checksum byte without a pause longer than the inter-byte
timeout and four readings. -/
theorem rxTask_realTime (N : ℕ) (t : Timeouts) (D : ℕ) (lastByteRX : UInt32) (start : ℕ)
    (inputs : List TimedInput) (hserial : 4 * D + t.serialTimeout.toNat < 2 ^ 32)
    (hinterbyte : 4 * D + t.interbyteTimeout.toNat < 2 ^ 32)
    (hpaced : Paced D (start :: Transition.collect (timedStep t) (readings t)
      (RxState.start N lastByteRX (millis start)) inputs)) :
    ∀ pre i, pre ++ [i] <+: inputs →
      let s := (Transition.run (timedStep t)
        (RxState.start N lastByteRX (millis start)) pre).1
      (∀ e, i = .pollEnd e → ChecksRight t s (timedBytes pre)
        (latest start (Transition.collect (timedStep t) (activityReadings t)
          (RxState.start N lastByteRX (millis start)) pre)) e) ∧
      ∀ cmd, RxEvent.offered cmd ∈ (timedStep t s i).2 →
        GapsWithin (t.interbyteTimeout.toNat + 4 * D) (timedBytes (pre ++ [i])) cmd := by
  intro pre i hpre s
  have hstart : Timed t D (RxState.start N lastByteRX (millis start)) [] start start :=
    ⟨RxState.sound_start _ _, dated_start lastByteRX start, frameRead_of_idle rfl⟩
  have htimed := timed_along hstart hserial hinterbyte hpaced pre
    ((List.prefix_append pre [i]).trans hpre)
  have hnow := paced_at hpaced hpre
  constructor
  · rintro e rfl
    exact htimed.dated.checksRight hserial hinterbyte hnow
  · intro cmd hcmd
    rw [timedBytes_append]
    exact htimed.gapsWithin hnow hcmd

def acrossWrap : List TimedInput :=
  [.byte ⟨4294967100, 0xFF, 0⟩, .byte ⟨4294967200, 0x55, 4294967210⟩,
    .pollEnd ⟨4294967290, 4294967300, 0⟩, .byte ⟨4294967400, 0x01, 4294967400⟩,
    .byte ⟨4294967410, 0x00, 4294967410⟩, .byte ⟨4294967420, 0xFF, 4294967430⟩]

/-- The frame is offered, and a minute after it the serial check resets. -/
theorem rxTask_realTime_acrossWrap :
    let last : TimedPoll := ⟨0, 4295027430, 4295027440⟩
    let s := (Transition.run (timedStep {})
      (RxState.start maxPacketSize 0 (millis 4294967000)) acrossWrap).1
    GapsWithin (500 + 4 * 60000) (timedBytes acrossWrap) shortest.command ∧
      ChecksRight {} s (timedBytes acrossWrap) 4294967420 last ∧
        RxEvent.resetState ∈ (timedStep {} s (.pollEnd last)).2 := by
  intro last s
  have h := rxTask_realTime maxPacketSize {} 60000 0 4294967000
    (acrossWrap ++ [.pollEnd last]) (by decide) (by decide) (by decide +kernel)
  have hoffered := (h (acrossWrap.take 5) (.byte ⟨4294967420, 0xFF, 4294967430⟩)
    ⟨[.pollEnd last], rfl⟩).2 shortest.command (by decide +kernel)
  have hchecks := (h acrossWrap (.pollEnd last) List.prefix_rfl).1 last rfl
  have hlatest : latest 4294967000 (Transition.collect (timedStep {}) (activityReadings {})
      (RxState.start maxPacketSize 0 (millis 4294967000)) acrossWrap) = 4294967420 := by
    decide +kernel
  rw [hlatest] at hchecks
  exact ⟨hoffered, hchecks, by decide +kernel⟩

end Snooper

end IpodEsp32
