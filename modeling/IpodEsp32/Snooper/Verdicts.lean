import IpodEsp32.Snooper.Attempts
import IpodEsp32.Snooper.BufferBounds
import Mathlib.Data.List.Forall2

/-!
# The verdict on a frame attempt

A frame attempt ends with a verdict: its payload is offered to `_cmdQueue`, or it is
dropped with a warning. `Concludes` tells from the bytes of an attempt which verdicts it
may end with. In every run that accesses `buf` within its bounds the attempts ended and the
verdicts reached correspond one to one and in order, for every buffer size
(`rxTask_verdicts`): no attempt is given up without a word, and no warning is about
anything else.
-/

namespace IpodEsp32

namespace Snooper

/-- What becomes of a frame attempt. -/
inductive Verdict
  | accepted (cmd : AapCommand)
  | dropped (why : Discard)

@[simp] def RxEvent.verdict? : RxEvent → Option Verdict
  | .offered cmd => some (.accepted cmd)
  | .discarded why => some (.dropped why)
  | _ => none

/-- The verdicts reached in a run, each with the number of bytes read when it was. -/
def verdicts (log : List (ℕ × RxEvent)) : List (ℕ × Verdict) :=
  log.filterMap fun e => e.2.verdict?.map fun v => (e.1, v)

def Attempt.taken (bytes : List UInt8) (a : Attempt) : List UInt8 :=
  (bytes.take a.next).drop a.first

/-- What may be read behind a sync pair before the frame is whole, with a buffer of `N`
bytes. -/
inductive Begun (N : ℕ) : List UInt8 → Prop
  | sync : Begun N []
  | body {l : UInt8} {got : List UInt8} (pos : 0 < l.toNat) (fits : l.toNat ≤ N)
      (got_le : got.length ≤ l.toNat) : Begun N (l :: got)

/-- The verdicts with which an attempt that took these bytes may end: a whole frame is
accepted or not by its checksum, a length is refused, and a frame that is not whole is
given up. -/
inductive Concludes (N : ℕ) : List UInt8 → Verdict → Prop
  | accepted {l c : UInt8} {p : List UInt8} (pos : 0 < l.toNat) (fits : l.toNat ≤ N)
      (length : p.length = l.toNat) (closes : Closes p c) :
      Concludes N (0xFF :: 0x55 :: l :: (p ++ [c])) (.accepted ⟨p, l.toNat⟩)
  | mismatch {l c : UInt8} {p : List UInt8} (pos : 0 < l.toNat) (fits : l.toNat ≤ N)
      (length : p.length = l.toNat) (open_ : ¬ Closes p c) :
      Concludes N (0xFF :: 0x55 :: l :: (p ++ [c])) (.dropped .checksumMismatch)
  | tooLong {l : UInt8} (long : N < l.toNat) :
      Concludes N [0xFF, 0x55, l] (.dropped .tooLong)
  | zeroLength : Concludes N [0xFF, 0x55, 0x00] (.dropped .zeroLength)
  | incomplete {got : List UInt8} (begun : Begun N got) :
      Concludes N (0xFF :: 0x55 :: got) (.dropped .incomplete)

variable {N : ℕ}

/-! ### Logs -/

theorem verdicts_append (log more : List (ℕ × RxEvent)) :
    verdicts (log ++ more) = verdicts log ++ verdicts more :=
  List.filterMap_append

theorem verdicts_map (n : ℕ) (events : List RxEvent) :
    verdicts (events.map fun e => (n, e)) =
      (events.filterMap RxEvent.verdict?).map fun v => (n, v) := by
  rw [verdicts, List.filterMap_map, List.map_filterMap]
  rfl

theorem length_bytesRead_singleton (i : RxInput) : (bytesRead [i]).length = i.width := by
  cases i <;> rfl

theorem rxLog_concat (t : Timeouts) (n : ℕ) (s : RxState N) (inputs : List RxInput)
    (i : RxInput) :
    rxLog t n s (inputs ++ [i]) =
      rxLog t n s inputs ++
        (rxStep t (rxRun t s inputs) i).2.map
          fun e => (n + (bytesRead inputs).length + i.width, e) := by
  induction inputs generalizing n s with
  | nil => exact List.append_nil _
  | cons j inputs ih =>
      rw [List.cons_append, rxLog, ih, rxLog, List.append_assoc, bytesRead_cons,
        List.length_append, length_bytesRead_singleton, Nat.add_assoc n]
      rfl

/-! ### The bytes of the frame in progress -/

/-- The bytes read behind the sync pair of the frame in progress. -/
def RxState.HasRead (s : RxState N) (got : List UInt8) : Prop :=
  if s.expLength = 0 ∧ s.cursor = 0 then got = []
  else ∃ l, l.toNat = s.expLength ∧ got = l :: s.buf.toList.take s.cursor

theorem RxState.HasRead.begun {s : RxState N} {got : List UInt8} (hs : s.Sound)
    (hbusy : s.rxIncomplete = true) (h : s.HasRead got) : Begun N got := by
  rw [HasRead] at h
  split_ifs at h with hl
  · rw [h]
    exact .sync
  · obtain ⟨l, hlen, rfl⟩ := h
    obtain ⟨hpos, -, hfits, hcur⟩ := (hs hbusy).resolve_left hl
    refine .body (hlen ▸ hpos) (hlen ▸ hfits) ?_
    rw [hlen]
    exact (List.length_take_le _ _).trans hcur

theorem verdict_of_idle {t : Timeouts} {s : RxState N} (hidle : s.rxIncomplete = false)
    (i : RxInput) : (rxStep t s i).2.filterMap RxEvent.verdict? = [] := by
  cases i with
  | byte r =>
      cases receiveByte_effect (RxState.sound_of_idle hidle) r with
      | ignored _ _ eq => rw [rxStep, eq, List.filterMap_nil]
      | opened _ _ eq => rw [rxStep, eq, List.filterMap_nil]
      | refused busy | announced busy | stored busy | completed busy =>
          rw [hidle] at busy
          cases busy
  | pollEnd e =>
      have hquiet : interbyteExpired t s e.interbyteMillis = false := by
        rw [interbyteExpired, hidle, Bool.false_and]
      rw [rxStep_pollEnd_eq, hquiet]
      cases serialExpired t s e.serialMillis <;> rfl

/-- A step inside a frame reads one byte of it, or ends it with a verdict. -/
theorem verdict_of_busy {t : Timeouts} {s : RxState N} (hs : s.Sound)
    (hbusy : s.rxIncomplete = true) {got : List UInt8} (hgot : s.HasRead got)
    (i : RxInput) :
    ((rxStep t s i).1.rxIncomplete = true ∧
        (rxStep t s i).1.HasRead (got ++ bytesRead [i]) ∧
          (rxStep t s i).2.filterMap RxEvent.verdict? = []) ∨
      ((rxStep t s i).1.rxIncomplete = false ∧
        ∃ v, Concludes N (0xFF :: 0x55 :: (got ++ bytesRead [i])) v ∧
          (rxStep t s i).2.filterMap RxEvent.verdict? = [v]) := by
  have hbegun := hgot.begun hs hbusy
  cases i with
  | pollEnd e =>
      have hnone : got ++ bytesRead [.pollEnd e] = got := List.append_nil got
      rw [hnone, rxStep_pollEnd_eq, hbusy]
      cases interbyteExpired t s e.interbyteMillis with
      | false =>
          refine Or.inl ⟨rfl, hgot, ?_⟩
          cases serialExpired t s e.serialMillis <;> rfl
      | true =>
          refine Or.inr ⟨rfl, _, .incomplete hbegun, ?_⟩
          cases serialExpired t s e.serialMillis <;> rfl
  | byte r =>
      rw [rxStep, bytesRead, bytesRead]
      rw [RxState.HasRead] at hgot
      cases receiveByte_effect hs r with
      | ignored idle | opened idle =>
          rw [hbusy] at idle
          cases idle
      | refused _ awaits length eq =>
          rw [if_pos awaits] at hgot
          rw [eq, hgot]
          refine Or.inr ⟨rfl, _, ?_, rfl⟩
          by_cases hlong : N < r.incByte.toNat
          · rw [if_pos hlong]
            exact .tooLong hlong
          · have hzero : r.incByte = 0x00 :=
              UInt8.toNat_inj.1 (length.resolve_left hlong)
            rw [if_neg hlong, hzero]
            exact .zeroLength
      | announced _ awaits pos fits eq =>
          have hnone : s.buf.toList.take s.cursor = [] := by rw [awaits.2, List.take_zero]
          rw [if_pos awaits] at hgot
          rw [eq, hgot]
          refine Or.inl ⟨hbusy, (if_neg fun h => pos.ne' h.1).mpr ⟨r.incByte, rfl, ?_⟩, rfl⟩
          exact congrArg (List.cons r.incByte) hnone.symm
      | stored _ more _ fits eq =>
          rw [if_neg fun h => (Nat.zero_lt_of_lt more).ne' h.1] at hgot
          obtain ⟨l, hlen, rfl⟩ := hgot
          have hstored := take_setIfInBounds_succ s.buf (more.trans_le fits) r.incByte
          rw [eq]
          refine Or.inl ⟨hbusy, (if_neg fun h => Nat.succ_ne_zero _ h.2).mpr
            ⟨l, hlen, ?_⟩, rfl⟩
          exact congrArg (List.cons l) hstored.symm
      | completed _ pos last _ fits eq =>
          rw [if_neg fun h => pos.ne' h.1] at hgot
          obtain ⟨l, hlen, rfl⟩ := hgot
          have hlength : (s.buf.toList.take s.cursor).length = l.toNat := by
            rw [List.length_take, Vector.length_toList, hlen, last, Nat.min_eq_left fits]
          rw [← hlen] at pos fits
          rw [eq]
          refine Or.inr ⟨rfl, ?_⟩
          by_cases hc : Closes (s.buf.toList.take s.cursor) r.incByte
          · refine ⟨_, .accepted pos fits hlength hc, ?_⟩
            rw [if_pos hc, hlen]
            rfl
          · refine ⟨_, .mismatch pos fits hlength hc, ?_⟩
            rw [if_neg hc]
            rfl

/-! ### Runs -/

/-- The attempts ended have reached the verdicts `vs`, and the frame in progress is read
as its bytes say. -/
structure Watch.Judged (vs : List (ℕ × Verdict)) (ended : List Attempt) (w : Watch N) :
    Prop where
  sound : w.Sound ended
  vars : w.rx.Sound
  frame : w.rx.rxIncomplete = true →
    ∃ got, w.bytes.drop w.first = 0xFF :: 0x55 :: got ∧ w.rx.HasRead got
  verdicts : List.Forall₂ (fun a v => v.1 = a.next ∧ Concludes N (a.taken w.bytes) v.2)
    ended vs

theorem Attempt.taken_append {bytes : List UInt8} {a : Attempt}
    (h : a.next ≤ bytes.length) (more : List UInt8) :
    a.taken (bytes ++ more) = a.taken bytes := by
  rw [taken, taken, List.take_append_of_le_length h]

theorem SyncAt.drop_eq {bytes : List UInt8} {i : ℕ} (h : SyncAt bytes i)
    (hlen : bytes.length = i + 2) : bytes.drop i = [0xFF, 0x55] := by
  refine List.ext_getElem? fun k => ?_
  rw [List.getElem?_drop]
  match k with
  | 0 => exact h.1
  | 1 => exact h.2
  | k + 2 => exact List.getElem?_eq_none (by omega)

theorem Watch.judged_start (lastByteRX lastActivity : UInt32) :
    (Watch.start N lastByteRX lastActivity).Judged [] [] where
  sound := sound_start lastByteRX lastActivity
  vars := RxState.sound_start lastByteRX lastActivity
  frame h := by cases h
  verdicts := .nil

theorem Watch.Judged.keep {vs : List (ℕ × Verdict)} {ended : List Attempt} {w : Watch N}
    (h : w.Judged vs ended) (more : List UInt8) :
    List.Forall₂ (fun a v => v.1 = a.next ∧ Concludes N (a.taken (w.bytes ++ more)) v.2)
      ended vs := by
  have hle : ∀ a ∈ ended, a.next ≤ w.bytes.length := fun a ha =>
    (h.sound.next_le a ha).trans h.sound.closedAt_le
  refine ((List.forall₂_and_left _ _).2 ⟨hle, h.verdicts⟩).imp ?_
  rintro a v ⟨hnext, hstamp, hconcludes⟩
  rw [Attempt.taken_append hnext]
  exact ⟨hstamp, hconcludes⟩

theorem Watch.Judged.step {t : Timeouts} {vs : List (ℕ × Verdict)} {ended : List Attempt}
    {w : Watch N} (h : w.Judged vs ended) (i : RxInput) :
    (watchStep t w i).1.Judged
      (vs ++ ((rxStep t w.rx i).2.filterMap RxEvent.verdict?).map
        fun v => ((w.bytes ++ bytesRead [i]).length, v))
      (ended ++ (watchStep t w i).2) := by
  have hsound := h.sound.step (t := t) i
  have hvars := rxStep_sound t h.vars i
  have hkeep := h.keep (bytesRead [i])
  cases hbusy : w.rx.rxIncomplete with
  | false =>
      rw [watchStep_idle hbusy] at hsound ⊢
      rw [verdict_of_idle hbusy, List.map_nil, List.append_nil, List.append_nil]
      rw [List.append_nil] at hsound
      refine ⟨hsound, hvars, fun hopen => ⟨[], ?_⟩, hkeep⟩
      obtain ⟨r, rfl, hsync⟩ := rxStep_opens hbusy hopen
      obtain ⟨-, hfirst, hat⟩ := hsound.progress hopen
      have hlen := hat.drop_eq (by simp only at hfirst ⊢; omega)
      refine ⟨hlen, ?_⟩
      rw [rxStep, receiveByte_sync hbusy r hsync]
      exact (if_pos ⟨rfl, rfl⟩).mpr rfl
  | true =>
      obtain ⟨got, hdrop, hgot⟩ := h.frame hbusy
      have hfirst := (h.sound.progress hbusy).2.1
      have hmore : (w.bytes ++ bytesRead [i]).drop w.first =
          0xFF :: 0x55 :: (got ++ bytesRead [i]) := by
        rw [List.drop_append_of_le_length (by omega), hdrop]
        rfl
      rcases verdict_of_busy h.vars hbusy hgot i with
        ⟨hstays, hread, hnone⟩ | ⟨hends, v, hconcludes, hone⟩
      · rw [watchStep_stays hbusy hstays, List.append_nil] at hsound ⊢
        rw [hnone, List.map_nil, List.append_nil]
        exact ⟨hsound, hvars, fun _ => ⟨_, hmore, hread⟩, hkeep⟩
      · rw [watchStep_ends hbusy hends] at hsound ⊢
        rw [hone, List.map_singleton]
        refine ⟨hsound, hvars, fun hopen => ?_, List.rel_append hkeep (.cons ⟨rfl, ?_⟩ .nil)⟩
        · rw [hends] at hopen
          cases hopen
        · rw [Attempt.taken, List.take_length, hmore]
          exact hconcludes

/-- In every run that reads no checksum byte of a frame as long as `buf`, for every buffer
size, `buf` is accessed within its bounds, and the attempts ended and the verdicts reached
correspond one to one and in order: each attempt ends when its verdict is reached, and its
bytes are such as that verdict is about. -/
theorem rxTask_verdicts (N : ℕ) (t : Timeouts) (lastByteRX lastActivity : UInt32)
    (inputs : List RxInput)
    (hfits : Transition.StepsMeet (rxStep t) ChecksumFits
      (RxState.start N lastByteRX lastActivity) inputs) :
    Transition.Throughout (rxStep t) (fun events _ => InBounds N events)
        (RxState.start N lastByteRX lastActivity) inputs ∧
      List.Forall₂
        (fun a v => v.1 = a.next ∧ Concludes N (a.taken (bytesRead inputs)) v.2)
        (Transition.run (watchStep t) (Watch.start N lastByteRX lastActivity) inputs).2
        (verdicts (rxLog t 0 (RxState.start N lastByteRX lastActivity) inputs)) := by
  refine ⟨(throughout_inBounds_iff t (RxState.sound_start lastByteRX lastActivity)
    inputs).2 hfits, ?_⟩
  have hrun : ∀ pre, pre <+: inputs →
      Watch.Judged
        (verdicts (rxLog t 0 (RxState.start N lastByteRX lastActivity) pre))
        (Transition.run (watchStep t) (Watch.start N lastByteRX lastActivity) pre).2
        (Transition.run (watchStep t) (Watch.start N lastByteRX lastActivity) pre).1 := by
    refine Transition.invariant_along (I := fun pre w => Watch.Judged
      (verdicts (rxLog t 0 (RxState.start N lastByteRX lastActivity) pre))
      (Transition.run (watchStep t) (Watch.start N lastByteRX lastActivity) pre).2 w)
      (Watch.judged_start lastByteRX lastActivity) ?_
    intro pre i _ h
    obtain ⟨hrx, hbytes⟩ :=
      run_watchStep t (Watch.start N lastByteRX lastActivity) pre
    have hstep := h.step (t := t) i
    rw [hrx, hbytes] at hstep
    rw [rxLog_concat, verdicts_append, verdicts_map, Transition.run_concat, Nat.zero_add,
      ← length_bytesRead_singleton, ← List.length_append]
    exact hstep
  have hall := (hrun inputs List.prefix_rfl).verdicts
  rw [(run_watchStep t (Watch.start N lastByteRX lastActivity) inputs).2] at hall
  exact hall

theorem rxTask_verdicts_twoFrames :
    let s : RxState 16 := RxState.start 16 0 0
    let inputs := pollAt 10 [0xFF, 0x55, 0x02, 0x00, 0x07, 0xF7, 0xFF, 0x55, 0x02, 0x00,
      0x07, 0x00]
    Transition.Throughout (rxStep {}) (fun events _ => InBounds 16 events) s inputs ∧
      List.Forall₂
        (fun a v => v.1 = a.next ∧ Concludes 16 (a.taken (bytesRead inputs)) v.2)
        (Transition.run (watchStep {}) (Watch.start 16 0 0) inputs).2
        (verdicts (rxLog {} 0 s inputs)) :=
  rxTask_verdicts 16 {} 0 0 _ (by decide +kernel)

end Snooper

end IpodEsp32
