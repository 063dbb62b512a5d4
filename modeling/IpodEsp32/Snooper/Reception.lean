import IpodEsp32.Framing.Resync
import IpodEsp32.Framing.Soundness
import IpodEsp32.Snooper.RxFramer
import Mathlib.Tactic.IntervalCases

/-!
# What the receive task delivers

With the stock buffer size, `_rxTask` is a framer of the iPod serial format, so the
general results about framing become statements about the bytes read from the port
and the commands offered to `_cmdQueue`: frames are read back whatever noise lies
between them (`rxTask_roundTrip`), nothing is offered that was not received
(`rxTask_sound`), and a false frame costs a bounded number of real ones
(`rxTask_resync`).
-/

namespace IpodEsp32

namespace Snooper

/-! ### Packets and their frames -/

/-- A payload that a frame can carry. -/
structure Packet where
  bytes : List UInt8
  one_le_length : 1 ≤ bytes.length
  length_le : bytes.length ≤ 255
  deriving DecidableEq

/-- The frame of a packet on the wire. -/
def Packet.frame (p : Packet) : List UInt8 :=
  0xFF :: 0x55 :: UInt8.ofNat p.bytes.length :: (p.bytes ++ [closingByte p.bytes])

def Packet.command (p : Packet) : AapCommand := .ofBytes p.bytes

def frames (ps : List Packet) : List UInt8 := (ps.map Packet.frame).flatten

/-- No pair `FF 55` occurs in `bs`, the pair formed by the byte `prev` read just
before and the first of them included. -/
def NoSync (prev : UInt8) (bs : List UInt8) : Prop :=
  List.IsChain (fun a b => ¬ (a = 0xFF ∧ b = 0x55)) (prev :: bs)

instance (prev : UInt8) (bs : List UInt8) : Decidable (NoSync prev bs) :=
  inferInstanceAs (Decidable (List.IsChain _ _))

/-- The pair `FF 55` occurs among the frames of `ps` at frame starts only. -/
def SyncOnlyAtStarts (ps : List Packet) : Prop :=
  ∀ i, (frames ps)[i]? = some 0xFF → (frames ps)[i + 1]? = some 0x55 →
    ∃ before p after, ps = before ++ p :: after ∧ i = (frames before).length

theorem Packet.size_length (p : Packet) :
    ipodFormat.size (UInt8.ofNat p.bytes.length) = p.bytes.length := by
  have h := p.length_le
  simp only [ipodFormat, UInt8.toNat_ofNat']
  omega

def Packet.toFrame (p : Packet) : Framing.Frame ipodFormat where
  length := UInt8.ofNat p.bytes.length
  payload := p.bytes
  trailer := closingByte p.bytes
  size_length := p.size_length
  payload_ne_nil h := by
    have := p.one_le_length
    simp [h] at this
  closed := decide_eq_true (closes_closingByte p.bytes)

@[simp] theorem Packet.word_toFrame (p : Packet) : p.toFrame.word = p.frame := rfl

theorem words_map_toFrame (ps : List Packet) :
    Framing.words (ps.map Packet.toFrame) = frames ps := by
  simp [Framing.words, frames, Function.comp_def]

theorem SyncOnlyAtStarts.toFrame {ps : List Packet} (h : SyncOnlyAtStarts ps) :
    Framing.OnlyAtStarts (ps.map Packet.toFrame) := by
  rw [Framing.OnlyAtStarts, words_map_toFrame]
  intro i hfirst hsecond
  obtain ⟨before, p, after, rfl, hi⟩ := h i hfirst hsecond
  refine ⟨before.map Packet.toFrame, p.toFrame, after.map Packet.toFrame, by simp, ?_⟩
  rw [words_map_toFrame, hi]

/-! ### Round trip -/

/-- Frames with noise before, between and after them, however they are split into
polls: the receive task offers the packets framed, in order and nothing else, and
ends with no frame in progress. -/
theorem rxTask_roundTrip {t : Timeouts} {s : RxState maxPacketSize} {noise : List UInt8}
    {segs : List (Packet × List UInt8)} {inputs : List RxInput}
    (hidle : s.rxIncomplete = false) (hnoise : NoSync s.prevByte noise)
    (hsegs : ∀ seg ∈ segs, NoSync (closingByte seg.1.bytes) seg.2)
    (hbytes : bytesRead inputs =
      noise ++ (segs.map fun seg => seg.1.frame ++ seg.2).flatten)
    (htimeout : interbyteDiscards (rxLog t 0 s inputs) = []) :
    offers (rxLog t 0 s inputs) = segs.map (fun seg => seg.1.command) ∧
      (rxRun t s inputs).rxIncomplete = false := by
  obtain ⟨hrun, hoff⟩ := rxRun_of_no_discard t (by decide) (RxState.sound_of_idle hidle)
    inputs htimeout
  have hstream : bytesRead inputs =
      Framing.stream noise (segs.map fun seg => (seg.1.toFrame, seg.2)) := by
    simp [hbytes, Framing.stream, Function.comp_def]
  have hclean : ∀ seg ∈ segs.map fun seg => (seg.1.toFrame, seg.2),
      Framing.Clean ipodFormat seg.1.trailer seg.2 := by
    intro seg hseg
    obtain ⟨seg', hseg', rfl⟩ := List.mem_map.1 hseg
    exact hsegs seg' hseg'
  have hbefore : Framing.Clean ipodFormat s.framer.prev noise := hnoise
  obtain ⟨hphase, hread⟩ := Framing.readAll_stream (f := s.framer)
    (RxState.phase_idle hidle) hbefore hclean
  rw [← hstream] at hphase hread
  constructor
  · rw [hoff, hread, List.map_map, List.map_map]
    rfl
  · rw [← RxState.phase_eq_hunting_iff, ← hphase, ← hrun]
    rfl

/-- The inputs of one poll at reading `now`: its bytes, then the timeout checks. -/
def pollAt (now : UInt32) (bs : List UInt8) : List RxInput :=
  bs.map (fun b => .byte ⟨now, b, now⟩) ++ [.pollEnd ⟨now, now, now⟩]

/-- A packet whose frame contains a sync pair and ends with an `FF`. -/
def syncInside : Packet := ⟨[0xFF, 0x55, 0xAA], by decide, by decide⟩

def shortest : Packet := ⟨[0x00], by decide, by decide⟩

/-- Two frames from variables left over by an earlier one, with noise ending in `FF`
before each; the first one is split over two polls. -/
theorem rxTask_roundTrip_polls :
    let s : RxState maxPacketSize :=
      { RxState.start maxPacketSize 0 0 with prevByte := 0x41, expLength := 7, cursor := 3 }
    let inputs := pollAt 10 [0x55, 0xFF, 0xFF, 0x55, 0x03] ++
      pollAt 300 [0xFF, 0x55, 0xAA, 0xFF, 0xFF] ++ pollAt 9000 [0xFF, 0x55, 0x01, 0x00, 0xFF]
    offers (rxLog {} 0 s inputs) = [syncInside.command, shortest.command] ∧
      (rxRun {} s inputs).rxIncomplete = false :=
  @rxTask_roundTrip _ _ [0x55, 0xFF] [(syncInside, [0xFF]), (shortest, [])] _ rfl
    (by decide) (by decide) (by decide) (by decide +kernel)

/-! ### Soundness -/

/-- The bytes read at `i`, `i + 1`, ... are a whole frame, cut by no inter-byte
discard between its `55` and its checksum byte, and `o` is its payload with its
length, offered just after the checksum byte. -/
def Justified (bs : List UInt8) (discards : List ℕ) (i : ℕ) (o : ℕ × AapCommand) : Prop :=
  ∃ before l p c after,
    bs = before ++ 0xFF :: 0x55 :: l :: (p ++ c :: after) ∧ before.length = i ∧
      1 ≤ l.toNat ∧ l.toNat ≤ 255 ∧ l.toNat = p.length ∧ Closes p c ∧
      o = (i + p.length + 4, ⟨p, l.toNat⟩) ∧
      ∀ d ∈ discards, ¬ (i + 2 ≤ d ∧ d < i + p.length + 4)

theorem justified_of_justifiedAt {bs : List UInt8} {discards : List ℕ} {i : ℕ}
    {o : ℕ × List UInt8} (h : Framing.JustifiedAt ipodFormat bs discards i o) :
    Justified bs discards i (o.1, .ofBytes o.2) := by
  obtain ⟨before, l, c, after, hbs, hi, hn, hl, hne, hc, hd⟩ := h
  have hlen : l.toNat = o.2.length := hl
  have hpos : 0 < o.2.length := List.length_pos_iff.2 hne
  have hlt := l.toNat_lt
  rw [hn] at hd
  refine ⟨before, l, o.2, c, after, hbs, hi, by omega, by omega, hlen,
    of_decide_eq_true hc, ?_, hd⟩
  rw [hn, hlen]
  rfl

theorem Justified.justifiedAt {bs : List UInt8} {discards : List ℕ} {i : ℕ}
    {o : ℕ × AapCommand} (h : Justified bs discards i o) :
    Framing.JustifiedAt ipodFormat bs discards i (o.1, o.2.payload) := by
  obtain ⟨before, l, p, c, after, hbs, hi, hpos, -, hl, hc, rfl, hd⟩ := h
  refine ⟨before, l, c, after, hbs, hi, rfl, hl, ?_, decide_eq_true hc, hd⟩
  exact List.length_pos_iff.1 (hpos.trans_eq hl)

/-- Every packet offered is justified by the bytes read, the packets are offered in
the order of their checksum bytes, and no position justifies two of them. -/
theorem rxTask_sound (t : Timeouts) (lastByteRX lastActivity : UInt32)
    (inputs : List RxInput) :
    let log := rxLog t 0 (RxState.start maxPacketSize lastByteRX lastActivity) inputs
    (∀ o ∈ stampedOffers log,
        ∃ i, Justified (bytesRead inputs) (interbyteDiscards log) i o) ∧
      (stampedOffers log).Pairwise fun o o' => o.1 < o'.1 ∧
        ∀ i, ¬ (Justified (bytesRead inputs) (interbyteDiscards log) i o ∧
          Justified (bytesRead inputs) (interbyteDiscards log) i o') := by
  intro log
  have hstart := RxState.sound_start (N := maxPacketSize) lastByteRX lastActivity
  obtain ⟨hjust, hpair⟩ := Framing.stamped_sound (F := ipodFormat) (a := 0x00) (by decide)
    (signals t (RxState.start maxPacketSize lastByteRX lastActivity) inputs)
  have hlog := stampedOffers_rxLog t (by decide) hstart 0 inputs
  have hcuts := interbyteDiscards_rxLog t 0
    (RxState.start maxPacketSize lastByteRX lastActivity) inputs
  rw [symbols_signals, ← hcuts] at hjust
  constructor
  · intro o ho
    rw [hlog] at ho
    obtain ⟨o', ho', rfl⟩ := List.mem_map.1 ho
    obtain ⟨i, hi⟩ := hjust o' ho'
    exact ⟨i, justified_of_justifiedAt hi⟩
  · rw [hlog, List.pairwise_map]
    refine hpair.imp fun {o o'} hlt => ⟨hlt, ?_⟩
    rintro i ⟨hi, hi'⟩
    have hstamp := congrArg Prod.fst (hi.justifiedAt.unique hi'.justifiedAt)
    exact hlt.ne hstamp

/-! ### Resynchronisation -/

theorem debt_le {s : RxState maxPacketSize} (hs : s.Sound) :
    Framing.debt ipodFormat 0xFF s.phase ≤ 257 := by
  cases hbusy : s.rxIncomplete with
  | false => simp [RxState.phase_idle hbusy, Framing.debt]
  | true =>
      by_cases hl : s.expLength = 0 ∧ s.cursor = 0
      · rw [RxState.phase_length hbusy hl]
        decide
      · rw [RxState.phase_body hbusy hl, Framing.debt]
        rcases hs hbusy with h | h
        · exact absurd h hl
        · omega

theorem phase_sound {s : RxState maxPacketSize} (hs : s.Sound) : s.phase.Sound := by
  cases hbusy : s.rxIncomplete with
  | false => simp [RxState.phase_idle hbusy, Framing.Phase.Sound]
  | true =>
      by_cases hl : s.expLength = 0 ∧ s.cursor = 0
      · simp [RxState.phase_length hbusy hl, Framing.Phase.Sound]
      · rw [RxState.phase_body hbusy hl, Framing.Phase.Sound, List.length_take]
        rcases hs hbusy with h | h
        · exact absurd h hl
        · omega

/-- From any reachable state, in the middle of a frame or not, frames whose sync
pairs are at their starts only are all offered, but for those that start among the
first 256 bytes, and at most one stray packet is offered before them. -/
theorem rxTask_resync {t : Timeouts} {s : RxState maxPacketSize} {ps : List Packet}
    {inputs : List RxInput} (hs : s.Reachable t) (honly : SyncOnlyAtStarts ps)
    (hbytes : bytesRead inputs = frames ps)
    (htimeout : interbyteDiscards (rxLog t 0 s inputs) = []) :
    ∃ junk lost later, ps = lost ++ later ∧ junk.length ≤ 1 ∧
      offers (rxLog t 0 s inputs) = junk ++ later.map Packet.command ∧
      (∀ before p after, ps = before ++ p :: after → 256 ≤ (frames before).length →
        lost.length ≤ before.length) ∧
      (s.rxIncomplete = false → junk = [] ∧ lost = []) := by
  obtain ⟨-, hoff⟩ := rxRun_of_no_discard t (by decide) hs.sound inputs htimeout
  obtain ⟨junk, lost, later, hsplit, hjunk, hread, hbound, hidle⟩ :=
    Framing.readAll_resync honly.toFrame (f := s.framer) (phase_sound hs.sound) (by decide)
  obtain ⟨lost, later, rfl, rfl, rfl⟩ := List.map_eq_append_iff.1 hsplit
  refine ⟨junk.map .ofBytes, lost, later, rfl, by simpa using hjunk, ?_, ?_, ?_⟩
  · rw [hoff, hbytes, ← words_map_toFrame, hread, List.map_append, List.map_map,
      List.map_map]
    rfl
  · intro before p after hps hle
    have hdebt : Framing.debt ipodFormat 0xFF s.phase ≤
        (Framing.words (before.map Packet.toFrame)).length + 1 := by
      rw [words_map_toFrame]
      exact (debt_le hs.sound).trans (Nat.succ_le_succ hle)
    have h := hbound (before.map Packet.toFrame) p.toFrame (after.map Packet.toFrame)
      (by rw [hps]; simp) hdebt
    simpa using h
  · intro h
    obtain ⟨hj, hlost⟩ := hidle (RxState.phase_idle h)
    exact ⟨by rw [hj]; rfl, List.map_eq_nil_iff.1 hlost⟩

theorem syncOnlyAtStarts_shortest : SyncOnlyAtStarts [shortest, shortest] := by
  intro i hfirst hsecond
  obtain ⟨hlt, -⟩ := List.getElem?_eq_some_iff.1 hsecond
  have hlen : (frames [shortest, shortest]).length = 10 := rfl
  have hle : i < 9 := by omega
  have hi : i = 0 ∨ i = 5 := by
    clear hlt
    revert hfirst hsecond
    interval_cases i <;> decide
  rcases hi with rfl | rfl
  · exact ⟨[], shortest, [shortest], rfl, rfl⟩
  · exact ⟨[shortest], shortest, [], rfl, rfl⟩

/-- A false frame that ends with the first of two short frames. -/
theorem rxTask_resync_false_frame :
    let t : Timeouts := {}
    let s : RxState maxPacketSize :=
      rxRun t (RxState.start maxPacketSize 0 0) (pollAt 10 [0xFF, 0x55, 0x05, 0x00])
    let inputs := pollAt 20 (frames [shortest, shortest])
    ∃ junk lost later, [shortest, shortest] = lost ++ later ∧ junk.length ≤ 1 ∧
      offers (rxLog t 0 s inputs) = junk ++ later.map Packet.command ∧
      (∀ before p after, [shortest, shortest] = before ++ p :: after →
        256 ≤ (frames before).length → lost.length ≤ before.length) ∧
      (s.rxIncomplete = false → junk = [] ∧ lost = []) :=
  rxTask_resync ⟨0, 0, _, rfl⟩ syncOnlyAtStarts_shortest rfl (by decide +kernel)

end Snooper

end IpodEsp32
