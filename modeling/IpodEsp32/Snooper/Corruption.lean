import IpodEsp32.Framing.Corruption
import IpodEsp32.Snooper.Reception
import Mathlib.Algebra.BigOperators.Group.List.Basic

/-!
# Corrupted frames

A byte of a frame enters the sum of its length, payload and checksum byte once, so
replacing one of them changes this sum by less than 256 and the frame is no longer
closed. With the stock buffer size `_rxTask` therefore drops every frame in which one
byte after the length was replaced, and these frames only.
-/

namespace IpodEsp32

namespace Snooper

theorem sum_map_set {α : Type*} (f : α → ℕ) {xs : List α} {i : ℕ} (h : i < xs.length)
    (x : α) :
    ((xs.set i x).map f).sum =
      ((xs.map f).take i).sum + f x + ((xs.map f).drop (i + 1)).sum := by
  rw [List.map_set, List.sum_set, List.length_map, if_pos h]

theorem closes_iff_sum_append (p : List UInt8) (c : UInt8) :
    Closes p c ↔ (p.length + ((p ++ [c]).map UInt8.toNat).sum) % 256 = 0 := by
  rw [Closes, List.map_append, List.sum_append, List.map_singleton, List.sum_singleton,
    Nat.add_assoc]

/-- One byte of a frame replaced by another is noticed by the checksum. -/
theorem ipodFormat_detectsChange : ipodFormat.DetectsChange := by
  intro w e p c hpc
  have hlen : p.length = w.payload.length := by
    have h := congrArg List.length hpc
    simpa using h.symm
  have hclosed : Closes w.payload w.trailer := of_decide_eq_true w.closed
  have hlt := e.index_lt
  have hsent := sum_map_set UInt8.toNat hlt (w.payload ++ [w.trailer])[e.index]
  have hcame := sum_map_set UInt8.toNat hlt e.symbol
  have hset : (w.payload ++ [w.trailer]).set e.index e.symbol = p ++ [c] := hpc
  have hne : e.symbol.toNat ≠ (w.payload ++ [w.trailer])[e.index].toNat :=
    fun h => e.symbol_ne (UInt8.toNat_inj.1 h)
  have hnew := e.symbol.toNat_lt
  have hold := (w.payload ++ [w.trailer])[e.index].toNat_lt
  rw [List.set_getElem_self] at hsent
  rw [closes_iff_sum_append, hsent] at hclosed
  refine decide_eq_false fun h => ?_
  rw [closes_iff_sum_append, hlen, ← hset, hcame] at h
  omega

/-- The frame of a packet as it arrives at the port: as it was sent, or with one of its
payload and checksum bytes replaced by a different byte. -/
structure Arrival where
  packet : Packet
  change : Option (Framing.Change (packet.bytes ++ [closingByte packet.bytes]))

def Arrival.bytes (a : Arrival) : List UInt8 :=
  0xFF :: 0x55 :: UInt8.ofNat a.packet.bytes.length ::
    a.change.elim (a.packet.bytes ++ [closingByte a.packet.bytes]) Framing.Change.apply

def Arrival.intact (a : Arrival) : Bool := a.change.isNone

def Arrival.toFraming (a : Arrival) : Framing.Arrival ipodFormat :=
  ⟨a.packet.toFrame, a.change⟩

/-- Frames of which any number arrive with one byte replaced, however they are split
into polls: the receive task offers the packets of the others, in order and unchanged,
and ends with no frame in progress. -/
theorem rxTask_drops_corrupted {t : Timeouts} {s : RxState maxPacketSize}
    {arrivals : List Arrival} {inputs : List RxInput} (hidle : s.rxIncomplete = false)
    (hbytes : bytesRead inputs = (arrivals.map Arrival.bytes).flatten)
    (htimeout : interbyteDiscards (rxLog t 0 s inputs) = []) :
    offers (rxLog t 0 s inputs) =
        (arrivals.filter Arrival.intact).map (fun a => a.packet.command) ∧
      (rxRun t s inputs).rxIncomplete = false := by
  obtain ⟨hrun, hoff⟩ := rxRun_of_no_discard t (by decide) (RxState.sound_of_idle hidle)
    inputs htimeout
  have hstream : bytesRead inputs =
      ((arrivals.map Arrival.toFraming).map Framing.Arrival.word).flatten := by
    rw [hbytes, List.map_map]
    rfl
  obtain ⟨hphase, hread⟩ := Framing.readAll_arrivals ipodFormat_detectsChange
    (arrivals.map Arrival.toFraming) (f := s.framer) (RxState.phase_idle hidle)
  rw [← hstream] at hphase hread
  constructor
  · rw [hoff, hread, List.filter_map, List.map_map, List.map_map]
    rfl
  · rw [← RxState.phase_eq_hunting_iff, ← hphase, ← hrun]
    rfl

/-- A frame in which the change makes a sync pair and one whose checksum byte becomes
an `FF`, between two intact ones. -/
theorem rxTask_drops_corrupted_polls :
    let s : RxState maxPacketSize :=
      { RxState.start maxPacketSize 0 0 with prevByte := 0xFF, expLength := 7, cursor := 3 }
    let inputs := pollAt 10 [0xFF, 0x55, 0x01, 0x00, 0xFF, 0xFF] ++
      pollAt 300 [0x55, 0x02, 0xFF, 0x55] ++
      pollAt 700 [0xA9, 0xFF, 0x55, 0x01, 0x01, 0xFF] ++
      pollAt 9000 [0xFF, 0x55, 0x03, 0xFF, 0x55, 0xAA, 0xFF]
    offers (rxLog {} 0 s inputs) = [shortest.command, syncInside.command] ∧
      (rxRun {} s inputs).rxIncomplete = false :=
  @rxTask_drops_corrupted _ _
    [⟨shortest, none⟩,
      ⟨⟨[0x00, 0x55], by decide, by decide⟩, some ⟨0, by decide, 0xFF, by decide⟩⟩,
      ⟨⟨[0x01], by decide, by decide⟩, some ⟨1, by decide, 0xFF, by decide⟩⟩,
      ⟨syncInside, none⟩] _ rfl (by decide) (by decide +kernel)

end Snooper

end IpodEsp32
