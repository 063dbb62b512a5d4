import IpodEsp32.Framing.Grammar
import IpodEsp32.Snooper.Reception

/-!
# The grammar of the serial stream

What `_rxTask` offers is told by a grammar of the bytes read and of the inter-byte
discards between them, without the variables of the task: the payloads offered are those
of the only parse of the stream (`offers_iff_parses`).
-/

namespace IpodEsp32

namespace Snooper

variable {N : ℕ}

theorem ofBytes_injective : Function.Injective AapCommand.ofBytes :=
  fun _ _ h => congrArg AapCommand.payload h

theorem offers_eq_feed (t : Timeouts) (hN : 256 ≤ N) {s : RxState N} (hs : s.Sound)
    (inputs : List RxInput) :
    offers (rxLog t 0 s inputs) =
      (Framing.feed ipodFormat s.framer (signals t s inputs)).2.map .ofBytes := by
  rw [offers, stampedOffers_rxLog t hN hs, ← Framing.stamped_map_snd ipodFormat 0,
    List.map_map, List.map_map]
  rfl

/-- From any state without a frame in progress, the packets offered are the payloads with
which the bytes and discards of the run parse, and they parse with no others. -/
theorem offers_iff_parses {t : Timeouts} {s : RxState N} (hN : 256 ≤ N)
    (hidle : s.rxIncomplete = false) (inputs : List RxInput) (ps : List (List UInt8)) :
    offers (rxLog t 0 s inputs) = ps.map .ofBytes ↔
      Framing.Parses ipodFormat s.prevByte (signals t s inputs) ps := by
  have hframer : s.framer = ⟨s.prevByte, .hunting⟩ :=
    congrArg _ (RxState.phase_idle hidle)
  rw [offers_eq_feed t hN (RxState.sound_of_idle hidle), Framing.parses_iff, ← hframer]
  exact ofBytes_injective.list_map.eq_iff

/-- Two frames, and between them a false one that the inter-byte timeout cuts. -/
theorem offers_iff_parses_cut :
    let s : RxState maxPacketSize := RxState.start maxPacketSize 0 0
    let inputs := pollAt 10 (shortest.frame ++ [0x55, 0xFF, 0x55]) ++
      pollAt 600 [] ++ pollAt 700 shortest.frame
    offers (rxLog {} 0 s inputs) = [[0x00], [0x00]].map .ofBytes ↔
      Framing.Parses ipodFormat 0x00 (signals {} s inputs) [[0x00], [0x00]] :=
  offers_iff_parses (by decide) rfl _ _

end Snooper

end IpodEsp32
