import IpodEsp32.Snooper.Reception

/-!
# The receive task as seen by the other tasks

What matters to the rest of the snooper about `_rxTask` is when it accepts a packet,
when it calls `resetState`, and the flag `_rxIncomplete`. A `Receiver` is anything that
does these; `rxTask` is the one of the code.
-/

namespace IpodEsp32

namespace Snooper

/-- What a step of the receive task asks of the queues: nothing, the send of a packet
that passed its checks, or a reset. -/
inductive RxAction
  | none
  | accept (p : Packet)
  | reset

def RxAction.packet? : RxAction → Option Packet
  | .accept p => some p
  | _ => Option.none

/-- A receive task. -/
structure Receiver where
  State : Type
  Input : Type
  step : State → Input → State × RxAction
  rxIncomplete : State → Bool

theorem length_of_offered {N : ℕ} {s : RxState N} (hs : s.Sound) {r : ByteRead}
    {cmd : AapCommand} (h : RxEvent.offered cmd ∈ (receiveByte s r).2) :
    (1 ≤ cmd.payload.length ∧ cmd.payload.length ≤ 255) ∧
      cmd.length = cmd.payload.length := by
  obtain ⟨-, hlast, ⟨hpos, hsize, hfits⟩, rfl⟩ := completed_of_offered hs h
  have hlen : (s.buf.toList.take s.cursor).length = s.expLength := by
    rw [List.length_take, Vector.length_toList]
    omega
  exact ⟨⟨hlen.symm ▸ hpos, hlen.symm ▸ hsize⟩, hlen.symm⟩

theorem mem_offered_iff {events : List RxEvent} {cmd : AapCommand} :
    cmd ∈ offered events ↔ RxEvent.offered cmd ∈ events := by
  rw [offered, List.mem_filterMap]
  constructor
  · rintro ⟨e, he, hoffer⟩
    cases e <;> simp_all
  · intro h
    exact ⟨_, h, rfl⟩

/-- The packet a list of events offers, or the reset it calls. -/
def rxAction {N : ℕ} {s : RxState N} (hs : s.Sound) (t : Timeouts) : RxInput → RxAction
  | .byte r =>
      match h : offered (receiveByte s r).2 with
      | cmd :: _ =>
          have hlen := length_of_offered hs (mem_offered_iff.1 (h ▸ List.mem_cons_self))
          .accept ⟨cmd.payload, hlen.1.1, hlen.1.2⟩
      | [] => .none
  | .pollEnd e =>
      if .resetState ∈ (rxStep t s (.pollEnd e)).2 then .reset else .none

/-- The action is what the events say: the packet offered, if any, and whether
`resetState` is called. -/
theorem rxAction_events {s : RxState maxPacketSize} (hs : s.Sound) (t : Timeouts)
    (i : RxInput) :
    offered (rxStep t s i).2 =
        (rxAction hs t i).packet?.toList.map Packet.command ∧
      (RxEvent.resetState ∈ (rxStep t s i).2 ↔ rxAction hs t i = .reset) := by
  cases i with
  | byte r =>
      have hreset := (receiveByte_not_pollEnd s r).2
      obtain ⟨-, hoff⟩ := receiveByte_framer (by decide) hs r
      rw [rxStep, rxAction]
      split
      · rename_i cmd rest h
        have hcmd := (length_of_offered hs
          (mem_offered_iff.1 (h ▸ List.mem_cons_self : cmd ∈ _))).2
        have hrest : rest = [] := by
          rw [h] at hoff
          cases hread : (Framing.read ipodFormat s.framer r.incByte).2 <;>
            simp_all
        obtain ⟨payload, length⟩ := cmd
        simp only at hcmd
        subst hcmd
        simp [h, hrest, hreset, RxAction.packet?, Packet.command, AapCommand.ofBytes]
      · rename_i h
        simp [h, hreset, RxAction.packet?]
  | pollEnd e =>
      rw [offered_pollEnd, rxAction]
      split <;> simp_all [RxAction.packet?]

def rxTask (t : Timeouts) : Receiver where
  State := { s : RxState maxPacketSize // s.Sound }
  Input := RxInput
  step s i := (⟨(rxStep t s.1 i).1, rxStep_sound t s.2 i⟩, rxAction s.2 t i)
  rxIncomplete s := s.1.rxIncomplete

end Snooper

end IpodEsp32
