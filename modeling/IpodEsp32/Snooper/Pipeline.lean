import IpodEsp32.Rtos.Queue
import IpodEsp32.Snooper.Dispatch
import IpodEsp32.Snooper.Receiver

/-!
# The three tasks of a snooper

`_rxTask`, `_processTask` and `_txTask` as program counters that move one at a time,
in any order. One move runs a task up to and including its next call of a queue, of
the console or of the allocator, or its next look at a variable another task writes;
tasks may switch between any two moves. A task that is not where a move applies stays
as it is.

Each `new byte[]` gives its buffer the next identity. A buffer also carries the number
of the accepted packet it stems from, and what it holds: a packet on the way to
`_processTask`, the bytes to print on the way to `_txTask`.
-/

namespace IpodEsp32

namespace Snooper

/-- A payload on the heap: its identity, the number of the accepted packet it stems
from, and its content. -/
structure Buffer (α : Type) where
  id : ℕ
  origin : ℕ
  content : α
  deriving DecidableEq

/-- Where `_rxTask` is: reading the port, sending a packet, deleting a packet that
could not be sent, or at one of the steps of `resetState`. -/
inductive RxPc
  | reading
  | sending (b : Buffer Packet)
  | dropping (b : Buffer Packet)
  | drainCmd
  | drainCmdFree (b : Buffer Packet)
  | drainTx
  | drainTxFree (b : Buffer (List UInt8))
  | resetCmd
  | resetTx
  deriving DecidableEq

/-- Where `_processTask` is: `queueing` and `dropping` are inside `_queuePacket`. -/
inductive ProcessPc
  | receiving
  | processing (b : Buffer Packet)
  | queueing (b : Buffer Packet) (t : Buffer (List UInt8))
  | dropping (b : Buffer Packet) (t : Buffer (List UInt8))
  | freeing (b : Buffer Packet)

/-- Where `_txTask` is: looking at `_rxIncomplete`, receiving, at one of the three
console calls of `_sendPacket`, or deleting the payload. -/
inductive TxPc
  | testing
  | receiving
  | printing (b : Buffer (List UInt8))
  | writing (b : Buffer (List UInt8))
  | ending (b : Buffer (List UInt8))
  | freeing (b : Buffer (List UInt8))

/-- The queues and tasks of one snooper. `accepted` counts the packets accepted so far
and `allocated` the buffers allocated so far. -/
structure Tasks (R : Receiver) (cmdSize txSize : ℕ) where
  rx : R.State
  rxPc : RxPc
  processPc : ProcessPc
  txPc : TxPc
  cmdQueue : Rtos.Queue cmdSize (Buffer Packet)
  txQueue : Rtos.Queue txSize (Buffer (List UInt8))
  accepted : ℕ
  allocated : ℕ

def Tasks.start {R : Receiver} (cmdSize txSize : ℕ) (rx : R.State) :
    Tasks R cmdSize txSize where
  rx := rx
  rxPc := .reading
  processPc := .receiving
  txPc := .testing
  cmdQueue := .empty
  txQueue := .empty
  accepted := 0
  allocated := 0

def RxPc.resetting : RxPc → Bool
  | .drainCmd | .drainCmdFree _ | .drainTx | .drainTxFree _ | .resetCmd | .resetTx => true
  | .reading | .sending _ | .dropping _ => false

def RxPc.held : RxPc → List ℕ
  | .sending b | .dropping b | .drainCmdFree b => [b.id]
  | .drainTxFree t => [t.id]
  | _ => []

def ProcessPc.held : ProcessPc → List ℕ
  | .processing b | .freeing b => [b.id]
  | .queueing b t | .dropping b t => [t.id, b.id]
  | .receiving => []

def TxPc.held : TxPc → List ℕ
  | .printing t | .writing t | .ending t | .freeing t => [t.id]
  | _ => []

/-- Both queues are empty and no task holds a packet. -/
def Tasks.Idle {R : Receiver} {cmdSize txSize : ℕ} (s : Tasks R cmdSize txSize) : Prop :=
  s.cmdQueue.items = [] ∧ s.txQueue.items = [] ∧ s.rxPc.held = [] ∧
    s.processPc.held = [] ∧ s.txPc.held = []

instance {R : Receiver} {cmdSize txSize : ℕ} (s : Tasks R cmdSize txSize) :
    Decidable s.Idle :=
  inferInstanceAs (Decidable (_ ∧ _))

/-- Who moves: `_rxTask` with the next input of its loop, `_rxTask` inside a send or
`resetState`, `_processTask`, or `_txTask`, with the voltage `_sendPacket` would read. -/
inductive Move (R : Receiver)
  | read (i : R.Input)
  | rx
  | process
  | tx (milliVolts : ℕ)

/-- What is seen of a move: a packet accepted, a buffer deleted, a packet given up
before or after `_processTask`, and the calls of the console. -/
inductive Event
  | accepted (p : Packet)
  | freed (id : ℕ)
  | droppedCmd (b : Buffer Packet)
  | droppedTx (b : Buffer (List UInt8))
  | printed (milliVolts : ℕ)
  | wrote (b : Buffer (List UInt8))
  | ended
  deriving DecidableEq

def Event.isDrop : Event → Bool
  | .droppedCmd _ | .droppedTx _ => true
  | _ => false

section

variable {R : Receiver} {cmdSize txSize : ℕ} (s : Tasks R cmdSize txSize)

/-- `_rxTask` reads the port, or looks at the clock. -/
def readMove (i : R.Input) : Tasks R cmdSize txSize × List Event :=
  match s.rxPc with
  | .reading =>
      let next := R.step s.rx i
      match next.2 with
      | .none => ({ s with rx := next.1 }, [])
      | .accept p =>
          ({ s with
            rx := next.1
            rxPc := .sending ⟨s.allocated, s.accepted, p⟩
            accepted := s.accepted + 1
            allocated := s.allocated + 1 }, [.accepted p])
      | .reset => ({ s with rx := next.1, rxPc := .drainCmd }, [])
  | _ => (s, [])

/-- `_rxTask` in a send, or in `resetState`. -/
def rxMove : Tasks R cmdSize txSize × List Event :=
  match s.rxPc with
  | .reading => (s, [])
  | .sending b =>
      match s.cmdQueue.send b with
      | some q => ({ s with cmdQueue := q, rxPc := .reading }, [])
      | none => ({ s with rxPc := .dropping b }, [.droppedCmd b])
  | .dropping b => ({ s with rxPc := .reading }, [.freed b.id])
  | .drainCmd =>
      match s.cmdQueue.receive with
      | some (b, q) =>
          ({ s with cmdQueue := q, rxPc := .drainCmdFree b }, [.droppedCmd b])
      | none => ({ s with rxPc := .drainTx }, [])
  | .drainCmdFree b => ({ s with rxPc := .drainCmd }, [.freed b.id])
  | .drainTx =>
      match s.txQueue.receive with
      | some (b, q) =>
          ({ s with txQueue := q, rxPc := .drainTxFree b }, [.droppedTx b])
      | none => ({ s with rxPc := .resetCmd }, [])
  | .drainTxFree b => ({ s with rxPc := .drainTx }, [.freed b.id])
  | .resetCmd =>
      ({ s with cmdQueue := .empty, rxPc := .resetTx },
        s.cmdQueue.items.map .droppedCmd)
  | .resetTx =>
      ({ s with txQueue := .empty, rxPc := .reading },
        s.txQueue.items.map .droppedTx)

/-- `_processTask` -/
def processMove : Tasks R cmdSize txSize × List Event :=
  match s.processPc with
  | .receiving =>
      match s.cmdQueue.receive with
      | some (b, q) => ({ s with cmdQueue := q, processPc := .processing b }, [])
      | none => (s, [])
  | .processing b =>
      match b.content.forwarded with
      | some bytes =>
          ({ s with
            processPc := .queueing b ⟨s.allocated, b.origin, bytes⟩
            allocated := s.allocated + 1 }, [])
      | none => ({ s with processPc := .freeing b }, [])
  | .queueing b t =>
      match s.txQueue.send t with
      | some q => ({ s with txQueue := q, processPc := .freeing b }, [])
      | none => ({ s with processPc := .dropping b t }, [.droppedTx t])
  | .dropping b t => ({ s with processPc := .freeing b }, [.freed t.id])
  | .freeing b => ({ s with processPc := .receiving }, [.freed b.id])

/-- `_txTask` -/
def txMove (milliVolts : ℕ) : Tasks R cmdSize txSize × List Event :=
  match s.txPc with
  | .testing => if R.rxIncomplete s.rx then (s, []) else ({ s with txPc := .receiving }, [])
  | .receiving =>
      match s.txQueue.receive with
      | some (b, q) => ({ s with txQueue := q, txPc := .printing b }, [])
      | none => ({ s with txPc := .testing }, [])
  | .printing b => ({ s with txPc := .writing b }, [.printed milliVolts])
  | .writing b => ({ s with txPc := .ending b }, [.wrote b])
  | .ending b => ({ s with txPc := .freeing b }, [.ended])
  | .freeing b => ({ s with txPc := .testing }, [.freed b.id])

def Tasks.step : Move R → Tasks R cmdSize txSize × List Event
  | .read i => readMove s i
  | .rx => rxMove s
  | .process => processMove s
  | .tx milliVolts => txMove s milliVolts

end

/-! ### What a move can do -/

/-- What a move finds and what it changes: a task that is not where the move applies,
or has nothing to do, stays as it is. -/
inductive Tasks.Moves {R : Receiver} {cmdSize txSize : ℕ} (s : Tasks R cmdSize txSize) :
    Move R → List Event → Tasks R cmdSize txSize → Prop
  | stay (m : Move R) : Moves s m [] s
  | read (i : R.Input) : s.rxPc = .reading →
      Moves s (.read i) [] { s with rx := (R.step s.rx i).1 }
  | accept (i : R.Input) (p : Packet) : s.rxPc = .reading →
      Moves s (.read i) [.accepted p]
        { s with
          rx := (R.step s.rx i).1
          rxPc := .sending ⟨s.allocated, s.accepted, p⟩
          accepted := s.accepted + 1
          allocated := s.allocated + 1 }
  | reset (i : R.Input) : s.rxPc = .reading →
      Moves s (.read i) [] { s with rx := (R.step s.rx i).1, rxPc := .drainCmd }
  | send (b : Buffer Packet) (q : Rtos.Queue cmdSize (Buffer Packet)) :
      s.rxPc = .sending b → q.items = s.cmdQueue.items ++ [b] →
      Moves s .rx [] { s with cmdQueue := q, rxPc := .reading }
  | sendFailed (b : Buffer Packet) :
      s.rxPc = .sending b → s.cmdQueue.items.length = cmdSize →
      Moves s .rx [.droppedCmd b] { s with rxPc := .dropping b }
  | dropCmd (b : Buffer Packet) : s.rxPc = .dropping b →
      Moves s .rx [.freed b.id] { s with rxPc := .reading }
  | drainCmd (b : Buffer Packet) (q : Rtos.Queue cmdSize (Buffer Packet)) :
      s.rxPc = .drainCmd → s.cmdQueue.items = b :: q.items →
      Moves s .rx [.droppedCmd b] { s with cmdQueue := q, rxPc := .drainCmdFree b }
  | drainedCmd : s.rxPc = .drainCmd → s.cmdQueue.items = [] →
      Moves s .rx [] { s with rxPc := .drainTx }
  | drainCmdFree (b : Buffer Packet) : s.rxPc = .drainCmdFree b →
      Moves s .rx [.freed b.id] { s with rxPc := .drainCmd }
  | drainTx (t : Buffer (List UInt8)) (q : Rtos.Queue txSize (Buffer (List UInt8))) :
      s.rxPc = .drainTx → s.txQueue.items = t :: q.items →
      Moves s .rx [.droppedTx t] { s with txQueue := q, rxPc := .drainTxFree t }
  | drainedTx : s.rxPc = .drainTx → s.txQueue.items = [] →
      Moves s .rx [] { s with rxPc := .resetCmd }
  | drainTxFree (t : Buffer (List UInt8)) : s.rxPc = .drainTxFree t →
      Moves s .rx [.freed t.id] { s with rxPc := .drainTx }
  | resetCmd : s.rxPc = .resetCmd →
      Moves s .rx (s.cmdQueue.items.map .droppedCmd)
        { s with cmdQueue := .empty, rxPc := .resetTx }
  | resetTx : s.rxPc = .resetTx →
      Moves s .rx (s.txQueue.items.map .droppedTx)
        { s with txQueue := .empty, rxPc := .reading }
  | receive (b : Buffer Packet) (q : Rtos.Queue cmdSize (Buffer Packet)) :
      s.processPc = .receiving → s.cmdQueue.items = b :: q.items →
      Moves s .process [] { s with cmdQueue := q, processPc := .processing b }
  | forward (b : Buffer Packet) (bytes : List UInt8) :
      s.processPc = .processing b → b.content.forwarded = some bytes →
      Moves s .process []
        { s with
          processPc := .queueing b ⟨s.allocated, b.origin, bytes⟩
          allocated := s.allocated + 1 }
  | pass (b : Buffer Packet) :
      s.processPc = .processing b → b.content.forwarded = none →
      Moves s .process [] { s with processPc := .freeing b }
  | queue (b : Buffer Packet) (t : Buffer (List UInt8))
      (q : Rtos.Queue txSize (Buffer (List UInt8))) :
      s.processPc = .queueing b t → q.items = s.txQueue.items ++ [t] →
      Moves s .process [] { s with txQueue := q, processPc := .freeing b }
  | queueFailed (b : Buffer Packet) (t : Buffer (List UInt8)) :
      s.processPc = .queueing b t → s.txQueue.items.length = txSize →
      Moves s .process [.droppedTx t] { s with processPc := .dropping b t }
  | dropTx (b : Buffer Packet) (t : Buffer (List UInt8)) : s.processPc = .dropping b t →
      Moves s .process [.freed t.id] { s with processPc := .freeing b }
  | freeCmd (b : Buffer Packet) : s.processPc = .freeing b →
      Moves s .process [.freed b.id] { s with processPc := .receiving }
  | look (milliVolts : ℕ) : s.txPc = .testing → R.rxIncomplete s.rx = false →
      Moves s (.tx milliVolts) [] { s with txPc := .receiving }
  | take (milliVolts : ℕ) (t : Buffer (List UInt8))
      (q : Rtos.Queue txSize (Buffer (List UInt8))) :
      s.txPc = .receiving → s.txQueue.items = t :: q.items →
      Moves s (.tx milliVolts) [] { s with txQueue := q, txPc := .printing t }
  | miss (milliVolts : ℕ) : s.txPc = .receiving → s.txQueue.items = [] →
      Moves s (.tx milliVolts) [] { s with txPc := .testing }
  | print (milliVolts : ℕ) (t : Buffer (List UInt8)) : s.txPc = .printing t →
      Moves s (.tx milliVolts) [.printed milliVolts] { s with txPc := .writing t }
  | write (milliVolts : ℕ) (t : Buffer (List UInt8)) : s.txPc = .writing t →
      Moves s (.tx milliVolts) [.wrote t] { s with txPc := .ending t }
  | println (milliVolts : ℕ) (t : Buffer (List UInt8)) : s.txPc = .ending t →
      Moves s (.tx milliVolts) [.ended] { s with txPc := .freeing t }
  | freeTx (milliVolts : ℕ) (t : Buffer (List UInt8)) : s.txPc = .freeing t →
      Moves s (.tx milliVolts) [.freed t.id] { s with txPc := .testing }

section

variable {R : Receiver} {cmdSize txSize : ℕ} (s : Tasks R cmdSize txSize)

theorem readMove_moves (i : R.Input) :
    s.Moves (.read i) (readMove s i).2 (readMove s i).1 := by
  unfold readMove
  split
  case h_1 hpc =>
    cases haction : (R.step s.rx i).2 with
    | none => simpa [haction] using Tasks.Moves.read i hpc
    | accept p => simpa [haction] using Tasks.Moves.accept i p hpc
    | reset => simpa [haction] using Tasks.Moves.reset i hpc
  case h_2 => exact .stay _

theorem rxMove_moves : s.Moves .rx (rxMove s).2 (rxMove s).1 := by
  unfold rxMove
  cases hpc : s.rxPc with
  | reading => exact .stay _
  | sending b =>
      cases hq : s.cmdQueue.send b with
      | none => simpa [hq] using Tasks.Moves.sendFailed b hpc (Rtos.Queue.send_eq_none_iff.1 hq)
      | some q => simpa [hq] using Tasks.Moves.send b q hpc (Rtos.Queue.items_of_send hq)
  | dropping b => exact .dropCmd b hpc
  | drainCmd =>
      cases hq : s.cmdQueue.receive with
      | none => simpa [hq] using Tasks.Moves.drainedCmd hpc (Rtos.Queue.receive_eq_none_iff.1 hq)
      | some next =>
          simpa [hq] using
            Tasks.Moves.drainCmd next.1 next.2 hpc (Rtos.Queue.items_of_receive hq)
  | drainCmdFree b => exact .drainCmdFree b hpc
  | drainTx =>
      cases hq : s.txQueue.receive with
      | none => simpa [hq] using Tasks.Moves.drainedTx hpc (Rtos.Queue.receive_eq_none_iff.1 hq)
      | some next =>
          simpa [hq] using
            Tasks.Moves.drainTx next.1 next.2 hpc (Rtos.Queue.items_of_receive hq)
  | drainTxFree b => exact .drainTxFree b hpc
  | resetCmd => exact .resetCmd hpc
  | resetTx => exact .resetTx hpc

theorem processMove_moves : s.Moves .process (processMove s).2 (processMove s).1 := by
  unfold processMove
  cases hpc : s.processPc with
  | receiving =>
      cases hq : s.cmdQueue.receive with
      | none => simpa [hq] using Tasks.Moves.stay _
      | some next =>
          simpa [hq] using
            Tasks.Moves.receive next.1 next.2 hpc (Rtos.Queue.items_of_receive hq)
  | processing b =>
      cases hf : b.content.forwarded with
      | none => simpa [hf] using Tasks.Moves.pass b hpc hf
      | some bytes => simpa [hf] using Tasks.Moves.forward b bytes hpc hf
  | queueing b t =>
      cases hq : s.txQueue.send t with
      | none =>
          simpa [hq] using Tasks.Moves.queueFailed b t hpc (Rtos.Queue.send_eq_none_iff.1 hq)
      | some q => simpa [hq] using Tasks.Moves.queue b t q hpc (Rtos.Queue.items_of_send hq)
  | dropping b t => exact .dropTx b t hpc
  | freeing b => exact .freeCmd b hpc

theorem txMove_moves (milliVolts : ℕ) :
    s.Moves (.tx milliVolts) (txMove s milliVolts).2 (txMove s milliVolts).1 := by
  unfold txMove
  cases hpc : s.txPc with
  | testing =>
      cases hrx : R.rxIncomplete s.rx with
      | false => simpa [hrx] using Tasks.Moves.look milliVolts hpc hrx
      | true => simpa [hrx] using Tasks.Moves.stay _
  | receiving =>
      cases hq : s.txQueue.receive with
      | none =>
          simpa [hq] using Tasks.Moves.miss milliVolts hpc (Rtos.Queue.receive_eq_none_iff.1 hq)
      | some next =>
          simpa [hq] using
            Tasks.Moves.take milliVolts next.1 next.2 hpc (Rtos.Queue.items_of_receive hq)
  | printing t => exact .print milliVolts t hpc
  | writing t => exact .write milliVolts t hpc
  | ending t => exact .println milliVolts t hpc
  | freeing t => exact .freeTx milliVolts t hpc

theorem Tasks.step_moves (m : Move R) : s.Moves m (s.step m).2 (s.step m).1 := by
  cases m with
  | read i => exact readMove_moves s i
  | rx => exact rxMove_moves s
  | process => exact processMove_moves s
  | tx milliVolts => exact txMove_moves s milliVolts

end

end Snooper

end IpodEsp32
