import IpodEsp32.Rtos.Queue
import Mathlib.Data.Int.Notation

/-!
# The metadata path of the firmware

`avrc_metadata_callback`, `processAVRCTask` and `connectionStateChanged` of `main.cpp`.
The Bluetooth stack calls the callback for one event after the other, and tells of a
change of the connection independently; a separate task takes the metadata from
`avrcMetadataQueue` and calls the methods of the esPod. Each of the three moves up to
and including its next call, and they interleave in any order.

A copy made by `strdup` is given the next address, and carries the number of the event
it was made for. The attribute identifiers of the Bluetooth stack are labels of one
`switch`, hence distinct; `atoi` is a parameter.
-/

namespace IpodEsp32

namespace Firmware

/-- A C string, without its terminator. -/
def CString : Type := { bytes : List UInt8 // 0x00 ∉ bytes }

instance : DecidableEq CString :=
  inferInstanceAs (DecidableEq { bytes : List UInt8 // 0x00 ∉ bytes })

/-- `ESP_AVRC_MD_ATTR_ALBUM`, `..._ARTIST`, `..._TITLE` and `..._PLAYING_TIME`. -/
structure AttrIds where
  album : UInt8
  artist : UInt8
  title : UInt8
  playingTime : UInt8
  nodup : [album, artist, title, playingTime].Nodup

/-- What the firmware takes from the platform. -/
structure Platform where
  ids : AttrIds
  atoi : CString → ℤ

/-- The calls of the esPod that carry metadata. -/
inductive EsPodCall
  | updateAlbumName (text : CString)
  | updateArtistName (text : CString)
  | updateTrackTitle (text : CString)
  | updateTrackDuration (duration : ℤ)
  deriving DecidableEq

/-- The `switch` of `processAVRCTask`. -/
def Platform.updateCall (P : Platform) (id : UInt8) (text : CString) : Option EsPodCall :=
  if id = P.ids.album then some (.updateAlbumName text)
  else if id = P.ids.artist then some (.updateArtistName text)
  else if id = P.ids.title then some (.updateTrackTitle text)
  else if id = P.ids.playingTime then some (.updateTrackDuration (P.atoi text))
  else none

/-- Why metadata is turned away. -/
inductive Refusal
  | emptyPointer
  | emptyString
  | allocationFailed
  | queueFull
  deriving DecidableEq

/-- The guard checks of `avrc_metadata_callback`. -/
def Platform.guardChecks (P : Platform) (id : UInt8) (text : Option CString) :
    Except Refusal CString :=
  match text with
  | none => .error .emptyPointer
  | some t => if id ≠ P.ids.playingTime ∧ t.1 = [] then .error .emptyString else .ok t

/-- A copy on the heap: its address, the number of the accepted event it was made for,
and the metadata. -/
structure Copy where
  address : ℕ
  origin : ℕ
  id : UInt8
  text : CString
  deriving DecidableEq

/-- Where the callback is: not running, about to call `strdup`, to send the copy, or to
free a copy that could not be sent. -/
inductive CallbackPc
  | idle
  | copying (origin : ℕ) (id : UInt8) (text : CString)
  | sending (c : Copy)
  | freeing (c : Copy)

/-- Where `processAVRCTask` is. -/
inductive ConsumerPc
  | receiving
  | processing (c : Copy)
  | freeing (c : Copy)

/-- Where `connectionStateChanged` is. When it is about to reset the esPod, `received`
is the number of events accepted before it was called. -/
inductive ConnectionPc
  | idle
  | enabling
  | playing
  | resetting (received : ℕ)
  | disabling

inductive ConnectionState
  | disconnected
  | connecting
  | connected
  | disconnecting

/-- The three activities and the queue between the first two. `received` counts the
events accepted and `allocated` the copies made. -/
structure Avrc (capacity : ℕ) where
  callback : CallbackPc
  consumer : ConsumerPc
  connection : ConnectionPc
  queue : Rtos.Queue capacity Copy
  received : ℕ
  allocated : ℕ

def Avrc.start (capacity : ℕ) : Avrc capacity where
  callback := .idle
  consumer := .receiving
  connection := .idle
  queue := .empty
  received := 0
  allocated := 0

/-- What happens next: the callback is called, or goes on with `strdup` succeeding or
not; `processAVRCTask` goes on; the connection changes, or the handler goes on. -/
inductive AvrcMove
  | metadata (id : UInt8) (text : Option CString)
  | callback (strdup : Bool)
  | process
  | connectionStateChanged (state : ConnectionState)
  | connection

/-- What is seen of a move. A refusal for want of room tells how many copies were in
the queue. -/
inductive AvrcEvent
  | accepted (id : UInt8) (text : CString)
  | turnedAway (why : Refusal) (id : UInt8)
  | notCopied (origin : ℕ) (id : UInt8) (text : CString)
  | notQueued (c : Copy) (queued : ℕ)
  | freed (address : ℕ)
  | called (origin : ℕ) (call : EsPodCall)
  | disconnected
  | reset
  | disabled (value : Bool)
  | play
  deriving DecidableEq

section

variable {capacity : ℕ} (P : Platform) (s : Avrc capacity)

/-- `avrc_metadata_callback` is called. -/
def metadataMove (id : UInt8) (text : Option CString) : Avrc capacity × List AvrcEvent :=
  match s.callback with
  | .idle =>
      match P.guardChecks id text with
      | .error why => (s, [.turnedAway why id])
      | .ok t =>
          ({ s with callback := .copying s.received id t, received := s.received + 1 },
            [.accepted id t])
  | _ => (s, [])

/-- `avrc_metadata_callback` goes on behind its guard checks. -/
def callbackMove (strdup : Bool) : Avrc capacity × List AvrcEvent :=
  match s.callback with
  | .idle => (s, [])
  | .copying origin id text =>
      if strdup then
        ({ s with
          callback := .sending ⟨s.allocated, origin, id, text⟩
          allocated := s.allocated + 1 }, [])
      else
        ({ s with callback := .idle },
          [.notCopied origin id text, .turnedAway .allocationFailed id])
  | .sending c =>
      match s.queue.send c with
      | some q => ({ s with queue := q, callback := .idle }, [])
      | none =>
          ({ s with callback := .freeing c },
            [.notQueued c s.queue.items.length, .turnedAway .queueFull c.id])
  | .freeing c => ({ s with callback := .idle }, [.freed c.address])

/-- `processAVRCTask`, whose receive blocks. -/
def consumerMove : Avrc capacity × List AvrcEvent :=
  match s.consumer with
  | .receiving =>
      match s.queue.receive with
      | some (c, q) => ({ s with queue := q, consumer := .processing c }, [])
      | none => (s, [])
  | .processing c =>
      ({ s with consumer := .freeing c },
        ((P.updateCall c.id c.text).map fun call => .called c.origin call).toList)
  | .freeing c => ({ s with consumer := .receiving }, [.freed c.address])

/-- `connectionStateChanged` is called. -/
def connectionChange (state : ConnectionState) : Avrc capacity × List AvrcEvent :=
  match s.connection with
  | .idle =>
      match state with
      | .connected => ({ s with connection := .enabling }, [])
      | .disconnected => ({ s with connection := .resetting s.received }, [.disconnected])
      | _ => (s, [])
  | _ => (s, [])

/-- `connectionStateChanged` goes on. -/
def connectionMove : Avrc capacity × List AvrcEvent :=
  match s.connection with
  | .idle => (s, [])
  | .enabling => ({ s with connection := .playing }, [.disabled false])
  | .playing => ({ s with connection := .idle }, [.play])
  | .resetting _ => ({ s with connection := .disabling }, [.reset])
  | .disabling => ({ s with connection := .idle }, [.disabled true])

def Avrc.step (P : Platform) (s : Avrc capacity) :
    AvrcMove → Avrc capacity × List AvrcEvent
  | .metadata id text => metadataMove P s id text
  | .callback strdup => callbackMove s strdup
  | .process => consumerMove P s
  | .connectionStateChanged state => connectionChange s state
  | .connection => connectionMove s

end

/-! ### What a move can do -/

/-- What a move finds and what it changes: an activity that is not where the move
applies, or has nothing to do, stays as it is. -/
inductive Avrc.Moves {capacity : ℕ} (P : Platform) (s : Avrc capacity) :
    AvrcMove → List AvrcEvent → Avrc capacity → Prop
  | stay (m : AvrcMove) : Moves P s m [] s
  | refuse (id : UInt8) (text : Option CString) (why : Refusal) :
      Moves P s (.metadata id text) [.turnedAway why id] s
  | accept (id : UInt8) (text : CString) : s.callback = .idle →
      P.guardChecks id (some text) = .ok text →
      Moves P s (.metadata id (some text)) [.accepted id text]
        { s with callback := .copying s.received id text, received := s.received + 1 }
  | copy (origin : ℕ) (id : UInt8) (text : CString) :
      s.callback = .copying origin id text →
      Moves P s (.callback true) []
        { s with
          callback := .sending ⟨s.allocated, origin, id, text⟩
          allocated := s.allocated + 1 }
  | copyFailed (origin : ℕ) (id : UInt8) (text : CString) :
      s.callback = .copying origin id text →
      Moves P s (.callback false)
        [.notCopied origin id text, .turnedAway .allocationFailed id]
        { s with callback := .idle }
  | send (strdup : Bool) (c : Copy) (q : Rtos.Queue capacity Copy) :
      s.callback = .sending c → q.items = s.queue.items ++ [c] →
      Moves P s (.callback strdup) [] { s with queue := q, callback := .idle }
  | sendFailed (strdup : Bool) (c : Copy) :
      s.callback = .sending c → s.queue.items.length = capacity →
      Moves P s (.callback strdup)
        [.notQueued c s.queue.items.length, .turnedAway .queueFull c.id]
        { s with callback := .freeing c }
  | freeUnsent (strdup : Bool) (c : Copy) : s.callback = .freeing c →
      Moves P s (.callback strdup) [.freed c.address] { s with callback := .idle }
  | receive (c : Copy) (q : Rtos.Queue capacity Copy) :
      s.consumer = .receiving → s.queue.items = c :: q.items →
      Moves P s .process [] { s with queue := q, consumer := .processing c }
  | call (c : Copy) : s.consumer = .processing c →
      Moves P s .process
        ((P.updateCall c.id c.text).map fun call => .called c.origin call).toList
        { s with consumer := .freeing c }
  | freeProcessed (c : Copy) : s.consumer = .freeing c →
      Moves P s .process [.freed c.address] { s with consumer := .receiving }
  | connected : s.connection = .idle →
      Moves P s (.connectionStateChanged .connected) [] { s with connection := .enabling }
  | disconnect : s.connection = .idle →
      Moves P s (.connectionStateChanged .disconnected) [.disconnected]
        { s with connection := .resetting s.received }
  | enable : s.connection = .enabling →
      Moves P s .connection [.disabled false] { s with connection := .playing }
  | play : s.connection = .playing →
      Moves P s .connection [.play] { s with connection := .idle }
  | reset (received : ℕ) : s.connection = .resetting received →
      Moves P s .connection [.reset] { s with connection := .disabling }
  | disable : s.connection = .disabling →
      Moves P s .connection [.disabled true] { s with connection := .idle }

section

variable {capacity : ℕ} (P : Platform) (s : Avrc capacity)

theorem guardChecks_ok_iff {id : UInt8} {text : Option CString} {t : CString} :
    P.guardChecks id text = .ok t ↔ text = some t ∧ (id = P.ids.playingTime ∨ t.1 ≠ []) := by
  cases text with
  | none => simp [Platform.guardChecks]
  | some t' =>
      simp only [Platform.guardChecks, Option.some.injEq]
      split
      case isTrue h =>
        constructor
        · intro h'
          cases h'
        · rintro ⟨rfl, hpass⟩
          rcases hpass with hpass | hpass
          · exact absurd hpass h.1
          · exact absurd h.2 hpass
      case isFalse h =>
        have hpass : id = P.ids.playingTime ∨ t'.1 ≠ [] := by
          by_contra hnot
          rw [not_or, not_ne_iff] at hnot
          exact h hnot
        constructor
        · intro h'
          cases h'
          exact ⟨rfl, hpass⟩
        · rintro ⟨rfl, -⟩
          rfl

theorem metadataMove_moves (id : UInt8) (text : Option CString) :
    s.Moves P (.metadata id text) (metadataMove P s id text).2
      (metadataMove P s id text).1 := by
  unfold metadataMove
  split
  case h_1 hpc =>
    cases hguard : P.guardChecks id text with
    | error why => exact .refuse id text why
    | ok t =>
        obtain ⟨rfl, -⟩ := (guardChecks_ok_iff P).1 hguard
        exact .accept id t hpc hguard
  case h_2 => exact .stay _

theorem callbackMove_moves (strdup : Bool) :
    s.Moves P (.callback strdup) (callbackMove s strdup).2 (callbackMove s strdup).1 := by
  unfold callbackMove
  cases hpc : s.callback with
  | idle => exact .stay _
  | copying origin id text =>
      cases strdup with
      | false => exact .copyFailed origin id text hpc
      | true => exact .copy origin id text hpc
  | sending c =>
      cases hq : s.queue.send c with
      | none =>
          simpa [hq] using
            Avrc.Moves.sendFailed (P := P) strdup c hpc (Rtos.Queue.send_eq_none_iff.1 hq)
      | some q =>
          simpa [hq] using
            Avrc.Moves.send (P := P) strdup c q hpc (Rtos.Queue.items_of_send hq)
  | freeing c => exact .freeUnsent strdup c hpc

theorem consumerMove_moves :
    s.Moves P .process (consumerMove P s).2 (consumerMove P s).1 := by
  unfold consumerMove
  cases hpc : s.consumer with
  | receiving =>
      cases hq : s.queue.receive with
      | none => simpa [hq] using Avrc.Moves.stay (P := P) _
      | some next =>
          simpa [hq] using
            Avrc.Moves.receive (P := P) next.1 next.2 hpc (Rtos.Queue.items_of_receive hq)
  | processing c => exact .call c hpc
  | freeing c => exact .freeProcessed c hpc

theorem connectionChange_moves (state : ConnectionState) :
    s.Moves P (.connectionStateChanged state) (connectionChange s state).2
      (connectionChange s state).1 := by
  unfold connectionChange
  split
  case h_1 hpc =>
    cases state with
    | connected => exact .connected hpc
    | disconnected => exact .disconnect hpc
    | connecting => exact .stay _
    | disconnecting => exact .stay _
  case h_2 => exact .stay _

theorem connectionMove_moves :
    s.Moves P .connection (connectionMove s).2 (connectionMove s).1 := by
  unfold connectionMove
  cases hpc : s.connection with
  | idle => exact .stay _
  | enabling => exact .enable hpc
  | playing => exact .play hpc
  | resetting received => exact .reset received hpc
  | disabling => exact .disable hpc

theorem Avrc.step_moves (m : AvrcMove) : s.Moves P m (s.step P m).2 (s.step P m).1 := by
  cases m with
  | metadata id text => exact metadataMove_moves P s id text
  | callback strdup => exact callbackMove_moves P s strdup
  | process => exact consumerMove_moves P s
  | connectionStateChanged state => exact connectionChange_moves P s state
  | connection => exact connectionMove_moves P s

end

end Firmware

end IpodEsp32
