import IpodEsp32.Firmware.Disconnection
import IpodEsp32.Flow.Latest

/-!
# The metadata that the esPod ends up with

While the Bluetooth stack brings nothing new, the callback and `processAVRCTask` work off
what is under way in a bounded number of rounds. Then every copy has been freed, and the
last update made of an attribute is that of the last metadata accepted for it, exactly
when this one was not given up (`latest_update_iff`).
-/

namespace IpodEsp32

namespace Firmware

/-- What `processAVRCTask` tells the esPod. -/
inductive Attribute
  | album
  | artist
  | title
  | playingTime
  deriving DecidableEq

def EsPodCall.attribute : EsPodCall → Attribute
  | .updateAlbumName _ => .album
  | .updateArtistName _ => .artist
  | .updateTrackTitle _ => .title
  | .updateTrackDuration _ => .playingTime

def latestUpdate (a : Attribute) (us : List Update) : Option Update :=
  (us.filter fun u => u.2.attribute = a).getLast?

/-- Whatever has happened before, once the stack brings nothing new a bounded number of
rounds, in which the callback and `processAVRCTask` move at least once each, settles the
metadata: of the updates that belong to the calls of the callback, the last one of an
attribute is the last made exactly when it was not given up, and each copy was freed
once. -/
theorem latest_update_iff (P : Platform) (capacity : ℕ) (ms : List AvrcMove)
    (rounds : List (List AvrcMove))
    (hnews : Transition.StepsMeet (Avrc.step P) (NoNews P)
      (Transition.run (Avrc.step P) (Avrc.start capacity) ms).1 rounds.flatten)
    (hrounds : ∀ round ∈ rounds, ∀ k, ∃ m ∈ round, m.party? = some k)
    (hlen : 3 * capacity + 7 ≤ rounds.length) :
    let start := Avrc.start capacity
    let s := Transition.run (Avrc.step P) start (ms ++ rounds.flatten)
    let due := handledUpdates P
      ((notifications P start (ms ++ rounds.flatten)).filterMap P.admitted)
    (∀ a, latestUpdate a (updates s.2) = latestUpdate a due ↔
        ∀ u, latestUpdate a due = some u → u ∉ lostUpdates P s.2) ∧
      (s.2.filterMap AvrcEvent.freed?).Perm (List.range s.1.allocated) := by
  intro start s due
  have hdone : Transition.total Avrc.work s.1 = 0 := by
    have hexhaust := workedOff.exhaust hnews hrounds ((total_work_le _).trans hlen)
    rwa [← congrArg Prod.fst (Transition.run_append (Avrc.step P) start ms
      rounds.flatten)] at hexhaust
  have hdelivering : Delivering P s.2 s.1 :=
    delivering_run P capacity (ms ++ rounds.flatten)
  have hflowing := hdelivering.flowing
  have hbooks := hdelivering.owned
  rw [flight_of_total_work hdone] at hflowing
  rw [held_of_total_work hdone] at hbooks
  have hsource : (metadataFlow P).source s.2 = due :=
    congrArg (handledUpdates P) (acceptedMetadata_run start (ms ++ rounds.flatten))
  refine ⟨fun a => ?_, hbooks⟩
  rw [← hsource]
  exact hflowing.latest_iff _

/-- Two titles, of which the first is processed while the second is copied; then the
stack is silent for 13 rounds. -/
theorem latest_update_iff_twoTitles :
    let ms := titleMoves ++ [.metadata 0x01 (some ⟨[0x42], by decide⟩), .process,
      .callback true, .callback true]
    let rounds := List.replicate 13 [.process, .callback true]
    let start := Avrc.start 2
    let s := Transition.run (Avrc.step espIdf) start (ms ++ rounds.flatten)
    let due := handledUpdates espIdf
      ((notifications espIdf start (ms ++ rounds.flatten)).filterMap espIdf.admitted)
    (∀ a, latestUpdate a (updates s.2) = latestUpdate a due ↔
        ∀ u, latestUpdate a due = some u → u ∉ lostUpdates espIdf s.2) ∧
      (s.2.filterMap AvrcEvent.freed?).Perm (List.range s.1.allocated) := by
  refine latest_update_iff espIdf 2 _ _ ?_ ?_ (by decide)
  · decide +kernel
  · intro round hround k
    rw [List.eq_of_mem_replicate hround]
    cases k <;> simp [AvrcMove.party?]

end Firmware

end IpodEsp32
