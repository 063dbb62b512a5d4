import Mathlib.Data.List.Basic

/-!
# Command identifiers

The commands of the general Lingo `0x00` and of the extended interface Lingo `0x04`
that the snooper knows, with the codes of `L0x00.h` and `L0x04.h`.
-/

namespace IpodEsp32

namespace Snooper

inductive L0x00
  | identify
  | requestExtendedInterfaceMode
  | enterExtendedInterfaceMode
  | exitExtendedInterfaceMode
  | requestiPodName
  | requestiPodSoftwareVersion
  | requestiPodSerialNum
  | requestiPodModelNum
  | requestLingoProtocolVersion
  | identifyDeviceLingoes
  | retAccessoryInfo
  deriving DecidableEq

def L0x00.code : L0x00 → UInt8
  | .identify => 0x01
  | .requestExtendedInterfaceMode => 0x03
  | .enterExtendedInterfaceMode => 0x05
  | .exitExtendedInterfaceMode => 0x06
  | .requestiPodName => 0x07
  | .requestiPodSoftwareVersion => 0x09
  | .requestiPodSerialNum => 0x0B
  | .requestiPodModelNum => 0x0D
  | .requestLingoProtocolVersion => 0x0F
  | .identifyDeviceLingoes => 0x13
  | .retAccessoryInfo => 0x28

def L0x00.all : List L0x00 :=
  [.identify, .requestExtendedInterfaceMode, .enterExtendedInterfaceMode,
    .exitExtendedInterfaceMode, .requestiPodName, .requestiPodSoftwareVersion,
    .requestiPodSerialNum, .requestiPodModelNum, .requestLingoProtocolVersion,
    .identifyDeviceLingoes, .retAccessoryInfo]

def L0x00.ofByte (cmdID : UInt8) : Option L0x00 :=
  L0x00.all.find? fun c => c.code == cmdID

theorem L0x00.ofByte_code (c : L0x00) : ofByte c.code = some c := by
  cases c <;> rfl

inductive L0x04
  | getIndexedPlayingTrackInfo
  | requestProtocolVersion
  | resetDBSelection
  | selectDBRecord
  | getNumberCategorizedDBRecords
  | retrieveCategorizedDatabaseRecords
  | getPlayStatus
  | getCurrentPlayingTrackIndex
  | getIndexedPlayingTrackTitle
  | getIndexedPlayingTrackArtistName
  | getIndexedPlayingTrackAlbumName
  | setPlayStatusChangeNotification
  | playCurrentSelection
  | playControl
  | getShuffle
  | setShuffle
  | getRepeat
  | setRepeat
  | getNumPlayingTracks
  | setCurrentPlayingTrack
  deriving DecidableEq

def L0x04.code : L0x04 → UInt8
  | .getIndexedPlayingTrackInfo => 0x0C
  | .requestProtocolVersion => 0x12
  | .resetDBSelection => 0x16
  | .selectDBRecord => 0x17
  | .getNumberCategorizedDBRecords => 0x18
  | .retrieveCategorizedDatabaseRecords => 0x1A
  | .getPlayStatus => 0x1C
  | .getCurrentPlayingTrackIndex => 0x1E
  | .getIndexedPlayingTrackTitle => 0x20
  | .getIndexedPlayingTrackArtistName => 0x22
  | .getIndexedPlayingTrackAlbumName => 0x24
  | .setPlayStatusChangeNotification => 0x26
  | .playCurrentSelection => 0x28
  | .playControl => 0x29
  | .getShuffle => 0x2C
  | .setShuffle => 0x2E
  | .getRepeat => 0x2F
  | .setRepeat => 0x31
  | .getNumPlayingTracks => 0x35
  | .setCurrentPlayingTrack => 0x37

def L0x04.all : List L0x04 :=
  [.getIndexedPlayingTrackInfo, .requestProtocolVersion, .resetDBSelection,
    .selectDBRecord, .getNumberCategorizedDBRecords, .retrieveCategorizedDatabaseRecords,
    .getPlayStatus, .getCurrentPlayingTrackIndex, .getIndexedPlayingTrackTitle,
    .getIndexedPlayingTrackArtistName, .getIndexedPlayingTrackAlbumName,
    .setPlayStatusChangeNotification, .playCurrentSelection, .playControl, .getShuffle,
    .setShuffle, .getRepeat, .setRepeat, .getNumPlayingTracks, .setCurrentPlayingTrack]

/-- The command of Lingo `0x04` with a given code, the last byte of its identifier. -/
def L0x04.ofByte (cmdID : UInt8) : Option L0x04 :=
  L0x04.all.find? fun c => c.code == cmdID

theorem L0x04.ofByte_code (c : L0x04) : ofByte c.code = some c := by
  cases c <;> rfl

end Snooper

end IpodEsp32
