import Mathlib.Data.Finset.Basic

/-! The filter of a Java bot for dropped items (`rust-bot/src/afk_network.rs`). Of a packet only
what the filter reads is kept. The wire format belongs to the protocol library and is a
parameter. -/

namespace AfkClient.ItemFilter

inductive EntityKind
  | item
  | other
  deriving DecidableEq

inductive ClientboundGamePacket
  | addEntity (id : Int32) (entityType : EntityKind)
  | removeEntities (entityIds : List Int32)
  | setEntityData (id : Int32)
  | setEntityMotion (id : Int32)
  | entityPositionSync (id : Int32)
  | teleportEntity (id : Int32)
  | moveEntityPos (entityId : Int32)
  | moveEntityPosRot (entityId : Int32)
  | moveEntityRot (entityId : Int32)
  | entityEvent (entityId : Int32)
  | takeItemEntity (itemId : UInt32)
  | login
  | respawn
  | startConfiguration
  | other
  deriving DecidableEq

/-- The types of packets that are skipped without being decoded. -/
inductive FastItemPacket
  | setEntityData
  | setEntityMotion
  | moveEntityPos
  | moveEntityPosRot
  | moveEntityRot
  | takeItemEntity
  | entityPositionSync
  | teleportEntity
  deriving DecidableEq

/-- The wire format of the protocol. -/
structure Protocol where
  id : FastItemPacket → UInt32
  /-- The id of packets with server data. -/
  serverDataId : UInt32
  /-- A number of variable length and what follows it. -/
  readVar : List UInt8 → Option (UInt32 × List UInt8)
  deserialize : List UInt8 → Option ClientboundGamePacket

def Protocol.fastItemPacketIds (p : Protocol) : List UInt32 :=
  [p.id .setEntityData, p.id .setEntityMotion, p.id .moveEntityPos, p.id .moveEntityPosRot,
    p.id .moveEntityRot, p.id .takeItemEntity, p.id .entityPositionSync, p.id .teleportEntity]

/-- Skips visuals of known items before they are decoded. -/
def skipRaw (p : Protocol) (ignored : Finset Int32) (raw : List UInt8) : Bool :=
  match p.readVar raw with
  | none => false
  | some (packetId, stream) =>
      if packetId ∉ p.fastItemPacketIds then false
      else
        match p.readVar stream with
        | none => false
        | some (entityId, _) => entityId.toInt32 ∈ ignored

/-- `retain` with `remove`: the ids that are left, and those that are still ignored. -/
def retain (ignored : Finset Int32) : List Int32 → Finset Int32 × List Int32
  | [] => (ignored, [])
  | id :: ids =>
      if id ∈ ignored then retain (ignored.erase id) ids
      else ((retain ignored ids).1, id :: (retain ignored ids).2)

/-- What is ignored after a packet, the packet as it goes on, and whether it does. -/
def keep (ignored : Finset Int32) (packet : ClientboundGamePacket) :
    Finset Int32 × ClientboundGamePacket × Bool :=
  match packet with
  | .addEntity id .item => (insert id ignored, packet, false)
  | .addEntity id .other => (ignored.erase id, packet, true)
  | .removeEntities ids =>
      let (ignored, ids) := retain ignored ids
      (ignored, .removeEntities ids, ! ids.isEmpty)
  | .setEntityData id => (ignored, packet, id ∉ ignored)
  | .setEntityMotion id => (ignored, packet, id ∉ ignored)
  | .entityPositionSync id => (ignored, packet, id ∉ ignored)
  | .teleportEntity id => (ignored, packet, id ∉ ignored)
  | .moveEntityPos id => (ignored, packet, id ∉ ignored)
  | .moveEntityPosRot id => (ignored, packet, id ∉ ignored)
  | .moveEntityRot id => (ignored, packet, id ∉ ignored)
  | .entityEvent id => (ignored, packet, id ∉ ignored)
  | .takeItemEntity itemId => (ignored, packet, itemId.toInt32 ∉ ignored)
  | .login | .respawn | .startConfiguration => (∅, packet, true)
  | .other => (ignored, packet, true)

inductive ConnectionProtocol
  | game
  | login
  | configuration

inductive Outcome
  | dropped
  /-- The packet could not be decoded. -/
  | failed
  | processed (packet : ClientboundGamePacket)
  /-- A packet of the login or configuration phase. -/
  | phase
  deriving DecidableEq

def isServerData (p : Protocol) (raw : List UInt8) : Bool :=
  (p.readVar raw).any (·.1 = p.serverDataId)

/-- A packet while the game runs, decoded and filtered. -/
def processGame (p : Protocol) (ignored : Finset Int32) (raw : List UInt8) :
    Finset Int32 × Outcome :=
  match p.deserialize raw with
  | none => (ignored, .failed)
  | some packet =>
      let (ignored, packet, kept) := keep ignored packet
      (ignored, if kept then .processed packet else .dropped)

def processSinglePacket (p : Protocol) (ignored : Finset Int32) (state : ConnectionProtocol)
    (raw : List UInt8) : Finset Int32 × Outcome :=
  if raw = [] then (ignored, .dropped)
  else
    match state with
    | .game =>
        if isServerData p raw || skipRaw p ignored raw then (ignored, .dropped)
        else processGame p ignored raw
    | .login | .configuration => (∅, .phase)

end AfkClient.ItemFilter
