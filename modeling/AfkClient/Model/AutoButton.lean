import AfkClient.Library.Dictionary
import AfkClient.Library.Reader
import Mathlib.Data.Int.Notation
import Mathlib.Data.Rat.Floor

/-! The world sections behind the held mouse button of a Bedrock bot
(`bedrock-bot/autoButton.ts`): the decoder of subchunks and the handlers that store what it
yields. A thrown error is an `Except.error` with its message. Positions of blocks and
sections are whole numbers; a string that names one is that position. -/

namespace AfkClient.AutoButton

/-! ### Subchunks -/

def byte (payload : List UInt8) : Reader String UInt8 := fun offset =>
  match payload[offset]? with
  | none => .error "Truncated subchunk"
  | some b => .ok (b, offset + 1)

/-- The loop of `uint` from a shift on. -/
def uintFrom (payload : List UInt8) (shift : ℕ) (n : UInt32) : Reader String UInt32 :=
  if shift < 35 then do
    let b ← byte payload
    if shift = 28 ∧ 15 < b then throw "Overflowing subchunk varint"
    else
      let n := n ||| ((b &&& 127).toUInt32 <<< UInt32.ofNat shift)
      if b &&& 128 = 0 then pure n else uintFrom payload (shift + 7) n
  else throw "Invalid subchunk varint"
termination_by 35 - shift

def uint (payload : List UInt8) : Reader String UInt32 := uintFrom payload 0 0

def signed (payload : List UInt8) : Reader String Int32 := do
  let n ← uint payload
  return ((n >>> 1) ^^^ (0 - (n &&& 1))).toInt32

/-- A runtime id, as an unsigned number. -/
def runtime (payload : List UInt8) : Reader String UInt32 := do
  return (← signed payload).toUInt32

def readUInt32LE (payload : List UInt8) (position : ℕ) : UInt32 :=
  let b (i : ℕ) : UInt32 := (payload.getD (position + i) 0).toUInt32
  b 0 ||| (b 1 <<< 8) ||| (b 2 <<< 16) ||| (b 3 <<< 24)

/-- Block `i` of a section whose words begin at `start`. -/
def blockAt (payload : List UInt8) (start bits : ℕ) (palette : List UInt32) (i : ℕ) :
    Except String UInt32 :=
  let perWord := 32 / bits
  let mask : UInt32 := (1 <<< UInt32.ofNat bits) - 1
  let word := readUInt32LE payload (start + i / perWord * 4)
  let index := (word >>> UInt32.ofNat (i % perWord * bits)) &&& mask
  match palette[index.toNat]? with
  | none => .error "Invalid palette index"
  | some id => .ok id

/-- One layer of a section: its runtime ids. -/
def readStorage (payload : List UInt8) : Reader String (List UInt32) := do
  let header ← byte payload
  let bits := (header >>> 1).toNat
  if header &&& 1 = 0 ∨ bits ∉ [0, 1, 2, 3, 4, 5, 6, 8, 16] then throw "Unsupported block storage"
  else if bits = 0 then
    let id ← runtime payload
    return List.replicate 4096 id
  else
    let perWord := 32 / bits
    let words := (4096 + perWord - 1) / perWord
    let start ← get
    if payload.length < start + words * 4 then throw "Truncated block storage"
    else
      set (start + words * 4)
      let count ← signed payload
      if count.toInt < 1 ∨ 65536 < count.toInt then throw "Invalid block palette"
      else
        let palette ← (List.range count.toInt.toNat).mapM fun _ => runtime payload
        liftM ((List.range 4096).mapM (blockAt payload start bits palette))

/-- The layers of a section, `left` of them from `layer` on; the first one counts. -/
def readLayers (payload : List UInt8) : ℕ → ℕ → List UInt32 → Reader String (List UInt32)
  | 0, _, blocks => pure blocks
  | left + 1, layer, blocks => do
      let output ← readStorage payload
      readLayers payload left (layer + 1) (if layer = 0 then output else blocks)

structure Subchunk where
  /-- No block at all stands for a section of air. -/
  blocks : List UInt32
  consumed : ℕ
  y : Option ℤ

def readSection (payload : List UInt8) : Reader String (List UInt32 × Option ℤ) := do
  let version ← byte payload
  if version ≠ 8 ∧ version ≠ 9 then throw "Unsupported subchunk"
  else
    let layers ← byte payload
    let y ← if version = 9 then (fun b => some b.toInt8.toInt) <$> byte payload else pure none
    if 2 < layers then throw "Invalid storage count"
    else
      let blocks ← readLayers payload layers.toNat 0 []
      return (blocks, y)

def readSubchunk (payload : List UInt8) : Except String Subchunk :=
  (readSection payload 0).map fun ((blocks, y), consumed) => ⟨blocks, consumed, y⟩

def decodeMouseSubchunk (payload : List UInt8) : Except String (List UInt32) :=
  (readSubchunk payload).map Subchunk.blocks

/-! ### Sections -/

/-- A block or a section. -/
structure Vec where
  x : ℤ
  y : ℤ
  z : ℤ
  deriving DecidableEq

/-- Where the player is. -/
structure Position where
  x : ℚ
  y : ℚ
  z : ℚ

/-- The section of the player. -/
def Position.chunk (p : Position) : Vec := ⟨⌊p.x / 16⌋, ⌊p.y / 16⌋, ⌊p.z / 16⌋⟩

/-- The section of a block. -/
def chunk (p : Vec) : Vec := ⟨p.x / 16, p.y / 16, p.z / 16⟩

inductive Mode
  | off
  | left
  | right
  deriving DecidableEq

/-- What the handlers of chunk packets read and write of the bot. -/
structure BedrockAutoButton where
  mode : Mode := .off
  /-- The block registry was loaded. -/
  registry : Bool := false
  /-- `block_network_ids_are_hashes` of the start-game packet. -/
  startGameData : Option Bool := none
  sections : Vec → Option (List UInt32) := fun _ => none
  airUpdates : Dictionary Vec ℤ := .empty
  /-- When each section was asked for. -/
  pending : Vec → Option ℤ := fun _ => none
  dimension : ℤ := 0
  air : UInt32 := 0

/-- The section is next to that of the player. -/
def nearby (view : Option Position) (p : Vec) : Bool :=
  match view with
  | none => false
  | some view =>
      let center := view.chunk
      |p.x - center.x| ≤ 1 && |p.y - center.y| ≤ 1 && |p.z - center.z| ≤ 1

/-- How the server answers for one section. -/
inductive EntryResult
  | success
  | successAllAir
  | other
  deriving DecidableEq

structure SubchunkEntry where
  dx : ℤ
  dy : ℤ
  dz : ℤ
  result : EntryResult
  payload : Option (List UInt8)

structure SubchunkPacket where
  cacheEnabled : Bool
  dimension : ℤ
  /-- `none` if it is not finite. -/
  origin : Option Vec
  entries : List SubchunkEntry

/-- The blocks that an entry yields; an error is swallowed. -/
def BedrockAutoButton.entryValues (s : BedrockAutoButton) (entry : SubchunkEntry) :
    Except String (Option (List UInt32)) :=
  match entry.result, entry.payload with
  | .successAllAir, _ => .ok (some (List.replicate 4096 s.air))
  | .success, some payload =>
      if payload.length ≤ 256000 then (decodeMouseSubchunk payload).map some else .ok none
  | _, _ => .ok none

def BedrockAutoButton.onEntry (view : Option Position) (origin : Vec) (s : BedrockAutoButton)
    (entry : SubchunkEntry) : BedrockAutoButton :=
  let p : Vec := ⟨origin.x + entry.dx, origin.y + entry.dy, origin.z + entry.dz⟩
  if ¬ nearby view p ∨ s.pending p = none then s
  else
    match s.entryValues entry with
    | .ok (some values) =>
        { s with
          sections := Function.update s.sections p (some values)
          pending := Function.update s.pending p none }
    | _ => s

def BedrockAutoButton.onSubchunk (s : BedrockAutoButton) (view : Option Position)
    (packet : SubchunkPacket) :
    BedrockAutoButton :=
  match packet.origin with
  | none => s
  | some origin =>
      if s.mode = .off ∨ ¬ s.registry ∨ packet.cacheEnabled ∨ packet.dimension ≠ s.dimension then s
      else (packet.entries.take 256).foldl (BedrockAutoButton.onEntry view origin) s

structure LevelChunk where
  cacheEnabled : Bool
  payload : Option (List UInt8)
  x : ℤ
  z : ℤ
  dimension : Option ℤ
  subChunkCount : ℤ

/-- A chunk next to the player, with sections in it. -/
def BedrockAutoButton.takes (s : BedrockAutoButton) (view : Option Position) (packet : LevelChunk) :
    Bool :=
  ! packet.cacheEnabled && packet.dimension.all (· = s.dimension) &&
    0 ≤ packet.subChunkCount && packet.subChunkCount ≤ 24 &&
    view.any fun view => |packet.x - view.chunk.x| ≤ 1 && |packet.z - view.chunk.z| ≤ 1

/-- Where section `i` of a chunk is. -/
def BedrockAutoButton.place (s : BedrockAutoButton) (packet : LevelChunk) (i : ℕ) (y : Option ℤ) :
    Vec :=
  ⟨packet.x, y.getD (i + if s.dimension = 0 then -4 else 0), packet.z⟩

/-- The loop over the sections of a chunk, `left` of them from section `i` on. -/
def BedrockAutoButton.decodeSections (s : BedrockAutoButton) (view : Option Position)
    (packet : LevelChunk)
    (payload : List UInt8) : ℕ → ℕ → ℕ → Except String (List (Vec × List UInt32))
  | 0, _, _ => .ok []
  | left + 1, i, offset =>
      match readSubchunk (payload.drop offset) with
      | .error error => .error error
      | .ok part =>
          let p := s.place packet i part.y
          (s.decodeSections view packet payload left (i + 1) (offset + part.consumed)).map fun
            rest =>
            if nearby view p then (p, part.blocks) :: rest else rest

def BedrockAutoButton.store (s : BedrockAutoButton) (decoded : Vec × List UInt32) :
    BedrockAutoButton :=
  { s with
    sections := Function.update s.sections decoded.1 (some decoded.2)
    pending := Function.update s.pending decoded.1 none
    airUpdates := s.airUpdates.deleteWhere fun update => chunk update.1 = decoded.1 }

/-- Sections that are no longer next to the player go. -/
def BedrockAutoButton.forget (s : BedrockAutoButton) (view : Option Position) : BedrockAutoButton :=
  { s with sections := fun p => if nearby view p then s.sections p else none }

def BedrockAutoButton.onLevelChunk (s : BedrockAutoButton) (view : Option Position)
    (packet : LevelChunk) :
    BedrockAutoButton :=
  match packet.payload with
  | none => s
  | some payload =>
      if s.takes view packet then
        match s.decodeSections view packet payload packet.subChunkCount.toNat 0 0 with
        | .error _ => s
        | .ok decoded => (decoded.foldl BedrockAutoButton.store s).forget view
      else s

/-! ### Updates of blocks -/

structure UpdateBlock where
  /-- `none` if it is not finite. -/
  position : Option Vec
  layer : Option ℤ := none
  /-- `none` if it is not a whole number. -/
  blockRuntimeId : Option ℤ

/-- Where a block lies in its section. -/
def index (p : Vec) : ℕ :=
  ((p.x % 16).toNat <<< 8) ||| ((p.z % 16).toNat <<< 4) ||| (p.y % 16).toNat

def BedrockAutoButton.onUpdateBlock (s : BedrockAutoButton) (packet : UpdateBlock) :
    BedrockAutoButton :=
  match packet.position, packet.blockRuntimeId with
  | some position, some id =>
      if packet.layer.getD 0 ≠ 0 then s
      else
        match s.sections (chunk position) with
        | none => s
        | some blocks =>
            if blocks = [] ∧ ¬ s.registry then
              let airUpdates := s.airUpdates.set position id
              if airUpdates.size > 1024 then
                { s with sections := fun _ => none, airUpdates := .empty }
              else { s with airUpdates }
            else
              let blocks := if blocks = [] then List.replicate 4096 s.air else blocks
              { s with
                sections := Function.update s.sections (chunk position)
                  (some (blocks.set (index position) (UInt32.ofInt id))) }
  | _, _ => s

/-- The runtime id of a block for `target`. -/
def BedrockAutoButton.read (s : BedrockAutoButton) (p : Vec) : Option UInt32 :=
  (s.sections (chunk p)).map fun blocks => if blocks ≠ [] then blocks.getD (index p) 0 else s.air

/-! ### The registry

The library with the blocks of the version is a parameter: the runtime id it gives to air, with
hashed ids or without. -/

section Registry

variable (registryAir : Bool → UInt32)

def BedrockAutoButton.initializeRegistry (s : BedrockAutoButton) : BedrockAutoButton :=
  let s := { s with registry := true, air := registryAir (s.startGameData.getD false) }
  let s := s.airUpdates.rows.foldl (fun s update =>
    s.onUpdateBlock { position := some update.1, blockRuntimeId := some update.2 }) s
  { s with airUpdates := .empty }

def BedrockAutoButton.configure (s : BedrockAutoButton) (mode : Mode) : BedrockAutoButton :=
  if mode = s.mode then s
  else
    let s := { s with mode }
    if mode = .off then { s with pending := fun _ => none }
    else if ¬ s.registry ∧ s.startGameData.isSome then s.initializeRegistry registryAir
    else s

def BedrockAutoButton.reset (s : BedrockAutoButton) (dimension : ℤ) : BedrockAutoButton :=
  { s with
    dimension
    sections := fun _ => none
    pending := fun _ => none
    airUpdates := .empty }

def BedrockAutoButton.onStartGame (s : BedrockAutoButton) (dimension : Option ℤ) (hashes : Bool) :
    BedrockAutoButton :=
  let s := { s.reset (dimension.getD 0) with startGameData := some hashes, registry := false }
  if s.mode ≠ .off then s.initializeRegistry registryAir else s

def BedrockAutoButton.onItemRegistry (s : BedrockAutoButton) : BedrockAutoButton :=
  if s.registry then s.initializeRegistry registryAir else s

/-- The sections around the player, in the order of the loops. -/
def around (center : Vec) : List Vec :=
  [-1, 0, 1].flatMap fun x => [-1, 0, 1].flatMap fun z => [-1, 0, 1].map fun y =>
    ⟨center.x + x, center.y + y, center.z + z⟩

def BedrockAutoButton.requestSections (s : BedrockAutoButton) (view : Position) (now : ℤ) :
    BedrockAutoButton :=
  let s := s.forget (some view)
  let s := { s with pending := fun p => if nearby (some view) p then s.pending p else none }
  (around view.chunk).foldl (fun s p =>
    if p.y < -4 ∨ p.y > 19 ∨ (s.sections p).isSome ∨ (s.pending p).any (now - · < 2000) then s
    else { s with pending := Function.update s.pending p (some now) }) s

/-- `tick`, as far as the sections go; `flushed` is what `flushRelease` answers. -/
def BedrockAutoButton.tick (s : BedrockAutoButton) (flushed : Bool) (view : Option Position)
    (now : ℤ) : BedrockAutoButton :=
  match view with
  | none => s
  | some view =>
      if ¬ flushed ∨ s.mode = .off ∨ ¬ s.registry then s else s.requestSections view now

/-- What happens to the bot; the view is that of the player at the time. -/
inductive Event
  | levelChunk (view : Option Position) (packet : LevelChunk)
  | subchunk (view : Option Position) (packet : SubchunkPacket)
  | updateBlock (packet : UpdateBlock)
  | configure (mode : Mode)
  | itemRegistry
  | tick (flushed : Bool) (view : Option Position) (now : ℤ)
  | reset (dimension : ℤ)
  | startGame (dimension : Option ℤ) (hashes : Bool)

def BedrockAutoButton.step (s : BedrockAutoButton) : Event → BedrockAutoButton
  | .levelChunk view packet => s.onLevelChunk view packet
  | .subchunk view packet => s.onSubchunk view packet
  | .updateBlock packet => s.onUpdateBlock packet
  | .configure mode => s.configure registryAir mode
  | .itemRegistry => s.onItemRegistry registryAir
  | .tick flushed view now => s.tick flushed view now
  | .reset dimension => s.reset dimension
  | .startGame dimension hashes => s.onStartGame registryAir dimension hashes

end Registry

end AfkClient.AutoButton
