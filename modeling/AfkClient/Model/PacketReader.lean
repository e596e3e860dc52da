import AfkClient.Model.ItemFilter

/-! The bounded reader of a Java bot (`rust-bot/src/afk_network.rs`) over the bundles of its
connection (`vendor/azalea-client/src/plugins/connection/bundle.rs`). Decoding, the handlers of
decoded packets, the clock and what arrives on a socket are parameters. Only packets that are
handled change the phase of a connection, and no handler injects packets. -/

namespace AfkClient.PacketReader

open ItemFilter

abbrev Raw := List UInt8

structure Wire extends ItemFilter.Protocol where
  bundleDelimiterId : UInt32
  startConfigurationId : UInt32
  /-- Whether a packet of the running game is a disconnect. -/
  isDisconnect : Raw → Bool
  /-- A packet of another phase, as whether it is a disconnect. -/
  deserializePhase : ConnectionProtocol → Raw → Option Bool

/-- What the handlers make of the world, and of the phase of the connection unless they
removed it. -/
structure Handlers (World : Type) where
  game : World → Raw → ClientboundGamePacket → World × Option ConnectionProtocol
  phase : World → ConnectionProtocol → Raw → World × Option ConnectionProtocol

inductive ReadPacketError
  /-- An i/o error, or a connection that was closed. -/
  | closed
  | other
  deriving DecidableEq

/-- What one read of a socket finds. -/
abbrev Frame := Except ReadPacketError Raw

structure RawConnection where
  state : ConnectionProtocol
  /-- The unread frames of the socket. -/
  network : Option (List Frame)
  injectedClientboundPackets : List Raw
  /-- The packets of a bundle that is still open. -/
  pending : Option (List Raw)

def RawConnection.new (state : ConnectionProtocol) : RawConnection :=
  ⟨state, some [], [], none⟩

def RawConnection.arrive (frames : List Frame) (c : RawConnection) : RawConnection :=
  { c with network := c.network.map (· ++ frames) }

/-! ### Bundles -/

def maxGameBundlePackets : ℕ := 4096

inductive IncomingPacketBatch
  | single
  | pending
  | complete (packets : List Raw)

inductive IncomingBundleError
  | tooManyPackets
  | terminalPacket
  | malformedDelimiter
  | malformedPacketId

/-- The id of a packet does not end within five bytes. -/
def unterminated (raw : Raw) : Bool :=
  5 ≤ raw.length && (raw.take 5).all (· &&& 0x80 ≠ 0)

/-- What is pending after a frame, and what the frame calls for. -/
def collect (w : Wire) (pending : Option (List Raw)) (state : ConnectionProtocol) (raw : Raw) :
    Option (List Raw) × Except IncomingBundleError IncomingPacketBatch :=
  match state with
  | .login | .configuration => (none, .ok .single)
  | .game =>
      if raw = [] then (pending, .ok .pending)
      else if unterminated raw then (none, .error .malformedPacketId)
      else
        match w.readVar raw, pending with
        | none, some _ => (none, .error .malformedPacketId)
        | none, none => (none, .ok .single)
        | some (id, rest), pending =>
            if id = w.bundleDelimiterId then
              if rest ≠ [] then (none, .error .malformedDelimiter)
              else
                match pending with
                | some packets => (none, .ok (.complete packets))
                | none => (some [], .ok .pending)
            else
              match pending with
              | none => (none, .ok .single)
              | some packets =>
                  if id = w.startConfigurationId then (none, .error .terminalPacket)
                  else if packets.length ≥ maxGameBundlePackets then
                    (none, .error .tooManyPackets)
                  else (some (packets ++ [raw]), .ok .pending)

/-! ### Packets -/

structure Filter where
  ignored : Finset Int32 := ∅
  serverDisconnectReceived : Bool := false
  writerFailedAt : Option ℕ := none

/-- `Ok(kept)`, or nothing for an error. -/
abbrev Kept := Option Bool

/-- The state that one unit of work changes, and the packets it has handed on. -/
structure Work (World : Type) where
  world : World
  connection : Option RawConnection
  filter : Filter
  processed : List (Raw × Kept) := []

variable {World : Type}

def Work.handled (s : Work World) (connection : RawConnection) (disconnect : Bool)
    (result : World × Option ConnectionProtocol) : Work World :=
  { s with
    world := result.1
    connection := result.2.map fun state => { connection with state := state }
    filter := { s.filter with
      serverDisconnectReceived := s.filter.serverDisconnectReceived || disconnect } }

def processConnected (w : Wire) (h : Handlers World) (raw : Raw) (connection : RawConnection)
    (s : Work World) : Work World × Kept :=
  if raw = [] then (s, some false)
  else
    match connection.state with
    | .game =>
        if isServerData w.toProtocol raw || skipRaw w.toProtocol s.filter.ignored raw then
          (s, some false)
        else
          match w.deserialize raw with
          | none => (s, none)
          | some packet =>
              let (ignored, packet, kept) := keep s.filter.ignored packet
              let s := { s with filter := { s.filter with ignored := ignored } }
              if kept then
                (s.handled connection (w.isDisconnect raw) (h.game s.world raw packet), some true)
              else (s, some false)
    | state =>
        let s := { s with filter := { s.filter with ignored := ∅ } }
        match w.deserializePhase state raw with
        | none => (s, none)
        | some disconnect =>
            (s.handled connection disconnect (h.phase s.world state raw), some true)

def processSinglePacket (w : Wire) (h : Handlers World) (raw : Raw) (s : Work World) :
    Work World × Kept :=
  match s.connection with
  | none => (s, some false)
  | some connection =>
      let (s, kept) := processConnected w h raw connection s
      ({ s with processed := s.processed ++ [(raw, kept)] }, kept)

/-- The packets of a complete bundle. An error does not keep the others from being processed. -/
def processBundle (w : Wire) (h : Handlers World) :
    List Raw → (applied failed : Bool) → Work World → Work World × Kept
  | [], applied, failed, s => (s, if failed then none else some applied)
  | packet :: packets, applied, failed, s =>
      match processSinglePacket w h packet s with
      | (s, some kept) => processBundle w h packets (applied || kept) failed s
      | (s, none) => processBundle w h packets applied true s

def processPacket (w : Wire) (h : Handlers World) (raw : Raw) (s : Work World) :
    Work World × Kept :=
  match s.connection with
  | none => (s, some false)
  | some connection =>
      let (pending, batch) := collect w connection.pending connection.state raw
      let s := { s with connection := some { connection with pending := pending } }
      match batch with
      | .ok .pending => (s, some false)
      | .ok .single => processSinglePacket w h raw s
      | .ok (.complete packets) => processBundle w h packets false false s
      | .error _ => ({ s with connection := none }, some true)

/-! ### Updates -/

def maxPacketsPerUpdate : ℕ := 256

def maxScannedPacketsPerUpdate : ℕ := 8192

/-- Milliseconds. -/
def writerDrainTimeout : ℕ := 2000

inductive Read
  | nothing
  | injected (state : ConnectionProtocol) (raw : Raw)
  | socket (state : ConnectionProtocol) (frame : Frame)

/-- What happens to a connection: packets are injected, or frames arrive, one of what waits is
read, and packets are processed on account of it. -/
inductive Entry
  | inject (packets : List Raw)
  | turn (arrived : List Frame) (read : Read) (processed : List (Raw × Kept))

/-- What the clock, the socket and the writer of a connection do during an update. -/
structure Round where
  /-- The time is up before the `n`-th read. -/
  expired : ℕ → Bool
  /-- What arrives right before the `n`-th read. -/
  arrived : ℕ → List Frame
  writerFinished : Bool
  now : ℕ

structure Pass (World : Type) where
  world : World
  connection : Option RawConnection
  filter : Filter
  injected : List Raw
  applied : ℕ := 0
  /-- One entry for each read of the update. -/
  log : List Entry := []

/-- Goes on with a frame: an error and a packet that was kept count as applied. -/
def Pass.process (w : Wire) (h : Handlers World) (p : Pass World) (arrived : List Frame)
    (read : Read) (raw : Raw) : Pass World :=
  let (s, kept) := processPacket w h raw ⟨p.world, p.connection, p.filter, []⟩
  { p with
    world := s.world
    connection := s.connection
    filter := s.filter
    applied := if kept = some false then p.applied else p.applied + 1
    log := p.log ++ [.turn arrived read s.processed] }

/-- One read, and whether the update goes on after it. -/
def turn (w : Wire) (h : Handlers World) (round : Round) (p : Pass World) : Pass World × Bool :=
  match p.connection with
  | none => (p, false)
  | some connection =>
      let frames := round.arrived p.log.length
      let connection := connection.arrive frames
      let p := { p with connection := some connection }
      match p.injected, connection.network with
      | raw :: injected, network =>
          let arrived := if network.isSome then frames else []
          ({ p with injected := injected }.process w h arrived (.injected connection.state raw)
            raw, true)
      | [], none => (p, false)
      | [], some [] =>
          ({ p with log := p.log ++ [.turn frames .nothing []] }, false)
      | [], some (.ok raw :: network) =>
          ({ p with connection := some { connection with network := some network } }.process w h
            frames (.socket connection.state (.ok raw)) raw, true)
      | [], some (.error error :: network) =>
          ({ p with
            connection :=
              if error = .closed then none else some { connection with network := some network }
            log := p.log ++ [.turn frames (.socket connection.state (.error error)) []] }, false)

/-- The reads of an update, with what is left of `maxScannedPacketsPerUpdate`, and whether a
budget ended them. -/
def readLoop (w : Wire) (h : Handlers World) (round : Round) : ℕ → Pass World → Pass World × Bool
  | remaining, p =>
      if p.filter.serverDisconnectReceived then (p, false)
      else
        match remaining with
        | 0 => (p, true)
        | remaining + 1 =>
            if p.applied ≥ maxPacketsPerUpdate || round.expired p.log.length then (p, true)
            else
              match turn w h round p with
              | (p, true) => readLoop w h round remaining p
              | (p, false) => (p, false)

/-- A writer that has ended closes the connection once what was still unread had its time. -/
def pollWriter (round : Round) (filter : Filter) (connection : RawConnection) :
    Filter × Option RawConnection :=
  if !filter.serverDisconnectReceived && (connection.network.isSome && round.writerFinished) then
    let failedAt := filter.writerFailedAt.getD round.now
    ({ filter with writerFailedAt := some failedAt },
      if round.now - failedAt ≥ writerDrainTimeout then none else some connection)
  else (filter, some connection)

structure Client where
  connection : Option RawConnection
  filter : Filter := {}
  /-- All that has happened to the connection. -/
  log : List Entry := []

/-- The update of one client, and whether it asks for another update at once. -/
def readClient (w : Wire) (h : Handlers World) (round : Round) (world : World) (c : Client) :
    World × Client × Bool :=
  match c.connection with
  | none => (world, c, false)
  | some connection =>
      let (p, budgetExhausted) := readLoop w h round maxScannedPacketsPerUpdate
        { world := world
          connection := some { connection with injectedClientboundPackets := [] }
          filter := c.filter
          injected := connection.injectedClientboundPackets }
      let (filter, connection) :=
        match p.connection with
        | none => (p.filter, none)
        | some connection =>
            pollWriter round p.filter { connection with injectedClientboundPackets := p.injected }
      (p.world, ⟨connection, filter, c.log ++ p.log⟩,
        budgetExhausted && !filter.serverDisconnectReceived && connection.isSome)

def readClients (w : Wire) (h : Handlers World) :
    (rounds : ℕ → Round) → World → List Client → World × List Client × Bool
  | _, world, [] => (world, [], false)
  | rounds, world, c :: clients =>
      let (world, c, resume) := readClient w h (rounds 0) world c
      let (world, clients, resumeReading) :=
        readClients w h (fun n => rounds (n + 1)) world clients
      (world, c :: clients, resume || resumeReading)

structure App (World : Type) where
  world : World
  clients : List Client
  packetReadBacklog : Bool := false

def readPackets (w : Wire) (h : Handlers World) (rounds : ℕ → Round) (app : App World) :
    App World :=
  let (world, clients, resumeReading) := readClients w h rounds app.world app.clients
  ⟨world, clients, resumeReading⟩

def Client.inject (packets : List Raw) (c : Client) : Client :=
  match c.connection with
  | none => c
  | some connection =>
      { c with
        connection := some { connection with
          injectedClientboundPackets := connection.injectedClientboundPackets ++ packets }
        log := c.log ++ [.inject packets] }

inductive Event
  | inject (client : ℕ) (packets : List Raw)
  | update (rounds : ℕ → Round)

def step (w : Wire) (h : Handlers World) (app : App World) : Event → App World
  | .inject client packets => { app with clients := app.clients.modify client (·.inject packets) }
  | .update rounds => readPackets w h rounds app

def start (world : World) (states : List ConnectionProtocol) : App World :=
  ⟨world, states.map fun state => { connection := some (.new state) }, false⟩

end AfkClient.PacketReader
