import AfkClient.Library.Json
import AfkClient.Library.Utf8

/-! The status ping that asks a server for its protocol before a login: numbers of the protocol,
and the socket that reads the answer. -/

namespace AfkClient.StatusPing

inductive Failure where
  | message (text : String)
  /-- What `JSON.parse` throws. -/
  | syntaxError
  /-- A property of `null` was read. -/
  | typeError
  deriving DecidableEq, Repr

/-! ### Numbers -/

def varIntBytes (remaining : UInt32) : List UInt8 :=
  let byte := remaining &&& 127
  let rest := remaining >>> 7
  if rest = 0 then [byte.toUInt8] else (byte ||| 128).toUInt8 :: varIntBytes rest
termination_by remaining.toNat
decreasing_by
  rename_i hzero
  have hrest : (remaining >>> 7).toNat = remaining.toNat / 128 := by
    rw [UInt32.toNat_shiftRight]
    exact Nat.shiftRight_eq_div_pow _ 7
  have hne : (remaining >>> 7).toNat ≠ 0 := fun h => hzero (UInt32.toNat_inj.mp h)
  omega

/-- `value >>> 0` is the number modulo 2^32. -/
def varInt (value : ℤ) : List UInt8 := varIntBytes (UInt32.ofInt value)

/-- A number and how many bytes it has. -/
structure VarInt where
  value : ℤ
  bytes : ℕ
  deriving DecidableEq, Repr

/-- The loop, with `left` rounds to go. -/
def readGroups (buffer : List UInt8) (offset i : ℕ) (value : UInt32) :
    ℕ → Except Failure (Option VarInt)
  | 0 => .error (.message "Ungültige Minecraft-Statusantwort")
  | left + 1 =>
      match buffer[offset + i]? with
      | none => .ok none
      | some byte =>
          let value := value ||| ((byte &&& 127).toUInt32 <<< UInt32.ofNat (7 * i))
          if byte &&& 128 = 0 then .ok (some ⟨value.toInt32.toInt, i + 1⟩)
          else readGroups buffer offset (i + 1) value left

def readVarInt (buffer : List UInt8) (offset : ℕ := 0) : Except Failure (Option VarInt) :=
  readGroups buffer offset 0 0 5

/-! ### The answer -/

/-- `response.version?.protocol`, if it is defined. -/
def protocolField : Json → Except Failure (Option Json)
  | .null => .error .typeError
  | .obj response =>
      match Json.find response "version" with
      | some (.obj version) => .ok (Json.find version "protocol")
      | _ => .ok none
  | _ => .ok none

/-- `Number.MAX_SAFE_INTEGER` -/
def MAX_SAFE_INTEGER : ℤ := 2 ^ 53 - 1

/-- The protocol that the text of the answer reports. -/
def reported (text : List UInt8) : Except Failure ℤ :=
  match Json.parse (Utf8.decode (text.map UInt8.toNat)) with
  | none => .error .syntaxError
  | some response => do
      match ← protocolField response with
      | some (.num protocol) =>
          if protocol.den = 1 ∧ 0 ≤ protocol.num ∧ protocol.num ≤ MAX_SAFE_INTEGER then
            return protocol.num
          else throw (.message "Server meldet keine Minecraft-Protokollversion")
      | _ => throw (.message "Server meldet keine Minecraft-Protokollversion")

/-- The handler's view of the whole buffer; `none` waits for more. -/
def readStatus (buffer : List UInt8) : Except Failure (Option ℤ) := do
  if buffer.length > 1024 * 1024 then throw (.message "Minecraft-Statusantwort zu groß")
  let some packet ← readVarInt buffer | return none
  if (buffer.length : ℤ) < packet.bytes + packet.value then return none
  match ← readVarInt buffer packet.bytes with
  | some ⟨0, idBytes⟩ =>
      match ← readVarInt buffer (packet.bytes + idBytes) with
      | some length =>
          let start := packet.bytes + idBytes + length.bytes
          if length.value < 0 ∨ start + length.value > buffer.length then
            throw (.message "Ungültige Minecraft-Statuslänge")
          some <$> reported ((buffer.drop start).take length.value.toNat)
      | none => throw (.message "Ungültige Minecraft-Statuslänge")
  | _ => throw (.message "Ungültiges Minecraft-Statuspaket")

/-- The socket; `settled` are the calls of `resolve` and `reject`. -/
structure Ping where
  buffer : List UInt8 := []
  finished : Bool := false
  settled : List (Except Failure ℤ) := []

namespace Ping

def finish (s : Ping) (outcome : Except Failure ℤ) : Ping :=
  if s.finished then s else { s with finished := true, settled := s.settled ++ [outcome] }

def data (s : Ping) (chunk : List UInt8) : Ping :=
  let s := { s with buffer := s.buffer ++ chunk }
  match readStatus s.buffer with
  | .ok none => s
  | .ok (some protocol) => s.finish (.ok protocol)
  | .error failure => s.finish (.error failure)

end Ping

inductive Event where
  | data (chunk : List UInt8)
  | timeout
  | error (text : String)
  | ended
  deriving DecidableEq, Repr

def Ping.step (s : Ping) : Event → Ping
  | .data chunk => s.data chunk
  | .timeout =>
      s.finish (.error (.message "Minecraft-Statusabfrage hat nicht rechtzeitig geantwortet"))
  | .error text => s.finish (.error (.message text))
  | .ended => s.finish (.error (.message "Minecraft-Statusabfrage wurde beendet"))

def Ping.run (s : Ping) (events : List Event) : Ping := events.foldl Ping.step s

end AfkClient.StatusPing
