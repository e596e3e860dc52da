import Mathlib.Algebra.Ring.Nat

/-! The packets of a decrypted Bedrock batch (`bedrock-bot/packetRecovery.ts`). A thrown
error is an `Except.error` with its message. -/

namespace AfkClient.PacketRecovery

/-- The loop over the bytes of a length, from byte `index` on. -/
def unsignedVarintFrom (buffer : List UInt8) (offset index value : ℕ) : Except String (ℕ × ℕ) :=
  if index < 5 then
    match buffer[offset + index]? with
    | none => .error "Bedrock: incomplete packet length/header VarInt"
    | some byte =>
        if index = 4 ∧ byte &&& 0xf0 ≠ 0 then
          .error "Bedrock: invalid packet length/header VarInt"
        else
          let value := value + (byte &&& 0x7f).toNat * 2 ^ (7 * index)
          if byte &&& 0x80 = 0 then .ok (value, index + 1)
          else unsignedVarintFrom buffer offset (index + 1) value
  else .error "Bedrock: invalid packet length/header VarInt"
termination_by 5 - index

/-- The value at an offset, and the number of bytes that spell it. -/
def unsignedVarint (buffer : List UInt8) (offset : ℕ) : Except String (ℕ × ℕ) :=
  unsignedVarintFrom buffer offset 0 0

theorem unsignedVarintFrom_size {buffer : List UInt8} {offset index value : ℕ} {result : ℕ × ℕ}
    (h : unsignedVarintFrom buffer offset index value = .ok result) : 0 < result.2 := by
  fun_induction unsignedVarintFrom buffer offset index value with
  | case3 _ _ _ _ _ _ value => cases h; exact Nat.succ_pos _
  | case4 _ _ _ _ _ _ _ _ ih => exact ih h
  | _ => cases h

/-- The loop of `splitBedrockFrames`: where each packet starts and ends. -/
def spansFrom (buffer : List UInt8) (offset : ℕ) : Except String (List (ℕ × ℕ)) :=
  if offset < buffer.length then
    match h : unsignedVarint buffer offset with
    | .error error => .error error
    | .ok (length, size) =>
        let available := buffer.length - (offset + size)
        if available < length then
          .error s!"Bedrock: incomplete batch packet ({length} bytes declared, {available} available)"
        else
          have := unsignedVarintFrom_size h
          (spansFrom buffer (offset + size + length)).map
            ((offset + size, offset + size + length) :: ·)
  else .ok []
termination_by buffer.length - offset

/-- The bytes from the start to the end of a packet. -/
def subarray (buffer : List UInt8) (span : ℕ × ℕ) : List UInt8 :=
  (buffer.take span.2).drop span.1

/-- Every packet of a batch, or none of them. -/
def splitBedrockFrames (buffer : List UInt8) : Except String (List (List UInt8)) :=
  (spansFrom buffer 0).map fun spans => spans.map (subarray buffer)

end AfkClient.PacketRecovery
