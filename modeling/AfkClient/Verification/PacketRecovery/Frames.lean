import AfkClient.Library.Varint
import AfkClient.Model.PacketRecovery

/-! Batches of packets. A batch is split exactly when it is made of packets behind their
lengths, and then into these packets. -/

namespace AfkClient.PacketRecovery

variable {buffer rest : List UInt8} {offset : ℕ}

/-- The buffer is made of the packets, in order, each behind its length. -/
inductive Framed : List UInt8 → List (List UInt8) → Prop
  | nil : Framed [] []
  | cons {word frame rest : List UInt8} {frames : List (List UInt8)} :
      Varint.Spells word frame.length → word.length ≤ 5 → frame.length < 2 ^ 32 →
      Framed rest frames → Framed (word ++ (frame ++ rest)) (frame :: frames)

/-! ### Lengths -/

/-- The message for a length that is not one. -/
def lengthError : Varint.Fault → String
  | .incomplete => "Bedrock: incomplete packet length/header VarInt"
  | .invalid => "Bedrock: invalid packet length/header VarInt"

theorem unsignedVarintFrom_eq {index : ℕ} (hindex : index < 5) (value : ℕ) :
    unsignedVarintFrom buffer offset index value =
      match Varint.read (32 - 7 * index) (buffer.drop (offset + index)) with
      | .error fault => .error (lengthError fault)
      | .ok (n, rest) => .ok (value + n * 2 ^ (7 * index), buffer.length - offset - rest.length) := by
  rw [unsignedVarintFrom, if_pos hindex]
  cases hbyte : buffer[offset + index]? with
  | none =>
      rw [List.drop_eq_nil_of_le (List.getElem?_eq_none_iff.mp hbyte)]
      rfl
  | some byte =>
      obtain ⟨hlt, hget⟩ := List.getElem?_eq_some_iff.mp hbyte
      rw [List.drop_eq_getElem_cons hlt, hget, Varint.read]
      have hoverflow : (index = 4 ∧ byte &&& 0xf0 ≠ 0) ↔
          32 - 7 * index ≤ 7 ∧ 2 ^ (32 - 7 * index) ≤ byte.toNat := by
        rw [Ne, Varint.high_nibble]
        constructor
        · rintro ⟨rfl, hle⟩
          omega
        · rintro ⟨hbits, hle⟩
          obtain rfl : index = 4 := by omega
          exact ⟨rfl, by omega⟩
      by_cases hbad : index = 4 ∧ byte &&& 0xf0 ≠ 0
      · simp only [if_pos hbad, if_pos (hoverflow.mp hbad)]
        rfl
      simp only [if_neg hbad, if_neg (fun h => hbad (hoverflow.mpr h))]
      by_cases hlast : byte &&& 0x80 = 0
      · have := (Varint.high_bit byte).mp hlast
        simp only [if_pos hlast, if_pos this, Varint.low_bits, Nat.mod_eq_of_lt this,
          List.length_drop]
        congr 2
        omega
      · have hmore := mt (Varint.high_bit byte).mpr hlast
        have hnext : index + 1 < 5 := by
          by_contra hle
          refine hbad ⟨by omega, fun hzero => ?_⟩
          have := (Varint.high_nibble byte).mp hzero
          omega
        simp only [if_neg hlast, if_neg hmore]
        rw [unsignedVarintFrom_eq hnext, show 32 - 7 * (index + 1) = 32 - 7 * index - 7 by omega,
          ← Nat.add_assoc]
        cases Varint.read (32 - 7 * index - 7) (buffer.drop (offset + index + 1)) with
        | error fault => rfl
        | ok result =>
            have hpow : 2 ^ (7 * (index + 1)) = 128 * 2 ^ (7 * index) := by ring
            have hvalue : byte.toNat - 128 + 128 * result.1 =
                byte.toNat % 128 + 128 * result.1 := by
              have := byte.toNat_lt
              omega
            have hsum : value + byte.toNat % 128 * 2 ^ (7 * index) +
                result.1 * (128 * 2 ^ (7 * index)) =
                  value + (byte.toNat % 128 + 128 * result.1) * 2 ^ (7 * index) := by ring
            simp only [Except.map, Varint.low_bits, hvalue, hpow, hsum]
termination_by 5 - index

theorem unsignedVarint_ok {value size : ℕ} (h : unsignedVarint buffer offset = .ok (value, size)) :
    ∃ word rest, buffer.drop offset = word ++ rest ∧ Varint.Spells word value ∧
      word.length = size ∧ size ≤ 5 ∧ value < 2 ^ 32 := by
  rw [unsignedVarint, unsignedVarintFrom_eq (by decide), Nat.add_zero] at h
  cases hread : Varint.read (32 - 7 * 0) (buffer.drop offset) with
  | error fault => simp [hread] at h
  | ok result =>
      obtain ⟨n, rest⟩ := result
      obtain ⟨hn, hsize⟩ : n = value ∧ buffer.length - offset - rest.length = size := by
        simpa [hread] using h
      obtain ⟨word, hword, hspells, hlt, hlen⟩ := Varint.read_sound (by decide) hread
      have hlength := congrArg List.length hword
      rw [List.length_drop, List.length_append] at hlength
      exact ⟨word, rest, hword, hn ▸ hspells, by omega, by omega, hn ▸ hlt⟩

theorem unsignedVarint_spelled {word : List UInt8} {value : ℕ}
    (hbuffer : buffer.drop offset = word ++ rest) (h : Varint.Spells word value)
    (hlen : word.length ≤ 5) (hlt : value < 2 ^ 32) :
    unsignedVarint buffer offset = .ok (value, word.length) := by
  have hlength := congrArg List.length hbuffer
  rw [List.length_drop, List.length_append] at hlength
  rw [unsignedVarint, unsignedVarintFrom_eq (by decide), Nat.add_zero, hbuffer,
    Varint.read_complete h hlt (by omega)]
  simp only [Nat.zero_add, Nat.mul_zero, Nat.pow_zero, Nat.mul_one]
  congr 2
  omega

/-! ### Packets -/

theorem subarray_of_drop {frame : List UInt8} (h : buffer.drop offset = frame ++ rest) :
    subarray buffer (offset, offset + frame.length) = frame := by
  rw [subarray, List.drop_take, h, Nat.add_sub_cancel_left, List.take_left]

/-- What was split is made of the packets. -/
theorem framed_of_spansFrom : ∀ spans : List (ℕ × ℕ), spansFrom buffer offset = .ok spans →
    Framed (buffer.drop offset) (spans.map (subarray buffer)) := by
  fun_induction spansFrom buffer offset with
  | case1 => nofun
  | case2 => nofun
  | case3 offset hlt length size hread available havailable _ ih =>
      intro spans h
      cases hrest : spansFrom buffer (offset + size + length) with
      | error error => simp [hrest, Except.map] at h
      | ok more =>
          obtain rfl : (offset + size, offset + size + length) :: more = spans := by
            simpa [hrest, Except.map] using h
          obtain ⟨word, rest, hword, hspells, rfl, hlen, hvalue⟩ := unsignedVarint_ok hread
          have hdrop : buffer.drop (offset + word.length) = rest := by
            rw [← List.drop_drop, hword, List.drop_left]
          have hrestLength : length ≤ rest.length := by
            rw [← hdrop, List.length_drop]
            omega
          have hframe : (rest.take length).length = length := by
            rw [List.length_take]
            omega
          have hsplit : rest = rest.take length ++ rest.drop length :=
            (List.take_append_drop length rest).symm
          have hcut := subarray_of_drop (hdrop.trans hsplit)
          rw [hframe] at hcut
          have hnext : rest.drop length = buffer.drop (offset + word.length + length) := by
            rw [← hdrop, List.drop_drop]
          rw [hword, List.map_cons, hcut]
          nth_rewrite 1 [hsplit]
          exact .cons (by rwa [hframe]) hlen (by rwa [hframe]) (hnext ▸ ih _ hrest)
  | case4 offset hend =>
      intro spans h
      cases h
      rw [List.drop_eq_nil_of_le (by omega)]
      exact .nil

/-- What is made of packets is split into them. -/
theorem Framed.spansFrom {bytes : List UInt8} {frames : List (List UInt8)}
    (h : Framed bytes frames) (hbytes : buffer.drop offset = bytes) :
    ∃ spans, spansFrom buffer offset = .ok spans ∧ spans.map (subarray buffer) = frames := by
  induction h generalizing offset with
  | nil =>
      rw [PacketRecovery.spansFrom, if_neg (by simpa using hbytes)]
      exact ⟨[], rfl, rfl⟩
  | @cons word frame rest frames hspells hlen hframe _ ih =>
      have hdrop : buffer.drop (offset + word.length) = frame ++ rest := by
        rw [← List.drop_drop, hbytes, List.drop_left]
      have hnext : buffer.drop (offset + word.length + frame.length) = rest := by
        rw [← List.drop_drop, hdrop, List.drop_left]
      obtain ⟨spans, hspans, hcuts⟩ := ih hnext
      have hlength := congrArg List.length hbytes
      simp only [List.length_drop, List.length_append] at hlength
      have hpos := List.length_pos_iff.mpr hspells.ne_nil
      refine ⟨(offset + word.length, offset + word.length + frame.length) :: spans, ?_, ?_⟩
      · rw [PacketRecovery.spansFrom, if_pos (by omega)]
        split
        · rename_i herror
          simp [unsignedVarint_spelled hbytes hspells hlen hframe] at herror
        · rename_i length size hread
          rw [unsignedVarint_spelled hbytes hspells hlen hframe] at hread
          cases hread
          dsimp only
          rw [if_neg (by omega), hspans]
          rfl
      · rw [List.map_cons, subarray_of_drop hdrop, hcuts]

theorem splitBedrockFrames_eq_ok {frames : List (List UInt8)} :
    splitBedrockFrames buffer = .ok frames ↔ Framed buffer frames := by
  constructor
  · intro h
    cases hspans : PacketRecovery.spansFrom buffer 0 with
    | error error => simp [splitBedrockFrames, hspans, Except.map] at h
    | ok spans =>
        have hframed := framed_of_spansFrom spans hspans
        obtain rfl : spans.map (subarray buffer) = frames := by
          simpa [splitBedrockFrames, hspans, Except.map] using h
        rwa [List.drop_zero] at hframed
  · intro h
    obtain ⟨spans, hspans, rfl⟩ := @Framed.spansFrom buffer 0 _ _ h List.drop_zero
    rw [splitBedrockFrames, hspans]
    rfl

/-- A batch is split exactly when it is made of packets behind their lengths, and into these
packets; every other batch is refused as a whole. -/
theorem splitBedrockFrames_exact (frames : List (List UInt8))
    (hframes : ∀ frame ∈ frames, frame.length < 2 ^ 32) (buffer : List UInt8) :
    splitBedrockFrames (frames.flatMap fun frame => Varint.encode frame.length ++ frame) = .ok frames ∧
      (∀ frames', splitBedrockFrames buffer = .ok frames' ↔ Framed buffer frames') ∧
      ((∃ error, splitBedrockFrames buffer = .error error) ↔ ¬ ∃ frames', Framed buffer frames') := by
  refine ⟨splitBedrockFrames_eq_ok.mpr ?_, fun frames' => splitBedrockFrames_eq_ok, ?_⟩
  · induction frames with
    | nil => exact .nil
    | cons frame frames ih =>
        have hframe := hframes frame List.mem_cons_self
        rw [List.flatMap_cons, List.append_assoc]
        refine .cons (Varint.spells_encode _) (Varint.length_encode_le (hframe.trans ?_)) hframe
          (ih fun frame hmem => hframes frame (List.mem_cons_of_mem _ hmem))
        decide
  · simp only [← splitBedrockFrames_eq_ok]
    cases splitBedrockFrames buffer with
    | error error => simp
    | ok frames' => simp

theorem splitBedrockFrames_exact_two :
    splitBedrockFrames ([[1, 2], [3]].flatMap fun frame => Varint.encode frame.length ++ frame) =
      .ok [[1, 2], [3]] :=
  (splitBedrockFrames_exact [[1, 2], [3]] (by decide) []).1

end AfkClient.PacketRecovery
