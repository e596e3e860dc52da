import AfkClient.Library.Varint
import AfkClient.Model.StatusPing

/-! The numbers of the status protocol are read as they were written, and an answer is understood
however it arrives. -/

namespace AfkClient.StatusPing

open Varint (Spells)

/-! ### Writing a number -/

/-- The shortest spelling of the unsigned number. -/
theorem varIntBytes_eq (n : ℕ) : ∀ remaining : UInt32, remaining.toNat = n →
    varIntBytes remaining = Varint.encode n := by
  induction n using Nat.strongRecOn with
  | ind n ih =>
      rintro remaining rfl
      have hrest : (remaining >>> 7).toNat = remaining.toNat / 128 := by
        rw [UInt32.toNat_shiftRight]
        exact Nat.shiftRight_eq_div_pow _ 7
      have hbyte : (remaining &&& 127).toNat = remaining.toNat % 128 := by
        rw [UInt32.toNat_and]
        exact Nat.and_two_pow_sub_one_eq_mod remaining.toNat 7
      rw [varIntBytes, Varint.encode]
      by_cases hsmall : remaining.toNat < 128
      · have hzero : remaining >>> 7 = 0 := UInt32.toNat_inj.mp (by rw [hrest]; simpa using hsmall)
        rw [if_pos hzero, if_pos hsmall]
        congr 1
        rw [← UInt8.toNat_inj, UInt32.toNat_toUInt8, hbyte, UInt8.toNat_ofNat']
        omega
      · have hne : remaining >>> 7 ≠ 0 := by
          intro hzero
          rw [← UInt32.toNat_inj, hrest] at hzero
          simp at hzero
          omega
        rw [if_neg hne, if_neg hsmall, ih _ (by omega) _ hrest]
        congr 1
        have hor : (remaining &&& 127 ||| 128).toNat = remaining.toNat % 128 + 128 := by
          have hlt : remaining.toNat % 128 < 2 ^ 7 := Nat.mod_lt _ (by decide)
          rw [UInt32.toNat_or, hbyte, Nat.or_comm]
          exact (Nat.two_pow_add_eq_or_of_lt hlt 1).symm.trans (Nat.add_comm _ _)
        rw [← UInt8.toNat_inj, UInt32.toNat_toUInt8, hor, UInt8.toNat_ofNat']

theorem spells_varInt (v : ℤ) : Spells (varInt v) (UInt32.ofInt v).toNat := by
  rw [varInt, varIntBytes_eq _ _ rfl]
  exact Varint.spells_encode _

theorem length_varInt (v : ℤ) : (varInt v).length ≤ 5 := by
  rw [varInt, varIntBytes_eq _ _ rfl]
  exact @Varint.length_encode_le 4 _ (by have := (UInt32.ofInt v).toNat_lt; omega)

/-- The signed reading of 32 bits. -/
theorem toInt_eq (n : UInt32) : n.toInt32.toInt = (n.toNat : ℤ).bmod (2 ^ 32) :=
  BitVec.toInt_eq_toNat_bmod n.toBitVec

theorem toInt_ofInt (v : ℤ) : ((UInt32.ofInt v).toNat : ℤ).bmod (2 ^ 32) = v.bmod (2 ^ 32) := by
  have hnat : ((UInt32.ofInt v).toNat : ℤ) = v % 2 ^ 32 := by
    rw [UInt32.ofInt, UInt32.toNat_ofNat']
    omega
  rw [hnat]
  exact Int.emod_bmod v (2 ^ 32)

/-! ### Reading a number -/

/-- A group is put above the groups before it. -/
theorem toNat_group {value : UInt32} (byte : UInt8) {i : ℕ} (hi : i < 5)
    (hvalue : value.toNat < 2 ^ (7 * i)) (hfit : byte.toNat % 128 * 2 ^ (7 * i) < 2 ^ 32) :
    (value ||| ((byte &&& 127).toUInt32 <<< UInt32.ofNat (7 * i))).toNat =
      value.toNat + byte.toNat % 128 * 2 ^ (7 * i) := by
  have hshift : ((byte &&& 127).toUInt32 <<< UInt32.ofNat (7 * i)).toNat =
      2 ^ (7 * i) * (byte.toNat % 128) := by
    have hcount : (UInt32.ofNat (7 * i)).toNat % 32 = 7 * i := by
      simp
      omega
    rw [UInt32.toNat_shiftLeft, hcount, UInt8.toNat_toUInt32, Varint.low_bits, Nat.shiftLeft_eq,
      Nat.mod_eq_of_lt hfit, Nat.mul_comm]
  rw [UInt32.toNat_or, hshift, Nat.or_comm, ← Nat.two_pow_add_eq_or_of_lt hvalue]
  ring

theorem next_byte {buffer tail : List UInt8} {b : UInt8} {offset i : ℕ}
    (h : buffer.drop (offset + i) = b :: tail) :
    buffer[offset + i]? = some b ∧ buffer.drop (offset + (i + 1)) = tail := by
  constructor
  · rw [← List.head?_drop, h]
    rfl
  · rw [← Nat.add_assoc, ← List.tail_drop, h]
    rfl

/-- The groups of a spelled number, read in the middle of a buffer. -/
theorem readGroups_spells {word : List UInt8} {n : ℕ} (h : Spells word n) {buffer rest : List UInt8}
    {offset i left : ℕ} {value : UInt32} (hleft : i + left = 5) (hlen : word.length ≤ left)
    (hbuffer : buffer.drop (offset + i) = word ++ rest) (hvalue : value.toNat < 2 ^ (7 * i))
    (hfit : n * 2 ^ (7 * i) < 2 ^ 32) :
    readGroups buffer offset i value left =
      .ok (some ⟨((value.toNat + n * 2 ^ (7 * i) : ℕ) : ℤ).bmod (2 ^ 32), i + word.length⟩) := by
  induction h generalizing i left value with
  | @last b hb =>
      cases left with
      | zero => cases hlen
      | succ left =>
          have hmod : b.toNat % 128 = b.toNat := Nat.mod_eq_of_lt hb
          have hgroup := toNat_group b (by omega) hvalue (by rwa [hmod])
          rw [readGroups, (next_byte hbuffer).1]
          simp only [(Varint.high_bit b).mpr hb, if_true]
          rw [toInt_eq, hgroup, hmod]
          rfl
  | @more b word n hb hword ih =>
      cases left with
      | zero => cases hlen
      | succ left =>
          have hlast : ¬ b &&& 128 = 0 := fun h => absurd ((Varint.high_bit b).mp h) (by omega)
          have hmod : b.toNat % 128 = b.toNat - 128 := by have := b.toNat_lt; omega
          have hpow : 2 ^ (7 * (i + 1)) = 2 ^ (7 * i) * 128 := by
            rw [show 7 * (i + 1) = 7 * i + 7 by ring, Nat.pow_add]
          rw [Nat.add_mul] at hfit
          have hlow : b.toNat % 128 * 2 ^ (7 * i) < 2 ^ 32 := by
            rw [hmod]
            omega
          have hgroup := toNat_group b (by omega) hvalue hlow
          have hsmall : b.toNat % 128 * 2 ^ (7 * i) ≤ 127 * 2 ^ (7 * i) :=
            Nat.mul_le_mul_right _ (by omega)
          rw [readGroups, (next_byte hbuffer).1]
          simp only [hlast, if_false]
          have hhigh : n * 2 ^ (7 * (i + 1)) = 128 * n * 2 ^ (7 * i) := by
            rw [hpow]
            ring
          have hnumber : (value ||| ((b &&& 127).toUInt32 <<< UInt32.ofNat (7 * i))).toNat
              + n * 2 ^ (7 * (i + 1)) = value.toNat + (b.toNat - 128 + 128 * n) * 2 ^ (7 * i) := by
            rw [hgroup, hhigh, hmod, Nat.add_mul, Nat.add_assoc]
          rw [ih (by omega) (by simpa using hlen) (next_byte hbuffer).2 (by rw [hgroup]; omega)
            (by omega), hnumber, List.length_cons, Nat.add_assoc i 1, Nat.add_comm 1]

/-- A number whose last byte has not arrived. -/
theorem readGroups_incomplete {word front more : List UInt8} {n : ℕ} (h : Spells word n)
    (hword : word = front ++ more) (hmore : more ≠ []) {buffer : List UInt8} {offset i left : ℕ}
    {value : UInt32} (hlen : word.length ≤ left) (hbuffer : buffer.drop (offset + i) = front) :
    readGroups buffer offset i value left = .ok none := by
  induction h generalizing front i left value with
  | @last b hb =>
      cases left with
      | zero => cases hlen
      | succ left =>
          have hnil : front = [] := by
            cases front with
            | nil => rfl
            | cons c front => simp_all
          have hend : buffer[offset + i]? = none := by
            rw [← List.head?_drop, hbuffer, hnil]
            rfl
          rw [readGroups, hend]
  | @more b word n hb hspells ih =>
      cases left with
      | zero => cases hlen
      | succ left =>
          cases front with
          | nil =>
              have hend : buffer[offset + i]? = none := by
                rw [← List.head?_drop, hbuffer]
                rfl
              rw [readGroups, hend]
          | cons c front =>
              obtain ⟨rfl, htail⟩ := List.cons.inj hword
              have hlast : ¬ b &&& 128 = 0 := fun h => absurd ((Varint.high_bit b).mp h) (by omega)
              rw [readGroups, (next_byte hbuffer).1]
              simp only [hlast, if_false]
              exact ih htail (by simpa using hlen) (next_byte hbuffer).2

/-- A spelled number of at most five bytes. -/
structure Word (word : List UInt8) (n : ℕ) : Prop where
  spells : Spells word n
  short : word.length ≤ 5

theorem readVarInt_word (offset : ℕ) {word rest buffer : List UInt8} {n : ℕ} (h : Word word n)
    (hn : n < 2 ^ 32) (hbuffer : buffer.drop offset = word ++ rest) :
    readVarInt buffer offset = .ok (some ⟨(n : ℤ).bmod (2 ^ 32), word.length⟩) := by
  have hread := @readGroups_spells word n h.spells buffer rest offset 0 5 0 rfl h.short hbuffer
    (by simp) (by simpa)
  simpa [readVarInt] using hread

theorem word_varInt (v : ℤ) : Word (varInt v) (UInt32.ofInt v).toNat :=
  ⟨spells_varInt v, length_varInt v⟩

theorem readVarInt_varInt (v : ℤ) (suffix : List UInt8) :
    readVarInt (varInt v ++ suffix) = .ok (some ⟨v.bmod (2 ^ 32), (varInt v).length⟩) := by
  rw [readVarInt_word 0 (word_varInt v) (UInt32.ofInt v).toNat_lt rfl, toInt_ofInt]

theorem readVarInt_incomplete {word front more : List UInt8} {n : ℕ} (h : Word word n)
    (hword : word = front ++ more) (hmore : more ≠ []) : readVarInt front = .ok none :=
  readGroups_incomplete h.spells hword hmore h.short rfl

/-! ### The answer of a server -/

/-- A framed packet with the number 0 and the text of an answer that reports the protocol. -/
structure StatusResponse (response : List UInt8) (protocol : ℤ) : Prop where
  framed : ∃ frame id length text, response = frame ++ (id ++ (length ++ text)) ∧
    Word frame (id ++ (length ++ text)).length ∧ Word id 0 ∧ Word length text.length ∧
    ∃ entries version, Json.parse (Utf8.decode (text.map UInt8.toNat)) = some (.obj entries) ∧
      Json.find entries "version" = some (.obj version) ∧
      Json.find version "protocol" = some (.num protocol)
  protocol : 0 ≤ protocol ∧ protocol ≤ MAX_SAFE_INTEGER

variable {response : List UInt8} {protocol : ℤ}

/-- Small numbers are not negative when they are read. -/
theorem bmod_of_small {n : ℕ} (hn : n ≤ 1024 * 1024) : (n : ℤ).bmod (2 ^ 32) = n := by
  rw [Int.bmod_def]
  omega

/-- Nothing is concluded from a part of the answer. -/
theorem readStatus_part (h : StatusResponse response protocol)
    (hsize : response.length ≤ 1024 * 1024) {front more : List UInt8}
    (hresponse : response = front ++ more) (hmore : more ≠ []) : readStatus front = .ok none := by
  obtain ⟨frame, id, length, text, rfl, hframe, -⟩ := h.framed
  have hlt : front.length < (frame ++ (id ++ (length ++ text))).length := by
    rw [hresponse, List.length_append]
    have := List.length_pos_iff.mpr hmore
    omega
  have hfront : front <+: frame ++ (id ++ (length ++ text)) := ⟨more, hresponse.symm⟩
  have hhead : frame <+: frame ++ (id ++ (length ++ text)) := List.prefix_append _ _
  rw [readStatus, if_neg (by omega)]
  by_cases hframed : frame.length ≤ front.length
  · -- the length of the frame is known and not reached
    obtain ⟨rest, rfl⟩ := List.prefix_of_prefix_length_le hhead hfront hframed
    rw [List.length_append] at hsize hlt
    simp only [readVarInt_word 0 hframe (by omega) (List.drop_zero ..),
      bmod_of_small (by omega : (id ++ (length ++ text)).length ≤ 1024 * 1024), bind, Except.bind]
    rw [if_pos (by rw [List.length_append] at hlt ⊢; push_cast; omega)]
    rfl
  · obtain ⟨tail, htail⟩ := List.prefix_of_prefix_length_le hfront hhead (by omega)
    have hne : tail ≠ [] := by
      rintro rfl
      rw [List.append_nil] at htail
      exact hframed (htail ▸ Nat.le_refl _)
    simp only [readVarInt_incomplete hframe htail.symm hne]
    rfl

/-- The whole answer reports its protocol. -/
theorem readStatus_whole (h : StatusResponse response protocol)
    (hsize : response.length ≤ 1024 * 1024) : readStatus response = .ok (some protocol) := by
  obtain ⟨frame, id, length, text, rfl, hframe, hid, hlength, entries, version, hparse, hversion,
    hprotocol⟩ := h.framed
  simp only [List.length_append] at hsize
  have hreported : reported text = .ok protocol := by
    obtain ⟨hlow, hhigh⟩ := h.protocol
    simp only [reported, hparse, protocolField, hversion, hprotocol, bind, Except.bind]
    rw [if_pos ⟨rfl, hlow, hhigh⟩]
    rfl
  have hpacket := readVarInt_word 0 hframe (by simp; omega)
    (List.drop_zero (l := frame ++ (id ++ (length ++ text))))
  have hnumber := readVarInt_word frame.length hid (by omega)
    (@List.drop_left _ frame (id ++ (length ++ text)))
  have hcount : (frame ++ (id ++ (length ++ text))).drop (frame.length + id.length) =
      length ++ text := by
    rw [← List.append_assoc, ← List.length_append, List.drop_left]
  have htext : (frame ++ (id ++ (length ++ text))).drop (frame.length + id.length + length.length) =
      text := by
    rw [← List.drop_drop, hcount, List.drop_left]
  have hread := readVarInt_word (frame.length + id.length) hlength (by omega) hcount
  rw [bmod_of_small (by simp; omega), List.length_append, List.length_append] at hpacket
  rw [bmod_of_small (by omega)] at hnumber hread
  rw [readStatus, if_neg (by simp; omega)]
  simp only [hpacket, bind, Except.bind, hnumber, List.length_append]
  rw [if_neg (by push_cast; omega)]
  simp only [Nat.cast_zero, hread]
  rw [if_neg (by push_cast; omega), htext, Int.toNat_natCast, List.take_length, hreported]
  rfl

/-! ### Its arrival -/

/-- The promise keeps its first outcome. -/
theorem step_of_finished {s : Ping} (h : s.finished = true) (event : Event) :
    (s.step event).finished = true ∧ (s.step event).settled = s.settled := by
  cases event with
  | data chunk =>
      simp only [Ping.step, Ping.data]
      cases readStatus (s.buffer ++ chunk) with
      | error failure => simp [Ping.finish, h]
      | ok found => cases found <;> simp [Ping.finish, h]
  | timeout => simp [Ping.step, Ping.finish, h]
  | error text => simp [Ping.step, Ping.finish, h]
  | ended => simp [Ping.step, Ping.finish, h]

theorem run_of_finished {s : Ping} (h : s.finished = true) (events : List Event) :
    (s.run events).finished = true ∧ (s.run events).settled = s.settled := by
  induction events generalizing s with
  | nil => exact ⟨h, rfl⟩
  | cons event events ih =>
      obtain ⟨hfinished, hsettled⟩ := step_of_finished h event
      obtain ⟨hrun, hrest⟩ := ih hfinished
      exact ⟨hrun, hrest.trans hsettled⟩

/-- Until the answer is whole the socket waits; then it resolves. -/
theorem run_data (h : StatusResponse response protocol) (hsize : response.length ≤ 1024 * 1024)
    (chunks : List (List UInt8)) (front : List UInt8) (hfront : front ++ chunks.flatten = response)
    (hmore : chunks.flatten ≠ []) :
    (Ping.run ⟨front, false, []⟩ (chunks.map .data)).finished = true ∧
      (Ping.run ⟨front, false, []⟩ (chunks.map .data)).settled = [.ok protocol] := by
  induction chunks generalizing front with
  | nil => exact absurd rfl hmore
  | cons chunk chunks ih =>
      rw [List.flatten_cons, ← List.append_assoc] at hfront
      rw [List.map_cons, Ping.run, List.foldl_cons, Ping.step, Ping.data]
      by_cases hlast : chunks.flatten = []
      · -- the answer is whole with this chunk
        rw [hlast, List.append_nil] at hfront
        simp only [hfront, readStatus_whole h hsize]
        exact run_of_finished rfl _
      · simp only [readStatus_part h hsize hfront.symm hlast]
        exact ih _ hfront hlast

/-- Numbers are read back whatever follows them, a part of one is no number, and an answer of at
most 1 MiB resolves to its protocol once, however it is split and whatever comes later. -/
theorem status_ping :
    (∀ (v : ℤ) (suffix : List UInt8), readVarInt (varInt v ++ suffix) =
      .ok (some ⟨v.bmod (2 ^ 32), (varInt v).length⟩)) ∧
    (∀ (v : ℤ) (front more : List UInt8), varInt v = front ++ more → more ≠ [] →
      readVarInt front = .ok none) ∧
    ∀ (response : List UInt8) (protocol : ℤ), StatusResponse response protocol →
      response.length ≤ 1024 * 1024 → ∀ chunks : List (List UInt8), chunks.flatten = response →
        ∀ later : List Event,
          (Ping.run {} (chunks.map .data ++ later)).settled = [.ok protocol] := by
  refine ⟨readVarInt_varInt, fun v front more => readVarInt_incomplete (word_varInt v),
    fun response protocol h hsize chunks hchunks later => ?_⟩
  have hne : chunks.flatten ≠ [] := by
    intro hnil
    obtain ⟨frame, id, length, text, hresponse, hframe, -⟩ := h.framed
    rw [← hchunks, hnil] at hresponse
    exact hframe.spells.ne_nil (List.append_eq_nil_iff.mp hresponse.symm).1
  obtain ⟨hfinished, hsettled⟩ := run_data h hsize chunks [] hchunks hne
  rw [Ping.run, List.foldl_append]
  exact (run_of_finished hfinished later).2.trans hsettled

end AfkClient.StatusPing
