import Mathlib.Data.Nat.Notation
import Mathlib.Tactic.Ring

/-! Numbers in groups of seven bits, the lowest group first. Every byte but the last has
its high bit set. Spellings need not be the shortest ones. -/

namespace AfkClient.Varint

/-- The bytes spell the number. -/
inductive Spells : List UInt8 → ℕ → Prop
  | last {b : UInt8} : b.toNat < 128 → Spells [b] b.toNat
  | more {b : UInt8} {bytes : List UInt8} {n : ℕ} :
      128 ≤ b.toNat → Spells bytes n → Spells (b :: bytes) (b.toNat - 128 + 128 * n)

/-- The shortest spelling. -/
def encode (n : ℕ) : List UInt8 :=
  if n < 128 then [UInt8.ofNat n] else UInt8.ofNat (n % 128 + 128) :: encode (n / 128)
termination_by n

/-- Signed numbers as unsigned ones: the sign goes to the lowest bit. -/
def zigzag (s : ℤ) : ℕ := if 0 ≤ s then (2 * s).toNat else (-2 * s - 1).toNat

inductive Fault
  /-- The bytes end inside the number. -/
  | incomplete
  /-- The number has more bits than fit. -/
  | invalid
  deriving DecidableEq

/-- The number of at most `bits` bits at the front, and what follows it. -/
def read (bits : ℕ) : List UInt8 → Except Fault (ℕ × List UInt8)
  | [] => .error .incomplete
  | b :: rest =>
      if bits ≤ 7 ∧ 2 ^ bits ≤ b.toNat then .error .invalid
      else if b.toNat < 128 then .ok (b.toNat, rest)
      else (read (bits - 7) rest).map fun (n, rest) => (b.toNat - 128 + 128 * n, rest)

/-! ### Bits of a byte -/

theorem low_bits (b : UInt8) : (b &&& 0x7f).toNat = b.toNat % 128 := by
  rw [UInt8.toNat_and]
  exact Nat.and_two_pow_sub_one_eq_mod b.toNat 7

theorem high_bit (b : UInt8) : b &&& 0x80 = 0 ↔ b.toNat < 128 := by
  have h : ∀ n : Fin 256, n.val &&& 0x80 = 0 ↔ n.val < 128 := by decide +kernel
  rw [← UInt8.toNat_inj, UInt8.toNat_and]
  exact h ⟨b.toNat, b.toNat_lt⟩

theorem high_nibble (b : UInt8) : b &&& 0xf0 = 0 ↔ b.toNat < 16 := by
  have h : ∀ n : Fin 256, n.val &&& 0xf0 = 0 ↔ n.val < 16 := by decide +kernel
  rw [← UInt8.toNat_inj, UInt8.toNat_and]
  exact h ⟨b.toNat, b.toNat_lt⟩

/-! ### Spellings -/

theorem Spells.ne_nil {bytes : List UInt8} {n : ℕ} (h : Spells bytes n) : bytes ≠ [] := by
  cases h <;> simp

theorem spells_encode (n : ℕ) : Spells (encode n) n := by
  induction n using Nat.strongRecOn with
  | ind n ih =>
      rw [encode]
      by_cases hn : n < 128
      · rw [if_pos hn]
        have hbyte : (UInt8.ofNat n).toNat = n := by simp; omega
        simpa only [hbyte] using Spells.last (b := UInt8.ofNat n) (by omega)
      · rw [if_neg hn]
        have hbyte : (UInt8.ofNat (n % 128 + 128)).toNat = n % 128 + 128 := by simp; omega
        have hmore := Spells.more (b := UInt8.ofNat (n % 128 + 128)) (by omega)
          (ih (n / 128) (by omega))
        rwa [hbyte, show n % 128 + 128 - 128 + 128 * (n / 128) = n by omega] at hmore

/-- `k` groups are enough for a number of `7 * k` bits. -/
theorem length_encode_le {k n : ℕ} (h : n < 2 ^ (7 * (k + 1))) : (encode n).length ≤ k + 1 := by
  induction k generalizing n with
  | zero =>
      rw [encode, if_pos (by omega)]
      simp
  | succ k ih =>
      rw [encode]
      by_cases hn : n < 128
      · simp [hn]
      · have hpow : 2 ^ (7 * (k + 1 + 1)) = 128 * 2 ^ (7 * (k + 1)) := by ring
        have := ih (n := n / 128) (by omega)
        simp only [hn, if_false, List.length_cons]
        omega

/-! ### Signs -/

theorem zigzag_lt {s : ℤ} {bits : ℕ} (h : -2 ^ bits ≤ s ∧ s < 2 ^ bits) :
    zigzag s < 2 ^ (bits + 1) := by
  have hpow : (2 : ℕ) ^ (bits + 1) = 2 * 2 ^ bits := by ring
  have hcast : ((2 ^ bits : ℕ) : ℤ) = 2 ^ bits := by simp
  rw [zigzag, hpow]
  split <;> omega

theorem toInt_eq (s : Int32) : s.toInt =
    if s.toUInt32.toNat < 2 ^ 31 then (s.toUInt32.toNat : ℤ) else s.toUInt32.toNat - 2 ^ 32 := by
  have h : s.toInt = if 2 * s.toUInt32.toNat < 2 ^ 32 then (s.toUInt32.toNat : ℤ)
      else s.toUInt32.toNat - (2 ^ 32 : ℕ) := BitVec.toInt_eq_toNat_cond s.toBitVec
  rw [h]
  split <;> split <;> omega

theorem zigzag_toInt_lt (s : Int32) : zigzag s.toInt < 2 ^ 32 :=
  @zigzag_lt s.toInt 31 ⟨s.le_toInt, s.toInt_lt⟩

/-- The sign comes back from the lowest bit. -/
theorem unzigzag (s : Int32) (n : UInt32) (hn : n.toNat = zigzag s.toInt) :
    ((n >>> 1) ^^^ (0 - (n &&& 1))).toInt32 = s := by
  have hlow : (n &&& 1).toNat = n.toNat % 2 := by
    rw [UInt32.toNat_and]
    exact Nat.and_one_is_mod _
  have hhalf : (n >>> 1).toNat = n.toNat / 2 := by
    rw [UInt32.toNat_shiftRight]
    exact Nat.shiftRight_eq_div_pow _ 1
  have hlt := s.toUInt32.toNat_lt
  rw [toInt_eq s, zigzag] at hn
  suffices (n >>> 1) ^^^ (0 - (n &&& 1)) = s.toUInt32 by rw [this, Int32.toInt32_toUInt32]
  by_cases hsign : s.toUInt32.toNat < 2 ^ 31
  · rw [if_pos hsign, if_pos (by omega)] at hn
    have hzero : n &&& 1 = 0 := UInt32.toNat_inj.mp (by rw [hlow, UInt32.toNat_zero]; omega)
    rw [hzero, ← UInt32.toNat_inj, UInt32.sub_self, UInt32.xor_zero, hhalf]
    omega
  · rw [if_neg hsign, if_neg (by omega)] at hn
    have hone : n &&& 1 = 1 := UInt32.toNat_inj.mp (by rw [hlow, UInt32.toNat_one]; omega)
    have hnot : ∀ h : UInt32, (~~~h).toNat = 2 ^ 32 - 1 - h.toNat := UInt32.toNat_not
    rw [hone, show (0 - 1 : UInt32) = -1 from rfl, UInt32.xor_neg_one, ← UInt32.toNat_inj, hnot,
      hhalf]
    omega

/-! ### Reading -/

/-- A number that was read is spelled by the bytes before the rest. -/
theorem read_sound {bits : ℕ} (hbits : 0 < bits) {bytes rest : List UInt8} {n : ℕ}
    (h : read bits bytes = .ok (n, rest)) :
    ∃ word, bytes = word ++ rest ∧ Spells word n ∧ n < 2 ^ bits ∧ 7 * word.length < bits + 7 := by
  induction bytes generalizing bits n with
  | nil => simp [read] at h
  | cons b bytes ih =>
      rw [read] at h
      split at h
      · cases h
      rename_i hfits
      split at h
      · rename_i hlast
        cases h
        refine ⟨[b], rfl, .last hlast, ?_, ?_⟩
        · by_cases hfew : bits ≤ 7
          · omega
          · exact hlast.trans_le (Nat.pow_le_pow_right Nat.zero_lt_two (by omega : 7 ≤ bits))
        · rw [List.length_singleton]
          omega
      · rename_i hmore
        cases hread : read (bits - 7) bytes with
        | error fault => simp [hread, Except.map] at h
        | ok result =>
            obtain ⟨m, rest'⟩ := result
            obtain ⟨rfl, rfl⟩ : b.toNat - 128 + 128 * m = n ∧ rest' = rest := by
              simpa [hread, Except.map] using h
            have hmany : 7 < bits := by
              by_contra hle
              have : 2 ^ bits ≤ 2 ^ 7 := Nat.pow_le_pow_right Nat.zero_lt_two (by omega)
              omega
            obtain ⟨word, rfl, hword, hlt, hlen⟩ := ih (by omega) hread
            refine ⟨b :: word, rfl, .more (by omega) hword, ?_, ?_⟩
            · have hpow : 2 ^ bits = 128 * 2 ^ (bits - 7) := by
                rw [show bits = 7 + (bits - 7) by omega, pow_add]
                simp
              have := b.toNat_lt
              omega
            · rw [List.length_cons]
              omega

/-- A spelled number is read, whatever follows it. -/
theorem read_complete {bits : ℕ} {word : List UInt8} {n : ℕ} (h : Spells word n)
    (hlt : n < 2 ^ bits) (hlen : 7 * word.length < bits + 7) (rest : List UInt8) :
    read bits (word ++ rest) = .ok (n, rest) := by
  induction h generalizing bits with
  | @last b hb =>
      rw [List.singleton_append, read, if_neg (by omega), if_pos hb]
  | @more b word n hb hword ih =>
      have hne := List.length_pos_iff.mpr hword.ne_nil
      rw [List.length_cons] at hlen
      have hpow : 2 ^ bits = 128 * 2 ^ (bits - 7) := by
        rw [show bits = 7 + (bits - 7) by omega, pow_add]
        simp
      rw [List.cons_append, read, if_neg (by omega), if_neg (by omega), ih (by omega) (by omega)]
      rfl

theorem read_encode {k n : ℕ} {bits : ℕ} (hn : n < 2 ^ bits) (hk : bits ≤ 7 * (k + 1))
    (hbits : 7 * k < bits) (rest : List UInt8) :
    read bits (encode n ++ rest) = .ok (n, rest) := by
  have hlen := length_encode_le (hn.trans_le (Nat.pow_le_pow_right (by decide) hk))
  exact read_complete (spells_encode n) hn (by omega) rest

end AfkClient.Varint
