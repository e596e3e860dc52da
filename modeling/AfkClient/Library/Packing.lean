import Mathlib.Data.Nat.Digits.Defs
import Mathlib.Data.List.GetD

/-! Numbers of a few bits packed into words of 32 bits. The first number of a word lies in its
lowest bits, and no number crosses a word. A word is written as four bytes, the lowest first. -/

namespace AfkClient.Packing

/-- How many numbers of so many bits a word holds. -/
def perWord (bits : ℕ) : ℕ := 32 / bits

/-- The word of the fields. -/
def word (bits : ℕ) (fields : List ℕ) : ℕ := Nat.ofDigits (2 ^ bits) fields

/-- The words of the fields, each of them full except the last one. -/
def words (bits : ℕ) (fields : List ℕ) : List ℕ :=
  (List.range ((fields.length + perWord bits - 1) / perWord bits)).map fun i =>
    word bits ((fields.drop (i * perWord bits)).take (perWord bits))

def littleEndian (n : ℕ) : List UInt8 :=
  [UInt8.ofNat n, UInt8.ofNat (n / 2 ^ 8), UInt8.ofNat (n / 2 ^ 16), UInt8.ofNat (n / 2 ^ 24)]

/-- The fields, as bytes. -/
def pack (bits : ℕ) (fields : List ℕ) : List UInt8 := (words bits fields).flatMap littleEndian

variable {bits : ℕ} {fields : List ℕ}

/-! ### One word -/

/-- A field is what lies in its bits. -/
theorem word_field (hfields : ∀ f ∈ fields, f < 2 ^ bits) (i : ℕ) :
    word bits fields / 2 ^ (i * bits) % 2 ^ bits = fields.getD i 0 := by
  rw [Nat.mul_comm, Nat.pow_mul, word,
    Nat.ofDigits_div_pow_eq_ofDigits_drop i (Nat.two_pow_pos bits) fields hfields]
  cases hdrop : fields.drop i with
  | nil =>
      have hlen : fields.length ≤ i := by simpa using hdrop
      rw [Nat.ofDigits_nil, Nat.zero_mod, List.getD_eq_default _ _ hlen]
  | cons f rest =>
      have hi : i < fields.length := by
        by_contra hle
        rw [List.drop_eq_nil_of_le (by omega)] at hdrop
        cases hdrop
      rw [List.drop_eq_getElem_cons hi] at hdrop
      obtain ⟨rfl, -⟩ := List.cons.inj hdrop
      rw [Nat.ofDigits_cons, Nat.add_mul_mod_self_left,
        Nat.mod_eq_of_lt (hfields _ (List.getElem_mem hi)), List.getD_eq_getElem _ _ hi]

theorem word_lt (hbits : 0 < bits) (hfields : ∀ f ∈ fields, f < 2 ^ bits)
    (hlen : fields.length ≤ perWord bits) : word bits fields < 2 ^ 32 := by
  have hbase : 1 < 2 ^ bits := Nat.one_lt_two_pow (by omega)
  have hfit : bits * fields.length ≤ 32 :=
    (Nat.mul_le_mul_left bits hlen).trans (Nat.mul_div_le 32 bits)
  calc word bits fields < (2 ^ bits) ^ fields.length :=
    Nat.ofDigits_lt_base_pow_length hbase hfields
    _ = 2 ^ (bits * fields.length) := (Nat.pow_mul _ _ _).symm
    _ ≤ 2 ^ 32 := Nat.pow_le_pow_right Nat.zero_lt_two hfit

/-! ### Bytes of words -/

theorem length_flatMap_littleEndian (ws : List ℕ) :
    (ws.flatMap littleEndian).length = ws.length * 4 := by
  induction ws with
  | nil => rfl
  | cons w ws ih =>
      rw [List.flatMap_cons, List.length_append, ih, List.length_cons]
      simp only [littleEndian, List.length_cons, List.length_nil]
      omega

/-- Word `i` begins at byte `i * 4`. -/
theorem drop_flatMap_littleEndian (ws : List ℕ) (i : ℕ) :
    (ws.flatMap littleEndian).drop (i * 4) = (ws.drop i).flatMap littleEndian := by
  induction ws generalizing i with
  | nil => simp
  | cons w ws ih =>
      cases i with
      | zero => simp
      | succ i =>
          rw [List.flatMap_cons, List.drop_succ_cons, ← ih i,
            show (i + 1) * 4 = (littleEndian w).length + i * 4 by
              simp only [littleEndian, List.length_cons, List.length_nil]
              omega,
            List.drop_append]
          simp

theorem length_words : (words bits fields).length =
    (fields.length + perWord bits - 1) / perWord bits := by
  rw [words, List.length_map, List.length_range]

/-- Field `i` lies in word `i / perWord bits`. -/
theorem pack_field (hbits : 0 < bits) (hper : 0 < perWord bits)
    (hfields : ∀ f ∈ fields, f < 2 ^ bits) {i : ℕ} (hi : i < fields.length) :
    ∃ w more, (pack bits fields).drop (i / perWord bits * 4) = littleEndian w ++ more ∧
      w < 2 ^ 32 ∧ w / 2 ^ (i % perWord bits * bits) % 2 ^ bits = fields[i] := by
  have hlt : i / perWord bits < (words bits fields).length := by
    rw [length_words, Nat.lt_iff_add_one_le, ← Nat.add_div_right i hper]
    exact Nat.div_le_div_right (by omega)
  have hword : (words bits fields)[i / perWord bits] =
      word bits ((fields.drop (i / perWord bits * perWord bits)).take (perWord bits)) := by
    simp only [words, List.getElem_map, List.getElem_range]
  have hpart : ∀ f ∈ (fields.drop (i / perWord bits * perWord bits)).take (perWord bits),
      f < 2 ^ bits := fun f hf => hfields f (List.mem_of_mem_drop (List.mem_of_mem_take hf))
  refine ⟨_, ((words bits fields).drop (i / perWord bits + 1)).flatMap littleEndian, ?_,
    word_lt hbits hpart (List.length_take_le _ _), ?_⟩
  · rw [pack, drop_flatMap_littleEndian, List.drop_eq_getElem_cons hlt, List.flatMap_cons, hword]
  · have hmod : i % perWord bits < perWord bits := Nat.mod_lt _ hper
    have hsum : i / perWord bits * perWord bits + i % perWord bits = i := Nat.div_add_mod' _ _
    rw [word_field hpart, List.getD_eq_getElem?_getD, List.getElem?_take_of_lt hmod,
      List.getElem?_drop, hsum, List.getElem?_eq_getElem hi]
    rfl

theorem length_pack : (pack bits fields).length =
    (fields.length + perWord bits - 1) / perWord bits * 4 := by
  rw [pack, length_flatMap_littleEndian, length_words]

end AfkClient.Packing
