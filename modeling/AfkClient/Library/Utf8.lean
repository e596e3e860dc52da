import Mathlib.Data.List.Basic
import Mathlib.Data.Nat.Notation

/-! UTF-8. Bytes are natural numbers; text is decoded with replacement characters for
bytes that belong to no character, as the Encoding Standard does it. -/

namespace AfkClient.Utf8

def encodeChar (c : Char) : List ℕ :=
  let n := c.toNat
  if n < 0x80 then [n]
  else if n < 0x800 then [0xc0 + n / 0x40, 0x80 + n % 0x40]
  else if n < 0x10000 then [0xe0 + n / 0x1000, 0x80 + n / 0x40 % 0x40, 0x80 + n % 0x40]
  else [0xf0 + n / 0x40000, 0x80 + n / 0x1000 % 0x40, 0x80 + n / 0x40 % 0x40, 0x80 + n % 0x40]

def encode (text : List Char) : List ℕ := text.flatMap encodeChar

/-- Inside a character: the bytes it still needs, its value so far, and the range of the
next byte. -/
structure Partial where
  needed : ℕ
  value : ℕ
  lower : ℕ := 0x80
  upper : ℕ := 0xbf

/-- The first byte of a character: what it yields, and the character it begins. -/
def lead (b : ℕ) : List Char × Option Partial :=
  if b < 0x80 then ([Char.ofNat b], none)
  else if 0xc2 ≤ b ∧ b < 0xe0 then ([], some ⟨1, b - 0xc0, 0x80, 0xbf⟩)
  else if b = 0xe0 then ([], some ⟨2, 0, 0xa0, 0xbf⟩)
  else if b = 0xed then ([], some ⟨2, 0xd, 0x80, 0x9f⟩)
  else if 0xe0 ≤ b ∧ b < 0xf0 then ([], some ⟨2, b - 0xe0, 0x80, 0xbf⟩)
  else if b = 0xf0 then ([], some ⟨3, 0, 0x90, 0xbf⟩)
  else if b = 0xf4 then ([], some ⟨3, 4, 0x80, 0x8f⟩)
  else if 0xf0 ≤ b ∧ b < 0xf4 then ([], some ⟨3, b - 0xf0, 0x80, 0xbf⟩)
  else (['\ufffd'], none)

/-- Decodes what follows the begin of a character. -/
def decodeFrom : Option Partial → List ℕ → List Char
  | none, [] => []
  | some _, [] => ['\ufffd']
  | none, b :: rest => (lead b).1 ++ decodeFrom (lead b).2 rest
  | some p, b :: rest =>
      if b < p.lower ∨ p.upper < b then '\ufffd' :: ((lead b).1 ++ decodeFrom (lead b).2 rest)
      else
        let value := p.value * 0x40 + (b - 0x80)
        if p.needed = 1 then Char.ofNat value :: decodeFrom none rest
        else decodeFrom (some { needed := p.needed - 1, value := value }) rest

def decode (bytes : List ℕ) : List Char := decodeFrom none bytes

/-! ### Whole characters -/

theorem decodeFrom_more {p : Partial} {b : ℕ} {rest : List ℕ} (h : p.lower ≤ b ∧ b ≤ p.upper)
    (hneeded : p.needed ≠ 1) : decodeFrom (some p) (b :: rest) =
      decodeFrom (some ⟨p.needed - 1, p.value * 0x40 + (b - 0x80), 0x80, 0xbf⟩) rest := by
  rw [decodeFrom, if_neg (by omega), if_neg hneeded]

theorem decodeFrom_last {p : Partial} {b : ℕ} {rest : List ℕ} (h : p.lower ≤ b ∧ b ≤ p.upper)
    (hneeded : p.needed = 1) : decodeFrom (some p) (b :: rest) =
      Char.ofNat (p.value * 0x40 + (b - 0x80)) :: decodeFrom none rest := by
  rw [decodeFrom, if_neg (by omega), if_pos hneeded]

theorem decodeFrom_begin {b : ℕ} {p : Partial} {rest : List ℕ} (h : lead b = ([], some p)) :
    decodeFrom none (b :: rest) = decodeFrom (some p) rest := by
  rw [decodeFrom, h, List.nil_append]

/-- Three bytes, of which the first says what the second may be. -/
theorem lead_three {m : ℕ} (hm : m < 0x10) : ∃ p, lead (0xe0 + m) = ([], some p) ∧
    p.needed = 2 ∧ p.value = m ∧ (m = 0 → p.lower ≤ 0xa0) ∧ (m ≠ 0 → p.lower = 0x80) ∧
      (m = 0xd → 0x9f ≤ p.upper) ∧ (m ≠ 0xd → p.upper = 0xbf) := by
  unfold lead
  rw [if_neg (by omega), if_neg (by omega)]
  by_cases h₀ : m = 0
  · subst h₀
    exact ⟨⟨2, 0, 0xa0, 0xbf⟩, by simp, by simp⟩
  by_cases hd : m = 0xd
  · subst hd
    exact ⟨⟨2, 0xd, 0x80, 0x9f⟩, by simp, by simp⟩
  rw [if_neg (by omega), if_neg (by omega), if_pos (by omega)]
  refine ⟨_, rfl, ?_⟩
  dsimp only
  omega

/-- Four bytes, of which the first says what the second may be. -/
theorem lead_four {m : ℕ} (hm : m < 5) : ∃ p, lead (0xf0 + m) = ([], some p) ∧
    p.needed = 3 ∧ p.value = m ∧ (m = 0 → p.lower ≤ 0x90) ∧ (m ≠ 0 → p.lower = 0x80) ∧
      (m = 4 → 0x8f ≤ p.upper) ∧ (m ≠ 4 → p.upper = 0xbf) := by
  unfold lead
  rw [if_neg (by omega), if_neg (by omega), if_neg (by omega), if_neg (by omega), if_neg (by omega)]
  by_cases h₀ : m = 0
  · subst h₀
    exact ⟨⟨3, 0, 0x90, 0xbf⟩, by simp, by simp⟩
  by_cases h₄ : m = 4
  · subst h₄
    exact ⟨⟨3, 4, 0x80, 0x8f⟩, by simp, by simp⟩
  rw [if_neg (by omega), if_neg (by omega), if_pos (by omega)]
  refine ⟨_, rfl, ?_⟩
  dsimp only
  omega

theorem decode_char (c : Char) (rest : List ℕ) :
    decodeFrom none (encodeChar c ++ rest) = c :: decodeFrom none rest := by
  have hvalid : c.toNat < 0xd800 ∨ 0xdfff < c.toNat ∧ c.toNat < 0x110000 := c.valid
  have hchar {n : ℕ} (hn : n = c.toNat) : Char.ofNat n = c := by
    rw [hn, Char.ofNat_toNat]
  unfold encodeChar
  generalize c.toNat = n at hvalid hchar
  dsimp only
  split_ifs with h₁ h₂ h₃
  · have hlead : lead n = ([Char.ofNat n], none) := by rw [lead, if_pos h₁]
    rw [List.singleton_append, decodeFrom, hlead, hchar rfl]
    rfl
  · have hlead : lead (0xc0 + n / 0x40) = ([], some ⟨1, n / 0x40, 0x80, 0xbf⟩) := by
      rw [lead, if_neg (by omega), if_pos (by omega), Nat.add_sub_cancel_left]
    simp only [List.cons_append, List.nil_append]
    rw [decodeFrom_begin hlead, decodeFrom_last (by dsimp only; omega) rfl, hchar]
    dsimp only
    omega
  · obtain ⟨p, hlead, hneeded, hvalue, h₀, h₀', hd, hd'⟩ := lead_three (m := n / 0x1000) (by omega)
    simp only [List.cons_append, List.nil_append]
    rw [decodeFrom_begin hlead, decodeFrom_more (by omega) (by omega),
      decodeFrom_last (by dsimp only; omega) (by rw [hneeded]), hchar]
    dsimp only
    omega
  · obtain ⟨p, hlead, hneeded, hvalue, h₀, h₀', h₄, h₄'⟩ := lead_four (m := n / 0x40000) (by omega)
    simp only [List.cons_append, List.nil_append]
    rw [decodeFrom_begin hlead, decodeFrom_more (by omega) (by omega),
      decodeFrom_more (by dsimp only; omega) (by dsimp only; omega),
      decodeFrom_last (by dsimp only; omega) (by simp [hneeded]), hchar]
    dsimp only
    omega

/-- Whole characters are read before what follows them. -/
theorem decode_encode_append (text : List Char) (rest : List ℕ) :
    decode (encode text ++ rest) = text ++ decode rest := by
  induction text with
  | nil => rfl
  | cons c text ih =>
      rw [encode, List.flatMap_cons, List.append_assoc]
      exact (decode_char c _).trans (congrArg (c :: ·) ih)

theorem decode_encode (text : List Char) : decode (encode text) = text := by
  have h := decode_encode_append text []
  rwa [List.append_nil, show decode [] = [] from rfl, List.append_nil] at h

theorem encode_append (a b : List Char) : encode (a ++ b) = encode a ++ encode b :=
  List.flatMap_append

/-- Text whose bytes come first comes first. -/
theorem prefix_of_encode_prefix {a b : List Char} (h : encode a <+: encode b) : a <+: b := by
  obtain ⟨rest, hrest⟩ := h
  refine ⟨decode rest, ?_⟩
  rw [← decode_encode_append, hrest, decode_encode]

theorem le_of_mem_encodeChar {c : Char} (hc : 0x80 ≤ c.toNat) {b : ℕ} (hb : b ∈ encodeChar c) :
    0x80 ≤ b := by
  unfold encodeChar at hb
  dsimp only at hb
  rw [if_neg (by omega)] at hb
  split_ifs at hb
  all_goals
    simp only [List.mem_cons, List.not_mem_nil, or_false] at hb
    omega

/-- Bytes below 128 stand for themselves only. -/
theorem count_encode (text : List Char) {c : Char} (hc : c.toNat < 0x80) :
    (encode text).count c.toNat = text.count c := by
  induction text with
  | nil => rfl
  | cons d text ih =>
      have hchar : (encodeChar d).count c.toNat = if d == c then 1 else 0 := by
        by_cases hd : d.toNat < 0x80
        · have hsame : d.toNat = c.toNat ↔ d = c := Char.toNat_inj
          rw [encodeChar, if_pos hd, List.count_singleton]
          simp [hsame]
        · have hne : d ≠ c := by
            rintro rfl
            exact hd hc
          rw [if_neg (by simpa using hne), List.count_eq_zero]
          intro hmem
          have := le_of_mem_encodeChar (by omega) hmem
          omega
      rw [encode, List.flatMap_cons, List.count_append, List.count_cons, ← encode, ih, hchar,
        Nat.add_comm]

end AfkClient.Utf8
