import AfkClient.Library.Packing
import AfkClient.Library.Varint
import AfkClient.Model.AutoButton

/-! The decoder of subchunks against their encoding: layers of packed palette indices, least
significant bits first, behind which stand the runtime ids of the palette. -/

namespace AfkClient.AutoButton

open Reader

variable (payload : List UInt8)

/-! ### Numbers -/

theorem reads_byte (b : UInt8) : Reads payload (byte payload) [b] b := by
  intro offset rest h
  have hget : payload[offset]? = some b := by
    have hhead := congrArg List.head? h
    rwa [List.head?_drop] at hhead
  rw [byte, hget]
  rfl

/-- Seven more bits above those that were read. -/
theorem or_group {n : UInt32} {b : UInt8} {shift : ℕ} (hshift : shift < 32)
    (hn : n.toNat < 2 ^ shift) (hb : b.toNat % 128 * 2 ^ shift < 2 ^ 32) :
    (n ||| ((b &&& 127).toUInt32 <<< UInt32.ofNat shift)).toNat =
      n.toNat + b.toNat % 128 * 2 ^ shift := by
  have hgroup : (b &&& 127).toUInt32.toNat = b.toNat % 128 := Varint.low_bits b
  have hofNat : (UInt32.ofNat shift).toNat = shift :=
    UInt32.toNat_ofNat_of_lt' (hshift.trans (by decide))
  rw [UInt32.toNat_or, UInt32.toNat_shiftLeft, hgroup, hofNat, Nat.mod_eq_of_lt hshift,
    Nat.shiftLeft_eq, Nat.mod_eq_of_lt hb, Nat.or_comm, ← Nat.shiftLeft_eq,
    ← Nat.shiftLeft_add_eq_or_of_lt hn, Nat.add_comm]

theorem shift_lt {index value : ℕ} (hindex : index < 5) (h : value < 2 ^ (32 - 7 * index)) :
    value * 2 ^ (7 * index) < 2 ^ 32 := by
  have hpow : 2 ^ (32 - 7 * index) * 2 ^ (7 * index) = 2 ^ 32 := by
    rw [← Nat.pow_add]
    congr 1
    omega
  rw [← hpow]
  exact Nat.mul_lt_mul_of_pos_right h (Nat.two_pow_pos _)

/-- The groups from one on are added to those before it. -/
theorem reads_uintFrom {word : List UInt8} {value : ℕ} (h : Varint.Spells word value) {index : ℕ}
    (hindex : index < 5) (hvalue : value < 2 ^ (32 - 7 * index))
    (hlen : word.length ≤ 5 - index) {n : UInt32} (hn : n.toNat < 2 ^ (7 * index)) :
    Reads payload (uintFrom payload (7 * index) n) word
      (UInt32.ofNat (n.toNat + value * 2 ^ (7 * index))) := by
  have hfifteen : (15 : UInt8).toNat = 15 := rfl
  induction h generalizing index n with
  | @last b hb =>
      intro offset rest hdrop
      have hover : ¬(7 * index = 28 ∧ 15 < b) := by
        rintro ⟨hshift, hlt⟩
        obtain rfl : index = 4 := by omega
        have := UInt8.lt_iff_toNat_lt.mp hlt
        omega
      have hlow := shift_lt hindex hvalue
      rw [uintFrom, if_pos (by omega), bind_run (reads_byte payload b offset rest hdrop),
        if_neg hover, if_pos ((Varint.high_bit b).mpr hb), ← Nat.mod_eq_of_lt hb,
        ← or_group (by omega) hn (by rwa [Nat.mod_eq_of_lt hb]), UInt32.ofNat_toNat]
      rfl
  | @more b word value hb hword ih =>
      intro offset rest hdrop
      have hne := List.length_pos_iff.mpr hword.ne_nil
      rw [List.length_cons] at hlen
      have hbyte := b.toNat_lt
      have hgroup : b.toNat - 128 = b.toNat % 128 := by omega
      have hbits : 2 ^ (32 - 7 * index) = 128 * 2 ^ (32 - 7 * (index + 1)) := by
        rw [show 32 - 7 * index = 7 + (32 - 7 * (index + 1)) by omega, Nat.pow_add]
      have hshift : 2 ^ (7 * (index + 1)) = 128 * 2 ^ (7 * index) := by
        rw [Nat.mul_succ, Nat.pow_add, Nat.mul_comm]
      have hlow : b.toNat % 128 * 2 ^ (7 * index) < 2 ^ 32 := shift_lt hindex (by omega)
      have hnext := or_group (by omega) hn hlow
      have hsum : n.toNat + (b.toNat - 128 + 128 * value) * 2 ^ (7 * index) =
          n.toNat + b.toNat % 128 * 2 ^ (7 * index) + value * 2 ^ (7 * (index + 1)) := by
        rw [hgroup, hshift]
        ring
      have hsmall : n.toNat + b.toNat % 128 * 2 ^ (7 * index) < 2 ^ (7 * (index + 1)) := by
        have hle : b.toNat % 128 * 2 ^ (7 * index) ≤ 127 * 2 ^ (7 * index) :=
          Nat.mul_le_mul_right _ (by omega)
        omega
      have hrest := ih (show index + 1 < 5 by omega) (by omega) (by omega) (hnext ▸ hsmall)
        (offset + 1) rest (drop_next (show payload.drop offset = [b] ++ (word ++ rest) from hdrop))
      rw [hnext, Nat.mul_succ] at hrest
      rw [uintFrom, if_pos (by omega), bind_run (reads_byte payload b offset (word ++ rest) hdrop),
        if_neg (by omega), if_neg (mt (Varint.high_bit b).mp (by omega))]
      have hend : offset + (b :: word).length = offset + 1 + word.length := by
        rw [List.length_cons]
        omega
      rw [hsum, Nat.mul_succ, hend]
      exact hrest

theorem reads_uint {word : List UInt8} {value : ℕ} (h : Varint.Spells word value)
    (hvalue : value < 2 ^ 32) (hlen : word.length ≤ 5) :
    Reads payload (uint payload) word (UInt32.ofNat value) := by
  have h₀ := @reads_uintFrom payload word value h 0 (by decide) hvalue hlen 0 (by decide)
  rwa [UInt32.toNat_zero, Nat.zero_add, Nat.mul_zero, Nat.pow_zero, Nat.mul_one] at h₀

/-- The bytes of a signed number. -/
def spell (s : Int32) : List UInt8 := Varint.encode (Varint.zigzag s.toInt)

theorem reads_signed (s : Int32) : Reads payload (signed payload) (spell s) s := by
  have hlt := Varint.zigzag_toInt_lt s
  have hlen := Varint.length_encode_le (k := 4) (hlt.trans (by decide))
  have hread := Reads.bind (f := fun n : UInt32 =>
      (pure ((n >>> 1) ^^^ (0 - (n &&& 1))).toInt32 : Reader String Int32))
    (reads_uint payload (Varint.spells_encode _) hlt hlen) reads_pure
  rwa [List.append_nil, Varint.unzigzag s _ (UInt32.toNat_ofNat_of_lt' hlt)] at hread

theorem reads_runtime (id : UInt32) : Reads payload (runtime payload) (spell id.toInt32) id := by
  have hread := Reads.bind (f := fun s : Int32 => (pure s.toUInt32 : Reader String UInt32))
    (reads_signed payload id.toInt32) reads_pure
  rwa [List.append_nil, UInt32.toUInt32_toInt32] at hread

/-! ### Blocks -/

/-- The word that begins at a byte. -/
theorem readUInt32LE_eq {position w : ℕ} {rest : List UInt8} (hw : w < 2 ^ 32)
    (h : payload.drop position = Packing.littleEndian w ++ rest) :
    (readUInt32LE payload position).toNat = w := by
  have hget (i : ℕ) (hi : i < 4) :
    payload.getD (position + i) 0 = (Packing.littleEndian w).getD i 0 := by
    rw [List.getD_eq_getElem?_getD, ← List.getElem?_drop, h, List.getElem?_append_left hi,
      List.getD_eq_getElem?_getD]
  have hbyte (n : ℕ) : (UInt8.ofNat n).toUInt32.toNat = n % 256 := by simp
  simp only [readUInt32LE, hget 0 (by decide), hget 1 (by decide), hget 2 (by decide),
    hget 3 (by decide), Packing.littleEndian, List.getD_cons_zero, List.getD_cons_succ,
    UInt32.toNat_or, UInt32.toNat_shiftLeft, hbyte]
  have h₁ : w % 256 ||| (w / 2 ^ 8 % 256) <<< 8 = w % 2 ^ 16 := by
    rw [Nat.or_comm, ← Nat.shiftLeft_add_eq_or_of_lt (by omega), Nat.shiftLeft_eq]
    omega
  have h₂ : w % 2 ^ 16 ||| (w / 2 ^ 16 % 256) <<< 16 = w % 2 ^ 24 := by
    rw [Nat.or_comm, ← Nat.shiftLeft_add_eq_or_of_lt (by omega), Nat.shiftLeft_eq]
    omega
  have h₃ : w % 2 ^ 24 ||| (w / 2 ^ 24 % 256) <<< 24 = w := by
    rw [Nat.or_comm, ← Nat.shiftLeft_add_eq_or_of_lt (by omega), Nat.shiftLeft_eq]
    omega
  have hsmall {n k : ℕ} (hk : k ≤ 24) : (n % 256) <<< k % 2 ^ 32 = (n % 256) <<< k := by
    apply Nat.mod_eq_of_lt
    rw [Nat.shiftLeft_eq]
    calc n % 256 * 2 ^ k ≤ n % 256 * 2 ^ 24 :=
      Nat.mul_le_mul_left _ (Nat.pow_le_pow_right Nat.zero_lt_two hk)
      _ < 2 ^ 32 := by omega
  rw [show UInt32.toNat 8 % 32 = 8 from rfl, show UInt32.toNat 16 % 32 = 16 from rfl,
    show UInt32.toNat 24 % 32 = 24 from rfl, hsmall (by decide), hsmall (by decide),
    hsmall (by decide), h₁, h₂, h₃]

/-- The index in a word. -/
theorem word_index {w : UInt32} {bits shift : ℕ} (hbits : bits ≤ 16) (hshift : shift < 32) :
    ((w >>> UInt32.ofNat shift) &&& ((1 <<< UInt32.ofNat bits) - 1)).toNat =
      w.toNat / 2 ^ shift % 2 ^ bits := by
  have hofNat {k : ℕ} (hk : k < 32) : (UInt32.ofNat k).toNat = k :=
    UInt32.toNat_ofNat_of_lt' (hk.trans (by decide))
  have hpow : 2 ^ bits < 2 ^ 32 := Nat.pow_lt_pow_right (by decide) (by omega)
  have hone : (1 <<< UInt32.ofNat bits : UInt32).toNat = 2 ^ bits := by
    rw [UInt32.toNat_shiftLeft, hofNat (by omega), Nat.mod_eq_of_lt (by omega : bits < 32),
      UInt32.toNat_one, Nat.one_shiftLeft, Nat.mod_eq_of_lt hpow]
  have hmask : ((1 <<< UInt32.ofNat bits : UInt32) - 1).toNat = 2 ^ bits - 1 := by
    rw [UInt32.toNat_sub_of_le _ _ (UInt32.le_iff_toNat_le.mpr ?_), hone, UInt32.toNat_one]
    rw [hone, UInt32.toNat_one]
    exact Nat.one_le_two_pow
  rw [UInt32.toNat_and, UInt32.toNat_shiftRight, hofNat hshift, Nat.mod_eq_of_lt hshift, hmask,
    Nat.and_two_pow_sub_one_eq_mod, Nat.shiftRight_eq_div_pow]

/-- The widths of an index. -/
def widths : List ℕ := [1, 2, 3, 4, 5, 6, 8, 16]

theorem width_fits : ∀ bits ∈ widths, 0 < bits ∧ bits ≤ 16 ∧ 0 < Packing.perWord bits ∧
    Packing.perWord bits * bits ≤ 32 := by
  decide

theorem blockAt_eq {bits start : ℕ} {index : List ℕ} {palette : List UInt32} {rest : List UInt8}
    (hbits : bits ∈ widths) (hindex : ∀ i ∈ index, i < 2 ^ bits)
    (hstart : payload.drop start = Packing.pack bits index ++ rest) {i : ℕ} (hi : i < index.length)
    {id : UInt32} (hid : palette[index[i]]? = some id) :
    blockAt payload start bits palette i = .ok id := by
  obtain ⟨hpos, hle, hper, hfit⟩ := width_fits bits hbits
  obtain ⟨w, more, hw, hlt, hfield⟩ := Packing.pack_field hpos hper hindex hi
  have hinside : i / Packing.perWord bits * 4 ≤ (Packing.pack bits index).length := by
    by_contra hbeyond
    rw [List.drop_eq_nil_of_le (by omega)] at hw
    cases hw
  have hdrop : payload.drop (start + i / (32 / bits) * 4) =
      Packing.littleEndian w ++ (more ++ rest) := by
    rw [← List.drop_drop, hstart, ← List.append_assoc, ← hw]
    exact List.drop_append_of_le_length hinside
  have hshift : i % (32 / bits) * bits < 32 := by
    have hmod : i % (32 / bits) < 32 / bits := Nat.mod_lt i hper
    exact (Nat.mul_lt_mul_of_pos_right hmod hpos).trans_le hfit
  simp only [blockAt]
  rw [word_index hle hshift, readUInt32LE_eq payload hlt hdrop]
  have hvalue : w / 2 ^ (i % (32 / bits) * bits) % 2 ^ bits = index[i] := hfield
  rw [hvalue, hid]

theorem blocks_eq {bits start : ℕ} {index : List ℕ} {palette ids : List UInt32} {rest : List UInt8}
    (hbits : bits ∈ widths) (hindex : ∀ i ∈ index, i < 2 ^ bits)
    (hstart : payload.drop start = Packing.pack bits index ++ rest)
    (hids : index.map (palette[·]?) = ids.map some) :
    (List.range ids.length).mapM (blockAt payload start bits palette) = .ok ids := by
  have hlen : index.length = ids.length := by
    simpa using congrArg List.length hids
  refine mapM_range fun i hi => ?_
  have hi' : i < index.length := hlen ▸ hi
  refine blockAt_eq payload hbits hindex hstart hi' ?_
  have hget := congrArg (·[i]?) hids
  simpa [hi, hi'] using hget

/-! ### Layers -/

/-- An encoding of a layer with these runtime ids: one id for all blocks, or an index into a
palette for each block. -/
inductive Storage (ids : List UInt32)
  | uniform (id : UInt32) (same : ids = List.replicate 4096 id)
  | packed (bits : ℕ) (palette : List UInt32) (index : List ℕ) (width : bits ∈ widths)
      (fits : palette.length ≤ 2 ^ bits) (named : index.map (palette[·]?) = ids.map some)

/-- The encoding with a palette of the ids and with a width that can index it. -/
def Storage.ofPalette {ids : List UInt32} (palette : List UInt32)
    (hpalette : ∀ id ∈ ids, id ∈ palette)
    (bits : ℕ) (width : bits ∈ widths) (fits : palette.length ≤ 2 ^ bits) : Storage ids :=
  .packed bits palette (ids.map (palette.idxOf ·)) width fits (by
    rw [List.map_map]
    exact List.map_congr_left fun id hid => List.getElem?_idxOf (hpalette id hid))

def Storage.bytes {ids : List UInt32} : Storage ids → List UInt8
  | .uniform id _ => [1] ++ (spell id.toInt32 ++ [])
  | .packed bits palette index _ _ _ =>
      [UInt8.ofNat (2 * bits + 1)] ++ (Packing.pack bits index ++
        (spell (Int32.ofNat palette.length) ++ palette.flatMap fun id => spell id.toInt32))

theorem words_pos : ∀ bits ∈ widths, 0 < (4096 + 32 / bits - 1) / (32 / bits) * 4 := by
  decide

theorem header_fits : ∀ bits ∈ widths, (UInt8.ofNat (2 * bits + 1) >>> 1).toNat = bits ∧
    UInt8.ofNat (2 * bits + 1) &&& 1 ≠ 0 ∧ bits ∈ [0, 1, 2, 3, 4, 5, 6, 8, 16] ∧ bits ≠ 0 := by
  decide

theorem reads_uniform (id : UInt32) : Reads payload (readStorage payload)
    ([1] ++ (spell id.toInt32 ++ [])) (List.replicate 4096 id) := by
  refine (reads_byte payload 1).bind ?_
  exact (reads_runtime payload id).bind reads_pure

theorem reads_packed {ids : List UInt32} (hids : ids.length = 4096) {bits : ℕ}
    {palette : List UInt32} {index : List ℕ} (hbits : bits ∈ widths)
    (hfits : palette.length ≤ 2 ^ bits) (hnamed : index.map (palette[·]?) = ids.map some) :
    Reads payload (readStorage payload) ([UInt8.ofNat (2 * bits + 1)] ++ (Packing.pack bits index ++
      (spell (Int32.ofNat palette.length) ++ palette.flatMap fun id => spell id.toInt32))) ids := by
  have hlen : index.length = 4096 := by
    have := congrArg List.length hnamed
    rw [List.length_map, List.length_map] at this
    omega
  have hindex : ∀ i ∈ index, i < palette.length := by
    intro i hi
    have hmem : palette[i]? ∈ ids.map some := hnamed ▸ List.mem_map_of_mem hi
    obtain ⟨id, -, hid⟩ := List.mem_map.mp hmem
    exact (List.getElem?_eq_some_iff.mp hid.symm).1
  have hmany : palette.length ≤ 65536 :=
    hfits.trans (Nat.pow_le_pow_right Nat.zero_lt_two (width_fits bits hbits).2.1)
  have hcount : (Int32.ofNat palette.length).toInt = palette.length :=
    Int32.toInt_ofNat_of_lt (by omega)
  have hsome : 0 < palette.length := by
    have h₀ : 0 < index.length := by omega
    exact Nat.zero_lt_of_lt (hindex _ (List.getElem_mem h₀))
  obtain ⟨hwidth, hodd, hlist, hpos⟩ := header_fits bits hbits
  refine (reads_byte payload _).bind ?_
  dsimp only
  rw [hwidth, if_neg (not_or.mpr ⟨hodd, not_not.mpr hlist⟩), if_neg hpos]
  intro offset rest h
  rw [List.append_assoc] at h
  have hsize : (4096 + 32 / bits - 1) / (32 / bits) * 4 = (Packing.pack bits index).length := by
    rw [Packing.length_pack, hlen]
    rfl
  have hblocks : (List.range 4096).mapM (blockAt payload offset bits palette) = .ok ids := by
    rw [← hids]
    exact blocks_eq payload hbits (fun i hi => (hindex i hi).trans_le hfits) h hnamed
  have hlength := congrArg List.length h
  rw [List.length_drop, List.length_append] at hlength
  have hget : (get : Reader String ℕ) offset = .ok (offset, offset) := rfl
  have hset : (set (offset + (Packing.pack bits index).length) : Reader String PUnit) offset =
      .ok (⟨⟩, offset + (Packing.pack bits index).length) := rfl
  have hnext := drop_next h
  have hwords := words_pos bits hbits
  rw [hsize] at hwords
  rw [hsize, bind_run hget, if_neg (by omega), bind_run hset]
  refine ((reads_signed payload (Int32.ofNat palette.length)).bind (b := ids) ?_ _ rest hnext).trans
    ?_
  · rw [hcount, if_neg (by omega), Int.toNat_natCast, ← List.append_nil (palette.flatMap _)]
    refine (reads_mapM (reads_runtime payload)).bind ?_
    rw [hblocks]
    exact reads_pure
  · rw [@List.length_append _ (Packing.pack bits index), Nat.add_assoc]

theorem reads_storage {ids : List UInt32} (hids : ids.length = 4096) (storage : Storage ids) :
    Reads payload (readStorage payload) storage.bytes ids := by
  cases storage with
  | uniform id same =>
      have hread := reads_uniform payload id
      rw [← same] at hread
      exact hread
  | packed bits palette index width fits named =>
      exact reads_packed payload hids width fits named

/-! ### Sections -/

/-- A layer of a section and how it is encoded. -/
structure Layer where
  ids : List UInt32
  full : ids.length = 4096
  storage : Storage ids

inductive Version
  | eight
  | nine (y : Int8)

def Version.y : Version → Option ℤ
  | .eight => none
  | .nine y => some y.toInt

/-- An encoded section: the layer of its blocks, and perhaps one more. -/
structure Section where
  version : Version
  first : Layer
  second : Option Layer

def Section.layers (s : Section) : List Layer := s.first :: s.second.toList

def Section.bytes (s : Section) : List UInt8 :=
  (match s.version with
    | .eight => [8, UInt8.ofNat s.layers.length]
    | .nine y => [9, UInt8.ofNat s.layers.length, y.toUInt8]) ++
    s.layers.flatMap fun layer => layer.storage.bytes

/-- The first layer counts, all of them are read. -/
theorem reads_layers (layers : List Layer) (k : ℕ) (blocks : List UInt32) :
    Reads payload (readLayers payload layers.length k blocks)
      (layers.flatMap fun layer => layer.storage.bytes)
      (if k = 0 then (layers.head?.map Layer.ids).getD blocks else blocks) := by
  induction layers generalizing k blocks with
  | nil => cases k <;> exact reads_pure
  | cons layer layers ih =>
      refine (reads_storage payload layer.full layer.storage).bind ?_
      have hrest := ih (k + 1) (if k = 0 then layer.ids else blocks)
      rw [if_neg (Nat.succ_ne_zero k)] at hrest
      exact hrest

theorem reads_section (s : Section) :
    Reads payload (readSection payload) s.bytes (s.first.ids, s.version.y) := by
  have hcount : (UInt8.ofNat s.layers.length).toNat = s.layers.length ∧
      ¬2 < UInt8.ofNat s.layers.length := by
    cases hsecond : s.second <;> simp [Section.layers, hsecond]
  have hlayers := reads_layers payload s.layers 0 []
  have hrest (y : Option ℤ) : Reads payload
      (if 2 < UInt8.ofNat s.layers.length then throw "Invalid storage count"
        else do
          let blocks ← readLayers payload (UInt8.ofNat s.layers.length).toNat 0 []
          return (blocks, y))
      (s.layers.flatMap fun layer => layer.storage.bytes) (s.first.ids, y) := by
    rw [if_neg hcount.2, hcount.1, ← List.append_nil (s.layers.flatMap _)]
    exact hlayers.bind reads_pure
  cases hversion : s.version with
  | eight =>
      rw [Section.bytes, hversion]
      refine (reads_byte payload 8).bind ((reads_byte payload _).bind ?_)
      exact reads_pure.bind (hrest none)
  | nine y =>
      rw [Section.bytes, hversion]
      refine (reads_byte payload 9).bind ((reads_byte payload _).bind ?_)
      have hy := (reads_byte payload y.toUInt8).map fun b => some b.toInt8.toInt
      rw [Int8.toInt8_toUInt8] at hy
      exact hy.bind (hrest (some y.toInt))

/-- An encoded section is decoded: the runtime ids of its first layer, its height, and where it
ends. -/
theorem readSubchunk_bytes (s : Section) (rest : List UInt8) :
    readSubchunk (s.bytes ++ rest) = .ok ⟨s.first.ids, s.bytes.length, s.version.y⟩ := by
  rw [readSubchunk, reads_section _ s 0 rest rfl, Nat.zero_add]
  rfl

end AfkClient.AutoButton
