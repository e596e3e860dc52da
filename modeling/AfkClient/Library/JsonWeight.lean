import AfkClient.Library.Stringify

/-! The weight of a JSON value, and that a text is longer than what it holds. -/

namespace AfkClient.Json

/-! ### Weight -/

mutual

/-- The characters of all strings, and two for every string, array and object. -/
def weight : Json → ℕ
  | .str text => text.length + 2
  | .arr items => weightItems items + 2
  | .obj entries => weightEntries entries + 2
  | .null => 0
  | .bool _ => 0
  | .num _ => 0

def weightItems : List Json → ℕ
  | [] => 0
  | item :: items => weight item + weightItems items

def weightEntries : List (String × Json) → ℕ
  | [] => 0
  | (_, value) :: entries => weight value + weightEntries entries

end

theorem weight_le_items {item : Json} {items : List Json} (h : item ∈ items) :
    item.weight ≤ weightItems items := by
  induction items with
  | nil => cases h
  | cons other items ih =>
      rw [weightItems]
      rcases List.mem_cons.mp h with rfl | h
      · omega
      · have hle := ih h
        omega

theorem weight_le_entries {entry : String × Json} {entries : List (String × Json)}
    (h : entry ∈ entries) : entry.2.weight ≤ weightEntries entries := by
  induction entries with
  | nil => cases h
  | cons other entries ih =>
      rw [weightEntries]
      rcases List.mem_cons.mp h with rfl | h
      · omega
      · have hle := ih h
        omega

/-- A property of an object, missing or not, is smaller than the object. -/
theorem weight_property (entries : List (String × Json)) (name : String) :
    (property entries name).weight ≤ weightEntries entries := by
  rw [property]
  cases hlookup : entries.reverse.lookup name with
  | none => simp [weight]
  | some value =>
      obtain ⟨before, after, hsplit, -⟩ := List.lookup_eq_some_iff.mp hlookup
      have hmem : (name, value) ∈ entries.reverse := by simp [hsplit]
      exact weight_le_entries (List.mem_reverse.mp hmem)

/-! ### Texts -/

theorem length_skipSpace (text : List Char) : (skipSpace text).length ≤ text.length :=
  (List.dropWhile_sublist _).length_le

/-- A low surrogate in front belongs to no pair. -/
theorem length_ofUnits_low {m : ℕ} (h : 0xdc00 ≤ m) (units : List ℕ) :
    (ofUnits (m :: units)).length = (ofUnits units).length + 1 := by
  cases units with
  | nil => rfl
  | cons k units =>
      rw [ofUnits, if_neg, List.length_cons]
      omega

theorem length_ofUnits_cons (n : ℕ) (units : List ℕ) :
    (ofUnits (n :: units)).length ≤ (ofUnits units).length + 1 := by
  cases units with
  | nil => exact le_rfl
  | cons m units =>
      rw [ofUnits]
      split
      · rename_i hpair
        rw [List.length_cons, length_ofUnits_low hpair.2.2.1 units]
        omega
      · rw [List.length_cons]

theorem length_parseUnits {text rest : List Char} {units : List ℕ}
    (h : parseUnits text = some (units, rest)) :
    (ofUnits units).length + rest.length + 1 ≤ text.length := by
  fun_induction parseUnits text generalizing units rest with
  | case1 => cases h
  | case2 rest' =>
      obtain ⟨rfl, rfl⟩ := Prod.mk.inj (Option.some.inj h)
      simp [ofUnits]
  | case3 a b c d text ih =>
      simp only [Option.bind_eq_bind, Option.bind_eq_some_iff] at h
      obtain ⟨_, -, _, -, _, -, _, -, ⟨tail, rest'⟩, htail, h⟩ := h
      obtain ⟨rfl, rfl⟩ := Prod.mk.inj (Option.some.inj h)
      have hle := ih htail
      refine (Nat.add_le_add_right (Nat.add_le_add_right (length_ofUnits_cons _ tail) _) _).trans ?_
      simp only [List.length_cons]
      omega
  | case4 c text _ ih =>
      simp only [Option.bind_eq_bind, Option.bind_eq_some_iff] at h
      obtain ⟨char, -, ⟨tail, rest'⟩, htail, h⟩ := h
      obtain ⟨rfl, rfl⟩ := Prod.mk.inj (Option.some.inj h)
      have hle := ih htail
      have hcons := length_ofUnits_cons char.toNat tail
      simp only [List.length_cons]
      omega
  | case5 => cases h
  | case6 c text _ _ _ _ ih =>
      obtain ⟨⟨tail, rest'⟩, htail, h⟩ := Option.map_eq_some_iff.mp h
      obtain ⟨rfl, rfl⟩ := Prod.mk.inj h
      have hle := ih htail
      rw [ofUnits_units_append]
      simp only [List.length_cons]
      omega

theorem length_parseString {text rest : List Char} {value : String}
    (h : parseString text = some (value, rest)) : value.length + rest.length + 1 ≤ text.length := by
  obtain ⟨⟨units, rest'⟩, hunits, h⟩ := Option.map_eq_some_iff.mp h
  obtain ⟨rfl, rfl⟩ := Prod.mk.inj h
  rw [String.length_ofList]
  exact length_parseUnits hunits

theorem length_parseExponent {text rest : List Char} {n : ℤ}
    (h : parseExponent text = some (n, rest)) : rest.length ≤ text.length := by
  unfold parseExponent at h
  split at h
  · rename_i c text
    split at h
    · split at h
      rename_i sign rest' hsign
      have hle : rest'.length ≤ text.length := by
        split at hsign
        all_goals obtain ⟨-, rfl⟩ := Prod.mk.inj hsign
        all_goals simp
      extract_lets digits at h
      split at h
      · cases h
      · obtain ⟨-, rfl⟩ := Prod.mk.inj (Option.some.inj h)
        rw [List.length_drop, List.length_cons]
        omega
    · obtain ⟨-, rfl⟩ := Prod.mk.inj (Option.some.inj h)
      exact le_rfl
  · obtain ⟨-, rfl⟩ := Prod.mk.inj (Option.some.inj h)
    exact le_rfl

theorem length_parseNumber {text rest : List Char} {n : ℚ}
    (h : parseNumber text = some (n, rest)) : rest.length ≤ text.length := by
  unfold parseNumber at h
  split at h
  rename_i sign digits hsign
  have hle : digits.length ≤ text.length := by
    split at hsign
    all_goals obtain ⟨-, rfl⟩ := Prod.mk.inj hsign
    all_goals simp
  extract_lets whole check behind decimals finish number at h
  have hcheck : check.length ≤ digits.length := (List.drop_sublist _ _).length_le
  have hfinish : ∀ tail, finish tail = some (n, rest) → rest.length ≤ tail.length := by
    intro tail h
    simp only [finish, Option.bind_eq_bind, Option.bind_eq_some_iff] at h
    obtain ⟨⟨exponent, rest'⟩, hexponent, h⟩ := h
    obtain ⟨-, rfl⟩ := Prod.mk.inj (Option.some.inj h)
    exact length_parseExponent hexponent
  clear_value check
  split at h
  · cases h
  · simp only [number] at h
    split at h
    · rw [List.length_cons] at hcheck
      split at h
      · cases h
      · have hrest := hfinish _ h
        rw [List.length_drop] at hrest
        omega
    · have hrest := hfinish _ h
      omega

/-- The bounds of the values that the parsers with this fuel read. -/
structure Bounded (fuel : ℕ) : Prop where
  value : ∀ {text rest value}, parseValue fuel text = some (value, rest) →
    value.weight + rest.length ≤ text.length
  items : ∀ {text rest items}, parseItems fuel text = some (items, rest) →
    weightItems items + rest.length + 1 ≤ text.length
  entries : ∀ {text rest entries}, parseEntries fuel text = some (entries, rest) →
    weightEntries entries + rest.length + 1 ≤ text.length

variable {fuel : ℕ} {text rest : List Char}

theorem Bounded.value_succ (hb : Bounded fuel) {value : Json}
    (h : parseValue (fuel + 1) text = some (value, rest)) : value.weight + rest.length ≤ text.length := by
  have hskip := length_skipSpace text
  rw [parseValue] at h
  split at h
  case h_1 tail heq =>
    obtain ⟨⟨string, rest'⟩, hstring, h⟩ := Option.map_eq_some_iff.mp h
    obtain ⟨rfl, rfl⟩ := Prod.mk.inj h
    have hle := length_parseString hstring
    rw [heq, List.length_cons] at hskip
    rw [weight]
    omega
  case h_2 tail heq =>
    have htail := length_skipSpace tail
    rw [heq, List.length_cons] at hskip
    split at h
    · rename_i rest' heq'
      obtain ⟨rfl, rfl⟩ := Prod.mk.inj (Option.some.inj h)
      rw [heq', List.length_cons] at htail
      simp only [weight, weightItems]
      omega
    · obtain ⟨⟨items, rest'⟩, hitems, h⟩ := Option.map_eq_some_iff.mp h
      obtain ⟨rfl, rfl⟩ := Prod.mk.inj h
      have hle := hb.items hitems
      rw [weight]
      omega
  case h_3 tail heq =>
    have htail := length_skipSpace tail
    rw [heq, List.length_cons] at hskip
    split at h
    · rename_i rest' heq'
      obtain ⟨rfl, rfl⟩ := Prod.mk.inj (Option.some.inj h)
      rw [heq', List.length_cons] at htail
      simp only [weight, weightEntries]
      omega
    · obtain ⟨⟨entries, rest'⟩, hentries, h⟩ := Option.map_eq_some_iff.mp h
      obtain ⟨rfl, rfl⟩ := Prod.mk.inj h
      have hle := hb.entries hentries
      rw [weight]
      omega
  case h_7 tail _ _ _ _ _ _ =>
    obtain ⟨⟨number, rest'⟩, hnumber, h⟩ := Option.map_eq_some_iff.mp h
    obtain ⟨rfl, rfl⟩ := Prod.mk.inj h
    have hle := length_parseNumber hnumber
    rw [weight]
    omega
  all_goals
    rename_i tail heq
    obtain ⟨rfl, rfl⟩ := Prod.mk.inj (Option.some.inj h)
    rw [heq] at hskip
    simp only [List.length_cons] at hskip
    rw [weight]
    omega

theorem Bounded.items_succ (hb : Bounded fuel) {items : List Json}
    (h : parseItems (fuel + 1) text = some (items, rest)) :
    weightItems items + rest.length + 1 ≤ text.length := by
  rw [parseItems] at h
  simp only [Option.bind_eq_bind, Option.bind_eq_some_iff] at h
  obtain ⟨⟨item, rest'⟩, hitem, h⟩ := h
  have hle := hb.value hitem
  have hskip := length_skipSpace rest'
  simp only at h
  split at h
  · rename_i tail heq
    obtain ⟨⟨more, rest'⟩, hmore, h⟩ := Option.map_eq_some_iff.mp h
    obtain ⟨rfl, rfl⟩ := Prod.mk.inj h
    have hmore := hb.items hmore
    rw [heq, List.length_cons] at hskip
    simp only [weightItems]
    omega
  · rename_i tail heq
    obtain ⟨rfl, rfl⟩ := Prod.mk.inj (Option.some.inj h)
    rw [heq, List.length_cons] at hskip
    simp only [weightItems]
    omega
  · cases h

theorem Bounded.entries_succ (hb : Bounded fuel) {entries : List (String × Json)}
    (h : parseEntries (fuel + 1) text = some (entries, rest)) :
    weightEntries entries + rest.length + 1 ≤ text.length := by
  have hskip := length_skipSpace text
  rw [parseEntries] at h
  split at h
  · rename_i tail heq
    simp only [Option.bind_eq_bind, Option.bind_eq_some_iff] at h
    obtain ⟨⟨key, rest'⟩, hkey, h⟩ := h
    have hkey := length_parseString hkey
    have hcolon := length_skipSpace rest'
    rw [heq, List.length_cons] at hskip
    simp only at h
    split at h
    · rename_i tail' heq'
      rw [heq', List.length_cons] at hcolon
      simp only [Option.bind_eq_some_iff] at h
      obtain ⟨⟨value, rest''⟩, hvalue, h⟩ := h
      have hvalue := hb.value hvalue
      have hend := length_skipSpace rest''
      simp only at h
      split at h
      · rename_i tail'' heq''
        obtain ⟨⟨more, rest'⟩, hmore, h⟩ := Option.map_eq_some_iff.mp h
        obtain ⟨rfl, rfl⟩ := Prod.mk.inj h
        have hmore := hb.entries hmore
        rw [heq'', List.length_cons] at hend
        simp only [weightEntries]
        omega
      · rename_i tail'' heq''
        obtain ⟨rfl, rfl⟩ := Prod.mk.inj (Option.some.inj h)
        rw [heq'', List.length_cons] at hend
        simp only [weightEntries]
        omega
      · cases h
    · cases h
  · cases h

theorem bounded (fuel : ℕ) : Bounded fuel := by
  induction fuel with
  | zero => exact ⟨nofun, nofun, nofun⟩
  | succ fuel ih => exact ⟨ih.value_succ, ih.items_succ, ih.entries_succ⟩

/-- What a string holds is smaller than the string. -/
theorem weight_parse {text : String} {value : Json} (h : parse text.toList = some value) :
    value.weight < (str text).weight := by
  unfold parse at h
  simp only [Option.bind_eq_bind, Option.bind_eq_some_iff] at h
  obtain ⟨⟨read, rest⟩, hread, h⟩ := h
  split at h
  · obtain rfl := Option.some.inj h
    have hle := (bounded _).value hread
    rw [String.length_toList] at hle
    simp only [weight]
    omega
  · cases h

end AfkClient.Json
