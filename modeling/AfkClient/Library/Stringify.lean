import AfkClient.Library.Json
import Mathlib.Tactic.IntervalCases

/-! Texts of JSON values, as `JSON.stringify` writes them, and that they are read back. -/

namespace AfkClient.Json

/-! ### Writing -/

def hexDigit (n : ℕ) : Char := if n < 10 then .ofNat (48 + n) else .ofNat (87 + n)

def escapeChar (c : Char) : List Char :=
  if c = '"' then ['\\', '"']
  else if c = '\\' then ['\\', '\\']
  else if c = '\x08' then ['\\', 'b']
  else if c = '\x0c' then ['\\', 'f']
  else if c = '\n' then ['\\', 'n']
  else if c = '\r' then ['\\', 'r']
  else if c = '\t' then ['\\', 't']
  else if c.toNat < 0x20 then
    ['\\', 'u', '0', '0', hexDigit (c.toNat / 16), hexDigit (c.toNat % 16)]
  else [c]

/-- The text of a string. -/
def quote (text : String) : List Char := '"' :: (text.toList.flatMap escapeChar ++ ['"'])

/-- Texts with commas between them. -/
def commas : List (List Char) → List Char
  | [] => []
  | [text] => text
  | text :: texts => text ++ ',' :: commas texts

/-- The text of an array with these texts of items. -/
def array (items : List (List Char)) : List Char := '[' :: (commas items ++ [']'])

def entry (name : String) (text : List Char) : List Char := quote name ++ ':' :: text

/-- The text of an object with these texts of properties. -/
def object (entries : List (String × List Char)) : List Char :=
  '{' :: (commas (entries.map fun e => entry e.1 e.2) ++ ['}'])

/-! ### Characters and their units -/

theorem ofUnits_units_append (c : Char) (rest : List ℕ) :
    ofUnits (units c ++ rest) = c :: ofUnits rest := by
  have hvalid : c.toNat < 0xd800 ∨ 0xdfff < c.toNat ∧ c.toNat < 0x110000 := c.valid
  by_cases hn : c.toNat < 0x10000
  · have hself : (if 0xd800 ≤ c.toNat ∧ c.toNat < 0xe000 then '\ufffd' else Char.ofNat c.toNat) =
        c := by
      rw [if_neg (by omega), Char.ofNat_toNat]
    simp only [units, if_pos hn, List.singleton_append]
    cases rest with
    | nil => simp only [ofUnits, hself]
    | cons m rest => rw [ofUnits, if_neg (by omega), hself]
  · have hunits : units c =
        [0xd800 + (c.toNat - 0x10000) / 0x400, 0xdc00 + (c.toNat - 0x10000) % 0x400] := by
      simp only [units, if_neg hn]
    have hvalue : 0x10000 + 0x400 * (0xd800 + (c.toNat - 0x10000) / 0x400 - 0xd800) +
        (0xdc00 + (c.toNat - 0x10000) % 0x400 - 0xdc00) = c.toNat := by omega
    rw [hunits, List.cons_append, List.singleton_append, ofUnits, if_pos (by omega), hvalue,
      Char.ofNat_toNat]

theorem ofUnits_flatMap_units (text : List Char) : ofUnits (text.flatMap units) = text := by
  induction text with
  | nil => rfl
  | cons c text ih => rw [List.flatMap_cons, ofUnits_units_append, ih]

/-! ### Strings -/

theorem hexValue_hexDigit {n : ℕ} (h : n < 16) : hexValue (hexDigit n) = some n := by
  interval_cases n <;> rfl

theorem parseUnits_escape {e c : Char} (he : escaped e = some c) (hu : e ≠ 'u')
    (rest : List Char) : parseUnits ('\\' :: e :: rest) =
      (parseUnits rest).map fun p => (c.toNat :: p.1, p.2) := by
  rw [parseUnits]
  · rw [he]
    cases parseUnits rest <;> rfl
  · simp [hu]

theorem units_of_lt {c : Char} (h : c.toNat < 0x10000) : units c = [c.toNat] := by
  simp only [units, if_pos h]

theorem parseUnits_escapeChar (c : Char) (rest : List Char) :
    parseUnits (escapeChar c ++ rest) =
      (parseUnits rest).map fun p => (units c ++ p.1, p.2) := by
  unfold escapeChar
  split_ifs with hquote hslash hb hf hn hr ht hlow
  · subst hquote; exact parseUnits_escape rfl (by decide) rest
  · subst hslash; exact parseUnits_escape rfl (by decide) rest
  · subst hb; exact parseUnits_escape rfl (by decide) rest
  · subst hf; exact parseUnits_escape rfl (by decide) rest
  · subst hn; exact parseUnits_escape rfl (by decide) rest
  · subst hr; exact parseUnits_escape rfl (by decide) rest
  · subst ht; exact parseUnits_escape rfl (by decide) rest
  · -- the four digits spell the character
    have hzero : hexValue '0' = some 0 := rfl
    simp only [List.cons_append, List.nil_append]
    rw [parseUnits, hzero, hexValue_hexDigit (by omega : c.toNat / 16 < 16),
      hexValue_hexDigit (by omega : c.toNat % 16 < 16), units_of_lt (by omega)]
    have hvalue : (0 * 16 + 0) * 256 + c.toNat / 16 * 16 + c.toNat % 16 = c.toNat := by omega
    simp only [bind, Option.bind, hvalue]
    cases parseUnits rest <;> rfl
  · have hval : ¬c.val < 0x20 := fun h => hlow h
    rw [List.singleton_append, parseUnits]
    · rw [if_neg (by simp [hval, hslash])]
    · exact hquote
    · exact fun _ _ _ _ _ h _ => hslash h
    · exact fun _ _ h _ => hslash h

theorem parseUnits_flatMap (text rest : List Char) :
    parseUnits (text.flatMap escapeChar ++ '"' :: rest) = some (text.flatMap units, rest) := by
  induction text with
  | nil => rfl
  | cons c text ih =>
      rw [List.flatMap_cons, List.append_assoc, parseUnits_escapeChar, ih]
      rfl

theorem parseString_quote (text : String) (rest : List Char) :
    parseString (text.toList.flatMap escapeChar ++ '"' :: rest) = some (text, rest) := by
  simp only [parseString, parseUnits_flatMap, Option.map_some, ofUnits_flatMap_units,
    String.ofList_toList]

/-! ### Values -/

/-- Wherever the text stands, the value is read from it; as fuel its length is enough. -/
structure Prints (text : List Char) (value : Json) : Prop where
  opens : ∃ c rest, text = c :: rest ∧ c ∈ ['"', '[', '{']
  reads : ∀ fuel rest, text.length ≤ fuel → parseValue fuel (text ++ rest) = some (value, rest)

theorem skipSpace_cons {c : Char} (h : c ∉ [' ', '\t', '\n', '\r']) (rest : List Char) :
    skipSpace (c :: rest) = c :: rest := by
  rw [skipSpace, List.dropWhile_cons, if_neg (by simpa using h)]

theorem Prints.quote (text : String) : Prints (quote text) (.str text) where
  opens := ⟨'"', _, rfl, by simp⟩
  reads := by
    intro fuel rest hfuel
    cases fuel with
    | zero => simp [Json.quote] at hfuel
    | succ fuel =>
        simp only [Json.quote, List.cons_append, List.append_assoc, List.nil_append]
        rw [parseValue, skipSpace_cons (by decide)]
        simp only [parseString_quote, Option.map_some]

/-- A text that opens a value begins neither with a space nor with a closing bracket. -/
theorem Prints.skipSpace_append {text : List Char} {value : Json} (h : Prints text value)
    (rest : List Char) : skipSpace (text ++ rest) = text ++ rest ∧
      ∀ tail, text ++ rest ≠ ']' :: tail := by
  obtain ⟨c, tail, rfl, hc⟩ := h.opens
  simp only [List.mem_cons, List.not_mem_nil, or_false] at hc
  constructor
  · apply skipSpace_cons
    rcases hc with rfl | rfl | rfl <;> decide
  · intro tail' heq
    simp only [List.cons_append, List.cons.injEq] at heq
    rcases hc with rfl | rfl | rfl <;> simp at heq

theorem commas_cons_cons (text next : List Char) (texts : List (List Char)) :
    commas (text :: next :: texts) = text ++ ',' :: commas (next :: texts) := rfl

/-- Items with commas between them are read up to the closing bracket. -/
theorem parseItems_commas {texts : List (List Char)} {values : List Json} (hne : texts ≠ [])
    (h : List.Forall₂ Prints texts values) (rest : List Char) :
    ∀ fuel, (commas texts).length < fuel →
      parseItems fuel (commas texts ++ ']' :: rest) = some (values, rest) := by
  induction h with
  | nil => exact absurd rfl hne
  | @cons text value texts values htext htexts ih =>
      intro fuel hfuel
      obtain ⟨fuel, rfl⟩ : ∃ f, fuel = f + 1 := ⟨fuel - 1, by omega⟩
      cases htexts with
      | nil =>
          simp only [commas] at hfuel ⊢
          rw [parseItems, htext.reads fuel _ (by omega)]
          simp only [Option.bind_eq_bind, Option.bind_some, skipSpace_cons (c := ']') (by decide)]
      | cons hnext hrest =>
          rw [commas_cons_cons, List.length_append, List.length_cons] at hfuel
          rw [commas_cons_cons, List.append_assoc, parseItems, htext.reads fuel _ (by omega)]
          simp only [Option.bind_eq_bind, Option.bind_some, List.cons_append,
            skipSpace_cons (c := ',') (by decide)]
          rw [ih (by simp) fuel (by omega), Option.map_some]

/-- The commas stand behind the first item. -/
theorem commas_cons (text : List Char) (texts : List (List Char)) :
    ∃ tail, commas (text :: texts) = text ++ tail := by
  cases texts with
  | nil => exact ⟨[], (List.append_nil text).symm⟩
  | cons next texts => exact ⟨',' :: commas (next :: texts), rfl⟩

theorem Prints.array {texts : List (List Char)} {values : List Json}
    (h : List.Forall₂ Prints texts values) : Prints (array texts) (.arr values) where
  opens := ⟨'[', _, rfl, by simp⟩
  reads := by
    intro fuel rest hfuel
    simp only [Json.array, List.length_cons, List.length_append, List.length_nil] at hfuel
    obtain ⟨fuel, rfl⟩ : ∃ f, fuel = f + 1 := ⟨fuel - 1, by omega⟩
    simp only [Json.array, List.cons_append, List.append_assoc, List.nil_append]
    rw [parseValue, skipSpace_cons (by decide)]
    cases h with
    | nil => simp only [commas, List.nil_append, skipSpace_cons (c := ']') (by decide)]
    | @cons text value texts values htext htexts =>
        have hitems := parseItems_commas (by simp) (.cons htext htexts) rest fuel (by omega)
        obtain ⟨tail, htail⟩ := commas_cons text texts
        rw [htail, List.append_assoc] at hitems ⊢
        obtain ⟨hspace, hclose⟩ := htext.skipSpace_append (tail ++ ']' :: rest)
        simp only [hspace]
        rw [hitems]
        rfl

/-- An entry is read, and then what follows it decides. -/
theorem parseEntries_entry {text : List Char} {value : Json} (htext : Prints text value)
    (name : String) {fuel : ℕ} (hfuel : text.length ≤ fuel) (rest : List Char) :
    parseEntries (fuel + 1) (entry name text ++ rest) = match skipSpace rest with
      | ',' :: rest =>
          (parseEntries fuel rest).map fun (entries, rest) => ((name, value) :: entries, rest)
      | '}' :: rest => some ([(name, value)], rest)
      | _ => none := by
  simp only [entry, Json.quote, List.cons_append, List.append_assoc, List.nil_append]
  rw [parseEntries, skipSpace_cons (by decide)]
  simp only [parseString_quote, Option.bind_eq_bind, Option.bind_some,
    skipSpace_cons (c := ':') (by decide), htext.reads fuel _ hfuel] <;> rfl

theorem length_entry (name : String) (text : List Char) :
    text.length < (entry name text).length := by
  simp only [entry, List.length_append, List.length_cons]
  omega

/-- Entries with commas between them are read up to the closing brace. -/
theorem parseEntries_commas {entries : List (String × List Char)} {values : List (String × Json)}
    (hne : entries ≠ []) (h : List.Forall₂ (fun e v => e.1 = v.1 ∧ Prints e.2 v.2) entries values)
    (rest : List Char) : ∀ fuel, (commas (entries.map fun e => entry e.1 e.2)).length < fuel →
      parseEntries fuel (commas (entries.map fun e => entry e.1 e.2) ++ '}' :: rest) =
        some (values, rest) := by
  induction h with
  | nil => exact absurd rfl hne
  | @cons e v entries values he hentries ih =>
      intro fuel hfuel
      obtain ⟨name, text⟩ := e
      obtain ⟨name', value⟩ := v
      obtain ⟨hname, htext⟩ : name = name' ∧ Prints text value := he
      subst hname
      obtain ⟨fuel, rfl⟩ : ∃ f, fuel = f + 1 := ⟨fuel - 1, by omega⟩
      have hlength := length_entry name text
      cases hentries with
      | nil =>
          simp only [List.map_cons, List.map_nil, commas] at hfuel ⊢
          rw [parseEntries_entry htext name (by omega), skipSpace_cons (by decide)]
          rfl
      | cons hnext hrest =>
          simp only [List.map_cons, commas_cons_cons, List.length_append, List.length_cons]
            at hfuel ih ⊢
          rw [List.append_assoc, parseEntries_entry htext name (by omega), List.cons_append,
            skipSpace_cons (by decide)]
          simp only [ih (by simp) fuel (by omega), Option.map_some]

theorem Prints.object {entries : List (String × List Char)} {values : List (String × Json)}
    (h : List.Forall₂ (fun e v => e.1 = v.1 ∧ Prints e.2 v.2) entries values) :
    Prints (object entries) (.obj values) where
  opens := ⟨'{', _, rfl, by simp⟩
  reads := by
    intro fuel rest hfuel
    simp only [Json.object, List.length_cons, List.length_append, List.length_nil] at hfuel
    obtain ⟨fuel, rfl⟩ : ∃ f, fuel = f + 1 := ⟨fuel - 1, by omega⟩
    simp only [Json.object, List.cons_append, List.append_assoc, List.nil_append]
    rw [parseValue, skipSpace_cons (by decide)]
    cases h with
    | nil => simp only [List.map_nil, commas, List.nil_append, skipSpace_cons (c := '}') (by decide)]
    | @cons e v entries values he hentries =>
        have hread := parseEntries_commas (by simp) (.cons he hentries) rest fuel (by omega)
        obtain ⟨tail, htail⟩ := commas_cons (entry e.1 e.2) (entries.map fun e => entry e.1 e.2)
        rw [List.map_cons, htail, List.append_assoc] at hread ⊢
        simp only [entry, Json.quote, List.cons_append] at hread ⊢
        rw [skipSpace_cons (by decide)]
        exact congrArg (Option.map fun x => (obj x.1, x.2)) hread

/-- What is written is read back. -/
theorem Prints.parse {text : List Char} {value : Json} (h : Prints text value) :
    parse text = some value := by
  have hread := h.reads (2 * text.length + 1) [] (by omega)
  rw [List.append_nil] at hread
  rw [Json.parse, hread]
  rfl

end AfkClient.Json
