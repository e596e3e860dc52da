import AfkClient.Model.RedactSecrets

/-! What the redaction of an audit record depends on, and what it keeps. -/

namespace AfkClient.Redaction

/-! ### Keys -/

/-- A spelling of a word, up to letter case, underscores and hyphens. -/
inductive Spells : List Char → List Char → Prop
  | nil : Spells [] []
  | letter {c a : Char} {word key : List Char} (hc : Text.lowerChar c = [a]) (h : Spells word key) :
      Spells (a :: word) (c :: key)
  | mark {c : Char} {word key : List Char} (hc : isMark c = true) (h : Spells word key) :
      Spells word (c :: key)

def Secret (key : String) : Prop := ∃ word ∈ secretKeys, Spells word.toList key.toList

/-- A character of a word: no mark, and no accent that the lower case of a letter brings along. -/
def isLetter (a : Char) : Bool := ! isMark a && a != '\u0307'

theorem lowerChar_of_isMark {c : Char} (h : isMark c = true) : Text.lowerChar c = [c] := by
  rw [isMark, Bool.or_eq_true, beq_iff_eq, beq_iff_eq] at h
  rcases h with rfl | rfl <;> rfl

theorem isMark_toLower {c : Char} (h : isMark c.toLower = true) : isMark c = true := by
  unfold Char.toLower at h
  split at h
  · rename_i hupper
    have hlow : 65 ≤ c.toNat := hupper.1
    have hhigh : c.toNat ≤ 90 := hupper.2
    rw [isMark, Bool.or_eq_true, beq_iff_eq, beq_iff_eq] at h
    have hval : c.val + 32 = 95 ∨ c.val + 32 = 45 := h.imp (congrArg Char.val) (congrArg Char.val)
    have hnat : (c.val + 32).toNat = c.toNat + 32 := by
      rw [UInt32.toNat_add]
      exact Nat.mod_eq_of_lt (by simp; omega)
    rcases hval with hval | hval <;> rw [hval] at hnat <;> simp at hnat <;> omega
  · exact h

theorem spells_iff {word : List Char} (hword : ∀ a ∈ word, isLetter a = true) (key : List Char) :
    Spells word key ↔ (Text.toLowerCase key).filter (! isMark ·) = word := by
  induction key generalizing word with
  | nil =>
      constructor
      · intro h
        cases h
        rfl
      · rintro rfl
        exact .nil
  | cons c key ih =>
      rw [Text.toLowerCase, List.flatMap_cons, List.filter_append]
      by_cases hmark : isMark c = true
      · have hfilter : (Text.lowerChar c).filter (! isMark ·) = [] := by
          rw [lowerChar_of_isMark hmark]
          simp [hmark]
        rw [hfilter, List.nil_append]
        constructor
        · intro h
          cases h with
          | @letter _ a word _ hc h =>
              have ha : a = c := (List.cons.inj (hc.symm.trans (lowerChar_of_isMark hmark))).1
              have hletter := hword a List.mem_cons_self
              rw [isLetter, ha, hmark] at hletter
              cases hletter
          | mark _ h => exact (ih hword).mp h
        · exact fun h => .mark hmark ((ih hword).mpr h)
      · have hlower : Text.lowerChar c = ['i', '\u0307'] ∨
            ∃ a, Text.lowerChar c = [a] ∧ isMark a = false := by
          rw [Text.lowerChar]
          split
          · exact .inr ⟨'k', rfl, rfl⟩
          · split
            · exact .inl rfl
            · refine .inr ⟨c.toLower, rfl, ?_⟩
              rw [← Bool.not_eq_true]
              exact fun h => hmark (isMark_toLower h)
        rcases hlower with hlower | ⟨a, hlower, ha⟩
        · constructor
          · intro h
            cases h with
            | letter hc _ => simp [hlower] at hc
            | mark hc _ => exact absurd hc hmark
          · intro h
            have hmem : '\u0307' ∈ word := by
              rw [← h, hlower]
              simp [isMark]
            exact absurd (hword _ hmem) (by decide)
        · have hfilter : (Text.lowerChar c).filter (! isMark ·) = [a] := by
            rw [hlower]
            simp [ha]
          rw [hfilter, List.singleton_append]
          constructor
          · intro h
            cases h with
            | @letter _ b word _ hc h =>
                have hb : b = a := (List.cons.inj (hc.symm.trans hlower)).1
                have ih := (ih fun x hx => hword x (List.mem_cons_of_mem b hx)).mp h
                rw [hb]
                exact congrArg _ ih
            | mark hc _ => exact absurd hc hmark
          · intro h
            obtain rfl := h.symm
            exact .letter hlower ((ih fun x hx => hword x (List.mem_cons_of_mem a hx)).mpr rfl)

theorem isSecretKey_iff (key : String) : isSecretKey key = true ↔ Secret key := by
  have hletters : ∀ word ∈ secretKeys, ∀ a ∈ word.toList, isLetter a = true := by
    have hall : secretKeys.all (fun word => word.toList.all isLetter) = true := by decide +kernel
    exact fun word hword => List.all_eq_true.mp (List.all_eq_true.mp hall word hword)
  rw [isSecretKey, decide_eq_true_eq, List.mem_map]
  constructor
  · rintro ⟨word, hword, hkey⟩
    exact ⟨word, hword, (spells_iff (hletters word hword) _).mpr hkey.symm⟩
  · rintro ⟨word, hword, hspells⟩
    exact ⟨word, hword, ((spells_iff (hletters word hword) _).mp hspells).symm⟩

/-! ### What the result depends on -/

mutual

/-- Values that differ only under secret keys or below the depth. -/
inductive Alike : ℕ → Json → Json → Prop
  | deep {depth : ℕ} {a b : Json} (h : maxDepth < depth) : Alike depth a b
  | same {depth : ℕ} {a : Json} : Alike depth a a
  | arr {depth : ℕ} {as bs : List Json} (h : AlikeItems (depth + 1) as bs) :
      Alike depth (.arr as) (.arr bs)
  | obj {depth : ℕ} {as bs : List (String × Json)} (h : AlikeEntries (depth + 1) as bs) :
      Alike depth (.obj as) (.obj bs)

inductive AlikeItems : ℕ → List Json → List Json → Prop
  | nil {depth : ℕ} : AlikeItems depth [] []
  | cons {depth : ℕ} {a b : Json} {as bs : List Json} (h : Alike depth a b)
      (hs : AlikeItems depth as bs) : AlikeItems depth (a :: as) (b :: bs)

inductive AlikeEntries : ℕ → List (String × Json) → List (String × Json) → Prop
  | nil {depth : ℕ} : AlikeEntries depth [] []
  | secret {depth : ℕ} {key : String} {a b : Json} {as bs : List (String × Json)} (h : Secret key)
      (hs : AlikeEntries depth as bs) : AlikeEntries depth ((key, a) :: as) ((key, b) :: bs)
  | cons {depth : ℕ} {key : String} {a b : Json} {as bs : List (String × Json)}
      (h : Alike depth a b) (hs : AlikeEntries depth as bs) :
      AlikeEntries depth ((key, a) :: as) ((key, b) :: bs)

end

theorem redactSecrets_deep {depth : ℕ} (h : maxDepth < depth) (value : Json) :
    redactSecrets depth value = redacted := by
  cases value <;> rw [redactSecrets, if_pos h] <;> try simp

mutual

theorem Alike.redact_eq {depth : ℕ} {a b : Json} (h : Alike depth a b) :
    redactSecrets depth a = redactSecrets depth b := by
  cases h with
  | deep h => rw [redactSecrets_deep h, redactSecrets_deep h]
  | same => rfl
  | arr h => rw [redactSecrets, redactSecrets, h.redact_eq]
  | obj h => rw [redactSecrets, redactSecrets, h.redact_eq]

theorem AlikeItems.redact_eq {depth : ℕ} {as bs : List Json} (h : AlikeItems depth as bs) :
    redactItems depth as = redactItems depth bs := by
  cases h with
  | nil => rfl
  | cons h hs => rw [redactItems, redactItems, h.redact_eq, hs.redact_eq]

theorem AlikeEntries.redact_eq {depth : ℕ} {as bs : List (String × Json)}
    (h : AlikeEntries depth as bs) : redactEntries depth as = redactEntries depth bs := by
  cases h with
  | nil => rfl
  | secret h hs =>
      rw [redactEntries, redactEntries, if_pos ((isSecretKey_iff _).mpr h),
        if_pos ((isSecretKey_iff _).mpr h), hs.redact_eq]
  | cons h hs => rw [redactEntries, redactEntries, h.redact_eq, hs.redact_eq]

end

mutual

/-- Nothing else is lost. -/
theorem alike_of_eq {depth : ℕ} (a b : Json) (h : redactSecrets depth a = redactSecrets depth b) :
    Alike depth a b := by
  by_cases hdeep : maxDepth < depth
  · exact .deep hdeep
  · cases a with
    | arr as =>
        cases b with
        | arr bs =>
            rw [redactSecrets, redactSecrets, if_neg hdeep, if_neg hdeep, Json.arr.injEq] at h
            exact .arr (alikeItems_of_eq as bs h)
        | _ => simp [redactSecrets, hdeep] at h
    | obj as =>
        cases b with
        | obj bs =>
            rw [redactSecrets, redactSecrets, if_neg hdeep, if_neg hdeep, Json.obj.injEq] at h
            exact .obj (alikeEntries_of_eq as bs h)
        | _ => simp [redactSecrets, hdeep] at h
    | null =>
        cases b <;> simp [redactSecrets, hdeep] at h
        exact .same
    | _ value =>
        cases b <;> simp [redactSecrets, hdeep] at h
        exact h ▸ .same

theorem alikeItems_of_eq {depth : ℕ} (as bs : List Json)
    (h : redactItems depth as = redactItems depth bs) : AlikeItems depth as bs := by
  cases as with
  | nil =>
      cases bs with
      | nil => exact .nil
      | cons b bs => simp [redactItems] at h
  | cons a as =>
      cases bs with
      | nil => simp [redactItems] at h
      | cons b bs =>
          rw [redactItems, redactItems, List.cons.injEq] at h
          exact .cons (alike_of_eq a b h.1) (alikeItems_of_eq as bs h.2)

theorem alikeEntries_of_eq {depth : ℕ} (as bs : List (String × Json))
    (h : redactEntries depth as = redactEntries depth bs) : AlikeEntries depth as bs := by
  cases as with
  | nil =>
      cases bs with
      | nil => exact .nil
      | cons b bs => simp [redactEntries] at h
  | cons a as =>
      cases bs with
      | nil => simp [redactEntries] at h
      | cons b bs =>
          obtain ⟨key, a⟩ := a
          obtain ⟨key', b⟩ := b
          rw [redactEntries, redactEntries, List.cons.injEq, Prod.mk.injEq] at h
          obtain ⟨⟨rfl, hvalue⟩, hrest⟩ := h
          have hrest := alikeEntries_of_eq as bs hrest
          by_cases hkey : isSecretKey key = true
          · exact .secret ((isSecretKey_iff key).mp hkey) hrest
          · rw [if_neg hkey, if_neg hkey] at hvalue
            exact .cons (alike_of_eq a b hvalue) hrest

end

mutual

theorem redactSecrets_idem (depth : ℕ) (value : Json) :
    redactSecrets depth (redactSecrets depth value) = redactSecrets depth value := by
  by_cases hdeep : maxDepth < depth
  · rw [redactSecrets_deep hdeep, redactSecrets_deep hdeep]
  · cases value with
    | arr items =>
        rw [redactSecrets, if_neg hdeep, redactSecrets, if_neg hdeep, redactItems_idem]
    | obj entries =>
        rw [redactSecrets, if_neg hdeep, redactSecrets, if_neg hdeep, redactEntries_idem]
    | _ => simp [redactSecrets, hdeep]

theorem redactItems_idem (depth : ℕ) (items : List Json) :
    redactItems depth (redactItems depth items) = redactItems depth items := by
  cases items with
  | nil => rfl
  | cons item items => rw [redactItems, redactItems, redactSecrets_idem, redactItems_idem]

theorem redactEntries_idem (depth : ℕ) (entries : List (String × Json)) :
    redactEntries depth (redactEntries depth entries) = redactEntries depth entries := by
  cases entries with
  | nil => rfl
  | cons entry entries =>
      obtain ⟨key, value⟩ := entry
      rw [redactEntries, redactEntries, redactEntries_idem]
      by_cases hkey : isSecretKey key = true
      · rw [if_pos hkey, if_pos hkey]
      · rw [if_neg hkey, if_neg hkey, redactSecrets_idem]

end

/-! ### What the result keeps -/

inductive Step
  | item (index : ℕ)
  | field (key : String)

def Step.Open : Step → Prop
  | .item _ => True
  | .field key => ¬Secret key

def child : Step → Json → Option Json
  | .item index, .arr items => items[index]?
  | .field key, .obj entries => Json.find entries key
  | _, _ => none

/-- The value at a path. -/
def valueAt : List Step → Json → Option Json
  | [], value => some value
  | step :: path, value => (child step value).bind (valueAt path)

/-- The same scalar, an array of the same length or an object with the same keys. -/
def SameOutline : Json → Json → Prop
  | .arr as, .arr bs => as.length = bs.length
  | .obj as, .obj bs => as.map Prod.fst = bs.map Prod.fst
  | a, b => a = b

theorem redactItems_eq (depth : ℕ) (items : List Json) :
    redactItems depth items = items.map (redactSecrets depth) := by
  induction items with
  | nil => rfl
  | cons item items ih => rw [redactItems, ih, List.map_cons]

theorem redactEntries_eq (depth : ℕ) (entries : List (String × Json)) :
    redactEntries depth entries = entries.map fun entry =>
      (entry.1, if isSecretKey entry.1 then redacted else redactSecrets depth entry.2) := by
  induction entries with
  | nil => rfl
  | cons entry entries ih => rw [redactEntries, ih, List.map_cons]

theorem lookup_redactEntries {key : String} (hkey : ¬Secret key) (depth : ℕ)
    (entries : List (String × Json)) : (redactEntries depth entries).lookup key =
      (entries.lookup key).map (redactSecrets depth) := by
  induction entries with
  | nil => rfl
  | cons entry entries ih =>
      obtain ⟨name, value⟩ := entry
      rw [redactEntries, List.lookup_cons, List.lookup_cons]
      by_cases hname : key = name
      · subst hname
        rw [beq_self_eq_true, if_neg fun h => hkey ((isSecretKey_iff key).mp h)]
        rfl
      · rw [beq_false_of_ne hname]
        exact ih

theorem find_redactEntries {key : String} (hkey : ¬Secret key) (depth : ℕ)
    (entries : List (String × Json)) : Json.find (redactEntries depth entries) key =
      (Json.find entries key).map (redactSecrets depth) := by
  rw [Json.find, Json.find, redactEntries_eq, ← List.map_reverse, ← redactEntries_eq]
  exact lookup_redactEntries hkey depth entries.reverse

theorem sameOutline_redact {depth : ℕ} (h : depth ≤ maxDepth) (value : Json) :
    SameOutline value (redactSecrets depth value) := by
  have hdeep : ¬maxDepth < depth := Nat.not_lt.mpr h
  cases value with
  | arr items =>
      rw [redactSecrets, if_neg hdeep, SameOutline, redactItems_eq, List.length_map]
  | obj entries =>
      rw [redactSecrets, if_neg hdeep, SameOutline, redactEntries_eq, List.map_map]
      rfl
  | _ => simp [redactSecrets, hdeep, SameOutline]

theorem valueAt_redact {path : List Step} (hpath : ∀ step ∈ path, step.Open) {depth : ℕ}
    (h : depth + path.length ≤ maxDepth) (value : Json) :
    valueAt path (redactSecrets depth value) =
      (valueAt path value).map (redactSecrets (depth + path.length)) := by
  induction path generalizing depth value with
  | nil => rfl
  | cons step path ih =>
      rw [List.length_cons] at h
      have hdeep : ¬maxDepth < depth := by omega
      have ih := @ih (fun s hs => hpath s (List.mem_cons_of_mem step hs)) (depth + 1) (by omega)
      have hchild : child step (redactSecrets depth value) =
          (child step value).map (redactSecrets (depth + 1)) := by
        cases value with
        | arr items =>
            rw [redactSecrets, if_neg hdeep]
            cases step with
            | item index => rw [child, child, redactItems_eq, List.getElem?_map]
            | field key => rfl
        | obj entries =>
            rw [redactSecrets, if_neg hdeep]
            cases step with
            | item index => rfl
            | field key => exact find_redactEntries (hpath _ List.mem_cons_self) _ entries
        | _ => cases step <;> simp [redactSecrets, hdeep, child]
      rw [valueAt, valueAt, hchild, List.length_cons]
      cases child step value with
      | none => rfl
      | some next =>
          rw [Option.map_some, Option.bind_some, Option.bind_some, ih]
          congr 2
          omega

/-- Redacted values are the same exactly if the values differ only in what is secret or too deep;
all else is kept, and redacting again changes nothing. -/
theorem redactSecrets_spec (a b : Json) :
    (Alike 0 a b ↔ redactSecrets 0 a = redactSecrets 0 b) ∧
      (∀ path : List Step, (∀ step ∈ path, step.Open) → path.length ≤ maxDepth →
        Option.Rel SameOutline (valueAt path a) (valueAt path (redactSecrets 0 a))) ∧
      redactSecrets 0 (redactSecrets 0 a) = redactSecrets 0 a := by
  refine ⟨⟨Alike.redact_eq, alike_of_eq a b⟩, fun path hpath hlength => ?_, redactSecrets_idem 0 a⟩
  rw [valueAt_redact hpath (by omega)]
  cases valueAt path a with
  | none => exact .none
  | some value => exact .some (sameOutline_redact (by omega) value)

instance : DecidablePred Secret := fun key => decidable_of_iff _ (isSecretKey_iff key)

instance : DecidablePred Step.Open
  | .item _ => inferInstanceAs (Decidable True)
  | .field key => inferInstanceAs (Decidable (¬Secret key))

def login (token : String) : Json :=
  .arr [.obj [("user", .str "Alex"), ("Access_Token", .str token)]]

theorem redactSecrets_login : Option.Rel SameOutline
    (valueAt [.item 0, .field "user"] (login "a"))
    (valueAt [.item 0, .field "user"] (redactSecrets 0 (login "a"))) :=
  (redactSecrets_spec (login "a") (login "b")).2.1 _ (by decide +kernel) (by decide)

example : redactSecrets 0 (login "a") = redactSecrets 0 (login "b") := by decide +kernel

end AfkClient.Redaction
