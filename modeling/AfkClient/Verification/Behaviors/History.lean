import AfkClient.Model.HomeRecovery

/-! The import of a remembered home from the console log, and the home that the running
automation remembers. They part where a navigation command revokes a request: the log
forgets the request, the automation still takes the server's word for it. -/

namespace AfkClient.HomeRecovery

open Re Text Behaviors

/-! ### The server's line -/

def tag : List Char := "[HugoSMP]".toList

def words : List Char := "Du wurdest zu deinem Home ".toList

def farewell : List Char := " teleportiert!".toList

theorem greeting_toList :
    "[HugoSMP] Du wurdest zu deinem Home ".toList = tag ++ ' ' :: words := by
  decide +kernel

theorem toList_append₃ (a b c : String) :
    (a ++ b ++ c).toList = a.toList ++ (b.toList ++ c.toList) := by
  rw [String.toList_append, String.toList_append, List.append_assoc]

theorem confirmation_toList (home : String) :
    (confirmation home).toList = tag ++ ' ' :: (words ++ (home.toList ++ farewell)) :=
  calc
    _ = "[HugoSMP] Du wurdest zu deinem Home ".toList ++ (home.toList ++ farewell) :=
      toList_append₃ _ home _
    _ = (tag ++ ' ' :: words) ++ (home.toList ++ farewell) :=
      congrArg (· ++ (home.toList ++ farewell)) greeting_toList
    _ = _ := List.append_assoc ..

/-- The part of `arrivedRe` behind `^`. -/
def arrivedBody : Re :=
  seqs [opt serverTag, many space, ilit "Du wurdest zu deinem Home ", group 1 (some1 dot),
    ilit " teleportiert!", eos]

/-- Behind the tag, one space is skipped and the words are read. -/
theorem words_read {after rest rest' word sp : List Char} (hsplit : ' ' :: (words ++ after) = sp ++ rest)
    (hsp : ∀ x ∈ sp, isSpace x) (hread : rest = word ++ rest')
    (hword : List.Forall₂ (fun a x => sameLetter a x) words word) : rest' = after := by
  have hlength : words.length = word.length := hword.length_eq
  obtain ⟨x, word', rfl⟩ : ∃ x word', word = x :: word' := by
    cases word with
    | nil => exact absurd hlength (by decide)
    | cons x word' => exact ⟨x, word', rfl⟩
  have hx : sameLetter 'D' x = true := by
    cases hword with
    | cons hx _ => exact hx
  cases sp with
  | nil =>
      obtain ⟨rfl, -⟩ : ' ' = x ∧ _ := List.cons.inj (hsplit.trans hread)
      exact absurd hx (by decide)
  | cons s sp =>
      obtain ⟨-, hsplit⟩ := List.cons.inj hsplit
      cases sp with
      | nil => exact (List.append_inj (hsplit.trans hread) hlength).2.symm
      | cons s' sp =>
          obtain ⟨hs, -⟩ : 'D' = s' ∧ _ := List.cons.inj hsplit
          have hspace := hsp s' (by simp)
          rw [← hs] at hspace
          exact absurd hspace (by decide)

/-- Without its tag the line is not read. -/
theorem words_unread {x : Char} (hspace : isSpace x = false) (hx : sameLetter 'D' x = false)
    {after rest rest' word sp : List Char} (hsplit : x :: after = sp ++ rest)
    (hsp : ∀ x ∈ sp, isSpace x) (hread : rest = word ++ rest')
    (hword : List.Forall₂ (fun a x => sameLetter a x) words word) : False := by
  cases sp with
  | nil =>
      cases hword with
      | cons hd _ =>
          obtain ⟨rfl, -⟩ := List.cons.inj (hsplit.trans hread)
          exact absurd (hd.symm.trans hx) (by decide)
  | cons s sp =>
      obtain ⟨rfl, -⟩ := List.cons.inj hsplit
      simp [hspace] at hsp

/-- Every way to read a confirmation captures the name of the home. -/
theorem arrivedBody_sound {home : List Char} {d : Cursor}
    (h : d ∈ arrivedBody.matchesAt ⟨[], tag ++ ' ' :: (words ++ (home ++ farewell)), []⟩) :
    d.group? 1 = some home := by
  obtain ⟨c₁, h₁, h⟩ := mem_seq.mp h
  obtain ⟨c₂, h₂, h⟩ := mem_seq.mp h
  obtain ⟨c₃, h₃, h⟩ := mem_seq.mp h
  obtain ⟨c₄, h₄, h⟩ := mem_seq.mp h
  obtain ⟨c₅, h₅, h⟩ := mem_seq.mp h
  obtain ⟨c₆, h₆, h⟩ := mem_seq.mp h
  obtain ⟨sp, rest₂, hsp, hspace, rfl⟩ := mem_many_set.mp h₂
  obtain ⟨word, rest₃, hread, hword, rfl⟩ := mem_ilit.mp h₃
  obtain ⟨name, rest₄, -, hname, -, rfl⟩ := mem_group_some1_set.mp h₄
  obtain ⟨word', rest₅, hfarewell, hword', rfl⟩ := mem_ilit.mp h₅
  obtain ⟨hend, rfl⟩ := mem_eos.mp h₆
  obtain rfl := mem_eps.mp h
  have hrest : rest₃ = home ++ farewell := by
    obtain h₁ | h₁ := mem_alt.mp h₁
    · obtain h₁ | h₁ := mem_alt.mp h₁
      · obtain ⟨word₁, rest₁, htag, hmatch, rfl⟩ := mem_ilit.mp h₁
        have hlength : tag.length = word₁.length := hmatch.length_eq
        have hafter := (List.append_inj htag hlength).2.symm
        exact words_read (hafter.symm.trans hsp) hspace hread hword
      · obtain ⟨word₁, rest₁, htag, hmatch, -⟩ := mem_ilit.mp h₁
        cases hmatch with
        | cons hfirst _ =>
            obtain ⟨rfl, -⟩ := List.cons.inj htag
            exact absurd hfirst (by decide)
    · obtain rfl := mem_eps.mp h₁
      exact (words_unread (x := '[') (by decide) (by decide) hsp hspace hread hword).elim
  have hlength : farewell.length = word'.length := hword'.length_eq
  have hnil : rest₅ = [] := hend
  have hsame : home ++ farewell = name ++ word' := by
    rw [← hrest, ← List.append_nil word', ← hnil]
    exact hname.trans (congrArg (name ++ ·) hfarewell)
  rw [(List.append_inj' hsame hlength).1]
  rfl

theorem sameLetter_refl (text : List Char) : List.Forall₂ (fun a x => sameLetter a x) text text :=
  List.forall₂_same.mpr fun a _ => by simp [sameLetter]

theorem arrivedBody_complete {home : List Char} (hne : home ≠ [])
    (hline : ∀ c ∈ home, isLineTerminator c = false) :
    ∃ d, d ∈ arrivedBody.matchesAt ⟨[], tag ++ ' ' :: (words ++ (home ++ farewell)), []⟩ := by
  let c₀ : Cursor := ⟨[], tag ++ ' ' :: (words ++ (home ++ farewell)), []⟩
  let c₁ := c₀.skip tag (' ' :: (words ++ (home ++ farewell)))
  let c₂ := c₁.skip [' '] (words ++ (home ++ farewell))
  let c₃ := c₂.skip words (home ++ farewell)
  let c₄ : Cursor := { c₃.skip home farewell with groups := [(1, home)] }
  let c₅ := c₄.skip farewell []
  have h₁ : c₁ ∈ (opt serverTag).matchesAt c₀ :=
    mem_alt.mpr (.inl (mem_alt.mpr (.inl (mem_ilit.mpr ⟨tag, _, rfl, sameLetter_refl tag, rfl⟩))))
  have h₂ : c₂ ∈ (many space).matchesAt c₁ := mem_many_set.mpr ⟨[' '], _, rfl, by simp [isSpace], rfl⟩
  have h₃ : c₃ ∈ (ilit "Du wurdest zu deinem Home ").matchesAt c₂ :=
    mem_ilit.mpr ⟨words, _, rfl, sameLetter_refl words, rfl⟩
  have h₄ : c₄ ∈ (group 1 (some1 dot)).matchesAt c₃ :=
    mem_group_some1_set.mpr ⟨home, farewell, hne, rfl, fun c hc => by simp [hline c hc], rfl⟩
  have h₅ : c₅ ∈ (ilit " teleportiert!").matchesAt c₄ :=
    mem_ilit.mpr ⟨farewell, [], (List.append_nil farewell).symm, sameLetter_refl farewell, rfl⟩
  have h₆ : c₅ ∈ (seq eos eps).matchesAt c₅ := mem_seq.mpr ⟨c₅, mem_eos.mpr ⟨rfl, rfl⟩, mem_eps.mpr rfl⟩
  exact ⟨c₅, mem_seq.mpr ⟨c₁, h₁, mem_seq.mpr ⟨c₂, h₂, mem_seq.mpr ⟨c₃, h₃,
    mem_seq.mpr ⟨c₄, h₄, mem_seq.mpr ⟨c₅, h₅, h₆⟩⟩⟩⟩⟩⟩

/-- The automation reads the name off a confirmation that has one. -/
theorem arrived_confirmation (home : String) :
    arrivedRe.capture 1 (confirmation home).toList =
      if arrivedBody.matchesAt ⟨[], (confirmation home).toList, []⟩ = [] then none
      else some home.toList := by
  rw [confirmation_toList]
  exact capture_bos fun d hd => arrivedBody_sound hd

/-! ### Formatting -/

theorem trim_eq {first last : Char} {text : List Char} (hfirst : isSpace first = false)
    (hlast : isSpace last = false) : trim (first :: (text ++ [last])) = first :: (text ++ [last]) := by
  simp [trim, trimStart, hfirst, hlast]

/-- A text that begins with the tag is no JSON text. -/
theorem parse_tag (rest : List Char) : Json.parse ('[' :: 'H' :: rest) = none := by
  have hfuel : 2 * ('[' :: 'H' :: rest).length + 1 = (2 * rest.length + 2) + 1 + 1 + 1 := by
    simp only [List.length_cons]
    omega
  rw [Json.parse, hfuel]
  simp [Json.parseValue, Json.parseItems, Json.parseNumber, Json.skipSpace]

theorem removeTooltipCodes_eq {text : List Char} (h : '§' ∉ text) : removeTooltipCodes text = text := by
  induction text with
  | nil => rfl
  | cons c text ih =>
      cases text with
      | nil => rfl
      | cons d rest =>
          have hc : c ≠ '§' := fun hc => h (by simp [hc])
          have hrest : '§' ∉ d :: rest := fun hd => h (List.mem_cons_of_mem c hd)
          simp [removeTooltipCodes, hc, ih hrest]

theorem removeCodes_eq {text : List Char} (h : '§' ∉ text) : removeCodes text = text := by
  induction text with
  | nil => rfl
  | cons c text ih =>
      cases text with
      | nil => rfl
      | cons d rest =>
          have hc : c ≠ '§' := fun hc => h (by simp [hc])
          have hrest : '§' ∉ d :: rest := fun hd => h (List.mem_cons_of_mem c hd)
          simp [removeCodes, hc, ih hrest]

theorem confirmation_shape (home : String) : ∃ text,
    (confirmation home).toList = '[' :: 'H' :: (text ++ ['!']) := by
  have htag : tag = '[' :: 'H' :: "ugoSMP]".toList := by decide +kernel
  have hfarewell : farewell = " teleportiert".toList ++ ['!'] := by decide +kernel
  rw [confirmation_toList, htag, hfarewell]
  exact ⟨"ugoSMP]".toList ++ ' ' :: (words ++ (home.toList ++ " teleportiert".toList)), by simp⟩

theorem confirmation_codes {home : String} (h : '§' ∉ home.toList) : '§' ∉ (confirmation home).toList := by
  have htag : '§' ∉ tag ++ ' ' :: words := by decide +kernel
  have hfarewell : '§' ∉ farewell := by decide +kernel
  rw [confirmation_toList]
  simp_all

theorem trim_confirmation (home : String) :
    trim (confirmation home).toList = (confirmation home).toList := by
  obtain ⟨text, htext⟩ := confirmation_shape home
  rw [htext]
  exact @trim_eq '[' '!' ('H' :: text) (by decide) (by decide)

/-- Nothing is stripped from a confirmation without formatting codes. -/
theorem plain_confirmation {home : String} (h : '§' ∉ home.toList) :
    plain (confirmation home) = (confirmation home).toList := by
  have hcodes := confirmation_codes h
  have hfilter : (confirmation home).toList.filter (· ≠ '§') = (confirmation home).toList :=
    List.filter_eq_self.mpr fun c hc => by
      simpa using fun heq : c = '§' => hcodes (heq ▸ hc)
  have hparse : Json.parse (confirmation home).toList = none := by
    obtain ⟨text, htext⟩ := confirmation_shape home
    rw [htext]
    exact parse_tag _
  simp only [plain, tooltipText, componentText, removeTooltipCodes_eq hcodes, hfilter, hparse]
  split <;> exact trim_confirmation home

/-! ### Reading a confirmation -/

/-- The name of the home that the automation reads off a message. -/
def arrived (message : String) : Option String :=
  (arrivedRe.capture 1 (plain message)).map String.ofList

theorem arrived_eq_some {home name : String} (h : '§' ∉ home.toList)
    (hname : arrived (confirmation home) = some name) : name = home := by
  rw [arrived, plain_confirmation h, arrived_confirmation] at hname
  split at hname
  · simp at hname
  · simpa using hname.symm

theorem arrived_of_home {home : String} (h : '§' ∉ home.toList) (hne : home.toList ≠ [])
    (hline : ∀ c ∈ home.toList, isLineTerminator c = false) :
    arrived (confirmation home) = some home := by
  obtain ⟨d, hd⟩ := arrivedBody_complete hne hline
  rw [← confirmation_toList] at hd
  rw [arrived, plain_confirmation h, arrived_confirmation, if_neg (List.ne_nil_of_mem hd)]
  simp

theorem confirmation_injective {a b : String} (h : confirmation a = confirmation b) : a = b := by
  have hlist := congrArg String.toList h
  rw [confirmation_toList, confirmation_toList] at hlist
  exact String.toList_inj.mp (by simpa using hlist)

end AfkClient.HomeRecovery
