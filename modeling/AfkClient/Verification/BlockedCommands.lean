import AfkClient.Library.RegexSearch
import AfkClient.Model.BlockedCommands
import Mathlib.Data.List.DropRight
import Mathlib.Data.List.TakeWhile

/-! Whether the guards of the native client stop what the backend refuses. Both read a name
without white space and what follows it; they differ in what may follow. -/

namespace AfkClient.BlockedCommands

open Re Text
open Native (javaTrim javaSpace isJavaDot afkCommand)

/-! ### What follows a name -/

/-- The white space of a pattern of the Java library. -/
def isJavaSpace (c : Char) : Bool := c ∈ [' ', '\t', '\n', '\x0b', '\x0c', '\r']

/-- Nothing, or one of the six ASCII white spaces and then no line terminator. -/
inductive Plain : List Char → Prop where
  | nil : Plain []
  | space {c : Char} {rest : List Char} (h : isJavaSpace c = true)
      (hrest : ∀ x ∈ rest, isJavaDot x = true) : Plain (c :: rest)

/-- Without the spaces and control characters at its end. -/
def javaTrimEnd (text : List Char) : List Char := text.rdropWhile (· ≤ ' ')

/-- The text from its first white space on. -/
def arguments (text : List Char) : List Char := text.dropWhile (! isSpace ·)

/-- A slash command whose arguments the guards of the client understand. -/
structure Covered (text : List Char) : Prop where
  slash : text.head? = some '/'
  plain : Plain (javaTrimEnd (arguments text))

/-- The forbidden word, possibly behind a namespace of these characters. -/
inductive Name (p : Char → Bool) : List Char → Prop where
  | word {word : List Char} (h : List.Forall₂ (fun a x => sameLetter a x) "afk".toList word) :
      Name p word
  | qualified {space word : List Char} (hspace : ∀ c ∈ space, p c = true) (hne : space ≠ [])
      (h : List.Forall₂ (fun a x => sameLetter a x) "afk".toList word) :
      Name p (space ++ ':' :: word)

/-! ### The patterns -/

theorem mem_word {text : List Char} : text ∈ (ilit "afk").language ↔
    List.Forall₂ (fun a x => sameLetter a x) "afk".toList text := mem_language_ilit

theorem mem_name {p : Char → Bool} {text : List Char} :
    text ∈ (seqs [opt (seq (some1 (set p)) (lit ":")), ilit "afk"]).language ↔ Name p text := by
  rw [mem_language_seqs_pair]
  simp only [mem_language_opt, mem_language_seq, mem_language_some1_set, mem_word]
  constructor
  · rintro ⟨_, ⟨space, ⟨hne, hspace⟩, colon, hcolon, rfl⟩ | rfl, word, hword, rfl⟩
    · obtain rfl : colon = [':'] := (mem_language_lit [':'] colon).mp hcolon
      simpa using Name.qualified hspace hne hword
    · exact .word hword
  · intro h
    cases h with
    | word h => exact ⟨[], .inr rfl, text, h, rfl⟩
    | @qualified space word hspace hne h =>
        exact ⟨space ++ [':'], .inl ⟨space, ⟨hne, hspace⟩, [':'],
          (mem_language_lit [':'] [':']).mpr rfl, rfl⟩, word, h, by simp⟩

theorem mem_plain {text : List Char} :
    text ∈ (opt (seq javaSpace (many (set isJavaDot)))).language ↔ Plain text := by
  rw [mem_language_opt, mem_language_seq]
  constructor
  · rintro (⟨_, ⟨c, hc, rfl⟩, rest, hrest, rfl⟩ | rfl)
    · exact .space hc (mem_language_many_set.mp hrest)
    · exact .nil
  · intro h
    cases h with
    | nil => exact .inr rfl
    | @space c rest h hrest =>
        exact .inl ⟨[c], ⟨c, h, rfl⟩, rest, mem_language_many_set.mpr hrest, rfl⟩

theorem mem_slash {text : List Char} :
    text ∈ (opt (lit "/")).language ↔ text = ['/'] ∨ text = [] := by
  rw [mem_language_opt]
  exact or_congr_left (mem_language_lit ['/'] text)

/-- A pattern of the client: a slash or none, a name, and what may follow it. -/
theorem clientPattern_test (p : Char → Bool) (text : List Char) :
    (seqs [bos, opt (lit "/"), opt (seq (some1 (set p)) (lit ":")), ilit "afk",
      opt (seq javaSpace (many (set isJavaDot))), eos]).test text = true ↔
      ∃ name args, (text = name ++ args ∨ text = '/' :: (name ++ args)) ∧ Name p name ∧
        Plain args := by
  have hparts : ∀ r ∈ [opt (lit "/"), opt (seq (some1 (set p)) (lit ":")), ilit "afk",
      opt (seq javaSpace (many (set isJavaDot)))], r.anchorless = true := by
    simp [some1, many, opt, seqs, anchorless, lit, ilit, javaSpace]
  refine (test_anchored hparts text).trans ?_
  rw [mem_language_seqs_cons]
  constructor
  · rintro ⟨slash, hslash, _, hrest, rfl⟩
    rw [mem_language_seqs_cons] at hrest
    obtain ⟨space, hspace, _, hrest, rfl⟩ := hrest
    rw [mem_language_seqs_pair] at hrest
    obtain ⟨word, hword, args, hargs, rfl⟩ := hrest
    have hname : space ++ word ∈
        (seqs [opt (seq (some1 (set p)) (lit ":")), ilit "afk"]).language :=
      mem_language_seqs_pair.mpr ⟨space, hspace, word, hword, rfl⟩
    refine ⟨space ++ word, args, ?_, mem_name.mp hname, mem_plain.mp hargs⟩
    rcases mem_slash.mp hslash with rfl | rfl
    · exact .inr (by simp)
    · exact .inl (by simp)
  · rintro ⟨name, args, htext, hname, hargs⟩
    obtain ⟨space, hspace, word, hword, rfl⟩ := mem_language_seqs_pair.mp (mem_name.mpr hname)
    have hrest : space ++ (word ++ args) ∈ (seqs [opt (seq (some1 (set p)) (lit ":")),
        ilit "afk", opt (seq javaSpace (many (set isJavaDot)))]).language :=
      mem_language_seqs_cons.mpr ⟨space, hspace, _,
        mem_language_seqs_pair.mpr ⟨word, hword, args, mem_plain.mpr hargs, rfl⟩, rfl⟩
    rcases htext with rfl | rfl
    · exact ⟨[], mem_slash.mpr (.inr rfl), _, hrest, by simp⟩
    · exact ⟨['/'], mem_slash.mpr (.inl rfl), _, hrest, by simp⟩

/-- What the backend refuses. -/
theorem isBlockedAfkCommand_iff (text : String) : isBlockedAfkCommand text = true ↔
    ∃ name args, trim text.toList = '/' :: (name ++ args) ∧ Name isNamespaceChar name ∧
      ∀ c ∈ args.head?, isSpace c = true := by
  have hparts : ∀ r ∈ [lit "/", opt (seq (some1 (set isNamespaceChar)) (lit ":")), ilit "afk"],
      r.anchorless = true := by
    simp [some1, many, opt, seqs, anchorless, lit, ilit]
  have hlast : ∀ c : Cursor, (oneOf [space, eos]).matchesAt c ≠ [] ↔
      ∀ x ∈ c.after.head?, isSpace x = true := by
    intro c
    cases hafter : c.after with
    | nil => simp [oneOf, space, matchesAt, hafter]
    | cons x rest => by_cases hx : isSpace x = true <;> simp [oneOf, space, matchesAt, hafter, hx]
  refine (test_begins (P := fun rest => ∀ x ∈ rest.head?, isSpace x = true) hparts hlast
    (trim text.toList)).trans ?_
  constructor
  · rintro ⟨front, args, htext, hfront, hargs⟩
    rw [mem_language_seqs_cons] at hfront
    obtain ⟨slash, hslash, name, hname, rfl⟩ := hfront
    obtain rfl : slash = ['/'] := (mem_language_lit ['/'] slash).mp hslash
    exact ⟨name, args, by simpa using htext, mem_name.mp hname, hargs⟩
  · rintro ⟨name, args, htext, hname, hargs⟩
    exact ⟨'/' :: name, args, by simpa using htext, mem_language_seqs_cons.mpr
      ⟨['/'], (mem_language_lit ['/'] ['/']).mpr rfl, name, mem_name.mpr hname, rfl⟩, hargs⟩

/-! ### Characters -/

theorem gt_of_sameLetter {a c : Char} (ha : a.toLower = a) (hgt : ' ' < a)
    (h : sameLetter a c = true) : ' ' < c := by
  by_contra hle
  have hnat : c.toNat ≤ ' '.toNat := Char.not_lt.mp hle
  have hlower : c.toLower = c := by
    unfold Char.toLower
    refine dif_neg fun hupper => ?_
    have hlow : 'A'.toNat ≤ c.toNat := hupper.1
    exact absurd (hlow.trans hnat) (by decide)
  rw [sameLetter, hlower, ha, beq_iff_eq] at h
  exact hle (h ▸ hgt)

theorem isSpace_of_javaSpace {c : Char} (h : isJavaSpace c = true) : isSpace c = true := by
  simp only [isJavaSpace, List.mem_cons, List.not_mem_nil, or_false, decide_eq_true_eq] at h
  rcases h with rfl | rfl | rfl | rfl | rfl | rfl <;> decide

/-- No white space for either side. -/
def Solid (c : Char) : Prop := isSpace c = false ∧ ' ' < c

theorem solid_of_sameLetter {a c : Char} (ha : a.toLower = a) (hsolid : Solid a)
    (h : sameLetter a c = true) : Solid c :=
  ⟨not_space_of_sameLetter ha hsolid.1 h, gt_of_sameLetter ha hsolid.2 h⟩

theorem solid_of_val {c : Char} (hlow : 48 ≤ c.toNat) (hhigh : c.toNat ≤ 122) : Solid c := by
  constructor
  · by_contra hspace
    have hval := val_of_space (by simpa using hspace)
    omega
  · rw [← Char.not_le]
    intro hle
    have hnat : c.toNat ≤ ' '.toNat := hle
    exact absurd (hlow.trans hnat) (by decide)

theorem solid_of_namespace {c : Char} (h : isNamespaceChar c = true) : Solid c := by
  rw [isNamespaceChar, Bool.or_eq_true, decide_eq_true_eq] at h
  rcases h with h | h
  · unfold Char.isAlphanum Char.isAlpha Char.isUpper Char.isLower Char.isDigit at h
    simp only [Bool.or_eq_true, Bool.and_eq_true, decide_eq_true_eq] at h
    have hbounds : 48 ≤ c.val.toNat ∧ c.val.toNat ≤ 122 := by
      have hval : c.toNat = c.val.toNat := rfl
      simp only [ge_iff_le, UInt32.le_iff_toNat_le] at h
      simp at h
      omega
    exact solid_of_val hbounds.1 hbounds.2
  · simp only [List.mem_cons, List.not_mem_nil, or_false] at h
    rcases h with rfl | rfl | rfl <;> exact ⟨by decide, by decide⟩

theorem Name.solid {name : List Char} (h : Name isNamespaceChar name) : ∀ c ∈ name, Solid c := by
  have hword : ∀ word, List.Forall₂ (fun a x => sameLetter a x) "afk".toList word →
      ∀ c ∈ word, Solid c := by
    intro word h
    cases h with
    | cons ha h =>
        cases h with
        | cons hf h =>
            cases h with
            | cons hk h =>
                cases h
                intro c hc
                simp only [List.mem_cons, List.not_mem_nil, or_false] at hc
                rcases hc with rfl | rfl | rfl
                · exact solid_of_sameLetter rfl ⟨by decide, by decide⟩ ha
                · exact solid_of_sameLetter rfl ⟨by decide, by decide⟩ hf
                · exact solid_of_sameLetter rfl ⟨by decide, by decide⟩ hk
  intro c hc
  cases h with
  | word h => exact hword _ h c hc
  | @qualified space word hspace _ h =>
      rcases List.mem_append.mp hc with hc | hc
      · exact solid_of_namespace (hspace c hc)
      · rcases List.mem_cons.mp hc with rfl | hc
        · exact ⟨by decide, by decide⟩
        · exact hword _ h c hc

theorem Name.slash_solid {name : List Char} (h : Name isNamespaceChar name) :
    ∀ c ∈ '/' :: name, Solid c := by
  intro c hc
  rcases List.mem_cons.mp hc with rfl | hc
  · exact ⟨by decide, by decide⟩
  · exact h.solid c hc

/-! ### Trimming -/

theorem javaTrimEnd_concat (text : List Char) (x : Char) :
    javaTrimEnd (text ++ [x]) = if x ≤ ' ' then javaTrimEnd text else text ++ [x] := by
  rw [javaTrimEnd, List.rdropWhile_concat]
  by_cases hx : x ≤ ' '
  · rw [if_pos hx, if_pos (decide_eq_true hx)]
    rfl
  · rw [if_neg hx, if_neg (by simpa using hx)]

theorem javaTrimEnd_append {front : List Char} (hfront : ∀ c ∈ front, ' ' < c)
    (rest : List Char) : javaTrimEnd (front ++ rest) = front ++ javaTrimEnd rest := by
  induction rest using List.reverseRecOn with
  | nil =>
      rw [javaTrimEnd, javaTrimEnd, List.rdropWhile_nil, List.append_nil,
        List.rdropWhile_eq_self_iff]
      intro hne
      simpa using hfront _ (List.getLast_mem hne)
  | append_singleton rest x ih =>
      rw [← List.append_assoc, javaTrimEnd_concat, javaTrimEnd_concat]
      by_cases hx : x ≤ ' '
      · rw [if_pos hx, if_pos hx]
        exact ih
      · rw [if_neg hx, if_neg hx, List.append_assoc]

theorem javaTrim_append {front : List Char} (hfront : ∀ c ∈ front, ' ' < c) (hne : front ≠ [])
    (rest : List Char) : javaTrim (front ++ rest) = front ++ javaTrimEnd rest := by
  have hstart : (front ++ rest).dropWhile (· ≤ ' ') = front ++ rest := by
    cases front with
    | nil => exact absurd rfl hne
    | cons c front =>
        have hc : ¬ c ≤ ' ' := Char.not_le.mpr (hfront c (by simp))
        simp [hc]
  change ((front ++ rest).dropWhile (· ≤ ' ')).rdropWhile (· ≤ ' ') = _
  rw [hstart]
  exact javaTrimEnd_append hfront rest

theorem javaTrimEnd_prefix_append (args trailing : List Char) :
    javaTrimEnd args <+: javaTrimEnd (args ++ trailing) := by
  induction trailing using List.reverseRecOn with
  | nil => rw [List.append_nil]
  | append_singleton trailing x ih =>
      rw [← List.append_assoc, javaTrimEnd_concat]
      by_cases hx : x ≤ ' '
      · rw [if_pos hx]
        exact ih
      · rw [if_neg hx, List.append_assoc]
        exact ( List.rdropWhile_prefix _ _).trans (List.prefix_append args _)

theorem trimStart_split (text : List Char) :
    ∃ lead, text = lead ++ trimStart text ∧ ∀ c ∈ lead, isSpace c = true :=
  ⟨text.takeWhile isSpace, (List.takeWhile_append_dropWhile).symm, fun _ hc =>
    List.mem_takeWhile_imp hc⟩

theorem trim_split (text : List Char) : ∃ lead trailing, text = lead ++ (trim text ++ trailing) ∧
    (∀ c ∈ lead, isSpace c = true) ∧ ∀ c ∈ trailing, isSpace c = true := by
  obtain ⟨lead, htext, hlead⟩ := trimStart_split text
  obtain ⟨back, hback, hspace⟩ := trimStart_split (trimStart text).reverse
  refine ⟨lead, back.reverse, ?_, hlead, fun c hc => hspace c (List.mem_reverse.mp hc)⟩
  have hreverse := congrArg List.reverse hback
  rw [List.reverse_reverse, List.reverse_append] at hreverse
  rw [trim, ← hreverse]
  exact htext

theorem Plain.of_prefix {text front : List Char} (h : Plain text) (hfront : front <+: text) :
    Plain front := by
  cases front with
  | nil => exact .nil
  | cons c front =>
      cases h with
      | nil => cases List.prefix_nil.mp hfront
      | @space d rest hd hrest =>
          obtain ⟨rfl, hfirst⟩ := List.cons_prefix_cons.mp hfront
          exact .space hd fun x hx => hrest x (hfirst.mem hx)

theorem Plain.head {text : List Char} (h : Plain text) : ∀ c ∈ text.head?, isSpace c = true := by
  cases h with
  | nil => simp
  | space hc _ => simpa using isSpace_of_javaSpace hc

theorem arguments_append {front args : List Char} (hfront : ∀ c ∈ front, Solid c)
    (hargs : ∀ c ∈ args.head?, isSpace c = true) : arguments (front ++ args) = args := by
  have hdrop : ∀ c ∈ front, (! isSpace c) = true := fun c hc => by simp [(hfront c hc).1]
  rw [arguments, List.dropWhile_append_of_pos hdrop]
  cases args with
  | nil => rfl
  | cons c args => simp [hargs c (by simp)]

/-! ### The guards -/

theorem blocked_iff {front name args : List Char} (hfront : front = name ∨ front = '/' :: name)
    (hname : Name isNamespaceChar name) (hargs : ∀ c ∈ args.head?, isSpace c = true) :
    blocked (front ++ args) = true ↔ Plain (javaTrimEnd args) := by
  have hfront' : ∀ c ∈ front, Solid c := by
    rcases hfront with rfl | rfl
    · exact hname.solid
    · exact hname.slash_solid
  have hne : front ≠ [] := by
    rcases hfront with rfl | rfl
    · rintro rfl
      generalize hempty : ([] : List Char) = name at hname
      cases hname with
      | word h => cases hempty; cases h
      | qualified _ _ _ => simp at hempty
    · simp
  have hlast : ∀ c ∈ (javaTrimEnd args).head?, isSpace c = true := by
    intro c hc
    have hfirst : javaTrimEnd args <+: args := List.rdropWhile_prefix _ _
    obtain ⟨rest, hrest⟩ := List.head?_eq_some_iff.mp hc
    obtain ⟨tail, htail⟩ := hfirst
    rw [hrest] at htail
    exact hargs c (by simp [← htail])
  rw [blocked, javaTrim_append (fun c hc => (hfront' c hc).2) hne, clientPattern_test]
  constructor
  · rintro ⟨name', args', htext, hname', hplain⟩
    have hequal := arguments_append hfront' hlast
    rcases htext with htext | htext
    · rw [htext, arguments_append hname'.solid hplain.head] at hequal
      exact hequal ▸ hplain
    · rw [htext, ← List.cons_append, arguments_append hname'.slash_solid hplain.head] at hequal
      exact hequal ▸ hplain
  · intro hplain
    rcases hfront with rfl | rfl
    · exact ⟨front, _, .inl rfl, hname, hplain⟩
    · exact ⟨name, _, .inr rfl, hname, hplain⟩

/-- On no path does the connection send the text. -/
structure Silent (text : String) : Prop where
  command : sendSlashCommand text.toList = []
  chat : sendChat text.toList = []
  sale : ∀ config : BehaviorConfig, config.autosellCommand = some text → sendSale config = []

theorem sendCommand_eq_nil {command : List Char} :
    sendCommand command = [] ↔ blocked command = true := by
  by_cases h : blocked command = true <;> simp [sendCommand, h]

theorem sendChat_eq_nil {message : List Char} :
    sendChat message = [] ↔ message.head? = some '/' ∧ blocked message = true := by
  by_cases h : message.head? = some '/' ∧ blocked message = true <;> simp [sendChat, h]

/-- What the guards of the client see of a refused text with its slash in front. -/
theorem split_of_blocked {text : String} (h : isBlockedAfkCommand text = true)
    (hslash : text.toList.head? = some '/') :
    ∃ name args trailing, text.toList = '/' :: (name ++ (args ++ trailing)) ∧
      trim text.toList = '/' :: (name ++ args) ∧ Name isNamespaceChar name ∧
      (∀ c ∈ args.head?, isSpace c = true) ∧
      ∀ c ∈ (args ++ trailing).head?, isSpace c = true := by
  obtain ⟨name, args, htrim, hname, hargs⟩ := (isBlockedAfkCommand_iff text).mp h
  obtain ⟨lead, trailing, htext, hlead, htrailing⟩ := trim_split text.toList
  have hnil : lead = [] := by
    cases lead with
    | nil => rfl
    | cons c lead =>
        rw [htext] at hslash
        obtain rfl : c = '/' := by simpa using hslash
        exact absurd (hlead '/' (by simp)) (by decide)
  refine ⟨name, args, trailing, ?_, htrim, hname, hargs, ?_⟩
  · rw [htext, hnil, htrim]
    simp
  · cases args with
    | nil => exact fun c hc => htrailing c (List.mem_of_mem_head? hc)
    | cons c args => simpa using hargs

theorem javaTrimEnd_javaTrimEnd (text : List Char) :
    javaTrimEnd (javaTrimEnd text) = javaTrimEnd text :=
  List.rdropWhile_idempotent _ _

theorem sendSale_of_plain {config : BehaviorConfig} {text : String} {name args : List Char}
    (hconfig : config.autosellCommand = some text)
    (htrim : trim text.toList = '/' :: (name ++ args)) (hname : Name isNamespaceChar name)
    (hplain : Plain (javaTrimEnd args)) : sendSale config = [] := by
  have hne : text ≠ "" := by
    rintro rfl
    exact absurd htrim (by simp [trim, trimStart])
  have hcommand : javaTrim config.sellConfig.command.toList =
      '/' :: (name ++ javaTrimEnd args) := by
    have hfront : javaTrim ('/' :: name ++ args) = '/' :: name ++ javaTrimEnd args :=
      javaTrim_append (fun c hc => (hname.slash_solid c hc).2) (by simp) args
    have hset : (Option.filter (fun command => decide (command ≠ "")) (some text)).getD "/sell"
        = text := by
      rw [Option.filter_some, if_pos (decide_eq_true hne)]
      rfl
    rw [BehaviorConfig.sellConfig, hconfig, hset, htrim]
    simpa using hfront
  simp only [sendSale, hcommand]
  by_cases hafk : afkCommand ('/' :: (name ++ javaTrimEnd args)) = true
  · simp [hafk]
  · have hblocked : blocked (name ++ javaTrimEnd args) = true := by
      refine (blocked_iff (.inl rfl) hname hplain.head).mpr ?_
      rw [javaTrimEnd_javaTrimEnd]
      exact hplain
    simp [hafk, sendCommand_eq_nil.mpr hblocked]

/-- A refused text stays off the connection exactly when the client can read its arguments. -/
theorem blocked_commands_iff (text : String) :
    (isBlockedAfkCommand text = true → Silent text) ↔
      (isBlockedAfkCommand text = true → Covered text.toList) := by
  refine forall_congr' fun hrefused => ?_
  constructor
  · intro hsilent
    obtain ⟨hslash, hblocked⟩ := sendChat_eq_nil.mp hsilent.chat
    obtain ⟨name, args, trailing, htext, -, hname, -, hspace⟩ := split_of_blocked hrefused hslash
    refine ⟨hslash, ?_⟩
    rw [htext] at hblocked ⊢
    have harguments : arguments ('/' :: name ++ (args ++ trailing)) = args ++ trailing :=
      arguments_append hname.slash_solid hspace
    rw [List.cons_append] at harguments
    rw [harguments]
    exact (blocked_iff (.inr rfl) hname hspace).mp hblocked
  · rintro ⟨hslash, hplain⟩
    obtain ⟨name, args, trailing, htext, htrim, hname, -, hspace⟩ :=
      split_of_blocked hrefused hslash
    have harguments : arguments ('/' :: name ++ (args ++ trailing)) = args ++ trailing :=
      arguments_append hname.slash_solid hspace
    rw [htext, ← List.cons_append, harguments] at hplain
    refine ⟨?_, ?_, fun config hconfig => ?_⟩
    · rw [htext]
      exact sendCommand_eq_nil.mpr ((blocked_iff (.inl rfl) hname hspace).mpr hplain)
    · rw [sendChat_eq_nil, htext]
      exact ⟨rfl, (blocked_iff (.inr rfl) hname hspace).mpr hplain⟩
    · exact sendSale_of_plain hconfig htrim hname
        (hplain.of_prefix (javaTrimEnd_prefix_append args trailing))

/-- A line separator in the argument: the backend refuses the text, the client sends it. -/
theorem blocked_commands_separator :
    ¬ ∀ text, isBlockedAfkCommand text = true → Silent text := by
  intro h
  have hrefused : isBlockedAfkCommand "/afk x\u2028y" = true := by decide +kernel
  have hsent : sendChat "/afk x\u2028y".toList = [.chat "/afk x\u2028y".toList] := by
    decide +kernel
  rw [(h _ hrefused).chat] at hsent
  cases hsent

end AfkClient.BlockedCommands
