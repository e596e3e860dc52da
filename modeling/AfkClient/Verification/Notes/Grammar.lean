import AfkClient.Model.NoteDocument

/-! The grammar of the documents, and the loop that checks it. -/

namespace AfkClient

namespace Json

theorem size_find {entries : List (String × Json)} {name : String} {value : Json}
    (h : find entries name = some value) : value.size ≤ sizeEntries entries := by
  have hmem : (name, value) ∈ entries := by
    rw [find, List.lookup_eq_some_iff] at h
    obtain ⟨before, after, happ, -⟩ := h
    rw [← List.mem_reverse, happ]
    simp
  clear h
  induction entries with
  | nil => simp at hmem
  | cons entry entries ih =>
      rcases List.mem_cons.mp hmem with rfl | hmem
      · simp only [sizeEntries]
        omega
      · simp only [sizeEntries]
        have := ih hmem
        omega

theorem sizeItems_eq (items : List Json) : sizeItems items = (items.map size).sum := by
  induction items with
  | nil => rfl
  | cons item items ih => simp [sizeItems, ih]

end Json

namespace NoteDocument

open Json

/-! ### The grammar -/

/-- What may stand at a place. -/
inductive Place where
  | document | block | item | inline | plain

/-- The children of a node, if it has content. -/
inductive Content : Option Json → List Json → Prop where
  | absent : Content none []
  | given (items : List Json) : Content (some (.arr items)) items

/-- A node with its type and what it has under the other four keys. -/
def Node (value : Json) (type : String) (text attrs marks content : Option Json) : Prop :=
  ∃ node, value = .obj node ∧
    (∀ entry ∈ node, entry.1 ∈ ["type", "content", "attrs", "text", "marks"]) ∧
    find node "type" = some (.str type) ∧ find node "text" = text ∧ find node "attrs" = attrs ∧
    find node "marks" = marks ∧ find node "content" = content

/-- `undefined`, `null` or a string for which `P` holds. -/
inductive Nullable (P : String → Prop) : Option Json → Prop where
  | absent : Nullable P none
  | null : Nullable P (some .null)
  | given (s : String) (h : P s) : Nullable P (some (.str s))

/-- No attributes, or an object with none but the allowed ones for which `P` holds. -/
inductive Attrs (allowed : List String) (P : List (String × Json) → Prop) : Option Json → Prop where
  | absent : Attrs allowed P none
  | given (attrs : List (String × Json)) (hkeys : ∀ entry ∈ attrs, entry.1 ∈ allowed)
      (h : P attrs) :
      Attrs allowed P (some (.obj attrs))

def NoAttrs : Option Json → Prop := Attrs [] fun _ => True

def Alignment : Option Json → Prop := Nullable fun s => s = "left" ∨ s = "center"

def ParagraphAttrs : Option Json → Prop :=
  Attrs ["textAlign"] fun attrs => Alignment (find attrs "textAlign")

def HeadingAttrs : Option Json → Prop :=
  Attrs ["level", "textAlign"] fun attrs =>
    (∃ n : ℚ, (n = 1 ∨ n = 2 ∨ n = 3) ∧ find attrs "level" = some (.num n)) ∧
      Alignment (find attrs "textAlign")

def OrderedListAttrs : Option Json → Prop :=
  Attrs ["start", "type"] fun attrs =>
    (∃ n : ℕ, 1 ≤ n ∧ n ≤ 9007199254740991 ∧ find attrs "start" = some (.num n)) ∧
      Nullable (· = "1") (find attrs "type")

def CodeBlockAttrs : Option Json → Prop :=
  Attrs ["language"] fun attrs =>
    find attrs "language" = some .null ∨ ∃ s, find attrs "language" = some (.str s)

/-- A link to an address of an allowed protocol. -/
def LinkAttrs (url : UrlParser) : Option Json → Prop := fun value =>
  ∃ attrs href protocol, value = some (.obj attrs) ∧
    (∀ entry ∈ attrs, entry.1 ∈ ["href", "target", "rel", "class", "title"]) ∧
    find attrs "href" = some (.str href) ∧ url href = some protocol ∧
    (protocol = "https:" ∨ protocol = "http:" ∨ protocol = "mailto:") ∧
    Nullable (· = "_blank") (find attrs "target") ∧ Nullable (fun _ => True) (find attrs "rel") ∧
    Nullable (fun _ => False) (find attrs "class") ∧ Nullable (fun _ => True) (find attrs "title")

/-- A mark with its type and its attributes. -/
def MarkNode (value : Json) (type : String) (attrs : Option Json) : Prop :=
  ∃ mark, value = .obj mark ∧ (∀ entry ∈ mark, entry.1 ∈ ["type", "attrs"]) ∧
    find mark "type" = some (.str type) ∧ find mark "attrs" = attrs

inductive Mark (url : UrlParser) : Json → Prop where
  | style {value : Json} {type : String} {attrs : Option Json} (hnode : MarkNode value type attrs)
      (htype : type ∈ ["bold", "italic", "underline", "strike", "code"]) (hattrs : NoAttrs attrs) :
      Mark url value
  | link {value : Json} {attrs : Option Json} (hnode : MarkNode value "link" attrs)
      (hattrs : LinkAttrs url attrs) : Mark url value

inductive Marks (url : UrlParser) : Option Json → Prop where
  | absent : Marks url none
  | given (marks : List Json) (h : ∀ mark ∈ marks, Mark url mark) : Marks url (some (.arr marks))

def TypeIs (value : Json) (type : String) : Prop :=
  ∃ node, value = .obj node ∧ find node "type" = some (.str type)

/-- The value stands at a place and depth of a document. -/
inductive Derives (url : UrlParser) : Place → ℕ → Json → Prop where
  | document {value : Json} {attrs : Option Json} {items : List Json}
      (hnode : Node value "doc" none attrs none (some (.arr items))) (hattrs : NoAttrs attrs)
      (hne : items ≠ []) (hitems : ∀ item ∈ items, Derives url .block 1 item) :
      Derives url .document 0 value
  | paragraph {value : Json} {d : ℕ} {attrs content : Option Json} {items : List Json} (hd : d ≤ 64)
      (hnode : Node value "paragraph" none attrs none content) (hattrs : ParagraphAttrs attrs)
      (hcontent : Content content items)
      (hitems : ∀ item ∈ items, Derives url .inline (d + 1) item) :
      Derives url .block d value
  | heading {value : Json} {d : ℕ} {attrs content : Option Json} {items : List Json} (hd : d ≤ 64)
      (hnode : Node value "heading" none attrs none content) (hattrs : HeadingAttrs attrs)
      (hcontent : Content content items)
      (hitems : ∀ item ∈ items, Derives url .inline (d + 1) item) :
      Derives url .block d value
  | bulletList {value : Json} {d : ℕ} {attrs : Option Json} {items : List Json} (hd : d ≤ 64)
      (hnode : Node value "bulletList" none attrs none (some (.arr items))) (hattrs : NoAttrs attrs)
      (hne : items ≠ []) (hitems : ∀ item ∈ items, Derives url .item (d + 1) item) :
      Derives url .block d value
  | orderedList {value : Json} {d : ℕ} {attrs : Option Json} {items : List Json} (hd : d ≤ 64)
      (hnode : Node value "orderedList" none attrs none (some (.arr items)))
      (hattrs : OrderedListAttrs attrs)
      (hne : items ≠ []) (hitems : ∀ item ∈ items, Derives url .item (d + 1) item) :
      Derives url .block d value
  | blockquote {value : Json} {d : ℕ} {attrs content : Option Json} {items : List Json}
      (hd : d ≤ 64)
      (hnode : Node value "blockquote" none attrs none content) (hattrs : NoAttrs attrs)
      (hcontent : Content content items)
      (hitems : ∀ item ∈ items, Derives url .block (d + 1) item) :
      Derives url .block d value
  | codeBlock {value : Json} {d : ℕ} {attrs content : Option Json} {items : List Json} (hd : d ≤ 64)
      (hnode : Node value "codeBlock" none attrs none content) (hattrs : CodeBlockAttrs attrs)
      (hcontent : Content content items)
      (hitems : ∀ item ∈ items, Derives url .plain (d + 1) item) :
      Derives url .block d value
  | horizontalRule {value : Json} {d : ℕ} {attrs : Option Json} (hd : d ≤ 64)
      (hnode : Node value "horizontalRule" none attrs none none) (hattrs : NoAttrs attrs) :
      Derives url .block d value
  | listItem {value : Json} {d : ℕ} {attrs : Option Json} {first : Json} {rest : List Json}
      (hd : d ≤ 64) (hnode : Node value "listItem" none attrs none (some (.arr (first :: rest))))
      (hattrs : NoAttrs attrs) (hfirst : TypeIs first "paragraph")
      (hitems : ∀ item ∈ first :: rest, Derives url .block (d + 1) item) :
      Derives url .item d value
  | text {value : Json} {d : ℕ} {s : String} {attrs marks : Option Json} (hd : d ≤ 64)
      (hnode : Node value "text" (some (.str s)) attrs marks none) (hs : s ≠ "")
      (hattrs : NoAttrs attrs) (hmarks : Marks url marks) : Derives url .inline d value
  | hardBreak {value : Json} {d : ℕ} {attrs : Option Json} (hd : d ≤ 64)
      (hnode : Node value "hardBreak" none attrs none none) (hattrs : NoAttrs attrs) :
      Derives url .inline d value
  | plainText {value : Json} {d : ℕ} {s : String} {attrs : Option Json} (hd : d ≤ 64)
      (hnode : Node value "text" (some (.str s)) attrs none none) (hs : s ≠ "")
      (hattrs : NoAttrs attrs) : Derives url .plain d value

/-! ### The tests of the code -/

theorem keys_iff {entries : List (String × Json)} {allowed : List String} :
    keys entries allowed ↔ ∀ entry ∈ entries, entry.1 ∈ allowed := by
  simp [keys]

theorem isNullOr_iff {allowed : String → Bool} {P : String → Prop} (h : ∀ s, allowed s ↔ P s)
    {value : Option Json} : isNullOr allowed value ↔ Nullable P value := by
  constructor
  · intro hv
    match value, hv with
    | none, _ => exact .absent
    | some .null, _ => exact .null
    | some (.str s), hv => exact .given s ((h s).mp hv)
  · intro hv
    cases hv with
    | absent => rfl
    | null => rfl
    | given s hs => exact (h s).mpr hs

theorem isAlignment_iff {value : Option Json} : isAlignment value ↔ Alignment value :=
  isNullOr_iff (by simp)

theorem isLevel_iff {value : Option Json} :
    isLevel value ↔ ∃ n : ℚ, (n = 1 ∨ n = 2 ∨ n = 3) ∧ value = some (.num n) := by
  constructor
  · intro h
    match value, h with
    | some (.num n), h => exact ⟨n, by simpa [isLevel, or_assoc] using h, rfl⟩
  · rintro ⟨n, hn, rfl⟩
    simpa [isLevel, or_assoc] using hn

theorem isStart_iff {value : Option Json} :
    isStart value ↔ ∃ n : ℕ, 1 ≤ n ∧ n ≤ 9007199254740991 ∧ value = some (.num n) := by
  constructor
  · intro h
    match value, h with
    | some (.num q), h =>
        simp only [isStart, Bool.and_eq_true, decide_eq_true_eq] at h
        obtain ⟨⟨hden, hle⟩, hge⟩ := h
        obtain ⟨z, rfl⟩ : ∃ z : ℤ, (z : ℚ) = q := ⟨q.num, Rat.den_eq_one_iff q |>.mp hden⟩
        have hge : (1 : ℤ) ≤ z := by exact_mod_cast hge
        have hle : z ≤ 9007199254740991 := by exact_mod_cast hle
        exact ⟨z.toNat, by omega, by omega, by
          rw [← Int.cast_natCast, Int.toNat_of_nonneg (by omega)]⟩
  · rintro ⟨n, hge, hle, rfl⟩
    simp only [isStart, Bool.and_eq_true, decide_eq_true_eq]
    exact ⟨⟨Rat.den_natCast n, by exact_mod_cast hle⟩, by exact_mod_cast hge⟩

theorem attrsOk_iff {type : String} {allowed : List String} {test : List (String × Json) → Bool}
    {P : List (String × Json) → Prop} (htest : ∀ attrs, test attrs ↔ P attrs)
    (htype : ∀ attrs, attrsOk type (some (.obj attrs)) = (keys attrs allowed && test attrs))
    {value : Option Json} : attrsOk type value ↔ Attrs allowed P value := by
  constructor
  · intro h
    match value, h with
    | none, _ => exact .absent
    | some (.obj attrs), h =>
        rw [htype, Bool.and_eq_true] at h
        exact .given attrs (keys_iff.mp h.1) ((htest attrs).mp h.2)
  · intro h
    cases h with
    | absent => rfl
    | given attrs hkeys h =>
        rw [htype, Bool.and_eq_true]
        exact ⟨keys_iff.mpr hkeys, (htest attrs).mpr h⟩

theorem keys_nil (attrs : List (String × Json)) : attrs.isEmpty = keys attrs [] := by
  cases attrs <;> simp [keys]

theorem paragraphAttrs_iff {value : Option Json} :
    attrsOk "paragraph" value ↔ ParagraphAttrs value :=
  attrsOk_iff (fun _ => isAlignment_iff) fun attrs => by simp [attrsOk]

theorem headingAttrs_iff {value : Option Json} : attrsOk "heading" value ↔ HeadingAttrs value :=
  attrsOk_iff (fun _ => by rw [← isLevel_iff, ← isAlignment_iff, ← Bool.and_eq_true])
    fun attrs => by simp [attrsOk, Bool.and_assoc]

theorem orderedListAttrs_iff {value : Option Json} :
    attrsOk "orderedList" value ↔ OrderedListAttrs value := by
  have htype (value : Option Json) : isNullOr (· = "1") value ↔ Nullable (· = "1") value :=
    isNullOr_iff (by simp)
  exact attrsOk_iff (fun _ => by rw [← isStart_iff, ← htype, ← Bool.and_eq_true])
    fun attrs => by simp [attrsOk, Bool.and_assoc]

theorem isLanguage_iff {value : Option Json} :
    isLanguage value ↔ value = some .null ∨ ∃ s, value = some (.str s) := by
  constructor
  · intro h
    match value, h with
    | some .null, _ => exact .inl rfl
    | some (.str s), _ => exact .inr ⟨s, rfl⟩
  · rintro (rfl | ⟨s, rfl⟩) <;> rfl

theorem codeBlockAttrs_iff {value : Option Json} :
    attrsOk "codeBlock" value ↔ CodeBlockAttrs value :=
  attrsOk_iff (fun _ => isLanguage_iff) fun attrs => by simp [attrsOk]

theorem noAttrs_iff {type : String}
    (htype : type ∉ ["heading", "paragraph", "orderedList", "codeBlock"])
    {value : Option Json} : attrsOk type value ↔ NoAttrs value := by
  simp only [List.mem_cons, List.not_mem_nil, or_false, not_or] at htype
  obtain ⟨h1, h2, h3, h4⟩ := htype
  have hall (_ : List (String × Json)) : true ↔ True := by simp
  exact attrsOk_iff hall fun attrs => by simp [attrsOk, h1, h2, h3, h4, keys_nil]

theorem emptyOk_iff {value : Option Json} : emptyOk value ↔ NoAttrs value := by
  have hiff : attrsOk "" value ↔ NoAttrs value := noAttrs_iff (by decide)
  rw [← hiff]
  match value with
  | none => rfl
  | some (.obj attrs) => simp [emptyOk, attrsOk]
  | some .null | some (.bool _) | some (.num _) | some (.str _) | some (.arr _) => rfl

theorem hrefOk_iff {url : UrlParser} {value : Option Json} :
    hrefOk url value ↔ ∃ href protocol, value = some (.str href) ∧ url href = some protocol ∧
      (protocol = "https:" ∨ protocol = "http:" ∨ protocol = "mailto:") := by
  constructor
  · intro h
    match value, h with
    | some (.str href), h =>
        obtain ⟨protocol, hurl, hmem⟩ := Option.any_eq_true _ _ |>.mp h
        exact ⟨href, protocol, rfl, hurl, by simpa [protocols] using hmem⟩
  · rintro ⟨href, protocol, rfl, hurl, hmem⟩
    simpa [hrefOk, hurl, protocols] using hmem

theorem linkOk_iff {url : UrlParser} {value : Option Json} :
    linkOk url value ↔ LinkAttrs url value := by
  have htarget (value : Option Json) :
      isNullOr (· = "_blank") value ↔ Nullable (· = "_blank") value :=
    isNullOr_iff (by simp)
  have hany (value : Option Json) :
      isNullOr (fun _ => true) value ↔ Nullable (fun _ => True) value :=
    isNullOr_iff (by simp)
  have hnone (value : Option Json) :
      isNullOr (fun _ => false) value ↔ Nullable (fun _ => False) value := isNullOr_iff (by simp)
  constructor
  · intro h
    match value, h with
    | some (.obj attrs), h =>
        simp only [linkOk, Bool.and_eq_true, keys_iff, hrefOk_iff, htarget, hany, hnone] at h
        obtain ⟨⟨⟨⟨⟨hkeys, href, protocol, hhref, hurl, hmem⟩, ht⟩, hr⟩, hc⟩, htitle⟩ := h
        exact ⟨attrs, href, protocol, rfl, hkeys, hhref, hurl, hmem, ht, hr, hc, htitle⟩
  · rintro ⟨attrs, href, protocol, rfl, hkeys, hhref, hurl, hmem, ht, hr, hc, htitle⟩
    simp only [linkOk, Bool.and_eq_true, keys_iff, hrefOk_iff, htarget, hany, hnone]
    exact ⟨⟨⟨⟨⟨hkeys, href, protocol, hhref, hurl, hmem⟩, ht⟩, hr⟩, hc⟩, htitle⟩

theorem markOk_iff {url : UrlParser} {value : Json} : markOk url value ↔ Mark url value := by
  constructor
  · intro h
    match value, h with
    | .obj mark, h =>
        simp only [markOk, Bool.and_eq_true, keys_iff] at h
        obtain ⟨hkeys, h⟩ := h
        split at h
        · rename_i type htype
          have hnode : MarkNode (.obj mark) type (find mark "attrs") :=
            ⟨mark, rfl, hkeys, htype, rfl⟩
          simp only [Bool.and_eq_true, decide_eq_true_eq] at h
          by_cases hlink : type = "link"
          · subst hlink
            exact .link hnode (linkOk_iff.mp (by simpa using h.2))
          · refine .style hnode ?_ (emptyOk_iff.mp (by simpa [hlink] using h.2))
            simpa [markTypes, hlink] using h.1
        · cases h
  · intro h
    cases h with
    | @style type attrs hnode htype hattrs =>
        obtain ⟨mark, rfl, hkeys, hfind, rfl⟩ := hnode
        have hlink : type ≠ "link" := by rintro rfl; simp at htype
        simp only [markOk, hfind, Bool.and_eq_true, keys_iff, decide_eq_true_eq, if_neg hlink]
        refine ⟨hkeys, ?_, emptyOk_iff.mpr hattrs⟩
        simp only [markTypes, List.mem_cons] at htype ⊢
        tauto
    | link hnode hattrs =>
        obtain ⟨mark, rfl, hkeys, hfind, rfl⟩ := hnode
        simp only [markOk, hfind, Bool.and_eq_true, keys_iff, decide_eq_true_eq, if_true]
        exact ⟨hkeys, by decide, linkOk_iff.mpr hattrs⟩

theorem marksOk_iff {url : UrlParser} {type parent : String} {value : Option Json} :
    marksOk url type parent value ↔
      Marks url value ∧ (value = none ∨ type = "text" ∧ parent ≠ "codeBlock") := by
  constructor
  · intro h
    match value, h with
    | none, _ => exact ⟨.absent, .inl rfl⟩
    | some (.arr marks), h =>
        simp only [marksOk, Bool.and_eq_true, decide_eq_true_eq, List.all_eq_true] at h
        exact ⟨.given marks fun mark hmark => markOk_iff.mp (h.2 mark hmark), .inr h.1⟩
  · rintro ⟨hmarks, h⟩
    cases hmarks with
    | absent => rfl
    | given marks hmarks =>
        simp only [marksOk, Bool.and_eq_true, decide_eq_true_eq, List.all_eq_true]
        exact ⟨h.resolve_left (by simp), fun mark hmark => markOk_iff.mpr (hmarks mark hmark)⟩

theorem textOk_iff {type : String} {value : Option Json} :
    textOk type value ↔
      if type = "text" then ∃ s, s ≠ "" ∧ value = some (.str s) else value = none := by
  match value with
  | none => simp [textOk]
  | some (.str s) => by_cases h : type = "text" <;> simp [textOk, h]
  | some .null | some (.bool _) | some (.num _) | some (.arr _) | some (.obj _) =>
      split <;> simp [textOk]

theorem childrenOf_iff {type : String} {value : Option Json} {items : List Json} :
    childrenOf type value = some items ↔
      Content value items ∧ (value = none ∨ type ∉ ["text", "hardBreak", "horizontalRule"]) := by
  constructor
  · intro h
    match value, h with
    | none, h =>
        obtain rfl := Option.some.inj h
        exact ⟨.absent, .inl rfl⟩
    | some (.arr _), h =>
        rw [childrenOf] at h
        split at h
        · cases h
        · rename_i htype
          obtain rfl := Option.some.inj h
          exact ⟨.given _, .inr (by simpa using htype)⟩
  · rintro ⟨hcontent, h⟩
    cases hcontent with
    | absent => rfl
    | given => simpa [childrenOf] using h

theorem isParagraph_iff {value : Json} : isParagraph (some value) ↔ TypeIs value "paragraph" := by
  constructor
  · intro h
    match value, h with
    | .obj node, h =>
        simp only [isParagraph] at h
        split at h
        · rename_i type htype
          exact ⟨node, rfl, by rw [htype, of_decide_eq_true h]⟩
        · cases h
  · rintro ⟨node, rfl, htype⟩
    simp [isParagraph, htype]

/-! ### What the loop accepts -/

/-- The test of a node by the code. -/
structure Passes (url : UrlParser) (parent : String) (d : ℕ) (type : String) (items : List Json)
    (value : Json) (text attrs marks content : Option Json) : Prop where
  depth : d ≤ 64
  node : Node value type text attrs marks content
  place : d = 0 ∨ type ∈ allowedTypes parent
  text : textOk type text
  attrs : attrsOk type attrs
  marks : marksOk url type parent marks
  content : childrenOf type content = some items
  list : listOk type items

theorem visit_eq_some {url : UrlParser} {p : Pending} {children : List Pending} :
    visit url p = some children ↔
      ∃ type items text attrs marks content,
        Passes url p.parent p.depth type items p.node text attrs marks content ∧
          children = items.map fun item => ⟨item, type, p.depth + 1⟩ := by
  constructor
  · intro h
    rw [visit] at h
    split at h
    · cases h
    · rename_i hdepth
      split at h
      · rename_i node hnode
        rw [visitFields] at h
        split at h
        · rename_i type htype
          split at h
          · rename_i hfields
            simp only [Bool.and_eq_true, Bool.or_eq_true, decide_eq_true_eq, keys_iff] at hfields
            obtain ⟨⟨⟨⟨hkeys, hplace⟩, htext⟩, hattrs⟩, hmarks⟩ := hfields
            split at h
            · rename_i items hitems
              split at h
              · rename_i hlist
                exact ⟨type, items, _, _, _, _,
                  ⟨by omega, ⟨node, hnode, hkeys, htype, rfl, rfl, rfl, rfl⟩, hplace, htext, hattrs,
                    hmarks, hitems, hlist⟩, (Option.some.inj h).symm⟩
              · cases h
            · cases h
          · cases h
        · cases h
      · cases h
  · rintro ⟨type, items, text, attrs, marks, content, h, rfl⟩
    obtain ⟨node, hnode, hkeys, htype, rfl, rfl, rfl, rfl⟩ := h.node
    have hfields : (keys node ["type", "content", "attrs", "text", "marks"] &&
        (p.depth = 0 || type ∈ allowedTypes p.parent) && textOk type (find node "text") &&
        attrsOk type (find node "attrs") && marksOk url type p.parent (find node "marks")) =
          true := by
      simp only [Bool.and_eq_true, Bool.or_eq_true, decide_eq_true_eq, keys_iff]
      exact ⟨⟨⟨⟨hkeys, h.place⟩, h.text⟩, h.attrs⟩, h.marks⟩
    have hdepth := h.depth
    rw [visit, if_neg (by omega), hnode]
    simp only [visitFields, htype]
    rw [if_pos hfields, h.content]
    simp only [h.list, if_true]

theorem size_children {url : UrlParser} {p : Pending} {children : List Pending}
    (h : visit url p = some children) : (children.map (·.node.size)).sum < p.node.size := by
  obtain ⟨type, items, text, attrs, marks, content, hpasses, rfl⟩ := visit_eq_some.mp h
  obtain ⟨node, hnode, -, -, -, -, -, hcontent⟩ := hpasses.node
  have hmap :
      ((items.map fun item => (⟨item, type, p.depth + 1⟩ : Pending)).map (·.node.size)).sum =
      (items.map size).sum := by
    rw [List.map_map]
    rfl
  rw [hmap, hnode]
  cases (childrenOf_iff.mp hpasses.content).1 with
  | absent => simp [size]
  | given =>
      have := size_find hcontent
      simp only [size, sizeItems_eq] at this ⊢
      omega

theorem explore_iff {url : UrlParser} {value : Json} :
    Worklist.explore (visit url) value.size [⟨value, "", 0⟩] ↔
      Worklist.Accepted (visit url) ⟨value, "", 0⟩ := by
  rw [Worklist.explore_iff (fun p => p.node.size) (fun _ _ => size_children) (by simp)]
  simp

/-- What the children of a node may be. -/
def placeBelow (parent : String) : Place :=
  if parent = "paragraph" ∨ parent = "heading" then .inline
  else if parent = "codeBlock" then .plain
  else if parent = "bulletList" ∨ parent = "orderedList" then .item
  else .block

def typesAt : Place → List String
  | .inline => inlineTypes
  | .plain => ["text"]
  | .item => ["listItem"]
  | .block | .document => blockTypes

theorem allowedTypes_eq (parent : String) : allowedTypes parent = typesAt (placeBelow parent) := by
  rw [allowedTypes, placeBelow]
  split
  · rfl
  · split
    · rfl
    · split <;> rfl

section

variable {url : UrlParser} {parent type : String} {d : ℕ} {items : List Json} {value : Json}
  {text attrs marks content : Option Json}

/-- Only a text has text. -/
theorem Passes.no_text (h : Passes url parent d type items value text attrs marks content)
    (htype : type ≠ "text") : text = none ∧ marks = none := by
  have htext := textOk_iff.mp h.text
  rw [if_neg htype] at htext
  exact ⟨htext, (marksOk_iff.mp h.marks).2.resolve_right fun hm => htype hm.1⟩

theorem Passes.derives_block (h : Passes url parent d type items value text attrs marks content)
    (htype : type ∈ blockTypes)
    (hitems : ∀ item ∈ items, Derives url (placeBelow type) (d + 1) item) :
    Derives url .block d value := by
  have hcontent := childrenOf_iff.mp h.content
  simp only [blockTypes, List.mem_cons, List.not_mem_nil, or_false] at htype
  rcases htype with rfl | rfl | rfl | rfl | rfl | rfl | rfl
  · obtain ⟨rfl, rfl⟩ := h.no_text (by decide)
    exact .paragraph h.depth h.node (paragraphAttrs_iff.mp h.attrs) hcontent.1 hitems
  · obtain ⟨rfl, rfl⟩ := h.no_text (by decide)
    exact .heading h.depth h.node (headingAttrs_iff.mp h.attrs) hcontent.1 hitems
  · obtain ⟨rfl, rfl⟩ := h.no_text (by decide)
    have hne : items ≠ [] := by simpa [listOk] using h.list
    cases hcontent.1 with
    | absent => exact absurd rfl hne
    | given => exact .bulletList h.depth h.node ((noAttrs_iff (by decide)).mp h.attrs) hne hitems
  · obtain ⟨rfl, rfl⟩ := h.no_text (by decide)
    have hne : items ≠ [] := by simpa [listOk] using h.list
    cases hcontent.1 with
    | absent => exact absurd rfl hne
    | given => exact .orderedList h.depth h.node (orderedListAttrs_iff.mp h.attrs) hne hitems
  · obtain ⟨rfl, rfl⟩ := h.no_text (by decide)
    exact .blockquote h.depth h.node ((noAttrs_iff (by decide)).mp h.attrs) hcontent.1 hitems
  · obtain ⟨rfl, rfl⟩ := h.no_text (by decide)
    exact .codeBlock h.depth h.node (codeBlockAttrs_iff.mp h.attrs) hcontent.1 hitems
  · obtain ⟨rfl, rfl⟩ := h.no_text (by decide)
    obtain rfl := hcontent.2.resolve_right (by decide)
    exact .horizontalRule h.depth h.node ((noAttrs_iff (by decide)).mp h.attrs)

theorem Passes.derives_item
    (h : Passes url parent d "listItem" items value text attrs marks content)
    (hitems : ∀ item ∈ items, Derives url .block (d + 1) item) : Derives url .item d value := by
  obtain ⟨rfl, rfl⟩ := h.no_text (by decide)
  have hlist := h.list
  cases (childrenOf_iff.mp h.content).1 with
  | absent => simp [listOk] at hlist
  | given =>
      cases items with
      | nil => simp [listOk] at hlist
      | cons first rest =>
          have hfirst : isParagraph (some first) := by simpa [listOk] using hlist
          exact .listItem h.depth h.node ((noAttrs_iff (by decide)).mp h.attrs)
            (isParagraph_iff.mp hfirst) hitems

theorem Passes.derives_inline (h : Passes url parent d type items value text attrs marks content)
    (htype : type ∈ inlineTypes) : Derives url .inline d value := by
  have hcontent := childrenOf_iff.mp h.content
  simp only [inlineTypes, List.mem_cons, List.not_mem_nil, or_false] at htype
  rcases htype with rfl | rfl
  · obtain ⟨s, hs, rfl⟩ := textOk_iff.mp h.text
    obtain rfl := hcontent.2.resolve_right (by decide)
    exact .text h.depth h.node hs ((noAttrs_iff (by decide)).mp h.attrs) (marksOk_iff.mp h.marks).1
  · obtain ⟨rfl, rfl⟩ := h.no_text (by decide)
    obtain rfl := hcontent.2.resolve_right (by decide)
    exact .hardBreak h.depth h.node ((noAttrs_iff (by decide)).mp h.attrs)

theorem Passes.derives_plain
    (h : Passes url "codeBlock" d "text" items value text attrs marks content) :
    Derives url .plain d value := by
  obtain ⟨s, hs, rfl⟩ := textOk_iff.mp h.text
  obtain rfl := (childrenOf_iff.mp h.content).2.resolve_right (by decide)
  obtain rfl := (marksOk_iff.mp h.marks).2.resolve_right (by simp)
  exact .plainText h.depth h.node hs ((noAttrs_iff (by decide)).mp h.attrs)

end

theorem eq_codeBlock {parent : String} (h : placeBelow parent = .plain) : parent = "codeBlock" := by
  rw [placeBelow] at h
  split at h
  · cases h
  · split at h
    · assumption
    · split at h <;> cases h

theorem placeBelow_ne_document (parent : String) : placeBelow parent ≠ .document := by
  rw [placeBelow]
  split
  · simp
  · split
    · simp
    · split <;> simp

theorem derives_of_accepted {url : UrlParser} {p : Pending} (h : Worklist.Accepted (visit url) p)
    (hdepth : 0 < p.depth) : Derives url (placeBelow p.parent) p.depth p.node := by
  induction h with
  | @node p children hvisit hchildren ih =>
      obtain ⟨type, items, text, attrs, marks, content, hpasses, rfl⟩ := visit_eq_some.mp hvisit
      have hitems : ∀ item ∈ items, Derives url (placeBelow type) (p.depth + 1) item :=
        fun item hitem => ih _ (List.mem_map_of_mem hitem) (Nat.succ_pos _)
      have htype := hpasses.place.resolve_left (by omega)
      rw [allowedTypes_eq] at htype
      cases hplace : placeBelow p.parent with
      | document => exact absurd hplace (placeBelow_ne_document _)
      | block =>
          rw [hplace] at htype
          exact hpasses.derives_block htype hitems
      | item =>
          rw [hplace] at htype
          obtain rfl := List.mem_singleton.mp htype
          exact hpasses.derives_item hitems
      | inline =>
          rw [hplace] at htype
          exact hpasses.derives_inline htype
      | plain =>
          rw [hplace] at htype
          obtain rfl := List.mem_singleton.mp htype
          rw [eq_codeBlock hplace] at hpasses
          exact hpasses.derives_plain

theorem Passes.accepted {url : UrlParser} {parent type : String} {d : ℕ} {items : List Json}
    {value : Json} {text attrs marks content : Option Json}
    (h : Passes url parent d type items value text attrs marks content)
    (hitems : ∀ item ∈ items, Worklist.Accepted (visit url) ⟨item, type, d + 1⟩) :
    Worklist.Accepted (visit url) ⟨value, parent, d⟩ := by
  refine .node (visit_eq_some.mpr ⟨_, _, _, _, _, _, h, rfl⟩) fun c hc => ?_
  obtain ⟨item, hitem, rfl⟩ := List.mem_map.mp hc
  exact hitems item hitem

theorem mem_allowedTypes {parent type : String} {place : Place} {d : ℕ}
    (hplace : place = .document ∨ placeBelow parent = place) (hne : place ≠ .document)
    (htype : type ∈ typesAt place) : d = 0 ∨ type ∈ allowedTypes parent := by
  rw [allowedTypes_eq, hplace.resolve_left hne]
  exact .inr htype

theorem Content.children {type : String} {content : Option Json} {items : List Json}
    (h : Content content items) (htype : type ∉ ["text", "hardBreak", "horizontalRule"]) :
    childrenOf type content = some items := childrenOf_iff.mpr ⟨h, .inr htype⟩

/-- What stands at a place passes the test there. -/
theorem Derives.accepted {url : UrlParser} {place : Place} {d : ℕ} {value : Json}
    (h : Derives url place d value) {parent : String}
    (hplace : place = .document ∨ placeBelow parent = place) :
    Worklist.Accepted (visit url) ⟨value, parent, d⟩ := by
  induction h generalizing parent with
  | document hnode hattrs hne hitems ih =>
      exact Passes.accepted ⟨Nat.zero_le _, hnode, .inl rfl, rfl,
        (noAttrs_iff (by decide)).mpr hattrs,
        rfl, (Content.given _).children (by decide), rfl⟩ fun item hitem => ih item hitem (.inr rfl)
  | paragraph hd hnode hattrs hcontent hitems ih =>
      exact Passes.accepted ⟨hd, hnode, mem_allowedTypes hplace (by simp) (by decide), rfl,
        paragraphAttrs_iff.mpr hattrs,
        rfl, hcontent.children (by decide), rfl⟩ fun item hitem => ih item hitem (.inr rfl)
  | heading hd hnode hattrs hcontent hitems ih =>
      exact Passes.accepted ⟨hd, hnode, mem_allowedTypes hplace (by simp) (by decide), rfl,
        headingAttrs_iff.mpr hattrs,
        rfl, hcontent.children (by decide), rfl⟩ fun item hitem => ih item hitem (.inr rfl)
  | bulletList hd hnode hattrs hne hitems ih =>
      exact Passes.accepted ⟨hd, hnode, mem_allowedTypes hplace (by simp) (by decide), rfl,
        (noAttrs_iff (by decide)).mpr hattrs, rfl, rfl, by simp [listOk, hne]⟩
        fun item hitem => ih item hitem (.inr rfl)
  | orderedList hd hnode hattrs hne hitems ih =>
      exact Passes.accepted ⟨hd, hnode, mem_allowedTypes hplace (by simp) (by decide), rfl,
        orderedListAttrs_iff.mpr hattrs, rfl, rfl, by simp [listOk, hne]⟩
        fun item hitem => ih item hitem (.inr rfl)
  | blockquote hd hnode hattrs hcontent hitems ih =>
      exact Passes.accepted ⟨hd, hnode, mem_allowedTypes hplace (by simp) (by decide), rfl,
        (noAttrs_iff (by decide)).mpr hattrs, rfl, hcontent.children (by decide), rfl⟩
        fun item hitem => ih item hitem (.inr rfl)
  | codeBlock hd hnode hattrs hcontent hitems ih =>
      exact Passes.accepted ⟨hd, hnode, mem_allowedTypes hplace (by simp) (by decide), rfl,
        codeBlockAttrs_iff.mpr hattrs,
        rfl, hcontent.children (by decide), rfl⟩ fun item hitem => ih item hitem (.inr rfl)
  | horizontalRule hd hnode hattrs =>
      exact Passes.accepted ⟨hd, hnode, mem_allowedTypes hplace (by simp) (by decide), rfl,
        (noAttrs_iff (by decide)).mpr hattrs, rfl, rfl, rfl⟩ (by simp)
  | listItem hd hnode hattrs hfirst hitems ih =>
      have hlist := isParagraph_iff.mpr hfirst
      exact Passes.accepted ⟨hd, hnode, mem_allowedTypes hplace (by simp) (by decide), rfl,
        (noAttrs_iff (by decide)).mpr hattrs, rfl, rfl, by simpa [listOk] using hlist⟩
        fun item hitem => ih item hitem (.inr rfl)
  | text hd hnode hs hattrs hmarks =>
      have hparent : parent ≠ "codeBlock" := by
        rintro rfl
        simp [placeBelow] at hplace
      exact Passes.accepted ⟨hd, hnode, mem_allowedTypes hplace (by simp) (by decide),
        textOk_iff.mpr ⟨_, hs, rfl⟩,
        (noAttrs_iff (by decide)).mpr hattrs, marksOk_iff.mpr ⟨hmarks, .inr ⟨rfl, hparent⟩⟩, rfl,
          rfl⟩
        (by simp)
  | hardBreak hd hnode hattrs =>
      exact Passes.accepted ⟨hd, hnode, mem_allowedTypes hplace (by simp) (by decide), rfl,
        (noAttrs_iff (by decide)).mpr hattrs, rfl, rfl, rfl⟩ (by simp)
  | plainText hd hnode hs hattrs =>
      exact Passes.accepted ⟨hd, hnode, mem_allowedTypes hplace (by simp) (by decide),
        textOk_iff.mpr ⟨_, hs, rfl⟩,
        (noAttrs_iff (by decide)).mpr hattrs, rfl, rfl, rfl⟩ (by simp)

theorem isDoc_iff {value : Json} :
    isDoc value ↔ ∃ node items, value = .obj node ∧ find node "type" = some (.str "doc") ∧
      find node "content" = some (.arr items) ∧ items ≠ [] := by
  constructor
  · intro h
    match value, h with
    | .obj node, h =>
        simp only [isDoc] at h
        split at h
        · rename_i type items htype hcontent
          simp only [Bool.and_eq_true, decide_eq_true_eq] at h
          obtain ⟨rfl, hne⟩ := h
          exact ⟨node, items, rfl, htype, hcontent, by simpa using hne⟩
        · cases h
  · rintro ⟨node, items, rfl, htype, hcontent, hne⟩
    simp [isDoc, htype, hcontent, hne]

/-- The loop accepts the documents of the grammar. -/
theorem isNoteDocument_iff {url : UrlParser} {value : Json} :
    isNoteDocument url value ↔ Derives url .document 0 value := by
  rw [isNoteDocument, Bool.and_eq_true, explore_iff]
  constructor
  · rintro ⟨hdoc, haccepted⟩
    obtain ⟨node, items, rfl, htype, hcontent, hne⟩ := isDoc_iff.mp hdoc
    cases haccepted with
    | node hvisit hchildren =>
        obtain ⟨type, items', text, attrs, marks, content, hpasses, rfl⟩ := visit_eq_some.mp hvisit
        obtain ⟨_, hnode, -, htype', -, -, -, hcontent'⟩ := hpasses.node
        obtain rfl := Json.obj.inj hnode
        obtain rfl : type = "doc" := by simpa [htype] using htype'.symm
        obtain rfl := hcontent.symm.trans hcontent'
        obtain rfl : items = items' := by simpa [childrenOf] using hpasses.content
        obtain ⟨rfl, rfl⟩ := hpasses.no_text (by decide)
        refine .document hpasses.node
          ((noAttrs_iff (by decide)).mp hpasses.attrs) hne fun item hitem => ?_
        exact derives_of_accepted (hchildren _ (List.mem_map_of_mem hitem)) Nat.one_pos
  · intro h
    refine ⟨?_, h.accepted (.inl rfl)⟩
    cases h with
    | document hnode hattrs hne hitems =>
        obtain ⟨node, rfl, -, htype, -, -, -, hcontent⟩ := hnode
        exact isDoc_iff.mpr ⟨node, _, rfl, htype, hcontent, hne⟩

end NoteDocument

end AfkClient
