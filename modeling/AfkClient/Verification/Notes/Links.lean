import AfkClient.Verification.Notes.Grammar

/-! What the schema makes of a document it accepts. -/

namespace AfkClient

open Json

/-! ### Changed entries -/

theorem Json.find_map {f : String → Json → Json} {entries : List (String × Json)} {name : String} :
    find (entries.map fun entry => (entry.1, f entry.1 entry.2)) name =
      (find entries name).map (f name) := by
  rw [find, find, ← List.map_reverse]
  induction entries.reverse with
  | nil => rfl
  | cons entry entries ih =>
      obtain ⟨key, value⟩ := entry
      by_cases h : name = key
      · subst h
        simp
      · have hbeq : (name == key) = false := by simpa using h
        simp only [List.map_cons, List.lookup_cons, hbeq, ih]

namespace NoteDocument

theorem transformEntries_eq (entries : List (String × Json)) :
    transformEntries entries = entries.map fun entry =>
      (entry.1, if entry.1 = "marks" then transformMarks entry.2
        else if entry.1 = "content" then transformContent entry.2 else entry.2) := by
  induction entries with
  | nil => rfl
  | cons entry entries ih => simp [transformEntries, ih]

theorem transformItems_eq (items : List Json) : transformItems items = items.map transform := by
  induction items with
  | nil => rfl
  | cons item items ih => simp [transformItems, ih]

theorem find_transformEntries {node : List (String × Json)} {name : String} :
    find (transformEntries node) name = (find node name).map fun value =>
      if name = "marks" then transformMarks value
      else if name = "content" then transformContent value else value := by
  rw [transformEntries_eq]
  exact find_map (f := fun name value => if name = "marks" then transformMarks value
      else if name = "content" then transformContent value else value)

theorem setAttrs_eq (mark : List (String × Json)) (attrs : Json) :
    setAttrs mark attrs = mark.map fun entry =>
      (entry.1, if entry.1 = "attrs" then attrs else entry.2) := by
  refine List.map_congr_left fun entry _ => ?_
  by_cases h : entry.1 = "attrs"
  · rw [if_pos h, if_pos h, h]
  · rw [if_neg h, if_neg h]

theorem find_setAttrs {mark : List (String × Json)} {attrs : Json} {name : String} :
    find (setAttrs mark attrs) name =
      (find mark name).map fun value => if name = "attrs" then attrs else value := by
  rw [setAttrs_eq]
  exact find_map (f := fun name value => if name = "attrs" then attrs else value)

/-! ### Accepted again -/

theorem Node.transform {value : Json} {type : String} {text attrs marks content : Option Json}
    (h : Node value type text attrs marks content) :
    Node (transform value) type text attrs (marks.map transformMarks)
      (content.map transformContent) := by
  obtain ⟨node, rfl, hkeys, htype, rfl, rfl, rfl, rfl⟩ := h
  refine ⟨transformEntries node, rfl, ?_, by simp [find_transformEntries, htype], ?_, ?_, ?_, ?_⟩
  · rw [transformEntries_eq]
    intro entry hentry
    obtain ⟨entry', hentry', rfl⟩ := List.mem_map.mp hentry
    exact hkeys entry' hentry'
  all_goals simp [find_transformEntries]

theorem TypeIs.transform {value : Json} {type : String} (h : TypeIs value type) :
    TypeIs (transform value) type := by
  obtain ⟨node, rfl, htype⟩ := h
  exact ⟨transformEntries node, rfl, by simp [find_transformEntries, htype]⟩

/-- A link opens a new page and tells it nothing. -/
def SafeLink (value : Json) : Prop :=
  ∃ mark attrs, value = .obj mark ∧ find mark "attrs" = some (.obj attrs) ∧
    find attrs "target" = some (.str "_blank") ∧
    find attrs "rel" = some (.str "noopener noreferrer") ∧ find attrs "class" = some .null

theorem linkAttrs_ok {url : UrlParser} {attrs : List (String × Json)}
    (h : LinkAttrs url (some (.obj attrs))) : LinkAttrs url (some (linkAttrs attrs)) := by
  obtain ⟨_, href, protocol, hobj, hkeys, hhref, hurl, hmem, -, -, -, htitle⟩ := h
  obtain rfl := Json.obj.inj (Option.some.inj hobj)
  refine ⟨_, href, protocol, rfl, by simp, ?_, hurl, hmem, .given _ rfl, .given _ trivial, .null,
    ?_⟩
  · rw [hhref]
    rfl
  cases htitle' : find attrs "title" with
  | none => exact .null
  | some title =>
      rw [htitle'] at htitle
      exact htitle

theorem safe_linkAttrs (attrs : List (String × Json)) :
    ∃ entries, linkAttrs attrs = .obj entries ∧ find entries "target" = some (.str "_blank") ∧
      find entries "rel" = some (.str "noopener noreferrer") ∧ find entries "class" = some .null :=
  ⟨_, rfl, rfl, rfl, rfl⟩

theorem transformMark_link {mark attrs : List (String × Json)}
    (htype : find mark "type" = some (.str "link"))
    (hattrs : find mark "attrs" = some (.obj attrs)) :
    transformMark (.obj mark) = .obj (setAttrs mark (linkAttrs attrs)) := by
  simp only [transformMark, htype, hattrs]

theorem transformMark_style {mark : List (String × Json)} {type : String}
    (htype : find mark "type" = some (.str type)) (hlink : type ≠ "link") :
    transformMark (.obj mark) = .obj mark := by
  rw [transformMark]
  split
  · rename_i hfind _
    exact absurd (Json.str.inj (Option.some.inj (htype.symm.trans hfind))) hlink
  · rfl

theorem Mark.transform {url : UrlParser} {value : Json} (h : Mark url value) :
    Mark url (transformMark value) := by
  cases h with
  | @style type attrs hnode htype hattrs =>
      obtain ⟨mark, rfl, hkeys, hfind, rfl⟩ := hnode
      have hlink : type ≠ "link" := by rintro rfl; simp at htype
      rw [transformMark_style hfind hlink]
      exact .style ⟨mark, rfl, hkeys, hfind, rfl⟩ htype hattrs
  | link hnode hattrs =>
      obtain ⟨mark, rfl, hkeys, hfind, rfl⟩ := hnode
      obtain ⟨attrs, -, -, hsome, -⟩ := id hattrs
      rw [transformMark_link hfind hsome]
      refine .link ⟨_, rfl, ?_, by simp [find_setAttrs, hfind], rfl⟩ ?_
      · rw [setAttrs_eq]
        intro entry hentry
        obtain ⟨entry', hentry', rfl⟩ := List.mem_map.mp hentry
        exact hkeys entry' hentry'
      · simp only [find_setAttrs, hsome, Option.map_some, if_true]
        rw [hsome] at hattrs
        exact linkAttrs_ok hattrs

theorem Mark.safe {url : UrlParser} {value : Json} (h : Mark url value)
    (hlink : TypeIs (transformMark value) "link") : SafeLink (transformMark value) := by
  cases h with
  | @style type attrs hnode htype hattrs =>
      obtain ⟨mark, rfl, -, hfind, -⟩ := hnode
      have hne : type ≠ "link" := by rintro rfl; simp at htype
      rw [transformMark_style hfind hne] at hlink
      obtain ⟨_, hobj, hfind'⟩ := hlink
      obtain rfl := Json.obj.inj hobj
      exact absurd (Json.str.inj (Option.some.inj (hfind.symm.trans hfind'))) hne
  | link hnode hattrs =>
      obtain ⟨mark, rfl, -, hfind, rfl⟩ := hnode
      obtain ⟨attrs, -, -, hsome, -⟩ := hattrs
      obtain ⟨entries, hentries, ht, hr, hc⟩ := safe_linkAttrs attrs
      rw [transformMark_link hfind hsome]
      exact ⟨_, entries, rfl, by simp [find_setAttrs, hsome, hentries], ht, hr, hc⟩

theorem Marks.transform {url : UrlParser} {value : Option Json} (h : Marks url value) :
    Marks url (value.map transformMarks) := by
  cases h with
  | absent => exact .absent
  | given marks h =>
      refine .given (marks.map transformMark) fun mark hmark => ?_
      obtain ⟨mark', hmark', rfl⟩ := List.mem_map.mp hmark
      exact (h mark' hmark').transform

theorem Content.transform {value : Option Json} {items : List Json} (h : Content value items) :
    Content (value.map transformContent) (items.map transform) := by
  cases h with
  | absent => exact .absent
  | given =>
      rw [← transformItems_eq]
      exact .given _

theorem Node.transform_items {value : Json} {type : String} {text attrs marks : Option Json}
    {items : List Json} (h : Node value type text attrs marks (some (.arr items))) :
    Node (NoteDocument.transform value) type text attrs (marks.map transformMarks)
      (some (.arr (items.map NoteDocument.transform))) := by
  rw [← transformItems_eq]
  exact h.transform

theorem Derives.transform {url : UrlParser} {place : Place} {d : ℕ} {value : Json}
    (h : Derives url place d value) : Derives url place d (transform value) := by
  have hmap {p : Place} {n : ℕ} {items : List Json}
      (ih : ∀ item ∈ items, Derives url p n (NoteDocument.transform item)) :
      ∀ item ∈ items.map NoteDocument.transform, Derives url p n item := by
    simpa using ih
  induction h with
  | document hnode hattrs hne hitems ih =>
      exact .document hnode.transform_items hattrs (by simpa using hne) (hmap ih)
  | paragraph hd hnode hattrs hcontent hitems ih =>
      exact .paragraph hd hnode.transform hattrs hcontent.transform (hmap ih)
  | heading hd hnode hattrs hcontent hitems ih =>
      exact .heading hd hnode.transform hattrs hcontent.transform (hmap ih)
  | bulletList hd hnode hattrs hne hitems ih =>
      exact .bulletList hd hnode.transform_items hattrs (by simpa using hne) (hmap ih)
  | orderedList hd hnode hattrs hne hitems ih =>
      exact .orderedList hd hnode.transform_items hattrs (by simpa using hne) (hmap ih)
  | blockquote hd hnode hattrs hcontent hitems ih =>
      exact .blockquote hd hnode.transform hattrs hcontent.transform (hmap ih)
  | codeBlock hd hnode hattrs hcontent hitems ih =>
      exact .codeBlock hd hnode.transform hattrs hcontent.transform (hmap ih)
  | horizontalRule hd hnode hattrs => exact .horizontalRule hd hnode.transform hattrs
  | listItem hd hnode hattrs hfirst hitems ih =>
      exact .listItem hd hnode.transform_items hattrs hfirst.transform (hmap ih)
  | text hd hnode hs hattrs hmarks => exact .text hd hnode.transform hs hattrs hmarks.transform
  | hardBreak hd hnode hattrs => exact .hardBreak hd hnode.transform hattrs
  | plainText hd hnode hs hattrs => exact .plainText hd hnode.transform hs hattrs

/-! ### Only links change -/

/-- The values agree, but for the attributes of links. -/
inductive SameButLinks : Json → Json → Prop where
  | refl (value : Json) : SameButLinks value value
  | link {mark : List (String × Json)} (attrs : Json)
      (hlink : find mark "type" = some (.str "link")) :
      SameButLinks (.obj mark) (.obj (setAttrs mark attrs))
  | arr {items items' : List Json} (h : List.Forall₂ SameButLinks items items') :
      SameButLinks (.arr items) (.arr items')
  | obj {entries entries' : List (String × Json)}
      (hkeys : entries'.map Prod.fst = entries.map Prod.fst)
      (h : List.Forall₂ SameButLinks (entries.map Prod.snd) (entries'.map Prod.snd)) :
      SameButLinks (.obj entries) (.obj entries')

theorem transformMark_same (mark : Json) : SameButLinks mark (transformMark mark) := by
  rw [transformMark.eq_def]
  split
  · split
    · rename_i htype hattrs
      exact .link _ htype
    · exact .refl _
  · exact .refl _

theorem transformMarks_same (marks : Json) : SameButLinks marks (transformMarks marks) := by
  rw [transformMarks.eq_def]
  split
  · exact .arr (List.forall₂_map_right_iff.mpr (List.forall₂_same.mpr fun mark _ =>
      transformMark_same mark))
  · exact .refl _

mutual

theorem transform_same : ∀ value : Json, SameButLinks value (transform value)
  | .obj node => .obj (by simp [transformEntries_eq]) (transformEntries_same node)
  | .null | .bool _ | .num _ | .str _ | .arr _ => .refl _

theorem transformEntries_same : ∀ entries : List (String × Json),
    List.Forall₂ SameButLinks (entries.map Prod.snd) ((transformEntries entries).map Prod.snd)
  | [] => .nil
  | (key, value) :: entries => by
      refine .cons ?_ (transformEntries_same entries)
      simp only
      split
      · exact transformMarks_same value
      · split
        · exact transformContent_same value
        · exact .refl _

theorem transformContent_same : ∀ value : Json, SameButLinks value (transformContent value)
  | .arr items => .arr (transformItems_same items)
  | .null | .bool _ | .num _ | .str _ | .obj _ => .refl _

theorem transformItems_same : ∀ items : List Json,
    List.Forall₂ SameButLinks items (transformItems items)
  | [] => .nil
  | item :: items => .cons (transform_same item) (transformItems_same items)

end

/-! ### A second change changes nothing -/

theorem setAttrs_setAttrs (mark : List (String × Json)) (attrs attrs' : Json) :
    setAttrs (setAttrs mark attrs) attrs' = setAttrs mark attrs' := by
  simp only [setAttrs_eq, List.map_map]
  refine List.map_congr_left fun entry _ => ?_
  by_cases h : entry.1 = "attrs" <;> simp [h]

theorem transformMark_transformMark (mark : Json) :
    transformMark (transformMark mark) = transformMark mark := by
  match mark with
  | .obj mark =>
      by_cases h : ∃ attrs,
          find mark "type" = some (.str "link") ∧ find mark "attrs" = some (.obj attrs)
      · obtain ⟨attrs, htype, hattrs⟩ := h
        have htype' : find (setAttrs mark (linkAttrs attrs)) "type" = some (.str "link") := by
          simp [find_setAttrs, htype]
        have hattrs' : find (setAttrs mark (linkAttrs attrs)) "attrs" = some (linkAttrs attrs) := by
          simp [find_setAttrs, hattrs]
        rw [transformMark_link htype hattrs, transformMark_link htype' hattrs', setAttrs_setAttrs]
        rfl
      · have hsame : transformMark (.obj mark) = .obj mark := by
          rw [transformMark]
          split
          · rename_i attrs htype hattrs
            exact absurd ⟨attrs, htype, hattrs⟩ h
          · rfl
        rw [hsame, hsame]
  | .null | .bool _ | .num _ | .str _ | .arr _ => rfl

theorem transformMarks_transformMarks (marks : Json) :
    transformMarks (transformMarks marks) = transformMarks marks := by
  match marks with
  | .arr marks => simp [transformMarks, transformMark_transformMark]
  | .null | .bool _ | .num _ | .str _ | .obj _ => rfl

mutual

theorem transform_transform : ∀ value : Json, transform (transform value) = transform value
  | .obj node => congrArg Json.obj (transformEntries_transformEntries node)
  | .null | .bool _ | .num _ | .str _ | .arr _ => rfl

theorem transformEntries_transformEntries : ∀ entries : List (String × Json),
    transformEntries (transformEntries entries) = transformEntries entries
  | [] => rfl
  | (key, value) :: entries => by
      rw [transformEntries, transformEntries, transformEntries_transformEntries entries]
      by_cases hmarks : key = "marks"
      · simp only [if_pos hmarks, transformMarks_transformMarks]
      · by_cases hcontent : key = "content"
        · simp only [if_neg hmarks, if_pos hcontent, transformContent_transformContent value]
        · simp only [if_neg hmarks, if_neg hcontent]

theorem transformContent_transformContent : ∀ value : Json,
    transformContent (transformContent value) = transformContent value
  | .arr items => congrArg Json.arr (transformItems_transformItems items)
  | .null | .bool _ | .num _ | .str _ | .obj _ => rfl

theorem transformItems_transformItems : ∀ items : List Json,
    transformItems (transformItems items) = transformItems items
  | [] => rfl
  | item :: items => by
      rw [transformItems, transformItems, transform_transform item,
        transformItems_transformItems items]

end

/-! ### The links of a document -/

/-- A link mark at some depth of a document. -/
inductive LinkIn (link : Json) : Json → Prop where
  | here {node : List (String × Json)} {marks : List Json}
      (hmarks : find node "marks" = some (.arr marks))
      (hmem : link ∈ marks) (hlink : TypeIs link "link") : LinkIn link (.obj node)
  | child {node : List (String × Json)} {items : List Json} {item : Json}
      (hcontent : find node "content" = some (.arr items)) (hmem : item ∈ items)
      (h : LinkIn link item) :
      LinkIn link (.obj node)

/-- The marks and the children of what stands in a document. -/
theorem Derives.parts {url : UrlParser} {place : Place} {d : ℕ} {value : Json}
    (h : Derives url place d value) :
    ∃ type text attrs marks content items below, Node value type text attrs marks content ∧
      Marks url marks ∧ Content content items ∧ ∀ item ∈ items, Derives url below (d + 1) item := by
  cases h with
  | document hnode hattrs hne hitems =>
      exact ⟨_, _, _, _, _, _, _, hnode, .absent, .given _, hitems⟩
  | paragraph hd hnode hattrs hcontent hitems =>
      exact ⟨_, _, _, _, _, _, _, hnode, .absent, hcontent, hitems⟩
  | heading hd hnode hattrs hcontent hitems =>
      exact ⟨_, _, _, _, _, _, _, hnode, .absent, hcontent, hitems⟩
  | bulletList hd hnode hattrs hne hitems =>
      exact ⟨_, _, _, _, _, _, _, hnode, .absent, .given _, hitems⟩
  | orderedList hd hnode hattrs hne hitems =>
      exact ⟨_, _, _, _, _, _, _, hnode, .absent, .given _, hitems⟩
  | blockquote hd hnode hattrs hcontent hitems =>
      exact ⟨_, _, _, _, _, _, _, hnode, .absent, hcontent, hitems⟩
  | codeBlock hd hnode hattrs hcontent hitems =>
      exact ⟨_, _, _, _, _, _, _, hnode, .absent, hcontent, hitems⟩
  | horizontalRule hd hnode hattrs =>
      exact ⟨_, _, _, _, _, [], .block, hnode, .absent, .absent, by simp⟩
  | listItem hd hnode hattrs hfirst hitems =>
      exact ⟨_, _, _, _, _, _, _, hnode, .absent, .given _, hitems⟩
  | text hd hnode hs hattrs hmarks =>
      exact ⟨_, _, _, _, _, [], .block, hnode, hmarks, .absent, by simp⟩
  | hardBreak hd hnode hattrs =>
      exact ⟨_, _, _, _, _, [], .block, hnode, .absent, .absent, by simp⟩
  | plainText hd hnode hs hattrs =>
      exact ⟨_, _, _, _, _, [], .block, hnode, .absent, .absent, by simp⟩

theorem Derives.safe {url : UrlParser} {place : Place} {d : ℕ} {value link : Json}
    (h : Derives url place d value) (hlink : LinkIn link (NoteDocument.transform value)) :
    SafeLink link := by
  generalize hvalue : NoteDocument.transform value = changed at hlink
  induction hlink generalizing place d value with
  | @here node' marks hmarks hmem hlink =>
      obtain ⟨type, text, attrs, marks', content, items, below, hnode, hok, -, -⟩ := h.parts
      obtain ⟨node, rfl, -, -, -, -, rfl, -⟩ := hnode
      obtain rfl := Json.obj.inj hvalue
      rw [find_transformEntries] at hmarks
      cases hmarks' : find node "marks" with
      | none => simp [hmarks'] at hmarks
      | some value =>
          rw [hmarks'] at hok hmarks
          cases hok with
          | given marks₀ hall =>
              obtain rfl : marks₀.map transformMark = marks := by
                simpa [transformMarks] using hmarks
              obtain ⟨mark, hmark, rfl⟩ := List.mem_map.mp hmem
              exact (hall mark hmark).safe hlink
  | @child node' items' item' hcontent hmem hlink ih =>
      obtain ⟨type, text, attrs, marks', content, items, below, hnode, -, hitems, hall⟩ := h.parts
      obtain ⟨node, rfl, -, -, -, -, -, rfl⟩ := hnode
      obtain rfl := Json.obj.inj hvalue
      rw [find_transformEntries] at hcontent
      cases hcontent' : find node "content" with
      | none => simp [hcontent'] at hcontent
      | some value =>
          rw [hcontent'] at hitems hcontent
          cases hitems with
          | given =>
              obtain rfl : items.map NoteDocument.transform = items' := by
                simpa [transformContent, transformItems_eq] using hcontent
              obtain ⟨item, hitem, rfl⟩ := List.mem_map.mp hmem
              exact ih (hall item hitem) rfl

/-- The check accepts the grammar, and the change of a document is safe and final. -/
theorem notes_documents (url : UrlParser) (value : Json) :
    (isNoteDocument url value ↔ Derives url .document 0 value) ∧
      (isNoteDocument url value →
        isNoteDocument url (transform value) ∧ transform (transform value) = transform value ∧
          SameButLinks value (transform value) ∧
          ∀ link, LinkIn link (transform value) → SafeLink link) := by
  refine ⟨isNoteDocument_iff, fun h => ?_⟩
  have hderives := isNoteDocument_iff.mp h
  exact ⟨isNoteDocument_iff.mpr hderives.transform, transform_transform value, transform_same value,
    fun link hlink => hderives.safe hlink⟩

/-- A document with one link. -/
def linked : Json :=
  .obj [("type", .str "doc"), ("content", .arr [.obj [("type", .str "paragraph"), ("content",
    .arr [.obj [("type", .str "text"), ("text", .str "map"),
      ("marks", .arr [.obj [("type", .str "link"),
      ("attrs", .obj [("href", .str "https://map.example"), ("rel", .str "opener")])]])]])]])]

def webOnly : UrlParser := fun href => if href.startsWith "https:" then some "https:" else none

theorem notes_documents_linked :
    isNoteDocument webOnly linked ∧ isNoteDocument webOnly (transform linked) ∧
      ∀ link, LinkIn link (transform linked) → SafeLink link := by
  have haccepted : isNoteDocument webOnly linked := by decide +kernel
  obtain ⟨hagain, -, -, hsafe⟩ := (notes_documents webOnly linked).2 haccepted
  exact ⟨haccepted, hagain, hsafe⟩

end NoteDocument

end AfkClient
