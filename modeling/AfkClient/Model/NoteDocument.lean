import AfkClient.Library.Json
import AfkClient.Library.Worklist

/-! The documents of the notes: the check of an untrusted value, and the change of its links
once it has passed. -/

namespace AfkClient

/-- The protocol of an address, if the URL parser accepts it. -/
abbrev UrlParser := String → Option String

namespace NoteDocument

open Json

def blockTypes : List String :=
  ["paragraph", "heading", "bulletList", "orderedList", "blockquote", "codeBlock", "horizontalRule"]

def inlineTypes : List String := ["text", "hardBreak"]

def markTypes : List String := ["bold", "italic", "underline", "strike", "code", "link"]

def protocols : List String := ["https:", "http:", "mailto:"]

/-- `keys(value, allowed)` -/
def keys (entries : List (String × Json)) (allowed : List String) : Bool :=
  entries.all fun entry => entry.1 ∈ allowed

/-- The types of the children of a node. -/
def allowedTypes (parent : String) : List String :=
  if parent = "paragraph" ∨ parent = "heading" then inlineTypes
  else if parent = "codeBlock" then ["text"]
  else if parent = "bulletList" ∨ parent = "orderedList" then ["listItem"]
  else blockTypes

/-! ### The parts of a node -/

def textOk (type : String) : Option Json → Bool
  | none => type ≠ "text"
  | some (.str text) => type = "text" && text ≠ ""
  | some _ => false

/-- `undefined`, `null` or one of the strings. -/
def isNullOr (allowed : String → Bool) : Option Json → Bool
  | none => true
  | some .null => true
  | some (.str value) => allowed value
  | some _ => false

def isLevel : Option Json → Bool
  | some (.num level) => level = 1 || level = 2 || level = 3
  | _ => false

/-- `Number.isSafeInteger(start) && start >= 1` -/
def isStart : Option Json → Bool
  | some (.num start) => start.den = 1 && start ≤ 9007199254740991 && start ≥ 1
  | _ => false

/-- `null` or a string. -/
def isLanguage : Option Json → Bool
  | some .null => true
  | some (.str _) => true
  | _ => false

def isAlignment : Option Json → Bool := isNullOr (· ∈ ["left", "center"])

def attrsOk (type : String) : Option Json → Bool
  | none => true
  | some (.obj attrs) =>
      if type = "heading" then
        keys attrs ["level", "textAlign"] && isLevel (find attrs "level") &&
          isAlignment (find attrs "textAlign")
      else if type = "paragraph" then
        keys attrs ["textAlign"] && isAlignment (find attrs "textAlign")
      else if type = "orderedList" then
        keys attrs ["start", "type"] && isStart (find attrs "start") &&
          isNullOr (· = "1") (find attrs "type")
      else if type = "codeBlock" then keys attrs ["language"] && isLanguage (find attrs "language")
      else attrs.isEmpty
  | some _ => false

def hrefOk (url : UrlParser) : Option Json → Bool
  | some (.str href) => (url href).any (· ∈ protocols)
  | _ => false

def linkOk (url : UrlParser) : Option Json → Bool
  | some (.obj attrs) =>
      keys attrs ["href", "target", "rel", "class", "title"] && hrefOk url (find attrs "href") &&
        isNullOr (· = "_blank") (find attrs "target") && isNullOr (fun _ => true) (find attrs "rel") &&
        isNullOr (fun _ => false) (find attrs "class") && isNullOr (fun _ => true) (find attrs "title")
  | _ => false

/-- `undefined` or an object without properties. -/
def emptyOk : Option Json → Bool
  | none => true
  | some (.obj attrs) => attrs.isEmpty
  | some _ => false

def markOk (url : UrlParser) : Json → Bool
  | .obj mark =>
      keys mark ["type", "attrs"] &&
        match find mark "type" with
        | some (.str type) =>
            decide (type ∈ markTypes) &&
              if type = "link" then linkOk url (find mark "attrs") else emptyOk (find mark "attrs")
        | _ => false
  | _ => false

def marksOk (url : UrlParser) (type parent : String) : Option Json → Bool
  | none => true
  | some (.arr marks) => type = "text" && parent ≠ "codeBlock" && marks.all (markOk url)
  | some _ => false

/-- The children of a node; `none` if its content is wrong. -/
def childrenOf (type : String) : Option Json → Option (List Json)
  | none => some []
  | some (.arr items) =>
      if type = "text" ∨ type = "hardBreak" ∨ type = "horizontalRule" then none else some items
  | some _ => none

def isParagraph : Option Json → Bool
  | some (.obj node) => match find node "type" with
      | some (.str type) => type = "paragraph"
      | _ => false
  | _ => false

/-- What a list or an item of one must contain. -/
def listOk (type : String) (children : List Json) : Bool :=
  (type ∉ ["bulletList", "orderedList", "listItem"] || ! children.isEmpty) &&
    (type ≠ "listItem" || isParagraph children.head?)

/-! ### The check -/

structure Pending where
  node : Json
  parent : String
  depth : ℕ

def visitFields (url : UrlParser) (parent : String) (depth : ℕ) (node : List (String × Json)) :
    Option (List Pending) :=
  match find node "type" with
  | some (.str type) =>
      if keys node ["type", "content", "attrs", "text", "marks"] &&
          (depth = 0 || type ∈ allowedTypes parent) && textOk type (find node "text") &&
          attrsOk type (find node "attrs") && marksOk url type parent (find node "marks") then
        match childrenOf type (find node "content") with
        | some children =>
            if listOk type children then some (children.map fun child => ⟨child, type, depth + 1⟩)
            else none
        | none => none
      else none
  | _ => none

/-- One turn of the loop; `none` if the document is rejected. -/
def visit (url : UrlParser) (p : Pending) : Option (List Pending) :=
  if p.depth > 64 then none
  else match p.node with
    | .obj node => visitFields url p.parent p.depth node
    | _ => none

/-- What must hold of the whole value: a document with content. -/
def isDoc : Json → Bool
  | .obj node => match find node "type", find node "content" with
      | some (.str type), some (.arr content) => type = "doc" && ! content.isEmpty
      | _, _ => false
  | _ => false

end NoteDocument

namespace Json

mutual

/-- The number of values a value is made of. -/
def size : Json → ℕ
  | .arr items => sizeItems items + 1
  | .obj entries => sizeEntries entries + 1
  | _ => 1

def sizeItems : List Json → ℕ
  | [] => 0
  | item :: items => item.size + sizeItems items

def sizeEntries : List (String × Json) → ℕ
  | [] => 0
  | (_, value) :: entries => value.size + sizeEntries entries

end

end Json

namespace NoteDocument

open Json

/-- `isNoteDocument(value)`; no document has more nodes than values. -/
def isNoteDocument (url : UrlParser) (value : Json) : Bool :=
  isDoc value && Worklist.explore (visit url) value.size [⟨value, "", 0⟩]

/-! ### The change of the links -/

def linkAttrs (attrs : List (String × Json)) : Json :=
  .obj [("href", (find attrs "href").getD .null), ("target", .str "_blank"),
    ("rel", .str "noopener noreferrer"), ("class", .null), ("title", (find attrs "title").getD .null)]

/-- Sets a property that is there. -/
def setAttrs (mark : List (String × Json)) (attrs : Json) : List (String × Json) :=
  mark.map fun entry => if entry.1 = "attrs" then ("attrs", attrs) else entry

def transformMark : Json → Json
  | .obj mark => match find mark "type", find mark "attrs" with
      | some (.str "link"), some (.obj attrs) => .obj (setAttrs mark (linkAttrs attrs))
      | _, _ => .obj mark
  | mark => mark

def transformMarks : Json → Json
  | .arr marks => .arr (marks.map transformMark)
  | marks => marks

mutual

/-- The nodes are changed in place, each once. -/
def transform : Json → Json
  | .obj node => .obj (transformEntries node)
  | node => node

def transformEntries : List (String × Json) → List (String × Json)
  | [] => []
  | (key, value) :: entries =>
      (key, if key = "marks" then transformMarks value
        else if key = "content" then transformContent value else value) :: transformEntries entries

def transformContent : Json → Json
  | .arr items => .arr (transformItems items)
  | content => content

def transformItems : List Json → List Json
  | [] => []
  | item :: items => transform item :: transformItems items

end

end NoteDocument

end AfkClient
