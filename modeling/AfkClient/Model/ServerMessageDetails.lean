import AfkClient.Model.RustMultipliers

/-! Tooltips in the NBT of a server message (`rust-bot/src/server_message_details.rs`). -/

namespace AfkClient.ServerMessageDetails

open RustBot (isWhitespace trim)

/-! ### Named binary tags -/

mutual

/-- A tag; numbers and arrays of numbers are of type `σ`. -/
inductive NbtTag (σ : Type)
  | plain (value : σ)
  | string (text : List Char)
  | compound (compound : NbtCompound σ)
  | list (list : NbtList σ)

inductive NbtCompound (σ : Type)
  | mk (entries : List (String × NbtTag σ))

inductive NbtList (σ : Type)
  /-- A typed list of scalars, or an empty one. -/
  | plain (values : List σ)
  | compounds (items : List (NbtCompound σ))
  | lists (items : List (NbtList σ))

end

variable {σ : Type}

/-- The first entry of this name. -/
def NbtCompound.get (key : String) : NbtCompound σ → Option (NbtTag σ)
  | .mk entries => entries.lookup key

def NbtCompound.compound (key : String) (c : NbtCompound σ) : Option (NbtCompound σ) :=
  match c.get key with
  | some (.compound c) => some c
  | _ => none

def NbtCompound.string (key : String) (c : NbtCompound σ) : Option (List Char) :=
  match c.get key with
  | some (.string text) => some text
  | _ => none

/-! ### Bounds -/

def maxPacketBytes : ℕ := 128 * 1024

def maxTextChars : ℕ := 1024

def maxDepth : ℕ := 16

def maxNodes : ℕ := 256

/-- One node of the budget; `none` for the answer `false`. -/
def spend (depth remaining : ℕ) : Option ℕ :=
  if maxDepth < depth ∨ remaining = 0 then none else some (remaining - 1)

mutual

/-- The budget that remains, `none` for the answer `false`. -/
def boundedTag : NbtTag σ → ℕ → ℕ → Option ℕ
  | .compound compound, depth, remaining => boundedCompound compound depth remaining
  | .list list, depth, remaining => boundedList list depth remaining
  | .plain _, depth, remaining => spend depth remaining
  | .string _, depth, remaining => spend depth remaining

def boundedCompound : NbtCompound σ → ℕ → ℕ → Option ℕ
  | .mk entries, depth, remaining =>
      (spend depth remaining).bind (boundedEntries entries (depth + 1))

def boundedList : NbtList σ → ℕ → ℕ → Option ℕ
  | .compounds items, depth, remaining =>
      (spend depth remaining).bind (boundedCompounds items (depth + 1))
  | .lists items, depth, remaining =>
      (spend depth remaining).bind (boundedLists items (depth + 1))
  | .plain _, depth, remaining => spend depth remaining

/-- `all` over the children of a compound. -/
def boundedEntries : List (String × NbtTag σ) → ℕ → ℕ → Option ℕ
  | [], _, remaining => some remaining
  | (_, child) :: entries, depth, remaining =>
      (boundedTag child depth remaining).bind (boundedEntries entries depth)

def boundedCompounds : List (NbtCompound σ) → ℕ → ℕ → Option ℕ
  | [], _, remaining => some remaining
  | compound :: items, depth, remaining =>
      (boundedCompound compound depth remaining).bind (boundedCompounds items depth)

def boundedLists : List (NbtList σ) → ℕ → ℕ → Option ℕ
  | [], _, remaining => some remaining
  | list :: items, depth, remaining =>
      (boundedList list depth remaining).bind (boundedLists items depth)

end

/-! ### Texts -/

/-- `char::is_control` -/
def isControl (c : Char) : Bool := c.toNat < 0x20 || (0x7f ≤ c.toNat && c.toNat < 0xa0)

def unreadable : List Char := "Zusatztext konnte nicht gelesen werden".toList

/-- The texts so far, with the depth of every node that was visited. -/
structure Collected where
  texts : List (List Char) := []
  visited : List ℕ := []

def Collected.visit (depth : ℕ) (c : Collected) : Collected :=
  { c with visited := c.visited ++ [depth] }

/-- A text that is new. -/
def Collected.push (text : List Char) (c : Collected) : Collected :=
  if text ∈ c.texts then c else { c with texts := c.texts ++ [text] }

/-- The text of a tooltip on one line. -/
def flatText (text : List Char) : List Char :=
  trim ((text.take maxTextChars).map fun c => if isControl c || isWhitespace c then ' ' else c)

/-- The tooltip of one hover event; `formatted` is the text of a component. -/
def collectHover (formatted : NbtTag σ → Option (List Char)) (compound : NbtCompound σ) (key : String)
    (c : Collected) : Collected :=
  match compound.compound key with
  | none => c
  | some hover =>
      if hover.string "action" = some "show_text".toList then
        match (hover.get "value").or (hover.get "contents") with
        | none => c
        | some value =>
            match formatted value with
            | some text => if flatText text = [] then c else c.push (flatText text)
            | none => c.push unreadable
      else c

def childKeys : List String := ["extra", "with", ""]

/-- The children under the keys, in the order of the keys. -/
def collectKeys (children : List (String × (Collected → Collected))) (c : Collected) : Collected :=
  childKeys.foldl (fun c key => ((children.lookup key).getD id) c) c

mutual

def collectTag (formatted : NbtTag σ → Option (List Char)) :
    NbtTag σ → ℕ → Collected → Collected
  | .compound compound, depth, c => collectCompound formatted compound depth c
  | .list list, depth, c => collectList formatted list depth c
  | .plain _, depth, c => c.visit depth
  | .string _, depth, c => c.visit depth

def collectList (formatted : NbtTag σ → Option (List Char)) :
    NbtList σ → ℕ → Collected → Collected
  | .compounds items, depth, c => collectCompounds formatted items (depth + 1) (c.visit depth)
  | .lists items, depth, c => collectLists formatted items (depth + 1) (c.visit depth)
  | .plain _, depth, c => c.visit depth

def collectCompound (formatted : NbtTag σ → Option (List Char)) :
    NbtCompound σ → ℕ → Collected → Collected
  | .mk entries, depth, c =>
      let c := collectHover formatted (.mk entries) "hover_event" (c.visit depth)
      let c := collectHover formatted (.mk entries) "hoverEvent" c
      collectKeys (collectEntries formatted entries (depth + 1)) c

/-- What collecting a child does, under its name. -/
def collectEntries (formatted : NbtTag σ → Option (List Char)) :
    List (String × NbtTag σ) → ℕ → List (String × (Collected → Collected))
  | [], _ => []
  | (key, child) :: entries, depth =>
      (key, collectTag formatted child depth) :: collectEntries formatted entries depth

def collectCompounds (formatted : NbtTag σ → Option (List Char)) :
    List (NbtCompound σ) → ℕ → Collected → Collected
  | [], _, c => c
  | compound :: items, depth, c =>
      collectCompounds formatted items depth (collectCompound formatted compound depth c)

def collectLists (formatted : NbtTag σ → Option (List Char)) :
    List (NbtList σ) → ℕ → Collected → Collected
  | [], _, c => c
  | list :: items, depth, c =>
      collectLists formatted items depth (collectList formatted list depth c)

end

/-- The texts of a tag that is small enough. -/
def extract (formatted : NbtTag σ → Option (List Char)) (tag : NbtTag σ) : Option (List (List Char)) :=
  (boundedTag tag 0 maxNodes).map fun _ => (collectTag formatted tag 0 {}).texts

/-- `readTag` reads the packet id and an optional tag. -/
def packetTooltip (readTag : List UInt8 → Option (Option (NbtTag σ)))
    (formatted : NbtTag σ → Option (List Char)) (raw : List UInt8) : List Char :=
  let texts :=
    if maxPacketBytes < raw.length then none
    else (readTag raw).bind fun nbt => (nbt.map (extract formatted)).getD (some [])
  match texts with
  | none => unreadable
  | some [] => "kein Textzusatz in dieser Servermeldung".toList
  | some texts => (" | ".toList.intercalate texts).take maxTextChars

end AfkClient.ServerMessageDetails
