import AfkClient.Model.ServerMessageDetails
import Mathlib.Algebra.BigOperators.Group.List.Basic
import Mathlib.Algebra.Order.Group.Multiset

/-! The bounds of the tags whose tooltips are collected. -/

namespace AfkClient.ServerMessageDetails

variable {σ : Type}

/-! ### Counted nodes -/

mutual

/-- The depths of the nodes that count: scalars, compounds, lists and what is in lists of them. -/
def countedTag : NbtTag σ → ℕ → Multiset ℕ
  | .compound compound, depth => countedCompound compound depth
  | .list list, depth => countedList list depth
  | .plain _, depth => {depth}
  | .string _, depth => {depth}

def countedCompound : NbtCompound σ → ℕ → Multiset ℕ
  | .mk entries, depth => {depth} + countedEntries entries (depth + 1)

def countedList : NbtList σ → ℕ → Multiset ℕ
  | .compounds items, depth => {depth} + countedCompounds items (depth + 1)
  | .lists items, depth => {depth} + countedLists items (depth + 1)
  | .plain _, depth => {depth}

def countedEntries : List (String × NbtTag σ) → ℕ → Multiset ℕ
  | [], _ => 0
  | (_, child) :: entries, depth => countedTag child depth + countedEntries entries depth

def countedCompounds : List (NbtCompound σ) → ℕ → Multiset ℕ
  | [], _ => 0
  | compound :: items, depth => countedCompound compound depth + countedCompounds items depth

def countedLists : List (NbtList σ) → ℕ → Multiset ℕ
  | [], _ => 0
  | list :: items, depth => countedList list depth + countedLists items depth

end

/-! ### The budget -/

/-- The nodes of these depths are not too many and not too deep. -/
def Fits (nodes : Multiset ℕ) (remaining : ℕ) : Prop :=
  nodes.card ≤ remaining ∧ ∀ depth ∈ nodes, depth ≤ maxDepth

instance (nodes : Multiset ℕ) (remaining : ℕ) : Decidable (Fits nodes remaining) :=
  inferInstanceAs (Decidable (_ ∧ _))

/-- What the nodes of these depths leave of a budget. -/
def afford (nodes : Multiset ℕ) (remaining : ℕ) : Option ℕ :=
  if Fits nodes remaining then some (remaining - nodes.card) else none

theorem afford_zero (remaining : ℕ) : afford 0 remaining = some remaining := by
  simp [afford, Fits]

theorem fits_add (a b : Multiset ℕ) (remaining : ℕ) :
    Fits (a + b) remaining ↔ Fits a remaining ∧ Fits b (remaining - a.card) := by
  rw [Fits, Multiset.card_add]
  constructor
  · rintro ⟨hcard, hdepth⟩
    exact ⟨⟨by omega, fun depth h => hdepth depth (Multiset.mem_add.mpr (.inl h))⟩,
      by omega, fun depth h => hdepth depth (Multiset.mem_add.mpr (.inr h))⟩
  · rintro ⟨⟨ha, hdepth⟩, hb, hdepth'⟩
    exact ⟨by omega, fun depth h =>
      (Multiset.mem_add.mp h).elim (hdepth depth) (hdepth' depth)⟩

theorem afford_add (a b : Multiset ℕ) (remaining : ℕ) :
    (afford a remaining).bind (afford b) = afford (a + b) remaining := by
  by_cases ha : Fits a remaining
  · rw [afford, if_pos ha, Option.bind_some]
    by_cases hb : Fits b (remaining - a.card)
    · rw [afford, if_pos hb, afford, if_pos ((fits_add a b remaining).mpr ⟨ha, hb⟩),
        Multiset.card_add, Nat.sub_sub]
    · rw [afford, if_neg hb, afford, if_neg fun h => hb ((fits_add a b remaining).mp h).2]
  · rw [afford, if_neg ha, afford, if_neg fun h => ha ((fits_add a b remaining).mp h).1]
    rfl

theorem spend_eq (depth remaining : ℕ) : spend depth remaining = afford {depth} remaining := by
  have hfits : Fits {depth} remaining ↔ ¬(maxDepth < depth ∨ remaining = 0) := by
    simp only [Fits, Multiset.card_singleton, Multiset.mem_singleton, forall_eq]
    omega
  by_cases h : maxDepth < depth ∨ remaining = 0
  · rw [spend, if_pos h, afford, if_neg fun hf => hfits.mp hf h]
  · rw [spend, if_neg h, afford, if_pos (hfits.mpr h), Multiset.card_singleton]

mutual

theorem boundedTag_eq (tag : NbtTag σ) (depth : ℕ) :
    boundedTag tag depth = afford (countedTag tag depth) := by
  cases tag with
  | compound compound => exact boundedCompound_eq compound depth
  | list list => exact boundedList_eq list depth
  | plain value => exact funext (spend_eq depth)
  | string text => exact funext (spend_eq depth)

theorem boundedCompound_eq (compound : NbtCompound σ) (depth : ℕ) :
    boundedCompound compound depth = afford (countedCompound compound depth) := by
  funext remaining
  cases compound with
  | mk entries =>
      rw [boundedCompound, countedCompound, spend_eq, boundedEntries_eq entries, afford_add]

theorem boundedList_eq (list : NbtList σ) (depth : ℕ) :
    boundedList list depth = afford (countedList list depth) := by
  funext remaining
  cases list with
  | compounds items =>
      rw [boundedList, countedList, spend_eq, boundedCompounds_eq items, afford_add]
  | lists items => rw [boundedList, countedList, spend_eq, boundedLists_eq items, afford_add]
  | plain values => exact spend_eq depth remaining

theorem boundedEntries_eq (entries : List (String × NbtTag σ)) (depth : ℕ) :
    boundedEntries entries depth = afford (countedEntries entries depth) := by
  funext remaining
  cases entries with
  | nil => exact (afford_zero remaining).symm
  | cons entry entries =>
      rw [boundedEntries, countedEntries, boundedTag_eq entry.2, boundedEntries_eq entries, afford_add]

theorem boundedCompounds_eq (items : List (NbtCompound σ)) (depth : ℕ) :
    boundedCompounds items depth = afford (countedCompounds items depth) := by
  funext remaining
  cases items with
  | nil => exact (afford_zero remaining).symm
  | cons compound items =>
      rw [boundedCompounds, countedCompounds, boundedCompound_eq compound, boundedCompounds_eq items,
        afford_add]

theorem boundedLists_eq (items : List (NbtList σ)) (depth : ℕ) :
    boundedLists items depth = afford (countedLists items depth) := by
  funext remaining
  cases items with
  | nil => exact (afford_zero remaining).symm
  | cons list items =>
      rw [boundedLists, countedLists, boundedList_eq list, boundedLists_eq items, afford_add]

end

/-! ### Visits -/

/-- Collecting visits different nodes among these. -/
def Visits (f : Collected → Collected) (nodes : Multiset ℕ) : Prop :=
  ∀ c, ∃ seen ≤ nodes, ((f c).visited : Multiset ℕ) = c.visited + seen

theorem Visits.comp {f g : Collected → Collected} {a b : Multiset ℕ} (hf : Visits f a)
    (hg : Visits g b) : Visits (fun c => g (f c)) (a + b) := by
  intro c
  obtain ⟨s, hs, hseen⟩ := hf c
  obtain ⟨t, ht, hseen'⟩ := hg (f c)
  exact ⟨s + t, add_le_add hs ht, by rw [hseen', hseen, add_assoc]⟩

theorem Visits.mono {f : Collected → Collected} {a b : Multiset ℕ} (hf : Visits f a) (h : a ≤ b) :
    Visits f b := by
  intro c
  obtain ⟨s, hs, hseen⟩ := hf c
  exact ⟨s, hs.trans h, hseen⟩

theorem visits_id : Visits id 0 := fun c => ⟨0, le_rfl, by simp⟩

theorem visits_visit (depth : ℕ) : Visits (Collected.visit depth) {depth} :=
  fun c => ⟨{depth}, le_rfl, by simp [Collected.visit, ← Multiset.coe_add]⟩

theorem visited_push (text : List Char) (c : Collected) : (c.push text).visited = c.visited := by
  rw [Collected.push]
  split <;> rfl

theorem visits_hover (formatted : NbtTag σ → Option (List Char)) (compound : NbtCompound σ)
    (key : String) : Visits (collectHover formatted compound key) 0 := by
  refine fun c => ⟨0, le_rfl, ?_⟩
  have hvisited : (collectHover formatted compound key c).visited = c.visited := by
    unfold collectHover
    split
    · rfl
    · split
      · split
        · rfl
        · split
          · split
            · rfl
            · exact visited_push _ c
          · exact visited_push _ c
      · rfl
  rw [hvisited, add_zero]

theorem sum_lookup_congr {keys : List String} {name : String} (hname : name ∉ keys)
    (nodes : Multiset ℕ) (counts : List (String × Multiset ℕ)) :
    (keys.map fun key => (((name, nodes) :: counts).lookup key).getD 0).sum =
      (keys.map fun key => (counts.lookup key).getD 0).sum := by
  congr 1
  refine List.map_congr_left fun key hkey => ?_
  have hne : key ≠ name := by
    rintro rfl
    exact hname hkey
  rw [List.lookup_cons, beq_false_of_ne hne]

/-- The children under different keys are different children. -/
theorem sum_lookup_le {keys : List String} (hkeys : keys.Nodup)
    (counts : List (String × Multiset ℕ)) :
    (keys.map fun key => (counts.lookup key).getD 0).sum ≤ (counts.map Prod.snd).sum := by
  induction counts generalizing keys with
  | nil => simp
  | cons count counts ih =>
      obtain ⟨name, nodes⟩ := count
      rw [List.map_cons, List.sum_cons]
      by_cases hname : name ∈ keys
      · have hperm := (List.perm_cons_erase hname).map
          fun key => (((name, nodes) :: counts).lookup key).getD 0
        have hrest := ih (hkeys.erase name)
        rw [hperm.sum_eq, List.map_cons, List.sum_cons,
          sum_lookup_congr hkeys.not_mem_erase nodes counts, List.lookup_cons, beq_self_eq_true]
        exact add_le_add le_rfl hrest
      · rw [sum_lookup_congr hname nodes counts]
        exact (ih hkeys).trans (Multiset.le_add_left _ _)

theorem visits_lookup {children : List (String × (Collected → Collected))}
    {counts : List (String × Multiset ℕ)} (h : List.Forall₂ (fun child count =>
      child.1 = count.1 ∧ Visits child.2 count.2) children counts) (key : String) :
    Visits ((children.lookup key).getD id) ((counts.lookup key).getD 0) := by
  induction h with
  | nil => exact visits_id
  | @cons child count _ _ hchild _ ih =>
      rw [List.lookup_cons, List.lookup_cons, hchild.1]
      cases key == count.1 with
      | true => exact hchild.2
      | false => exact ih

theorem visits_keys {keys : List String} {f : String → Collected → Collected}
    {nodes : String → Multiset ℕ} (h : ∀ key, Visits (f key) (nodes key)) :
    Visits (fun c => keys.foldl (fun c key => f key c) c) (keys.map nodes).sum := by
  induction keys with
  | nil => exact visits_id
  | cons key keys ih =>
      rw [List.map_cons, List.sum_cons]
      exact (h key).comp ih

theorem countedEntries_eq (entries : List (String × NbtTag σ)) (depth : ℕ) :
    countedEntries entries depth =
      ((entries.map fun entry => (entry.1, countedTag entry.2 depth)).map Prod.snd).sum := by
  induction entries with
  | nil => rfl
  | cons entry entries ih => rw [countedEntries, ih, List.map_cons, List.map_cons, List.sum_cons]

mutual

theorem visits_tag (formatted : NbtTag σ → Option (List Char)) (tag : NbtTag σ) (depth : ℕ) :
    Visits (collectTag formatted tag depth) (countedTag tag depth) := by
  cases tag with
  | compound compound => exact visits_compound formatted compound depth
  | list list => exact visits_list formatted list depth
  | plain value => exact visits_visit depth
  | string text => exact visits_visit depth

theorem visits_list (formatted : NbtTag σ → Option (List Char)) (list : NbtList σ) (depth : ℕ) :
    Visits (collectList formatted list depth) (countedList list depth) := by
  cases list with
  | compounds items =>
      exact (visits_visit depth).comp (visits_compounds formatted items (depth + 1))
  | lists items => exact (visits_visit depth).comp (visits_lists formatted items (depth + 1))
  | plain values => exact visits_visit depth

theorem visits_compound (formatted : NbtTag σ → Option (List Char)) (compound : NbtCompound σ)
    (depth : ℕ) : Visits (collectCompound formatted compound depth) (countedCompound compound depth) := by
  cases compound with
  | mk entries =>
      have hchildren := @visits_keys childKeys _ _
        (visits_lookup (visits_entries formatted entries (depth + 1)))
      have hall := (((visits_visit depth).comp (visits_hover formatted (.mk entries) "hover_event")).comp
        (visits_hover formatted (.mk entries) "hoverEvent")).comp hchildren
      rw [countedCompound, countedEntries_eq]
      refine hall.mono ?_
      rw [add_zero, add_zero]
      exact add_le_add le_rfl (sum_lookup_le (by decide) _)

theorem visits_entries (formatted : NbtTag σ → Option (List Char)) (entries : List (String × NbtTag σ))
    (depth : ℕ) : List.Forall₂ (fun child count => child.1 = count.1 ∧ Visits child.2 count.2)
      (collectEntries formatted entries depth)
      (entries.map fun entry => (entry.1, countedTag entry.2 depth)) := by
  cases entries with
  | nil => exact .nil
  | cons entry entries =>
      exact .cons ⟨rfl, visits_tag formatted entry.2 depth⟩ (visits_entries formatted entries depth)

theorem visits_compounds (formatted : NbtTag σ → Option (List Char)) (items : List (NbtCompound σ))
    (depth : ℕ) : Visits (collectCompounds formatted items depth) (countedCompounds items depth) := by
  cases items with
  | nil => exact visits_id
  | cons compound items =>
      exact (visits_compound formatted compound depth).comp (visits_compounds formatted items depth)

theorem visits_lists (formatted : NbtTag σ → Option (List Char)) (items : List (NbtList σ))
    (depth : ℕ) : Visits (collectLists formatted items depth) (countedLists items depth) := by
  cases items with
  | nil => exact visits_id
  | cons list items =>
      exact (visits_list formatted list depth).comp (visits_lists formatted items depth)

end

theorem length_packetTooltip (readTag : List UInt8 → Option (Option (NbtTag σ)))
    (formatted : NbtTag σ → Option (List Char)) (raw : List UInt8) :
    (packetTooltip readTag formatted raw).length ≤ maxTextChars := by
  rw [packetTooltip]
  split
  · decide
  · decide
  · rw [List.length_take]
    exact Nat.min_le_left _ _

/-- The check accepts exactly the tags with few and shallow nodes; on those, collecting visits at
most as many nodes, none of them deeper. -/
theorem boundedTag_iff (formatted : NbtTag σ → Option (List Char)) (tag : NbtTag σ) :
    ((boundedTag tag 0 maxNodes).isSome = true ↔
      (countedTag tag 0).card ≤ maxNodes ∧ ∀ depth ∈ countedTag tag 0, depth ≤ maxDepth) ∧
    ((boundedTag tag 0 maxNodes).isSome = true →
      (collectTag formatted tag 0 {}).visited.length ≤ maxNodes ∧
        ∀ depth ∈ (collectTag formatted tag 0 {}).visited, depth ≤ maxDepth) := by
  have hiff : (boundedTag tag 0 maxNodes).isSome = true ↔ Fits (countedTag tag 0) maxNodes := by
    rw [boundedTag_eq, afford]
    split <;> simp_all
  refine ⟨hiff, fun hsome => ?_⟩
  obtain ⟨hcard, hdepth⟩ := hiff.mp hsome
  obtain ⟨seen, hseen, hvisited⟩ := visits_tag formatted tag 0 {}
  have hvisited : ((collectTag formatted tag 0 {}).visited : Multiset ℕ) = seen := by
    rw [hvisited]
    exact zero_add seen
  constructor
  · rw [← Multiset.coe_card, hvisited]
    exact (Multiset.card_le_card hseen).trans hcard
  · intro depth hmem
    rw [← Multiset.mem_coe, hvisited] at hmem
    exact hdepth depth (Multiset.mem_of_le hseen hmem)

theorem boundedTag_iff_text : (collectTag (σ := Unit) (fun _ => none)
    (.compound (.mk [("extra", .string "kick".toList)])) 0 {}).visited.length ≤ maxNodes :=
  ((boundedTag_iff (fun _ => none) _).2 (by decide)).1

end AfkClient.ServerMessageDetails
