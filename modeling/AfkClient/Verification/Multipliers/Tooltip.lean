import AfkClient.Library.JsonWeight
import AfkClient.Model.SellMultipliers

/-! The text of a tooltip does not depend on the fuel: its recursion comes to an end. -/

namespace AfkClient.Multipliers

open Json (property weight weightItems weightEntries)

/-! ### Calls -/

/-- `/^[\[{]/.test(value.trim())` -/
def startsJson (text : String) : Bool :=
  (Text.trim text.toList).head?.any fun c => c == '[' || c == '{'

/-- `component.extra ?? component.rawtext` -/
def extraOf (entries : List (String × Json)) : Json :=
  match property entries "extra" with
  | .null => property entries "rawtext"
  | extra => extra

/-- A call of `tooltipText` on the one value calls it on the other one. -/
inductive Calls : Json → Json → Prop
  | parsed {text : String} {value : Json} (hstart : startsJson text = true)
      (h : Json.parse text.toList = some value) : Calls (.str text) value
  | item {items : List Json} {item : Json} (h : item ∈ items) : Calls (.arr items) item
  | text {entries : List (String × Json)} : Calls (.obj entries) (property entries "text")
  | extra {entries : List (String × Json)} : Calls (.obj entries) (extraOf entries)

theorem weight_extraOf (entries : List (String × Json)) :
    (extraOf entries).weight ≤ weightEntries entries := by
  rw [extraOf]
  split
  · exact Json.weight_property entries "rawtext"
  · exact Json.weight_property entries "extra"

theorem Calls.weight_lt {v w : Json} (h : Calls v w) : w.weight < v.weight := by
  cases h with
  | parsed _ h => exact Json.weight_parse h
  | item h =>
      have hle := Json.weight_le_items h
      rw [weight]
      omega
  | @text entries =>
      have hle := Json.weight_property entries "text"
      rw [weight]
      omega
  | @extra entries =>
      have hle := weight_extraOf entries
      rw [weight]
      omega

/-! ### Fuel -/

def plainTooltip (text : String) : List Char :=
  (removeTooltipCodes text.toList).filter (· ≠ '§')

/-- One call, with the texts of the calls it makes. -/
def tooltipStep (call : Json → List Char) : Json → List Char
  | .str text =>
      if startsJson text then
        match Json.parse text.toList with
        | some value => call value
        | none => plainTooltip text
      else plainTooltip text
  | .arr items => items.flatMap call
  | .obj entries => call (property entries "text") ++ call (extraOf entries)
  | _ => []

theorem componentText_succ (fuel : ℕ) (v : Json) :
    componentText (fuel + 1) v = tooltipStep (componentText fuel) v := by
  cases v <;> rfl

theorem tooltipStep_congr {call call' : Json → List Char} {v : Json}
    (h : ∀ w, Calls v w → call w = call' w) : tooltipStep call v = tooltipStep call' v := by
  cases v with
  | str text =>
      rw [tooltipStep, tooltipStep]
      by_cases hstart : startsJson text = true
      · rw [if_pos hstart, if_pos hstart]
        cases hparse : Json.parse text.toList with
        | none => rfl
        | some value => exact h value (.parsed hstart hparse)
      · rw [if_neg hstart, if_neg hstart]
  | arr items => exact List.flatMap_congr fun item hitem => h item (.item hitem)
  | obj entries => rw [tooltipStep, tooltipStep, h _ .text, h _ .extra]
  | _ => rfl

theorem componentText_light {v : Json} (h : v.weight ≤ 1) (fuel : ℕ) : componentText fuel v = [] := by
  cases fuel with
  | zero => rfl
  | succ fuel =>
      cases v with
      | str text => simp [weight] at h
      | arr items => simp [weight] at h
      | obj entries => simp [weight] at h
      | _ => rfl

/-- Fuel for the weight is enough. -/
theorem componentText_fuel {fuel fuel' : ℕ} {v : Json} (h : v.weight ≤ fuel + 1)
    (h' : v.weight ≤ fuel' + 1) : componentText fuel v = componentText fuel' v := by
  induction fuel generalizing fuel' v with
  | zero => rw [componentText_light h, componentText_light h]
  | succ fuel ih =>
      cases fuel' with
      | zero => rw [componentText_light h', componentText_light h']
      | succ fuel' =>
          rw [componentText_succ, componentText_succ]
          refine tooltipStep_congr fun w hw => ?_
          have hlt := hw.weight_lt
          exact ih (by omega) (by omega)

/-- `tooltipText` on any value -/
def tooltip (v : Json) : List Char := componentText v.weight v

theorem tooltip_eq (v : Json) : tooltip v = tooltipStep tooltip v := by
  rw [tooltip, @componentText_fuel _ (v.weight + 1) _ (by omega) (by omega), componentText_succ]
  refine tooltipStep_congr fun w hw => componentText_fuel ?_ (by omega)
  have hlt := hw.weight_lt
  omega

theorem tooltipText_eq (text : String) : tooltipText text = tooltip (.str text) :=
  componentText_fuel (by rw [weight]) (by omega)

theorem calls_wf : WellFounded fun w v => Calls v w :=
  Subrelation.wf Calls.weight_lt (measure weight).wf

/-- The recursion has one solution. -/
theorem tooltip_unique {f : Json → List Char} (h : ∀ v, f v = tooltipStep f v) (v : Json) :
    f v = tooltip v := by
  induction v using calls_wf.induction with
  | _ v ih => rw [h, tooltip_eq, tooltipStep_congr ih]

/-- Every call is about a lighter value, so the recursion comes to an end, and a string that does
not parse is plain. -/
theorem tooltipText_terminates :
    (∀ v w, Calls v w → w.weight < v.weight) ∧ (WellFounded fun w v => Calls v w) ∧
    (∀ v, tooltip v = tooltipStep tooltip v) ∧ (∀ text, tooltipText text = tooltip (.str text)) ∧
    ∀ text, Json.parse text.toList = none →
      tooltip (.str text) = plainTooltip text ∧ ∀ w, ¬Calls (.str text) w := by
  refine ⟨fun _ _ => Calls.weight_lt, calls_wf, tooltip_eq, tooltipText_eq, fun text hnone => ?_⟩
  constructor
  · rw [tooltip_eq, tooltipStep, hnone, ite_self]
  · intro w hw
    cases hw with
    | parsed _ hsome => cases hnone.symm.trans hsome

theorem tooltipText_terminates_bracket : tooltip (.str "[x") = "[x".toList :=
  (tooltipText_terminates.2.2.2.2 "[x" (by decide +kernel)).1.trans (by decide)

/-! ### The serialised value -/

mutual

/-- `JSON.stringify`, with the texts of the numbers. -/
def serialised (number : ℚ → List Char) : Json → List Char
  | .null => "null".toList
  | .bool value => (if value then "true" else "false").toList
  | .num value => number value
  | .str text => Json.quote text
  | .arr items => Json.array (serialisedItems number items)
  | .obj entries => Json.object (serialisedEntries number entries)

def serialisedItems (number : ℚ → List Char) : List Json → List (List Char)
  | [] => []
  | item :: items => serialised number item :: serialisedItems number items

def serialisedEntries (number : ℚ → List Char) :
    List (String × Json) → List (String × List Char)
  | [] => []
  | (key, value) :: entries => (key, serialised number value) :: serialisedEntries number entries

end

/-- A number may be shorter in a string than written in full, as JSON writes it. -/
theorem serialised_grows : ¬∃ number : ℚ → List Char,
    number (10 ^ 20) = "100000000000000000000".toList ∧
      ∀ v w, Calls v w → (serialised number w).length < (serialised number v).length := by
  rintro ⟨number, hnumber, h⟩
  have hparse : Json.parse "[1e20]".toList = some (.arr [.num (10 ^ 20)]) := by decide +kernel
  have hlt := h _ _ (.parsed (by decide) hparse)
  rw [serialised, serialised, serialisedItems, serialisedItems, serialised, hnumber] at hlt
  exact absurd hlt (by decide)

end AfkClient.Multipliers
