import Mathlib.Data.List.Basic

/-! A variable that holds timer handles. Arming a second timer through the variable
overwrites the handle but leaves the first timer pending, so a missing clear shows up
as a timer that the variable no longer tracks. -/

namespace AfkClient

/-- What a timer variable holds, and the timers armed through it that neither fired
nor were cleared. Handles are never reused. -/
structure TimerVar (κ : Type*) where
  handle : Option ℕ := none
  pending : List (ℕ × κ) := []
  next : ℕ := 0
  deriving DecidableEq, Repr

namespace TimerVar

variable {κ : Type*}

/-- `this.timer = setTimeout(...)` -/
def arm (t : TimerVar κ) (timer : κ) : TimerVar κ :=
  { handle := some t.next, pending := (t.next, timer) :: t.pending, next := t.next + 1 }

/-- `clearTimeout(this.timer); this.timer = null`, or nothing if the variable is empty. -/
def clear (t : TimerVar κ) : TimerVar κ :=
  match t.handle with
  | none => t
  | some handle => { t with handle := none, pending := t.pending.filter (·.1 ≠ handle) }

/-- `this.timer = null` -/
def forget (t : TimerVar κ) : TimerVar κ := { t with handle := none }

def find? (t : TimerVar κ) (handle : ℕ) : Option κ := t.pending.lookup handle

/-- A one-shot timer fires. -/
def fire (t : TimerVar κ) (handle : ℕ) : TimerVar κ :=
  { t with pending := t.pending.filter (·.1 ≠ handle) }

/-- An interval fires and stays pending with its state changed. -/
def update (t : TimerVar κ) (handle : ℕ) (f : κ → κ) : TimerVar κ :=
  { t with pending := t.pending.map fun p => if p.1 = handle then (p.1, f p.2) else p }

/-- At most one timer is pending, and it is the one the variable holds. -/
structure Tracked (t : TimerVar κ) : Prop where
  handle : ∀ p ∈ t.pending, t.handle = some p.1
  length : t.pending.length ≤ 1

/-! ### Rules -/

variable {t : TimerVar κ}

theorem tracked_of_pending_nil (h : t.pending = []) : t.Tracked := by
  constructor <;> simp [h]

theorem Tracked.pending_nil (h : t.Tracked) (hn : t.handle = none) : t.pending = [] := by
  apply List.eq_nil_iff_forall_not_mem.mpr
  intro p hp
  simpa [hn] using h.handle p hp

/-- Clearing a tracked variable leaves no timer behind. -/
theorem Tracked.clear_pending (h : t.Tracked) : t.clear.pending = [] := by
  unfold clear
  split
  · exact h.pending_nil ‹_›
  · rename_i handle hh
    apply List.filter_eq_nil_iff.mpr
    intro p hp
    have heq := h.handle p hp
    simp_all

theorem arm_tracked (h : t.pending = []) (timer : κ) : (t.arm timer).Tracked := by
  constructor <;> simp [arm, h]

theorem mem_of_find? {handle : ℕ} {timer : κ} (h : t.find? handle = some timer) :
    (handle, timer) ∈ t.pending := by
  obtain ⟨l₁, l₂, hsplit, _⟩ := List.lookup_eq_some_iff.mp h
  simp [hsplit]

/-- A tracked variable has no timer left once its timer fired. -/
theorem Tracked.fire_pending (h : t.Tracked) {handle : ℕ} {timer : κ}
    (hf : t.find? handle = some timer) : (t.fire handle).pending = [] := by
  have hm := mem_of_find? hf
  have hh := h.handle _ hm
  apply List.filter_eq_nil_iff.mpr
  intro p hp
  have heq := h.handle p hp
  simp_all

theorem Tracked.update (h : t.Tracked) (handle : ℕ) (f : κ → κ) : (t.update handle f).Tracked := by
  constructor
  · intro p hp
    obtain ⟨q, hq, rfl⟩ := List.mem_map.mp hp
    have heq := h.handle q hq
    split <;> exact heq
  · simpa [TimerVar.update] using h.length

@[simp] theorem forget_pending : t.forget.pending = t.pending := rfl

end TimerVar

end AfkClient
