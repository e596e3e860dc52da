import AfkClient.Library.Journal
import Mathlib.Data.List.Sort
import Mathlib.Data.List.TakeWhile
import Mathlib.Logic.Relation

/-! The sneak key alone: the checks that wait, the time of the next call, and the ticks that come
to the sneak step. A tick carries the time it began at. -/

namespace AfkClient.Behaviors

open Journal (Since since_append_singleton append_singleton_eq)

/-! ### Checks -/

/-- The checks once one more is due in three seconds. -/
def scheduled (now : ℤ) (checks : List ℤ) : List ℤ :=
  let due := now + 3000
  let pushed := if checks.getLast?.all fun last => 50 ≤ due - last then checks ++ [due] else checks
  if 64 < pushed.length then pushed.tail else pushed

/-- Fifty milliseconds lie between two checks. -/
abbrev Spaced (checks : List ℤ) : Prop := checks.Pairwise fun a b => a + 50 ≤ b

theorem Spaced.span {check : ℤ} {checks : List ℤ} (h : Spaced (check :: checks)) {last : ℤ}
    (hlast : checks.getLast? = some last) : check + 50 * checks.length ≤ last := by
  induction checks generalizing check with
  | nil => cases hlast
  | cons next checks ih =>
      have hnext : check + 50 ≤ next := List.rel_of_pairwise_cons h List.mem_cons_self
      cases checks with
      | nil =>
          obtain rfl : next = last := by simpa using hlast
          simpa using hnext
      | cons third checks =>
          have hrest := ih (List.pairwise_cons.mp h).2 (by simpa using hlast)
          simp only [List.length_cons] at hrest ⊢
          push_cast at hrest ⊢
          omega

theorem Spaced.le_last {checks : List ℤ} (h : Spaced checks) {last : ℤ}
    (hlast : checks.getLast? = some last) {check : ℤ} (hmem : check ∈ checks) : check ≤ last := by
  induction checks with
  | nil => cases hmem
  | cons first checks ih =>
      have hspan : checks.getLast? = some last → first + 50 * checks.length ≤ last := h.span
      cases checks with
      | nil =>
          obtain rfl : first = last := by simpa using hlast
          exact (List.mem_singleton.mp hmem).le
      | cons second checks =>
          have hlast : (second :: checks).getLast? = some last := by simpa using hlast
          rcases List.mem_cons.mp hmem with rfl | hmem
          · have := hspan hlast
            omega
          · exact ih (List.pairwise_cons.mp h).2 hlast hmem

/-- What a list of checks is before and after each change. -/
structure Orderly (now : ℤ) (checks : List ℤ) : Prop where
  spaced : Spaced checks
  bound : ∀ check ∈ checks, check ≤ now + 3000
  short : checks.length ≤ 64

variable {now : ℤ} {checks : List ℤ}

theorem Orderly.later (h : Orderly now checks) {later : ℤ} (hnow : now ≤ later) :
    Orderly later checks :=
  ⟨h.spaced, fun check hcheck => (h.bound check hcheck).trans (by omega), h.short⟩

theorem Orderly.tail (h : Orderly now checks) {rest : List ℤ} (hrest : rest.Sublist checks) :
    Orderly now rest :=
  ⟨h.spaced.sublist hrest, fun check hcheck => h.bound check (hrest.subset hcheck),
    hrest.length_le.trans h.short⟩

/-- A check is pushed, or the last one is close enough. -/
theorem pushed_cases (now : ℤ) (checks : List ℤ) :
    (∀ last, checks.getLast? = some last → last + 50 ≤ now + 3000) ∧
      scheduled now checks =
        (if 64 < (checks ++ [now + 3000]).length then (checks ++ [now + 3000]).tail
          else checks ++ [now + 3000]) ∨
    (∃ last, checks.getLast? = some last ∧ now + 2950 ≤ last) ∧
      scheduled now checks = if 64 < checks.length then checks.tail else checks := by
  unfold scheduled
  cases hlast : checks.getLast? with
  | none => exact .inl ⟨nofun, by simp⟩
  | some last =>
      by_cases hfar : 50 ≤ now + 3000 - last
      · left
        refine ⟨fun last' heq => ?_, by simp [hfar]⟩
        obtain rfl := Option.some.inj heq
        omega
      · right
        exact ⟨⟨last, rfl, by omega⟩, by simp [hfar]⟩

theorem Orderly.push (h : Orderly now checks)
    (hlast : ∀ last, checks.getLast? = some last → last + 50 ≤ now + 3000) :
    Spaced (checks ++ [now + 3000]) := by
  refine List.pairwise_append.mpr ⟨h.spaced, List.pairwise_singleton _ _, fun check hcheck due hdue => ?_⟩
  obtain rfl := List.mem_singleton.mp hdue
  obtain ⟨last, hsome⟩ := Option.ne_none_iff_exists'.mp
    (fun hnone => List.ne_nil_of_mem hcheck (List.getLast?_eq_none_iff.mp hnone))
  have := h.spaced.le_last hsome hcheck
  have := hlast last hsome
  omega

theorem Orderly.scheduled (h : Orderly now checks) : Orderly now (scheduled now checks) := by
  rcases pushed_cases now checks with ⟨hlast, heq⟩ | ⟨-, heq⟩
  · have hspaced := h.push hlast
    have hbound : ∀ check ∈ checks ++ [now + 3000], check ≤ now + 3000 := by
      intro check hcheck
      rcases List.mem_append.mp hcheck with hcheck | hcheck
      · exact h.bound check hcheck
      · exact (List.mem_singleton.mp hcheck).le
    have hlength : (checks ++ [now + 3000]).length ≤ 65 := by
      rw [List.length_append]
      exact Nat.add_le_add_right h.short 1
    rw [heq]
    split
    · refine ⟨hspaced.tail, fun check hcheck => hbound check (List.mem_of_mem_tail hcheck), ?_⟩
      rw [List.length_tail]
      omega
    · rename_i hsmall
      exact ⟨hspaced, hbound, not_lt.mp hsmall⟩
  · rw [heq, if_neg (not_lt.mpr h.short)]
    exact h

/-- The new check, or the one it is merged into. -/
theorem Orderly.scheduled_new (h : Orderly now checks) :
    ∃ check ∈ Behaviors.scheduled now checks, now + 2950 ≤ check ∧ check ≤ now + 3000 := by
  rcases pushed_cases now checks with ⟨-, heq⟩ | ⟨⟨last, hlast, hclose⟩, heq⟩
  · refine ⟨now + 3000, ?_, by omega, Int.le_refl _⟩
    rw [heq]
    split
    · rename_i hlong
      cases checks with
      | nil => simp at hlong
      | cons check checks => simp
    · simp
  · rw [heq, if_neg (not_lt.mpr h.short)]
    have hmem := List.mem_of_getLast? hlast
    exact ⟨last, hmem, hclose, h.bound last hmem⟩

/-- A check that is dropped is overdue, and so is the next one. -/
theorem Orderly.scheduled_old (h : Orderly now checks) {check : ℤ} (hcheck : check ∈ checks) :
    check ∈ Behaviors.scheduled now checks ∨
      ∃ next ∈ Behaviors.scheduled now checks, check ≤ next ∧ next ≤ now := by
  rcases pushed_cases now checks with ⟨hlast, heq⟩ | ⟨-, heq⟩
  · rw [heq]
    split
    · rename_i hlong
      have hspaced := h.push hlast
      cases checks with
      | nil => cases hcheck
      | cons first checks =>
          rcases List.mem_cons.mp hcheck with rfl | hcheck
          · cases checks with
            | nil => simp at hlong
            | cons next checks =>
                right
                refine ⟨next, by simp, ?_, ?_⟩
                · have hnext : check + 50 ≤ next :=
                    List.rel_of_pairwise_cons h.spaced List.mem_cons_self
                  omega
                · have hspan : next + 50 * (checks ++ [now + 3000]).length ≤ now + 3000 :=
                    Spaced.span (List.pairwise_cons.mp hspaced).2 (by simp)
                  simp only [List.length_append, List.length_cons, List.length_nil] at hlong hspan
                  push_cast at hspan
                  omega
          · left
            simp [hcheck]
    · exact .inl (List.mem_append_left _ hcheck)
  · left
    rw [heq, if_neg (not_lt.mpr h.short)]
    exact hcheck

/-! ### The timer -/

/-- What concerns the sneak key. -/
inductive SneakNote
  | teleported (time : ℤ)
  /-- A tick of the time `tick` comes to the sneak step at `time`, and calls or not. -/
  | reached (tick time : ℤ) (called : Bool)
  /-- The call of a tick has failed. -/
  | failed (tick : ℤ)
  deriving DecidableEq, Repr

structure SneakTimer where
  checks : List ℤ
  next : ℤ
  now : ℤ
  /-- The tick that is on its way to the sneak step. -/
  tick : Option ℤ
  /-- The tick whose call waits for the game. -/
  calling : Option ℤ
  log : List SneakNote

namespace SneakTimer

/-- The sneak step of a tick. -/
def reach (t : SneakTimer) (tick : ℤ) : SneakTimer :=
  let checks := t.checks.dropWhile (· ≤ tick)
  let next := if checks.length < t.checks.length then 0 else t.next
  { t with
    checks := checks
    next := next
    tick := none
    calling := if next ≤ tick then some tick else none
    log := t.log ++ [.reached tick t.now (next ≤ tick)] }

inductive Step : SneakTimer → SneakTimer → Prop
  | wait {t now} (h : t.now ≤ now) : Step t { t with now := now }
  | check {t} : Step t { t with next := 0 }
  /-- While a tick is on its way, a teleport also asks for a call at once. -/
  | teleport {t next} (h : next = 0 ∨ next = t.next ∧ t.tick = none) :
      Step t { t with
        checks := scheduled t.now t.checks
        next := next
        log := t.log ++ [.teleported t.now] }
  | start {t} (h : t.calling = none) : Step t { t with tick := some t.now }
  | leave {t} : Step t { t with tick := none }
  | reach {t tick} (h : t.tick = some tick) : Step t (t.reach tick)
  | accepted {t tick} (h : t.calling = some tick) :
      Step t { t with next := tick + 30 * 60_000, calling := none }
  | failed {t tick} (h : t.calling = some tick) :
      Step t { t with next := tick + 1000, calling := none, log := t.log ++ [.failed tick] }

/-- A call by a tick that began at `earliest` or later. -/
def Calls (earliest : ℤ) (note : SneakNote) : Prop :=
  ∃ tick time, note = .reached tick time true ∧ earliest ≤ tick ∧ tick ≤ time

/-- A check covers a teleport: every tick that began three seconds later will call. -/
def Covers (t : SneakTimer) (time : ℤ) : Prop :=
  ∃ check ∈ t.checks, time + 2950 ≤ check ∧ (check ≤ time + 3000 ∨
    check ≤ t.now ∧ ∀ tick, t.tick = some tick → check ≤ tick ∨ t.next ≤ 0)

/-- Every tick that began a second after the tick whose call has failed will call. -/
structure Retries (t : SneakTimer) (failed : ℤ) : Prop where
  next : t.next ≤ failed + 1000
  since : 0 ≤ failed ∧ failed ≤ t.now
  tick : ∀ tick, t.tick = some tick → failed ≤ tick
  calling : t.calling = none

/-- Behind every note in `sets`, the first tick of the time `latest` or later that comes to the
sneak step finds it answered, or answers it. -/
def Answered (sets answers : SneakNote → Prop) (latest : ℤ) (log : List SneakNote) : Prop :=
  ∀ before note middle tick time called after,
    log = before ++ note :: (middle ++ .reached tick time called :: after) → sets note →
    latest ≤ tick → ∃ answer ∈ middle ++ [.reached tick time called], answers answer

theorem Answered.append {sets answers : SneakNote → Prop} {latest : ℤ} {log : List SneakNote}
    (h : Answered sets answers latest log) {note : SneakNote}
    (hnote : ∀ tick time called, note = .reached tick time called → latest ≤ tick →
      Since sets answers log → answers note) :
    Answered sets answers latest (log ++ [note]) := by
  intro before first middle tick time called after heq hsets hlatest
  have hsplit : log ++ [note] = (before ++ first :: middle) ++ .reached tick time called :: after := by
    simpa using heq
  rcases append_singleton_eq hsplit with ⟨rfl, rfl, -⟩ | ⟨init, rfl, -⟩
  · by_cases hsince : Since sets answers (before ++ first :: middle)
    · exact ⟨_, by simp, hnote tick time called rfl hlatest hsince⟩
    · by_contra hnone
      refine hsince ⟨before, first, middle, rfl, hsets, fun answer hanswer hcalls => hnone ?_⟩
      exact ⟨answer, List.mem_append_left _ hanswer, hcalls⟩
  · exact h before first middle tick time called init (by simp) hsets hlatest

structure Kept (t : SneakTimer) : Prop where
  now : 0 ≤ t.now
  orderly : Orderly t.now t.checks
  tick : ∀ tick, t.tick = some tick → 0 ≤ tick ∧ tick ≤ t.now
  calling : ∀ tick, t.calling = some tick → (0 ≤ tick ∧ tick ≤ t.now) ∧ t.tick = none
  covers : ∀ time, Since (· = .teleported time) (Calls (time + 2950)) t.log → t.Covers time
  retries : ∀ failed, Since (· = .failed failed) (Calls failed) t.log → t.Retries failed
  answered : ∀ time,
    Answered (· = .teleported time) (Calls (time + 2950)) (time + 3000) t.log
  repeated : ∀ failed, Answered (· = .failed failed) (Calls failed) (failed + 1000) t.log

/-- A note that no tick has come to the sneak step answers nothing. -/
theorem Answered.pass {sets answers : SneakNote → Prop} {latest : ℤ} {log : List SneakNote}
    (h : Answered sets answers latest log) {note : SneakNote}
    (hnote : ∀ tick time called, note ≠ .reached tick time called) :
    Answered sets answers latest (log ++ [note]) :=
  h.append fun tick time called heq => absurd heq (hnote tick time called)

theorem Covers.congr {t u : SneakTimer} {time : ℤ} (h : t.Covers time) (hchecks : u.checks = t.checks)
    (hnow : t.now ≤ u.now) (htick : ∀ tick, u.tick = some tick → t.tick = some tick ∧
      (t.next ≤ 0 → u.next ≤ 0) ∨ t.now ≤ tick) : u.Covers time := by
  obtain ⟨check, hcheck, hearly, hdue⟩ := h
  refine ⟨check, hchecks ▸ hcheck, hearly, hdue.imp_right fun ⟨hpast, hany⟩ => ?_⟩
  refine ⟨hpast.trans hnow, fun tick hsome => ?_⟩
  rcases htick tick hsome with ⟨hsame, hnext⟩ | hlate
  · exact (hany tick hsame).imp_right hnext
  · exact .inl (hpast.trans hlate)

/-- The teleports before the last one stay covered. -/
theorem Covers.teleport {t : SneakTimer} {time next : ℤ} {log : List SneakNote} (h : t.Covers time)
    (horderly : Orderly t.now t.checks) (hnext : next = 0 ∨ next = t.next ∧ t.tick = none) :
    Covers { t with checks := scheduled t.now t.checks, next := next, log := log } time := by
  have hzero : ∀ tick, t.tick = some tick → next ≤ 0 := by
    intro tick htick
    rcases hnext with rfl | ⟨-, hnone⟩
    · exact Int.le_refl 0
    · rw [hnone] at htick
      cases htick
  obtain ⟨check, hcheck, hearly, hdue⟩ := h
  rcases horderly.scheduled_old hcheck with hmem | ⟨later, hmem, hlater, hpast⟩
  · exact ⟨check, hmem, hearly, hdue.imp_right fun hpast =>
      ⟨hpast.1, fun tick htick => .inr (hzero tick htick)⟩⟩
  · exact ⟨later, hmem, hearly.trans hlater, .inr ⟨hpast, fun tick htick => .inr (hzero tick htick)⟩⟩

/-- A check that is due makes the tick call. -/
theorem reach_calls {t : SneakTimer} (horderly : Orderly t.now t.checks) {tick check : ℤ}
    (hcheck : check ∈ t.checks) (hdue : check ≤ tick) :
    (t.checks.dropWhile (· ≤ tick)).length < t.checks.length := by
  cases hchecks : t.checks with
  | nil => simp [hchecks] at hcheck
  | cons first checks =>
      have hfirst : first ≤ tick := by
        rw [hchecks] at hcheck
        rcases List.mem_cons.mp hcheck with rfl | hmem
        · exact hdue
        · have hspaced := horderly.spaced
          rw [hchecks] at hspaced
          have := List.rel_of_pairwise_cons hspaced hmem
          omega
      rw [List.dropWhile_cons_of_pos (by simpa using hfirst), List.length_cons]
      exact Nat.lt_succ_of_le (List.length_dropWhile_le _ _)

theorem mem_rest {tick check : ℤ} {checks : List ℤ} (hcheck : check ∈ checks) (hlate : tick < check) :
    check ∈ checks.dropWhile (· ≤ tick) := by
  rw [← List.takeWhile_append_dropWhile (p := (· ≤ tick)) (l := checks)] at hcheck
  rcases List.mem_append.mp hcheck with hmem | hmem
  · have := List.mem_takeWhile_imp hmem
    simp at this
    omega
  · exact hmem

/-- What a tick finds in the sneak step. -/
structure Reaches (t : SneakTimer) (tick : ℤ) : Prop where
  /-- It calls where a check is due, or a call is. -/
  calls : ∀ check ∈ t.checks, check ≤ tick → (t.reach tick).next ≤ tick
  due : t.next ≤ tick → (t.reach tick).next ≤ tick
  /-- Without a call nothing but the tick is gone. -/
  quiet : tick < (t.reach tick).next → (t.reach tick).next = t.next ∧ (t.reach tick).calling = none

theorem reaches {t : SneakTimer} (horderly : Orderly t.now t.checks) {tick : ℤ} (htick : 0 ≤ tick) :
    t.Reaches tick := by
  constructor
  · intro check hcheck hdue
    have hshort := reach_calls horderly hcheck hdue
    simpa only [reach, if_pos hshort] using htick
  · intro hdue
    simp only [reach]
    split
    · exact htick
    · exact hdue
  · intro hlate
    simp only [reach] at hlate ⊢
    split at hlate
    · exact absurd hlate (not_lt.mpr htick)
    · rename_i hsame
      rw [if_neg hsame, if_neg (not_le.mpr hlate)]
      exact ⟨rfl, rfl⟩

namespace Kept

variable {t : SneakTimer}

theorem wait (h : t.Kept) {now : ℤ} (hnow : t.now ≤ now) : Kept { t with now := now } where
  now := h.now.trans hnow
  orderly := h.orderly.later hnow
  tick tick htick := (h.tick tick htick).imp_right fun hle => hle.trans hnow
  calling tick hcalling := (h.calling tick hcalling).imp_left fun hsince => hsince.imp_right fun hle =>
    hle.trans hnow
  covers time hsince := (h.covers time hsince).congr rfl hnow fun _ htick => .inl ⟨htick, id⟩
  retries failed hsince :=
    have hretries := h.retries failed hsince
    { hretries with since := hretries.since.imp_right fun hle => hle.trans hnow }
  answered := h.answered
  repeated := h.repeated

theorem check (h : t.Kept) : Kept { t with next := 0 } where
  now := h.now
  orderly := h.orderly
  tick := h.tick
  calling := h.calling
  covers time hsince := (h.covers time hsince).congr rfl (Int.le_refl _) fun _ htick =>
    .inl ⟨htick, fun _ => Int.le_refl 0⟩
  retries failed hsince :=
    have hretries := h.retries failed hsince
    { hretries with next := by have := hretries.since.1; change (0 : ℤ) ≤ failed + 1000; omega }
  answered := h.answered
  repeated := h.repeated

theorem start (h : t.Kept) (hnone : t.calling = none) : Kept { t with tick := some t.now } where
  now := h.now
  orderly := h.orderly
  tick tick htick := by
    obtain rfl := Option.some.inj htick
    exact ⟨h.now, Int.le_refl _⟩
  calling tick hcalling := by
    rw [hnone] at hcalling
    cases hcalling
  covers time hsince := (h.covers time hsince).congr rfl (Int.le_refl _) fun tick htick =>
    .inr (Option.some.inj htick).le
  retries failed hsince :=
    have hretries := h.retries failed hsince
    { hretries with tick := fun tick htick => Option.some.inj htick ▸ hretries.since.2 }
  answered := h.answered
  repeated := h.repeated

theorem leave (h : t.Kept) : Kept { t with tick := none } where
  now := h.now
  orderly := h.orderly
  tick := nofun
  calling tick hcalling := (h.calling tick hcalling).imp_right fun _ => rfl
  covers time hsince := (h.covers time hsince).congr rfl (Int.le_refl _) nofun
  retries failed hsince := { h.retries failed hsince with tick := nofun }
  answered := h.answered
  repeated := h.repeated

theorem teleport (h : t.Kept) {next : ℤ} (hnext : next = 0 ∨ next = t.next ∧ t.tick = none) :
    Kept { t with
      checks := scheduled t.now t.checks
      next := next
      log := t.log ++ [.teleported t.now] } where
  now := h.now
  orderly := h.orderly.scheduled
  tick := h.tick
  calling := h.calling
  covers time hsince := by
    rcases since_append_singleton.mp hsince with htime | ⟨hsince, -⟩
    · obtain rfl : t.now = time := by simpa using htime
      obtain ⟨check, hcheck, hearly, hlate⟩ := h.orderly.scheduled_new
      exact ⟨check, hcheck, hearly, .inl hlate⟩
    · exact (h.covers time hsince).teleport h.orderly hnext
  retries failed hsince := by
    rcases since_append_singleton.mp hsince with hfailed | ⟨hsince, -⟩
    · cases hfailed
    · have hretries := h.retries failed hsince
      refine ⟨?_, hretries.since, hretries.tick, hretries.calling⟩
      rcases hnext with rfl | ⟨rfl, -⟩
      · have := hretries.since.1
        change (0 : ℤ) ≤ failed + 1000
        omega
      · exact hretries.next
  answered time := (h.answered time).pass nofun
  repeated failed := (h.repeated failed).pass nofun

theorem accepted (h : t.Kept) {tick : ℤ} (hcalling : t.calling = some tick) :
    Kept { t with next := tick + 30 * 60_000, calling := none } where
  now := h.now
  orderly := h.orderly
  tick := h.tick
  calling := nofun
  covers time hsince := (h.covers time hsince).congr rfl (Int.le_refl _) fun tick htick => by
    have hnone := (h.calling _ hcalling).2
    rw [hnone] at htick
    cases htick
  retries failed hsince := by
    have hnone := (h.retries failed hsince).calling
    rw [hcalling] at hnone
    cases hnone
  answered := h.answered
  repeated := h.repeated

theorem failed (h : t.Kept) {tick : ℤ} (hcalling : t.calling = some tick) :
    Kept { t with next := tick + 1000, calling := none, log := t.log ++ [.failed tick] } where
  now := h.now
  orderly := h.orderly
  tick := h.tick
  calling := nofun
  covers time hsince := by
    rcases since_append_singleton.mp hsince with htime | ⟨hsince, -⟩
    · cases htime
    · refine (h.covers time hsince).congr rfl (Int.le_refl _) fun tick htick => ?_
      have hnone := (h.calling _ hcalling).2
      rw [hnone] at htick
      cases htick
  retries failed hsince := by
    rcases since_append_singleton.mp hsince with hfailed | ⟨hsince, -⟩
    · obtain rfl : tick = failed := by simpa using hfailed
      obtain ⟨hpast, hnone⟩ := h.calling _ hcalling
      refine ⟨Int.le_refl _, hpast, fun later hlater => ?_, rfl⟩
      rw [hnone] at hlater
      cases hlater
    · have hnone := (h.retries failed hsince).calling
      rw [hcalling] at hnone
      cases hnone
  answered time := (h.answered time).pass nofun
  repeated failed := (h.repeated failed).pass nofun

theorem reach (h : t.Kept) {tick : ℤ} (htick : t.tick = some tick) : Kept (t.reach tick) := by
  obtain ⟨hzero, hpast⟩ := h.tick tick htick
  have hreaches := reaches h.orderly hzero
  have hcalls : ∀ earliest, earliest ≤ tick → (t.reach tick).next ≤ tick →
      Calls earliest (.reached tick t.now ((t.reach tick).next ≤ tick)) :=
    fun earliest hearliest hcalled => ⟨tick, t.now, by rw [decide_eq_true hcalled], hearliest, hpast⟩
  constructor
  · exact h.now
  · exact h.orderly.tail (List.dropWhile_sublist _)
  · exact nofun
  · intro later hcalling
    refine ⟨?_, rfl⟩
    by_cases hcalled : (t.reach tick).next ≤ tick
    · have hsome : (t.reach tick).calling = some tick := if_pos hcalled
      rw [hsome] at hcalling
      obtain rfl := Option.some.inj hcalling
      exact ⟨hzero, hpast⟩
    · rw [(hreaches.quiet (not_le.mp hcalled)).2] at hcalling
      cases hcalling
  · intro time hsince
    rcases since_append_singleton.mp hsince with htime | ⟨hsince, hnone⟩
    · cases htime
    · obtain ⟨check, hcheck, hearly, hdue⟩ := h.covers time hsince
      have hlate : tick < check := by
        by_contra hdue
        have hcalled := hreaches.calls check hcheck (not_lt.mp hdue)
        exact hnone (hcalls _ (hearly.trans (not_lt.mp hdue)) hcalled)
      exact ⟨check, mem_rest hcheck hlate, hearly, hdue.imp_right fun hpast => ⟨hpast.1, nofun⟩⟩
  · intro failed hsince
    rcases since_append_singleton.mp hsince with hfailed | ⟨hsince, hnone⟩
    · cases hfailed
    · have hretries := h.retries failed hsince
      have hlate : tick < (t.reach tick).next := by
        by_contra hcalled
        exact hnone (hcalls _ (hretries.tick tick htick) (not_lt.mp hcalled))
      obtain ⟨hnext, hcalling⟩ := hreaches.quiet hlate
      exact ⟨hnext ▸ hretries.next, hretries.since, nofun, hcalling⟩
  · intro time
    refine (h.answered time).append fun tick' time' called heq hlatest hsince => ?_
    obtain ⟨rfl, -, -⟩ := SneakNote.reached.inj heq
    obtain ⟨check, hcheck, hearly, hdue⟩ := h.covers time hsince
    refine hcalls _ (by omega) ?_
    rcases hdue with hlate | ⟨-, hany⟩
    · exact hreaches.calls check hcheck (hlate.trans hlatest)
    · rcases hany tick htick with hlate | hnext
      · exact hreaches.calls check hcheck hlate
      · exact hreaches.due (hnext.trans hzero)
  · intro failed
    refine (h.repeated failed).append fun tick' time' called heq hlatest hsince => ?_
    obtain ⟨rfl, -, -⟩ := SneakNote.reached.inj heq
    have hretries := h.retries failed hsince
    exact hcalls _ (hretries.tick tick htick) (hreaches.due (hretries.next.trans hlatest))

/-- What a step keeps. -/
theorem step (h : t.Kept) {u : SneakTimer} (hstep : Step t u) : u.Kept := by
  cases hstep with
  | wait hnow => exact h.wait hnow
  | check => exact h.check
  | teleport hnext => exact h.teleport hnext
  | start hnone => exact h.start hnone
  | leave => exact h.leave
  | reach htick => exact h.reach htick
  | accepted hcalling => exact h.accepted hcalling
  | failed hcalling => exact h.failed hcalling

/-- What a run keeps. -/
theorem steps (h : t.Kept) {u : SneakTimer} (hsteps : Relation.ReflTransGen Step t u) : u.Kept := by
  induction hsteps with
  | refl => exact h
  | tail _ hstep ih => exact ih.step hstep

end Kept

end SneakTimer

end AfkClient.Behaviors
