import AfkClient.Model.DisconnectCleanup
import Mathlib.Data.List.Perm.Basic

/-! When a connection is released: never twice, never too early, and, as long as the client does not
stop last, never not at all. -/

namespace AfkClient.DisconnectCleanup

namespace Cleanup

/-- The connection is released at most once, only when the three conditions hold, and it is released
once they hold and no listener has anything left to do. -/
structure Sound (s : Cleanup) : Prop where
  once : s.releases.length ≤ 1
  onTime : ∀ r ∈ s.releases, r.ready
  notMissed : s.tasks = [] → s.Ready → s.releases ≠ [] ∧ s.connected = false

/-- The first shutdown has failed. -/
def failed (s : Cleanup) : Bool := s.shutdown.any s.isCompletedExceptionally

end Cleanup

/-- The check has found the client stopped. -/
def Task.passed : Task → Bool
  | .releaseFailedShutdown (.isOpen ..) | .releaseFailedShutdown .compareAndSet
  | .releaseFailedShutdown .release => true
  | _ => false

/-- No channel is tracked while a check goes from the client to the release, and the client does not
stop as the last of the three, when no listener is left to look at it. -/
def Cleanup.Timely (s : Cleanup) : Input → Prop
  | .track _ => s.releases = [] → ∀ t ∈ s.tasks, t.passed = false
  | .stop => s.running → s.failed → (∀ c ∈ s.tracked, c ∈ s.closed) → s.tasks ≠ []
  | _ => True

instance (s : Cleanup) (i : Input) : Decidable (s.Timely i) :=
  match i with
  | .track _ => inferInstanceAs (Decidable (_ → ∀ t ∈ s.tasks, _))
  | .stop => inferInstanceAs (Decidable (_ → _ → (∀ c ∈ s.tracked, _) → _))
  | .disconnect _ | .close _ | .complete .. | .remove | .run .. => inferInstanceAs (Decidable True)

/-! ### Tasks -/

/-- What a thread has found so far. -/
def Task.Holds (s : Cleanup) : Task → Prop
  | .addListener channel => channel ∈ s.tracked
  | .whenComplete future => s.shutdown = some future
  | .releaseFailedShutdown .shutdown => True
  | .releaseFailedShutdown (.isCompletedExceptionally future) => s.shutdown = some future
  | .releaseFailedShutdown .isRunning => s.failed
  | .releaseFailedShutdown (.isOpen next known) => s.failed ∧ s.running = false ∧
      (s.releases = [] → known = s.tracked.length ∧ ∀ c ∈ s.tracked.take next, c ∈ s.closed)
  | .releaseFailedShutdown .compareAndSet | .releaseFailedShutdown .release =>
      s.releases = [] → s.Ready

/-- What a thread has found stays so: futures do not change, channels are not opened again, and the
client is not started again. -/
structure Later (s t : Cleanup) : Prop where
  failed : s.failed → t.failed
  shutdown : ∀ future, s.shutdown = some future → t.shutdown = some future
  running : s.running = false → t.running = false
  closed : ∀ c ∈ s.closed, c ∈ t.closed
  tracked : t.tracked = s.tracked
  releases : t.releases = [] → s.releases = []

theorem Later.ready {s t : Cleanup} (h : Later s t) (hs : s.Ready) : t.Ready :=
  ⟨h.failed hs.1, h.running hs.2.1, fun c hc => h.closed c (hs.2.2 c (h.tracked ▸ hc))⟩

theorem Task.Holds.later {s t : Cleanup} (h : Later s t) {task : Task} (ht : task.Holds s) :
    task.Holds t := by
  cases task with
  | addListener channel =>
      simp only [Task.Holds, h.tracked]
      exact ht
  | whenComplete future => exact h.shutdown future ht
  | releaseFailedShutdown check =>
      cases check with
      | shutdown => trivial
      | isCompletedExceptionally future => exact h.shutdown future ht
      | isRunning => exact h.failed ht
      | isOpen next known =>
          refine ⟨h.failed ht.1, h.running ht.2.1, fun hnone => ?_⟩
          obtain ⟨hknown, hclosed⟩ := ht.2.2 (h.releases hnone)
          rw [h.tracked]
          exact ⟨hknown, fun c hc => h.closed c (hclosed c hc)⟩
      | compareAndSet | release => exact fun hnone => h.ready (ht (h.releases hnone))

/-- The invariant of all runs whose steps meet the condition. -/
structure Inv (s : Cleanup) : Prop where
  count : s.tasks.count (.releaseFailedShutdown .release) + s.releases.length = s.released.toNat
  channels : s.releases = [] → s.channels = s.tracked
  observed : ∀ f, s.shutdown = some f → f ∈ s.callbacks ∨ .whenComplete f ∈ s.tasks
  listened : ∀ c ∈ s.tracked, c ∈ s.listeners ∨ .addListener c ∈ s.tasks
  holds : ∀ t ∈ s.tasks, t.Holds s
  onTime : ∀ r ∈ s.releases, r.ready
  connected : s.releases ≠ [] → s.connected = false
  awaited : s.released = false → s.Ready → s.tasks ≠ []

theorem inv_init : Inv {} := by
  constructor <;> simp [Cleanup.Ready]

theorem Inv.sound {s : Cleanup} (h : Inv s) : s.Sound := by
  have hcount := h.count
  refine ⟨?_, h.onTime, ?_⟩
  · have hle := s.released.toNat_le
    omega
  · intro htasks hready
    have hnonempty : s.releases ≠ [] := by
      intro hnone
      rw [htasks, hnone] at hcount
      cases hreleased : s.released with
      | false => exact h.awaited hreleased hready htasks
      | true => simp [hreleased] at hcount
    exact ⟨hnonempty, h.connected hnonempty⟩

section Advance

variable {s : Cleanup} (h : Inv s) (sees : Bool)
include h

theorem Inv.releases_of_released (hreleased : s.released = false) : s.releases = [] := by
  have hcount := h.count
  rw [hreleased] at hcount
  rw [Bool.toNat_false] at hcount
  exact List.length_eq_zero_iff.mp (by omega)

omit h in
theorem later_advance (t : Task) : Later s (s.advance sees t).1 := by
  cases t with
  | addListener | whenComplete => exact ⟨id, fun _ => id, id, fun _ => id, rfl, id⟩
  | releaseFailedShutdown check =>
      cases check with
      | release => exact ⟨id, fun _ => id, id, fun _ =>
          id, rfl, by simp [Cleanup.advance, Cleanup.release]⟩
      | _ => exact ⟨id, fun _ => id, id, fun _ => id, rfl, id⟩

/-- The rest of a task goes on from what the task has found. -/
theorem Inv.rest {t : Task} (ht : t.Holds s) :
    ∀ r ∈ (s.advance sees t).2, r.Holds (s.advance sees t).1 := by
  intro r hr
  cases t with
  | addListener channel =>
      simp only [Cleanup.advance] at hr
      split at hr
      · cases hr
      · obtain rfl := Option.some.inj hr
        trivial
  | whenComplete future =>
      simp only [Cleanup.advance] at hr
      split at hr
      · obtain rfl := Option.some.inj hr
        trivial
      · cases hr
  | releaseFailedShutdown check =>
      cases check with
      | shutdown =>
          obtain ⟨future, hfuture, rfl⟩ := Option.map_eq_some_iff.mp hr
          exact hfuture
      | isCompletedExceptionally future =>
          simp only [Cleanup.advance] at hr
          split at hr
          · next hfailed =>
              obtain rfl := Option.some.inj hr
              have hshutdown : s.shutdown = some future := ht
              simp only [Task.Holds, Cleanup.advance, Cleanup.failed, hshutdown, Option.any_some]
              exact hfailed
          · cases hr
      | isRunning =>
          simp only [Cleanup.advance] at hr
          split at hr
          · cases hr
          · next hstopped =>
              obtain rfl := Option.some.inj hr
              refine ⟨ht, Bool.eq_false_iff.mpr hstopped, fun hnone => ⟨?_, by simp⟩⟩
              exact congrArg List.length (h.channels hnone)
      | isOpen next known =>
          obtain ⟨hfailed, hstopped, hseen⟩ := ht
          have hend (hall : s.releases = [] → s.tracked.length ≤ next) :
              Task.Holds s (.releaseFailedShutdown .compareAndSet) := by
            refine fun hnone => ⟨hfailed, hstopped, fun c hc => ?_⟩
            apply (hseen hnone).2
            rwa [List.take_of_length_le (hall hnone)]
          simp only [Cleanup.advance] at hr
          split at hr
          · next hlast =>
              obtain rfl := Option.some.inj hr
              refine hend fun hnone => ?_
              rw [← h.channels hnone]
              exact List.getElem?_eq_none_iff.mp hlast
          · next channel hnext =>
              split at hr
              · next hunseen =>
                  obtain rfl := Option.some.inj hr
                  refine hend fun hnone => ?_
                  rw [← (hseen hnone).1]
                  simp only [Bool.and_eq_true, decide_eq_true_eq] at hunseen
                  exact hunseen.1
              · split at hr
                · cases hr
                · next hclosed =>
                    obtain rfl := Option.some.inj hr
                    refine ⟨hfailed, hstopped, fun hnone => ⟨(hseen hnone).1, ?_⟩⟩
                    intro c hc
                    simp only [Cleanup.advance, List.take_add_one, List.mem_append] at hc
                    rcases hc with hc | hc
                    · exact (hseen hnone).2 c hc
                    · rw [← h.channels hnone, hnext] at hc
                      obtain rfl : c = channel := by simpa using hc
                      have hmem : c ∈ s.closed := by simpa [Cleanup.isOpen] using hclosed
                      exact hmem
      | compareAndSet =>
          simp only [Cleanup.advance] at hr
          split at hr
          · cases hr
          · obtain rfl := Option.some.inj hr
            exact ht
      | release => cases hr

/-- Where the three conditions hold, no task ends without the release. -/
theorem Inv.goes_on {t : Task} (hmem : t ∈ s.tasks) (hready : s.Ready)
    (hreleased : (s.advance sees t).1.released = false) : (s.advance sees t).2 ≠ none := by
  have ht := h.holds t hmem
  have hfailed {future : ℕ} (hfuture : s.shutdown = some future) :
      s.isCompletedExceptionally future := by
    have hany := hready.1
    rwa [hfuture, Option.any_some] at hany
  cases t with
  | addListener channel =>
      have hclosed : channel ∈ s.closed := hready.2.2 channel ht
      simp [Cleanup.advance, Cleanup.isOpen, hclosed]
  | whenComplete future =>
      have hdone := hfailed ht
      have hsome : s.isDone future := by
        simp only [Cleanup.isCompletedExceptionally] at hdone
        simp only [Cleanup.isDone]
        cases hlookup : s.completed.lookup future with
        | none => simp [hlookup] at hdone
        | some exceptionally => rfl
      simp [Cleanup.advance, hsome]
  | releaseFailedShutdown check =>
      cases check with
      | shutdown =>
          obtain ⟨future, hfuture⟩ := Option.isSome_iff_exists.mp (Option.isSome_of_any hready.1)
          simp [Cleanup.advance, hfuture]
      | isCompletedExceptionally future => simp [Cleanup.advance, hfailed ht]
      | isRunning => simp [Cleanup.advance, hready.2.1]
      | isOpen next known =>
          simp only [Cleanup.advance]
          split
          · simp
          · next channel hnext =>
              split
              · simp
              · have hmem : channel ∈ s.tracked := by
                  rw [← h.channels (h.releases_of_released hreleased)]
                  exact List.mem_of_getElem? hnext
                have hclosed : channel ∈ s.closed := hready.2.2 channel hmem
                simp [Cleanup.isOpen, hclosed]
      | compareAndSet => cases hreleased
      | release =>
          have hcount := h.count
          have hpos := List.count_pos_iff.mpr hmem
          have hnot : s.released = false := hreleased
          rw [hnot] at hcount
          rw [Bool.toNat_false] at hcount
          omega

omit h in
/-- Only the release clears the channels, and it is counted. -/
theorem advance_channels {t : Task} (hnone : (s.advance sees t).1.releases = []) :
    (s.advance sees t).1.channels = s.channels := by
  cases t with
  | addListener | whenComplete => rfl
  | releaseFailedShutdown check =>
      cases check with
      | release => simp [Cleanup.advance, Cleanup.release] at hnone
      | _ => rfl

omit h in
theorem advance_callbacks {t : Task} {f : ℕ} (hf : f ∈ s.callbacks ∨ t = .whenComplete f) :
    f ∈ (s.advance sees t).1.callbacks := by
  cases t with
  | whenComplete future =>
      rcases hf with hf | hf
      · exact List.mem_cons_of_mem _ hf
      · cases hf
        exact List.mem_cons_self
  | addListener => exact hf.resolve_right nofun
  | releaseFailedShutdown check => cases check <;> exact hf.resolve_right nofun

omit h in
theorem advance_listeners {t : Task} {c : ℕ} (hc : c ∈ s.listeners ∨ t = .addListener c) :
    c ∈ (s.advance sees t).1.listeners := by
  cases t with
  | addListener channel =>
      rcases hc with hc | hc
      · exact List.mem_cons_of_mem _ hc
      · cases hc
        exact List.mem_cons_self
  | whenComplete => exact hc.resolve_right nofun
  | releaseFailedShutdown check => cases check <;> exact hc.resolve_right nofun

omit h in
theorem advance_shutdown (t : Task) : (s.advance sees t).1.shutdown = s.shutdown := by
  cases t with
  | addListener | whenComplete => rfl
  | releaseFailedShutdown check => cases check <;> rfl

omit h in
/-- A release that is reached is one that `compareAndSet` has let through. -/
theorem advance_count (t : Task) :
    (s.advance sees t).2.toList.count (.releaseFailedShutdown .release) +
        (s.advance sees t).1.releases.length + s.released.toNat =
      [t].count (.releaseFailedShutdown .release) + s.releases.length +
        (s.advance sees t).1.released.toNat := by
  cases t with
  | addListener channel =>
      simp only [Cleanup.advance]
      split <;> simp [Task.check]
  | whenComplete future =>
      simp only [Cleanup.advance]
      split <;> simp [Task.check]
  | releaseFailedShutdown check =>
      cases check with
      | shutdown => cases hshutdown : s.shutdown <;> simp [Cleanup.advance, hshutdown]
      | isCompletedExceptionally future =>
          simp only [Cleanup.advance]
          split <;> simp
      | isRunning =>
          simp only [Cleanup.advance]
          split <;> simp
      | isOpen next known =>
          simp only [Cleanup.advance]
          split
          · simp
          · split
            · simp
            · split <;> simp
      | compareAndSet => cases hreleased :
          s.released <;> simp [Cleanup.advance, hreleased, Nat.add_comm]
      | release => simp [Cleanup.advance, Cleanup.release, Nat.add_comm]

theorem Inv.onTime_advance {t : Task} (hmem : t ∈ s.tasks) :
    ∀ r ∈ (s.advance sees t).1.releases, r.ready := by
  cases t with
  | addListener | whenComplete => exact h.onTime
  | releaseFailedShutdown check =>
      cases check with
      | release =>
          intro r hr
          rcases List.mem_append.mp hr with hr | hr
          · exact h.onTime r hr
          · obtain rfl := List.mem_singleton.mp hr
            have hcount := h.count
            have hpos := List.count_pos_iff.mpr hmem
            have hnone : s.releases = [] := by
              have hle := s.released.toNat_le
              exact List.length_eq_zero_iff.mp (by omega)
            exact decide_eq_true (h.holds _ hmem hnone)
      | _ => exact h.onTime

omit h in
theorem ready_of_advance {t : Task} (hready : (s.advance sees t).1.Ready) : s.Ready := by
  cases t with
  | addListener | whenComplete => exact hready
  | releaseFailedShutdown check => cases check <;> exact hready

omit h in
theorem advance_connected {t : Task} (hgone : s.releases ≠ [] → s.connected = false) :
    (s.advance sees t).1.releases ≠ [] → (s.advance sees t).1.connected = false := by
  cases t with
  | addListener | whenComplete => exact hgone
  | releaseFailedShutdown check =>
      cases check with
      | release => exact fun _ => rfl
      | _ => exact hgone

end Advance

/-! ### Steps -/

section Step

variable {s : Cleanup} (h : Inv s)
include h

/-- A step of the environment adds checks, and touches nothing else of the tasks. -/
theorem Inv.grow {t : Cleanup} (new : List Task) (hlater : Later s t)
    (htasks : t.tasks = s.tasks ++ new) (hnew : ∀ task ∈ new, task.Holds t)
    (hcheck : Task.releaseFailedShutdown .release ∉ new)
    (hreleased : t.released = s.released) (hreleases : t.releases = s.releases)
    (hchannels : t.channels = s.channels) (hlisteners : t.listeners = s.listeners)
    (hconnected : s.connected = false → t.connected = false)
    (hobserved : ∀ f, t.shutdown = some f → f ∈ t.callbacks ∨ .whenComplete f ∈ t.tasks)
    (hawaited : t.released = false → t.Ready → t.tasks ≠ []) : Inv t where
  count := by
    rw [htasks, List.count_append, List.count_eq_zero.mpr hcheck, hreleased, hreleases]
    exact h.count
  channels := by
    rw [hreleases, hchannels, hlater.tracked]
    exact h.channels
  observed := hobserved
  listened := by
    rw [hlater.tracked, hlisteners, htasks]
    exact fun c hc => (h.listened c hc).imp_right fun hmem => List.mem_append_left _ hmem
  holds := by
    rw [htasks]
    intro task htask
    rcases List.mem_append.mp htask with htask | htask
    · exact (h.holds task htask).later hlater
    · exact hnew task htask
  onTime := by
    rw [hreleases]
    exact h.onTime
  connected hnonempty := hconnected (h.connected (hreleases ▸ hnonempty))
  awaited := hawaited

theorem Inv.track {channel : ℕ} (hi : s.Timely (.track channel)) :
    Inv (s.step (.track channel)) where
  count := by
    simp only [Cleanup.step, List.count_append]
    exact h.count
  channels hnone := congrArg (· ++ [channel]) (h.channels hnone)
  observed f hf := (h.observed f hf).imp_right fun hmem => List.mem_append_left _ hmem
  listened c hc := by
    rcases List.mem_append.mp hc with hc | hc
    · exact (h.listened c hc).imp_right fun hmem => List.mem_append_left _ hmem
    · obtain rfl := List.mem_singleton.mp hc
      exact .inr (List.mem_append_right _ (List.mem_singleton_self _))
  holds task htask := by
    rcases List.mem_append.mp htask with htask | htask
    · have hold := h.holds task htask
      have hpassed (hnone : s.releases = []) : task.passed = false := hi hnone task htask
      cases task with
      | addListener c => exact List.mem_append_left _ hold
      | whenComplete future => exact hold
      | releaseFailedShutdown check =>
          cases check with
          | isOpen next known => 
              exact ⟨hold.1, hold.2.1, fun hnone => absurd (hpassed hnone) (by simp [Task.passed])⟩
          | compareAndSet | release =>
              exact fun hnone => absurd (hpassed hnone) (by simp [Task.passed])
          | _ => exact hold
    · obtain rfl := List.mem_singleton.mp htask
      exact List.mem_append_right _ (List.mem_singleton_self _)
  onTime := h.onTime
  connected := h.connected
  awaited _ _ := by simp [Cleanup.step]

theorem Inv.disconnect (future : ℕ) : Inv (s.step (.disconnect future)) := by
  simp only [Cleanup.step]
  split
  · exact h
  · next hnone =>
      have hshutdown : s.shutdown = none := by simpa using hnone
      refine h.grow [.whenComplete future] ⟨?_, ?_, id, fun _ => id, rfl, id⟩ rfl ?_
        (by simp)
        rfl rfl rfl rfl id ?_ (by simp)
      · simp [Cleanup.failed, hshutdown]
      · simp [hshutdown]
      · simp [Task.Holds]
      · simp

theorem Inv.close (channel : ℕ) : Inv (s.step (.close channel)) := by
  simp only [Cleanup.step]
  split
  · exact h
  · next hopen =>
      refine h.grow (List.replicate (s.listeners.count channel) .check)
        ⟨id, fun _ => id, id, fun _ =>
          List.mem_cons_of_mem _, rfl, id⟩ rfl ?_ ?_ rfl rfl rfl rfl id ?_ ?_
      · intro task htask
        obtain ⟨-, rfl⟩ := List.mem_replicate.mp htask
        trivial
      · intro hmem
        cases (List.mem_replicate.mp hmem).2
      · exact fun f hf => (h.observed f hf).imp_right fun hmem => List.mem_append_left _ hmem
      · intro hreleased hready hempty
        obtain ⟨htasks, hnew⟩ := List.append_eq_nil_iff.mp hempty
        refine h.awaited hreleased ⟨hready.1, hready.2.1, fun c hc => ?_⟩ htasks
        rcases List.mem_cons.mp (hready.2.2 c hc) with rfl | hclosed
        · -- the channel is a tracked one, so its listener is triggered or is still to be added
          rcases h.listened c hc with hlistened | htask
          · have hpos := List.count_pos_iff.mpr hlistened
            rw [List.replicate_eq_nil_iff] at hnew
            omega
          · rw [htasks] at htask
            cases htask
        · exact hclosed

theorem Inv.complete (future : ℕ) (exceptionally : Bool) :
    Inv (s.step (.complete future exceptionally)) := by
  simp only [Cleanup.step]
  split
  · exact h
  · next hdone =>
      have hsame {f : ℕ} (hne : f ≠ future) (t : Cleanup)
          (ht : t.completed = (future, exceptionally) :: s.completed) :
          t.isCompletedExceptionally f = s.isCompletedExceptionally f := by
        simp only [Cleanup.isCompletedExceptionally, ht, List.lookup_cons, beq_false_of_ne hne]
      refine h.grow (List.replicate (s.callbacks.count future) .check)
        ⟨?_, fun _ => id, id, fun _ => id, rfl, id⟩ rfl ?_ ?_ rfl rfl rfl rfl id ?_ ?_
      · intro hfailed
        obtain ⟨f, hf⟩ := Option.isSome_iff_exists.mp (Option.isSome_of_any hfailed)
        simp only [Cleanup.failed, hf, Option.any_some] at hfailed ⊢
        -- a failed future is done, so it is not the one that completes now
        have hne : f ≠ future := by
          rintro rfl
          simp only [Cleanup.isDone, Bool.not_eq_true, Option.isSome_eq_false_iff,
            Option.isNone_iff_eq_none] at hdone
          simp [Cleanup.isCompletedExceptionally, hdone] at hfailed
        rwa [hsame hne _ rfl]
      · intro task htask
        obtain ⟨-, rfl⟩ := List.mem_replicate.mp htask
        trivial
      · intro hmem
        cases (List.mem_replicate.mp hmem).2
      · exact fun f hf => (h.observed f hf).imp_right fun hmem => List.mem_append_left _ hmem
      · intro hreleased hready hempty
        obtain ⟨htasks, hnew⟩ := List.append_eq_nil_iff.mp hempty
        obtain ⟨f, hf⟩ := Option.isSome_iff_exists.mp (Option.isSome_of_any hready.1)
        have hshutdown : s.shutdown = some f := hf
        by_cases hne : f = future
        · subst hne
          rcases h.observed f hshutdown with hcallback | htask
          · have hpos := List.count_pos_iff.mpr hcallback
            rw [List.replicate_eq_nil_iff] at hnew
            omega
          · rw [htasks] at htask
            cases htask
        · have hfailed := hready.1
          rw [hf, Option.any_some, hsame hne _ rfl] at hfailed
          refine h.awaited hreleased ⟨?_, hready.2⟩ htasks
          rwa [hshutdown, Option.any_some]

theorem Inv.stop (hi : s.Timely .stop) : Inv (s.step .stop) := by
  refine h.grow [] ⟨id, fun _ => id, fun _ => rfl, fun _ => id, rfl, id⟩
    (by simp [Cleanup.step])
    (by simp) (by simp) rfl rfl rfl rfl id h.observed ?_
  intro hreleased hready
  cases hrunning : s.running with
  | false => exact h.awaited hreleased ⟨hready.1, hrunning, hready.2.2⟩
  | true => exact hi hrunning hready.1 hready.2.2

theorem Inv.remove : Inv (s.step .remove) :=
  h.grow [] ⟨id, fun _ => id, id, fun _ => id, rfl, id⟩ (by simp [Cleanup.step])
    (by simp) (by simp) rfl rfl rfl rfl (fun _ => rfl) h.observed h.awaited

theorem Inv.run (task : ℕ) (sees : Bool) : Inv (s.step (.run task sees)) := by
  simp only [Cleanup.step]
  split
  · exact h
  · next t ht =>
      have hmem : t ∈ s.tasks := List.mem_of_getElem? ht
      have hlater := later_advance (s := s) sees t
      obtain ⟨hlt, heq⟩ := List.getElem?_eq_some_iff.mp ht
      have hperm : (t :: s.tasks.eraseIdx task).Perm s.tasks :=
        heq ▸ List.getElem_cons_eraseIdx_perm hlt
      have hother {t' : Task} (ht' : t' ∈ s.tasks) : t' = t ∨ t' ∈ s.tasks.eraseIdx task :=
        List.mem_cons.mp (hperm.mem_iff.mpr ht')
      constructor
      · have hcount := h.count
        rw [← hperm.count_eq, ← List.singleton_append, List.count_append] at hcount
        have hadvance := advance_count (s := s) sees t
        simp only [List.count_append]
        omega
      · intro hnone
        rw [advance_channels sees hnone, hlater.tracked]
        exact h.channels (hlater.releases hnone)
      · intro f hf
        rcases h.observed f (advance_shutdown (s := s) sees t ▸ hf) with hcallback | htask
        · exact .inl (advance_callbacks sees (.inl hcallback))
        · rcases hother htask with heq | hrest
          · exact .inl (advance_callbacks sees (.inr heq.symm))
          · exact .inr (List.mem_append_left _ hrest)
      · intro c hc
        rcases h.listened c (hlater.tracked ▸ hc) with hlistener | htask
        · exact .inl (advance_listeners sees (.inl hlistener))
        · rcases hother htask with heq | hrest
          · exact .inl (advance_listeners sees (.inr heq.symm))
          · exact .inr (List.mem_append_left _ hrest)
      · intro t' ht'
        rcases List.mem_append.mp ht' with ht' | ht'
        · exact (h.holds t' (List.mem_of_mem_eraseIdx ht')).later hlater
        · exact h.rest sees (h.holds t hmem) t' (Option.mem_toList.mp ht')
      · exact h.onTime_advance sees hmem
      · exact advance_connected sees h.connected
      · intro hreleased hready hempty
        have hrest := (List.append_eq_nil_iff.mp hempty).2
        apply h.goes_on sees hmem (ready_of_advance sees hready) hreleased
        exact Option.toList_eq_nil_iff.mp hrest

theorem Inv.step {i : Input} (hi : s.Timely i) : Inv (s.step i) := by
  cases i with
  | track channel => exact h.track hi
  | disconnect future => exact h.disconnect future
  | close channel => exact h.close channel
  | complete future exceptionally => exact h.complete future exceptionally
  | stop => exact h.stop hi
  | remove => exact h.remove
  | run task sees => exact h.run task sees

end Step

/-- A connection whose shutdown failed is released once and in time, over all orders in which no
channel is tracked during a check that has passed the client, and the client is not the last to
stop. -/
theorem failed_released (inputs : List Input) (h : Meets Cleanup.step Cleanup.Timely {} inputs) :
    Along Cleanup.step Cleanup.Sound {} inputs := by
  have hinv : Along Cleanup.step Inv {} inputs :=
    along_of_preserved (fun _ _ hs hi => hs.step hi) inv_init h
  exact hinv.mono fun _ hs => hs.sound

/-! ### Three orders -/

/-- The shutdown of a connection with one channel fails, the channel closes, and the listeners
run. -/
def failing : List Input :=
  [.track 0, .run 0 true, .disconnect 0, .run 0 true, .complete 0 true, .close 0] ++
    List.replicate 16 (.run 0 true)

theorem failed_released_stopped :
    (run Cleanup.step {} (.stop :: failing)).releases = [⟨true, true⟩] ∧
      Along Cleanup.step Cleanup.Sound {} (.stop :: failing) :=
  ⟨by decide, failed_released (.stop :: failing) (by decide)⟩

/-- The client stops last, and nothing looks again. -/
theorem never_released : ¬Along Cleanup.step Cleanup.Sound {} (failing ++ [.stop]) := by
  intro h
  have hreleased := (h.last.notMissed (by decide) (by decide)).1
  revert hreleased
  decide

/-- A channel is tracked after the check has seen all channels closed. -/
def lateChannel : List Input :=
  [.stop, .disconnect 0, .run 0 true, .complete 0 true] ++ List.replicate 4 (.run 0 true) ++
    [.track 1, .run 0 true, .run 1 true]

example : (run Cleanup.step {} lateChannel).releases = [⟨false, true⟩] := by decide

end AfkClient.DisconnectCleanup
