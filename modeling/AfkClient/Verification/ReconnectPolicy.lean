import AfkClient.Model.ReconnectPolicy
import Mathlib.Data.List.Induction
import Mathlib.Tactic.IntervalCases

/-! How long a client waits over a whole run of disconnects. The counters of the policy are the
numbers of failures since its last restart, of every kind and of rejected logins, so the wait for
an unavailable service is the right one exactly where counting every failure does not matter. -/

namespace AfkClient.ReconnectPolicy

open Re Text

/-! ### Runs -/

/-- What happens to the policy of a client. -/
inductive Event where
  | reset
  | failure (reason : String) (stableForMs : ℤ)
  deriving DecidableEq, Repr

def apply (p : ReconnectPolicy) : Event → ReconnectPolicy
  | .reset => p.reset
  | .failure reason stableForMs => (p.delay reason stableForMs).2

def after (events : List Event) : ReconnectPolicy := events.foldl apply {}

/-- The kinds of reasons, in the order in which the policy tries them. -/
inductive Kind where
  | rejected
  | suspicious
  | unavailable
  | ordinary
  deriving DecidableEq, Repr

def kind (reason : String) : Kind :=
  if loginRejected.test reason.toList then .rejected
  else if suspiciousTraffic.test reason.toList then .suspicious
  else if serviceUnavailable.test reason.toList then .unavailable
  else .ordinary

/-- The reasons since the last reset or the last session that was stable for two minutes,
latest first. A stable session ends with the failure that reports it. -/
def since : List Event → List String
  | [] => []
  | .reset :: _ => []
  | .failure reason stableForMs :: earlier =>
      reason :: if 120_000 ≤ stableForMs then [] else since earlier

/-- How many of the reasons are of one kind. -/
def number (k : Kind) (reasons : List String) : ℕ := reasons.countP fun reason => kind reason = k

/-! ### The law -/

/-- The waits for a service that is unavailable again and again. -/
def unavailableDelay : ℕ → ℤ
  | 0 | 1 | 2 => 15_000
  | 3 => 30_000
  | 4 => 60_000
  | _ => 120_000

/-- What a failure waits that is the latest of these reasons. -/
structure Law (reasons : List String) (reason : String) (delay : ℤ) : Prop where
  bounds : 15_000 ≤ delay ∧ delay ≤ 300_000
  rejected : kind reason = .rejected →
    delay = min 300_000 (60_000 * 2 ^ min 3 (number .rejected reasons - 1))
  unavailable : kind reason = .unavailable → delay = unavailableDelay (number .unavailable reasons)
  ordinary : kind reason = .ordinary → delay = 15_000

/-- Every failure of the run waits as the law says. -/
def Lawful (events : List Event) : Prop :=
  ∀ front reason stableForMs, front ++ [.failure reason stableForMs] <+: events →
    Law (since (front ++ [Event.failure reason stableForMs]).reverse) reason
      ((after front).delay reason stableForMs).1

/-- Failures of other kinds do not change the wait: there are none, or at most two failures, or
five of this kind. -/
def Unmixed (reasons : List String) : Prop :=
  reasons.length = number .unavailable reasons ∨ reasons.length ≤ 2 ∨
    5 ≤ number .unavailable reasons

/-! ### The counters -/

theorem after_append (events : List Event) (e : Event) :
    after (events ++ [e]) = (after events).apply e := by
  simp [after]

theorem number_cons (k : Kind) (reason : String) (reasons : List String) :
    number k (reason :: reasons) = number k reasons + if kind reason = k then 1 else 0 := by
  simp [number, List.countP_cons]

theorem number_le_length (k : Kind) (reasons : List String) :
    number k reasons ≤ reasons.length := List.countP_le_length

theorem kind_rejected {reason : String} :
    kind reason = .rejected ↔ loginRejected.test reason.toList = true := by
  constructor
  · intro h
    by_contra hlogin
    rw [kind, if_neg hlogin] at h
    split at h
    · cases h
    · split at h <;> cases h
  · intro h
    rw [kind, if_pos h]

/-- The policy before a failure is counted. -/
def restarted (p : ReconnectPolicy) (stableForMs : ℤ) : ReconnectPolicy :=
  if 120_000 ≤ stableForMs then p.reset else p

theorem delay_snd (p : ReconnectPolicy) (reason : String) (stableForMs : ℤ) :
    (p.delay reason stableForMs).2 =
      { failures := (p.restarted stableForMs).failures + 1,
        loginRejections := (p.restarted stableForMs).loginRejections +
          if kind reason = .rejected then 1 else 0 } := by
  simp only [kind_rejected, delay, restarted]
  by_cases hlogin : loginRejected.test reason.toList = true
  · simp only [if_pos hlogin]
  · simp only [if_neg hlogin]
    split
    · rfl
    · split <;> rfl

/-- The counters of the policy. -/
structure Counts (p : ReconnectPolicy) (reasons : List String) : Prop where
  failures : p.failures = reasons.length
  loginRejections : p.loginRejections = number .rejected reasons

theorem counts_empty : Counts {} [] := ⟨rfl, rfl⟩

theorem Counts.restarted {p : ReconnectPolicy} {reasons : List String} (h : Counts p reasons)
    (stableForMs : ℤ) : Counts (p.restarted stableForMs)
      (if 120_000 ≤ stableForMs then [] else reasons) := by
  unfold ReconnectPolicy.restarted
  by_cases hstable : 120_000 ≤ stableForMs
  · rw [if_pos hstable, if_pos hstable]
    exact counts_empty
  · rwa [if_neg hstable, if_neg hstable]

theorem counts_after (events : List Event) : Counts (after events) (since events.reverse) := by
  induction events using List.reverseRecOn with
  | nil => exact counts_empty
  | append_singleton events e ih =>
      rw [after_append, List.reverse_append]
      cases e with
      | reset => exact counts_empty
      | failure reason stableForMs =>
          have hrest := ih.restarted stableForMs
          rw [ReconnectPolicy.apply, delay_snd]
          change Counts _ (reason :: if 120_000 ≤ stableForMs then [] else since events.reverse)
          refine ⟨?_, ?_⟩
          · simp only [List.length_cons, hrest.failures]
          · rw [number_cons, ← hrest.loginRejections]

/-! ### Delays -/

/-- The wait by the counters, the failure itself included. -/
theorem delay_fst (p : ReconnectPolicy) (reason : String) (stableForMs : ℤ) :
    (p.delay reason stableForMs).1 = match kind reason with
      | .rejected => min 300_000
          (60_000 * 2 ^ min 3 ((p.delay reason stableForMs).2.loginRejections - 1))
      | .suspicious => 60_000
      | .unavailable => min 120_000
          (15_000 * 2 ^ min 3 ((p.delay reason stableForMs).2.failures - 2))
      | .ordinary => 15_000 := by
  simp only [kind, delay]
  split
  · rfl
  · split
    · rfl
    · split <;> rfl

theorem rejected_bounds (n : ℕ) : (15_000 : ℤ) ≤ min 300_000 (60_000 * 2 ^ min 3 n) := by
  have hpos : (1 : ℤ) ≤ 2 ^ min 3 n := one_le_pow₀ (by norm_num)
  omega

/-- The waits of the policy for an unavailable service, by the number of all failures. -/
theorem unavailable_eq (n : ℕ) :
    min (120_000 : ℤ) (15_000 * 2 ^ min 3 (n - 2)) = unavailableDelay n := by
  by_cases h : 5 ≤ n
  · obtain ⟨m, rfl⟩ : ∃ m, n = m + 5 := ⟨n - 5, by omega⟩
    have hmin : min 3 (m + 5 - 2) = 3 := by omega
    rw [hmin]
    rfl
  · interval_cases n <;> rfl

theorem unavailableDelay_bounds (n : ℕ) :
    15_000 ≤ unavailableDelay n ∧ unavailableDelay n ≤ 120_000 := by
  unfold unavailableDelay
  split <;> norm_num

/-- Two numbers of failures wait equally long exactly in these cases. -/
theorem unavailableDelay_eq_iff {u n : ℕ} (hle : u ≤ n) (hpos : 0 < u) :
    unavailableDelay n = unavailableDelay u ↔ n = u ∨ n ≤ 2 ∨ 5 ≤ u := by
  by_cases hu : 5 ≤ u
  · obtain ⟨u, rfl⟩ : ∃ m, u = m + 5 := ⟨u - 5, by omega⟩
    obtain ⟨n, rfl⟩ : ∃ m, n = m + 5 := ⟨n - 5, by omega⟩
    simp [unavailableDelay]
  · by_cases hn : 5 ≤ n
    · obtain ⟨n, rfl⟩ : ∃ m, n = m + 5 := ⟨n - 5, by omega⟩
      interval_cases u <;> simp [unavailableDelay]
    · interval_cases n <;> interval_cases u <;> simp [unavailableDelay]

/-! ### Every run -/

theorem law_iff (front : List Event) (reason : String) (stableForMs : ℤ) :
    Law (since (front ++ [Event.failure reason stableForMs]).reverse) reason
        ((after front).delay reason stableForMs).1 ↔
      (kind reason = .unavailable →
        Unmixed (since (front ++ [Event.failure reason stableForMs]).reverse)) := by
  have hcounts := counts_after (front ++ [.failure reason stableForMs])
  rw [after_append, ReconnectPolicy.apply] at hcounts
  have hdelay := (after front).delay_fst reason stableForMs
  rw [hcounts.loginRejections, hcounts.failures] at hdelay
  have hlatest : ∃ earlier, since (front ++ [Event.failure reason stableForMs]).reverse =
      reason :: earlier := by
    rw [List.reverse_append]
    exact ⟨_, rfl⟩
  generalize since (front ++ [Event.failure reason stableForMs]).reverse = reasons at *
  rw [hdelay]
  cases hkind : kind reason with
  | rejected =>
      constructor
      · intro _ h
        cases h
      · intro _
        exact ⟨⟨rejected_bounds _, min_le_left _ _⟩, fun _ => rfl, by simp [hkind], by simp [hkind]⟩
  | suspicious =>
      constructor
      · intro _ h
        cases h
      · intro _
        exact ⟨by norm_num, by simp [hkind], by simp [hkind], by simp [hkind]⟩
  | ordinary =>
      constructor
      · intro _ h
        cases h
      · intro _
        exact ⟨by norm_num, by simp [hkind], by simp [hkind], fun _ => rfl⟩
  | unavailable =>
      obtain ⟨earlier, rfl⟩ := hlatest
      have hpos : 0 < number .unavailable (reason :: earlier) := by
        rw [number_cons, if_pos hkind]
        omega
      have hiff := unavailableDelay_eq_iff (number_le_length .unavailable (reason :: earlier)) hpos
      have hbounds := unavailableDelay_bounds (reason :: earlier).length
      rw [unavailable_eq]
      constructor
      · exact fun h _ => hiff.mp (h.unavailable hkind)
      · intro h
        exact ⟨⟨hbounds.1, hbounds.2.trans (by norm_num)⟩, by simp [hkind],
          fun _ => hiff.mpr (h rfl), by simp [hkind]⟩

theorem delays_lawful_iff (events : List Event) : Lawful events ↔
    ∀ front reason stableForMs, front ++ [.failure reason stableForMs] <+: events →
      kind reason = .unavailable →
        Unmixed (since (front ++ [Event.failure reason stableForMs]).reverse) := by
  unfold Lawful
  simp only [law_iff]

/-- After three ordinary disconnects, the first unavailable service is not tried again for a
minute. -/
theorem delays_lawful_mixed : ¬ Lawful
    [.failure "Disconnected" 0, .failure "Disconnected" 0, .failure "Disconnected" 0,
      .failure "connect ECONNREFUSED" 0] := by
  intro h
  have hlaw := h [.failure "Disconnected" 0, .failure "Disconnected" 0, .failure "Disconnected" 0]
    "connect ECONNREFUSED" 0 (List.prefix_refl _)
  exact absurd (hlaw.unavailable (by decide +kernel)) (by decide +kernel)

end AfkClient.ReconnectPolicy
