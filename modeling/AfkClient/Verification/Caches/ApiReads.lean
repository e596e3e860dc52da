import AfkClient.Library.Run
import AfkClient.Model.ApiReads
import Mathlib.Data.List.Basic

/-! The reads of the API client over every order of calls, invalidations, aborts and responses. -/

namespace AfkClient.ApiReads

/-! ### Laws -/

/-- The promise of `apiFetch`, once it is settled. -/
def Phase.answer? : Phase → Option Answer
  | .answered answer | .handled answer | .finished answer => some answer
  | _ => none

def Phase.running : Phase → Bool
  | .finished _ => false
  | _ => true

/-- What was known of the path of a subscriber when it came. -/
structure Mark where
  moment : ℕ
  invalidations : ℕ
  deriving DecidableEq, Repr

structure Traced where
  api : Api := {}
  /-- How many requests had been sent when the reads of a path were invalidated last. -/
  moment : String → ℕ := fun _ => 0
  /-- How often they were. -/
  invalidations : String → ℕ := fun _ => 0
  marks : List Mark := []

/-- The reads of the path are invalidated: by a call, by a mutating request when it is sent and
when its response comes, by the response that a session has expired. -/
def Api.invalidates (s : Api) (input : Input) (path : String) : Bool :=
  match input with
  | .clear | .mutate => true
  | .invalidate accountId => Api.ofAccount accountId path
  | .received mutating status => mutating || status = 401
  | .respond r status => (s.requests[r]?).any (·.phase = .sent) && status = 401
  | _ => false

def Traced.step (s : Traced) (input : Input) : Traced where
  api := s.api.step input
  moment path := if s.api.invalidates input path then s.api.requests.length else s.moment path
  invalidations path := s.invalidations path + if s.api.invalidates input path then 1 else 0
  marks :=
    match input with
    | .get path _ _ => s.marks ++ [⟨s.moment path, s.invalidations path⟩]
    | _ => s.marks

structure Lawful (s : Traced) : Prop where
  /-- A call is resolved with the response of a request of its path that was sent after the last
  invalidation before the call. -/
  fresh : ∀ (k : ℕ) (sub : Subscriber) (body : Body), s.api.subscribers[k]? = some sub →
    sub.outcome = .resolved body → ∃ (r : ℕ) (q : Request) (mark : Mark), sub.request = some r ∧
      s.api.requests[r]? = some q ∧ q.path = sub.path ∧ q.phase.answer? = some (.value body) ∧
      s.marks[k]? = some mark ∧ mark.moment ≤ r
  /-- A call shares the running request of an earlier one, unless its path was invalidated
  between them. -/
  shared : ∀ (j k : ℕ) (sub sub' : Subscriber) (mark mark' : Mark) (r r' : ℕ) (q : Request), j ≤ k →
    s.api.subscribers[j]? = some sub → s.api.subscribers[k]? = some sub' →
    s.marks[j]? = some mark → s.marks[k]? = some mark' → sub.path = sub'.path →
    mark.invalidations = mark'.invalidations → sub.request = some r → sub'.request = some r' →
    s.api.requests[r]? = some q → q.phase.running → r' = r
  /-- The subscribers of an aborted signal are rejected for that, and no others. -/
  aborted : ∀ (k : ℕ) (sub : Subscriber), s.api.subscribers[k]? = some sub → sub.outcome = .aborted →
    ∃ signal, sub.signal = some signal ∧ signal ∈ s.api.aborted
  settled : ∀ sub ∈ s.api.subscribers, ∀ signal, sub.signal = some signal → signal ∈ s.api.aborted →
    sub.outcome ≠ .pending

/-- A new call waits for a request, or is served from the cache before the end of the interval
behind the one that the value covers. -/
def Served (s : Traced) (input : Input) : Prop :=
  ∀ path signal now, input = .get path signal now →
    ∃ sub, (s.step input).api.subscribers = s.api.subscribers ++ [sub] ∧ sub.path = path ∧
      sub.signal = signal ∧ (sub.request = none → signal.any (· ∈ s.api.aborted)) ∧
      ∀ body, sub.cached = some body →
        ∃ endMs, body.endMs = some endMs ∧ now < endMs + body.bucketMs.getD 0

/-- The same requests and reads, and all subscribers but those of the signal in the same state. -/
structure Alike (signal : ℕ) (s s' : Api) : Prop where
  reads : s' = { s with subscribers := s'.subscribers, aborted := s'.aborted }
  signals : ∀ other, other ≠ signal → (other ∈ s'.aborted ↔ other ∈ s.aborted)
  subscribers : s.subscribers.length = s'.subscribers.length ∧
    ∀ (k : ℕ) (sub : Subscriber), s.subscribers[k]? = some sub → sub.signal ≠ some signal →
      s'.subscribers[k]? = some sub

/-! ### Requests -/

/-- A request after some steps. -/
structure Request.Later (q q' : Request) : Prop where
  path : q'.path = q.path
  generation : q'.generation = q.generation
  answer : ∀ answer, q.phase.answer? = some answer → q'.phase.answer? = some answer
  running : q'.phase.running → q.phase.running

theorem Request.Later.refl (q : Request) : q.Later q := ⟨rfl, rfl, fun _ h => h, fun h => h⟩

/-- No request is lost. -/
def Grows (a a' : Api) : Prop :=
  ∀ (r : ℕ) (q : Request), a.requests[r]? = some q → ∃ q', a'.requests[r]? = some q' ∧ q.Later q'

variable {a a' : Api} {r : ℕ} {q : Request} {phase : Phase} {path : String}

theorem Grows.of_eq (h : a'.requests = a.requests) : Grows a a' :=
  fun _ q hq => ⟨q, h ▸ hq, .refl q⟩

theorem setPhase_self (hq : a.requests[r]? = some q) :
    (a.setPhase r phase).requests[r]? = some { q with phase } := by
  simp [Api.setPhase, hq]

theorem setPhase_of_ne {i : ℕ} (hi : r ≠ i) : (a.setPhase r phase).requests[i]? = a.requests[i]? := by
  simp [Api.setPhase, hi]

theorem grows_setPhase (hq : a.requests[r]? = some q) (hlater : q.Later { q with phase }) :
    Grows a (a.setPhase r phase) := by
  intro i q' hq'
  by_cases hi : r = i
  · subst hi
    obtain rfl := Option.some.inj (hq.symm.trans hq')
    exact ⟨_, setPhase_self hq, hlater⟩
  · exact ⟨q', (setPhase_of_ne hi).trans hq', .refl q'⟩

/-! ### Maps -/

variable {moment : String → ℕ} {entry : Entry}

/-- An entry of the cache holds the response of a request of its path, and no other request of
the path is running. -/
structure Cached (a : Api) (moment : String → ℕ) (path : String) (entry : Entry) : Prop where
  request : ∃ q, a.requests[entry.request]? = some q ∧ q.path = path ∧
    q.phase.answer? = some (.value entry.value)
  fresh : moment path ≤ entry.request
  alone : ∀ r, a.pendingReads.get? path = some r → r = entry.request
  expiresAt : ∃ endMs, entry.value.endMs = some endMs ∧
    entry.expiresAt = endMs + entry.value.bucketMs.getD 0

structure Registry (a : Api) (moment : String → ℕ) : Prop where
  pending : ∀ path r, a.pendingReads.get? path = some r →
    ∃ q, a.requests[r]? = some q ∧ q.path = path ∧ q.phase.running ∧ moment path ≤ r
  /-- Whoever comes can join the request. -/
  joined : ∀ (r : ℕ) (q : Request), a.requests[r]? = some q → q.phase.running → moment q.path ≤ r →
    a.pendingReads.get? q.path = some r
  generation : ∀ (r : ℕ) (q : Request), a.requests[r]? = some q →
    q.generation ≤ a.readGeneration ∧ (q.generation = a.readGeneration → moment q.path ≤ r)
  cached : ∀ path entry, a.historyCache.get? path = some entry → Cached a moment path entry
  moment : ∀ path, moment path ≤ a.requests.length

/-- Subscribers and signals do not matter. -/
theorem Registry.frame (h : Registry a moment) (subscribers : List Subscriber) (aborted : List ℕ) :
    Registry { a with subscribers, aborted } moment := by
  refine ⟨h.pending, h.joined, h.generation, fun path entry hentry => ?_, h.moment⟩
  have hcached := h.cached path entry hentry
  exact ⟨hcached.request, hcached.fresh, hcached.alone, hcached.expiresAt⟩

/-- The paths in `p` are invalidated. -/
theorem Registry.invalidate (h : Registry a moment) (p : String → Bool)
    (hpending : ∀ path r, a'.pendingReads.get? path = some r →
      p path = false ∧ a.pendingReads.get? path = some r)
    (hkept : ∀ path r, p path = false → a.pendingReads.get? path = some r →
      a'.pendingReads.get? path = some r)
    (hcache : ∀ path entry, a'.historyCache.get? path = some entry →
      p path = false ∧ a.historyCache.get? path = some entry)
    (hgeneration : a'.readGeneration = a.readGeneration + 1) (hrequests : a'.requests = a.requests) :
    Registry a' fun path => if p path then a.requests.length else moment path := by
  have hsame : ∀ {path}, p path = false →
      (if p path then a.requests.length else moment path) = moment path := by
    intro path hpath
    rw [hpath, if_neg Bool.false_ne_true]
  refine ⟨?_, ?_, ?_, ?_, ?_⟩
  · intro path r hr
    obtain ⟨hpath, hold⟩ := hpending path r hr
    rw [hrequests, hsame hpath]
    exact h.pending path r hold
  · intro r q hq hrunning hmoment
    rw [hrequests] at hq
    cases hpath : p q.path with
    | true =>
        rw [hpath, if_pos rfl] at hmoment
        exact absurd (List.getElem?_eq_some_iff.mp hq).1 (Nat.not_lt_of_le hmoment)
    | false => exact hkept q.path r hpath (h.joined r q hq hrunning (hsame hpath ▸ hmoment))
  · intro r q hq
    rw [hrequests] at hq
    have hle := (h.generation r q hq).1
    rw [hgeneration]
    exact ⟨by omega, by omega⟩
  · intro path entry hentry
    obtain ⟨hpath, hold⟩ := hcache path entry hentry
    have hcached := h.cached path entry hold
    refine ⟨hrequests ▸ hcached.request, (hsame hpath).symm ▸ hcached.fresh, ?_, hcached.expiresAt⟩
    exact fun r hr => hcached.alone r (hpending path r hr).2
  · intro path
    rw [hrequests]
    split
    · exact Nat.le_refl _
    · exact h.moment path

/-- Entries are deleted, or one that is sound is added. -/
theorem Registry.cache (h : Registry a moment) {cache : Dictionary String Entry}
    (hcache : ∀ path entry, cache.get? path = some entry →
      a.historyCache.get? path = some entry ∨ Cached a moment path entry) :
    Registry { a with historyCache := cache } moment := by
  have hcached : ∀ path entry, cache.get? path = some entry → Cached a moment path entry := by
    intro path entry hentry
    rcases hcache path entry hentry with hold | hnew
    · exact h.cached path entry hold
    · exact hnew
  refine ⟨h.pending, h.joined, h.generation, fun path entry hentry => ?_, h.moment⟩
  exact ⟨(hcached path entry hentry).request, (hcached path entry hentry).fresh,
    (hcached path entry hentry).alone, (hcached path entry hentry).expiresAt⟩

/-- A request gets on; when it has finished, it is no longer pending. -/
theorem Registry.advance (h : Registry a moment) (hq : a.requests[r]? = some q)
    (hlater : q.Later { q with phase }) {pendingReads : Dictionary String ℕ}
    (hpending : ∀ path i, pendingReads.get? path = some i ↔
      a.pendingReads.get? path = some i ∧ (i = r → phase.running)) :
    Registry ({ a with pendingReads }.setPhase r phase) moment := by
  have hself : ({ a with pendingReads }.setPhase r phase).requests[r]? = some { q with phase } :=
    setPhase_self (a := { a with pendingReads }) hq
  have hother : ∀ {i : ℕ}, r ≠ i →
      ({ a with pendingReads }.setPhase r phase).requests[i]? = a.requests[i]? :=
    fun hi => setPhase_of_ne (a := { a with pendingReads }) hi
  refine ⟨?_, ?_, ?_, ?_, ?_⟩
  · intro path i hi
    obtain ⟨hold, hrunning⟩ := (hpending path i).mp hi
    obtain ⟨q', hq', hpath, hrunning', hmoment⟩ := h.pending path i hold
    by_cases hir : i = r
    · subst hir
      obtain rfl := Option.some.inj (hq.symm.trans hq')
      exact ⟨_, hself, hpath, hrunning rfl, hmoment⟩
    · exact ⟨q', (hother (Ne.symm hir)).trans hq', hpath, hrunning', hmoment⟩
  · intro i q' hq' hrunning hmoment
    refine (hpending q'.path i).mpr ?_
    by_cases hir : i = r
    · subst hir
      obtain rfl := Option.some.inj (hself.symm.trans hq')
      exact ⟨h.joined i q hq (hlater.running hrunning) hmoment, fun _ => hrunning⟩
    · refine ⟨h.joined i q' ((hother (Ne.symm hir)).symm.trans hq') hrunning hmoment, fun heq => ?_⟩
      exact absurd heq hir
  · intro i q' hq'
    by_cases hir : i = r
    · subst hir
      obtain rfl := Option.some.inj (hself.symm.trans hq')
      exact h.generation i q hq
    · exact h.generation i q' ((hother (Ne.symm hir)).symm.trans hq')
  · intro path entry hentry
    have hcached := h.cached path entry hentry
    obtain ⟨q', hq', hpath, hanswer⟩ := hcached.request
    refine ⟨?_, hcached.fresh, fun i hi => hcached.alone i ((hpending path i).mp hi).1,
      hcached.expiresAt⟩
    by_cases hir : entry.request = r
    · rw [hir] at hq' ⊢
      obtain rfl := Option.some.inj (hq.symm.trans hq')
      exact ⟨_, hself, hpath, hlater.answer _ hanswer⟩
    · exact ⟨q', (hother (Ne.symm hir)).trans hq', hpath, hanswer⟩
  · intro path
    have hlength : ({ a with pendingReads }.setPhase r phase).requests.length = a.requests.length :=
      List.length_modify ..
    rw [hlength]
    exact h.moment path

theorem Registry.send (h : Registry a moment) (hnone : a.pendingReads.get? path = none)
    (hcache : a.historyCache.get? path = none) : Registry (a.send path) moment := by
  have hold : ∀ {i : ℕ} {q : Request}, a.requests[i]? = some q → (a.send path).requests[i]? = some q := by
    intro i q hq
    exact (List.getElem?_append_left (List.getElem?_eq_some_iff.mp hq).1).trans hq
  have hnew : ∀ {i : ℕ} {q : Request}, (a.send path).requests[i]? = some q →
      a.requests[i]? = some q ∨ i = a.requests.length ∧ q = { path, generation := a.readGeneration } := by
    intro i q hq
    rcases Nat.lt_or_ge i a.requests.length with hlt | hge
    · exact .inl ((List.getElem?_append_left hlt).symm.trans hq)
    · have hq' := (List.getElem?_append_right hge).symm.trans hq
      rw [List.getElem?_singleton] at hq'
      split at hq'
      · exact .inr ⟨by omega, (Option.some.inj hq').symm⟩
      · cases hq'
  refine ⟨?_, ?_, ?_, ?_, ?_⟩
  · intro path' r hr
    simp only [Api.send, Dictionary.get?_set] at hr
    split at hr
    · rename_i hpath
      obtain rfl := Option.some.inj hr
      exact ⟨_, List.getElem?_concat_length, hpath.symm, rfl, h.moment path'⟩
    · obtain ⟨q, hq, hrest⟩ := h.pending path' r hr
      exact ⟨q, hold hq, hrest⟩
  · intro r q hq hrunning hmoment
    rcases hnew hq with hq | ⟨rfl, rfl⟩
    · have hjoined := h.joined r q hq hrunning hmoment
      have hne : q.path ≠ path := by
        rintro rfl
        cases hnone.symm.trans hjoined
      exact (Dictionary.get?_set_of_ne _ _ _ hne).trans hjoined
    · exact Dictionary.get?_set_self _ _ _
  · intro r q hq
    rcases hnew hq with hq | ⟨rfl, rfl⟩
    · exact h.generation r q hq
    · exact ⟨Nat.le_refl _, fun _ => h.moment path⟩
  · intro path' entry hentry
    have hcached := h.cached path' entry hentry
    obtain ⟨q, hq, hrest⟩ := hcached.request
    refine ⟨⟨q, hold hq, hrest⟩, hcached.fresh, fun r hr => hcached.alone r ?_, hcached.expiresAt⟩
    have hne : path' ≠ path := by
      rintro rfl
      cases hcache.symm.trans hentry
    exact (Dictionary.get?_set_of_ne _ _ _ hne).symm.trans hr
  · intro path'
    exact (h.moment path').trans (by simp [Api.send])

/-! ### Subscribers -/

/-- A subscriber is resolved with the response of its request, or aborted by its signal. -/
structure Subscriber.Explained (a : Api) (sub : Subscriber) : Prop where
  resolved : ∀ body, sub.outcome = .resolved body → ∃ r q, sub.request = some r ∧
    a.requests[r]? = some q ∧ q.phase.answer? = some (.value body)
  aborted : sub.outcome = .aborted → ∃ signal, sub.signal = some signal ∧ signal ∈ a.aborted

structure Called (s : Traced) (sub : Subscriber) (mark : Mark) : Prop where
  invalidations : mark.invalidations ≤ s.invalidations sub.path
  moment : mark.invalidations = s.invalidations sub.path → mark.moment = s.moment sub.path
  request : ∀ r, sub.request = some r →
    mark.moment ≤ r ∧ ∃ q, s.api.requests[r]? = some q ∧ q.path = sub.path
  cached : ∀ body, sub.cached = some body → ∃ r q, sub.request = some r ∧
    s.api.requests[r]? = some q ∧ q.phase.answer? = some (.value body)
  explained : sub.Explained s.api

structure Callers (s : Traced) : Prop where
  length : s.marks.length = s.api.subscribers.length
  called : ∀ (k : ℕ) (sub : Subscriber) (mark : Mark), s.api.subscribers[k]? = some sub →
    s.marks[k]? = some mark → Called s sub mark
  shared : ∀ (j k : ℕ) (sub sub' : Subscriber) (mark mark' : Mark) (r r' : ℕ) (q : Request), j ≤ k →
    s.api.subscribers[j]? = some sub → s.api.subscribers[k]? = some sub' →
    s.marks[j]? = some mark → s.marks[k]? = some mark' → sub.path = sub'.path →
    mark.invalidations = mark'.invalidations → sub.request = some r → sub'.request = some r' →
    s.api.requests[r]? = some q → q.phase.running → r' = r

variable {s s' : Traced} {sub : Subscriber} {mark : Mark}

theorem Subscriber.Explained.mono (h : sub.Explained a) (hgrows : Grows a a')
    (haborted : a.aborted ⊆ a'.aborted) : sub.Explained a' := by
  refine ⟨fun body hbody => ?_, fun habort => ?_⟩
  · obtain ⟨r, q, hr, hq, hanswer⟩ := h.resolved body hbody
    obtain ⟨q', hq', hlater⟩ := hgrows r q hq
    exact ⟨r, q', hr, hq', hlater.answer _ hanswer⟩
  · obtain ⟨signal, hsignal, hmem⟩ := h.aborted habort
    exact ⟨signal, hsignal, haborted hmem⟩

/-- What a step that is no call leaves to an earlier subscriber. -/
structure After (s s' : Traced) : Prop where
  requests : Grows s.api s'.api
  aborted : s.api.aborted ⊆ s'.api.aborted
  ledger : ∀ path, s'.moment path = s.moment path ∧ s'.invalidations path = s.invalidations path ∨
    s.invalidations path < s'.invalidations path

theorem Called.mono (h : Called s sub mark) (hafter : After s s') : Called s' sub mark := by
  refine ⟨?_, ?_, fun r hr => ?_, fun body hbody => ?_, h.explained.mono hafter.requests hafter.aborted⟩
  · rcases hafter.ledger sub.path with ⟨-, hsame⟩ | hlt
    · exact hsame ▸ h.invalidations
    · exact h.invalidations.trans (Nat.le_of_lt hlt)
  · intro heq
    rcases hafter.ledger sub.path with ⟨hmoment, hsame⟩ | hlt
    · exact (h.moment (heq.trans hsame)).trans hmoment.symm
    · exact absurd h.invalidations (Nat.not_le_of_lt (heq ▸ hlt))
  · obtain ⟨hmark, q, hq, hpath⟩ := h.request r hr
    obtain ⟨q', hq', hlater⟩ := hafter.requests r q hq
    exact ⟨hmark, q', hq', hlater.path.trans hpath⟩
  · obtain ⟨r, q, hr, hq, hanswer⟩ := h.cached body hbody
    obtain ⟨q', hq', hlater⟩ := hafter.requests r q hq
    exact ⟨r, q', hr, hq', hlater.answer _ hanswer⟩

/-- A request that is running was running. -/
theorem Called.running (h : Called s sub mark) (hgrows : Grows s.api s'.api) {r : ℕ} {q' : Request}
    (hr : sub.request = some r) (hq' : s'.api.requests[r]? = some q') (hrunning : q'.phase.running) :
    ∃ q, s.api.requests[r]? = some q ∧ q.path = sub.path ∧ q.phase.running := by
  obtain ⟨-, q, hq, hpath⟩ := h.request r hr
  obtain ⟨q'', hq'', hlater⟩ := hgrows r q hq
  obtain rfl := Option.some.inj (hq'.symm.trans hq'')
  exact ⟨q, hq, hpath, hlater.running hrunning⟩

theorem Callers.marked (h : Callers s) {k : ℕ} (hsub : s.api.subscribers[k]? = some sub) :
    ∃ mark, s.marks[k]? = some mark ∧ Called s sub mark := by
  have hlt : k < s.marks.length := h.length ▸ (List.getElem?_eq_some_iff.mp hsub).1
  exact ⟨s.marks[k], List.getElem?_eq_getElem hlt, h.called k sub _ hsub (List.getElem?_eq_getElem hlt)⟩

/-- No call is made, and the promises that get settled are settled for a reason. -/
theorem Callers.mono (h : Callers s) (hafter : After s s') (hmarks : s'.marks = s.marks)
    (hlength : s'.api.subscribers.length = s.api.subscribers.length)
    (hsubs : ∀ (k : ℕ) (sub' : Subscriber), s'.api.subscribers[k]? = some sub' →
      ∃ sub, s.api.subscribers[k]? = some sub ∧ sub' = { sub with outcome := sub'.outcome } ∧
        (sub'.outcome = sub.outcome ∨ sub'.Explained s'.api)) : Callers s' := by
  refine ⟨by rw [hmarks, hlength, h.length], ?_, ?_⟩
  · intro k sub' mark hsub' hmark
    obtain ⟨sub, hsub, heq, houtcome⟩ := hsubs k sub' hsub'
    have hcalled := (h.called k sub mark hsub (hmarks ▸ hmark)).mono hafter
    rcases houtcome with hsame | hexplained
    · rw [heq, hsame]
      exact hcalled
    · rw [heq] at hexplained ⊢
      exact ⟨hcalled.invalidations, hcalled.moment, hcalled.request, hcalled.cached, hexplained⟩
  · intro j k sub sub' mark mark' r r' q hjk hj hk hmark hmark' hpath hinvalidations hr hr' hq hrunning
    obtain ⟨old, hold, heq, -⟩ := hsubs j sub hj
    obtain ⟨old', hold', heq', -⟩ := hsubs k sub' hk
    rw [heq] at hpath hr
    rw [heq'] at hpath hr'
    rw [hmarks] at hmark hmark'
    obtain ⟨q', hq', -, hrunning'⟩ :=
      (h.called j old mark hold hmark).running hafter.requests hr hq hrunning
    exact h.shared j k old old' mark mark' r r' q' hjk hold hold' hmark hmark' hpath hinvalidations hr
      hr' hq' hrunning'

/-- A call is made. Where a request of its path has been running since the last invalidation, it is
the one that the call waits for. -/
theorem Callers.subscribe (h : Callers s) (hafter : After s s')
    (hmarks : s'.marks = s.marks ++ [⟨s.moment sub.path, s.invalidations sub.path⟩])
    (hsubs : s'.api.subscribers = s.api.subscribers ++ [sub])
    (hcalled : Called s' sub ⟨s.moment sub.path, s.invalidations sub.path⟩)
    (hjoins : ∀ r r' q, s.api.requests[r]? = some q → q.path = sub.path → q.phase.running →
      s.moment sub.path ≤ r → sub.request = some r' → r' = r) : Callers s' := by
  -- what is at a place is old, or it is the call
  have hplace : ∀ (k : ℕ) (sub' : Subscriber) (mark : Mark), s'.api.subscribers[k]? = some sub' →
      s'.marks[k]? = some mark → s.api.subscribers[k]? = some sub' ∧ s.marks[k]? = some mark ∨
        k = s.marks.length ∧ sub' = sub ∧ mark = ⟨s.moment sub.path, s.invalidations sub.path⟩ := by
    intro k sub' mark hsub' hmark
    rw [hsubs] at hsub'
    rw [hmarks] at hmark
    rcases Nat.lt_or_ge k s.marks.length with hlt | hge
    · rw [List.getElem?_append_left (h.length ▸ hlt)] at hsub'
      rw [List.getElem?_append_left hlt] at hmark
      exact .inl ⟨hsub', hmark⟩
    · rw [List.getElem?_append_right (h.length ▸ hge), List.getElem?_singleton] at hsub'
      rw [List.getElem?_append_right hge, List.getElem?_singleton] at hmark
      split at hmark
      · rename_i hk
        rw [← h.length, if_pos hk] at hsub'
        exact .inr ⟨by omega, (Option.some.inj hsub').symm, (Option.some.inj hmark).symm⟩
      · cases hmark
  refine ⟨?_, ?_, ?_⟩
  · rw [hmarks, hsubs, List.length_append, List.length_append, h.length]
    rfl
  · intro k sub' mark hsub' hmark
    rcases hplace k sub' mark hsub' hmark with ⟨hold, hmark⟩ | ⟨-, rfl, rfl⟩
    · exact (h.called k sub' mark hold hmark).mono hafter
    · exact hcalled
  · intro j k sub₁ sub₂ mark mark' r r' q hjk hj hk hmark hmark' hpath hinvalidations hr hr' hq hrunning
    rcases hplace j sub₁ mark hj hmark with ⟨hj, hmark⟩ | ⟨rfl, rfl, rfl⟩
    · have hold := h.called j sub₁ mark hj hmark
      obtain ⟨q', hq', hpath', hrunning'⟩ := hold.running hafter.requests hr hq hrunning
      rcases hplace k sub₂ mark' hk hmark' with ⟨hk, hmark'⟩ | ⟨-, rfl, rfl⟩
      · exact h.shared j k sub₁ sub₂ mark mark' r r' q' hjk hj hk hmark hmark' hpath hinvalidations hr
          hr' hq' hrunning'
      · have hmoment := hold.moment (by rw [hinvalidations, hpath])
        rw [hpath] at hmoment
        exact hjoins r r' q' hq' (hpath'.trans hpath) hrunning' (hmoment ▸ (hold.request r hr).1) hr'
    · rcases hplace k sub₂ mark' hk hmark' with ⟨-, hmark'⟩ | ⟨-, rfl, -⟩
      · exact absurd (List.getElem?_eq_some_iff.mp hmark').1 (Nat.not_lt_of_le hjk)
      · exact Option.some.inj (hr'.symm.trans hr)

/-! ### Steps -/

structure Sound (s : Traced) : Prop where
  registry : Registry s.api s.moment
  callers : Callers s

theorem sound_start : Sound {} where
  registry :=
    { pending := by simp
      joined := by simp
      generation := by simp
      cached := by simp
      moment := by simp }
  callers :=
    { length := rfl
      called := by simp
      shared := by simp }

/-- The promises of the subscribers are left as they are. -/
theorem Callers.keep (h : Callers s) (hafter : After s s') (hmarks : s'.marks = s.marks)
    (hsubs : s'.api.subscribers = s.api.subscribers) : Callers s' := by
  refine h.mono hafter hmarks (by rw [hsubs]) fun k sub hsub => ?_
  exact ⟨sub, hsubs ▸ hsub, rfl, .inl rfl⟩

/-- Where nothing is invalidated, the ledger stays as it is. -/
theorem step_of_valid {input : Input} (hvalid : ∀ path, s.api.invalidates input path = false)
    (hget : ∀ path signal now, input ≠ .get path signal now) :
    s.step input = { s with api := s.api.step input } := by
  unfold Traced.step
  simp only [hvalid, Bool.false_eq_true, if_false, Nat.add_zero]

/-- A step that invalidates, in which some request may have got a response. -/
theorem Sound.invalidate (hs : Sound s) (p : String → Bool)
    (hregistry : Registry a' fun path => if p path then s.api.requests.length else s.moment path)
    (hrequests : Grows s.api a') (haborted : a'.aborted = s.api.aborted)
    (hsubs : a'.subscribers = s.api.subscribers) :
    Sound { s with
      api := a'
      moment := fun path => if p path then s.api.requests.length else s.moment path
      invalidations := fun path => s.invalidations path + if p path then 1 else 0 } := by
  refine ⟨hregistry, hs.callers.keep ⟨hrequests, haborted ▸ List.Subset.refl _, fun path => ?_⟩ rfl hsubs⟩
  cases hpath : p path with
  | true => exact .inr (by simp [hpath])
  | false => exact .inl (by simp [hpath])

theorem Registry.clear (h : Registry a moment) :
    Registry a.clearApiReadCache fun path => if true then a.requests.length else moment path :=
  h.invalidate (fun _ => true) (fun _ _ hr => by cases (Dictionary.get?_empty _).symm.trans hr)
    nofun (fun _ _ he => by cases (Dictionary.get?_empty _).symm.trans he) rfl rfl

theorem Sound.clear (hs : Sound s) : Sound (s.step .clear) :=
  hs.invalidate (fun _ => true) hs.registry.clear (.of_eq rfl) rfl rfl

theorem Sound.invalidateAccount (hs : Sound s) (accountId : String) :
    Sound (s.step (.invalidate accountId)) := by
  refine hs.invalidate (Api.ofAccount accountId) ?_ (.of_eq rfl) rfl rfl
  refine hs.registry.invalidate (Api.ofAccount accountId) ?_ ?_ ?_ rfl rfl
  · intro path r hr
    simp only [Api.step, Api.invalidateAccountHistory, Dictionary.get?_deleteWhere,
      Option.filter_eq_some_iff] at hr
    exact ⟨by simpa using hr.2, hr.1⟩
  · intro path r hpath hr
    simp only [Api.step, Api.invalidateAccountHistory, Dictionary.get?_deleteWhere,
      Option.filter_eq_some_iff]
    exact ⟨hr, by simpa using hpath⟩
  · intro path entry hentry
    simp only [Api.step, Api.invalidateAccountHistory, Dictionary.get?_deleteWhere,
      Option.filter_eq_some_iff] at hentry
    exact ⟨by simpa using hentry.2, hentry.1⟩

/-- Nothing is called or invalidated, and only requests and maps change. -/
theorem Sound.api (hs : Sound s) (hregistry : Registry a' s.moment) (hrequests : Grows s.api a')
    (haborted : a'.aborted = s.api.aborted) (hsubs : a'.subscribers = s.api.subscribers) :
    Sound { s with api := a' } :=
  ⟨hregistry, hs.callers.keep ⟨hrequests, haborted ▸ List.Subset.refl _, fun _ => .inl ⟨rfl, rfl⟩⟩ rfl hsubs⟩

/-- A request gets on that has not finished by that. -/
theorem Registry.setPhase (h : Registry a moment) (hq : a.requests[r]? = some q)
    (hlater : q.Later { q with phase }) (hrunning : phase.running) :
    Registry (a.setPhase r phase) moment :=
  h.advance hq hlater fun _ _ => ⟨fun hi => ⟨hi, fun _ => hrunning⟩, And.left⟩

theorem Sound.setPhase (hs : Sound s) (hq : s.api.requests[r]? = some q)
    (hlater : q.Later { q with phase }) (hrunning : phase.running) :
    Sound { s with api := s.api.setPhase r phase } :=
  hs.api (hs.registry.setPhase hq hlater hrunning) (grows_setPhase hq hlater) rfl rfl

theorem Sound.received (hs : Sound s) (mutating : Bool) (status : ℕ) :
    Sound (s.step (.received mutating status)) := by
  cases hcleared : (mutating || decide (status = 401)) with
  | true =>
      have hstep : s.step (.received mutating status) = s.step .clear := by
        simp [Traced.step, Api.step, Api.received, Api.invalidates, hcleared]
      rw [hstep]
      exact hs.clear
  | false =>
      have hstep : s.step (.received mutating status) = s := by
        simp [Traced.step, Api.step, Api.received, Api.invalidates, hcleared]
      rw [hstep]
      exact hs

theorem later_of_sent {generation : ℕ} :
    (Request.mk path generation .sent).Later ⟨path, generation, phase⟩ :=
  ⟨rfl, rfl, nofun, fun _ => rfl⟩

theorem Sound.respond (hs : Sound s) (r status : ℕ) : Sound (s.step (.respond r status)) := by
  have hidle : ∀ {q : Request}, s.api.requests[r]? = some q → q.phase ≠ .sent →
      s.step (.respond r status) = s := by
    intro q hq hphase
    have hapi : s.api.respond r status = s.api := by
      obtain ⟨path, generation, phase⟩ := q
      unfold Api.respond
      rw [hq]
      cases phase with
      | sent => exact absurd rfl hphase
      | _ => rfl
    have hvalid : ∀ path, s.api.invalidates (.respond r status) path = false := by
      intro path
      simp [Api.invalidates, hq, hphase]
    rw [@step_of_valid s (.respond r status) hvalid nofun]
    simp only [Api.step, hapi]
  cases hq : s.api.requests[r]? with
  | none =>
      have hstep : s.step (.respond r status) = s := by
        simp [Traced.step, Api.step, Api.respond, Api.invalidates, hq]
      rw [hstep]
      exact hs
  | some q =>
      by_cases hphase : q.phase = .sent
      · obtain ⟨path, generation, phase⟩ := q
        obtain rfl : phase = .sent := hphase
        by_cases hstatus : status = 401
        · subst hstatus
          have hstep : s.step (.respond r 401) =
              { s.step .clear with api := s.api.clearApiReadCache.setPhase r (.responded 401) } := by
            simp [Traced.step, Api.step, Api.respond, Api.received, Api.invalidates, hq]
          rw [hstep]
          exact hs.clear.setPhase hq later_of_sent rfl
        · have hstep : s.step (.respond r status) =
              { s with
                api := s.api.setPhase r
                  (if status = 204 then .answered (.value {}) else .responded status) } := by
            simp [Traced.step, Api.step, Api.respond, Api.received, Api.invalidates, hq, hstatus]
          rw [hstep]
          have hrunning : (if status = 204 then Phase.answered (.value {})
              else .responded status).running := by
            split <;> rfl
          exact hs.setPhase hq later_of_sent hrunning
      · rw [hidle hq hphase]
        exact hs

theorem Sound.fail (hs : Sound s) (r : ℕ) : Sound (s.step (.fail r)) := by
  rw [@step_of_valid s (.fail r) (fun _ => rfl) nofun]
  simp only [Api.step, Api.fail]
  split
  · rename_i path generation hq
    exact hs.setPhase hq (later_of_sent) rfl
  · exact hs

theorem Sound.read (hs : Sound s) (r : ℕ) (body : Body) : Sound (s.step (.read r body)) := by
  rw [@step_of_valid s (.read r body) (fun _ => rfl) nofun]
  simp only [Api.step, Api.read]
  split
  · rename_i path generation status hq
    exact hs.setPhase hq ⟨rfl, rfl, nofun, fun _ => rfl⟩ rfl
  · exact hs

/-- A response of this generation is put into the cache. -/
theorem Registry.keep (h : Registry a moment) {generation : ℕ} {body : Body} {now : ℤ}
    (hq : a.requests[r]? = some ⟨path, generation, .answered (.value body)⟩)
    (hgeneration : generation = a.readGeneration) : Registry (a.keep path r body now) moment := by
  unfold Api.keep
  split
  · rename_i endMs hend
    split
    · refine h.cache fun path' entry hentry => ?_
      rw [Dictionary.get?_set] at hentry
      split at hentry
      · rename_i hpath
        subst hpath
        obtain rfl := Option.some.inj hentry
        have hfresh := (h.generation r _ hq).2 hgeneration
        have hpending := h.joined r _ hq rfl hfresh
        refine .inr ⟨⟨_, hq, rfl, rfl⟩, hfresh, fun i hi => ?_, endMs, hend, rfl⟩
        exact Option.some.inj (hi.symm.trans hpending)
      · exact .inl (Dictionary.get?_of_evict hentry)
    · exact h
  · exact h

theorem keep_same (a : Api) (path : String) (r : ℕ) (body : Body) (now : ℤ) :
    (a.keep path r body now).requests = a.requests ∧
      (a.keep path r body now).aborted = a.aborted ∧
      (a.keep path r body now).subscribers = a.subscribers := by
  unfold Api.keep
  repeat' split
  all_goals exact ⟨rfl, rfl, rfl⟩

theorem Sound.handle (hs : Sound s) (r : ℕ) (now : ℤ) : Sound (s.step (.handle r now)) := by
  rw [@step_of_valid s (.handle r now) (fun _ => rfl) nofun]
  simp only [Api.step, Api.handle]
  split
  · rename_i path generation body hq
    have hlater : (Request.mk path generation (.answered (.value body))).Later
        ⟨path, generation, .handled (.value body)⟩ := ⟨rfl, rfl, fun _ h => h, fun _ => rfl⟩
    split
    · rename_i hkeep
      obtain ⟨hrequests, haborted, hsubs⟩ := keep_same s.api path r body now
      have hkept := hs.api (hs.registry.keep hq hkeep.1) (.of_eq hrequests) haborted hsubs
      exact hkept.setPhase (hrequests ▸ hq) hlater rfl
    · exact hs.setPhase hq hlater rfl
  · rename_i path generation failure hq
    exact hs.setPhase hq ⟨rfl, rfl, fun _ h => h, fun _ => rfl⟩ rfl
  · exact hs

theorem Sound.finish (hs : Sound s) (r : ℕ) : Sound (s.step (.finish r)) := by
  rw [@step_of_valid s (.finish r) (fun _ => rfl) (by simp)]
  simp only [Api.step, Api.finish]
  split
  · rename_i path generation answer hq
    have hlater : (Request.mk path generation (.handled answer)).Later
        ⟨path, generation, .finished answer⟩ := ⟨rfl, rfl, fun _ h => h, fun _ => rfl⟩
    refine hs.api (hs.registry.advance hq hlater fun path' i => ?_) ?_ rfl rfl
    · -- the request is in no other place than that of its path
      have hplace : s.api.pendingReads.get? path' = some r → path' = path := by
        intro hpending
        obtain ⟨q, hq', hpath, -⟩ := hs.registry.pending path' r hpending
        obtain rfl := Option.some.inj (hq.symm.trans hq')
        exact hpath.symm
      have hrunning : ¬ (Phase.finished answer).running = true := Bool.false_ne_true
      by_cases hpending : s.api.pendingReads.get? path = some r
      · rw [if_pos hpending, Dictionary.get?_delete]
        by_cases hpath : path' = path
        · subst hpath
          simp [hpending, hrunning, eq_comm]
        · rw [if_neg hpath]
          refine ⟨fun hi => ⟨hi, ?_⟩, And.left⟩
          rintro rfl
          exact absurd (hplace hi) hpath
      · rw [if_neg hpending]
        refine ⟨fun hi => ⟨hi, ?_⟩, And.left⟩
        rintro rfl
        exact absurd (hplace hi ▸ hi) hpending
    · exact grows_setPhase hq hlater
  · exact hs

/-! ### Calls -/

variable {signal : Option ℕ} {now : ℤ}

theorem explained_of_pending (h : sub.outcome = .pending) : sub.Explained a :=
  ⟨fun _ hresolved => (by cases h.symm.trans hresolved), fun haborted => (by cases h.symm.trans haborted)⟩

/-- A call that is sound with what it waits for. -/
theorem Sound.subscribe (hs : Sound s) (sub : Subscriber) (hregistry : Registry a' s.moment)
    (hgrows : Grows s.api a')
    (haborted : a'.aborted = s.api.aborted) (hsubs : a'.subscribers = s.api.subscribers ++ [sub])
    (hrequest : ∀ r, sub.request = some r →
      s.moment sub.path ≤ r ∧ ∃ q, a'.requests[r]? = some q ∧ q.path = sub.path)
    (hcached : ∀ body, sub.cached = some body → ∃ r q, sub.request = some r ∧
      a'.requests[r]? = some q ∧ q.phase.answer? = some (.value body))
    (hexplained : sub.Explained a')
    (hjoins : ∀ r r', s.api.pendingReads.get? sub.path = some r → sub.request = some r' → r' = r) :
    Sound { s with api := a', marks := s.marks ++ [⟨s.moment sub.path, s.invalidations sub.path⟩] } := by
  refine ⟨hregistry, hs.callers.subscribe
    ⟨hgrows, haborted ▸ List.Subset.refl _, fun _ => .inl ⟨rfl, rfl⟩⟩ rfl hsubs ?_ ?_⟩
  · exact ⟨Nat.le_refl _, fun _ => rfl, hrequest, hcached, hexplained⟩
  · intro r r' q hq hpath hrunning hmoment
    exact hjoins r r' (hpath ▸ hs.registry.joined r q hq hrunning (hpath ▸ hmoment))

theorem Sound.get (hs : Sound s) (path : String) (signal : Option ℕ) (now : ℤ) :
    Sound (s.step (.get path signal now)) := by
  have hstep : s.step (.get path signal now) = { s with
      api := s.api.get path signal now
      marks := s.marks ++ [⟨s.moment path, s.invalidations path⟩] } := by
    simp [Traced.step, Api.step, Api.invalidates]
  rw [hstep]
  unfold Api.get
  split
  · rename_i hsignal
    refine hs.subscribe { path, signal, request := none, outcome := .aborted }
      (hs.registry.frame _ _) (.of_eq rfl) rfl rfl nofun nofun ⟨nofun, fun _ => ?_⟩ nofun
    obtain ⟨a, ha, hmem⟩ := (Option.any_eq_true ..).mp hsignal
    exact ⟨a, ha, of_decide_eq_true hmem⟩
  · split
    · rename_i entry hentry
      have hcached := hs.registry.cached path entry (Option.filter_eq_some_iff.mp hentry).1
      obtain ⟨q, hq, hpath, hanswer⟩ := hcached.request
      refine hs.subscribe
        { path, signal, request := some entry.request, cached := some entry.value }
        (hs.registry.frame _ _) (.of_eq rfl) rfl rfl ?_ ?_ (explained_of_pending rfl) ?_
      · rintro _ ⟨⟩
        exact ⟨hcached.fresh, q, hq, hpath⟩
      · rintro _ ⟨⟩
        exact ⟨_, q, rfl, hq, hanswer⟩
      · rintro r _ hr ⟨⟩
        exact (hcached.alone r hr).symm
    · have hforgotten : Registry { s.api with historyCache := s.api.historyCache.delete path } s.moment :=
        hs.registry.cache fun _ _ hentry => .inl (Dictionary.get?_of_delete hentry).2
      unfold Api.request
      split
      · rename_i r hr
        obtain ⟨q, hq, hpath, -, hmoment⟩ := hs.registry.pending path r hr
        refine hs.subscribe { path, signal, request := some r } (hforgotten.frame _ _)
          (.of_eq rfl) rfl rfl ?_ nofun (explained_of_pending rfl) ?_
        · rintro _ ⟨⟩
          exact ⟨hmoment, q, hq, hpath⟩
        · rintro r' _ hr' ⟨⟩
          exact Option.some.inj (hr.symm.trans hr')
      · rename_i hnone
        have hsent := hforgotten.send hnone (by rw [Dictionary.get?_delete, if_pos rfl])
        refine hs.subscribe { path, signal, request := some s.api.requests.length }
          (hsent.frame _ _) (fun r q hq => ⟨q, ?_, .refl q⟩) rfl rfl ?_ nofun (explained_of_pending rfl) ?_
        · exact (List.getElem?_append_left (List.getElem?_eq_some_iff.mp hq).1).trans hq
        · rintro _ ⟨⟩
          exact ⟨hs.registry.moment path, _, List.getElem?_concat_length, rfl⟩
        · intro r _ hr
          cases hnone.symm.trans hr

theorem Sound.abort (hs : Sound s) (signal : ℕ) : Sound (s.step (.abort signal)) := by
  rw [@step_of_valid s (.abort signal) (fun _ => rfl) nofun]
  refine ⟨hs.registry.frame _ _, hs.callers.mono
    ⟨.of_eq rfl, List.subset_cons_self _ _, fun _ => .inl ⟨rfl, rfl⟩⟩ rfl (List.length_map _)
    fun k sub' hsub' => ?_⟩
  simp only [Api.step, Api.abort, List.getElem?_map, Option.map_eq_some_iff] at hsub'
  obtain ⟨sub, hsub, rfl⟩ := hsub'
  refine ⟨sub, hsub, ?_, ?_⟩ <;> unfold Subscriber.abort
  · split <;> rfl
  · split
    · rename_i haborted
      exact .inr ⟨nofun, fun _ => ⟨signal, haborted.1, List.mem_cons_self⟩⟩
    · exact .inl rfl

/-- What a subscriber is about to learn is the response of its request. -/
theorem Called.due (h : Called s sub mark) {answer : Answer} (hdue : s.api.due sub = some answer) :
    ∃ r q, sub.request = some r ∧ s.api.requests[r]? = some q ∧ q.phase.answer? = some answer := by
  unfold Api.due at hdue
  split at hdue
  · cases hdue
  · rename_i body hr hbody
    obtain rfl := Option.some.inj hdue
    exact h.cached body hbody
  · rename_i r hr hnone
    split at hdue
    · rename_i path generation answer' hq
      obtain rfl := Option.some.inj hdue
      exact ⟨r, _, hr, hq, rfl⟩
    · cases hdue

theorem settle_eq (a : Api) (sub : Subscriber) :
    a.settle sub = { sub with outcome := (a.settle sub).outcome } := by
  unfold Api.settle
  repeat' split
  all_goals rfl

theorem Called.settle (h : Called s sub mark) : (s.api.settle sub).Explained s.api := by
  unfold Api.settle
  split
  · rename_i body hpending hdue
    split
    · exact h.explained
    · refine ⟨?_, nofun⟩
      rintro _ ⟨⟩
      exact h.due hdue
  · exact ⟨nofun, nofun⟩
  · exact h.explained

theorem Sound.deliver (hs : Sound s) (k : ℕ) : Sound (s.step (.deliver k)) := by
  rw [@step_of_valid s (.deliver k) (fun _ => rfl) nofun]
  refine ⟨hs.registry.frame _ _, hs.callers.mono
    ⟨.of_eq rfl, List.Subset.refl _, fun _ => .inl ⟨rfl, rfl⟩⟩ rfl (List.length_modify ..)
    fun j sub' hsub' => ?_⟩
  simp only [Api.step, Api.deliver, List.getElem?_modify, Option.map_eq_map, Option.map_eq_some_iff] at hsub'
  obtain ⟨sub, hsub, rfl⟩ := hsub'
  refine ⟨sub, hsub, ?_, ?_⟩
  · split
    · exact settle_eq s.api sub
    · rfl
  · split
    · obtain ⟨mark, hmark, hcalled⟩ := hs.callers.marked hsub
      exact .inr ⟨hcalled.settle.resolved, hcalled.settle.aborted⟩
    · exact .inl rfl

/-! ### Runs -/

theorem Sound.step (hs : Sound s) (input : Input) : Sound (s.step input) := by
  cases input with
  | get path signal now => exact hs.get path signal now
  | abort signal => exact hs.abort signal
  | clear => exact hs.clear
  | invalidate accountId => exact hs.invalidateAccount accountId
  | mutate => exact hs.clear
  | received mutating status => exact hs.received mutating status
  | respond r status => exact hs.respond r status
  | fail r => exact hs.fail r
  | read r body => exact hs.read r body
  | handle r now => exact hs.handle r now
  | finish r => exact hs.finish r
  | deliver k => exact hs.deliver k

theorem Sound.served (hs : Sound s) (input : Input) : Served s input := by
  rintro path signal now rfl
  change ∃ sub, (s.api.get path signal now).subscribers = _ ∧ _
  unfold Api.get
  split
  · rename_i hsignal
    exact ⟨_, rfl, rfl, rfl, fun _ => hsignal, nofun⟩
  · split
    · rename_i entry hentry
      obtain ⟨hfound, hexpires⟩ := Option.filter_eq_some_iff.mp hentry
      obtain ⟨endMs, hend, hexpiresAt⟩ := (hs.registry.cached path entry hfound).expiresAt
      refine ⟨_, rfl, rfl, rfl, nofun, ?_⟩
      rintro _ ⟨⟩
      exact ⟨endMs, hend, hexpiresAt ▸ of_decide_eq_true hexpires⟩
    · unfold Api.request
      split
      · exact ⟨_, rfl, rfl, rfl, nofun, nofun⟩
      · exact ⟨_, rfl, rfl, rfl, nofun, nofun⟩

/-! ### Aborts -/

/-- Requests and reads are the same whoever waits for them. -/
theorem step_frame (a : Api) (subscribers : List Subscriber) (aborted : List ℕ) {input : Input}
    (hget : ∀ path signal now, input ≠ .get path signal now) (habort : ∀ signal, input ≠ .abort signal)
    (hdeliver : ∀ k, input ≠ .deliver k) :
    ({ a with subscribers, aborted } : Api).step input = { a.step input with subscribers, aborted } := by
  cases input with
  | get path signal now => exact absurd rfl (hget path signal now)
  | abort signal => exact absurd rfl (habort signal)
  | deliver k => exact absurd rfl (hdeliver k)
  | clear => rfl
  | invalidate accountId => rfl
  | mutate => rfl
  | received mutating status =>
      simp only [Api.step, Api.received]
      split <;> rfl
  | respond r status =>
      simp only [Api.step, Api.respond, Api.received]
      repeat' split
      all_goals rfl
  | fail r =>
      simp only [Api.step, Api.fail]
      split <;> rfl
  | read r body =>
      simp only [Api.step, Api.read]
      split <;> rfl
  | handle r now =>
      simp only [Api.step, Api.handle, Api.keep]
      repeat' split
      all_goals rfl
  | finish r =>
      simp only [Api.step, Api.finish]
      repeat' split
      all_goals rfl

theorem get_frame (a : Api) (subscribers : List Subscriber) (aborted : List ℕ) (path : String)
    {signal : Option ℕ} (now : ℤ) (hsignal : signal.any (· ∈ aborted) = signal.any (· ∈ a.aborted)) :
    ∃ sub, (a.get path signal now).subscribers = a.subscribers ++ [sub] ∧
      ({ a with subscribers, aborted } : Api).get path signal now =
        { a.get path signal now with subscribers := subscribers ++ [sub], aborted } := by
  unfold Api.get
  dsimp only
  rw [hsignal]
  split
  · exact ⟨_, rfl, rfl⟩
  · unfold Api.cached
    dsimp only
    split
    · exact ⟨_, rfl, rfl⟩
    · unfold Api.request
      dsimp only
      split <;> exact ⟨_, rfl, rfl⟩

variable {aborted : ℕ} {b b' : Api}

theorem Alike.settle (h : Alike aborted b b') {sub : Subscriber} (hsub : sub.signal ≠ some aborted) :
    b'.settle sub = b.settle sub := by
  have hdue : b'.due sub = b.due sub := by
    rw [h.reads]
    rfl
  have hany : sub.signal.any (· ∈ b'.aborted) = sub.signal.any (· ∈ b.aborted) := by
    cases hsignal : sub.signal with
    | none => rfl
    | some other =>
        rw [Option.any_some, Option.any_some, decide_eq_decide]
        exact h.signals other fun heq => hsub (heq ▸ hsignal)
  unfold Api.settle
  rw [hdue, hany]

/-- The subscribers are changed one by one, those of other signals alike. -/
theorem Alike.map (h : Alike aborted b b') {c c' : Api} {f f' : ℕ → Subscriber → Subscriber}
    (hreads : c' = { c with subscribers := c'.subscribers, aborted := c'.aborted })
    (hsignals : ∀ other, other ≠ aborted → (other ∈ c'.aborted ↔ other ∈ c.aborted))
    (hf : ∀ k, c.subscribers[k]? = (b.subscribers[k]?).map (f k))
    (hf' : ∀ k, c'.subscribers[k]? = (b'.subscribers[k]?).map (f' k))
    (hsignal : ∀ k sub, (f k sub).signal = sub.signal)
    (hsame : ∀ k sub, sub.signal ≠ some aborted → f' k sub = f k sub) : Alike aborted c c' := by
  refine ⟨hreads, hsignals, ?_, fun k sub hsub hother => ?_⟩
  · have hlength : ∀ {l l' : List Subscriber} {g : ℕ → Subscriber → Subscriber},
        (∀ k, l[k]? = (l'[k]?).map (g k)) → l.length = l'.length := by
      intro l l' g hl
      apply Nat.le_antisymm
      · have hnone := hl l'.length
        rw [List.getElem?_eq_none (Nat.le_refl _)] at hnone
        exact List.getElem?_eq_none_iff.mp hnone
      · have hnone := hl l.length
        rw [List.getElem?_eq_none (Nat.le_refl _)] at hnone
        exact List.getElem?_eq_none_iff.mp (Option.map_eq_none_iff.mp hnone.symm)
    rw [hlength hf, hlength hf', h.subscribers.1]
  · rw [hf, Option.map_eq_some_iff] at hsub
    obtain ⟨old, hold, rfl⟩ := hsub
    rw [hsignal] at hother
    rw [hf', h.subscribers.2 k old hold hother, Option.map_some, hsame k old hother]

theorem Alike.step (h : Alike aborted b b') {input : Input}
    (hget : ∀ path now, input ≠ .get path (some aborted) now) :
    Alike aborted (b.step input) (b'.step input) := by
  have hframe : (∀ path signal now, input ≠ .get path signal now) → (∀ signal, input ≠ .abort signal) →
      (∀ k, input ≠ .deliver k) → Alike aborted (b.step input) (b'.step input) := by
    intro hget habort hdeliver
    have hstep := step_frame b b'.subscribers b'.aborted hget habort hdeliver
    have hkept := step_frame b b.subscribers b.aborted hget habort hdeliver
    rw [← h.reads] at hstep
    rw [hstep]
    rw [show ({ b with subscribers := b.subscribers, aborted := b.aborted } : Api) = b from rfl] at hkept
    rw [hkept]
    exact ⟨rfl, h.signals, h.subscribers⟩
  cases input with
  | get path signal now =>
      have hsignal : signal.any (· ∈ b'.aborted) = signal.any (· ∈ b.aborted) := by
        cases signal with
        | none => rfl
        | some other =>
            rw [Option.any_some, Option.any_some, decide_eq_decide]
            exact h.signals other fun heq => hget path now (heq ▸ rfl)
      obtain ⟨sub, hsubs, hstep⟩ := get_frame b b'.subscribers b'.aborted path now hsignal
      obtain ⟨_, -, hkept⟩ := @get_frame b b.subscribers b.aborted path signal now rfl
      rw [← h.reads] at hstep
      change Alike aborted (b.get path signal now) (b'.get path signal now)
      have haborted : (b.get path signal now).aborted = b.aborted := by
        have hsame := congrArg Api.aborted hkept
        exact hsame
      rw [hstep]
      refine ⟨rfl, fun other hother => ?_, ?_, fun k sub' hsub' hother => ?_⟩
      · rw [haborted]
        exact h.signals other hother
      · rw [hsubs, List.length_append, List.length_append, h.subscribers.1]
      · rw [hsubs] at hsub'
        change (b'.subscribers ++ [sub])[k]? = some sub'
        rcases Nat.lt_or_ge k b.subscribers.length with hlt | hge
        · rw [List.getElem?_append_left hlt] at hsub'
          rw [List.getElem?_append_left (h.subscribers.1 ▸ hlt)]
          exact h.subscribers.2 k sub' hsub' hother
        · rw [List.getElem?_append_right hge] at hsub'
          rw [List.getElem?_append_right (h.subscribers.1 ▸ hge), ← h.subscribers.1]
          exact hsub'
  | abort signal =>
      have hmap : ∀ sub, (Subscriber.abort signal sub).signal = sub.signal := by
        intro sub
        unfold Subscriber.abort
        split <;> rfl
      refine @Alike.map _ _ _ h _ _ (fun _ => Subscriber.abort signal) (fun _ => Subscriber.abort signal)
        ?_ ?_ (fun k => List.getElem?_map ..) (fun k => List.getElem?_map ..) (fun _ => hmap)
        fun _ _ _ => rfl
      · simp only [Api.step, Api.abort]
        rw [h.reads]
      · intro other hother
        simp only [Api.step, Api.abort, List.mem_cons, h.signals other hother]
  | deliver k =>
      have hsettle : ∀ (a : Api) (j : ℕ), (a.step (.deliver k)).subscribers[j]? =
          (a.subscribers[j]?).map fun sub => if k = j then a.settle sub else sub := by
        intro a j
        exact List.getElem?_modify ..
      refine @Alike.map _ _ _ h _ _ _ _ ?_ h.signals (hsettle b) (hsettle b') ?_ ?_
      · simp only [Api.step, Api.deliver]
        rw [h.reads]
      · intro j sub
        split
        · rw [settle_eq]
        · rfl
      · intro j sub hsub
        rw [h.settle hsub]
  | _ => exact hframe nofun nofun nofun

theorem Alike.run (h : Alike aborted b b') {inputs : List Input}
    (hget : ∀ path now, .get path (some aborted) now ∉ inputs) :
    Alike aborted (run Api.step b inputs) (run Api.step b' inputs) := by
  induction inputs generalizing b b' with
  | nil => exact h
  | cons input inputs ih =>
      refine ih (h.step fun path now heq => hget path now ?_) fun path now hmem => hget path now ?_
      · exact heq ▸ List.mem_cons_self
      · exact List.mem_cons_of_mem _ hmem

theorem alike_abort (a : Api) (signal : ℕ) : Alike signal a (a.abort signal) := by
  refine ⟨rfl, fun other hother => ?_, (List.length_map _).symm, fun k sub hsub hother => ?_⟩
  · simp [Api.abort, hother]
  · simp [Api.abort, hsub, Subscriber.abort, hother]

/-- No subscriber of an aborted signal is left waiting. -/
def Api.Settled (a : Api) : Prop :=
  ∀ sub ∈ a.subscribers, ∀ signal, sub.signal = some signal → signal ∈ a.aborted →
    sub.outcome ≠ .pending

theorem settle_outcome (h : sub.outcome ≠ .pending) : a.settle sub = sub := by
  unfold Api.settle
  split
  · rename_i hpending _
    exact absurd hpending h
  · rename_i hpending _
    exact absurd hpending h
  · rfl

theorem Api.Settled.step (h : a.Settled) (input : Input) : (a.step input).Settled := by
  have hframe : (∀ path signal now, input ≠ .get path signal now) → (∀ signal, input ≠ .abort signal) →
      (∀ k, input ≠ .deliver k) → (a.step input).Settled := by
    intro hget habort hdeliver
    have hkept := @step_frame a a.subscribers a.aborted input hget habort hdeliver
    unfold Api.Settled
    rw [show a.step input = _ from hkept]
    exact h
  cases input with
  | get path signal now =>
      change (a.get path signal now).Settled
      have hwaits : ∀ {c : Api} {sub : Subscriber}, c.subscribers = a.subscribers → c.aborted = a.aborted →
          (∀ signal, sub.signal = some signal → signal ∈ a.aborted → sub.outcome ≠ .pending) →
          (c.subscribe sub).Settled := by
        intro c sub hsubs haborted hnew sub' hsub' signal hsignal hmem
        rw [show (c.subscribe sub).subscribers = a.subscribers ++ [sub] from by rw [← hsubs]; rfl] at hsub'
        rw [show (c.subscribe sub).aborted = a.aborted from haborted] at hmem
        rcases List.mem_append.mp hsub' with hold | hlast
        · exact h sub' hold signal hsignal hmem
        · rw [List.mem_singleton.mp hlast] at hsignal ⊢
          exact hnew signal hsignal hmem
      unfold Api.get
      split
      · exact hwaits rfl rfl fun _ _ _ => nofun
      · rename_i hsignal
        have hnever : ∀ other, signal = some other → other ∈ a.aborted → False := by
          rintro other rfl hmem
          simp [hmem] at hsignal
        split
        · exact hwaits rfl rfl fun other hother hmem => (hnever other hother hmem).elim
        · unfold Api.request
          split <;> exact hwaits rfl rfl fun other hother hmem => (hnever other hother hmem).elim
  | abort signal =>
      intro sub' hsub' other hother hmem
      obtain ⟨sub, hsub, rfl⟩ := List.mem_map.mp hsub'
      unfold Subscriber.abort at hother ⊢
      split
      · exact nofun
      · rename_i hkept
        rw [if_neg hkept] at hother
        rcases List.mem_cons.mp hmem with rfl | hmem
        · exact fun hpending => hkept ⟨hother, hpending⟩
        · exact h sub hsub other hother hmem
  | deliver k =>
      intro sub' hsub' other hother hmem
      obtain ⟨j, hj⟩ := List.mem_iff_getElem?.mp hsub'
      simp only [Api.step, Api.deliver, List.getElem?_modify, Option.map_eq_map,
        Option.map_eq_some_iff] at hj
      obtain ⟨sub, hsub, rfl⟩ := hj
      have hsignal : (if k = j then a.settle sub else sub).signal = sub.signal := by
        split
        · rw [settle_eq]
        · rfl
      have hold := h sub (List.mem_of_getElem? hsub) other (hsignal ▸ hother) hmem
      split
      · rw [settle_outcome hold]
        exact hold
      · exact hold
  | _ => exact hframe nofun nofun nofun

theorem Sound.lawful (hs : Sound s) (hsettled : s.api.Settled) : Lawful s := by
  refine ⟨fun k sub body hsub hbody => ?_, hs.callers.shared, fun k sub hsub habort => ?_, hsettled⟩
  · obtain ⟨mark, hmark, hcalled⟩ := hs.callers.marked hsub
    obtain ⟨r, q, hr, hq, hanswer⟩ := hcalled.explained.resolved body hbody
    obtain ⟨hle, q', hq', hpath⟩ := hcalled.request r hr
    obtain rfl := Option.some.inj (hq.symm.trans hq')
    exact ⟨r, q, mark, hr, hq, hpath, hanswer, hmark, hle⟩
  · obtain ⟨mark, hmark, hcalled⟩ := hs.callers.marked hsub
    exact hcalled.explained.aborted habort

/-- Callers share requests and responses, but never across an invalidation, and a subscriber that
leaves takes nothing away from the others, in all that follows. -/
theorem reads_lawful (inputs : List Input) :
    Along Traced.step Lawful {} inputs ∧ Meets Traced.step Served {} inputs ∧
      ∀ past signal future, (∀ path now, .get path (some signal) now ∉ future) →
        Alike signal (run Api.step {} (past ++ future))
          (run Api.step {} (past ++ .abort signal :: future)) := by
  refine ⟨?_, ?_, ?_⟩
  · have hrun := @along_of_invariant _ _ Traced.step (fun s => Sound s ∧ s.api.Settled)
      (fun _ input hs => ⟨hs.1.step input, hs.2.step input⟩) {}
      ⟨sound_start, fun _ hsub => absurd hsub List.not_mem_nil⟩ inputs
    exact hrun.mono fun _ hs => hs.1.lawful hs.2
  · exact meets_of_preserved (fun _ input hs _ => ⟨hs.step input, hs.served input⟩) sound_start meets_true
  · intro past signal future hget
    rw [run_append, run_append, run_cons]
    exact (alike_abort _ signal).run hget

end AfkClient.ApiReads
