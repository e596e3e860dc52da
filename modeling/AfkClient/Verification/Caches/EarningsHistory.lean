import AfkClient.Library.Run
import AfkClient.Model.EarningsHistory
import Mathlib.Logic.Function.Basic

/-! The cache of earnings over every order of calls, sales, prunes and failures. -/

namespace AfkClient.EarningsHistory

/-! ### Keys -/

theorem text_eq_of_suffix {range range' : EarningsRange} {front front' : List Char}
    (h : front ++ ':' :: range.text.toList = front' ++ ':' :: range'.text.toList) : range = range' := by
  have hreverse := congrArg List.reverse h
  cases range <;> cases range' <;> simp [EarningsRange.text] at hreverse ⊢

theorem key_injective {id id' : String} {range range' : EarningsRange}
    (h : key id range = key id' range') : id = id' ∧ range = range' := by
  have hlist := congrArg String.toList h
  simp only [key, String.toList_append, List.append_assoc] at hlist
  obtain rfl : range = range' := text_eq_of_suffix hlist
  exact ⟨String.toList_inj.mp (List.append_cancel_right hlist), rfl⟩

/-! ### Laws -/

/-- The cache beside the sales that were committed. -/
structure Traced where
  cache : Cache := {}
  /-- How many queries had been started when a sale of the account was committed last. -/
  committed : String → ℕ := fun _ => 0
  /-- Likewise, for the sales whose listener was told. -/
  told : String → ℕ := fun _ => 0
  /-- The queries whose rejection was handled. -/
  handled : List ℕ := []

def Traced.step (s : Traced) (input : Input) : Traced where
  cache := s.cache.step input
  committed :=
    match input with
    | .committed id => Function.update s.committed id s.cache.queries.length
    | _ => s.committed
  told :=
    match input with
    | .invalidate id => Function.update s.told id (s.committed id)
    | _ => s.told
  handled :=
    match input with
    | .rejected data => if data < s.cache.queries.length then data :: s.handled else s.handled
    | _ => s.handled

/-- The promise `data` is fit for a caller who asks now. -/
structure Fit (s : Traced) (id : String) (range : EarningsRange) (now : ℤ) (data : ℕ) (q : Query) :
    Prop where
  query : s.cache.queries[data]? = some q
  key : q.id = id ∧ q.range = range
  interval : q.interval = (Query.mk id range now).interval
  completed : q.interval.2 ≤ now
  /-- The query was started after every sale whose listener was told. -/
  fresh : s.told id ≤ data
  unhandled : data ∉ s.handled

/-- A call returns the promise of a query that is fit for it: an earlier one of the cache, or the
one that the call itself has started. -/
def Served (s : Traced) (input : Input) : Prop :=
  ∀ id range now clock, input = .get id range now clock →
    ∃ q, Fit (s.step input) id range now (s.cache.getEarningsHistory id range now clock).2 q

def Bounded (s : Traced) : Prop := s.cache.historyCache.size ≤ MAX_HISTORY_CACHE_ENTRIES

/-! ### The entries -/

/-- An entry is that of a query of its key, and no reason has come up to delete it. -/
structure Current (s : Traced) (id : String) (range : EarningsRange) (entry : Entry) : Prop where
  query : ∃ now, s.cache.queries[entry.data]? = some ⟨id, range, now⟩ ∧ entry.endAt = endOf range now
  fresh : s.told id ≤ entry.data
  unhandled : entry.data ∉ s.handled

structure Sound (s : Traced) : Prop where
  current : ∀ id range entry, s.cache.historyCache.get? (key id range) = some entry →
    Current s id range entry
  bounded : Bounded s
  committed : ∀ id, s.committed id ≤ s.cache.queries.length
  told : ∀ id, s.told id ≤ s.committed id
  /-- Only a query that was started is rejected. -/
  started : ∀ data ∈ s.handled, data < s.cache.queries.length

variable {s : Traced}

theorem sound_start : Sound {} where
  current _ _ _ h := by simp at h
  bounded := Nat.zero_le _
  committed _ := le_rfl
  told _ := le_rfl
  started := nofun

/-- Where the queries, the listeners and the handlers stay as they are, so does an entry. -/
theorem Current.mono {s' : Traced} {id : String} {range : EarningsRange} {entry : Entry}
    (h : Current s id range entry) (hqueries : s.cache.queries <+: s'.cache.queries)
    (htold : s'.told id = s.told id) (hhandled : s'.handled = s.handled) :
    Current s' id range entry := by
  obtain ⟨now, hquery, hend⟩ := h.query
  refine ⟨⟨now, ?_, hend⟩, htold ▸ h.fresh, hhandled ▸ h.unhandled⟩
  obtain ⟨more, hmore⟩ := hqueries
  rw [← hmore, List.getElem?_append_left (List.getElem?_eq_some_iff.mp hquery).1, hquery]

/-! ### Calls -/

variable {id : String} {range : EarningsRange} {now clock : ℤ}

theorem endOf_le (range : EarningsRange) (now : ℤ) : endOf range now ≤ now :=
  Int.ediv_mul_le now (by cases range <;> decide)

/-- A call finds an entry of the interval that is not over, or starts a query. -/
theorem getEarningsHistory_cases (c : Cache) (id : String) (range : EarningsRange) (now clock : ℤ) :
    (∃ entry, c.historyCache.get? (key id range) = some entry ∧ entry.endAt = endOf range now ∧
        c.getEarningsHistory id range now clock = (c, entry.data)) ∨
      c.getEarningsHistory id range now clock = (c.refill id range now clock, c.queries.length) := by
  unfold Cache.getEarningsHistory
  split
  · rename_i entry hentry
    split
    · rename_i hvalid
      exact .inl ⟨entry, hentry, hvalid.1, rfl⟩
    · exact .inr rfl
  · exact .inr rfl

theorem size_refill {c : Cache} (h : c.historyCache.size ≤ MAX_HISTORY_CACHE_ENTRIES) :
    (c.refill id range now clock).historyCache.size ≤ MAX_HISTORY_CACHE_ENTRIES := by
  have hroom := Dictionary.size_evict (by decide)
    ((Dictionary.size_delete_le c.historyCache (key id range)).trans h)
  simp only [Cache.refill, Dictionary.size_set]
  split <;> omega

/-- Behind a new query, the cache holds its entry and some of those that it held before. -/
theorem get?_refill {c : Cache} {k : String} {entry : Entry}
    (h : (c.refill id range now clock).historyCache.get? k = some entry) :
    k = key id range ∧ entry.endAt = endOf range now ∧ entry.data = c.queries.length ∨
      c.historyCache.get? k = some entry := by
  simp only [Cache.refill, Dictionary.get?_set] at h
  split at h
  · rename_i hk
    obtain rfl := Option.some.inj h
    exact .inl ⟨hk, rfl, rfl⟩
  · exact .inr (Dictionary.get?_of_delete (Dictionary.get?_of_evict h)).2

theorem Sound.refill (hs : Sound s) {s' : Traced}
    (hcache : s'.cache = s.cache.refill id range now clock) (hcommitted : s'.committed = s.committed)
    (htold : s'.told = s.told) (hhandled : s'.handled = s.handled) : Sound s' := by
  have hqueries : s'.cache.queries = s.cache.queries ++ [⟨id, range, now⟩] := by rw [hcache]; rfl
  refine ⟨?_, ?_, ?_, ?_, ?_⟩
  · intro id' range' entry hentry
    rw [hcache] at hentry
    rcases get?_refill hentry with ⟨hkey, hend, hdata⟩ | hold
    · obtain ⟨rfl, rfl⟩ := key_injective hkey
      refine ⟨⟨now, ?_, hend⟩, ?_, ?_⟩
      · rw [hqueries, hdata, List.getElem?_concat_length]
      · rw [htold, hdata]
        exact (hs.told _).trans (hs.committed _)
      · rw [hhandled, hdata]
        exact fun hmem => absurd (hs.started _ hmem) (Nat.lt_irrefl _)
    · refine (hs.current id' range' entry hold).mono ?_ (by rw [htold]) hhandled
      exact hqueries ▸ List.prefix_append _ _
  · unfold Bounded
    rw [hcache]
    exact size_refill hs.bounded
  · intro id'
    rw [hcommitted, hqueries, List.length_append]
    exact Nat.le_add_right_of_le (hs.committed id')
  · rw [htold, hcommitted]
    exact hs.told
  · intro data hdata
    rw [hqueries, List.length_append]
    exact Nat.lt_add_right _ (hs.started data (hhandled ▸ hdata))

/-! ### Deletions -/

/-- An entry that is left after some were deleted. -/
theorem get?_foldl_delete {ranges : List EarningsRange} {cache : Dictionary String Entry} {k : String}
    {entry : Entry}
    (h : (ranges.foldl (fun cache range => cache.delete (key id range)) cache).get? k = some entry) :
    cache.get? k = some entry ∧ ∀ range ∈ ranges, k ≠ key id range := by
  induction ranges generalizing cache with
  | nil => exact ⟨h, nofun⟩
  | cons range ranges ih =>
      obtain ⟨hleft, hothers⟩ := ih h
      obtain ⟨hne, hkept⟩ := Dictionary.get?_of_delete hleft
      refine ⟨hkept, fun range' hrange' => ?_⟩
      rcases List.mem_cons.mp hrange' with rfl | hrange'
      · exact hne
      · exact hothers range' hrange'

theorem size_foldl_delete {ranges : List EarningsRange} {cache : Dictionary String Entry} :
    (ranges.foldl (fun cache range => cache.delete (key id range)) cache).size ≤ cache.size := by
  induction ranges generalizing cache with
  | nil => exact le_rfl
  | cons range ranges ih => exact ih.trans (Dictionary.size_delete_le cache _)

theorem Sound.invalidate (hs : Sound s) (id : String) : Sound (s.step (.invalidate id)) := by
  refine ⟨?_, size_foldl_delete.trans hs.bounded, hs.committed, ?_, hs.started⟩
  · intro id' range entry hentry
    obtain ⟨hkept, hothers⟩ := get?_foldl_delete hentry
    have hne : id' ≠ id := by
      rintro rfl
      exact hothers range (by cases range <;> decide) rfl
    refine (hs.current id' range entry hkept).mono (List.prefix_refl _) ?_ rfl
    exact Function.update_of_ne hne _ _
  · intro id'
    by_cases hid : id' = id
    · subst hid
      exact (Function.update_self ..).le
    · exact (Function.update_of_ne hid ..).le.trans (hs.told id')

/-- A query that was rejected is in no entry. -/
theorem caught_spec (hs : Sound s) {data : ℕ} {id : String} {range : EarningsRange} {entry : Entry}
    (hentry : (s.cache.caught data).historyCache.get? (key id range) = some entry) :
    s.cache.historyCache.get? (key id range) = some entry ∧
      (data < s.cache.queries.length → entry.data ≠ data) := by
  unfold Cache.caught at hentry
  split at hentry
  · rename_i q hq
    have hown : ∀ {id range entry}, s.cache.historyCache.get? (key id range) = some entry →
        entry.data = data → key id range = key q.id q.range := by
      intro id range entry hfound hdata
      obtain ⟨now, hquery, -⟩ := (hs.current id range entry hfound).query
      rw [hdata, hq] at hquery
      rw [Option.some.inj hquery]
    split at hentry
    · rename_i old hold
      split at hentry
      · rename_i hdata
        obtain ⟨hne, hkept⟩ := Dictionary.get?_of_delete hentry
        exact ⟨hkept, fun _ hsame => hne (hown hkept hsame)⟩
      · rename_i hdata
        refine ⟨hentry, fun _ hsame => hdata ?_⟩
        rw [hown hentry hsame, hold] at hentry
        rw [Option.some.inj hentry, hsame]
    · rename_i hnone
      refine ⟨hentry, fun _ hsame => ?_⟩
      rw [hown hentry hsame, hnone] at hentry
      cases hentry
  · rename_i hnone
    exact ⟨hentry, fun hlt => absurd (List.getElem?_eq_none_iff.mp hnone) (Nat.not_le_of_lt hlt)⟩

theorem caught_queries (c : Cache) (data : ℕ) : (c.caught data).queries = c.queries := by
  unfold Cache.caught
  repeat' split
  all_goals rfl

theorem size_caught (c : Cache) (data : ℕ) :
    (c.caught data).historyCache.size ≤ c.historyCache.size := by
  unfold Cache.caught
  repeat' split
  all_goals first
    | exact Dictionary.size_delete_le _ _
    | exact le_rfl

theorem Sound.rejected (hs : Sound s) (data : ℕ) : Sound (s.step (.rejected data)) := by
  have hqueries : (s.step (.rejected data)).cache.queries = s.cache.queries :=
    caught_queries s.cache data
  have hhandled : ∀ other, other ∈ (s.step (.rejected data)).handled →
      other ∈ s.handled ∨ other = data ∧ data < s.cache.queries.length := by
    intro other hother
    simp only [Traced.step] at hother
    split at hother
    · rename_i hlt
      rcases List.mem_cons.mp hother with rfl | hold
      · exact .inr ⟨rfl, hlt⟩
      · exact .inl hold
    · exact .inl hother
  refine ⟨?_, (size_caught s.cache data).trans hs.bounded, ?_, hs.told, ?_⟩
  · intro id range entry hentry
    obtain ⟨hold, hother⟩ := caught_spec hs hentry
    have hcurrent := hs.current id range entry hold
    refine ⟨hqueries ▸ hcurrent.query, hcurrent.fresh, fun hmem => ?_⟩
    rcases hhandled entry.data hmem with hmem | ⟨hsame, hlt⟩
    · exact hcurrent.unhandled hmem
    · exact hother hlt hsame
  · rw [hqueries]
    exact hs.committed
  · intro other hmem
    rw [hqueries]
    rcases hhandled other hmem with hmem | ⟨rfl, hlt⟩
    · exact hs.started other hmem
    · exact hlt

/-! ### Runs -/

theorem Sound.step (hs : Sound s) (input : Input) : Sound (s.step input) := by
  cases input with
  | get id range now clock =>
      have hcache : (s.step (.get id range now clock)).cache =
        (s.cache.getEarningsHistory id range now clock).1 := rfl
      rcases getEarningsHistory_cases s.cache id range now clock with ⟨entry, -, -, heq⟩ | heq
      · rw [heq] at hcache
        refine ⟨fun id' range' entry' h => ?_, ?_, ?_, hs.told, ?_⟩
        · rw [hcache] at h
          refine (hs.current id' range' entry' h).mono ?_ rfl rfl
          rw [hcache]
        · unfold Bounded
          rw [hcache]
          exact hs.bounded
        · rw [hcache]
          exact hs.committed
        · rw [hcache]
          exact hs.started
      · rw [heq] at hcache
        exact hs.refill hcache rfl rfl rfl
  | committed id =>
      refine ⟨fun id' range entry h => (hs.current id' range entry h).mono (List.prefix_refl _) rfl rfl,
        hs.bounded, fun id' => ?_, fun id' => ?_, hs.started⟩
      · by_cases hid : id' = id
        · subst hid
          exact (Function.update_self ..).le
        · exact (Function.update_of_ne hid ..).le.trans (hs.committed id')
      · by_cases hid : id' = id
        · subst hid
          refine ((hs.told id').trans (hs.committed id')).trans (Eq.ge ?_)
          exact Function.update_self id' s.cache.queries.length s.committed
        · exact (hs.told id').trans (Function.update_of_ne hid ..).ge
  | invalidate id => exact hs.invalidate id
  | prune =>
      refine ⟨fun _ _ _ h => ?_, Nat.zero_le _, hs.committed, hs.told, hs.started⟩
      cases (Dictionary.get?_empty _).symm.trans h
  | rejected data => exact hs.rejected data

theorem Sound.served (hs : Sound s) (input : Input) : Served s input := by
  rintro id range now clock rfl
  have hcache : (s.step (.get id range now clock)).cache =
    (s.cache.getEarningsHistory id range now clock).1 := rfl
  rcases getEarningsHistory_cases s.cache id range now clock with ⟨entry, hentry, hend, heq⟩ | heq
  · rw [heq] at hcache ⊢
    have hcurrent := hs.current id range entry hentry
    obtain ⟨now', hquery, hend'⟩ := hcurrent.query
    have hinterval : endOf range now' = endOf range now := hend'.symm.trans hend
    refine ⟨⟨id, range, now'⟩, by rw [hcache, hquery], ⟨rfl, rfl⟩, ?_, ?_, hcurrent.fresh,
      hcurrent.unhandled⟩
    · simp only [Query.interval, hinterval]
    · rw [Query.interval, hinterval]
      exact endOf_le range now
  · rw [heq] at hcache ⊢
    refine ⟨⟨id, range, now⟩, ?_, ⟨rfl, rfl⟩, rfl, endOf_le range now,
      (hs.told id).trans (hs.committed id), fun hmem => ?_⟩
    · rw [hcache]
      exact List.getElem?_concat_length
    · exact absurd (hs.started _ hmem) (Nat.lt_irrefl _)

/-- Every caller gets a query of the account and the interval that it has asked for, one that
knows all sales whose listener was told and has not failed so far. -/
theorem histories_served (inputs : List Input) :
    Meets Traced.step Served {} inputs ∧ Along Traced.step Bounded {} inputs :=
  ⟨meets_of_preserved (fun _ input hs _ => ⟨hs.step input, hs.served input⟩) sound_start meets_true,
    (along_of_invariant (fun _ input hs => hs.step input) sound_start inputs).mono fun _ hs => hs.bounded⟩

end AfkClient.EarningsHistory
