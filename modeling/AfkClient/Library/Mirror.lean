import Mathlib.Data.Set.Insert
import Mathlib.Logic.Function.Basic
import Mathlib.Order.Basic
import Mathlib.Data.Nat.Notation

/-! A registry that mirrors a table without locks. A task writes an entry, reads it back
and installs what it read; another kind of task uninstalls an entry and then deletes it.
Tasks interleave, so installs can be late. -/

namespace AfkClient

/-- What a task is going to do. -/
inductive MirrorTask (ι α : Type*) where
  | idle
  /-- It wrote an entry and is going to read it. -/
  | reading (i : ι)
  /-- It holds the value of its read, which had the number `n`, and is going to install it. -/
  | holding (i : ι) (a : α) (n : ℕ)
  /-- It uninstalled an entry and is going to delete it. -/
  | deleting (i : ι)

@[ext]
structure Mirror (ι α τ : Type*) where
  table : ι → Option α
  installed : ι → Option α
  tasks : τ → MirrorTask ι α
  /-- Entries that were uninstalled. -/
  uninstalled : Set ι
  /-- The number of the read installed last. -/
  last : ι → ℕ
  reads : ℕ

namespace Mirror

open Function (update)

variable {ι α τ : Type*} [DecidableEq ι] [DecidableEq τ]

/-- Everything a step can do. An install is in order: nothing newer was installed, and
the entry was not uninstalled. -/
inductive Step (s : Mirror ι α τ) : Mirror ι α τ → Prop where
  | skip : Step s s
  | write (k : τ) (i : ι) (a : α) (hk : s.tasks k = .idle)
      (hi : (s.table i).isSome ∨ i ∉ s.uninstalled) :
      Step s { s with table := update s.table i (some a), tasks := update s.tasks k (.reading i) }
  | read (k : τ) (i : ι) (a : α) (hk : s.tasks k = .reading i) (ha : s.table i = some a) :
      Step s { s with tasks := update s.tasks k (.holding i a (s.reads + 1)), reads := s.reads + 1 }
  | readNothing (k : τ) (i : ι) (hk : s.tasks k = .reading i) (ha : s.table i = none) (n : ℕ)
      (hn : s.reads ≤ n) :
      Step s { s with tasks := update s.tasks k .idle, reads := n }
  | install (k : τ) (i : ι) (a : α) (n : ℕ) (hk : s.tasks k = .holding i a n)
      (hi : i ∉ s.uninstalled) (hn : s.last i ≤ n) :
      Step s { s with
        installed := update s.installed i (some a), last := update s.last i n
        tasks := update s.tasks k .idle }
  | uninstall (k : τ) (i : ι) (hk : s.tasks k = .idle) :
      Step s { s with
        installed := update s.installed i none, uninstalled := insert i s.uninstalled
        tasks := update s.tasks k (.deleting i) }
  | delete (k : τ) (i : ι) (hk : s.tasks k = .deleting i) :
      Step s { s with table := update s.table i none, tasks := update s.tasks k .idle }

/-- The value `a` of the entry `i` was read with the number `n` and is installed or held. -/
inductive Source (s : Mirror ι α τ) (i : ι) (a : α) (n : ℕ) : Prop where
  | held (k : τ) (hk : s.tasks k = .holding i a n)
  | installed (ha : s.installed i = some a) (hn : s.last i = n)

/-- Where an entry is not in sync, a task is under way that will bring it there. -/
structure Ok (s : Mirror ι α τ) : Prop where
  installed : ∀ i a, s.installed i = some a → (s.table i).isSome ∧ i ∉ s.uninstalled
  deleting : ∀ k i, s.tasks k = .deleting i → i ∈ s.uninstalled
  uninstalled : ∀ i ∈ s.uninstalled, (s.table i).isSome → ∃ k, s.tasks k = .deleting i
  holding : ∀ k i a n, s.tasks k = .holding i a n →
    ((s.table i).isSome ∨ i ∈ s.uninstalled) ∧ n ≤ s.reads
  source : ∀ i a, s.table i = some a → i ∉ s.uninstalled →
    (∃ k, s.tasks k = .reading i) ∨
      ∃ n, s.Source i a n ∧ ∀ k b m, s.tasks k = .holding i b m → b ≠ a → m < n

/-! ### Tasks after a step -/

variable {s t : Mirror ι α τ} {k j : τ} {i : ι} {a : α} {x y : MirrorTask ι α}

omit [DecidableEq ι] in
theorem task_of_update (h : update s.tasks k x j = y) (hxy : x ≠ y) : j ≠ k ∧ s.tasks j = y := by
  by_cases hj : j = k
  · subst hj
    rw [Function.update_self] at h
    exact absurd h hxy
  · exact ⟨hj, by rwa [Function.update_of_ne hj] at h⟩

omit [DecidableEq ι] in
theorem task_kept (hj : s.tasks j = y) (hk : s.tasks k ≠ y) : update s.tasks k x j = y := by
  have hne : j ≠ k := by
    rintro rfl
    exact hk hj
  rw [Function.update_of_ne hne, hj]

omit [DecidableEq ι] [DecidableEq τ] in
/-- What an entry in need of a task still has after a step that touches another entry. -/
theorem Ok.source_kept (h : s.Ok) {b : α} (hb : s.table i = some b) (hi : i ∉ s.uninstalled)
    (hinstalled : t.installed i = s.installed i) (hlast : t.last i = s.last i)
    (htasks : ∀ k y, s.tasks k = y → (y = .reading i ∨ ∃ c n, y = .holding i c n) → t.tasks k = y)
    (hheld : ∀ k c n, t.tasks k = .holding i c n → s.tasks k = .holding i c n) :
    (∃ k, t.tasks k = .reading i) ∨
      ∃ n, t.Source i b n ∧ ∀ k c m, t.tasks k = .holding i c m → c ≠ b → m < n := by
  rcases h.source i b hb hi with ⟨k, hk⟩ | ⟨n, hsource, hstale⟩
  · exact .inl ⟨k, htasks k _ hk (.inl rfl)⟩
  · refine .inr ⟨n, ?_, fun k c m hk => hstale k c m (hheld k c m hk)⟩
    cases hsource with
    | held k hk => exact .held k (htasks k _ hk (.inr ⟨b, n, rfl⟩))
    | installed ha hn => exact .installed (hinstalled.trans ha) (hlast.trans hn)

/-! ### Every step keeps the entries on their way -/

theorem Ok.write (h : s.Ok) (hk : s.tasks k = .idle)
    (hi : (s.table i).isSome ∨ i ∉ s.uninstalled) :
    Ok { s with table := update s.table i (some a), tasks := update s.tasks k (.reading i) } := by
  have hsome {j : ι} (hj : (s.table j).isSome) : (update s.table i (some a) j).isSome := by
    by_cases hij : j = i
    · simp [hij]
    · rwa [Function.update_of_ne hij]
  constructor
  · intro j c hc
    exact ⟨hsome (h.installed j c hc).1, (h.installed j c hc).2⟩
  · intro l j hl
    exact h.deleting l j (task_of_update hl (by simp)).2
  · intro j hj hrow
    have hbefore : (s.table j).isSome := by
      by_cases hij : j = i
      · subst hij
        exact hi.resolve_right (not_not_intro hj)
      · simpa only [Function.update_of_ne hij] using hrow
    obtain ⟨l, hl⟩ := h.uninstalled j hj hbefore
    exact ⟨l, task_kept hl (by simp [hk])⟩
  · intro l j c n hl
    have hold := h.holding l j c n (task_of_update hl (by simp)).2
    exact ⟨hold.1.imp_left hsome, hold.2⟩
  · intro j c hc hj
    by_cases hij : j = i
    · subst hij
      exact .inl ⟨k, Function.update_self ..⟩
    · simp only [Function.update_of_ne hij] at hc
      refine h.source_kept hc hj rfl rfl (fun l y hl hy => task_kept hl ?_)
        fun l c n hl => (task_of_update hl (by simp)).2
      rcases hy with rfl | ⟨c, n, rfl⟩ <;> simp [hk]

theorem Ok.read (h : s.Ok) (hk : s.tasks k = .reading i) (ha : s.table i = some a) :
    Ok { s with tasks := update s.tasks k (.holding i a (s.reads + 1)), reads := s.reads + 1 } := by
  constructor
  · exact h.installed
  · intro l j hl
    exact h.deleting l j (task_of_update hl (by simp)).2
  · intro j hj hrow
    obtain ⟨l, hl⟩ := h.uninstalled j hj hrow
    exact ⟨l, task_kept hl (by simp [hk])⟩
  · intro l j c n hl
    by_cases hlk : l = k
    · subst hlk
      simp only [Function.update_self, MirrorTask.holding.injEq] at hl
      obtain ⟨rfl, rfl, rfl⟩ := hl
      exact ⟨.inl (by simp [ha]), le_rfl⟩
    · simp only [Function.update_of_ne hlk] at hl
      have hold := h.holding l j c n hl
      exact ⟨hold.1, hold.2.trans (Nat.le_succ _)⟩
  · intro j c hc hj
    by_cases hij : j = i
    · subst hij
      obtain rfl : a = c := Option.some.inj (ha.symm.trans hc)
      refine .inr ⟨s.reads + 1, .held k (Function.update_self ..), ?_⟩
      intro l b m hl hne
      by_cases hlk : l = k
      · subst hlk
        simp only [Function.update_self, MirrorTask.holding.injEq] at hl
        exact absurd hl.2.1.symm hne
      · simp only [Function.update_of_ne hlk] at hl
        exact Nat.lt_succ_of_le (h.holding l j b m hl).2
    · refine h.source_kept hc hj rfl rfl (fun l y hl hy => task_kept hl ?_)
        fun l c n hl => (task_of_update hl ?_).2
      · rcases hy with rfl | ⟨c, n, rfl⟩
        · rw [hk]
          exact fun heq => hij (MirrorTask.reading.inj heq).symm
        · simp [hk]
      · simp only [ne_eq, MirrorTask.holding.injEq, not_and]
        exact fun heq => absurd heq.symm hij

omit [DecidableEq ι] in
theorem Ok.readNothing (h : s.Ok) (hk : s.tasks k = .reading i) (ha : s.table i = none) {n : ℕ}
    (hn : s.reads ≤ n) : Ok { s with tasks := update s.tasks k .idle, reads := n } := by
  constructor
  · exact h.installed
  · intro l j hl
    exact h.deleting l j (task_of_update hl (by simp)).2
  · intro j hj hrow
    obtain ⟨l, hl⟩ := h.uninstalled j hj hrow
    exact ⟨l, task_kept hl (by simp [hk])⟩
  · intro l j c m hl
    have hold := h.holding l j c m (task_of_update hl (by simp)).2
    exact ⟨hold.1, hold.2.trans hn⟩
  · intro j c hc hj
    refine h.source_kept hc hj rfl rfl (fun l y hl hy => task_kept hl ?_)
      fun l c n hl => (task_of_update hl (by simp)).2
    rcases hy with rfl | ⟨c, n, rfl⟩
    · rw [hk]
      rintro ⟨⟩
      simp [ha] at hc
    · simp [hk]

/-- An install in order brings its entry no further from the table than it was. -/
theorem Ok.install {n : ℕ} (h : s.Ok) (hk : s.tasks k = .holding i a n) (hi : i ∉ s.uninstalled)
    (hn : s.last i ≤ n) :
    Ok { s with
      installed := update s.installed i (some a), last := update s.last i n
      tasks := update s.tasks k .idle } := by
  constructor
  · intro j c hc
    by_cases hij : j = i
    · subst hij
      exact ⟨(h.holding k j a n hk).1.resolve_right hi, hi⟩
    · simp only [Function.update_of_ne hij] at hc
      exact h.installed j c hc
  · intro l j hl
    exact h.deleting l j (task_of_update hl (by simp)).2
  · intro j hj hrow
    obtain ⟨l, hl⟩ := h.uninstalled j hj hrow
    exact ⟨l, task_kept hl (by simp [hk])⟩
  · intro l j c m hl
    exact h.holding l j c m (task_of_update hl (by simp)).2
  · intro j c hc hj
    by_cases hij : j = i
    · subst hij
      have hstale' {m} (hm : ∀ l b p, s.tasks l = .holding j b p → b ≠ c → p < m) :
          ∀ l b p, update s.tasks k .idle l = .holding j b p → b ≠ c → p < m :=
        fun l b p hl => hm l b p (task_of_update hl (by simp)).2
      rcases h.source j c hc hj with ⟨l, hl⟩ | ⟨m, hsource, hstale⟩
      · exact .inl ⟨l, task_kept hl (by simp [hk])⟩
      refine .inr ?_
      cases hsource with
      | held l hl =>
          by_cases hlk : l = k
          · subst hlk
            obtain ⟨-, rfl, rfl⟩ := MirrorTask.holding.inj (hk.symm.trans hl)
            exact ⟨n, .installed (Function.update_self ..) (Function.update_self ..), hstale' hstale⟩
          · exact ⟨m, .held l (by simpa only [Function.update_of_ne hlk] using hl), hstale' hstale⟩
      | installed hinst hlast =>
          by_cases hca : a = c
          · subst hca
            refine ⟨n, .installed (Function.update_self ..) (Function.update_self ..), ?_⟩
            exact hstale' fun l b p hl hne => (hstale l b p hl hne).trans_le (hlast ▸ hn)
          · -- The installed value was fresh, so this one is older, and its install is late.
            have hlt := hstale k a n hk hca
            omega
    · refine h.source_kept hc hj (Function.update_of_ne hij ..) (Function.update_of_ne hij ..)
        (fun l y hl hy => task_kept hl ?_) fun l c n hl => (task_of_update hl (by simp)).2
      rcases hy with rfl | ⟨c, n, rfl⟩
      · simp [hk]
      · rw [hk]
        exact fun heq => hij (MirrorTask.holding.inj heq).1.symm

theorem Ok.uninstall (h : s.Ok) (hk : s.tasks k = .idle) :
    Ok { s with
      installed := update s.installed i none, uninstalled := insert i s.uninstalled
      tasks := update s.tasks k (.deleting i) } := by
  constructor
  · intro j c hc
    by_cases hij : j = i
    · subst hij
      simp at hc
    · simp only [Function.update_of_ne hij] at hc
      obtain ⟨hrow, hj⟩ := h.installed j c hc
      exact ⟨hrow, by simp [hij, hj]⟩
  · intro l j hl
    by_cases hlk : l = k
    · subst hlk
      simp only [Function.update_self, MirrorTask.deleting.injEq] at hl
      exact .inl hl.symm
    · simp only [Function.update_of_ne hlk] at hl
      exact .inr (h.deleting l j hl)
  · rintro j (rfl | hj) hrow
    · exact ⟨k, Function.update_self ..⟩
    · obtain ⟨l, hl⟩ := h.uninstalled j hj hrow
      exact ⟨l, task_kept hl (by simp [hk])⟩
  · intro l j c m hl
    have hold := h.holding l j c m (task_of_update hl (by simp)).2
    exact ⟨hold.1.imp_right .inr, hold.2⟩
  · intro j c hc hj
    simp only [Set.mem_insert_iff, not_or] at hj
    refine h.source_kept hc hj.2 (Function.update_of_ne hj.1 ..) rfl
      (fun l y hl hy => task_kept hl ?_) fun l c n hl => (task_of_update hl (by simp)).2
    rcases hy with rfl | ⟨c, n, rfl⟩ <;> simp [hk]

theorem Ok.delete (h : s.Ok) (hk : s.tasks k = .deleting i) :
    Ok { s with table := update s.table i none, tasks := update s.tasks k .idle } := by
  have hgone := h.deleting k i hk
  constructor
  · intro j c hc
    obtain ⟨hrow, hj⟩ := h.installed j c hc
    have hij : j ≠ i := by
      rintro rfl
      exact hj hgone
    exact ⟨by simpa only [Function.update_of_ne hij] using hrow, hj⟩
  · intro l j hl
    exact h.deleting l j (task_of_update hl (by simp)).2
  · intro j hj hrow
    have hij : j ≠ i := by
      rintro rfl
      simp at hrow
    simp only [Function.update_of_ne hij] at hrow
    obtain ⟨l, hl⟩ := h.uninstalled j hj hrow
    refine ⟨l, task_kept hl ?_⟩
    rw [hk]
    exact fun heq => hij (MirrorTask.deleting.inj heq).symm
  · intro l j c m hl
    have hold := h.holding l j c m (task_of_update hl (by simp)).2
    by_cases hij : j = i
    · subst hij
      exact ⟨.inr hgone, hold.2⟩
    · exact ⟨by simpa only [Function.update_of_ne hij] using hold.1, hold.2⟩
  · intro j c hc hj
    have hij : j ≠ i := by
      rintro rfl
      exact hj hgone
    simp only [Function.update_of_ne hij] at hc
    refine h.source_kept hc hj rfl rfl (fun l y hl hy => task_kept hl ?_)
      fun l c n hl => (task_of_update hl (by simp)).2
    rcases hy with rfl | ⟨c, n, rfl⟩ <;> simp [hk]

theorem Ok.step (h : s.Ok) (hstep : Step s t) : t.Ok := by
  cases hstep with
  | skip => exact h
  | write k i a hk hi => exact h.write hk hi
  | read k i a hk ha => exact h.read hk ha
  | readNothing k i hk ha n hn => exact h.readNothing hk ha hn
  | install k i a n hk hi hn => exact h.install hk hi hn
  | uninstall k i hk => exact h.uninstall hk
  | delete k i hk => exact h.delete hk

omit [DecidableEq ι] [DecidableEq τ] in
/-- Once no task is under way the registry is the table. -/
theorem Ok.installed_eq_table (h : s.Ok) (hidle : ∀ k, s.tasks k = .idle) :
    s.installed = s.table := by
  funext i
  cases hrow : s.table i with
  | none =>
      cases hinst : s.installed i with
      | none => rfl
      | some a =>
          have hsome := (h.installed i a hinst).1
          simp [hrow] at hsome
  | some a =>
      have hi : i ∉ s.uninstalled := by
        intro hi
        obtain ⟨k, hk⟩ := h.uninstalled i hi (by simp [hrow])
        simp [hidle k] at hk
      rcases h.source i a hrow hi with ⟨k, hk⟩ | ⟨n, hsource, -⟩
      · simp [hidle k] at hk
      · cases hsource with
        | held k hk => simp [hidle k] at hk
        | installed ha hn => exact ha

end Mirror

end AfkClient
