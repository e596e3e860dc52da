import AfkClient.Library.Run
import AfkClient.Model.ConsoleLogs

/-! Reading the history of an account page by page, while batches are written and old rows are
deleted. -/

namespace AfkClient.ConsoleLogs

open Keyset (Descending)

/-! ### Retention -/

variable {db : Database} {account : String}

theorem key_injective {row row' : ConsoleLog} (h : row.key = row'.key) : row.id = row'.id :=
  (Prod.mk.inj (toLex.injective h)).2

theorem keys_nodup {rows : List ConsoleLog} (h : (rows.map (·.id)).Nodup) (p : ConsoleLog → Bool) :
    ((rows.filter p).map ConsoleLog.key).Nodup := by
  have hsub := h.sublist ((List.filter_sublist (p := p)).map _)
  rw [List.Nodup, List.pairwise_map] at hsub ⊢
  exact hsub.imp fun hne heq => hne (key_injective heq)

@[simp] theorem mem_newest {row : ConsoleLog} :
    row ∈ db.newest account ↔ row ∈ db.rows ∧ row.minecraftAccountId = account := by
  simp [Database.newest]

theorem newest_prune (db : Database) (account : String) :
    (db.prune account).newest account = (db.newest account).take MAX_LOGS_PER_ACCOUNT := by
  unfold Database.prune
  split
  · rename_i last hlast
    have hfilter : ((db.deleteWhere fun row =>
        row.minecraftAccountId = account && decide (row.key < last.key)).rows.filter
          (·.minecraftAccountId = account)) =
        (db.rows.filter (·.minecraftAccountId = account)).filter
          fun row => ! decide (row.key < last.key) := by
      simp only [Table.deleteWhere, List.filter_filter]
      refine List.filter_congr fun row _ => ?_
      by_cases hrow : row.minecraftAccountId = account <;> simp [hrow]
    have hdescending := Keyset.newestFirst_descending (keys_nodup db.nodup (·.minecraftAccountId = account))
    rw [Database.newest, hfilter, Keyset.filter_newestFirst (keys_nodup db.nodup _)]
    exact hdescending.filter_getElem hlast
  · rename_i hnone
    rw [List.take_of_length_le]
    exact (List.getElem?_eq_none_iff.mp hnone).trans (Nat.sub_le _ _)

theorem newest_prune_of_ne {other : String} (hother : other ≠ account) :
    (db.prune account).newest other = db.newest other := by
  unfold Database.prune
  split
  · rename_i last hlast
    simp only [Database.newest, Table.deleteWhere, List.filter_filter]
    congr 1
    refine List.filter_congr fun row _ => ?_
    by_cases hrow : row.minecraftAccountId = other <;> simp [hrow, hother]
  · rfl

/-- Whatever the order in which the accounts of a batch are pruned. -/
theorem newest_foldl_prune (accounts : List String) (db : Database) :
    (accounts.foldl Database.prune db).newest account =
      if account ∈ accounts then (db.newest account).take MAX_LOGS_PER_ACCOUNT else db.newest account := by
  induction accounts generalizing db with
  | nil => rfl
  | cons other accounts ih =>
      rw [List.foldl_cons, ih]
      by_cases hother : account = other
      · subst hother
        rw [newest_prune, List.take_take, Nat.min_self, if_pos List.mem_cons_self, ite_self]
      · rw [newest_prune_of_ne hother]
        simp only [List.mem_cons, hother, false_or]

variable {rows : List ConsoleLog}

theorem newest_write (hids : ((db.rows ++ rows).map (·.id)).Nodup) :
    (db.write rows).newest account =
      if account ∈ rows.map (·.minecraftAccountId) then
        (Keyset.newestFirst ConsoleLog.key
          ((db.rows ++ rows).filter (·.minecraftAccountId = account))).take MAX_LOGS_PER_ACCOUNT
      else db.newest account := by
  unfold Database.write
  rw [Database.createMany, dif_pos hids]
  dsimp only
  rw [newest_foldl_prune]
  simp only [List.mem_eraseDups]
  split
  · rfl
  · rename_i hnone
    have hrows : rows.filter (·.minecraftAccountId = account) = [] := by
      refine List.filter_eq_nil_iff.mpr fun row hrow haccount => hnone ?_
      exact List.mem_map.mpr ⟨row, hrow, of_decide_eq_true haccount⟩
    rw [Database.newest, List.filter_append, hrows, List.append_nil, Database.newest]

theorem mem_write (hids : ((db.rows ++ rows).map (·.id)).Nodup) {row : ConsoleLog}
    (hrow : row ∈ (db.write rows).rows) : row ∈ db.rows ∨ row ∈ rows := by
  have hnewest : row ∈ (db.write rows).newest row.minecraftAccountId := mem_newest.mpr ⟨hrow, rfl⟩
  rw [newest_write hids] at hnewest
  split at hnewest
  · have hmem := List.mem_of_mem_take hnewest
    rw [Keyset.mem_newestFirst, List.mem_filter, List.mem_append] at hmem
    exact hmem.1
  · exact .inl (mem_newest.mp hnewest).1

/-- With a row, all older rows of its account are deleted. -/
theorem deleted_behind (hids : ((db.rows ++ rows).map (·.id)).Nodup) {last row : ConsoleLog}
    (hlast : last ∈ db.rows) (hdeleted : last ∉ (db.write rows).rows) (hrow : row ∈ (db.write rows).rows)
    (haccount : row.minecraftAccountId = last.minecraftAccountId) : ¬ row.key < last.key := by
  have hnewest : row ∈ (db.write rows).newest last.minecraftAccountId :=
    mem_newest.mpr ⟨hrow, haccount⟩
  have hgone : last ∉ (db.write rows).newest last.minecraftAccountId :=
    fun hmem => hdeleted (mem_newest.mp hmem).1
  rw [newest_write hids] at hnewest hgone
  split at hnewest
  · rename_i hmentioned
    rw [if_pos hmentioned] at hgone
    have hkeys := keys_nodup hids (·.minecraftAccountId = last.minecraftAccountId)
    have hmem : last ∈ (db.rows ++ rows).filter (·.minecraftAccountId = last.minecraftAccountId) :=
      List.mem_filter.mpr ⟨List.mem_append_left _ hlast, decide_eq_true rfl⟩
    rcases (Keyset.newestFirst_descending hkeys).mem_take_or_lt (Keyset.mem_newestFirst.mpr hmem)
      MAX_LOGS_PER_ACCOUNT with hkept | hbehind
    · exact absurd hkept hgone
    · exact not_lt_of_gt (hbehind row hnewest)
  · rename_i hmentioned
    rw [if_neg hmentioned] at hgone
    exact absurd (mem_newest.mpr ⟨hlast, rfl⟩) hgone

/-! ### Laws -/

/-- All rows that the reader has got, in the order of its pages, each from its newest row on. -/
def Reading.returned (s : Reading) : List ConsoleLog := s.pages.flatMap List.reverse

/-- The reader beside what it should get. -/
structure Traced where
  reading : Reading
  /-- The ids that were generated so far. -/
  used : List Cuid
  /-- The rows that have been there since the first request. -/
  stayed : List ConsoleLog

def Traced.step (s : Traced) (input : Input) : Traced where
  reading := s.reading.step input
  used :=
    match input with
    | .write rows => s.used ++ rows.map (·.id)
    | _ => s.used
  stayed :=
    match input with
    | .write rows => s.stayed.filter (· ∈ (s.reading.db.write rows).rows)
    | .request _ =>
        if s.reading.phase = .ready ∧ s.reading.pages = [] then s.reading.db.rows else s.stayed
    | .receive => s.stayed

def Traced.start (db : Database) (account : String) : Traced :=
  { reading := { db, accountId := account }, used := db.rows.map (·.id), stayed := db.rows }

/-- No id is generated twice. -/
def Generated (s : Traced) : Input → Prop
  | .write rows => (rows.map (·.id)).Nodup ∧ ∀ row ∈ rows, row.id ∉ s.used
  | _ => True

structure Lawful (s : Traced) : Prop where
  own : ∀ row ∈ s.reading.returned, row.minecraftAccountId = s.reading.accountId
  /-- Across all pages, so that no row is returned twice. -/
  descending : Descending ConsoleLog.key s.reading.returned
  complete : s.reading.phase = .ended → ∀ row ∈ s.stayed, row.minecraftAccountId = s.reading.accountId →
    s.reading.returned.count row = 1

structure Kept (s : Traced) (input : Input) : Prop where
  newest : ∀ rows, input = .write rows → ∀ account ∈ rows.map (·.minecraftAccountId),
    (s.step input).reading.db.newest account =
      (Keyset.newestFirst ConsoleLog.key ((s.reading.db.rows ++ rows).filter
        (·.minecraftAccountId = account))).take MAX_LOGS_PER_ACCOUNT
  others : ∀ rows, input = .write rows → ∀ account ∉ rows.map (·.minecraftAccountId),
    (s.step input).reading.db.newest account = s.reading.db.newest account
  /-- Only rows of the table are returned. -/
  returned : ∀ row ∈ (s.step input).reading.returned,
    row ∈ s.reading.returned ∨ row ∈ s.reading.db.rows

/-! ### Pages -/

variable {cursor : Option ConsoleLog} {take : ℕ}

theorem behind_iff {cursor row : ConsoleLog} : Database.behind cursor row ↔ row.key < cursor.key := by
  simp [Database.behind, ConsoleLog.key, Prod.Lex.toLex_lt_toLex]

/-- The rows of which a page shows the first ones. -/
def Database.older (db : Database) (account : String) (cursor : Option ConsoleLog) : List ConsoleLog :=
  Keyset.newestFirst ConsoleLog.key (db.rows.filter fun row =>
    row.minecraftAccountId = account && cursor.all (Database.behind · row))

theorem mem_older {row : ConsoleLog} : row ∈ db.older account cursor ↔
    row ∈ db.rows ∧ row.minecraftAccountId = account ∧ ∀ last ∈ cursor, row.key < last.key := by
  cases cursor with
  | none => simp [Database.older]
  | some last => simp [Database.older, behind_iff]

theorem older_descending (db : Database) (account : String) (cursor : Option ConsoleLog) :
    Descending ConsoleLog.key (db.older account cursor) :=
  Keyset.newestFirst_descending (keys_nodup db.nodup _)

theorem findPage_reverse (db : Database) (account : String) (take : ℕ) (cursor : Option ConsoleLog) :
    (db.findPage account take cursor).reverse = (db.older account cursor).take take :=
  List.reverse_reverse _

theorem takeOf_pos (limit : Option ℚ) : 1 ≤ Database.takeOf limit := by
  cases limit with
  | none => decide
  | some limit =>
      have hpos := le_max_left (1 : ℤ) (min (CONSOLE_HISTORY_PAGE_SIZE : ℤ) ⌊limit⌋)
      exact (Int.le_toNat (le_trans (by decide) hpos)).mpr hpos

/-! ### The reader -/

variable {s : Traced} {last : ConsoleLog}

/-- All rows that have been there are returned or older than the last one that was. -/
def Older (s : Traced) (last : ConsoleLog) : Prop :=
  ∀ row ∈ s.stayed, row.minecraftAccountId = s.reading.accountId →
    row ∈ s.reading.returned ∨ row.key < last.key

/-- The row from which the next page is read; without it, nothing is left behind it. -/
structure Anchor (s : Traced) (last : ConsoleLog) : Prop where
  oldest : s.reading.returned.getLast? = some last
  found : ∀ row ∈ s.reading.db.rows, row.id = last.id → row = last
  gone : last ∉ s.reading.db.rows → ∀ row ∈ s.stayed, row.minecraftAccountId = s.reading.accountId →
    ¬ row.key < last.key
  older : Older s last

/-- What holds in each phase of the reader. -/
def Traced.progress (s : Traced) : Prop :=
  match s.reading.phase with
  | .ready =>
      s.reading.pages = [] ∨ ∃ last, s.reading.before = some last.id.val ∧ Anchor s last
  | .found take cursor =>
      1 ≤ take ∧ (cursor = none ∧ s.reading.returned = [] ∨
        ∃ last, cursor = some last ∧ s.reading.returned.getLast? = some last ∧ Older s last)
  | .ended => ∀ row ∈ s.stayed, row.minecraftAccountId = s.reading.accountId → row ∈ s.reading.returned

structure Sound (s : Traced) : Prop where
  used : ∀ row ∈ s.reading.db.rows, row.id ∈ s.used
  returned : ∀ row ∈ s.reading.returned, row.id ∈ s.used
  own : ∀ row ∈ s.reading.returned, row.minecraftAccountId = s.reading.accountId
  descending : Descending ConsoleLog.key s.reading.returned
  stayed : ∀ row ∈ s.stayed, row ∈ s.reading.db.rows
  progress : s.progress

theorem sound_start (db : Database) (account : String) : Sound (.start db account) where
  used _ hrow := List.mem_map_of_mem hrow
  returned := nofun
  own := nofun
  descending := List.Pairwise.nil
  stayed _ hrow := hrow
  progress := .inl rfl

theorem Older.mono {s' : Traced} (h : Older s last) (hstayed : s'.stayed ⊆ s.stayed)
    (haccount : s'.reading.accountId = s.reading.accountId)
    (hreturned : s.reading.returned ⊆ s'.reading.returned) : Older s' last := by
  intro row hrow hown
  rcases h row (hstayed hrow) (hown.trans haccount) with hold | hbehind
  · exact .inl (hreturned hold)
  · exact .inr hbehind

/-! ### Batches -/

variable {rows : List ConsoleLog}

theorem Sound.ids_nodup (hs : Sound s) (hrows : Generated s (.write rows)) :
    ((s.reading.db.rows ++ rows).map (·.id)).Nodup := by
  rw [List.map_append, List.nodup_append]
  refine ⟨s.reading.db.nodup, hrows.1, ?_⟩
  rintro _ hold _ hnew rfl
  obtain ⟨row, hrow, hid⟩ := List.mem_map.mp hold
  obtain ⟨row', hrow', hid'⟩ := List.mem_map.mp hnew
  exact hrows.2 row' hrow' (hid' ▸ hid ▸ hs.used row hrow)

theorem stayed_write (hrow : last ∈ (s.step (.write rows)).stayed) :
    last ∈ s.stayed ∧ last ∈ (s.reading.db.write rows).rows := by
  obtain ⟨hstayed, hthere⟩ := List.mem_filter.mp hrow
  exact ⟨hstayed, of_decide_eq_true hthere⟩

theorem Anchor.write (h : Anchor s last) (hs : Sound s) (hrows : Generated s (.write rows)) :
    Anchor (s.step (.write rows)) last := by
  have hids := hs.ids_nodup hrows
  have hreturned : last ∈ s.reading.returned := List.mem_of_getLast? h.oldest
  refine ⟨h.oldest, fun row hrow hid => ?_, fun hgone row hrow haccount => ?_, ?_⟩
  · rcases mem_write hids hrow with hold | hnew
    · exact h.found row hold hid
    · exact absurd (hid ▸ hs.returned last hreturned) (hrows.2 row hnew)
  · obtain ⟨hstayed, hthere⟩ := stayed_write hrow
    by_cases hlast : last ∈ s.reading.db.rows
    · exact deleted_behind hids hlast hgone hthere (haccount.trans (hs.own last hreturned).symm)
    · exact h.gone hlast row hstayed haccount
  · exact h.older.mono (fun row hrow => (stayed_write hrow).1) rfl fun _ hrow => hrow

theorem Sound.write (hs : Sound s) (hrows : Generated s (.write rows)) :
    Sound (s.step (.write rows)) := by
  refine ⟨fun row hrow => ?_, fun row hrow => List.mem_append_left _ (hs.returned row hrow), hs.own,
    hs.descending, fun row hrow => (stayed_write hrow).2, ?_⟩
  · rcases mem_write (hs.ids_nodup hrows) hrow with hold | hnew
    · exact List.mem_append_left _ (hs.used row hold)
    · exact List.mem_append_right _ (List.mem_map_of_mem hnew)
  · have hprogress := hs.progress
    have hphase : (s.step (.write rows)).reading.phase = s.reading.phase := rfl
    unfold Traced.progress at hprogress ⊢
    rw [hphase]
    cases hcase : s.reading.phase with
    | ready =>
        rw [hcase] at hprogress
        rcases hprogress with hnone | ⟨last, hbefore, hanchor⟩
        · exact .inl hnone
        · exact .inr ⟨last, hbefore, hanchor.write hs hrows⟩
    | found take cursor =>
        rw [hcase] at hprogress
        obtain ⟨htake, hnone | ⟨last, hcursor, hlast, holder⟩⟩ := hprogress
        · exact ⟨htake, .inl hnone⟩
        · refine ⟨htake, .inr ⟨last, hcursor, hlast, ?_⟩⟩
          exact holder.mono (fun row hrow => (stayed_write hrow).1) rfl fun _ hrow => hrow
    | ended =>
        rw [hcase] at hprogress
        exact fun row hrow haccount => hprogress row (stayed_write hrow).1 haccount

/-! ### Queries -/

/-- Without a page so far there is no cursor; otherwise it is the last row that was returned,
which is not found once it was deleted. -/
theorem findCursor_eq (h : Anchor s last) (hs : Sound s) (hbefore : s.reading.before = some last.id.val) :
    s.reading.db.findCursor s.reading.accountId s.reading.before = some (some last) ∨
      s.reading.db.findCursor s.reading.accountId s.reading.before = none ∧ last ∉ s.reading.db.rows := by
  have hfind : s.reading.db.findCursor s.reading.accountId s.reading.before =
      (s.reading.db.rows.find? fun row =>
        row.id.val = last.id.val && row.minecraftAccountId = s.reading.accountId).map some := by
    rw [hbefore]
    unfold Database.findCursor
    split
    · rename_i hnone
      cases hnone
    · rename_i hempty
      exact absurd (Option.some.inj hempty) last.id.property
    · rename_i id _ heq
      rw [← Option.some.inj heq]
  rw [hfind]
  cases hfound : s.reading.db.rows.find? fun row =>
      row.id.val = last.id.val && row.minecraftAccountId = s.reading.accountId with
  | some row =>
      left
      have hrow := List.mem_of_find?_eq_some hfound
      have hid := List.find?_some hfound
      simp only [Bool.and_eq_true, decide_eq_true_eq] at hid
      rw [Option.map_some, h.found row hrow (Subtype.ext hid.1)]
  | none =>
      right
      refine ⟨rfl, fun hlast => ?_⟩
      have hown := hs.own last (List.mem_of_getLast? h.oldest)
      simpa [hown] using List.find?_eq_none.mp hfound last hlast

theorem Sound.request (hs : Sound s) (limit : Option ℚ) : Sound (s.step (.request limit)) := by
  have hprogress := hs.progress
  unfold Traced.progress at hprogress
  have hstep : s.step (.request limit) = { s with
      reading := s.reading.request limit
      stayed := if s.reading.phase = .ready ∧ s.reading.pages = [] then s.reading.db.rows
        else s.stayed } := rfl
  cases hphase : s.reading.phase with
  | ready =>
      rw [hphase] at hprogress
      rw [hstep]
      rcases hprogress with hpages | ⟨last, hbefore, hanchor⟩
      · have hnone : s.reading.before = none := by simp [Reading.before, hpages]
        have hreturned : s.reading.returned = [] := by simp [Reading.returned, hpages]
        simp only [Reading.request, hphase, hnone, Database.findCursor, hpages, and_self, if_true]
        exact ⟨hs.used, by simp [Reading.returned], by simp [Reading.returned], List.Pairwise.nil,
          fun row hrow => hrow, takeOf_pos limit, .inl ⟨rfl, rfl⟩⟩
      · have hpages : s.reading.pages ≠ [] := by
          intro hpages
          simp [Reading.before, hpages] at hbefore
        rw [if_neg fun h => hpages h.2]
        rcases findCursor_eq hanchor hs hbefore with hfound | ⟨hmissing, hgone⟩
        · simp only [Reading.request, hphase, hfound]
          exact ⟨hs.used, hs.returned, hs.own, hs.descending, hs.stayed, takeOf_pos limit,
            .inr ⟨last, rfl, hanchor.oldest, hanchor.older⟩⟩
        · have hreturned : ({ s.reading with
              pages := s.reading.pages ++ [[]], phase := .ended } : Reading).returned =
              s.reading.returned := by
            simp [Reading.returned]
          simp only [Reading.request, hphase, hmissing]
          refine ⟨hs.used, ?_, ?_, ?_, hs.stayed, fun row hrow haccount => ?_⟩
          · exact hreturned ▸ hs.returned
          · exact hreturned ▸ hs.own
          · exact hreturned ▸ hs.descending
          · rw [hreturned]
            exact (hanchor.older row hrow haccount).resolve_right (hanchor.gone hgone row hrow haccount)
  | found take cursor =>
      have hsame : s.step (.request limit) = s := by
        rw [hstep]
        simp [Reading.request, hphase]
      rw [hsame]
      exact hs
  | ended =>
      have hsame : s.step (.request limit) = s := by
        rw [hstep]
        simp [Reading.request, hphase]
      rw [hsame]
      exact hs

/-- The new page goes behind all rows that were returned. -/
theorem returned_receive {take : ℕ} {cursor : Option ConsoleLog}
    (hphase : s.reading.phase = .found take cursor) :
    (s.reading.receive).returned =
      s.reading.returned ++ (s.reading.db.older s.reading.accountId cursor).take take := by
  simp only [Reading.receive, hphase, Reading.returned, List.flatMap_append, List.flatMap_singleton,
    findPage_reverse]

theorem Descending.last_le {rows : List ConsoleLog} (h : Descending ConsoleLog.key rows)
    {last row : ConsoleLog} (hlast : rows.getLast? = some last) (hrow : row ∈ rows) :
    row = last ∨ last.key < row.key := by
  obtain ⟨front, rfl⟩ := List.getLast?_eq_some_iff.mp hlast
  rcases List.mem_append.mp hrow with hfront | hlast
  · exact .inr ((List.pairwise_append.mp h).2.2 row hfront last (List.mem_singleton.mpr rfl))
  · exact .inl (List.mem_singleton.mp hlast)

/-- Every row that has been there is returned already, or it is one of those read now. -/
theorem Sound.rest (hs : Sound s) {take : ℕ} {cursor : Option ConsoleLog}
    (hphase : s.reading.phase = .found take cursor) {row : ConsoleLog} (hrow : row ∈ s.stayed)
    (hown : row.minecraftAccountId = s.reading.accountId) :
    row ∈ s.reading.returned ∨ row ∈ s.reading.db.older s.reading.accountId cursor := by
  have hprogress := hs.progress
  rw [Traced.progress, hphase] at hprogress
  have hthere := hs.stayed row hrow
  rcases hprogress.2 with ⟨rfl, -⟩ | ⟨last, rfl, -, holder⟩
  · exact .inr (mem_older.mpr ⟨hthere, hown, nofun⟩)
  · refine (holder row hrow hown).imp_right fun hlt => mem_older.mpr ⟨hthere, hown, ?_⟩
    rintro _ ⟨⟩
    exact hlt

/-- After an empty page nothing is left to read; the last row of another one is the next anchor. -/
theorem Sound.progress_receive (hs : Sound s) {take : ℕ} {cursor : Option ConsoleLog}
    (hphase : s.reading.phase = .found take cursor) :
    Traced.progress { s with reading := s.reading.receive } := by
  have htake : 1 ≤ take := by
    have hprogress := hs.progress
    rw [Traced.progress, hphase] at hprogress
    exact hprogress.1
  have hreturned := returned_receive hphase
  have hpage : s.reading.db.findPage s.reading.accountId take cursor =
      ((s.reading.db.older s.reading.accountId cursor).take take).reverse := by
    rw [← findPage_reverse, List.reverse_reverse]
  cases hlast : ((s.reading.db.older s.reading.accountId cursor).take take).getLast? with
  | none =>
      have hempty := List.getLast?_eq_none_iff.mp hlast
      have hended : s.reading.receive.phase = .ended := by
        simp [Reading.receive, hphase, hpage, hempty]
      have haccount : s.reading.receive.accountId = s.reading.accountId := by
        simp [Reading.receive, hphase]
      rw [Traced.progress, hended]
      intro row hrow hown
      rw [haccount] at hown
      rw [hreturned, hempty, List.append_nil]
      refine (hs.rest hphase hrow hown).resolve_right fun hmem => ?_
      rcases List.take_eq_nil_iff.mp hempty with hzero | hnone
      · omega
      · exact absurd (hnone ▸ hmem) List.not_mem_nil
  | some last =>
      have hmem := List.mem_of_getLast? hlast
      obtain ⟨hthere, hown, -⟩ := mem_older.mp (List.mem_of_mem_take hmem)
      have hne : s.reading.db.findPage s.reading.accountId take cursor ≠ [] := by
        rw [hpage]
        intro hempty
        rw [List.reverse_eq_nil_iff.mp hempty] at hlast
        cases hlast
      have hready : s.reading.receive.phase = .ready := by
        simp [Reading.receive, hphase, hne]
      have hbefore : s.reading.receive.before = some last.id.val := by
        simp [Reading.receive, hphase, Reading.before, hpage, hlast]
      have hdb : s.reading.receive.db = s.reading.db := by simp [Reading.receive, hphase]
      have haccount : s.reading.receive.accountId = s.reading.accountId := by
        simp [Reading.receive, hphase]
      rw [Traced.progress, hready]
      refine .inr ⟨last, hbefore, ?_, fun row hrow hid => ?_, fun hgone => ?_, fun row hrow hown => ?_⟩
      · rw [hreturned, List.getLast?_append, hlast]
        rfl
      · rw [hdb] at hrow
        exact List.inj_on_of_nodup_map s.reading.db.nodup hrow hthere hid
      · rw [hdb] at hgone
        exact absurd hthere hgone
      · rw [haccount] at hown
        rw [hreturned, List.mem_append]
        rcases hs.rest hphase hrow hown with hold | hread
        · exact .inl (.inl hold)
        · rcases (older_descending _ _ _).mem_take_or_lt hread take with hnew | hbehind
          · exact .inl (.inr hnew)
          · exact .inr (hbehind last hmem)

theorem Sound.receive (hs : Sound s) : Sound (s.step .receive) := by
  have hprogress := hs.progress
  unfold Traced.progress at hprogress
  have hstep : s.step .receive = { s with reading := s.reading.receive } := rfl
  cases hphase : s.reading.phase with
  | ready =>
      have hsame : s.step .receive = s := by
        rw [hstep]
        simp [Reading.receive, hphase]
      rw [hsame]
      exact hs
  | ended =>
      have hsame : s.step .receive = s := by
        rw [hstep]
        simp [Reading.receive, hphase]
      rw [hsame]
      exact hs
  | found take cursor =>
      rw [hphase] at hprogress
      obtain ⟨htake, hcursor⟩ := hprogress
      have hdb : s.reading.receive.db = s.reading.db := by simp [Reading.receive, hphase]
      have haccount : s.reading.receive.accountId = s.reading.accountId := by
        simp [Reading.receive, hphase]
      have hreturned := returned_receive hphase
      have hpage : ∀ row ∈ (s.reading.db.older s.reading.accountId cursor).take take,
          row ∈ s.reading.db.rows ∧ row.minecraftAccountId = s.reading.accountId ∧
            ∀ last ∈ cursor, row.key < last.key :=
        fun row hrow => mem_older.mp (List.mem_of_mem_take hrow)
      have hbelow : ∀ old ∈ s.reading.returned,
          ∀ row ∈ (s.reading.db.older s.reading.accountId cursor).take take, row.key < old.key := by
        intro old hold row hrow
        rcases hcursor with ⟨-, hnone⟩ | ⟨last, rfl, hlast, -⟩
        · exact absurd (hnone ▸ hold) List.not_mem_nil
        · have hlt := (hpage row hrow).2.2 last rfl
          rcases Descending.last_le hs.descending hlast hold with rfl | hle
          · exact hlt
          · exact hlt.trans hle
      rw [hstep]
      refine ⟨by rw [hdb]; exact hs.used, ?_, ?_, ?_, by rw [hdb]; exact hs.stayed, ?_⟩
      · rw [hreturned]
        intro row hrow
        rcases List.mem_append.mp hrow with hold | hnew
        · exact hs.returned row hold
        · exact hs.used row (hpage row hnew).1
      · rw [hreturned, haccount]
        intro row hrow
        rcases List.mem_append.mp hrow with hold | hnew
        · exact hs.own row hold
        · exact (hpage row hnew).2.1
      · rw [hreturned]
        exact List.pairwise_append.mpr ⟨hs.descending,
          (older_descending _ _ _).sublist (List.take_sublist _ _), hbelow⟩
      · exact hs.progress_receive hphase

/-! ### Runs -/

theorem Sound.step (hs : Sound s) {input : Input} (hinput : Generated s input) : Sound (s.step input) := by
  cases input with
  | write rows => exact hs.write hinput
  | request limit => exact hs.request limit
  | receive => exact hs.receive

theorem Sound.lawful (hs : Sound s) : Lawful s := by
  refine ⟨hs.own, hs.descending, fun hended row hrow haccount => ?_⟩
  have hprogress := hs.progress
  rw [Traced.progress, hended] at hprogress
  have hnodup : s.reading.returned.Nodup :=
    hs.descending.imp fun hlt heq => absurd (congrArg ConsoleLog.key heq) (ne_of_gt hlt)
  exact List.count_eq_one_of_mem hnodup (hprogress row hrow haccount)

theorem Sound.kept (hs : Sound s) {input : Input} (hinput : Generated s input) : Kept s input := by
  refine ⟨?_, ?_, ?_⟩
  · rintro rows rfl account haccount
    exact (newest_write (hs.ids_nodup hinput)).trans (if_pos haccount)
  · rintro rows rfl account haccount
    exact (newest_write (hs.ids_nodup hinput)).trans (if_neg haccount)
  · intro row hrow
    cases input with
    | write rows => exact .inl hrow
    | request limit =>
        left
        change row ∈ (s.reading.request limit).returned at hrow
        unfold Reading.request at hrow
        split at hrow
        · split at hrow
          · exact hrow
          · simpa [Reading.returned] using hrow
        · exact hrow
    | receive =>
        change row ∈ s.reading.receive.returned at hrow
        cases hphase : s.reading.phase with
        | found take cursor =>
            rw [returned_receive hphase] at hrow
            rcases List.mem_append.mp hrow with hold | hnew
            · exact .inl hold
            · exact .inr (mem_older.mp (List.mem_of_mem_take hnew)).1
        | _ =>
            left
            simpa [Reading.receive, hphase] using hrow

/-- Whatever is written and deleted between its queries, a reader gets each row once, the newest
first, and none that stays is left out. -/
theorem history_paged (db : Database) (account : String) (inputs : List Input)
    (hids : Meets Traced.step Generated (.start db account) inputs) :
    Along Traced.step Lawful (.start db account) inputs ∧
      Meets Traced.step Kept (.start db account) inputs :=
  ⟨(along_of_preserved (fun _ _ hs hinput => hs.step hinput) (sound_start db account) hids).mono
    fun _ hs => hs.lawful,
    meets_of_preserved (fun _ _ hs hinput => ⟨hs.step hinput, hs.kept hinput⟩)
      (sound_start db account) hids⟩

/-- A line is written between two pages of one. -/
theorem history_paged_once :
    Along Traced.step Lawful (.start Table.empty "a")
        [.write [⟨⟨"x", by decide⟩, "a", .CHAT, "hello", 7⟩], .request none, .receive,
          .write [⟨⟨"y", by decide⟩, "a", .CHAT, "again", 7⟩], .request none, .receive] ∧
      Meets Traced.step Kept (.start Table.empty "a")
        [.write [⟨⟨"x", by decide⟩, "a", .CHAT, "hello", 7⟩], .request none, .receive,
          .write [⟨⟨"y", by decide⟩, "a", .CHAT, "again", 7⟩], .request none, .receive] := by
  refine history_paged Table.empty "a" _ ⟨⟨?_, ?_⟩, trivial, trivial, ⟨?_, ?_⟩, trivial, trivial, trivial⟩
  · decide
  · decide
  · decide
  · decide

end AfkClient.ConsoleLogs
