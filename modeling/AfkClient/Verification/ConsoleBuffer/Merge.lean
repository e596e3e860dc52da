import AfkClient.Library.Merging
import AfkClient.Model.ConsoleBuffer

/-! History and live lines are merged by multiplicity. -/

namespace AfkClient.ConsoleBuffer

open Merging ConsoleLogs

/-! ### Keys -/

theorem text_injective : Function.Injective text := by
  intro a b h
  cases a <;> cases b <;> simp [text] at h ⊢

theorem key_prints (line : ConsoleLogEntry) : Json.Prints (key line)
    (.arr [.str line.createdAt, .str (text line.type), .str line.message]) :=
  .array (.cons (.quote _) (.cons (.quote _) (.cons (.quote _) .nil)))

/-- Lines with one key differ in their ids only. -/
theorem key_eq_iff (a b : ConsoleLogEntry) :
    key a = key b ↔ a.createdAt = b.createdAt ∧ a.type = b.type ∧ a.message = b.message := by
  constructor
  · intro h
    have hparse := (key_prints a).parse.symm.trans (h ▸ (key_prints b).parse)
    simp only [Option.some.injEq, Json.arr.injEq, List.cons.injEq, Json.str.injEq] at hparse
    exact ⟨hparse.1, text_injective hparse.2.1, hparse.2.2.1⟩
  · rintro ⟨htime, htype, hmessage⟩
    simp only [key, htime, htype, hmessage]

theorem createdAt_eq (a b : ConsoleLogEntry) (h : key a = key b) : a.createdAt = b.createdAt :=
  ((key_eq_iff a b).mp h).1

/-! ### Counters -/

theorem count_set (remaining : Remaining) (k : List Char) (n : ℕ) (k' : List Char) :
    Remaining.count (remaining.set k n) k' = if k' = k then n else Remaining.count remaining k' := by
  rw [Remaining.count, Dictionary.get?_set]
  split <;> rfl

theorem count_foldl (history : List ConsoleLogEntry) (start : Remaining) (k : List Char) :
    Remaining.count (history.foldl (fun remaining line =>
      remaining.set (key line) (Remaining.count remaining (key line) + 1)) start) k =
      Remaining.count start k + counts key history k := by
  induction history generalizing start with
  | nil => rfl
  | cons line history ih =>
      rw [List.foldl_cons, ih, count_set, counts_cons]
      by_cases hk : k = key line
      · rw [if_pos hk, if_pos hk.symm, hk]
        omega
      · rw [if_neg hk, if_neg (Ne.symm hk)]
        rfl

theorem count_remaining (history : List ConsoleLogEntry) :
    Remaining.count (remaining history) = counts key history := by
  funext k
  rw [remaining, count_foldl, Remaining.count, Dictionary.get?_empty, Option.getD_none, Nat.zero_add]

theorem extra_eq (remaining : Remaining) (live : List ConsoleLogEntry) :
    extra remaining live = unmatched key (Remaining.count remaining) live := by
  induction live generalizing remaining with
  | nil => rfl
  | cons line live ih =>
      rw [extra, unmatched]
      split
      · rw [ih]
      · rw [ih]
        congr 1
        funext k
        exact count_set remaining _ _ k

theorem merged_eq (history live : List ConsoleLogEntry) :
    merged history live =
      sortBy ConsoleLogEntry.createdAt (history ++ unmatched key (counts key history) live) := by
  rw [merged, extra_eq, count_remaining]
  rfl

/-! ### Laws -/

def same (a b : ConsoleLogEntry) : Bool :=
  decide (a.createdAt = b.createdAt ∧ a.type = b.type ∧ a.message = b.message)

variable (history live : List ConsoleLogEntry)

theorem counts_merged (k : List Char) :
    counts key (merged history live) k = max (counts key history k) (counts key live k) := by
  rw [merged_eq, counts_perm (sortBy_perm _), counts_append, counts_unmatched]
  omega

/-- The oldest lines are dropped, as many as are too many. -/
theorem merged_split : ∃ dropped, merged history live = dropped ++ mergeConsoleHistory history live ∧
    (mergeConsoleHistory history live).length = min MAX_CONSOLE_LOGS (merged history live).length ∧
    dropped.length = (merged history live).length - MAX_CONSOLE_LOGS := by
  refine ⟨(merged history live).take ((merged history live).length - MAX_CONSOLE_LOGS),
    (List.take_append_drop _ _).symm, ?_, ?_⟩
  · rw [mergeConsoleHistory, List.length_drop]
    omega
  · rw [List.length_take]
    omega

theorem merged_ordered : Ordered ConsoleLogEntry.createdAt (merged history live) := by
  rw [merged_eq]
  exact sortBy_ordered _

structure Merges (history live : List ConsoleLogEntry) : Prop where
  ordered : (mergeConsoleHistory history live).Pairwise (·.createdAt ≤ ·.createdAt)
  multiplicity : ∀ line, (merged history live).countP (same line) =
    max (history.countP (same line)) (live.countP (same line))
  /-- The lines of one time are those of the history in their order, then those that came in live. -/
  ties : ∃ extra : List ConsoleLogEntry, extra.Sublist live ∧ ∀ t,
    (merged history live).filter (·.createdAt = t) =
      history.filter (·.createdAt = t) ++ extra.filter (·.createdAt = t)
  /-- Only the oldest lines are dropped. -/
  trimmed : ∃ dropped, merged history live = dropped ++ mergeConsoleHistory history live ∧
    (mergeConsoleHistory history live).length = min MAX_CONSOLE_LOGS (merged history live).length ∧
    ∀ old ∈ dropped, ∀ line ∈ mergeConsoleHistory history live, old.createdAt ≤ line.createdAt
  /-- Merging again changes nothing, unless of equal lines, of which more came in live than are in
  the history, some were dropped and some were not. -/
  again : ∀ dropped, merged history live = dropped ++ mergeConsoleHistory history live →
    (∀ old ∈ dropped, ∀ line ∈ mergeConsoleHistory history live, same old line →
      live.countP (same line) ≤ history.countP (same line)) →
    mergeConsoleHistory history (mergeConsoleHistory history live) = mergeConsoleHistory history live
  /-- The more lines come in live, the more lines since any time are shown. -/
  newest : ∀ live' t, live.Sublist live' →
    (mergeConsoleHistory history live).countP (t ≤ ·.createdAt) ≤
      (mergeConsoleHistory history live').countP (t ≤ ·.createdAt)

theorem counts_eq_countP (rows : List ConsoleLogEntry) (line : ConsoleLogEntry) :
    counts key rows (key line) = rows.countP (same line) := by
  refine List.countP_congr fun row _ => ?_
  simp only [same, decide_eq_true_eq]
  exact eq_comm.trans (key_eq_iff line row)

theorem merge_again (dropped : List ConsoleLogEntry)
    (hsplit : merged history live = dropped ++ mergeConsoleHistory history live)
    (hcut : ∀ old ∈ dropped, ∀ line ∈ mergeConsoleHistory history live, same old line →
      live.countP (same line) ≤ history.countP (same line)) :
    mergeConsoleHistory history (mergeConsoleHistory history live) = mergeConsoleHistory history live := by
  obtain ⟨-, -, hlength, -⟩ := merged_split history live
  have htotal := congrArg List.length hsplit
  rw [List.length_append] at htotal
  generalize hkept : mergeConsoleHistory history live = kept at hsplit hcut hlength htotal ⊢
  rw [merged_eq] at hsplit
  have hagain : merged history kept = matched key (counts key history) dropped ++ kept := by
    rw [merged_eq]
    refine sortBy_again createdAt_eq hsplit fun k hold hnew => ?_
    obtain ⟨old, hmem, rfl⟩ := counts_pos.mp hold
    obtain ⟨line, hline, hkey⟩ := counts_pos.mp hnew
    rw [← hkey, counts_eq_countP, counts_eq_countP]
    exact hcut old hmem line hline (decide_eq_true ((key_eq_iff old line).mp hkey.symm))
  rw [mergeConsoleHistory, hagain, List.length_append]
  cases dropped with
  | nil =>
      rw [matched, List.nil_append, List.length_nil, Nat.zero_add,
        Nat.sub_eq_zero_of_le (hlength ▸ Nat.min_le_left _ _), List.drop_zero]
  | cons old dropped =>
      have hfull : kept.length = MAX_CONSOLE_LOGS := by
        rw [List.length_cons] at htotal
        omega
      rw [hfull, Nat.add_sub_cancel, List.drop_left]

theorem countP_mergeConsoleHistory (t : String) :
    (mergeConsoleHistory history live).countP (t ≤ ·.createdAt) =
      min MAX_CONSOLE_LOGS (history.countP (t ≤ ·.createdAt) +
        (unmatched key (counts key history) live).countP (t ≤ ·.createdAt)) := by
  have hcount : (merged history live).countP (t ≤ ·.createdAt) = history.countP (t ≤ ·.createdAt) +
      (unmatched key (counts key history) live).countP (t ≤ ·.createdAt) := by
    rw [merged_eq, (sortBy_perm _).countP_eq, List.countP_append]
  have hle : (merged history live).countP (t ≤ ·.createdAt) ≤ (merged history live).length :=
    List.countP_le_length
  rw [mergeConsoleHistory, (merged_ordered history live).countP_drop, ← hcount]
  omega

theorem newest_le {live' : List ConsoleLogEntry} (t : String) (h : live.Sublist live') :
    (mergeConsoleHistory history live).countP (t ≤ ·.createdAt) ≤
      (mergeConsoleHistory history live').countP (t ≤ ·.createdAt) := by
  have hsub : (unmatched key (counts key history) live).Sublist
      (unmatched key (counts key history) live') := unmatched_of_sublist h _
  have hextra := hsub.countP_le (p := (t ≤ ·.createdAt))
  rw [countP_mergeConsoleHistory, countP_mergeConsoleHistory]
  omega

theorem history_merges : Merges history live := by
  obtain ⟨dropped, hsplit, hlength, -⟩ := merged_split history live
  have hordered := merged_ordered history live
  refine ⟨?_, fun line => ?_, ?_, ⟨dropped, hsplit, hlength, ?_⟩, merge_again history live,
    fun live' t => newest_le history live t⟩
  · exact hordered.sublist (List.drop_sublist _ _)
  · rw [← counts_eq_countP, ← counts_eq_countP, ← counts_eq_countP, counts_merged]
  · refine ⟨unmatched key (counts key history) live, unmatched_sublist _ _, fun t => ?_⟩
    rw [merged_eq, ← List.filter_append]
    exact filter_sortBy _ t
  · rw [hsplit] at hordered
    exact (List.pairwise_append.mp hordered).2.2

/-! ### The cut -/

/-- The first line of the history is dropped, and a live line like it is kept. -/
def chat (id message createdAt : String) : ConsoleLogEntry :=
  { id, minecraftAccountId := "a", type := .CHAT, message, createdAt }

def tied : List ConsoleLogEntry :=
  [chat "h1" "sold" "2026-01-01T00:00:00.000Z", chat "h2" "left" "2026-01-01T00:00:00.000Z"]

def later : List ConsoleLogEntry :=
  List.replicate 19998 (chat "l3" "hello" "2026-01-01T00:00:01.000Z")

def sold (id : String) : ConsoleLogEntry := chat id "sold" "2026-01-01T00:00:00.000Z"

theorem later_unmatched {count : List Char → ℕ} (h : ∀ k, count k ≤ counts key tied k) :
    unmatched key count later = later := by
  refine unmatched_eq_self fun line hline => ?_
  rw [List.eq_of_mem_replicate hline]
  exact Nat.le_zero.mp ((h _).trans (by decide))

theorem later_ordered {front : List ConsoleLogEntry}
    (h : ∀ line ∈ front, line.createdAt = "2026-01-01T00:00:00.000Z") :
    sortBy ConsoleLogEntry.createdAt (front ++ later) = front ++ later := by
  refine sortBy_eq (List.pairwise_append.mpr ⟨?_, ?_, ?_⟩) fun _ => rfl
  · exact List.pairwise_of_forall_mem_list fun a ha b hb => (h a ha).trans (h b hb).symm |>.le
  · exact List.pairwise_replicate.mpr (.inr le_rfl)
  · intro a ha b hb
    rw [h a ha, List.eq_of_mem_replicate hb]
    decide

theorem merged_once : merged tied (sold "l1" :: sold "l2" :: later) = tied ++ sold "l2" :: later := by
  have hextra : unmatched key (counts key tied) (sold "l1" :: sold "l2" :: later) =
      sold "l2" :: later := by
    rw [unmatched, if_neg (by decide), unmatched, if_pos (by decide), later_unmatched (use_le _)]
  rw [merged_eq, hextra]
  refine @later_ordered (tied ++ [sold "l2"]) fun line hline => ?_
  simp only [tied, List.cons_append, List.nil_append, List.mem_cons, List.not_mem_nil, or_false] at hline
  rcases hline with rfl | rfl | rfl <;> rfl

theorem merged_twice : merged tied (chat "h2" "left" "2026-01-01T00:00:00.000Z" :: sold "l2" :: later) =
    tied ++ later := by
  have hextra : unmatched key (counts key tied)
      (chat "h2" "left" "2026-01-01T00:00:00.000Z" :: sold "l2" :: later) = later := by
    rw [unmatched, if_neg (by decide), unmatched, if_neg (by decide),
      later_unmatched fun k => (use_le _ k).trans (use_le _ k)]
  rw [merged_eq, hextra]
  refine later_ordered fun line hline => ?_
  simp only [tied, List.mem_cons, List.not_mem_nil, or_false] at hline
  rcases hline with rfl | rfl <;> rfl

/-- Merged with the same history once more, it is the live line that is gone. -/
theorem history_merges_cut :
    mergeConsoleHistory tied (mergeConsoleHistory tied (sold "l1" :: sold "l2" :: later)) ≠
      mergeConsoleHistory tied (sold "l1" :: sold "l2" :: later) := by
  have hlength : later.length = 19998 := List.length_replicate
  have honce : mergeConsoleHistory tied (sold "l1" :: sold "l2" :: later) =
      chat "h2" "left" "2026-01-01T00:00:00.000Z" :: sold "l2" :: later := by
    rw [mergeConsoleHistory, merged_once]
    simp only [tied, List.cons_append, List.nil_append, List.length_cons, hlength, MAX_CONSOLE_LOGS,
      Nat.reduceAdd, Nat.reduceSub, List.drop_succ_cons, List.drop_zero]
  have htwice : mergeConsoleHistory tied
      (chat "h2" "left" "2026-01-01T00:00:00.000Z" :: sold "l2" :: later) = tied ++ later := by
    rw [mergeConsoleHistory, merged_twice]
    simp only [tied, List.cons_append, List.nil_append, List.length_cons, hlength, MAX_CONSOLE_LOGS,
      Nat.reduceAdd, Nat.reduceSub, List.drop_zero]
  rw [honce, htwice]
  intro h
  have hhead := congrArg (·.head?.map ConsoleLogEntry.message) h
  simp [tied, chat] at hhead

end AfkClient.ConsoleBuffer
