import Mathlib.Data.List.Sort
import Mathlib.Order.Basic

/-! Lists that are merged by a key and sorted by a time: what a stable sort keeps, and which rows
of a list are left over when another list accounts for some of them. -/

namespace AfkClient.Merging

/-! ### Stable sorting -/

section Sorting

variable {α τ : Type*} [LinearOrder τ] (time : α → τ)

def sortBy (rows : List α) : List α := rows.mergeSort fun a b => decide (time a ≤ time b)

def Ordered (rows : List α) : Prop := rows.Pairwise fun a b => time a ≤ time b

variable {time} {rows rows' : List α}

theorem sortBy_perm (rows : List α) : (sortBy time rows).Perm rows := List.mergeSort_perm ..

theorem le_trans' (a b c : α) (hab : decide (time a ≤ time b)) (hbc : decide (time b ≤ time c)) :
    decide (time a ≤ time c) :=
  decide_eq_true ((of_decide_eq_true hab).trans (of_decide_eq_true hbc))

theorem le_total' (a b : α) : (decide (time a ≤ time b) || decide (time b ≤ time a)) = true := by
  simpa using le_total (time a) (time b)

theorem sortBy_ordered (rows : List α) : Ordered time (sortBy time rows) :=
  (List.pairwise_mergeSort le_trans' le_total' rows).imp of_decide_eq_true

/-- The rows of one time keep their order. -/
theorem filter_sortBy (rows : List α) (t : τ) :
    (sortBy time rows).filter (time · = t) = rows.filter (time · = t) := by
  have htied : (rows.filter (time · = t)).Pairwise fun a b => decide (time a ≤ time b) := by
    refine List.pairwise_of_forall_mem_list fun a ha b hb => ?_
    have hta := of_decide_eq_true (List.mem_filter.mp ha).2
    have htb := of_decide_eq_true (List.mem_filter.mp hb).2
    exact decide_eq_true (hta.trans htb.symm).le
  have hsub := (List.sublist_mergeSort le_trans' le_total' htied List.filter_sublist).filter
    (time · = t)
  rw [List.filter_filter] at hsub
  simp only [Bool.and_self] at hsub
  exact (hsub.eq_of_length ((sortBy_perm rows).symm.filter _).length_eq).symm

theorem Ordered.sublist (h : Ordered time rows) (hsub : rows'.Sublist rows) : Ordered time rows' :=
  List.Pairwise.sublist hsub h

theorem mem_iff_of_filter (hfilter : ∀ t, rows.filter (time · = t) = rows'.filter (time · = t)) (a : α) :
    a ∈ rows ↔ a ∈ rows' := by
  have hmem : a ∈ rows.filter (time · = time a) ↔ a ∈ rows'.filter (time · = time a) := by
    rw [hfilter]
  simpa using hmem

/-- An order is determined by the rows of each time. -/
theorem Ordered.eq_of_filter (h : Ordered time rows) (h' : Ordered time rows')
    (hfilter : ∀ t, rows.filter (time · = t) = rows'.filter (time · = t)) : rows = rows' := by
  induction rows generalizing rows' with
  | nil =>
      cases rows' with
      | nil => rfl
      | cons b rest' => exact absurd ((mem_iff_of_filter hfilter b).mpr (by simp)) List.not_mem_nil
  | cons a rest ih =>
      cases rows' with
      | nil => exact absurd ((mem_iff_of_filter hfilter a).mp (by simp)) List.not_mem_nil
      | cons b rest' =>
          have hfirst := List.pairwise_cons.mp h
          have hfirst' := List.pairwise_cons.mp h'
          have htime : time a = time b := by
            apply le_antisymm
            · rcases List.mem_cons.mp ((mem_iff_of_filter hfilter b).mpr (by simp)) with rfl | hb
              · exact le_rfl
              · exact hfirst.1 b hb
            · rcases List.mem_cons.mp ((mem_iff_of_filter hfilter a).mp (by simp)) with rfl | ha
              · exact le_rfl
              · exact hfirst'.1 a ha
          have hhead := hfilter (time a)
          rw [List.filter_cons_of_pos (by simp), List.filter_cons_of_pos (by simp [htime])] at hhead
          obtain ⟨rfl, -⟩ := List.cons.inj hhead
          rw [ih hfirst.2 hfirst'.2 fun t => ?_]
          have hrest := hfilter t
          by_cases ht : time a = t
          · rw [List.filter_cons_of_pos (by simpa), List.filter_cons_of_pos (by simpa)] at hrest
            exact (List.cons.inj hrest).2
          · rw [List.filter_cons_of_neg (by simpa), List.filter_cons_of_neg (by simpa)] at hrest
            exact hrest

theorem sortBy_eq (h : Ordered time rows') (hfilter : ∀ t, rows'.filter (time · = t) =
    rows.filter (time · = t)) : sortBy time rows = rows' :=
  (sortBy_ordered rows).eq_of_filter h fun t => (filter_sortBy rows t).trans (hfilter t).symm

/-- How many of the last rows are not older than a time. -/
theorem Ordered.countP_drop (h : Ordered time rows) (t : τ) (n : ℕ) :
    (rows.drop n).countP (t ≤ time ·) = min (rows.length - n) (rows.countP (t ≤ time ·)) := by
  induction rows generalizing n with
  | nil => simp
  | cons a rest ih =>
      have hfirst := List.pairwise_cons.mp h
      cases n with
      | zero => exact (Nat.min_eq_right List.countP_le_length).symm
      | succ n =>
          rw [List.drop_succ_cons, ih hfirst.2 n, List.length_cons]
          by_cases ha : t ≤ time a
          · have hall : rest.countP (t ≤ time ·) = rest.length :=
              List.countP_eq_length.mpr fun b hb => decide_eq_true (ha.trans (hfirst.1 b hb))
            rw [List.countP_cons_of_pos (by simpa using ha), hall]
            omega
          · rw [List.countP_cons_of_neg (by simpa using ha)]
            omega

end Sorting

/-! ### Rows left over -/

section Match

variable {α κ : Type*} [DecidableEq κ] (key : α → κ)

/-- How often each key occurs. -/
def counts (rows : List α) (k : κ) : ℕ := rows.countP (key · = k)

/-- One less of a key. -/
def use (count : κ → ℕ) (k : κ) : κ → ℕ := fun k' => if k' = k then count k - 1 else count k'

/-- The rows for which none of their key was left. -/
def unmatched (count : κ → ℕ) : List α → List α
  | [] => []
  | a :: rows => if count (key a) = 0 then a :: unmatched count rows else unmatched (use count (key a)) rows

/-- The others. -/
def matched (count : κ → ℕ) : List α → List α
  | [] => []
  | a :: rows => if count (key a) = 0 then matched count rows else a :: matched (use count (key a)) rows

variable {key} {count count' : κ → ℕ} {rows rows' : List α}

theorem use_self (k : κ) : use count k k = count k - 1 := if_pos rfl

theorem use_of_ne {k k' : κ} (h : k' ≠ k) : use count k k' = count k' := if_neg h

@[simp] theorem counts_nil (k : κ) : counts key ([] : List α) k = 0 := rfl

theorem counts_cons (a : α) (rows : List α) (k : κ) :
    counts key (a :: rows) k = counts key rows k + if key a = k then 1 else 0 := by
  simp [counts, List.countP_cons]

theorem counts_append (rows rows' : List α) (k : κ) :
    counts key (rows ++ rows') k = counts key rows k + counts key rows' k := by
  simp [counts]

theorem counts_pos {k : κ} : 0 < counts key rows k ↔ ∃ a ∈ rows, key a = k := by
  simp [counts, List.countP_pos_iff]

theorem counts_perm (h : rows.Perm rows') : counts key rows = counts key rows' :=
  funext fun _ => h.countP_eq _

theorem counts_unmatched (count : κ → ℕ) (rows : List α) (k : κ) :
    counts key (unmatched key count rows) k = counts key rows k - count k := by
  induction rows generalizing count with
  | nil => simp [unmatched]
  | cons a rows ih =>
      rw [unmatched]
      split
      · rename_i hzero
        rw [counts_cons, counts_cons, ih]
        split
        · rename_i hk
          subst hk
          omega
        · rfl
      · rename_i hleft
        rw [ih, counts_cons]
        split
        · rename_i hk
          subst hk
          rw [use_self]
          omega
        · rename_i hk
          rw [use_of_ne (Ne.symm hk)]
          rfl

theorem unmatched_sublist (count : κ → ℕ) (rows : List α) : (unmatched key count rows).Sublist rows := by
  induction rows generalizing count with
  | nil => exact List.Sublist.slnil
  | cons a rows ih =>
      rw [unmatched]
      split
      · exact (ih count).cons_cons a
      · exact (ih _).cons a

theorem matched_sublist (count : κ → ℕ) (rows : List α) : (matched key count rows).Sublist rows := by
  induction rows generalizing count with
  | nil => exact List.Sublist.slnil
  | cons a rows ih =>
      rw [matched]
      split
      · exact (ih count).cons a
      · exact (ih _).cons_cons a

/-- Only the counts of the keys in the list matter. -/
theorem unmatched_congr (h : ∀ a ∈ rows, count (key a) = count' (key a)) :
    unmatched key count rows = unmatched key count' rows := by
  induction rows generalizing count count' with
  | nil => rfl
  | cons a rows ih =>
      have ha := h a List.mem_cons_self
      have hrest := fun b hb => h b (List.mem_cons_of_mem a hb)
      rw [unmatched, unmatched, ha]
      split
      · rw [ih hrest]
      · refine ih fun b hb => ?_
        unfold use
        split
        · rw [ha]
        · exact hrest b hb

theorem matched_congr (h : ∀ a ∈ rows, count (key a) = count' (key a)) :
    matched key count rows = matched key count' rows := by
  induction rows generalizing count count' with
  | nil => rfl
  | cons a rows ih =>
      have ha := h a List.mem_cons_self
      have hrest := fun b hb => h b (List.mem_cons_of_mem a hb)
      rw [matched, matched, ha]
      split
      · rw [ih hrest]
      · refine congrArg (a :: ·) (ih fun b hb => ?_)
        unfold use
        split
        · rw [ha]
        · exact hrest b hb

theorem unmatched_eq_self (h : ∀ a ∈ rows, count (key a) = 0) : unmatched key count rows = rows := by
  induction rows with
  | nil => rfl
  | cons a rows ih =>
      rw [unmatched, if_pos (h a List.mem_cons_self), ih fun b hb => h b (List.mem_cons_of_mem a hb)]

theorem matched_eq_nil (h : ∀ a ∈ rows, count (key a) = 0) : matched key count rows = [] := by
  induction rows with
  | nil => rfl
  | cons a rows ih =>
      rw [matched, if_pos (h a List.mem_cons_self), ih fun b hb => h b (List.mem_cons_of_mem a hb)]

/-- With a row of which one was left, none more is needed for the others. -/
theorem counts_use {a : α} (h : ∀ k, counts key (a :: rows) k ≤ count k) (k : κ) :
    counts key rows k ≤ use count (key a) k := by
  have hk := h k
  rw [counts_cons] at hk
  unfold use
  split
  · rename_i heq
    subst heq
    rw [if_pos rfl] at hk
    omega
  · exact Nat.le_of_add_right_le hk

theorem unmatched_append_of_le (h : ∀ k, counts key rows k ≤ count k) :
    unmatched key count (rows ++ rows') = unmatched key (fun k => count k - counts key rows k) rows' := by
  induction rows generalizing count with
  | nil => simp
  | cons a rows ih =>
      have ha := h (key a)
      rw [counts_cons, if_pos rfl] at ha
      rw [List.cons_append, unmatched, if_neg (by omega), ih (counts_use h)]
      refine unmatched_congr fun b _ => ?_
      rw [counts_cons]
      unfold use
      split
      · rename_i heq
        rw [if_pos heq.symm, heq]
        omega
      · rename_i hne
        rw [if_neg (Ne.symm hne)]
        rfl

theorem matched_append_of_le (h : ∀ k, counts key rows k ≤ count k) :
    matched key count (rows ++ rows') =
      rows ++ matched key (fun k => count k - counts key rows k) rows' := by
  induction rows generalizing count with
  | nil => simp
  | cons a rows ih =>
      have ha := h (key a)
      rw [counts_cons, if_pos rfl] at ha
      rw [List.cons_append, matched, if_neg (by omega), ih (counts_use h), List.cons_append]
      refine congrArg (a :: rows ++ ·) (matched_congr fun b _ => ?_)
      rw [counts_cons]
      unfold use
      split
      · rename_i heq
        rw [if_pos heq.symm, heq]
        omega
      · rename_i hne
        rw [if_neg (Ne.symm hne)]
        rfl

/-- With fewer to account for rows, more of them are left over. -/
theorem unmatched_mono (h : ∀ k, count' k ≤ count k) (rows : List α) :
    (unmatched key count rows).Sublist (unmatched key count' rows) := by
  induction rows generalizing count count' with
  | nil => exact List.Sublist.slnil
  | cons a rows ih =>
      have ha := h (key a)
      have huse : ∀ k, count' k ≤ count k → use count' (key a) k ≤ use count (key a) k := by
        intro k hk
        unfold use
        split <;> omega
      rw [unmatched, unmatched]
      split
      · rw [if_pos (by omega)]
        exact (ih h).cons_cons a
      · split
        · rename_i hzero
          refine (ih fun k => ?_).cons a
          unfold use
          split
          · rename_i hk
            rw [hk]
            omega
          · exact h k
        · exact ih fun k => huse k (h k)

theorem use_le (k k' : κ) : use count k k' ≤ count k' := by
  unfold use
  split
  · rename_i h
    rw [h]
    omega
  · exact Nat.le_refl _

/-- Of a longer list, more rows are left over. -/
theorem unmatched_of_sublist (h : rows.Sublist rows') (count : κ → ℕ) :
    (unmatched key count rows).Sublist (unmatched key count rows') := by
  induction h generalizing count with
  | slnil => exact List.Sublist.slnil
  | cons a _ ih =>
      rw [unmatched.eq_def key count (a :: _)]
      dsimp only
      split
      · exact (ih count).cons a
      · exact (unmatched_mono (use_le (key a)) _).trans (ih _)
  | cons_cons a _ ih =>
      rw [unmatched, unmatched]
      split
      · exact (ih count).cons_cons a
      · exact ih _

end Match

/-! ### Rows of one time -/

section Merge

variable {α κ τ : Type*} [DecidableEq κ] [LinearOrder τ] {key : α → κ} {time : α → τ}
  (hkey : ∀ a b, key a = key b → time a = time b)

include hkey

theorem filter_unmatched (count : κ → ℕ) (rows : List α) (t : τ) :
    (unmatched key count rows).filter (time · = t) =
      unmatched key count (rows.filter (time · = t)) := by
  induction rows generalizing count with
  | nil => rfl
  | cons a rows ih =>
      by_cases ht : time a = t
      · rw [List.filter_cons_of_pos (by simpa), unmatched, unmatched]
        split
        · rw [List.filter_cons_of_pos (by simpa), ih]
        · exact ih _
      · rw [List.filter_cons_of_neg (by simpa), unmatched]
        split
        · rw [List.filter_cons_of_neg (by simpa), ih]
        · rw [ih]
          refine unmatched_congr fun b hb => use_of_ne fun heq => ht ?_
          exact (hkey b a heq).symm.trans (of_decide_eq_true (List.mem_filter.mp hb).2)

theorem filter_matched (count : κ → ℕ) (rows : List α) (t : τ) :
    (matched key count rows).filter (time · = t) = matched key count (rows.filter (time · = t)) := by
  induction rows generalizing count with
  | nil => rfl
  | cons a rows ih =>
      by_cases ht : time a = t
      · rw [List.filter_cons_of_pos (by simpa), matched, matched]
        split
        · exact ih _
        · rw [List.filter_cons_of_pos (by simpa), ih]
      · rw [List.filter_cons_of_neg (by simpa), matched]
        split
        · exact ih _
        · rw [List.filter_cons_of_neg (by simpa), ih]
          refine matched_congr fun b hb => use_of_ne fun heq => ht ?_
          exact (hkey b a heq).symm.trans (of_decide_eq_true (List.mem_filter.mp hb).2)

theorem counts_filter (rows : List α) (a : α) :
    counts key (rows.filter (time · = time a)) (key a) = counts key rows (key a) := by
  induction rows with
  | nil => rfl
  | cons b rows ih =>
      by_cases hb : time b = time a
      · rw [List.filter_cons_of_pos (by simpa), counts_cons, counts_cons, ih]
      · rw [List.filter_cons_of_neg (by simpa), counts_cons, ih, if_neg fun heq => hb (hkey b a heq)]
        rfl

omit hkey in
theorem counts_filter_le (rows : List α) (p : α → Bool) (k : κ) :
    counts key (rows.filter p) k ≤ counts key rows k :=
  List.filter_sublist.countP_le

/-- A list is merged again with what is left of it when its oldest rows were dropped. Where no rows
of one key, some of them left over, were torn apart, only rows that were dropped come back. -/
theorem sortBy_again {history live dropped kept : List α}
    (hmerged : sortBy time (history ++ unmatched key (counts key history) live) = dropped ++ kept)
    (hcut : ∀ k, 0 < counts key dropped k → 0 < counts key kept k →
      counts key live k ≤ counts key history k) :
    sortBy time (history ++ unmatched key (counts key history) kept) =
      matched key (counts key history) dropped ++ kept := by
  refine sortBy_eq ?_ fun t => ?_
  · refine (hmerged ▸ sortBy_ordered _ : Ordered time (dropped ++ kept)).sublist ?_
    exact (matched_sublist _ _).append_right kept
  · have hsplit := @filter_sortBy α τ _ time (history ++ unmatched key (counts key history) live) t
    rw [hmerged, List.filter_append, List.filter_append, filter_unmatched hkey] at hsplit
    rw [List.filter_append, List.filter_append, filter_matched hkey, filter_unmatched hkey]
    generalize hextra : unmatched key (counts key history) (live.filter (time · = t)) = extra at hsplit
    have htime : ∀ {a : α} {rows : List α}, a ∈ rows.filter (time · = t) → time a = t :=
      fun ha => of_decide_eq_true (List.mem_filter.mp ha).2
    -- the rows left over at this time have a key of which none was dropped
    have hsafe : ∀ a ∈ extra, a ∈ kept.filter (time · = t) → counts key dropped (key a) = 0 := by
      intro a ha hkept
      by_contra hdropped
      have hle := hcut (key a) (Nat.pos_of_ne_zero hdropped)
        (counts_pos.mpr ⟨a, List.mem_of_mem_filter hkept, rfl⟩)
      have hpos : 0 < counts key extra (key a) := counts_pos.mpr ⟨a, ha, rfl⟩
      rw [← hextra, counts_unmatched] at hpos
      have hlive := @counts_filter_le α κ _ key live (time · = t) (key a)
      omega
    have hown : ∀ {a : α}, time a = t → counts key history (key a) =
        counts key (history.filter (time · = t)) (key a) := by
      rintro a rfl
      exact (counts_filter hkey history a).symm
    have hbound : ∀ k, counts key (history.filter (time · = t)) k ≤ counts key history k :=
      counts_filter_le history _
    rcases List.append_eq_append_iff.mp hsplit with ⟨rest, hhistory, hkept⟩ | ⟨more, hdropped, hrest⟩
    · -- some of the history at this time is kept, and all rows left over
      have hfront : ∀ k, counts key (dropped.filter (time · = t)) k ≤ counts key history k := by
        intro k
        have hk := hbound k
        rw [hhistory, counts_append] at hk
        omega
      have hback : ∀ k, counts key rest k ≤ counts key history k := by
        intro k
        have hk := hbound k
        rw [hhistory, counts_append] at hk
        omega
      have hmatched := @matched_append_of_le α κ _ key _ _ [] hfront
      rw [List.append_nil, matched, List.append_nil] at hmatched
      have hunmatched := @unmatched_append_of_le α κ _ key _ _ extra hback
      have hself : unmatched key (fun k => counts key history k - counts key rest k) extra = extra := by
        refine unmatched_eq_self fun a ha => ?_
        have hmem : a ∈ kept.filter (time · = t) := hkept ▸ List.mem_append_right _ ha
        have hzero := hsafe a ha hmem
        have hle := @counts_filter_le α κ _ key dropped (time · = t) (key a)
        have hcount := hown (htime hmem)
        rw [hhistory, counts_append] at hcount
        omega
      rw [hmatched, hkept, hunmatched, hself, hhistory, List.append_assoc]
    · -- the history at this time is dropped, with some rows left over
      have hmatched := @matched_append_of_le α κ _ key _ _ more hbound
      have hnone : matched key (fun k => counts key history k -
          counts key (history.filter (time · = t)) k) more = [] := by
        refine matched_eq_nil fun a ha => ?_
        have hmem : a ∈ dropped.filter (time · = t) := hdropped ▸ List.mem_append_right _ ha
        have hcount := hown (htime hmem)
        omega
      have hself : unmatched key (counts key history) (kept.filter (time · = t)) =
          kept.filter (time · = t) := by
        refine unmatched_eq_self fun a ha => ?_
        have hzero := hsafe a (hrest ▸ List.mem_append_right _ ha) ha
        have hle := @counts_filter_le α κ _ key dropped (time · = t) (key a)
        have hcount := hown (htime ha)
        rw [hdropped, counts_append] at hle
        omega
      rw [hdropped, hmatched, hnone, List.append_nil, hself]

end Merge

end AfkClient.Merging
