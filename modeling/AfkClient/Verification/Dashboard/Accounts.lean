import AfkClient.Model.DashboardAccounts
import Mathlib.Algebra.Order.Ring.Int

/-! What the dashboard shows of the accounts, while loads, live updates and deletions interleave. -/

namespace AfkClient.DashboardAccounts

open State

/-! ### Sales -/

def SoldLe (a b : Option ℤ) : Prop := ∀ at₁ ∈ a, ∃ at₂ ∈ b, at₁ ≤ at₂

theorem SoldLe.refl (a : Option ℤ) : SoldLe a a := fun at₁ h => ⟨at₁, h, le_rfl⟩

theorem SoldLe.trans {a b c : Option ℤ} (h : SoldLe a b) (h' : SoldLe b c) : SoldLe a c := by
  intro at₁ hat₁
  obtain ⟨at₂, hat₂, hle⟩ := h at₁ hat₁
  obtain ⟨at₃, hat₃, hle'⟩ := h' at₂ hat₂
  exact ⟨at₃, hat₃, hle.trans hle'⟩

/-- The later one of two sales. -/
def merge : Option ℤ → Option ℤ → Option ℤ
  | none, sold => sold
  | some live, sold => if sold.all (· < live) then some live else sold

theorem lastSellAt_withLive (lastSales : String → Option ℤ) (a : Account) :
    (withLive lastSales a).lastSellAt = merge (lastSales a.id) a.lastSellAt := by
  unfold withLive
  cases lastSales a.id with
  | none => rfl
  | some live =>
      simp only [merge]
      split <;> rfl

theorem id_withLive (lastSales : String → Option ℤ) (a : Account) :
    (withLive lastSales a).id = a.id := by
  rw [withLive]
  split
  · split <;> rfl
  · rfl

theorem imageUrl_withLive (lastSales : String → Option ℤ) (a : Account) :
    (withLive lastSales a).imageUrl = a.imageUrl := by
  rw [withLive]
  split
  · split <;> rfl
  · rfl

theorem merge_mono {live live' sold sold' : Option ℤ} (hlive : SoldLe live live')
    (hsold : SoldLe sold sold') : SoldLe (merge live sold) (merge live' sold') := by
  have hold : SoldLe sold' (merge live' sold') := by
    cases live' with
    | none => exact SoldLe.refl _
    | some live' =>
        rw [merge]
        split
        · rename_i hall
          intro at₁ hat₁
          obtain rfl := Option.mem_def.mp hat₁
          exact ⟨live', rfl, (of_decide_eq_true hall).le⟩
        · exact SoldLe.refl _
  have hnew : SoldLe live' (merge live' sold') := by
    cases live' with
    | none => nofun
    | some live' =>
        rw [merge]
        split
        · exact SoldLe.refl _
        · rename_i hall
          cases sold' with
          | none => exact absurd rfl hall
          | some at₂ =>
              rintro _ ⟨⟩
              exact ⟨at₂, rfl, not_lt.mp fun hlt => hall (decide_eq_true hlt)⟩
  cases live with
  | none => exact hsold.trans hold
  | some live =>
      rw [merge]
      split
      · exact hlive.trans hnew
      · exact hsold.trans hold

/-- A live sale that is newer than the last one. -/
theorem merge_newer {live : Option ℤ} {at₁ : ℤ} (h : live.any (at₁ ≤ ·) = false) (sold : Option ℤ) :
    merge (some at₁) sold = merge (some at₁) (merge live sold) := by
  cases live with
  | none => rfl
  | some live =>
      have hlt : live < at₁ := not_le.mp (of_decide_eq_false h)
      rw [merge.eq_def (some live)]
      simp only
      cases sold with
      | none => simp [merge, hlt]
      | some at₂ =>
          by_cases hat₂ : at₂ < live
          · have hall : at₂ < at₁ := hat₂.trans hlt
            simp [merge, hat₂, hlt, hall]
          · simp [merge, hat₂]

/-! ### The list -/

/-- The list stems from the server's state at a moment, with what was seen live since. -/
structure Shows (server : Server) (lastSales : String → Option ℤ) (updates : List ImageUpdate)
    (moment : ℕ) (list : List Account) : Prop where
  ids : ids list = ids (server.accounts moment)
  sold : ∀ a ∈ list, ∃ b ∈ server.accounts moment, b.id = a.id ∧
    a.lastSellAt = merge (lastSales a.id) b.lastSellAt
  image : ∀ a ∈ list, ∃ m, (∀ u ∈ updates, u.id = a.id → u.moment ≤ m) ∧
    ∃ b ∈ server.accounts m, b.id = a.id ∧ b.imageUrl = a.imageUrl

theorem shows_loaded (server : Server) (lastSales : String → Option ℤ) {updates : List ImageUpdate}
    {moment : ℕ} (hupdates : ∀ u ∈ updates, u.moment ≤ moment) :
    Shows server lastSales updates moment ((server.accounts moment).map (withLive lastSales)) := by
  constructor
  · rw [State.ids, List.map_map]
    exact List.map_congr_left fun a _ => id_withLive lastSales a
  · intro a ha
    obtain ⟨b, hb, rfl⟩ := List.mem_map.mp ha
    rw [id_withLive, lastSellAt_withLive]
    exact ⟨b, hb, rfl, rfl⟩
  · intro a ha
    obtain ⟨b, hb, rfl⟩ := List.mem_map.mp ha
    rw [id_withLive, imageUrl_withLive]
    exact ⟨moment, fun u hu _ => hupdates u hu, b, hb, rfl, rfl⟩

theorem Shows.updateImage {server : Server} {lastSales : String → Option ℤ}
    {updates : List ImageUpdate} {moment : ℕ} {list : List Account}
    (h : Shows server lastSales updates moment list) {update : ImageUpdate}
    (horder : ∀ old ∈ updates, old.moment ≤ update.moment)
    (hserver : ∃ a ∈ server.accounts update.moment,
      a.id = update.id ∧ a.imageUrl = some update.imageUrl) :
    Shows server lastSales (update :: updates) moment (list.map fun a =>
      if a.id = update.id then { a with imageUrl := some update.imageUrl } else a) := by
  obtain ⟨hids, hsold, himage⟩ := h
  constructor
  · rw [← hids, State.ids, State.ids, List.map_map]
    refine List.map_congr_left fun a _ => ?_
    simp only [Function.comp_apply]
    split <;> rfl
  · intro a ha
    obtain ⟨b, hb, rfl⟩ := List.mem_map.mp ha
    have hb := hsold b hb
    split <;> exact hb
  · intro a ha
    obtain ⟨b, hb, rfl⟩ := List.mem_map.mp ha
    split
    · rename_i hid
      obtain ⟨c, hc, hcid, hcimage⟩ := hserver
      refine ⟨update.moment, fun u hu _ => ?_, c, hc, hcid.trans hid.symm, hcimage⟩
      rcases List.mem_cons.mp hu with rfl | hu
      · exact le_rfl
      · exact horder u hu
    · rename_i hid
      obtain ⟨m, hm, hserver⟩ := himage b hb
      refine ⟨m, fun u hu huid => ?_, hserver⟩
      rcases List.mem_cons.mp hu with rfl | hu
      · exact absurd huid.symm hid
      · exact hm u hu huid

theorem Shows.updateSale {server : Server} {lastSales : String → Option ℤ}
    {updates : List ImageUpdate} {moment : ℕ} {list : List Account}
    (h : Shows server lastSales updates moment list) {id : String} {at₁ : ℤ}
    (hnewer : (lastSales id).any (at₁ ≤ ·) = false) :
    Shows server (fun other => if other = id then some at₁ else lastSales other) updates moment
      (list.map fun a => if a.id = id && a.lastSellAt.all (· < at₁) then
        { a with lastSellAt := some at₁ } else a) := by
  obtain ⟨hids, hsold, himage⟩ := h
  constructor
  · rw [← hids, State.ids, State.ids, List.map_map]
    refine List.map_congr_left fun a _ => ?_
    simp only [Function.comp_apply]
    split <;> rfl
  · intro a ha
    obtain ⟨b, hb, rfl⟩ := List.mem_map.mp ha
    obtain ⟨c, hc, hcid, hcsold⟩ := hsold b hb
    refine ⟨c, hc, ?_⟩
    by_cases hid : b.id = id
    · subst hid
      have hmerge := merge_newer hnewer c.lastSellAt
      rw [← hcsold, merge.eq_def (some at₁) b.lastSellAt] at hmerge
      simp only [decide_true, Bool.true_and] at hmerge ⊢
      split
      · rename_i hall
        rw [if_pos hall] at hmerge
        exact ⟨hcid, by rw [if_pos rfl]; exact hmerge.symm⟩
      · rename_i hall
        rw [if_neg hall] at hmerge
        exact ⟨hcid, by rw [if_pos rfl]; exact hmerge.symm⟩
    · simp only [hid, decide_false, Bool.false_and, Bool.false_eq_true, if_false]
      exact ⟨hcid, hcsold⟩
  · intro a ha
    obtain ⟨b, hb, rfl⟩ := List.mem_map.mp ha
    have hb := himage b hb
    split <;> exact hb

/-! ### Steps -/

def State.answered (s : State) (request : ℕ) : Option (Option ℕ) :=
  (s.requests[request]?).bind (·.answer)

/-- A list is shown only if it is not older than the one that is shown already, and not older than
the image updates. -/
def InOrder (s : State) : Event → Prop
  | .settle load true => ∀ request moment, s.loads[load]? = some ⟨request, .running⟩ →
      s.answered request = some (some moment) →
      (∀ shown ∈ s.origin, shown.1 ≤ request ∧ shown.2 ≤ moment) ∧
        ∀ update ∈ s.updates, update.moment ≤ moment
  | _ => True

def AllInOrder (server : Server) : State → List (ℕ × Event) → Prop
  | _, [] => True
  | s, event :: events => InOrder s event.2 ∧ AllInOrder server (s.step server event) events

/-- What a step can do to requests, loads and the list. -/
inductive Changes (server : Server) (s : State) : State → Prop
  | idle : Changes server s s
  | clear : Changes server s { s with pendingRead := none }
  | join {request : ℕ} (h : s.pendingRead = some request) :
      Changes server s { s with loads := s.loads ++ [{ request := request }] }
  | send (h : s.pendingRead = none) : Changes server s { s with
      requests := s.requests ++ [{ started := s.now }]
      pendingRead := some s.requests.length
      loads := s.loads ++ [{ request := s.requests.length }] }
  | answer {request started : ℕ} {answer : Option ℕ} (pending : Option ℕ)
      (h : s.requests[request]? = some ⟨started, none⟩)
      (hpending : ∀ r ∈ pending, s.pendingRead = some r)
      (hmoment : ∀ moment ∈ answer, started ≤ moment) : Changes server s { s with
        requests := s.requests.set request ⟨started, some answer⟩
        pendingRead := pending }
  | fail {load request : ℕ} (h : s.loads[load]? = some ⟨request, .running⟩) :
      Changes server s { s with loads := s.loads.set load ⟨request, .failed⟩ }
  | «show» {load request moment : ℕ} (h : s.loads[load]? = some ⟨request, .running⟩)
      (hanswer : s.answered request = some (some moment))
      (horder : (∀ shown ∈ s.origin, shown.1 ≤ request ∧ shown.2 ≤ moment) ∧
        ∀ update ∈ s.updates, update.moment ≤ moment) : Changes server s { s with
          accounts := some ((server.accounts moment).map (withLive s.lastSales))
          origin := some (request, moment)
          loads := s.loads.set load ⟨request, .shown⟩ }
  | image {update : ImageUpdate} (horder : ∀ old ∈ s.updates, old.moment ≤ update.moment)
      (hserver : ∃ a ∈ server.accounts update.moment,
        a.id = update.id ∧ a.imageUrl = some update.imageUrl) :
      Changes server s (s.updateImage update)
  | sale {id : String} {at₁ : ℤ} (h : (s.lastSales id).any (at₁ ≤ ·) = false) :
      Changes server s { s with
        lastSales := fun other => if other = id then some at₁ else s.lastSales other
        accounts := s.accounts.map fun accounts => accounts.map fun a =>
          if a.id = id && a.lastSellAt.all (· < at₁) then { a with lastSellAt := some at₁ } else a }

theorem step_changes {server : Server} {s : State} {now : ℕ} {event : Event}
    (hlegal : Legal server s now event) (horder : InOrder s event) :
    Changes server { s with now := now } (s.step server (now, event)) := by
  cases event with
  | load =>
      change Changes server { s with now := now } (State.load { s with now := now })
      generalize ({ s with now := now } : State) = t
      rw [State.load, State.get]
      cases hpending : t.pendingRead with
      | none => exact .send hpending
      | some request => exact .join hpending
  | clearApiReadCache => exact .clear
  | deleted id => exact .clear
  | respond request answer =>
      rw [State.step, State.respond]
      split
      · rename_i started hrequest
        refine .answer _ hrequest ?_ fun moment hmoment => ?_
        · intro r hr
          split at hr
          · cases hr
          · exact hr
        · obtain rfl := Option.mem_def.mp hmoment
          obtain ⟨r, hr, hstarted, -⟩ := hlegal
          obtain rfl := Option.some.inj (hr.symm.trans hrequest)
          exact hstarted
      · exact .idle
  | settle load users =>
      rw [State.step, State.settle]
      split
      · rename_i request hload
        cases users with
        | false => exact .fail hload
        | true =>
            simp only [if_true]
            split
            · rename_i moment hanswer
              exact .show hload hanswer (horder request moment hload hanswer)
            · exact .fail hload
            · exact .idle
      · exact .idle
  | updateImage update => exact .image hlegal.2.1 hlegal.2.2
  | updateSale id at₁ =>
      rw [State.step, State.updateSale]
      cases hnewer : (s.lastSales id).any (at₁ ≤ ·) with
      | true => exact .idle
      | false => exact .sale hnewer

/-! ### Invariants -/

/-- The list that is shown stems from the latest request of a load that was shown. -/
def Origin (server : Server) (s : State) : Prop :=
  match s.origin with
  | none => s.accounts = none ∧ ∀ load ∈ s.loads, load.status ≠ .shown
  | some (request, moment) => s.answered request = some (some moment) ∧
      (∃ load ∈ s.loads, load.request = request ∧ load.status = .shown) ∧
      (∀ load ∈ s.loads, load.status = .shown → load.request ≤ request) ∧
      ∃ list, s.accounts = some list ∧ Shows server s.lastSales s.updates moment list

structure Inv (server : Server) (s : State) : Prop where
  answers : ∀ r ∈ s.requests, ∀ moment, r.answer = some (some moment) → r.started ≤ moment
  pending : ∀ r ∈ s.pendingRead, r + 1 = s.requests.length
  loads : ∀ load ∈ s.loads, load.request < s.requests.length
  sorted : (s.loads.map Load.request).Pairwise (· ≤ ·)
  origin : Origin server s

theorem Origin.keep {server : Server} {s t : State} (h : Origin server s)
    (horigin : t.origin = s.origin) (haccounts : t.accounts = s.accounts)
    (hsales : t.lastSales = s.lastSales) (hupdates : t.updates = s.updates)
    (hanswers : ∀ request moment, s.answered request = some (some moment) →
      t.answered request = some (some moment))
    (hloads : ∀ load, load.status = .shown → (load ∈ t.loads ↔ load ∈ s.loads)) :
    Origin server t := by
  rw [Origin, horigin]
  rw [Origin] at h
  cases hshown : s.origin with
  | none =>
      rw [hshown] at h
      exact ⟨haccounts.trans h.1, fun load hload hstatus =>
        h.2 load ((hloads load hstatus).mp hload) hstatus⟩
  | some shown =>
      rw [hshown] at h
      obtain ⟨hanswer, ⟨load, hload, hrequest, hstatus⟩, hlatest, hlist⟩ := h
      refine ⟨hanswers _ _ hanswer, ⟨load, (hloads load hstatus).mpr hload, hrequest, hstatus⟩,
        fun load hload hstatus => hlatest load ((hloads load hstatus).mp hload) hstatus, ?_⟩
      rw [haccounts, hsales, hupdates]
      exact hlist

theorem mem_added {loads : List Load} {request : ℕ} (load : Load) (h : load.status = .shown) :
    load ∈ loads ++ [{ request := request }] ↔ load ∈ loads := by
  rw [List.mem_append, List.mem_singleton, or_iff_left]
  rintro rfl
  cases h

/-- A load that was running is not one that was shown. -/
theorem mem_finished {loads : List Load} {i request : ℕ} {status : LoadStatus}
    (hrunning : loads[i]? = some ⟨request, .running⟩) {load : Load} (h : load.status = .shown) :
    load ∈ loads.set i ⟨request, status⟩ ↔
      load ∈ loads ∨ status = .shown ∧ load = ⟨request, .shown⟩ := by
  obtain ⟨hi, hget⟩ := List.getElem?_eq_some_iff.mp hrunning
  constructor
  · intro hmem
    rcases List.mem_or_eq_of_mem_set hmem with hmem | rfl
    · exact .inl hmem
    · exact .inr ⟨h, by rw [show status = .shown from h]⟩
  · rintro (hmem | ⟨rfl, rfl⟩)
    · obtain ⟨j, hj⟩ := List.mem_iff_getElem?.mp hmem
      have hne : i ≠ j := by
        rintro rfl
        obtain rfl := Option.some.inj (hrunning.symm.trans hj)
        cases h
      exact List.mem_iff_getElem?.mpr ⟨j, by rw [List.getElem?_set_ne hne]; exact hj⟩
    · exact List.mem_iff_getElem?.mpr ⟨i, List.getElem?_set_self hi⟩

theorem requests_finished {loads : List Load} {i request : ℕ} {status : LoadStatus}
    (hrunning : loads[i]? = some ⟨request, .running⟩) :
    (loads.set i ⟨request, status⟩).map Load.request = loads.map Load.request := by
  obtain ⟨hi, hget⟩ := List.getElem?_eq_some_iff.mp hrunning
  rw [List.map_set]
  refine List.ext_getElem? fun j => ?_
  by_cases hj : i = j
  · subst hj
    rw [List.getElem?_set_self (by simpa using hi), List.getElem?_map, hrunning]
    rfl
  · rw [List.getElem?_set_ne hj]

theorem Inv.sortedAdd {server : Server} {s : State} (h : Inv server s) {request : ℕ}
    (hlatest : ∀ load ∈ s.loads, load.request ≤ request) :
    ((s.loads ++ [(⟨request, .running⟩ : Load)]).map Load.request).Pairwise (· ≤ ·) := by
  rw [List.map_append, List.pairwise_append]
  refine ⟨h.sorted, List.pairwise_singleton _ _, fun a ha b hb => ?_⟩
  obtain ⟨load, hload, rfl⟩ := List.mem_map.mp ha
  obtain rfl := List.mem_singleton.mp hb
  exact hlatest load hload

theorem Inv.step {server : Server} {s t : State} (h : Inv server s) (hchanges : Changes server s t) :
    Inv server t := by
  obtain ⟨hanswers, hpending, hloads, hsorted, horigin⟩ := id h
  cases hchanges with
  | idle => exact h
  | clear => exact ⟨hanswers, nofun, hloads, hsorted, horigin⟩
  | @join request hjoin =>
      have hlast := hpending request hjoin
      refine ⟨hanswers, hpending, ?_, h.sortedAdd fun load hload => ?_, ?_⟩
      · intro load hload
        rcases List.mem_append.mp hload with hload | hload
        · exact hloads load hload
        · obtain rfl := List.mem_singleton.mp hload
          exact hlast ▸ Nat.lt_succ_self request
      · have hless := hloads load hload
        rw [← hlast] at hless
        exact Nat.le_of_lt_succ hless
      · exact horigin.keep rfl rfl rfl rfl (fun _ _ => id) mem_added
  | send hnone =>
      refine ⟨?_, ?_, ?_, h.sortedAdd fun load hload => (hloads load hload).le, ?_⟩
      · intro r hr moment hmoment
        rcases List.mem_append.mp hr with hr | hr
        · exact hanswers r hr moment hmoment
        · obtain rfl := List.mem_singleton.mp hr
          cases hmoment
      · rintro _ ⟨⟩
        simp
      · intro load hload
        rw [List.length_append]
        rcases List.mem_append.mp hload with hload | hload
        · exact Nat.lt_succ_of_lt (hloads load hload)
        · obtain rfl := List.mem_singleton.mp hload
          exact Nat.lt_succ_self _
      · refine horigin.keep rfl rfl rfl rfl (fun request moment hanswer => ?_) mem_added
        rw [State.answered, Option.bind_eq_some_iff] at hanswer ⊢
        obtain ⟨r, hr, hanswer⟩ := hanswer
        exact ⟨r, List.getElem?_append_left (List.getElem?_eq_some_iff.mp hr).1 ▸ hr, hanswer⟩
  | @answer request started answer pending hrequest hstill hmoment =>
      refine ⟨?_, ?_, ?_, hsorted, ?_⟩
      · intro r hr moment hanswer
        rcases List.mem_or_eq_of_mem_set hr with hr | rfl
        · exact hanswers r hr moment hanswer
        · exact hmoment moment (Option.some.inj hanswer)
      · intro r hr
        rw [List.length_set]
        exact hpending r (hstill r hr)
      · intro load hload
        rw [List.length_set]
        exact hloads load hload
      · refine horigin.keep rfl rfl rfl rfl (fun other moment hanswer => ?_) fun _ _ => Iff.rfl
        rw [State.answered, Option.bind_eq_some_iff] at hanswer ⊢
        obtain ⟨r, hr, hanswer⟩ := hanswer
        have hne : request ≠ other := by
          rintro rfl
          obtain rfl := Option.some.inj (hrequest.symm.trans hr)
          cases hanswer
        exact ⟨r, by rw [List.getElem?_set_ne hne]; exact hr, hanswer⟩
  | @fail load request hload =>
      refine ⟨hanswers, hpending, ?_, (requests_finished hload).symm ▸ hsorted, ?_⟩
      · intro other hother
        rcases List.mem_or_eq_of_mem_set hother with hother | rfl
        · exact hloads other hother
        · exact hloads ⟨request, .running⟩ (List.mem_iff_getElem?.mpr ⟨load, hload⟩)
      · refine horigin.keep rfl rfl rfl rfl (fun _ _ => id) fun other hother => ?_
        rw [mem_finished hload hother]
        exact or_iff_left (fun hnever => by cases hnever.1)
  | @«show» load request moment hload hanswer horder =>
      refine ⟨hanswers, hpending, ?_, (requests_finished hload).symm ▸ hsorted, ?_⟩
      · intro other hother
        rcases List.mem_or_eq_of_mem_set hother with hother | rfl
        · exact hloads other hother
        · exact hloads ⟨request, .running⟩ (List.mem_iff_getElem?.mpr ⟨load, hload⟩)
      · refine ⟨hanswer, ⟨⟨request, .shown⟩, (mem_finished hload rfl).mpr (.inr ⟨rfl, rfl⟩), rfl, rfl⟩,
          fun other hother hstatus => ?_, _, rfl, shows_loaded server s.lastSales horder.2⟩
        rcases (mem_finished hload hstatus).mp hother with hother | ⟨-, rfl⟩
        · rw [Origin] at horigin
          cases hshown : s.origin with
          | none =>
              rw [hshown] at horigin
              exact absurd hstatus (horigin.2 other hother)
          | some shown =>
              rw [hshown] at horigin
              exact (horigin.2.2.1 other hother hstatus).trans (horder.1 shown hshown).1
        · exact le_rfl
  | @image update horder hserver =>
      refine ⟨hanswers, hpending, hloads, hsorted, ?_⟩
      rw [Origin] at horigin ⊢
      rw [show (s.updateImage update).origin = s.origin from rfl]
      cases hshown : s.origin with
      | none =>
          rw [hshown] at horigin
          exact ⟨by rw [State.updateImage, horigin.1]; rfl, horigin.2⟩
      | some shown =>
          rw [hshown] at horigin
          obtain ⟨hanswer, hload, hlatest, list, hlist, hshows⟩ := horigin
          exact ⟨hanswer, hload, hlatest, _, by rw [State.updateImage, hlist]; rfl,
            hshows.updateImage horder hserver⟩
  | sale hnewer =>
      refine ⟨hanswers, hpending, hloads, hsorted, ?_⟩
      rw [Origin] at horigin ⊢
      cases hshown : s.origin with
      | none =>
          rw [hshown] at horigin
          exact ⟨by rw [horigin.1]; rfl, horigin.2⟩
      | some shown =>
          rw [hshown] at horigin
          obtain ⟨hanswer, hload, hlatest, list, hlist, hshows⟩ := horigin
          exact ⟨hanswer, hload, hlatest, _, by rw [hlist]; rfl, hshows.updateSale hnewer⟩

/-- Loads and requests since a moment at which no read was pending. -/
structure Since (moment requests loads : ℕ) (s : State) : Prop where
  now : moment ≤ s.now
  more : requests ≤ s.requests.length
  pending : ∀ r ∈ s.pendingRead, requests ≤ r
  loads : ∀ i load, loads ≤ i → s.loads[i]? = some load → requests ≤ load.request
  started : ∀ i r, requests ≤ i → s.requests[i]? = some r → moment ≤ r.started

theorem load_added {loads : List Load} {added : Load} {i : ℕ} {load : Load}
    (h : (loads ++ [added])[i]? = some load) : loads[i]? = some load ∨ load = added := by
  rw [List.getElem?_append] at h
  split at h
  · exact .inl h
  · exact .inr (List.mem_singleton.mp (List.mem_iff_getElem?.mpr ⟨_, h⟩))

theorem load_finished {loads : List Load} {i request : ℕ} {status : LoadStatus}
    (hrunning : loads[i]? = some ⟨request, .running⟩) {j : ℕ} {load : Load}
    (h : (loads.set i ⟨request, status⟩)[j]? = some load) :
    ∃ old, loads[j]? = some old ∧ old.request = load.request := by
  have hrequests := congrArg (·[j]?) (@requests_finished _ _ _ status hrunning)
  simp only [List.getElem?_map, h, Option.map_some] at hrequests
  exact Option.map_eq_some_iff.mp hrequests.symm

theorem Since.step {server : Server} {moment requests loads : ℕ} {s t : State}
    (h : Since moment requests loads s) (hchanges : Changes server s t) :
    Since moment requests loads t := by
  obtain ⟨hnow, hmore, hpending, hloads, hstarted⟩ := id h
  cases hchanges with
  | idle => exact h
  | clear => exact ⟨hnow, hmore, nofun, hloads, hstarted⟩
  | join hjoin =>
      refine ⟨hnow, hmore, hpending, fun i load hi hload => ?_, hstarted⟩
      rcases load_added hload with hload | rfl
      · exact hloads i load hi hload
      · exact hpending _ hjoin
  | send hnone =>
      refine ⟨hnow, ?_, ?_, fun i load hi hload => ?_, fun i r hi hr => ?_⟩
      · rw [List.length_append]
        exact Nat.le_add_right_of_le hmore
      · rintro _ ⟨⟩
        exact hmore
      · rcases load_added hload with hload | rfl
        · exact hloads i load hi hload
        · exact hmore
      · rw [List.getElem?_append] at hr
        split at hr
        · exact hstarted i r hi hr
        · obtain rfl := List.mem_singleton.mp (List.mem_iff_getElem?.mpr ⟨_, hr⟩)
          exact hnow
  | @answer request started answer pending hrequest hstill hmoment =>
      refine ⟨hnow, List.length_set.symm ▸ hmore, fun r hr => hpending r (hstill r hr), hloads,
        fun i r hi hr => ?_⟩
      by_cases hne : request = i
      · subst hne
        rw [List.getElem?_set_self (List.getElem?_eq_some_iff.mp hrequest).1] at hr
        obtain rfl := Option.some.inj hr
        exact hstarted request ⟨started, none⟩ hi hrequest
      · rw [List.getElem?_set_ne hne] at hr
        exact hstarted i r hi hr
  | fail hload =>
      refine ⟨hnow, hmore, hpending, fun i load hi hset => ?_, hstarted⟩
      obtain ⟨old, hold, hrequest⟩ := load_finished hload hset
      exact hrequest ▸ hloads i old hi hold
  | «show» hload hanswer horder =>
      refine ⟨hnow, hmore, hpending, fun i load hi hset => ?_, hstarted⟩
      obtain ⟨old, hold, hrequest⟩ := load_finished hload hset
      exact hrequest ▸ hloads i old hi hold
  | image horder hserver => exact ⟨hnow, hmore, hpending, hloads, hstarted⟩
  | sale hnewer => exact ⟨hnow, hmore, hpending, hloads, hstarted⟩

/-- Neither the sales that were seen live nor the list that is shown go back. -/
structure Later (s t : State) : Prop where
  sales : ∀ id, SoldLe (s.lastSales id) (t.lastSales id)
  origin : ∀ shown ∈ s.origin, ∃ shown' ∈ t.origin, shown.1 ≤ shown'.1 ∧ shown.2 ≤ shown'.2

theorem Later.refl (s : State) : Later s s :=
  ⟨fun _ => SoldLe.refl _, fun shown h => ⟨shown, h, le_rfl, le_rfl⟩⟩

theorem Later.trans {s t u : State} (h : Later s t) (h' : Later t u) : Later s u := by
  refine ⟨fun id => (h.sales id).trans (h'.sales id), fun shown hshown => ?_⟩
  obtain ⟨shown', hshown', hrequest, hmoment⟩ := h.origin shown hshown
  obtain ⟨shown'', hshown'', hrequest', hmoment'⟩ := h'.origin shown' hshown'
  exact ⟨shown'', hshown'', hrequest.trans hrequest', hmoment.trans hmoment'⟩

theorem later_step {server : Server} {s t : State} (h : Changes server s t) : Later s t := by
  cases h with
  | «show» hload hanswer horder =>
      exact ⟨fun _ => SoldLe.refl _, fun shown hshown => ⟨_, rfl, horder.1 shown hshown⟩⟩
  | @sale id at₁ hnewer =>
      refine ⟨fun other => ?_, (Later.refl s).origin⟩
      by_cases hid : other = id
      · subst hid
        intro at₂ hat₂
        refine ⟨at₁, if_pos rfl, ?_⟩
        rw [hat₂] at hnewer
        exact (not_le.mp (of_decide_eq_false hnewer)).le
      · simp only [hid, if_false]
        exact SoldLe.refl _
  | _ => exact ⟨fun _ => SoldLe.refl _, (Later.refl s).origin⟩

/-! ### Runs -/

/-- What holds at the start and is kept by every change holds after a run. -/
theorem run_keeps {server : Server} {P : State → Prop}
    (hnow : ∀ s now, s.now ≤ now → P s → P { s with now := now })
    (hstep : ∀ s t, P s → Changes server s t → P t) {s : State} {events : List (ℕ × Event)}
    (hlegal : Legals server s events) (horder : AllInOrder server s events) (h : P s) :
    P (s.run server events) := by
  induction events generalizing s with
  | nil => exact h
  | cons event events ih =>
      obtain ⟨now, event⟩ := event
      obtain ⟨hlater, hlegal, hlegals⟩ := hlegal
      have hchanges := step_changes hlegal horder.1
      exact ih hlegals horder.2 (hstep _ _ (hnow s now hlater h) hchanges)

theorem legals_append {server : Server} {s : State} {before after : List (ℕ × Event)} :
    Legals server s (before ++ after) ↔
      Legals server s before ∧ Legals server (s.run server before) after := by
  induction before generalizing s with
  | nil => exact (and_iff_right trivial).symm
  | cons event before ih =>
      rw [List.cons_append, Legals, Legals, ih, and_assoc, and_assoc]
      rfl

theorem allInOrder_append {server : Server} {s : State} {before after : List (ℕ × Event)} :
    AllInOrder server s (before ++ after) ↔
      AllInOrder server s before ∧ AllInOrder server (s.run server before) after := by
  induction before generalizing s with
  | nil => exact (and_iff_right trivial).symm
  | cons event before ih =>
      rw [List.cons_append, AllInOrder, AllInOrder, ih, and_assoc]
      rfl

theorem run_inv {server : Server} {s : State} {events : List (ℕ × Event)}
    (hlegal : Legals server s events) (horder : AllInOrder server s events) (h : Inv server s) :
    Inv server (s.run server events) :=
  run_keeps (fun _ _ _ h => ⟨h.answers, h.pending, h.loads, h.sorted, h.origin⟩)
    (fun _ _ h hchanges => h.step hchanges) hlegal horder h

theorem inv_init (server : Server) : Inv server {} :=
  ⟨nofun, nofun, nofun, List.Pairwise.nil, rfl, nofun⟩

theorem run_later {server : Server} {s : State} {events : List (ℕ × Event)}
    (hlegal : Legals server s events) (horder : AllInOrder server s events) :
    Later s (s.run server events) :=
  run_keeps (P := Later s) (fun _ _ _ h => ⟨h.sales, h.origin⟩)
    (fun _ _ h hchanges => h.trans (later_step hchanges)) hlegal horder (Later.refl s)

theorem run_since {server : Server} {moment requests loads : ℕ} {s : State}
    {events : List (ℕ × Event)} (hlegal : Legals server s events)
    (horder : AllInOrder server s events) (h : Since moment requests loads s) :
    Since moment requests loads (s.run server events) :=
  run_keeps (fun _ _ hlater h => ⟨h.now.trans hlater, h.more, h.pending, h.loads, h.started⟩)
    (fun _ _ h hchanges => h.step hchanges) hlegal horder h

/-- A deletion was the last event. -/
theorem since_deleted {server : Server} {id : String} {now : ℕ} {s : State}
    {before : List (ℕ × Event)} (hlegal : Legals server {} before)
    (h : before.getLast? = some (now, .deleted id)) (hs : s = ({} : State).run server before) :
    Since now s.requests.length s.loads.length s ∧
      ∀ moment, now ≤ moment → id ∉ ids (server.accounts moment) := by
  obtain ⟨init, rfl⟩ := List.getLast?_eq_some_iff.mp h
  have hlast := (legals_append.mp hlegal).2
  rw [State.run, List.foldl_append] at hs
  subst hs
  refine ⟨⟨le_rfl, le_rfl, nofun, fun i load hi hload => ?_, fun i r hi hr => ?_⟩, hlast.2.1⟩
  · rw [List.getElem?_eq_none hi] at hload
    cases hload
  · rw [List.getElem?_eq_none hi] at hr
    cases hr

theorem Inv.shown {server : Server} {s : State} (h : Inv server s) {load : Load}
    (hload : load ∈ s.loads) (hstatus : load.status = .shown) :
    ∃ request moment list, s.origin = some (request, moment) ∧ load.request ≤ request ∧
      s.answered request = some (some moment) ∧ s.accounts = some list ∧
      Shows server s.lastSales s.updates moment list := by
  have horigin := h.origin
  rw [Origin] at horigin
  cases hshown : s.origin with
  | none =>
      rw [hshown] at horigin
      exact absurd hstatus (horigin.2 load hload)
  | some shown =>
      rw [hshown] at horigin
      obtain ⟨hanswer, -, hlatest, list, hlist, hshows⟩ := horigin
      exact ⟨_, _, list, rfl, hlatest load hload hstatus, hanswer, hlist, hshows⟩

theorem Inv.list {server : Server} {s : State} (h : Inv server s) {a : Account}
    (ha : a ∈ s.list) : ∃ request moment, s.origin = some (request, moment) ∧
      Shows server s.lastSales s.updates moment s.list := by
  have horigin := h.origin
  rw [Origin] at horigin
  cases hshown : s.origin with
  | none =>
      rw [hshown] at horigin
      rw [State.list, horigin.1] at ha
      cases ha
  | some shown =>
      rw [hshown] at horigin
      obtain ⟨-, -, -, list, hlist, hshows⟩ := horigin
      refine ⟨_, _, rfl, ?_⟩
      rw [State.list, hlist]
      exact hshows

/-- As long as lists are shown in order: a deleted account stays away once a later load was shown,
images and sales are not older than what was received or shown, and the accounts are those of the
latest load that succeeded. -/
theorem list_forward (server : Server) (before after : List (ℕ × Event))
    (hlegal : Legals server {} (before ++ after)) (horder : AllInOrder server {} (before ++ after)) :
    let s := ({} : State).run server before
    let t := s.run server after
    (∀ id now, before.getLast? = some (now, .deleted id) → ∀ i load, s.loads.length ≤ i →
      t.loads[i]? = some load → load.status = .shown → id ∉ ids t.list) ∧
    (∀ a ∈ t.list, ∀ update ∈ t.updates, update.id = a.id → ∃ m, update.moment ≤ m ∧
      ∃ b ∈ server.accounts m, b.id = a.id ∧ b.imageUrl = a.imageUrl) ∧
    (∀ a ∈ s.list, ∀ b ∈ t.list, a.id = b.id → SoldLe a.lastSellAt b.lastSellAt) ∧
    ∀ load, (t.loads.filter (·.status = .shown)).getLast? = some load →
      ∃ moment, t.answered load.request = some (some moment) ∧
        ids t.list = ids (server.accounts moment) := by
  intro s t
  obtain ⟨hlegal₁, hlegal₂⟩ := legals_append.mp hlegal
  obtain ⟨horder₁, horder₂⟩ := allInOrder_append.mp horder
  have hs : Inv server s := run_inv hlegal₁ horder₁ (inv_init server)
  have ht : Inv server t := run_inv hlegal₂ horder₂ hs
  refine ⟨?_, ?_, ?_, ?_⟩
  · intro id now hdeleted i load hi hload hstatus
    obtain ⟨hsince, haway⟩ := since_deleted hlegal₁ hdeleted rfl
    have hsince := run_since hlegal₂ horder₂ hsince
    obtain ⟨request, moment, list, -, hrequest, hanswer, hlist, hshows⟩ :=
      ht.shown (List.mem_iff_getElem?.mpr ⟨i, hload⟩) hstatus
    obtain ⟨r, hr, hmoment⟩ := Option.bind_eq_some_iff.mp hanswer
    have hstarted := hsince.started request r ((hsince.loads i load hi hload).trans hrequest) hr
    have hanswered := ht.answers r (List.mem_iff_getElem?.mpr ⟨request, hr⟩) moment hmoment
    rw [State.list, hlist, Option.getD_some, hshows.ids]
    exact haway moment (hstarted.trans hanswered)
  · intro a ha update hupdate hid
    obtain ⟨request, moment, -, hshows⟩ := ht.list ha
    obtain ⟨m, hm, hserver⟩ := hshows.image a ha
    exact ⟨m, hm update hupdate hid, hserver⟩
  · intro a ha b hb hid
    obtain ⟨request, moment, horigin, hshows⟩ := hs.list ha
    obtain ⟨request', moment', horigin', hshows'⟩ := ht.list hb
    have hlater : Later s t := run_later hlegal₂ horder₂
    obtain ⟨shown, hshown, -, hmoments⟩ := hlater.origin _ horigin
    obtain rfl := Option.some.inj (horigin'.symm.trans hshown)
    obtain ⟨c, hc, hcid, hcsold⟩ := hshows.sold a ha
    obtain ⟨d, hd, hdid, hdsold⟩ := hshows'.sold b hb
    have hsold := server.sold moment moment' hmoments c hc d hd
      (hcid.trans (hid.trans hdid.symm))
    rw [hcsold, hdsold, ← hid]
    exact merge_mono (hlater.sales a.id) hsold
  · intro load hload
    have hmem := List.mem_of_getLast? hload
    rw [List.mem_filter, decide_eq_true_eq] at hmem
    obtain ⟨request, moment, list, horigin, hrequest, hanswer, hlist, hshows⟩ :=
      ht.shown hmem.1 hmem.2
    have hshown := ht.origin
    rw [Origin, horigin] at hshown
    obtain ⟨-, ⟨first, hfirst, hrequests, hstatus⟩, -⟩ := hshown
    have hfilter : first ∈ t.loads.filter (·.status = .shown) := by
      rw [List.mem_filter, decide_eq_true_eq]
      exact ⟨hfirst, hstatus⟩
    have hsorted : (t.loads.filter (·.status = .shown)).Pairwise fun l l' => l.request ≤ l'.request :=
      (List.pairwise_map.mp ht.sorted).sublist List.filter_sublist
    have hlast : first.request ≤ load.request := by
      obtain ⟨init, hinit⟩ := List.getLast?_eq_some_iff.mp hload
      rw [hinit] at hfilter hsorted
      rcases List.mem_append.mp hfilter with hfilter | hfilter
      · exact (List.pairwise_append.mp hsorted).2.2 first hfilter load List.mem_cons_self
      · obtain rfl := List.mem_singleton.mp hfilter
        exact le_rfl
    obtain rfl : load.request = request := le_antisymm hrequest (hrequests ▸ hlast)
    refine ⟨moment, hanswer, ?_⟩
    rw [State.list, hlist, Option.getD_some, hshows.ids]

/-- The server of an account that is deleted. -/
def farm : Server where
  accounts moment := if moment = 0 then [⟨"a", none, none⟩] else []
  sold := by
    intro m m' _ a ha _ _ _ at₁ hat₁
    split at ha
    · obtain rfl := List.mem_singleton.mp ha
      cases hat₁
    · cases ha

/-- A load is on its way while the account is deleted, and its answer comes last. -/
def overtaken : List (ℕ × Event) :=
  [(1, .load), (1, .respond 1 (some 1)), (1, .settle 1 true), (1, .respond 0 (some 0)),
    (1, .settle 0 true)]

theorem list_forward_overtaken : ¬∀ (server : Server) (before after : List (ℕ × Event)),
    Legals server {} (before ++ after) →
    let s := ({} : State).run server before
    let t := s.run server after
    ∀ id now, before.getLast? = some (now, .deleted id) → ∀ i load, s.loads.length ≤ i →
      t.loads[i]? = some load → load.status = .shown → id ∉ ids t.list := by
  intro h
  have haway : ∀ moment, 1 ≤ moment → "a" ∉ ids (farm.accounts moment) := by
    intro moment hmoment
    have hnone : farm.accounts moment = [] := if_neg (Nat.ne_of_gt hmoment)
    rw [hnone]
    exact List.not_mem_nil
  refine h farm [(0, .load), (1, .deleted "a")] overtaken
    ⟨le_rfl, trivial, Nat.zero_le 1, haway, le_rfl, trivial, le_rfl, ⟨⟨1, none⟩, rfl, le_rfl, le_rfl⟩,
      le_rfl, trivial, le_rfl, ⟨⟨0, none⟩, rfl, le_rfl, Nat.zero_le 1⟩, le_rfl, trivial, trivial⟩
    "a" 1 rfl 1 ⟨1, .shown⟩ le_rfl rfl rfl ?_
  decide +kernel

theorem list_forward_farm :
    let s := ({} : State).run farm [(0, .load), (0, .respond 0 (some 0)), (0, .settle 0 true)]
    let t := s.run farm [(1, .updateSale "a" 5)]
    ∀ a ∈ s.list, ∀ b ∈ t.list, a.id = b.id → SoldLe a.lastSellAt b.lastSellAt :=
  (list_forward farm [(0, .load), (0, .respond 0 (some 0)), (0, .settle 0 true)]
    [(1, .updateSale "a" 5)]
    ⟨le_rfl, trivial, le_rfl, ⟨⟨0, none⟩, rfl, le_rfl, le_rfl⟩, le_rfl, trivial, Nat.zero_le 1, trivial,
      trivial⟩
    ⟨trivial, trivial, fun _ _ _ _ => ⟨nofun, nofun⟩, trivial, trivial⟩).2.2.1

end AfkClient.DashboardAccounts
