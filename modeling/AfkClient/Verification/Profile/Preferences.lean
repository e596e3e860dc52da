import AfkClient.Model.Profile
import Mathlib.Data.List.Nodup
import Mathlib.Data.List.Forall2

/-! Dashboard preferences survive every call whose lists fit, and only these. -/

namespace AfkClient.Profile

/-! ### Texts -/

theorem prints_ids (ids : List String) : Json.Prints (idsText ids) (.arr (ids.map .str)) := by
  apply Json.Prints.array
  induction ids with
  | nil => exact .nil
  | cons id ids ih => exact .cons (Json.Prints.quote id) ih

theorem mapM_text? (ids : List String) : (ids.map Json.str).mapM text? = some ids := by
  induction ids with
  | nil => rfl
  | cons id ids ih => simp [List.mapM_cons, text?, ih]

theorem parseIds_arr (ids : List String) :
    parseIds (some (.arr (ids.map .str))) = if ValidIds ids then some ids else none := by
  simp only [parseIds, mapM_text?, Option.bind_eq_bind, Option.bind_some]

theorem parseIds_valid {json : Option Json} {ids : List String} (h : parseIds json = some ids) :
    ValidIds ids := by
  cases json with
  | none =>
      obtain rfl : [] = ids := by simpa [parseIds] using h
      exact ⟨by simp, by simp, List.nodup_nil⟩
  | some json =>
      cases json with
      | arr items =>
          simp only [parseIds, Option.bind_eq_bind, Option.bind_eq_some_iff] at h
          obtain ⟨texts, -, htexts⟩ := h
          split at htexts
          · rename_i hvalid
            rwa [← Option.some.inj htexts]
          · cases htexts
      | _ => simp [parseIds] at h

theorem safeParse_valid {json : Json} {p : DashboardPreferences} (h : safeParse json = some p) :
    p.Valid := by
  cases json with
  | obj entries =>
      simp only [safeParse] at h
      split at h
      · simp only [Option.bind_eq_bind, Option.bind_eq_some_iff] at h
        obtain ⟨order, horder, blurred, hblurred, uploaders, huploaders, collapsed, hcollapsed,
          hp⟩ := h
        rw [← Option.some.inj hp]
        exact ⟨parseIds_valid horder, parseIds_valid hblurred, parseIds_valid huploaders,
          parseIds_valid hcollapsed⟩
      · cases h
  | _ => simp [safeParse] at h

theorem empty_valid : DashboardPreferences.Valid {} := by
  have h : ValidIds [] := ⟨by simp, by simp, List.nodup_nil⟩
  exact ⟨h, h, h, h⟩

/-- Whatever stands in the column, what is read is valid. -/
theorem decode_valid (raw : Option String) : (decode raw).Valid := by
  rw [decode]
  cases h : (Json.parse (raw.getD "\x7b\x7d").toList).bind safeParse with
  | none => exact empty_valid
  | some p =>
      obtain ⟨json, -, hp⟩ := Option.bind_eq_some_iff.mp h
      exact safeParse_valid hp

instance (p : DashboardPreferences) : Decidable p.Valid :=
  decidable_of_iff (ValidIds p.accountOrder ∧ ValidIds p.blurredAccountIds ∧
      ValidIds p.uploaderOrder ∧ ValidIds p.collapsedUploaderIds)
    ⟨fun h => ⟨h.1, h.2.1, h.2.2.1, h.2.2.2⟩,
      fun h => ⟨h.accountOrder, h.blurredAccountIds, h.uploaderOrder, h.collapsedUploaderIds⟩⟩

/-- The object that a text of preferences spells. -/
def DashboardPreferences.json (p : DashboardPreferences) : Json :=
  .obj [("accountOrder", .arr (p.accountOrder.map .str)),
    ("blurredAccountIds", .arr (p.blurredAccountIds.map .str)),
    ("uploaderOrder", .arr (p.uploaderOrder.map .str)),
    ("collapsedUploaderIds", .arr (p.collapsedUploaderIds.map .str))]

theorem parse_stringify (p : DashboardPreferences) :
    Json.parse (stringify p).toList = some p.json := by
  rw [stringify, String.toList_ofList]
  apply Json.Prints.parse
  exact .object (.cons ⟨rfl, prints_ids _⟩ (.cons ⟨rfl, prints_ids _⟩
    (.cons ⟨rfl, prints_ids _⟩ (.cons ⟨rfl, prints_ids _⟩ .nil))))

theorem safeParse_json (p : DashboardPreferences) :
    safeParse p.json = if p.Valid then some p else none := by
  have hfields : ([("accountOrder", Json.arr (p.accountOrder.map .str)),
      ("blurredAccountIds", .arr (p.blurredAccountIds.map .str)),
      ("uploaderOrder", .arr (p.uploaderOrder.map .str)),
      ("collapsedUploaderIds", .arr (p.collapsedUploaderIds.map .str))].all
        fun e => e.1 ∈ fields) = true := by simp [fields]
  rw [DashboardPreferences.json, safeParse, if_pos hfields]
  simp only [Json.find, List.reverse_cons, List.reverse_nil, List.nil_append, List.cons_append,
    List.lookup_cons, beq_self_eq_true, String.reduceBEq, parseIds_arr]
  by_cases hp : p.Valid
  · rw [if_pos hp.accountOrder, if_pos hp.blurredAccountIds, if_pos hp.uploaderOrder,
      if_pos hp.collapsedUploaderIds, if_pos hp]
    rfl
  · rw [if_neg (c := p.Valid) hp]
    by_cases ha : ValidIds p.accountOrder
    · by_cases hb : ValidIds p.blurredAccountIds
      · by_cases hu : ValidIds p.uploaderOrder
        · rw [if_pos ha, if_pos hb, if_pos hu, if_neg fun hc => hp ⟨ha, hb, hu, hc⟩]
          rfl
        · rw [if_pos ha, if_pos hb, if_neg hu]
          rfl
      · rw [if_pos ha, if_neg hb]
        rfl
    · rw [if_neg ha]
      rfl

/-- What is written is read back exactly if it is valid; else nothing of it is. -/
theorem decode_stringify (p : DashboardPreferences) :
    decode (some (stringify p)) = if p.Valid then p else {} := by
  rw [decode, Option.getD_some, parse_stringify, Option.bind_some, safeParse_json]
  split <;> rfl

theorem decode_stringify_eq_iff (p : DashboardPreferences) :
    decode (some (stringify p)) = p ↔ p.Valid := by
  rw [decode_stringify]
  by_cases h : p.Valid
  · simp [h]
  · rw [if_neg h]
    exact ⟨fun heq => heq ▸ empty_valid, fun hp => absurd hp h⟩

/-! ### Lists -/

theorem eraseDups_of_nodup {ids : List String} (h : ids.Nodup) : ids.eraseDups = ids := by
  induction ids with
  | nil => rfl
  | cons id ids ih =>
      obtain ⟨hid, hids⟩ := List.nodup_cons.mp h
      have hself : (ids.filter fun b => !b == id) = ids := by
        apply List.filter_eq_self.mpr
        intro b hb
        have hne : b ≠ id := fun heq => hid (heq ▸ hb)
        simpa using hne
      rw [List.eraseDups_cons, hself, ih hids]

theorem setMembership_true {ids : List String} (h : ids.Nodup) (id : String) :
    setMembership ids id true = if id ∈ ids then ids else ids ++ [id] := by
  rw [setMembership, if_pos rfl, List.eraseDups_append, eraseDups_of_nodup h]
  by_cases hid : id ∈ ids
  · simp [hid, List.removeAll]
  · simp [hid, List.removeAll, List.eraseDups_cons]

theorem setMembership_false (ids : List String) (id : String) :
    setMembership ids id false = ids.filter (· ≠ id) := rfl

/-- Only the named member is set. -/
theorem mem_setMembership (ids : List String) (id : String) (value : Bool) (j : String) :
    j ∈ setMembership ids id value ↔ if j = id then value = true else j ∈ ids := by
  cases value with
  | true =>
      rw [setMembership, if_pos rfl, List.mem_eraseDups, List.mem_append, List.mem_singleton]
      by_cases hj : j = id <;> simp [hj]
  | false =>
      rw [setMembership_false, List.mem_filter]
      by_cases hj : j = id <;> simp [hj]

theorem filter_setMembership {ids : List String} (h : ids.Nodup) (id : String) (value : Bool) :
    (setMembership ids id value).filter (· ≠ id) = ids.filter (· ≠ id) := by
  cases value with
  | true =>
      rw [setMembership_true h]
      split
      · rfl
      · simp
  | false => simp [setMembership_false]

/-- A member is new only where the list has room. -/
def Room (ids : List String) (id : String) (value : Bool) : Prop :=
  value = true → id ∉ ids → ids.length < 10000

theorem validIds_setMembership {ids : List String} (h : ValidIds ids) (id : Id) (value : Bool) :
    ValidIds (setMembership ids id.1 value) ↔ Room ids id.1 value := by
  cases value with
  | true =>
      rw [setMembership_true h.nodup]
      by_cases hid : id.1 ∈ ids
      · simpa [Room, hid] using h
      · rw [if_neg hid]
        constructor
        · intro hnew _ _
          have hlength := hnew.length
          rw [List.length_append, List.length_singleton] at hlength
          omega
        · intro hroom
          have hlength := hroom rfl hid
          refine ⟨?_, by rw [List.length_append, List.length_singleton]; omega, ?_⟩
          · intro j hj
            rcases List.mem_append.mp hj with hj | hj
            · exact h.valid j hj
            · rw [List.mem_singleton.mp hj]
              exact id.2
          · rw [List.nodup_append]
            refine ⟨h.nodup, by simp, ?_⟩
            rintro j hj _ hk rfl
            exact hid (List.mem_singleton.mp hk ▸ hj)
  | false =>
      rw [setMembership_false]
      refine ⟨fun _ hvalue => by simp at hvalue, fun _ => ?_⟩
      refine ⟨fun j hj => h.valid j (List.mem_of_mem_filter hj), ?_, h.nodup.filter _⟩
      exact (List.length_filter_le _ _).trans h.length

/-- An order of what is visible keeps what is not behind it. -/
theorem validIds_order {ids : List String} (h : ValidIds ids) {allowed : Finset String}
    {order : Ids} (hallowed : ∀ id ∈ order.1, id ∈ allowed) :
    ValidIds (order.1 ++ ids.filter (· ∉ allowed)) ↔
      order.1.length + (ids.filter (· ∉ allowed)).length ≤ 10000 := by
  constructor
  · intro hnew
    simpa using hnew.length
  · intro hlength
    refine ⟨?_, by simpa using hlength, ?_⟩
    · intro id hid
      rcases List.mem_append.mp hid with hid | hid
      · exact order.2.valid id hid
      · exact h.valid id (List.mem_of_mem_filter hid)
    · rw [List.nodup_append]
      refine ⟨order.2.nodup, h.nodup.filter _, ?_⟩
      rintro id hid j hj rfl
      have hnot := (List.mem_filter.mp hj).2
      simp [hallowed id hid] at hnot

/-! ### What a patch makes of the preferences -/

/-- The patch of a session is accepted. -/
structure Accepted (session : Session) (allowed : Scope) (patch : PreferencesPatch) : Prop where
  accountOrder : ∀ order ∈ patch.accountOrder, order.1.length = allowed.accounts.card ∧
    ∀ id ∈ order.1, id ∈ allowed.accounts
  blur : ∀ blur ∈ patch.blur, blur.accountId.1 ∈ allowed.accounts
  admin : patch.uploaderOrder.isSome ∨ patch.collapse.isSome → session.role = .admin
  uploaderOrder : ∀ order ∈ patch.uploaderOrder, ∀ id ∈ order.1, id ∈ allowed.uploaders
  collapse : ∀ collapse ∈ patch.collapse, collapse.uploaderId.1 ∈ allowed.uploaders

def patched (allowed : Scope) (patch : PreferencesPatch) (p : DashboardPreferences) :
    DashboardPreferences where
  accountOrder := match patch.accountOrder with
    | none => p.accountOrder
    | some order => order.1 ++ p.accountOrder.filter (· ∉ allowed.accounts)
  blurredAccountIds := match patch.blur with
    | none => p.blurredAccountIds
    | some blur => setMembership p.blurredAccountIds blur.accountId.1 blur.value
  uploaderOrder := match patch.uploaderOrder with
    | none => p.uploaderOrder
    | some order => order.1
  collapsedUploaderIds := match patch.collapse with
    | none => p.collapsedUploaderIds
    | some collapse =>
        setMembership p.collapsedUploaderIds collapse.uploaderId.1 collapse.value

variable {session : Session} {allowed : Scope} {patch : PreferencesPatch}
  {p q : DashboardPreferences}

theorem patchAccountOrder_of (h : ∀ order ∈ patch.accountOrder,
    order.1.length = allowed.accounts.card ∧ ∀ id ∈ order.1, id ∈ allowed.accounts) :
    patchAccountOrder allowed patch p =
      .ok { p with accountOrder := (patched allowed patch p).accountOrder } := by
  unfold patchAccountOrder patched
  cases horder : patch.accountOrder with
  | none => rfl
  | some order =>
      obtain ⟨hlength, hmem⟩ := h order horder
      have hcheck : ¬(order.1.length ≠ allowed.accounts.card ∨
          order.1.any (· ∉ allowed.accounts)) := by simpa using ⟨hlength, hmem⟩
      simp only [if_neg hcheck]

theorem of_patchAccountOrder (h : patchAccountOrder allowed patch p = .ok q) :
    ∀ order ∈ patch.accountOrder, order.1.length = allowed.accounts.card ∧
      ∀ id ∈ order.1, id ∈ allowed.accounts := by
  intro order horder
  rw [Option.mem_def] at horder
  simp only [patchAccountOrder, horder] at h
  split at h
  · cases h
  · rename_i hcheck
    simpa using hcheck

theorem patchBlur_of (h : ∀ blur ∈ patch.blur, blur.accountId.1 ∈ allowed.accounts) :
    patchBlur allowed patch p =
      .ok { p with blurredAccountIds := (patched allowed patch p).blurredAccountIds } := by
  unfold patchBlur patched
  cases hblur : patch.blur with
  | none => rfl
  | some blur => simp only [if_neg (not_not.mpr (h blur hblur))]

theorem of_patchBlur (h : patchBlur allowed patch p = .ok q) :
    ∀ blur ∈ patch.blur, blur.accountId.1 ∈ allowed.accounts := by
  intro blur hblur
  rw [Option.mem_def] at hblur
  simp only [patchBlur, hblur] at h
  split at h
  · cases h
  · rename_i hcheck
    exact not_not.mp hcheck

theorem patchUploaderOrder_of (h : ∀ order ∈ patch.uploaderOrder, ∀ id ∈ order.1,
    id ∈ allowed.uploaders) : patchUploaderOrder allowed patch p =
      .ok { p with uploaderOrder := (patched allowed patch p).uploaderOrder } := by
  unfold patchUploaderOrder patched
  cases horder : patch.uploaderOrder with
  | none => rfl
  | some order =>
      have hcheck : ¬order.1.any (· ∉ allowed.uploaders) := by simpa using h order horder
      simp only [if_neg hcheck]

theorem of_patchUploaderOrder (h : patchUploaderOrder allowed patch p = .ok q) :
    ∀ order ∈ patch.uploaderOrder, ∀ id ∈ order.1, id ∈ allowed.uploaders := by
  intro order horder
  rw [Option.mem_def] at horder
  simp only [patchUploaderOrder, horder] at h
  split at h
  · cases h
  · rename_i hcheck
    simpa using hcheck

theorem patchCollapse_of (h : ∀ collapse ∈ patch.collapse,
    collapse.uploaderId.1 ∈ allowed.uploaders) : patchCollapse allowed patch p =
      .ok { p with collapsedUploaderIds := (patched allowed patch p).collapsedUploaderIds } := by
  unfold patchCollapse patched
  cases hcollapse : patch.collapse with
  | none => rfl
  | some collapse => simp only [if_neg (not_not.mpr (h collapse hcollapse))]

theorem of_patchCollapse (h : patchCollapse allowed patch p = .ok q) :
    ∀ collapse ∈ patch.collapse, collapse.uploaderId.1 ∈ allowed.uploaders := by
  intro collapse hcollapse
  rw [Option.mem_def] at hcollapse
  simp only [patchCollapse, hcollapse] at h
  split at h
  · cases h
  · rename_i hcheck
    exact not_not.mp hcheck

theorem bind_ok {ε α β : Type} {x : Except ε α} {f : α → Except ε β} {b : β}
    (h : (x >>= f) = .ok b) : ∃ a, x = .ok a ∧ f a = .ok b := by
  cases x with
  | error e => cases h
  | ok a => exact ⟨a, rfl, h⟩

theorem applyPatch_of_accepted (h : Accepted session allowed patch) (p : DashboardPreferences) :
    applyPatch session allowed patch p = .ok (patched allowed patch p) := by
  rw [applyPatch, patchAccountOrder_of h.accountOrder]
  show (patchBlur allowed patch _ >>= _) = _
  rw [patchBlur_of h.blur]
  show patchUploaders session allowed patch _ = _
  rw [patchUploaders]
  by_cases hnamed : patch.uploaderOrder.isSome ∨ patch.collapse.isSome
  · rw [if_pos hnamed, if_neg (not_not.mpr (h.admin hnamed)), patchUploaderOrder_of h.uploaderOrder]
    show patchCollapse allowed patch _ = _
    rw [patchCollapse_of h.collapse]
    rfl
  · rw [if_neg hnamed]
    rw [not_or, Option.not_isSome_iff_eq_none, Option.not_isSome_iff_eq_none] at hnamed
    simp only [patched, hnamed.1, hnamed.2]

theorem accepted_of_applyPatch (h : applyPatch session allowed patch p = .ok q) :
    Accepted session allowed patch := by
  obtain ⟨p₁, hp₁, h⟩ := bind_ok h
  obtain ⟨p₂, hp₂, h⟩ := bind_ok h
  rw [patchUploaders] at h
  by_cases hnamed : patch.uploaderOrder.isSome ∨ patch.collapse.isSome
  · rw [if_pos hnamed] at h
    split at h
    · cases h
    · rename_i hrole
      obtain ⟨p₃, hp₃, h⟩ := bind_ok h
      exact ⟨of_patchAccountOrder hp₁, of_patchBlur hp₂, fun _ => not_not.mp hrole,
        of_patchUploaderOrder hp₃, of_patchCollapse h⟩
  · refine ⟨of_patchAccountOrder hp₁, of_patchBlur hp₂, fun h => absurd h hnamed, ?_, ?_⟩
    · intro order horder
      exact absurd (.inl (Option.isSome_iff_exists.mpr ⟨order, horder⟩)) hnamed
    · intro collapse hcollapse
      exact absurd (.inr (Option.isSome_iff_exists.mpr ⟨collapse, hcollapse⟩)) hnamed

theorem applyPatch_ok_iff : applyPatch session allowed patch p = .ok q ↔
    Accepted session allowed patch ∧ q = patched allowed patch p := by
  constructor
  · intro h
    have haccepted := accepted_of_applyPatch h
    rw [applyPatch_of_accepted haccepted] at h
    exact ⟨haccepted, (Except.ok.inj h).symm⟩
  · rintro ⟨haccepted, rfl⟩
    exact applyPatch_of_accepted haccepted p

/-- The lists that the patch makes longer have room. -/
structure Fits (allowed : Scope) (patch : PreferencesPatch) (p : DashboardPreferences) : Prop where
  accountOrder : ∀ order ∈ patch.accountOrder,
    order.1.length + (p.accountOrder.filter (· ∉ allowed.accounts)).length ≤ 10000
  blur : ∀ blur ∈ patch.blur, Room p.blurredAccountIds blur.accountId.1 blur.value
  collapse : ∀ collapse ∈ patch.collapse,
    Room p.collapsedUploaderIds collapse.uploaderId.1 collapse.value

theorem patched_valid_iff (hp : p.Valid) (h : Accepted session allowed patch) :
    (patched allowed patch p).Valid ↔ Fits allowed patch p := by
  have horder : ValidIds (patched allowed patch p).accountOrder ↔ ∀ order ∈ patch.accountOrder,
      order.1.length + (p.accountOrder.filter (· ∉ allowed.accounts)).length ≤ 10000 := by
    unfold patched
    cases horder : patch.accountOrder with
    | none => simpa using hp.accountOrder
    | some order =>
        have hallowed := (h.accountOrder order horder).2
        simpa using validIds_order hp.accountOrder hallowed
  have hblur : ValidIds (patched allowed patch p).blurredAccountIds ↔ ∀ blur ∈ patch.blur,
      Room p.blurredAccountIds blur.accountId.1 blur.value := by
    unfold patched
    cases patch.blur with
    | none => simpa using hp.blurredAccountIds
    | some blur => simpa using validIds_setMembership hp.blurredAccountIds blur.accountId blur.value
  have huploaders : ValidIds (patched allowed patch p).uploaderOrder := by
    unfold patched
    cases patch.uploaderOrder with
    | none => exact hp.uploaderOrder
    | some order => exact order.2
  have hcollapse : ValidIds (patched allowed patch p).collapsedUploaderIds ↔
      ∀ collapse ∈ patch.collapse,
        Room p.collapsedUploaderIds collapse.uploaderId.1 collapse.value := by
    unfold patched
    cases patch.collapse with
    | none => simpa using hp.collapsedUploaderIds
    | some collapse =>
        simpa using validIds_setMembership hp.collapsedUploaderIds collapse.uploaderId collapse.value
  constructor
  · intro hq
    exact ⟨horder.mp hq.accountOrder, hblur.mp hq.blurredAccountIds,
      hcollapse.mp hq.collapsedUploaderIds⟩
  · intro hfits
    exact ⟨horder.mpr hfits.accountOrder, hblur.mpr hfits.blur, huploaders,
      hcollapse.mpr hfits.collapse⟩

/-! ### What the database keeps -/

/-- The column of a user, if there is the user. -/
def Database.column (db : Database) (userId : String) : Option (Option String) :=
  (db.users.find? userId).map (·.dashboardPreferences)

/-- The preferences that the next call of the user reads. -/
def Database.saved (db : Database) (userId : String) : DashboardPreferences :=
  decode (db.column userId).join

def DashboardPreferences.lists (p : DashboardPreferences) : List (List String) :=
  [p.accountOrder, p.blurredAccountIds, p.uploaderOrder, p.collapsedUploaderIds]

/-- The member of the list is set as the patch says, and the others stay as they were. -/
def Membership (before after : List String) (id : String) (value : Bool) : Prop :=
  (id ∈ after ↔ value = true) ∧ after.filter (· ≠ id) = before.filter (· ≠ id)

/-- Between two preferences, only what the patch names has changed. -/
structure Changed (allowed : Scope) (patch : PreferencesPatch) (p q : DashboardPreferences) :
    Prop where
  accountOrder : patch.accountOrder = none → q.accountOrder = p.accountOrder
  ordered : ∀ order ∈ patch.accountOrder, q.accountOrder.filter (· ∈ allowed.accounts) = order.1
  hidden : q.accountOrder.filter (· ∉ allowed.accounts) =
    p.accountOrder.filter (· ∉ allowed.accounts)
  blurredAccountIds : patch.blur = none → q.blurredAccountIds = p.blurredAccountIds
  blur : ∀ blur ∈ patch.blur,
    Membership p.blurredAccountIds q.blurredAccountIds blur.accountId.1 blur.value
  uploaderOrder : q.uploaderOrder = (patch.uploaderOrder.map (·.1)).getD p.uploaderOrder
  collapsedUploaderIds : patch.collapse = none → q.collapsedUploaderIds = p.collapsedUploaderIds
  collapse : ∀ collapse ∈ patch.collapse, Membership p.collapsedUploaderIds
    q.collapsedUploaderIds collapse.uploaderId.1 collapse.value

/-- The call has written these preferences, they are read back, no list of them has a duplicate,
and nothing else has changed. -/
structure Stored (db db' : Database) (userId : String) (p : DashboardPreferences) : Prop where
  column : db'.column userId = some (some (stringify p))
  saved : db'.saved userId = p
  nodup : ∀ ids ∈ p.lists, ids.Nodup
  others : ∀ other ≠ userId, db'.column other = db.column other
  minecraftAccounts : db'.minecraftAccounts = db.minecraftAccounts
  assignments : db'.assignments = db.assignments

/-- What an event does to the preferences of users. -/
def Survives (db : Database) : Event → Prop
  | .updatePreferences session patch =>
      match applyPatch session (db.scope session) patch (db.saved session.userId) with
      | .error _ => step db (.updatePreferences session patch) = db
      | .ok p => if db.column session.userId = none then
            step db (.updatePreferences session patch) = db
          else
            Stored db (step db (.updatePreferences session patch)) session.userId p ∧
              Changed (db.scope session) patch (db.saved session.userId) p
  | .importPreferences session legacy =>
      if db.column session.userId = some none then
        Stored db (step db (.importPreferences session legacy)) session.userId
          (visible legacy.1 (db.scope session))
      else step db (.importPreferences session legacy) = db
  | event => ∀ userId, db.column userId ≠ none → (step db event).column userId ≠ none →
      (step db event).column userId = db.column userId

/-- An accepted update finds room in the lists that it makes longer. -/
def HasRoom (db : Database) : Event → Prop
  | .updatePreferences session patch =>
      db.column session.userId ≠ none → Accepted session (db.scope session) patch →
        Fits (db.scope session) patch (db.saved session.userId)
  | _ => True

theorem patched_changed {allowed : Scope} {patch : PreferencesPatch} {p : DashboardPreferences}
    (hp : p.Valid) (h : Accepted session allowed patch) :
    Changed allowed patch p (patched allowed patch p) where
  accountOrder hnone := by simp only [patched, hnone]
  ordered := by
    intro order horder
    have hmem := (h.accountOrder order horder).2
    rw [Option.mem_def] at horder
    simp only [patched, horder, List.filter_append]
    rw [List.filter_eq_self.mpr (by simpa using hmem), List.filter_filter]
    simp
  hidden := by
    unfold patched
    cases horder : patch.accountOrder with
    | none => rfl
    | some order =>
        have hmem := (h.accountOrder order horder).2
        simp only [List.filter_append, List.filter_filter]
        rw [List.filter_eq_nil_iff.mpr (by simpa using hmem)]
        simp
  blurredAccountIds hnone := by simp only [patched, hnone]
  blur := by
    intro blur hblur
    rw [Option.mem_def] at hblur
    simp only [patched, hblur]
    exact ⟨by rw [mem_setMembership, if_pos rfl], filter_setMembership hp.blurredAccountIds.nodup _ _⟩
  uploaderOrder := by
    unfold patched
    cases patch.uploaderOrder <;> rfl
  collapsedUploaderIds hnone := by simp only [patched, hnone]
  collapse := by
    intro collapse hcollapse
    rw [Option.mem_def] at hcollapse
    simp only [patched, hcollapse]
    exact ⟨by rw [mem_setMembership, if_pos rfl],
      filter_setMembership hp.collapsedUploaderIds.nodup _ _⟩

theorem DashboardPreferences.Valid.nodup {p : DashboardPreferences} (h : p.Valid) :
    ∀ ids ∈ p.lists, ids.Nodup := by
  simp only [lists, List.mem_cons, List.not_mem_nil, or_false]
  rintro ids (rfl | rfl | rfl | rfl)
  · exact h.accountOrder.nodup
  · exact h.blurredAccountIds.nodup
  · exact h.uploaderOrder.nodup
  · exact h.collapsedUploaderIds.nodup

theorem validIds_filter {ids : List String} (h : ValidIds ids) (keep : String → Bool) :
    ValidIds (ids.filter keep) :=
  ⟨fun id hid => h.valid id (List.mem_of_mem_filter hid),
    (List.length_filter_le _ _).trans h.length, h.nodup.filter _⟩

theorem visible_valid {p : DashboardPreferences} (h : p.Valid) (allowed : Scope) :
    (visible p allowed).Valid :=
  ⟨validIds_filter h.accountOrder _, validIds_filter h.blurredAccountIds _,
    validIds_filter h.uploaderOrder _, validIds_filter h.collapsedUploaderIds _⟩

theorem column_save (db : Database) (userId text other : String) :
    (db.save userId text).column other =
      if other = userId then (db.column other).map fun _ => some text else db.column other := by
  simp only [Database.column, Database.save, Table.find?_update, Option.map_map]
  by_cases h : other = userId
  · simp only [if_pos h]
    rfl
  · simp only [if_neg h]
    rfl

/-- A text that is saved is read back exactly if what it spells is valid. -/
theorem stored_save_iff {db : Database} {userId : String} (h : db.column userId ≠ none)
    (p : DashboardPreferences) : Stored db (db.save userId (stringify p)) userId p ↔ p.Valid := by
  obtain ⟨raw, hraw⟩ := Option.ne_none_iff_exists'.mp h
  have hcolumn : (db.save userId (stringify p)).column userId = some (some (stringify p)) := by
    rw [column_save, if_pos rfl, hraw]
    rfl
  have hsaved : (db.save userId (stringify p)).saved userId = p ↔ p.Valid := by
    rw [Database.saved, hcolumn]
    exact decode_stringify_eq_iff p
  constructor
  · intro hstored
    exact hsaved.mp hstored.saved
  · intro hp
    exact ⟨hcolumn, hsaved.mpr hp, hp.nodup, fun other hother => by rw [column_save, if_neg hother],
      rfl, rfl⟩

/-! ### Calls and other events -/

theorem saved_of_find? {db : Database} {userId : String} {user : UserRow}
    (h : db.users.find? userId = some user) :
    db.saved userId = decode user.dashboardPreferences := by
  rw [Database.saved, Database.column, h]
  rfl

theorem step_update_of_error {db : Database} {failure : Failure}
    (h : applyPatch session (db.scope session) patch (db.saved session.userId) = .error failure) :
    step db (.updatePreferences session patch) = db := by
  simp only [step, updatePreferences]
  cases huser : db.users.find? session.userId with
  | none => rfl
  | some user =>
      rw [saved_of_find? huser] at h
      simp only [h]
      rfl

theorem step_update_of_ok {db : Database}
    (h : applyPatch session (db.scope session) patch (db.saved session.userId) = .ok p)
    (hcolumn : db.column session.userId ≠ none) :
    step db (.updatePreferences session patch) = db.save session.userId (stringify p) := by
  simp only [step, updatePreferences]
  cases huser : db.users.find? session.userId with
  | none => exact absurd (by rw [Database.column, huser]; rfl) hcolumn
  | some user =>
      rw [saved_of_find? huser] at h
      simp only [h]
      rfl

theorem step_update_of_no_user {db : Database} (hcolumn : db.column session.userId = none) :
    step db (.updatePreferences session patch) = db := by
  have huser : db.users.find? session.userId = none := by
    simpa [Database.column] using hcolumn
  simp only [step, updatePreferences, huser]
  rfl

theorem survives_update_iff (db : Database) (session : Session) (patch : PreferencesPatch) :
    Survives db (.updatePreferences session patch) ↔
      HasRoom db (.updatePreferences session patch) := by
  have hvalid : (db.saved session.userId).Valid := decode_valid _
  simp only [Survives, HasRoom]
  cases happly : applyPatch session (db.scope session) patch (db.saved session.userId) with
  | error failure =>
      refine ⟨fun _ _ haccepted => ?_, fun _ => step_update_of_error happly⟩
      rw [applyPatch_of_accepted haccepted] at happly
      cases happly
  | ok p =>
      obtain ⟨haccepted, rfl⟩ := applyPatch_ok_iff.mp happly
      by_cases hcolumn : db.column session.userId = none
      · simp [hcolumn, step_update_of_no_user hcolumn]
      · simp only [if_neg hcolumn, step_update_of_ok happly hcolumn, stored_save_iff hcolumn,
          patched_valid_iff hvalid haccepted]
        exact ⟨fun h _ _ => h.1, fun h => ⟨h hcolumn haccepted, patched_changed hvalid haccepted⟩⟩

theorem survives_import (db : Database) (session : Session)
    (legacy : { p : DashboardPreferences // p.Valid }) :
    Survives db (.importPreferences session legacy) := by
  simp only [Survives, step, importPreferences]
  cases huser : db.users.find? session.userId with
  | none => simp [Database.column, huser, commit]
  | some user =>
      cases hraw : user.dashboardPreferences with
      | none =>
          have hcolumn : db.column session.userId = some none := by
            rw [Database.column, huser, Option.map_some, hraw]
          rw [if_pos hcolumn]
          have hne : db.column session.userId ≠ none := by simp [hcolumn]
          simp only [hraw]
          exact (stored_save_iff hne _).mpr (visible_valid legacy.2 _)
      | some text =>
          have hcolumn : db.column session.userId = some (some text) := by
            rw [Database.column, huser, Option.map_some, hraw]
          simp only [hcolumn, hraw]
          rfl

/-- Nothing but a call of the user writes into the column of a user. -/
theorem column_update_role (db : Database) (id : String) (role : Role) (userId : String) :
    (step db (.setRole id role)).column userId = db.column userId := by
  simp only [step, Database.column, Table.find?_update, Option.map_map]
  congr 1
  funext user
  simp only [Function.comp]
  split <;> rfl

theorem survives_iff (db : Database) (event : Event) : Survives db event ↔ HasRoom db event := by
  cases event with
  | updatePreferences session patch => exact survives_update_iff db session patch
  | importPreferences session legacy => simpa [HasRoom] using survives_import db session legacy
  | createAccount id =>
      refine iff_of_true (fun userId _ _ => ?_) trivial
      simp only [step]
      split <;> rfl
  | deleteAccount id => exact iff_of_true (fun userId _ _ => rfl) trivial
  | assign assignment =>
      refine iff_of_true (fun userId _ _ => ?_) trivial
      simp only [step]
      split <;> rfl
  | unassign assignment => exact iff_of_true (fun userId _ _ => rfl) trivial
  | createUser id role =>
      refine iff_of_true (fun userId hbefore _ => ?_) trivial
      simp only [step, Database.column] at hbefore ⊢
      cases hid : db.users.find? id with
      | some user =>
          have hsame := Table.insert_of_find? (t := db.users) (r := ⟨id, role, none⟩) hid
          rw [hsame]
      | none =>
          rw [Table.find?_insert _ _ hid]
          split
          · rename_i heq
            rw [heq] at hbefore
            exact absurd (by rw [hid]; rfl) hbefore
          · rfl
  | deleteUser id =>
      refine iff_of_true (fun userId _ hafter => ?_) trivial
      simp only [step, Database.column, Table.find?_delete] at hafter ⊢
      split
      · rename_i heq
        simp [heq] at hafter
      · rfl
  | setRole id role =>
      exact iff_of_true (fun userId _ _ => column_update_role db id role userId) trivial

/-- In a run, preferences survive every step exactly if every accepted update finds room. -/
theorem preferences_survive (db : Database) (events : List Event) :
    Meets step Survives db events ↔ Meets step HasRoom db events :=
  ⟨Meets.mono fun s i => (survives_iff s i).mp, Meets.mono fun s i => (survives_iff s i).mpr⟩

/-! ### A list without room -/

def accountId (i : ℕ) : String := String.singleton (.ofNat (0x4e00 + i))

def accountIds (n : ℕ) : List String := (List.range n).map accountId

theorem toNat_accountId {i : ℕ} (h : i ≤ 10000) : (Char.ofNat (0x4e00 + i)).toNat = 0x4e00 + i := by
  have hvalid : (0x4e00 + i).isValidChar := by
    left
    omega
  rw [Char.ofNat, dif_pos hvalid]
  rfl

theorem accountId_injective {i j : ℕ} (hi : i ≤ 10000) (hj : j ≤ 10000)
    (h : accountId i = accountId j) : i = j := by
  have hchar : Char.ofNat (0x4e00 + i) = Char.ofNat (0x4e00 + j) := by
    have hlist := congrArg String.toList h
    simpa [accountId] using hlist
  have hnat := congrArg Char.toNat hchar
  rw [toNat_accountId hi, toNat_accountId hj] at hnat
  omega

theorem validId_accountId {i : ℕ} (h : i ≤ 10000) : validId (accountId i) = true := by
  have hval : (Char.ofNat (0x4e00 + i)).val < 0x10000 := by
    have hnat := toNat_accountId h
    show (Char.ofNat (0x4e00 + i)).toNat < 0x10000
    omega
  simp [accountId, validId, Client.utf16Length, hval]

theorem validIds_accountIds {n : ℕ} (h : n ≤ 10000) : ValidIds (accountIds n) where
  valid := by
    intro id hid
    obtain ⟨i, hi, rfl⟩ := List.mem_map.mp hid
    exact validId_accountId ((List.mem_range.mp hi).le.trans h)
  length := by rwa [accountIds, List.length_map, List.length_range]
  nodup := by
    apply List.Nodup.map_on _ List.nodup_range
    intro i hi j hj hij
    exact accountId_injective ((List.mem_range.mp hi).le.trans h)
      ((List.mem_range.mp hj).le.trans h) hij

/-- An administrator, `n` accounts and one more, and no profile yet. -/
def manyAccounts (n : ℕ) : Database where
  users := ⟨[⟨"admin", .admin, none⟩], by simp⟩
  minecraftAccounts := accountIds (n + 1)
  assignments := []

/-- Preferences that blur the first `n` accounts. -/
def blurMany {n : ℕ} (h : n ≤ 10000) : { p : DashboardPreferences // p.Valid } :=
  ⟨{ blurredAccountIds := accountIds n },
    ⟨empty_valid.accountOrder, validIds_accountIds h, empty_valid.uploaderOrder,
      empty_valid.collapsedUploaderIds⟩⟩

def blurLast {n : ℕ} (h : n ≤ 10000) : PreferencesPatch where
  blur := some ⟨⟨accountId n, validId_accountId h⟩, true⟩
  named := by simp

theorem mem_accounts {n i : ℕ} (h : i ≤ n) :
    accountId i ∈ ((manyAccounts n).scope ⟨"admin", .admin⟩).accounts := by
  simp only [Database.scope, List.mem_toFinset, List.mem_filter]
  exact ⟨List.mem_map.mpr ⟨i, List.mem_range.mpr (by omega), rfl⟩, by simp⟩

/-- After the import, `n` accounts are blurred and the last one may be named too. -/
theorem import_many {n : ℕ} (h : n ≤ 10000) :
    ∃ db, step (manyAccounts n) (.importPreferences ⟨"admin", .admin⟩ (blurMany h)) = db ∧
      db.column "admin" ≠ none ∧ (db.saved "admin").blurredAccountIds = accountIds n ∧
      db.scope ⟨"admin", .admin⟩ = (manyAccounts n).scope ⟨"admin", .admin⟩ := by
  refine ⟨_, rfl, ?_⟩
  have hstored : Stored (manyAccounts n) _ "admin" _ :=
    survives_import (manyAccounts n) ⟨"admin", .admin⟩ (blurMany h)
  refine ⟨by rw [hstored.column]; simp, ?_, rfl⟩
  rw [hstored.saved]
  apply List.filter_eq_self.mpr
  intro id hid
  obtain ⟨i, hi, rfl⟩ := List.mem_map.mp hid
  simpa using mem_accounts (List.mem_range.mp hi).le

/-- With 10000 blurred accounts imported, one more loses them all. -/
theorem blurs_without_room : ¬∀ db events, Meets step Survives db events := by
  intro h
  obtain ⟨n, hn⟩ : ∃ n : ℕ, n = 10000 := ⟨_, rfl⟩
  obtain ⟨db, hstep, hcolumn, hblurred, hscope⟩ := import_many hn.le
  have hroom := (h (manyAccounts n) [.importPreferences ⟨"admin", .admin⟩ (blurMany hn.le),
    .updatePreferences ⟨"admin", .admin⟩ (blurLast hn.le)]).2.1
  rw [survives_iff, hstep] at hroom
  have haccepted : Accepted ⟨"admin", .admin⟩ (db.scope ⟨"admin", .admin⟩) (blurLast hn.le) := by
    refine ⟨by simp [blurLast], ?_, fun _ => rfl, by simp [blurLast], by simp [blurLast]⟩
    rintro blur ⟨⟩
    rw [hscope]
    exact mem_accounts le_rfl
  have hlast : accountId n ∉ accountIds n := by
    intro hmem
    obtain ⟨i, hi, heq⟩ := List.mem_map.mp hmem
    have hlt := List.mem_range.mp hi
    exact absurd (accountId_injective (hlt.le.trans hn.le) hn.le heq) hlt.ne
  have hshort := (hroom hcolumn haccepted).blur _ rfl rfl (by rwa [hblurred])
  rw [hblurred, accountIds, List.length_map, List.length_range] at hshort
  omega

end AfkClient.Profile
