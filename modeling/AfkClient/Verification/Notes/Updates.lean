import AfkClient.Model.Notes
import Mathlib.Data.List.Dedup
import Mathlib.Data.List.Perm.Subperm

/-! Every change of a note is one that was acknowledged. -/

namespace AfkClient.Notes

open Json NoteDocument Journal

/-! ### What an entry means -/

/-- What an acknowledged request has done; a request that was refused has done nothing. -/
def accept (url : UrlParser) (db : Database) : Entry → Database
  | .served _ (.patch id body) (.note _) => match updateNoteSchema url body with
      | some data => db.changeNote id data.apply data.apply_id
      | none => db
  | .served _ (.access id _) (.grants grants) => 
      db.changeNote id (setGrants grants) (setGrants_id grants)
  | .served _ (.delete id) .noContent => { db with notes := db.notes.delete id }
  | .served _ _ _ => db
  | .changed c => c.apply db

/-- What must hold of the state in which a reply was decided, and of the state after it. -/
def Lawful (url : UrlParser) (db : Database) (e : Entry) : Prop :=
  match e with
  | .served userId (.patch id body) (.note view) =>
      ∃ data note, updateNoteSchema url body = some data ∧ db.notes.find? id = some note ∧
        note.revision = data.revision ∧
        (note.ownerId = userId ∨ ⟨userId, true⟩ ∈ note.grants) ∧
        view = present (data.apply note) userId ∧ view.revision = note.revision + 1 ∧
        (accept url db e).notes.find? id = some (data.apply note)
  | .served userId (.access id body) (.grants grants) =>
      ∃ note, noteAccessSchema body = some grants ∧ db.notes.find? id = some note ∧
        note.ownerId = userId ∧ (grants.map Grant.userId).Nodup ∧
        (∀ grant ∈ grants, grant.userId ≠ note.ownerId ∧
          ∃ user ∈ db.users.rows, user.id = grant.userId ∧ user.status = .active) ∧
        (accept url db e).notes.find? id = some { note with grants }
  | .served userId (.delete id) .noContent =>
      (∃ note, db.notes.find? id = some note ∧ note.ownerId = userId) ∧
        (accept url db e).notes.find? id = none
  | .served _ _ (.error code _) => 400 ≤ code ∧ accept url db e = db
  | .served _ _ _ => False
  | .changed (.createNote id _ _ _) => db.notes.find? id = none
  | .changed _ => True

/-! ### One transaction -/

theorem refused {url : UrlParser} {db : Database} {userId message : String} {request : Request}
    {code : ℕ} (h : 400 ≤ code) :
    db = accept url db (.served userId request (.error code message)) ∧
      Lawful url db (.served userId request (.error code message)) := by
  cases request <;> exact ⟨rfl, h, rfl⟩

theorem writable_iff {note : Note} {userId : String} :
    note.writableBy userId ↔ note.ownerId = userId ∨ ⟨userId, true⟩ ∈ note.grants := by
  simp only [Note.writableBy, Bool.or_eq_true, decide_eq_true_eq, List.any_eq_true,
    Bool.and_eq_true]
  constructor
  · rintro (h | ⟨⟨_, _⟩, hmem, rfl, rfl⟩)
    · exact .inl h
    · exact .inr hmem
  · rintro (h | h)
    · exact .inl h
    · exact .inr ⟨_, h, rfl, rfl⟩

theorem visible_of_writable {note : Note} {userId : String} (h : note.writableBy userId) :
    note.visibleTo userId := by
  simp only [Note.visibleTo, Bool.or_eq_true, decide_eq_true_eq, List.any_eq_true]
  rcases writable_iff.mp h with h | h
  · exact .inl h
  · exact .inr ⟨_, h, rfl⟩

theorem Database.find?_changeNote (db : Database) (id : String) (f : Note → Note)
    (hf : ∀ n, (f n).id = n.id) (j : String) :
    (db.changeNote id f hf).notes.find? j =
      (db.notes.find? j).map fun n => if j = id then f n else n := db.notes.find?_update id f hf j

theorem updateMany_cases (db : Database) (id userId : String) (data : UpdateNote) :
    updateMany db id userId data = (db, 0) ∨
      ∃ note, db.notes.find? id = some note ∧ note.revision = data.revision ∧
        note.writableBy userId ∧
        updateMany db id userId data = (db.changeNote id data.apply data.apply_id, 1) := by
  rw [updateMany]
  cases hmatch : (db.notes.find? id).filter fun note =>
      note.revision = data.revision && note.writableBy userId with
  | none => exact .inl rfl
  | some note =>
      obtain ⟨hfind, hok⟩ := Option.filter_eq_some_iff.mp hmatch
      simp only [Bool.and_eq_true, decide_eq_true_eq] at hok
      exact .inr ⟨note, hfind, hok.1, hok.2, rfl⟩

theorem patchNote_spec (url : UrlParser) (db : Database) (userId id : String) (body : Json) :
    (patchNote url db userId id body).2 =
        accept url db (.served userId (.patch id body) (patchNote url db userId id body).1) ∧
      Lawful url db (.served userId (.patch id body) (patchNote url db userId id body).1) := by
  rw [patchNote]
  cases hbody : updateNoteSchema url body with
  | none => exact refused (by decide)
  | some data =>
      rcases updateMany_cases db id userId data with hnone | ⟨note, hfind, hrevision, hwrite, hsome⟩
      · simp only [hnone]
        split
        · exact refused (by decide)
        · split
          · exact refused (by decide)
          · exact refused (by decide)
      · have hvisible : (data.apply note).visibleTo userId := visible_of_writable hwrite
        have hcan : (present (data.apply note) userId).canWrite = true := hwrite
        have hfound : findVisible (db.changeNote id data.apply data.apply_id) id userId =
            some (data.apply note) := by
          rw [findVisible, db.find?_changeNote, hfind, Option.map_some, if_pos rfl,
            Option.filter_some, if_pos hvisible]
        simp only [hsome, hfound, hcan, Bool.not_true, Bool.false_eq_true, if_false, ne_eq,
          not_true_eq_false]
        refine ⟨by simp only [accept, hbody],
          data, note, hbody, hfind, hrevision, writable_iff.mp hwrite, rfl, rfl, ?_⟩
        simp only [accept, hbody, Database.find?_changeNote, hfind, Option.map_some, if_true]

/-- As many active users as distinct identifiers: all of them are active. -/
theorem active_of_count {users : Table User.id} {ids : List String}
    (hcount : users.count (fun user => user.id ∈ ids && user.status = .active) = ids.length) :
    ∀ id ∈ ids, ∃ user ∈ users.rows, user.id = id ∧ user.status = .active := by
  set found := (users.rows.filter fun user => user.id ∈ ids && user.status = .active).map User.id
    with hfound
  have hfoundNodup : found.Nodup := users.nodup.sublist (List.filter_sublist.map _)
  have hsubset : found ⊆ ids := by
    intro id hid
    obtain ⟨user, huser, rfl⟩ := List.mem_map.mp hid
    simp only [List.mem_filter, Bool.and_eq_true, decide_eq_true_eq] at huser
    exact huser.2.1
  have hlength : found.length = ids.length := by
    rw [hfound, List.length_map, ← List.countP_eq_length_filter]
    exact hcount
  have hperm : found.Perm ids :=
    (List.subperm_of_subset hfoundNodup hsubset).perm_of_length_le hlength.ge
  intro id hid
  obtain ⟨user, huser, rfl⟩ := List.mem_map.mp (hperm.mem_iff.mpr hid)
  simp only [List.mem_filter, Bool.and_eq_true, decide_eq_true_eq] at huser
  exact ⟨user, huser.1, rfl, huser.2.2⟩

theorem putAccess_spec (url : UrlParser) (db : Database) (userId id : String) (body : Json) :
    (putAccess db userId id body).2 =
        accept url db (.served userId (.access id body) (putAccess db userId id body).1) ∧
      Lawful url db (.served userId (.access id body) (putAccess db userId id body).1) := by
  rw [putAccess]
  cases hbody : noteAccessSchema body with
  | none => exact refused (by decide)
  | some users =>
      cases hmatch : (db.notes.find? id).filter (·.ownerId = userId) with
      | none => exact refused (by decide)
      | some note =>
          obtain ⟨hfind, howner⟩ := Option.filter_eq_some_iff.mp hmatch
          simp only [decide_eq_true_eq] at howner
          subst howner
          by_cases hinvalid : invalidSelection db note.ownerId users
          · simp only [hinvalid, if_true]
            exact refused (by decide)
          · simp only [hinvalid, Bool.false_eq_true, if_false]
            simp only [invalidSelection, Bool.or_eq_true, decide_eq_true_eq, not_or, ne_eq,
              not_not] at hinvalid
            obtain ⟨⟨hself, hdedup⟩, hcount⟩ := hinvalid
            have hnodup : (users.map Grant.userId).Nodup := by
              rw [← (List.dedup_sublist _).eq_of_length hdedup]
              exact List.nodup_dedup _
            have hactive := active_of_count hcount
            refine ⟨rfl, note, hbody, hfind, rfl, hnodup, fun grant hgrant => ?_, ?_⟩
            · have hid := List.mem_map_of_mem (f := Grant.userId) hgrant
              exact ⟨fun heq => hself (heq ▸ hid), hactive _ hid⟩
            · simp only [accept, Database.find?_changeNote, hfind, Option.map_some, if_true,
                setGrants]

theorem deleteNote_spec (url : UrlParser) (db : Database) (userId id : String) :
    (deleteNote db userId id).2 =
        accept url db (.served userId (.delete id) (deleteNote db userId id).1) ∧
      Lawful url db (.served userId (.delete id) (deleteNote db userId id).1) := by
  rw [deleteNote]
  cases hmatch : (db.notes.find? id).filter (·.ownerId = userId) with
  | none => exact refused (by decide)
  | some note =>
      obtain ⟨hfind, howner⟩ := Option.filter_eq_some_iff.mp hmatch
      refine ⟨rfl, ⟨note, hfind, by simpa using howner⟩, ?_⟩
      simp only [accept, Table.find?_delete, if_true]

theorem step_keeps (url : UrlParser) : Keeps (step url) (accept url) (Lawful url) := by
  intro s event
  cases event with
  | request userId request =>
      cases request with
      | patch id body =>
          obtain ⟨hstate, hlawful⟩ := patchNote_spec url s.1 userId id body
          exact .inr ⟨_, Prod.ext hstate rfl, hlawful⟩
      | access id body =>
          obtain ⟨hstate, hlawful⟩ := putAccess_spec url s.1 userId id body
          exact .inr ⟨_, Prod.ext hstate rfl, hlawful⟩
      | delete id =>
          obtain ⟨hstate, hlawful⟩ := deleteNote_spec url s.1 userId id
          exact .inr ⟨_, Prod.ext hstate rfl, hlawful⟩
  | failed userId request =>
      have hcode : 400 ≤ 500 := by decide
      obtain ⟨hstate, hlawful⟩ := @refused url s.1 userId _ request _ hcode
      exact .inr ⟨_, Prod.ext hstate rfl, hlawful⟩
  | change change =>
      cases change with
      | createNote id ownerId title content =>
          rw [step]
          split
          · exact .inl rfl
          · rename_i hnew
            exact .inr ⟨.changed (.createNote id ownerId title content), rfl, by
              simpa [Lawful] using hnew⟩
      | createUser user => exact .inr ⟨.changed (.createUser user), rfl, trivial⟩
      | updateUser id input => exact .inr ⟨.changed (.updateUser id input), rfl, trivial⟩
      | deleteUser id => exact .inr ⟨.changed (.deleteUser id), rfl, trivial⟩

/-! ### The history of a note -/

/-- The change of the note that the entry acknowledges. -/
def acknowledged (url : UrlParser) (id : String) : Entry → Option UpdateNote
  | .served _ (.patch id' body) (.note _) => if id' = id then updateNoteSchema url body else none
  | _ => none

/-- The content with which the note is created. -/
def created (id : String) : Entry → Option Json
  | .changed (.createNote id' _ _ content) => if id' = id then some content else none
  | _ => none

/-- The content that the entry gives the note. -/
def newContent (url : UrlParser) (id : String) (e : Entry) : Option Json :=
  ((acknowledged url id e).bind (·.content)).or (created id e)

/-- The content of the last acknowledged change of content, or else the first one. -/
def lastContent (url : UrlParser) (db : Database) (id : String) (log : List Entry) : Option Json :=
  (log.filterMap (newContent url id)).getLast?.or ((db.notes.find? id).map (·.content))

/-- How a note that is there after an entry came there. -/
inductive Comes (url : UrlParser) (db : Database) (id : String) (e : Entry) (note : Note) :
    Prop where
  | created (hack : acknowledged url id e = none) (hcreated : created id e = some note.content)
  | changed (old : Note) (data : UpdateNote) (hold : db.notes.find? id = some old)
      (hack : acknowledged url id e = some data) (hcreated : created id e = none)
      (hnote : note = data.apply old)
  | kept (old : Note) (hold : db.notes.find? id = some old) (hack : acknowledged url id e = none)
      (hcreated : created id e = none) (hcontent : note.content = old.content)
      (hrevision : note.revision = old.revision)

theorem accept_error {url : UrlParser} {db : Database} {userId message : String}
    {request : Request} {code : ℕ} :
    accept url db (.served userId request (.error code message)) = db := by
  cases request <;> rfl

theorem acknowledged_error {url : UrlParser} {id userId message : String} {request : Request}
    {code : ℕ} : acknowledged url id (.served userId request (.error code message)) = none := by
  cases request <;> rfl

theorem comes {url : UrlParser} {db : Database} {id : String} {e : Entry} {note : Note}
    (hlawful : Lawful url db e) (h : (accept url db e).notes.find? id = some note) :
    Comes url db id e note := by
  cases e with
  | served userId request reply =>
      cases reply with
      | error code message =>
          rw [accept_error] at h
          exact .kept note h acknowledged_error rfl rfl rfl
      | note view =>
          cases request with
          | patch id' body =>
              obtain ⟨data, old, hbody, hold, -⟩ := hlawful
              simp only [accept, hbody, Database.find?_changeNote] at h
              obtain ⟨old', hold', hnote⟩ := Option.map_eq_some_iff.mp h
              by_cases hid : id = id'
              · subst hid
                rw [if_pos rfl] at hnote
                exact .changed old' data hold' (by simp [acknowledged, hbody]) rfl hnote.symm
              · rw [if_neg hid] at hnote
                exact .kept old' hold' (by simp [acknowledged, Ne.symm hid]) rfl (by rw [hnote])
                  (by rw [hnote])
          | access id' body => exact hlawful.elim
          | delete id' => exact hlawful.elim
      | grants grants =>
          cases request with
          | access id' body =>
              simp only [accept, Database.find?_changeNote] at h
              obtain ⟨old, hold, hnote⟩ := Option.map_eq_some_iff.mp h
              refine .kept old hold rfl rfl ?_ ?_ <;> rw [← hnote] <;> split <;> rfl
          | patch id' body => exact hlawful.elim
          | delete id' => exact hlawful.elim
      | noContent =>
          cases request with
          | delete id' =>
              simp only [accept, Table.find?_delete] at h
              split at h
              · cases h
              · exact .kept note h rfl rfl rfl rfl
          | patch id' body => exact hlawful.elim
          | access id' body => exact hlawful.elim
  | changed change =>
      cases change with
      | createNote id' ownerId title content =>
          have hnone : db.notes.find? id' = none := hlawful
          simp only [accept, Change.apply] at h
          rw [db.notes.find?_insert ⟨id', title, content, 0, ownerId, []⟩ hnone] at h
          split at h
          · rename_i hid
            obtain rfl := Option.some.inj h
            exact .created rfl (by simp [created, hid])
          · rename_i hid
            exact .kept note h rfl (by simp [created, Ne.symm hid]) rfl rfl
      | createUser user => exact .kept note h rfl rfl rfl rfl
      | updateUser id' input => exact .kept note h rfl rfl rfl rfl
      | deleteUser id' =>
          simp only [accept, Change.apply, Table.find?_updateAll, Table.find?_deleteWhere] at h
          obtain ⟨old, hold, hnote⟩ := Option.map_eq_some_iff.mp h
          refine .kept old (Option.filter_eq_some_iff.mp hold).1 rfl rfl ?_ ?_ <;> rw
            [← hnote] <;> rfl

/-- A note has the content of the last change of content that was acknowledged. -/
theorem content_eq {url : UrlParser} {db : Database} {id : String} {log : List Entry} {note : Note}
    (hlegal : Legal (accept url) (Lawful url) db log)
    (h : (replay (accept url) db log).notes.find? id = some note) :
    lastContent url db id log = some note.content := by
  induction log using List.reverseRecOn generalizing note with
  | nil =>
      simp only [replay_nil] at h
      simp [lastContent, h]
  | append_singleton log e ih =>
      obtain ⟨hinit, hlawful⟩ := hlegal.init
      rw [replay_append, replay_cons, replay_nil] at h
      have hkeep {old : Note} (hnew : newContent url id e = none)
          (hold : (replay (accept url) db log).notes.find? id = some old) :
          lastContent url db id (log ++ [e]) = some old.content := by
        rw [← ih hinit hold]
        simp [lastContent, hnew]
      have hchange {content : Json} (hnew : newContent url id e = some content) :
          lastContent url db id (log ++ [e]) = some content := by
        simp [lastContent, hnew]
      cases comes hlawful h with
      | created hack hcreated => exact hchange (by simp [newContent, hack, hcreated])
      | kept old hold hack hcreated hcontent hrevision =>
          rw [hcontent]
          exact hkeep (by simp [newContent, hack, hcreated]) hold
      | changed old data hold hack hcreated hnote =>
          subst hnote
          cases hdata : data.content with
          | none =>
              have hcontent : (data.apply old).content = old.content := by
                simp [UpdateNote.apply, hdata]
              rw [hcontent]
              exact hkeep (by simp [newContent, hack, hcreated, hdata]) hold
          | some content =>
              have hcontent : (data.apply old).content = content := by
                simp [UpdateNote.apply, hdata]
              rw [hcontent]
              exact hchange (by simp [newContent, hack, hdata])

theorem revision_of_acknowledged {url : UrlParser} {db : Database} {id : String} {e : Entry}
    {data : UpdateNote} (hlawful : Lawful url db e) (hack : acknowledged url id e = some data) :
    ∃ note, db.notes.find? id = some note ∧ note.revision = data.revision ∧
      (accept url db e).notes.find? id = some (data.apply note) := by
  match e, hack, hlawful with
  | .served userId (.patch id' body) (.note view), hack', hlawful =>
      obtain ⟨data', note, hbody, hfind, hrevision, -, -, -, hafter⟩ := hlawful
      simp only [acknowledged, hbody] at hack'
      split at hack'
      · rename_i hid
        subst hid
        obtain rfl := Option.some.inj hack'
        exact ⟨note, hfind, hrevision, hafter⟩
      · cases hack'

/-- A change that was acknowledged later was based on a later revision. -/
theorem revision_lt {url : UrlParser} {db : Database} {id : String} {before between : List Entry}
    {e₁ : Entry} {data₁ : UpdateNote}
    (hlegal : Legal (accept url) (Lawful url) db (before ++ e₁ :: between))
    (hack : acknowledged url id e₁ = some data₁) (hnew : ∀ e ∈ between, created id e = none)
    {note : Note}
    (h : (replay (accept url) db (before ++ e₁ :: between)).notes.find? id = some note) :
    data₁.revision < note.revision := by
  induction between using List.reverseRecOn generalizing note with
  | nil =>
      obtain ⟨old, -, hrevision, hfind⟩ := revision_of_acknowledged hlegal.init.2 hack
      simp only [replay_append, replay_cons, replay_nil, hfind, Option.some.injEq] at h
      subst h
      simp only [UpdateNote.apply]
      omega
  | append_singleton between e ih =>
      have hsplit : before ++ e₁ :: (between ++ [e]) = (before ++ e₁ :: between) ++ [e] := by simp
      rw [hsplit] at hlegal h
      obtain ⟨hinit, hlawful⟩ := hlegal.init
      rw [replay_append, replay_cons, replay_nil] at h
      have hold : ∀ f ∈ between, created id f = none := fun f hf => hnew f (by simp [hf])
      cases comes hlawful h with
      | created _ hcreated => simp [hnew e (by simp)] at hcreated
      | kept old hfind _ _ _ hrevision =>
          rw [hrevision]
          exact ih hinit hold hfind
      | changed old data hfind _ _ hnote =>
          have := ih hinit hold hfind
          subst hnote
          simp only [UpdateNote.apply]
          omega

/-- The notes are what the acknowledged requests have made of them, and each was acknowledged in a
state that allowed it. -/
theorem notes_acknowledged (url : UrlParser) (db : Database) (events : List Event) :
    let log := (run (step url) (db, []) events).2
    (run (step url) (db, []) events).1 = replay (accept url) db log ∧
      (∀ before e after, log = before ++ e :: after →
        Lawful url (replay (accept url) db before) e) ∧
      (∀ id note, (run (step url) (db, []) events).1.notes.find? id = some note →
        lastContent url db id log = some note.content) ∧
      ∀ id before e₁ between e₂ after data₁ data₂,
        log = before ++ e₁ :: (between ++ e₂ :: after) →
        acknowledged url id e₁ = some data₁ → acknowledged url id e₂ = some data₂ →
        (∀ e ∈ between, created id e = none) → data₁.revision < data₂.revision := by
  obtain ⟨hstate, hlegal⟩ := (step_keeps url).run db events
  refine ⟨hstate, hlegal, ?_, ?_⟩
  · intro id note hfind
    rw [hstate] at hfind
    exact content_eq hlegal hfind
  · intro id before e₁ between e₂ after data₁ data₂ hlog hack₁ hack₂ hnew
    have hsplit : (run (step url) (db, []) events).2 = (before ++ e₁ :: between) ++ e₂ ::
      after := by
      simpa using hlog
    have hbetween : Legal (accept url) (Lawful url) db (before ++ e₁ :: between) := by
      intro b f a heq
      refine hlegal b f (a ++ e₂ :: after) ?_
      rw [hsplit, heq]
      simp
    have hlawful := hlegal (before ++ e₁ :: between) e₂ after hsplit
    obtain ⟨note, hfind, hrevision, -⟩ := revision_of_acknowledged hlawful hack₂
    have := revision_lt hbetween hack₁ hnew hfind
    omega

/-- Two changes of one revision: the second one is refused. -/
def twoWriters : Database :=
  ⟨.empty, Table.empty.insert ⟨"n", "plan", .null, 0, "ann", [⟨"bob", true⟩]⟩⟩

def retitle (title : String) : Request :=
  .patch "n" (.obj [("revision", .num 0), ("title", .str title)])

example :
    (run (step fun _ => none) (twoWriters, [])
      [.request "bob" (retitle "A"), .request "ann" (retitle "B")]).2.map Entry.reply? =
      [some (.note ⟨"n", "A", "ann", 1, true, false, true, []⟩),
        some (.error 409 ("Diese Notiz wurde inzwischen geändert. "
          ++ "Deine Änderungen wurden nicht überschrieben."))] := by
  decide +kernel

end AfkClient.Notes
