import AfkClient.Model.NoteEditor
import AfkClient.Verification.Notes.Updates

/-! The revision that a request of the editor names, against the revision with which the draft was
last synchronised, over all openings of the note. -/

namespace AfkClient.NoteEditor

/-- The editor was opened with a draft of another revision than the note. -/
def Editor.openedInConflict (e : Editor) : Bool :=
  e.initial.revision ≠ e.note.revision && e.initial.toSnapshot ≠ e.note.toSnapshot

/-- Requests name the revision with which their text was last synchronised, and one was accepted
only where the note still had that revision. -/
structure World.Synchronised (w : World) : Prop where
  named : ∀ e ∈ w.editors, ∀ p ∈ e.patches, p.revision = p.base
  current : ∀ a ∈ w.accepted, a.2 = a.1

/-- The editor whose draft the input changes. -/
def WorldInput.edits : WorldInput → Option ℕ
  | .act editor (.onUpdate _) | .act editor (.onChange _) => some editor
  | _ => none

/-- No edit while the conflict is shown with which the editor was opened. -/
def World.Resolved (w : World) (i : WorldInput) : Prop :=
  ∀ editor ∈ i.edits, ∀ e ∈ w.editors[editor]?, e.mounted → ¬e.openedInConflict

instance (w : World) (i : WorldInput) : Decidable (w.Resolved i) :=
  inferInstanceAs (Decidable (∀ editor ∈ i.edits, _))

/-! ### One editor -/

/-- A local draft names the revision with which it was synchronised. -/
def Storage.Synced (s : Storage) : Prop := ∀ d, s = .stored d → d.revision = d.base

/-- An editor that was opened in a conflict never sends its draft. -/
structure Editor.Synced (e : Editor) : Prop where
  revision : ¬e.openedInConflict → e.revision = e.draft.base
  conflict : e.openedInConflict → e.conflict ∧ e.patches = []
  patches : ∀ p ∈ e.patches, p.revision = p.base

structure Tab.Synced (t : Tab) : Prop where
  editor : t.editor.Synced
  storage : t.storage.Synced

theorem initialDraft_synced (note : Note) {storage : Storage} (h : storage.Synced) :
    (initialDraft note storage).revision = (initialDraft note storage).base := by
  simp only [initialDraft]
  split
  · cases storage with
    | stored draft => exact h draft rfl
    | empty | removed => rfl
  · rfl

theorem synced_load (note : Note) {storage : Storage} (h : storage.Synced) :
    (Editor.load note storage).Synced where
  revision hopened := by
    have hinitial := initialDraft_synced note h
    simp only [Editor.openedInConflict, Editor.load, Bool.and_eq_true, decide_eq_true_eq, not_and,
      not_not] at hopened
    by_cases hsame : (initialDraft note storage).toSnapshot = note.toSnapshot
    · simp [Editor.load, hsame]
    · have hrevision : (initialDraft note storage).revision = note.revision := by
        by_contra hother
        exact hsame (hopened hother)
      simp [Editor.load, hsame, ← hinitial, hrevision]
  conflict hopened := by
    simpa [Editor.openedInConflict, Editor.load] using hopened
  patches := by simp [Editor.load]

theorem Editor.Synced.of_patch {e : Editor} (h : e.Synced) {request : ℕ} {p : Patch}
    (hp : e.patches[request]? = some p) : ¬e.openedInConflict := by
  intro hopened
  rw [(h.conflict hopened).2] at hp
  cases hp

section Step

variable {t : Tab} (h : t.Synced)
include h

/-- Neither the draft nor its revision changes, and a draft is at most removed. -/
theorem Tab.Synced.frame {t' : Tab} (hinitial : t'.editor.initial = t.editor.initial)
    (hnote : t'.editor.note = t.editor.note) (hrevision : t'.editor.revision = t.editor.revision)
    (hdraft : t'.editor.draft = t.editor.draft) (hconflict : t'.editor.conflict = t.editor.conflict)
    (hpatches : t'.editor.patches = t.editor.patches)
    (hstorage : t'.storage = t.storage ∨ ∃ why, t'.storage = .removed why) : t'.Synced := by
  have hopened : t'.editor.openedInConflict = t.editor.openedInConflict := by
    simp only [Editor.openedInConflict, hinitial, hnote]
  constructor
  · constructor
    · rw [hopened, hrevision, hdraft]
      exact h.editor.revision
    · rw [hopened, hconflict, hpatches]
      exact h.editor.conflict
    · rw [hpatches]
      exact h.editor.patches
  · rcases hstorage with hstorage | ⟨why, hstorage⟩
    · rw [hstorage]
      exact h.storage
    · rw [hstorage]
      exact nofun

theorem Tab.Synced.edited (hopened : ¬t.editor.openedInConflict) (draft : Draft)
    (hbase : draft.base = t.editor.draft.base) :
    (Tab.edited { t with editor.draft := draft }).Synced where
  editor :=
    { revision := fun _ => (h.editor.revision hopened).trans hbase.symm
      conflict := fun hconflict => absurd hconflict hopened
      patches := h.editor.patches }
  storage d hd := by
    obtain rfl := Storage.stored.inj hd
    exact (h.editor.revision hopened).trans hbase.symm

theorem Tab.Synced.send (hopened : ¬t.editor.openedInConflict) : t.send.Synced where
  editor :=
    { revision := h.editor.revision
      conflict := fun hconflict => absurd hconflict hopened
      patches := by
        intro p hp
        rcases List.mem_append.mp hp with hp | hp
        · exact h.editor.patches p hp
        · obtain rfl := List.mem_singleton.mp hp
          exact h.editor.revision hopened }
  storage := h.storage

theorem Tab.Synced.save (canWrite : Bool) : (t.save canWrite).Synced := by
  simp only [Tab.save]
  split
  · exact h
  · split
    · exact h
    · split
      · exact h
      · next hfree =>
          have hopened : ¬t.editor.openedInConflict := by
            intro hconflict
            simp [(h.editor.conflict hconflict).1] at hfree
          refine Tab.Synced.send ?_ hopened
          exact h.frame rfl rfl rfl rfl rfl rfl (.inl rfl)

/-- The text that is left was last synchronised with the revision of the reply. -/
theorem Tab.Synced.patched (request revision : ℕ) : (t.patched request revision).Synced := by
  simp only [Tab.patched]
  split
  · exact h
  · next p hp =>
      have hopened := h.editor.of_patch hp
      have hpatches : ∀ p ∈ t.editor.patches.eraseIdx request, p.revision = p.base :=
        fun p hp => h.editor.patches p (List.mem_of_mem_eraseIdx hp)
      split
      · exact ⟨⟨fun _ => rfl, fun hconflict => absurd hconflict hopened, hpatches⟩, nofun⟩
      · refine Tab.Synced.send ⟨⟨fun _ => rfl, fun hconflict => absurd hconflict hopened, hpatches⟩,
          ?_⟩
          hopened
        intro d hd
        obtain rfl := Storage.stored.inj hd
        rfl

theorem Tab.Synced.patchFailed (request : ℕ) (error : Option ApiError) :
    (t.patchFailed request error).Synced := by
  simp only [Tab.patchFailed]
  split
  · exact h
  · next p hp =>
      have hopened := h.editor.of_patch hp
      have hpatches : ∀ p ∈ t.editor.patches.eraseIdx request, p.revision = p.base :=
        fun p hp => h.editor.patches p (List.mem_of_mem_eraseIdx hp)
      have hstored : (Storage.stored { t.editor.draft with revision :=
        t.editor.revision }).Synced := by
        intro d hd
        obtain rfl := Storage.stored.inj hd
        exact h.editor.revision hopened
      split
      · exact ⟨⟨h.editor.revision, fun hconflict => absurd hconflict hopened, hpatches⟩, hstored⟩
      · exact ⟨⟨h.editor.revision, fun hconflict => absurd hconflict hopened, hpatches⟩, hstored⟩

theorem Tab.Synced.step {i : Input}
    (hi : ∀ content, i = .onUpdate content → t.editor.mounted → ¬t.editor.openedInConflict)
    (hi' : ∀ title, i = .onChange title → t.editor.mounted → ¬t.editor.openedInConflict) :
    (t.step i).Synced := by
  simp only [Tab.step]
  split
  · exact h
  · next hopen =>
      cases i with
      | onUpdate content =>
          have hmounted : t.editor.mounted := by simpa [Input.needsMounted] using hopen
          exact h.edited (hi content rfl hmounted) _ rfl
      | onChange title =>
          have hmounted : t.editor.mounted := by simpa [Input.needsMounted] using hopen
          exact h.edited (hi' title rfl hmounted) _ rfl
      | save canWrite => exact h.save canWrite
      | patched request revision => exact h.patched request revision
      | patchFailed request error => exact h.patchFailed request error
      | copyDraft =>
          simp only [Tab.handle, Tab.copyDraft]
          split
          · exact h.frame rfl rfl rfl rfl rfl rfl (.inl rfl)
          · exact h
      | copied request =>
          simp only [Tab.handle, Tab.copied]
          split
          · exact h
          · exact h.frame rfl rfl rfl rfl rfl rfl (.inr ⟨_, rfl⟩)
      | copyFailed request error =>
          simp only [Tab.handle, Tab.copyFailed]
          split
          · exact h
          · exact h.frame rfl rfl rfl rfl rfl rfl (.inl rfl)
      | remove => exact h.frame rfl rfl rfl rfl rfl rfl (.inl rfl)
      | removed =>
          simp only [Tab.handle, Tab.removed]
          split
          · exact h
          · exact h.frame rfl rfl rfl rfl rfl rfl (.inr ⟨_, rfl⟩)
      | removeFailed error =>
          simp only [Tab.handle, Tab.removeFailed]
          split
          · exact h
          · exact h.frame rfl rfl rfl rfl rfl rfl (.inl rfl)
      | reload confirmed =>
          simp only [Tab.handle, Tab.reload]
          split
          · exact h
          · exact h.frame rfl rfl rfl rfl rfl rfl (.inr ⟨_, rfl⟩)
      | unmount => exact h.frame rfl rfl rfl rfl rfl rfl (.inl rfl)

end Step

/-! ### The server -/

theorem revision_of_updateNoteSchema {url : UrlParser} {body : List (String × Json)}
    {data : Notes.UpdateNote} (h : Notes.updateNoteSchema url (.obj body) = some data) :
    Notes.revisionSchema (Json.find body "revision") = some data.revision := by
  obtain ⟨revision, hrevision, h⟩ := Option.bind_eq_some_iff.mp h
  obtain ⟨title, -, h⟩ := Option.bind_eq_some_iff.mp h
  obtain ⟨content, -, h⟩ := Option.bind_eq_some_iff.mp h
  split at h
  · cases h
    exact hrevision
  · cases h

theorem eq_of_revisionSchema {revision n : ℕ}
    (h : Notes.revisionSchema (some (.num revision)) = some n) : n = revision := by
  simp only [Notes.revisionSchema] at h
  split at h
  · simpa using (Option.some.inj h).symm
  · cases h

/-- A request that is accepted named the revision of the note. -/
theorem patchNote_revision {cfg : WorldConfig} {db : Notes.Database} {p : Patch} {view : Notes.View}
    (h : (Notes.patchNote cfg.url db cfg.userId cfg.id p.body).1 = .note view) {note : Notes.Note}
    (hnote : db.notes.find? cfg.id = some note) : note.revision = p.revision := by
  have hlawful := (Notes.patchNote_spec cfg.url db cfg.userId cfg.id p.body).2
  rw [h] at hlawful
  obtain ⟨data, note', hdata, hfind, hrevision, -⟩ := hlawful
  obtain rfl : note' = note := Option.some.inj (hfind.symm.trans hnote)
  rw [hrevision]
  exact eq_of_revisionSchema (revision_of_updateNoteSchema hdata)

/-- The invariant of all runs whose steps meet the condition. -/
structure World.Inv (w : World) : Prop where
  editors : ∀ e ∈ w.editors, e.Synced
  storage : w.storage.Synced
  lost : ∀ p ∈ w.lost, p.revision = p.base
  current : ∀ a ∈ w.accepted, a.2 = a.1

section World

variable {cfg : WorldConfig} {w : World} (h : w.Inv)
include h

theorem World.Inv.servePatch {p : Patch} (hp : p.revision = p.base) :
    ∀ a ∈ (w.servePatch cfg p).2.accepted, a.2 = a.1 := by
  intro a ha
  simp only [World.servePatch] at ha
  split at ha
  · next view note hview hnote =>
      rcases List.mem_append.mp ha with ha | ha
      · exact h.current a ha
      · obtain rfl := List.mem_singleton.mp ha
        exact (patchNote_revision hview hnote).trans hp
  · exact h.current a ha

theorem World.Inv.withTab {t : Tab} (ht : t.Synced) (editor : ℕ) : (w.withTab editor t).Inv where
  editors e he := by
    rcases List.mem_or_eq_of_mem_set he with he | rfl
    · exact h.editors e he
    · exact ht.editor
  storage := ht.storage
  lost := h.lost
  current := h.current

theorem World.Inv.tab {editor : ℕ} {e : Editor} (he : w.editors[editor]? = some e) :
    Tab.Synced ⟨e, w.storage⟩ :=
  ⟨h.editors e (List.mem_of_getElem? he), h.storage⟩

omit h in
theorem named_of_loses {e : Editor} (he : e.Synced) {i : Input} {p : Patch}
    (hp : p ∈ World.loses e i) : p.revision = p.base := by
  cases i with
  | patchFailed request error =>
      simp only [World.loses, Option.mem_toList, Option.filter_eq_some_iff] at hp
      exact he.patches p (List.mem_of_getElem? hp.1)
  | _ => simp [World.loses] at hp

theorem World.Inv.act {editor : ℕ} {i : Input} (hi : w.Resolved (.act editor i)) :
    (World.step cfg w (.act editor i)).Inv := by
  have hact {e : Editor} (he : w.editors[editor]? = some e) :
      { w.withTab editor (Tab.step ⟨e, w.storage⟩ i) with
        lost := w.lost ++ World.loses e i : World }.Inv := by
    have hstep : (Tab.step ⟨e, w.storage⟩ i).Synced := by
      apply (h.tab he).step
      · rintro content rfl
        exact hi editor rfl e he
      · rintro title rfl
        exact hi editor rfl e he
    have hnew := h.withTab hstep editor
    refine ⟨hnew.editors, hnew.storage, ?_, hnew.current⟩
    intro p hp
    rcases List.mem_append.mp hp with hp | hp
    · exact h.lost p hp
    · exact named_of_loses (h.tab he).editor hp
  cases i with
  | patched request revision => exact h
  | _ =>
      simp only [World.step]
      split
      · next he => exact hact he
      · exact h

theorem World.Inv.step {i : WorldInput} (hi : w.Resolved i) : (World.step cfg w i).Inv := by
  cases i with
  | event event => exact ⟨h.editors, h.storage, h.lost, h.current⟩
  | fetch => exact ⟨h.editors, h.storage, h.lost, h.current⟩
  | mount =>
      simp only [World.step]
      split
      · next note _ =>
          split
          · exact h
          · refine ⟨?_, h.storage, h.lost, h.current⟩
            intro e he
            rcases List.mem_append.mp he with he | he
            · exact h.editors e he
            · obtain rfl := List.mem_singleton.mp he
              exact synced_load note h.storage
      · exact h
  | act editor input => exact h.act hi
  | serve editor request =>
      simp only [World.step]
      split
      · exact h
      · next e he =>
          split
          · next p hp =>
              split
              · exact h
              · have hsynced := (h.tab he).editor
                have hnamed : p.revision = p.base := hsynced.patches p (List.mem_of_getElem? hp)
                refine ⟨?_, h.storage, h.lost, h.servePatch hnamed⟩
                intro e' he'
                rcases List.mem_or_eq_of_mem_set he' with he' | rfl
                · exact h.editors e' he'
                · refine ⟨hsynced.revision, fun hconflict =>
                    absurd hconflict (hsynced.of_patch hp), ?_⟩
                  intro q hq
                  rcases List.mem_or_eq_of_mem_set hq with hq | rfl
                  · exact hsynced.patches q hq
                  · exact hnamed
          · exact h
  | reply editor request =>
      simp only [World.step]
      split
      · exact h
      · next e he =>
          split
          · exact h.withTab ((h.tab he).patched request _) editor
          · exact h.withTab ((h.tab he).patchFailed request _) editor
          · exact h
  | serveLost request =>
      simp only [World.step]
      split
      · next p hp =>
          have hnamed : p.revision = p.base := h.lost p (List.mem_of_getElem? hp)
          refine ⟨h.editors, h.storage, ?_, h.servePatch hnamed⟩
          exact fun q hq => h.lost q (List.mem_of_mem_eraseIdx hq)
      · exact h

end World

def exampleConfig : WorldConfig := ⟨fun _ => none, "ann", "n"⟩

def emptyDocument : Json :=
    .obj [("type", .str "doc"), ("content", .arr [.obj [("type", .str "paragraph")]])]

def sharedNote : Notes.Database :=
  ⟨.empty, Table.empty.insert ⟨"n", "plan", emptyDocument, 0, "ann", [⟨"bob", true⟩]⟩⟩

/-- A draft is left, and another user changes the note; then the note is opened again. -/
def reopened : List WorldInput :=
  [.fetch, .mount, .act 0 (.onChange "draft"), .act 0 .unmount,
    .event (.request "bob"
      (.patch "n" (.obj [("revision", .num 0), ("title", .str "bob's plan")]))),
    .fetch, .mount]

/-- The user loads the current version and changes that one. -/
def answered : List WorldInput :=
  reopened ++ [.act 1 (.reload true), .fetch, .mount, .act 2 (.onChange "new plan"),
    .act 2 (.save true), .serve 2 0]

/-- The user writes on, and opens the note once more. -/
def writtenOn : List WorldInput :=
  reopened ++ [.act 1 (.onChange "my plan"), .act 1 .unmount, .fetch, .mount, .act 2 (.save true),
    .serve 2 0]

end AfkClient.NoteEditor
