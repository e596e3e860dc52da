import AfkClient.Model.NoteEditor

/-! Where the text of an editor is: with the server, in the local draft, or in the loaded note. -/

namespace AfkClient.NoteEditor

/-- The server has the text, up to what is done to the title when it is sent. -/
def Acknowledged.Covers (s : Snapshot) : Acknowledged → Prop
  | .loaded note => s = note
  | .patched body => s.patchBody = body
  | .copied body => s.copyBody = body

instance (s : Snapshot) (a : Acknowledged) : Decidable (a.Covers s) := by
  cases a <;> exact inferInstanceAs (Decidable (_ = _))

/-- The draft is the text that the server acknowledged last. -/
def Tab.Safe (t : Tab) : Prop := t.editor.acknowledged.Covers t.editor.draft.toSnapshot

instance (t : Tab) : Decidable t.Safe := inferInstanceAs (Decidable (Acknowledged.Covers ..))

/-- The editor loses no text. -/
structure Tab.Keeps (t : Tab) : Prop where
  oneRequest : t.editor.patches.length ≤ 1
  shown : t.editor.mounted → t.editor.canWrite → t.editor.status = .gespeichert → t.Safe
  removed : ∀ why, t.storage = .removed why → why ≠ .confirmed → t.Safe
  kept : (∀ why, t.storage ≠ .removed why) →
    t.storage.getItem.map Draft.toSnapshot = some t.editor.draft.toSnapshot ∨
      t.editor.draft.toSnapshot = t.editor.note.toSnapshot

/-- A copy is acknowledged while the draft still is what was copied. -/
def Tab.Unchanged (t : Tab) : Input → Prop
  | .copied request => ∀ body ∈ t.editor.copies[request]?, t.editor.draft.copyBody = body
  | _ => True

/-! ### One step -/

/-- The invariant of all runs whose steps meet the condition. -/
structure Inv (t : Tab) : Prop where
  pending : t.editor.patches.length = if t.editor.pending then 1 else 0
  shown : t.editor.mounted → t.editor.status = .gespeichert → t.Safe ∧ t.editor.pending = false
  removed : ∀ why, t.storage = .removed why → why ≠ .confirmed → t.Safe
  kept : (∀ why, t.storage ≠ .removed why) →
    t.storage.getItem.map Draft.toSnapshot = some t.editor.draft.toSnapshot ∨
      t.editor.draft.toSnapshot = t.editor.note.toSnapshot
  saved : t.editor.mounted → t.editor.acknowledged.Covers t.editor.saved

theorem Inv.keeps {t : Tab} (h : Inv t) : t.Keeps where
  oneRequest := by
    rw [h.pending]
    split <;> omega
  shown hmounted _ hstatus := (h.shown hmounted hstatus).1
  removed := h.removed
  kept := h.kept

theorem initialDraft_text (note : Note) (storage : Storage) :
    storage.getItem.map Draft.toSnapshot = some (initialDraft note storage).toSnapshot ∨
      (initialDraft note storage).toSnapshot = note.toSnapshot := by
  cases hwrite : note.canWrite with
  | false => simp [initialDraft, hwrite]
  | true => cases hitem : storage.getItem <;> simp [initialDraft, hwrite, hitem]

theorem load_text (note : Note) (storage : Storage) :
    (Editor.load note storage).draft.toSnapshot = (initialDraft note storage).toSnapshot := by
  simp only [Editor.load]
  split <;> rfl

theorem inv_load (note : Note) (storage : Storage) : Inv ⟨.load note storage, storage⟩ where
  pending := rfl
  shown _ hstatus := by
    refine ⟨(load_text note storage).trans ?_, rfl⟩
    simp only [Editor.load] at hstatus
    split at hstatus
    · simp_all
    · cases hstatus
  removed why hremoved _ := by
    refine (load_text note storage).trans ?_
    obtain rfl : storage = .removed why := hremoved
    rcases initialDraft_text note (.removed why) with hitem | htext
    · cases hitem
    · exact htext
  kept _ := by
    rw [load_text]
    exact initialDraft_text note storage
  saved _ := rfl

section Step

variable {t : Tab} (h : Inv t)
include h

theorem Inv.onUpdate (content : Json) : Inv (t.onUpdate content) where
  pending := h.pending
  shown _ hstatus := nomatch hstatus
  removed _ hremoved := nomatch hremoved
  kept _ := .inl rfl
  saved := h.saved

theorem Inv.onChange (title : String) : Inv (t.onChange title) where
  pending := h.pending
  shown _ hstatus := nomatch hstatus
  removed _ hremoved := nomatch hremoved
  kept _ := .inl rfl
  saved := h.saved

theorem Inv.save (canWrite : Bool) : Inv (t.save canWrite) := by
  simp only [Tab.save]
  split
  · exact h
  · split
    · exact h
    · split
      · exact h
      · next hpending _ _ =>
          have hnone : t.editor.patches = [] := by
            have hlength := h.pending
            rw [if_neg hpending] at hlength
            exact List.length_eq_zero_iff.mp hlength
          refine ⟨by simp [Tab.send, hnone], ?_, h.removed, h.kept, h.saved⟩
          intro hmounted hstatus
          have hsaving : (if t.editor.mounted = true then Status.speichert else t.editor.status) =
              .speichert := if_pos hmounted
          exact nomatch hsaving.symm.trans hstatus

/-- Only one request is there to be answered. -/
theorem Inv.answered {request : ℕ} {patch : Patch}
    (hpatch : t.editor.patches[request]? = some patch) :
    t.editor.pending ∧ t.editor.patches.eraseIdx request = [] := by
  have hlength := h.pending
  obtain ⟨hlt, -⟩ := List.getElem?_eq_some_iff.mp hpatch
  cases hpending : t.editor.pending with
  | false =>
      rw [hpending] at hlength
      simp at hlength
      simp [hlength] at hlt
  | true =>
      rw [hpending] at hlength
      obtain ⟨p, hp⟩ := List.length_eq_one_iff.mp hlength
      rw [hp] at hlt ⊢
      obtain rfl : request = 0 := by simpa using hlt
      simp

theorem Inv.patched (request revision : ℕ) : Inv (t.patched request revision) := by
  simp only [Tab.patched]
  split
  · exact h
  · next patch hpatch =>
      obtain ⟨hpending, hrest⟩ := h.answered hpatch
      split
      · next hsame =>
          have hsafe : (Acknowledged.patched patch.snapshot.patchBody).Covers
              t.editor.draft.toSnapshot := congrArg Snapshot.patchBody hsame
          exact ⟨by simp [hrest], fun _ _ => ⟨hsafe, rfl⟩, fun _ _ _ => hsafe,
            fun hr => absurd rfl (hr .saved), fun _ => rfl⟩
      · refine ⟨by simp [Tab.send, Tab.persistDraft, hrest, hpending], ?_, ?_, fun _ => .inl rfl,
          fun _ => rfl⟩
        · intro hmounted hstatus
          have hidle := (h.shown hmounted hstatus).2
          rw [hpending] at hidle
          contradiction
        · exact fun why hremoved => nomatch hremoved

theorem Inv.patchFailed (request : ℕ) (error : Option ApiError) :
    Inv (t.patchFailed request error) := by
  simp only [Tab.patchFailed]
  split
  · exact h
  · next patch hpatch =>
      obtain ⟨hpending, hrest⟩ := h.answered hpatch
      split
      · exact ⟨by simp [Tab.persistDraft, hrest], by simp [Tab.persistDraft],
          by simp [Tab.persistDraft], fun _ => .inl rfl, h.saved⟩
      · next hclosed =>
          exact ⟨by simp [Tab.persistDraft, hrest], fun hmounted => absurd hmounted hclosed,
            by simp [Tab.persistDraft], fun _ => .inl rfl, h.saved⟩

theorem Inv.copyDraft : Inv t.copyDraft := by
  simp only [Tab.copyDraft]
  split
  · exact ⟨h.pending, h.shown, h.removed, h.kept, h.saved⟩
  · exact h

theorem Inv.copied {request : ℕ} (hcopy : t.Unchanged (.copied request)) :
    Inv (t.copied request) := by
  simp only [Tab.copied]
  split
  · exact h
  · next body hbody =>
      have hsafe : t.editor.draft.copyBody = body := hcopy body hbody
      exact ⟨h.pending, fun hm hs => ⟨hsafe, (h.shown hm hs).2⟩, fun _ _ _ => hsafe,
        fun hr => absurd rfl (hr .copied), fun _ => hsafe⟩

theorem Inv.copyFailed (request : ℕ) (error : Option ApiError) :
    Inv (t.copyFailed request error) := by
  simp only [Tab.copyFailed]
  split
  · exact h
  · exact ⟨h.pending, h.shown, h.removed, h.kept, h.saved⟩

theorem Inv.closed : Inv t.removed := by
  simp only [Tab.removed]
  split
  · exact h
  · refine ⟨h.pending, by simp, ?_, fun hr => absurd rfl (hr .confirmed), by simp⟩
    intro why hremoved hwhy
    exact absurd (Storage.removed.inj hremoved).symm hwhy

theorem Inv.removeFailed (error : Option ApiError) : Inv (t.removeFailed error) := by
  simp only [Tab.removeFailed]
  split
  · exact h
  · exact ⟨h.pending, h.shown, h.removed, h.kept, h.saved⟩

theorem Inv.reload (hmounted : t.editor.mounted) (confirmed : Bool) : Inv (t.reload confirmed) := by
  simp only [Tab.reload]
  split
  · exact h
  · refine ⟨h.pending, by simp, ?_, fun hr => absurd rfl (hr _), by simp⟩
    intro why hremoved hwhy
    obtain rfl := Storage.removed.inj hremoved
    -- nothing was asked, so the draft is the text that was saved
    have hsame : t.editor.draft.toSnapshot = t.editor.saved := by
      by_contra hchanged
      simp [hchanged] at hwhy
    have hsaved := h.saved hmounted
    rwa [← hsame] at hsaved

theorem Inv.unmount : Inv t.unmount :=
  ⟨h.pending, by simp [Tab.unmount], h.removed, h.kept, by simp [Tab.unmount]⟩

theorem Inv.step {i : Input} (hi : t.Unchanged i) : Inv (t.step i) := by
  simp only [Tab.step]
  split
  · exact h
  · next hopen =>
      cases i with
      | onUpdate content => exact h.onUpdate content
      | onChange title => exact h.onChange title
      | save canWrite => exact h.save canWrite
      | patched request revision => exact h.patched request revision
      | patchFailed request error => exact h.patchFailed request error
      | copyDraft => exact h.copyDraft
      | copied request => exact h.copied hi
      | copyFailed request error => exact h.copyFailed request error
      | remove => exact ⟨h.pending, h.shown, h.removed, h.kept, h.saved⟩
      | removed => exact h.closed
      | removeFailed error => exact h.removeFailed error
      | reload confirmed => exact h.reload (by simpa [Input.needsMounted] using hopen) confirmed
      | unmount => exact h.unmount

end Step

/-! ### Runs -/

/-- A copy that is acknowledged removes the local draft, so the draft has to be what was copied. -/
theorem unchanged_of_keeps {t : Tab} {i : Input} (h : (t.step i).Keeps) : t.Unchanged i := by
  cases i with
  | copied request =>
      intro body hbody
      have hstep : t.step (.copied request) = t.copied request := rfl
      rw [hstep, Tab.copied, Option.mem_def.mp hbody] at h
      exact h.removed .copied rfl (by decide)
  | _ => trivial

/-- An editor loses no text exactly if each copy is acknowledged while its text is the draft's. -/
theorem editor_keeps (note : Note) (storage : Storage) (inputs : List Input) :
    Along Tab.step Tab.Keeps ⟨.load note storage, storage⟩ inputs ↔
      Meets Tab.step Tab.Unchanged ⟨.load note storage, storage⟩ inputs := by
  constructor
  · exact meets_of_along fun _ _ => unchanged_of_keeps
  · intro h
    have hinv : Along Tab.step Inv ⟨.load note storage, storage⟩ inputs :=
      along_of_preserved (fun _ _ ht hi => ht.step hi) (inv_load note storage) h
    exact hinv.mono fun _ ht => ht.keeps

/-! ### An edit during a copy -/

def exampleDocument (text : String) : Json := .obj [("type", .str "doc"), ("text", .str text)]

def exampleNote : Note := ⟨⟨"Base", exampleDocument "loaded"⟩, 3, true⟩

/-- A save fails, the draft is copied, and the user writes on before the copy is acknowledged. -/
def exampleCopy : List Input :=
  [.onUpdate (exampleDocument "copied"), .save true, .patchFailed 0 none, .copyDraft,
    .onUpdate (exampleDocument "lost"), .copied 0]

/-- The text of the last edit is neither with the server nor in the local draft. -/
theorem text_lost : ¬Along Tab.step Tab.Keeps ⟨.load exampleNote .empty, .empty⟩ exampleCopy := by
  intro h
  have hsafe := h.last.removed .copied (by decide +kernel) (by decide)
  revert hsafe
  decide +kernel

end AfkClient.NoteEditor
