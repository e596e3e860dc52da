import AfkClient.Library.Journal
import AfkClient.Model.Authorization

/-! What a socket runs and sends is always authorized. -/

namespace AfkClient.Auth

variable {initial : SessionContext} {access : Access} {s t : Socket}

section Fields

variable (s : Socket) (e : Event) (a : ℕ) (p : Phase)

@[simp] theorem emit_log : (s.emit e).log = s.log ++ [e] := rfl
@[simp] theorem emit_ready : (s.emit e).ready = s.ready := rfl
@[simp] theorem emit_current : (s.emit e).current = s.current := rfl
@[simp] theorem emit_queue : (s.emit e).queue = s.queue := rfl
@[simp] theorem emit_pending : (s.emit e).pending = s.pending := rfl
@[simp] theorem emit_actions : (s.emit e).actions = s.actions := rfl
@[simp] theorem setPhase_log : (s.setPhase a p).log = s.log := rfl
@[simp] theorem setPhase_ready : (s.setPhase a p).ready = s.ready := rfl
@[simp] theorem setPhase_current : (s.setPhase a p).current = some ⟨a, p⟩ := rfl
@[simp] theorem setPhase_queue : (s.setPhase a p).queue = s.queue := rfl

@[simp] theorem setPhase_pending : (s.setPhase a p).pending = s.pending := rfl
@[simp] theorem setPhase_actions : (s.setPhase a p).actions = s.actions := rfl

theorem close_eq : s.close = { s with ready := s.close.ready } := by
  rw [Socket.close]
  split <;> rfl

@[simp] theorem close_log : s.close.log = s.log := by rw [close_eq]
@[simp] theorem close_current : s.close.current = s.current := by rw [close_eq]
@[simp] theorem close_queue : s.close.queue = s.queue := by rw [close_eq]

@[simp] theorem close_pending : s.close.pending = s.pending := by rw [close_eq]
@[simp] theorem close_actions : s.close.actions = s.actions := by rw [close_eq]
@[simp] theorem close_cleanup : s.close.cleanup = s.cleanup := by rw [close_eq]
@[simp] theorem close_disposed : s.close.disposed = s.disposed := by rw [close_eq]
@[simp] theorem close_subscriptions : s.close.subscriptions = s.subscriptions := by rw [close_eq]

theorem close_closed : s.close.ready = .closed ↔ s.ready = .closed := by
  rw [Socket.close]
  split
  · rename_i hopen
    simp [hopen]
  · rfl

theorem close_ready : s.close.ready ≠ .open := by
  rw [Socket.close]
  split
  · simp
  · assumption

end Fields

/-! ### Nothing after the end -/

/-- Events after which the socket is to be silent. -/
def Event.ends : Event → Prop
  | .failed _ | .revoked => True
  | _ => False

/-- The start of an action, or a message. -/
def Event.works : Event → Prop
  | .started _ | .sent => True
  | _ => False

structure Quiet (s : Socket) : Prop where
  ended : ∀ e ∈ s.log, e.ends → s.ready ≠ .open
  silent : ∀ before e after, s.log = before ++ e :: after → e.ends → ∀ f ∈ after, ¬ f.works

theorem Quiet.congr (h : Quiet s) (hlog : t.log = s.log)
    (hready : s.ready ≠ .open → t.ready ≠ .open) :
    Quiet t where
  ended e he hends := hready (h.ended e (hlog ▸ he) hends)
  silent before e after heq := h.silent before e after (hlog ▸ heq)

/-- An event that works needs an open socket. -/
theorem Quiet.emit (h : Quiet s) {e : Event} (hends : ¬ e.ends)
    (hworks : e.works → s.ready = .open) :
    Quiet (s.emit e) where
  ended f hf hfends := by
    rcases List.mem_append.mp hf with hf | hf
    · exact h.ended f hf hfends
    · rw [List.mem_singleton.mp hf] at hfends
      exact absurd hfends hends
  silent before f after heq hfends := by
    rcases Journal.append_singleton_eq heq with ⟨-, rfl, -⟩ | ⟨init, hlog, rfl⟩
    · exact absurd hfends hends
    · intro g hg hgworks
      rcases List.mem_append.mp hg with hg | hg
      · exact h.silent before f init hlog hfends g hg hgworks
      · rw [List.mem_singleton.mp hg] at hgworks
        exact h.ended f (by simp [hlog]) hfends (hworks hgworks)

theorem Quiet.end_ (h : Quiet s) {e : Event} (hworks : ¬ e.works) : Quiet (s.emit e).close where
  ended _ _ _ := close_ready _
  silent before f after heq hfends := by
    rw [close_log, emit_log] at heq
    rcases Journal.append_singleton_eq heq with ⟨-, -, rfl⟩ | ⟨init, hlog, rfl⟩
    · simp
    · intro g hg
      rcases List.mem_append.mp hg with hg | hg
      · exact h.silent before f init hlog hfends g hg
      · rw [List.mem_singleton.mp hg]
        exact hworks

theorem Quiet.deny (h : Quiet s) (action : ℕ) : Quiet (deny action s) :=
  (h.end_ (e := .failed action) id).congr rfl id

theorem Quiet.act (h : Quiet s) (action : ℕ) : Quiet (act action s) := by
  rw [Auth.act]
  split
  · rename_i hopen
    exact (h.emit (e := .started action) id fun _ => hopen).congr rfl id
  · exact h.congr rfl id

theorem Quiet.close (h : Quiet s) : Quiet s.close := h.congr (close_log s) fun _ => close_ready s

theorem Quiet.grant (h : Quiet s) (access : Access) (action : ℕ) (session : SessionContext) :
    Quiet (grant access action session s) := by
  rw [Auth.grant]
  split
  · exact h.deny action
  · split
    · exact h.act action
    · exact h.congr rfl id

theorem Quiet.proceed (h : Quiet s) (access : Access) (job : Job) :
    Quiet (proceed access job s) := by
  rw [Auth.proceed.eq_def]
  split
  · exact (h.emit (e := .reached job.action) id (fun hw => hw.elim)).congr rfl id
  · exact h.grant access job.action _
  · exact h.deny job.action
  · exact h.act job.action
  · exact h.deny job.action
  · exact h.congr rfl id
  all_goals exact h

theorem Quiet.answer (h : Quiet s) (initial : SessionContext) (access : Access) (job : Job)
    (ok : Bool) :
    Quiet (answer initial access job ok s) := by
  rw [Auth.answer.eq_def]
  split
  · split
    · exact (h.emit (e := .looked job.action s.db s.now) id (fun hw => hw.elim)).congr rfl id
    · exact h.congr rfl id
  · split
    · exact (h.emit (e := .checked job.action s.db) id (fun hw => hw.elim)).congr rfl id
    · exact h.congr rfl id
  · exact h

theorem Quiet.actionEnds (h : Quiet s) (job : Job) (ok : Bool) : Quiet (actionEnds job ok s) := by
  rw [Auth.actionEnds.eq_def]
  split
  · have hfinished := h.emit (e := .finished job.action) id (fun hw => hw.elim)
    simp only
    split
    · exact hfinished.congr rfl id
    · exact hfinished.deny job.action
  · exact h

theorem Quiet.subscribe (h : Quiet s) : Quiet (subscribe s) := by
  rw [Auth.subscribe]
  simp only
  split
  · exact (h.congr (t := { s with subscriptions := s.subscriptions + 1 }) rfl id).emit
      (e := .called s.subscriptions) id (fun hw => hw.elim)
  · exact h.congr rfl id

theorem Quiet.onClose (h : Quiet s) : Quiet (onClose s) where
  ended _ _ _ := by simp [Auth.onClose]
  silent before e after heq hends f hf hworks := by
    have hcalled : ∀ g ∈ s.cleanup.map Event.called, ¬ g.works := by
      intro g hg
      obtain ⟨u, -, rfl⟩ := List.mem_map.mp hg
      exact id
    rcases List.append_eq_append_iff.mp heq with ⟨mid, rfl, hmid⟩ | ⟨mid, hlog, hmid⟩
    · exact hcalled f (by rw [hmid]; simp [hf]) hworks
    · cases mid with
      | nil => exact hcalled f (by simp at hmid; rw [← hmid]; simp [hf]) hworks
      | cons g mid =>
          obtain ⟨rfl, rfl⟩ := List.cons.inj hmid
          rcases List.mem_append.mp hf with hf | hf
          · exact h.silent before e mid hlog hends f hf hworks
          · exact hcalled f hf hworks

theorem Quiet.step (h : Quiet s) (i : Input) : Quiet (step initial access s i) := by
  cases i with
  | run =>
      simp only [Auth.step, runAction]
      split
      · exact h
      · split
        · exact h.close
        · split <;> exact h.congr rfl id
  | send bufferedAmount =>
      simp only [Auth.step, send]
      split
      · exact h
      · rename_i hopen
        split
        · exact h.close
        · exact h.emit (e := .sent) id fun _ => not_not.mp hopen
  | subscribe => exact h.subscribe
  | proceed =>
      simp only [Auth.step]
      split
      · exact h
      · exact h.proceed access _
  | answer ok =>
      simp only [Auth.step]
      split
      · exact h
      · exact h.answer initial access _ ok
  | actionEnds ok =>
      simp only [Auth.step]
      split
      · exact h
      · exact h.actionEnds _ ok
  | change db now => exact h.congr rfl id
  | revoke revocation =>
      simp only [Auth.step]
      split
      · exact h.end_ (e := .revoked) id
      · exact h
  | close => exact h.close
  | closed =>
      simp only [Auth.step]
      split
      · exact h
      · exact h.onClose

end AfkClient.Auth
