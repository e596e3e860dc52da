import AfkClient.Library.Chain
import AfkClient.Library.Run
import AfkClient.Model.LiveCam

/-! Sharing of the live cameras: an account has one open source at most, a stream without
viewers is aborted, and viewers hear of the end of their stream. -/

namespace AfkClient.LiveCamStreams

variable {s : LiveCamStreams} {k : ℕ} {c : CamStream}

/-! ### Pieces of a stream's code -/

/-- The code runs, behind its wait and in front of its cleanup. -/
def Live (c : CamStream) : Prop := c.phase ≠ .waiting ∧ c.phase ≠ .settled ∧ c.phase ≠ .ended

/-- The phases that a running stream changes to while it is not done. -/
def Onward (c : CamStream) : CamPhase → Prop
  | .pausing | .failed _ => True
  | .returning => c.aborted = true
  | _ => False

/-- Calls of viewers. -/
def call (s : LiveCamStreams) (notices : List (ℕ × ℕ × Notice)) : LiveCamStreams :=
  { s with notices := s.notices ++ notices }

/-- What the code of the stream `c` at `k` can do in one piece. -/
inductive Turn (s : LiveCamStreams) (k : ℕ) (c : CamStream) : LiveCamStreams → Prop where
  | idle : Turn s k c s
  | start (hphase : c.phase = .waiting)
      (hprevious : ∀ p, c.previous = some p → ∃ q, s.streams[p]? = some q ∧ q.phase = .ended) :
      Turn s k c (s.modify k (·.resume))
  | elapsed (hphase : c.phase = .pausing) : Turn s k c (s.modify k (·.resume))
  | deliver (hphase : c.phase = .reading) (frame : CameraFrame) (broken : ℕ → Bool) :
      Turn s k c (s.deliver k c frame broken)
  | move (phase : CamPhase) (hlive : Live c) (hphase : Onward c phase)
      (notices : List (ℕ × ℕ × Notice)) : Turn s k c ((s.call notices).setPhase k phase)
  | settle (hlive : Live c) (haborted : c.aborted = true) : Turn s k c (s.setPhase k .settled)
  | tell (hlive : Live c) (code : ConnectCode) :
      Turn s k c ((s.tell k c.viewers fun _ => [.error (some code)]).setPhase k .settled)
  | cleaned (hphase : c.phase = .settled) : Turn s k c (s.cleanUp k c.account)

theorem Turn.quiet {phase : CamPhase} (hlive : Live c) (hphase : Onward c phase) :
    Turn s k c (s.setPhase k phase) := by
  have hmove := Turn.move (s := s) (k := k) phase hlive hphase []
  rwa [call, List.append_nil] at hmove

theorem piece_turn (s : LiveCamStreams) (k : ℕ) (c : CamStream) (i : CamInput)
    (hreturning : c.phase = .returning → c.aborted = true) : Turn s k c (s.piece k c i) := by
  unfold piece
  split
  · rename_i hphase
    split
    · rename_i hprevious
      refine .start hphase fun p hp => ?_
      rw [hp] at hprevious
      obtain ⟨q, hq, hended⟩ := (Option.any_eq_true _ _).mp hprevious
      exact ⟨q, hq, by simpa using hended⟩
    · exact .idle
  · rename_i hphase
    have hlive : Live c := by simp [Live, hphase]
    split
    · rename_i haborted
      exact .quiet hlive haborted
    · split
      · exact .deliver hphase _ _
      · exact .idle
  · rename_i hphase
    have hlive : Live c := by simp [Live, hphase]
    split
    · rename_i haborted
      exact .settle hlive haborted
    · exact .move .pausing hlive trivial _
  · rename_i hphase
    have hlive : Live c := by simp [Live, hphase]
    split
    · rename_i haborted
      exact .settle hlive haborted
    · split
      · exact .quiet hlive trivial
      · exact .move .pausing hlive trivial _
  · rename_i hphase
    exact .settle (by simp [Live, hphase]) (hreturning hphase)
  · rename_i hphase
    exact .elapsed hphase
  · rename_i hphase
    split
    · exact .quiet (by simp [Live, hphase]) trivial
    · exact .idle
  · rename_i hphase
    have hlive : Live c := by simp [Live, hphase]
    split
    · rename_i haborted
      exact .settle hlive haborted
    · exact .tell hlive _
  · rename_i hphase
    exact .cleaned hphase
  · exact .idle

/-! ### The streams of an account -/

def stage : CamPhase → Stage
  | .waiting => .waiting
  | .ended => .ended
  | _ => .running

def link (c : CamStream) : Link String := ⟨c.account, c.previous, stage c.phase⟩

/-- The streams of each account take over from each other. -/
def chain (s : LiveCamStreams) : Chain String := ⟨s.streams.map link, s.current⟩

theorem map_link_modify {f : CamStream → CamStream} {g : Link String → Link String}
    (hc : s.streams[k]? = some c) (hf : link (f c) = g (link c)) :
    (s.streams.modify k f).map link = (s.streams.map link).modify k g := by
  apply List.ext_getElem?
  intro j
  rw [List.getElem?_map, List.getElem?_modify, List.getElem?_modify, List.getElem?_map]
  by_cases hj : k = j
  · subst hj
    simp [hc, hf]
  · simp [hj]

theorem chain_modify {f : CamStream → CamStream} (hc : s.streams[k]? = some c)
    (hf : link (f c) = link c) : chain (s.modify k f) = chain s := by
  have hlinks := map_link_modify (g := id) hc hf
  rw [List.modify_id] at hlinks
  exact congrArg (Chain.mk · s.current) hlinks

theorem link_phase {phase : CamPhase} (h : stage phase = stage c.phase) :
    link { c with phase := phase } = link c := congrArg (Link.mk c.account c.previous) h

theorem phase_without (c : CamStream) (gone : ℕ → Bool) : (c.without gone).phase = c.phase := by
  unfold CamStream.without
  dsimp only
  split <;> rfl

theorem link_without (c : CamStream) (gone : ℕ → Bool) : link (c.without gone) = link c := by
  unfold CamStream.without
  dsimp only
  split <;> rfl

theorem link_abortWith (c : CamStream) (cause : AbortCause) : link (c.abortWith cause) = link c := rfl

theorem link_resume (c : CamStream) : link c.resume = { link c with stage := .running } := by
  unfold CamStream.resume
  dsimp only
  split <;> rfl

theorem chain_links (hc : s.streams[k]? = some c) : (chain s).links[k]? = some (link c) := by
  simp [chain, hc]

theorem Live.stage (h : Live c) : stage c.phase = .running := by
  obtain ⟨hwaiting, -, hended⟩ := h
  unfold LiveCamStreams.stage
  split
  · exact absurd (by assumption) hwaiting
  · exact absurd (by assumption) hended
  · rfl

theorem Onward.stage {phase : CamPhase} (h : Onward c phase) :
    LiveCamStreams.stage phase = .running := by
  cases phase with
  | pausing | failed | returning => rfl
  | waiting | reading | settled | ended => exact h.elim

/-- A piece of a stream's code leaves the chains as they are, or makes a step of them. -/
theorem Turn.chain {s' : LiveCamStreams} (h : Turn s k c s') (hc : s.streams[k]? = some c) :
    chain s' = chain s ∨ (chain s).Step (chain s') := by
  cases h with
  | idle => exact .inl rfl
  | start hphase hprevious =>
      right
      have hchain : LiveCamStreams.chain (s.modify k (·.resume)) =
          (LiveCamStreams.chain s).setStage k .running :=
        congrArg (Chain.mk · s.current)
          (map_link_modify (g := fun l => { l with stage := .running }) hc (link_resume c))
      rw [hchain]
      refine .start (chain_links hc) (by simp [link, LiveCamStreams.stage, hphase]) fun p hp => ?_
      obtain ⟨q, hq, hended⟩ := hprevious p hp
      exact ⟨link q, chain_links hq, by simp [link, LiveCamStreams.stage, hended]⟩
  | elapsed hphase =>
      refine .inl (chain_modify hc ?_)
      rw [link_resume]
      simp [link, LiveCamStreams.stage, hphase]
  | deliver hphase frame broken =>
      refine .inl (chain_modify (s := s.tell k c.viewers _) hc ?_)
      dsimp only
      split
      · rw [← link_without c broken]
        exact link_phase (by rw [phase_without, hphase]; rfl)
      · exact link_without c broken
  | move phase hlive hphase notices =>
      exact .inl (chain_modify (s := s.call notices) hc (link_phase (hphase.stage.trans hlive.stage.symm)))
  | settle hlive haborted => exact .inl (chain_modify hc (link_phase hlive.stage.symm))
  | tell hlive code =>
      exact .inl (chain_modify (s := s.tell k c.viewers _) hc (link_phase hlive.stage.symm))
  | cleaned hphase =>
      right
      have hchain : LiveCamStreams.chain (s.cleanUp k c.account) =
          (LiveCamStreams.chain s).finish k (link c).key :=
        congrArg (Chain.mk · (s.cleanUp k c.account).current)
          (map_link_modify (g := fun l => { l with stage := .ended }) hc rfl)
      rw [hchain]
      exact .finish (chain_links hc) (by simp [link, LiveCamStreams.stage, hphase])

theorem enter_chain (s : LiveCamStreams) (account : String) :
    chain (s.enter account).1 = chain s ∨ (chain s).Step (chain (s.enter account).1) := by
  unfold enter
  split
  · exact .inl rfl
  · right
    have hchain : chain { s with
        streams := s.streams ++ [{ account := account, previous := s.current account }]
        current := Function.update s.current account (some s.streams.length) } =
        (chain s).append account := by
      simp [chain, Chain.append, link, stage]
    rw [hchain]
    exact .append account

/-- Viewers who come and go leave the chains alone. -/
theorem chain_of_link {s' : LiveCamStreams} (hcurrent : s'.current = s.current)
    (hlink : s'.streams.map link = s.streams.map link) : chain s' = chain s := by
  rw [chain, chain, hcurrent, hlink]

theorem map_modify_link {f : CamStream → CamStream} (hf : ∀ c, link (f c) = link c) (k : ℕ) :
    (s.streams.modify k f).map link = s.streams.map link := by
  cases hc : s.streams[k]? with
  | some c =>
      have hlinks := map_link_modify (g := id) hc (hf c)
      rwa [List.modify_id] at hlinks
  | none =>
      rw [List.modify_eq_self (by simpa using hc)]

theorem subscribe_chain (s : LiveCamStreams) (account : String) (viewer : ℕ) :
    chain (s.subscribe account viewer) = chain (s.enter account).1 :=
  chain_of_link rfl (map_modify_link (f := (·.join viewer)) (fun _ => rfl) _)

theorem unsubscribe_chain (s : LiveCamStreams) (n : ℕ) : chain (s.unsubscribe n) = chain s := by
  unfold unsubscribe
  split
  · exact chain_of_link rfl (map_modify_link (fun c => link_without c _) _)
  · rfl

theorem close_chain (s : LiveCamStreams) : chain s.close = chain s := by
  refine chain_of_link rfl (List.ext_getElem? fun j => ?_)
  simp only [close, List.getElem?_map, List.getElem?_mapIdx, Option.map_map]
  cases s.streams[j]? with
  | none => rfl
  | some c =>
      simp only [Option.map_some, Function.comp]
      split <;> rfl

/-! ### Viewers -/

/-- What holds of a stream between two pieces of code. -/
structure Sound (c : CamStream) : Prop where
  empty : c.viewers = [] → c.aborted = true
  abandoned : c.abort = some .abandoned → c.viewers = []
  finished : c.abort = some .finished → c.phase = .ended
  returning : c.phase = .returning → c.aborted = true
  ended : c.phase = .ended → c.aborted = true

theorem aborted_abortWith (c : CamStream) (cause : AbortCause) : (c.abortWith cause).aborted = true := by
  simp [CamStream.aborted, CamStream.abortWith]

theorem abort_abortWith (h : c.aborted = true) (cause : AbortCause) : c.abortWith cause = c := by
  obtain ⟨first, hfirst⟩ := Option.isSome_iff_exists.mp h
  cases c
  simp_all [CamStream.abortWith]

theorem abort_abortWith_none (h : c.aborted = false) (cause : AbortCause) :
    (c.abortWith cause).abort = some cause := by
  have hnone : c.abort = none := by simpa [CamStream.aborted] using h
  simp [CamStream.abortWith, hnone]

theorem sound_join (hopen : c.aborted = false) (hreturning : c.phase ≠ .returning)
    (hended : c.phase ≠ .ended) (viewer : ℕ) : Sound (c.join viewer) := by
  have hjoined : (c.join viewer).viewers ≠ [] := by
    unfold CamStream.join
    dsimp only
    split
    · rename_i hmem
      exact List.ne_nil_of_mem hmem
    · simp
  have hnone : (c.join viewer).abort = none := by
    change c.abort = none
    simpa [CamStream.aborted] using hopen
  exact ⟨fun hnil => absurd hnil hjoined, by simp [hnone], by simp [hnone],
    fun hphase => absurd hphase hreturning, fun hphase => absurd hphase hended⟩

theorem viewers_without (c : CamStream) (gone : ℕ → Bool) :
    (c.without gone).viewers = c.viewers.filter (! gone ·) := by
  unfold CamStream.without
  dsimp only
  split <;> rfl

theorem sound_abandoned (hfinished : c.abort = some .finished → c.phase = .ended)
    (hnil : c.viewers = []) : Sound (c.abortWith .abandoned) := by
  have haborted := aborted_abortWith c .abandoned
  refine ⟨fun _ => haborted, fun _ => hnil, fun habort => hfinished ?_, fun _ => haborted,
    fun _ => haborted⟩
  cases hcause : c.abort <;> simp_all [CamStream.abortWith]

theorem Sound.without (h : Sound c) (gone : ℕ → Bool) : Sound (c.without gone) := by
  unfold CamStream.without
  dsimp only
  split
  · rename_i hnil
    exact sound_abandoned h.finished hnil
  · rename_i hne
    refine ⟨fun hnil => absurd hnil hne, fun habort => ?_, h.finished, h.returning, h.ended⟩
    simp [h.abandoned habort] at hne

theorem Sound.close (h : Sound c) : Sound (c.abortWith .closed) := by
  cases haborted : c.aborted with
  | true => rwa [abort_abortWith haborted]
  | false =>
      have habort := abort_abortWith_none haborted .closed
      exact ⟨fun _ => aborted_abortWith .., by simp [habort], by simp [habort],
        fun _ => aborted_abortWith .., fun _ => aborted_abortWith ..⟩

theorem Sound.phase (h : Sound c) {phase : CamPhase} (hlive : c.phase ≠ .ended)
    (hreturning : phase = .returning → c.aborted = true) (hended : phase ≠ .ended) :
    Sound { c with phase := phase } :=
  ⟨h.empty, h.abandoned, fun habort => absurd (h.finished habort) hlive, hreturning,
    fun h => absurd h hended⟩

theorem Sound.resume (h : Sound c) (hlive : c.phase ≠ .ended) : Sound c.resume := by
  unfold CamStream.resume
  split
  · exact h.phase hlive nofun nofun
  · exact h.phase hlive nofun nofun

theorem Sound.cleaned (h : Sound c) : Sound { c.abortWith .finished with phase := .ended } := by
  have haborted := aborted_abortWith c .finished
  refine ⟨fun _ => haborted, fun habort => ?_, fun _ => rfl, nofun, fun _ => haborted⟩
  refine h.abandoned ?_
  cases hcause : c.abort <;> simp_all [CamStream.abortWith]

theorem Sound.deliver (h : Sound c) (hphase : c.phase = .reading) (broken : ℕ → Bool) :
    Sound (if (c.without broken).viewers = [] then { c.without broken with phase := .returning }
      else c.without broken) := by
  have hsound := h.without broken
  split
  · rename_i hnil
    refine hsound.phase ?_ (fun _ => hsound.empty hnil) nofun
    rw [phase_without, hphase]
    nofun
  · exact hsound

theorem sound_modify {f : CamStream → CamStream} (hc : s.streams[k]? = some c)
    (hf : Sound c → Sound (f c)) (h : ∀ c ∈ s.streams, Sound c) :
    ∀ c ∈ s.streams.modify k f, Sound c := by
  intro c' hc'
  obtain ⟨j, hj⟩ := List.mem_iff_getElem?.mp hc'
  rw [List.getElem?_modify] at hj
  obtain ⟨c₀, hc₀, rfl⟩ := Option.map_eq_some_iff.mp hj
  have hsound := h c₀ (List.mem_of_getElem? hc₀)
  split
  · rename_i heq
    subst heq
    obtain rfl := Option.some.inj (hc₀.symm.trans hc)
    exact hf hsound
  · exact hsound

theorem Turn.sound {s' : LiveCamStreams} (ht : Turn s k c s') (hc : s.streams[k]? = some c)
    (h : ∀ c ∈ s.streams, Sound c) : ∀ c ∈ s'.streams, Sound c := by
  cases ht with
  | idle => exact h
  | start hphase => exact sound_modify hc (fun hs => hs.resume (by simp [hphase])) h
  | elapsed hphase => exact sound_modify hc (fun hs => hs.resume (by simp [hphase])) h
  | deliver hphase frame broken => exact sound_modify hc (fun hs => hs.deliver hphase broken) h
  | move phase hlive hphase notices =>
      refine sound_modify hc (fun hs => hs.phase hlive.2.2 ?_ ?_) h
      · rintro rfl
        exact hphase
      · rintro rfl
        exact hphase
  | settle hlive => exact sound_modify hc (fun hs => hs.phase hlive.2.2 nofun nofun) h
  | tell hlive => exact sound_modify hc (fun hs => hs.phase hlive.2.2 nofun nofun) h
  | cleaned => exact sound_modify hc Sound.cleaned h

/-- The viewer was given an error. -/
def Told (s : LiveCamStreams) (k viewer : ℕ) : Prop := ∃ error, (k, viewer, .error error) ∈ s.notices

/-- The viewer is attached to the stream `c`, which goes on, or was given an error; a stream
that was closed owes nothing. -/
def Kept (s : LiveCamStreams) (k : ℕ) (c : CamStream) (viewer : ℕ) : Prop :=
  c.abort = some .closed ∨ Told s k viewer ∨
    viewer ∈ c.viewers ∧ c.phase ≠ .settled ∧ c.phase ≠ .ended

def Served (s : LiveCamStreams) (k viewer : ℕ) : Prop :=
  ∃ c, s.streams[k]? = some c ∧ Kept s k c viewer

theorem Kept.mono {s' : LiveCamStreams} (hnotices : s.notices ⊆ s'.notices) {viewer : ℕ}
    (h : Kept s k c viewer) : Kept s' k c viewer :=
  h.imp_right fun h => h.imp_left fun ⟨error, herror⟩ => ⟨error, hnotices herror⟩

theorem served_modify {s' : LiveCamStreams} {f : CamStream → CamStream} {j viewer : ℕ}
    (hc : s.streams[k]? = some c) (hstreams : s'.streams = s.streams.modify k f)
    (hnotices : s.notices ⊆ s'.notices) (hf : j = k → Kept s k c viewer → Kept s' k (f c) viewer)
    (h : Served s j viewer) : Served s' j viewer := by
  obtain ⟨c₀, hc₀, hkept⟩ := h
  by_cases hj : k = j
  · subst hj
    obtain rfl := Option.some.inj (hc₀.symm.trans hc)
    exact ⟨f c₀, by simp [hstreams, hc], hf rfl hkept⟩
  · exact ⟨c₀, by simp [hstreams, hj, hc₀], hkept.mono hnotices⟩

/-- A stream that is aborted in front of its end has no viewers, or was closed. -/
theorem Sound.ends (h : Sound c) (hlive : c.phase ≠ .ended) (haborted : c.aborted = true) :
    c.abort = some .closed ∨ c.viewers = [] := by
  obtain ⟨cause, hcause⟩ := Option.isSome_iff_exists.mp haborted
  cases cause with
  | abandoned => exact .inr (h.abandoned hcause)
  | closed => exact .inl hcause
  | finished => exact absurd (h.finished hcause) hlive

theorem Kept.settle {viewer : ℕ} (hs : Sound c) (hlive : c.phase ≠ .ended)
    (haborted : c.aborted = true) (h : Kept s k c viewer) :
    Kept s k { c with phase := .settled } viewer := by
  rcases h with hclosed | htold | ⟨hmem, -⟩
  · exact .inl hclosed
  · exact .inr (.inl htold)
  · rcases hs.ends hlive haborted with hclosed | hnil
    · exact .inl hclosed
    · simp [hnil] at hmem

theorem Kept.phase {phase : CamPhase} (hsettled : phase ≠ .settled) (hended : phase ≠ .ended)
    {viewer : ℕ} (h : Kept s k c viewer) : Kept s k { c with phase := phase } viewer :=
  h.imp_right fun h => h.imp_right fun h => ⟨h.1, hsettled, hended⟩

theorem Kept.resume {viewer : ℕ} (hs : Sound c) (hlive : c.phase ≠ .ended)
    (h : Kept s k c viewer) : Kept s k c.resume viewer := by
  unfold CamStream.resume
  split
  · rename_i hover
    refine h.settle hs hlive ?_
    rcases (Bool.or_eq_true _ _).mp hover with haborted | hnil
    · exact haborted
    · exact hs.empty (by simpa using hnil)
  · exact h.phase (by nofun) (by nofun)

theorem Kept.cleaned {viewer : ℕ} (hphase : c.phase = .settled) (h : Kept s k c viewer) :
    Kept s k { c.abortWith .finished with phase := .ended } viewer := by
  rcases h with hclosed | htold | ⟨-, hsettled, -⟩
  · left
    simp [CamStream.abortWith, hclosed]
  · exact .inr (.inl htold)
  · exact absurd hphase hsettled

theorem closed_without (h : c.abort = some .closed) (gone : ℕ → Bool) :
    (c.without gone).abort = some .closed := by
  unfold CamStream.without
  dsimp only
  split
  · simp [CamStream.abortWith, h]
  · exact h

/-- A viewer who is not among those that leave stays attached. -/
theorem Kept.without {viewer : ℕ} {gone : ℕ → Bool} (hgone : gone viewer = false)
    (h : Kept s k c viewer) : Kept s k (c.without gone) viewer := by
  rcases h with hclosed | htold | ⟨hmem, hphase⟩
  · exact .inl (closed_without hclosed gone)
  · exact .inr (.inl htold)
  · refine .inr (.inr ⟨?_, ?_⟩)
    · simp [viewers_without, hmem, hgone]
    · rwa [phase_without]

theorem subset_tell (s : LiveCamStreams) (k : ℕ) (viewers : List ℕ) (notices : ℕ → List Notice) :
    s.notices ⊆ (s.tell k viewers notices).notices := List.subset_append_left ..

theorem told_tell (error : Option ConnectCode) {viewers : List ℕ} {notices : ℕ → List Notice}
    {viewer : ℕ} (hmem : viewer ∈ viewers) (herror : .error error ∈ notices viewer) :
    Told (s.tell k viewers notices) k viewer :=
  ⟨error, List.mem_append_right _
    (List.mem_flatMap.mpr ⟨viewer, hmem, List.mem_map.mpr ⟨_, herror, rfl⟩⟩)⟩

theorem Turn.notices {s' : LiveCamStreams} (ht : Turn s k c s') : s.notices ⊆ s'.notices := by
  cases ht with
  | idle | start | elapsed | settle | cleaned => exact List.Subset.refl _
  | deliver | move | tell => exact List.subset_append_left ..

/-- Every piece of code keeps its promise to the viewers. -/
theorem Turn.served {s' : LiveCamStreams} (ht : Turn s k c s') (hc : s.streams[k]? = some c)
    (hs : Sound c) {j viewer : ℕ} (h : Served s j viewer) : Served s' j viewer := by
  have hnotices := ht.notices
  cases ht with
  | idle => exact h
  | start hphase =>
      exact served_modify hc rfl hnotices (fun _ hk => hk.resume hs (by simp [hphase])) h
  | elapsed hphase =>
      exact served_modify hc rfl hnotices (fun _ hk => hk.resume hs (by simp [hphase])) h
  | deliver hphase frame broken =>
      refine served_modify hc rfl hnotices (fun _ hk => ?_) h
      have hreturning : Kept (s.deliver k c frame broken) k (c.without broken) viewer := by
        cases hbroken : broken viewer with
        | false => exact (hk.mono hnotices).without hbroken
        | true =>
            rcases hk with hclosed | htold | ⟨hmem, -⟩
            · exact .inl (closed_without hclosed broken)
            · exact Kept.mono hnotices (.inr (.inl htold))
            · exact .inr (.inl (told_tell none hmem (by simp [hbroken])))
      dsimp only
      split
      · exact hreturning.phase (by nofun) (by nofun)
      · exact hreturning
  | move phase hlive hphase notices =>
      refine served_modify hc rfl hnotices (fun _ hk => ?_) h
      refine (hk.mono hnotices).phase ?_ ?_
      · rintro rfl
        exact hphase
      · rintro rfl
        exact hphase
  | settle hlive haborted =>
      exact served_modify hc rfl hnotices (fun _ hk => hk.settle hs hlive.2.2 haborted) h
  | tell hlive code =>
      refine served_modify hc rfl hnotices (fun _ hk => ?_) h
      rcases hk with hclosed | htold | ⟨hmem, -⟩
      · exact .inl hclosed
      · exact Kept.mono hnotices (.inr (.inl htold))
      · exact .inr (.inl (told_tell (some code) hmem (List.mem_singleton_self _)))
  | cleaned hphase => exact served_modify hc rfl hnotices (fun _ hk => hk.cleaned hphase) h

/-! ### Runs -/

structure Inv (s : LiveCamStreams) : Prop where
  ordered : (chain s).Ordered
  sound : ∀ c ∈ s.streams, Sound c
  served : ∀ sub ∈ s.subscriptions, sub.left = false → sub.joined ≠ .settled →
    Served s sub.stream sub.viewer

theorem Inv.chained {s' : LiveCamStreams} (h : Inv s)
    (hs : chain s' = chain s ∨ (chain s).Step (chain s')) : (chain s').Ordered := by
  rcases hs with heq | hstep
  · rw [heq]
    exact h.ordered
  · exact h.ordered.step hstep

theorem Inv.piece (h : Inv s) (hc : s.streams[k]? = some c) (i : CamInput) : Inv (s.piece k c i) := by
  have hs := h.sound c (List.mem_of_getElem? hc)
  have hturn := piece_turn s k c i hs.returning
  have hsubs : (s.piece k c i).subscriptions = s.subscriptions := by
    generalize s.piece k c i = s' at hturn
    cases hturn <;> rfl
  refine ⟨h.chained (hturn.chain hc), hturn.sound hc h.sound, fun sub hsub hleft hjoined => ?_⟩
  rw [hsubs] at hsub
  exact hturn.served hc hs (h.served sub hsub hleft hjoined)

theorem Inv.unsubscribe (h : Inv s) (n : ℕ) : Inv (s.unsubscribe n) := by
  refine ⟨h.chained (.inl (unsubscribe_chain s n)), ?_, ?_⟩
  all_goals unfold LiveCamStreams.unsubscribe
  · split
    · rename_i sub _
      dsimp only [modify]
      cases hc : s.streams[sub.stream]? with
      | some c => exact sound_modify hc (fun hs => hs.without _) h.sound
      | none =>
          rw [List.modify_eq_self (by simpa using hc)]
          exact h.sound
    · exact h.sound
  · split
    · rename_i sub _
      intro other' hother' hleft hjoined
      obtain ⟨other, hother, rfl⟩ := List.mem_map.mp hother'
      split at hleft
      · cases hleft
      · rename_i hdifferent
        rw [if_neg hdifferent] at hjoined ⊢
        have hserved := h.served other hother hleft hjoined
        cases hc : s.streams[sub.stream]? with
        | some c =>
            refine served_modify hc rfl (List.Subset.refl _) (fun hstream hk => ?_) hserved
            refine hk.without ?_
            have hviewer : other.viewer ≠ sub.viewer := fun heq => hdifferent ⟨hstream, heq⟩
            simpa using hviewer
        | none =>
            obtain ⟨c, hc', hk⟩ := hserved
            refine ⟨c, ?_, hk⟩
            dsimp only [modify]
            rwa [List.modify_eq_self (by simpa using hc)]
    · exact h.served

theorem Inv.close (h : Inv s) : Inv s.close := by
  have hclosed {j : ℕ} {c : CamStream} (hc : s.streams[j]? = some c) : s.close.streams[j]? =
      some (if s.current c.account = some j then c.abortWith .closed else c) := by
    simp [LiveCamStreams.close, hc]
  refine ⟨h.chained (.inl (close_chain s)), fun c' hc' => ?_, fun sub hsub hleft hjoined => ?_⟩
  · obtain ⟨j, hj⟩ := List.mem_iff_getElem?.mp hc'
    have hlt : j < s.streams.length := by
      have := (List.getElem?_eq_some_iff.mp hj).1
      simpa [LiveCamStreams.close] using this
    rw [hclosed (List.getElem?_eq_getElem hlt)] at hj
    obtain rfl := Option.some.inj hj
    have hs := h.sound _ (List.getElem_mem hlt)
    split
    · exact hs.close
    · exact hs
  · obtain ⟨c, hc, hk⟩ := h.served sub hsub hleft hjoined
    refine ⟨_, hclosed hc, ?_⟩
    split
    · rcases hk with habort | htold | hmem
      · exact .inl (by simp [CamStream.abortWith, habort])
      · exact .inr (.inl htold)
      · exact .inr (.inr hmem)
    · exact hk

/-- The stream that a new viewer joins goes on; the others stay as they are. -/
theorem enter_spec (h : ∀ c ∈ s.streams, Sound c) (account : String) :
    ∃ c : CamStream, (s.enter account).1.streams[(s.enter account).2]? = some c ∧
      c.aborted = false ∧ c.phase ≠ .returning ∧ c.phase ≠ .ended ∧
      (∀ (j : ℕ) (c : CamStream), s.streams[j]? = some c → (s.enter account).1.streams[j]? = some c) ∧
      ∀ (j : ℕ) (c : CamStream), (s.enter account).1.streams[j]? = some c →
        j = (s.enter account).2 ∨ s.streams[j]? = some c := by
  unfold enter
  split
  · rename_i k hk
    obtain ⟨c, hc, hopen⟩ := (Option.any_eq_true _ _).mp (Option.filter_eq_some_iff.mp hk).2
    have hs := h c (List.mem_of_getElem? hc)
    have hopen : c.aborted = false := by simpa using hopen
    refine ⟨c, hc, hopen, fun hphase => ?_, fun hphase => ?_, fun _ _ h => h, fun _ _ h => .inr h⟩
    · simp [hs.returning hphase] at hopen
    · simp [hs.ended hphase] at hopen
  · refine ⟨{ account := account, previous := s.current account }, by simp, rfl, nofun, nofun, ?_, ?_⟩
    · intro j c hc
      have hlt := (List.getElem?_eq_some_iff.mp hc).1
      rw [List.getElem?_append_left hlt, hc]
    · intro j c hc
      by_cases hj : j = s.streams.length
      · exact .inl hj
      · have hlt := (List.getElem?_eq_some_iff.mp hc).1
        rw [List.length_append, List.length_singleton] at hlt
        rw [List.getElem?_append_left (by omega)] at hc
        exact .inr hc

theorem enter_subscriptions (s : LiveCamStreams) (account : String) :
    (s.enter account).1.subscriptions = s.subscriptions ∧
      (s.enter account).1.notices = s.notices := by
  unfold enter
  split <;> exact ⟨rfl, rfl⟩

theorem subscribe_subscriptions {account : String} {viewer : ℕ}
    (hc : (s.enter account).1.streams[(s.enter account).2]? = some c) :
    (s.subscribe account viewer).subscriptions = s.subscriptions ++
      [{ stream := (s.enter account).2, viewer := viewer, joined := c.phase }] := by
  rw [← (enter_subscriptions s account).1]
  simp only [LiveCamStreams.subscribe, hc, Option.map_some, Option.getD_some]

theorem Inv.subscribe (h : Inv s) (account : String) (viewer : ℕ) :
    Inv (s.subscribe account viewer) := by
  obtain ⟨c, hc, hopen, hreturning, hended, hold, hnew⟩ := enter_spec h.sound account
  have hnotices := (enter_subscriptions s account).2
  refine ⟨?_, ?_, ?_⟩
  · rw [subscribe_chain]
    exact h.chained (enter_chain s account)
  · intro c' hc'
    obtain ⟨j, hj⟩ := List.mem_iff_getElem?.mp hc'
    change ((s.enter account).1.streams.modify (s.enter account).2 (·.join viewer))[j]? = some c' at hj
    rw [List.getElem?_modify] at hj
    obtain ⟨c₀, hc₀, rfl⟩ := Option.map_eq_some_iff.mp hj
    split
    · rename_i heq
      rw [← heq, hc] at hc₀
      obtain rfl := Option.some.inj hc₀
      exact sound_join hopen hreturning hended viewer
    · rename_i hne
      rcases hnew j c₀ hc₀ with heq | hc₀
      · exact absurd heq.symm hne
      · exact h.sound c₀ (List.mem_of_getElem? hc₀)
  · intro sub hsub hleft hjoined
    rw [subscribe_subscriptions hc] at hsub
    rcases List.mem_append.mp hsub with hsub | hsub
    · have hserved : Served (s.enter account).1 sub.stream sub.viewer := by
        obtain ⟨c₀, hc₀, hk⟩ := h.served sub hsub hleft hjoined
        exact ⟨c₀, hold _ _ hc₀, hk.mono (hnotices ▸ List.Subset.refl _)⟩
      refine served_modify hc rfl (List.Subset.refl _) (fun _ hk => ?_) hserved
      refine hk.imp_right (.imp_right fun ⟨hmem, hphase⟩ => ⟨?_, hphase⟩)
      change _ ∈ if viewer ∈ c.viewers then c.viewers else c.viewers ++ [viewer]
      split
      · exact hmem
      · exact List.mem_append_left _ hmem
    · obtain rfl := List.mem_singleton.mp hsub
      refine ⟨c.join viewer, ?_, .inr (.inr ⟨?_, hjoined, hended⟩)⟩
      · change ((s.enter account).1.streams.modify (s.enter account).2 (·.join viewer))[_]? = _
        simp [hc]
      · change viewer ∈ if viewer ∈ c.viewers then c.viewers else c.viewers ++ [viewer]
        split
        · assumption
        · simp

theorem Inv.step (h : Inv s) (i : CamInput) : Inv (s.step i) := by
  cases i with
  | subscribe account viewer => exact h.subscribe account viewer
  | unsubscribe n => exact h.unsubscribe n
  | close => exact h.close
  | _ =>
      simp only [LiveCamStreams.step, CamInput.stream]
      split
      · rename_i hc
        exact h.piece hc _
      · exact h

theorem inv_init : Inv {} := ⟨Chain.ordered_empty, by simp, by simp⟩

/-- An account has one open source at most. -/
def Exclusive (s : LiveCamStreams) : Prop :=
  ∀ (i j : ℕ) (a b : CamStream), s.streams[i]? = some a → s.streams[j]? = some b →
    a.account = b.account → a.isOpen → b.isOpen → i = j

/-- A stream whose viewers have all left is aborted. -/
def Thrifty (s : LiveCamStreams) : Prop := ∀ c ∈ s.streams, c.viewers = [] → c.aborted = true

/-- A viewer who has not left is attached to a stream that goes on, or was given an error. -/
def Attended (s : LiveCamStreams) (sub : Subscription) : Prop :=
  sub.left = false → Told s sub.stream sub.viewer ∨ ∃ c, s.streams[sub.stream]? = some c ∧
    sub.viewer ∈ c.viewers ∧ c.phase ≠ .settled ∧ c.phase ≠ .ended

/-- The stream was closed with all others. -/
def Closed (s : LiveCamStreams) (k : ℕ) : Prop :=
  ∃ c, s.streams[k]? = some c ∧ c.abort = some .closed

theorem Inv.exclusive (h : Inv s) : Exclusive s := by
  have hrunning {c : CamStream} (hopen : c.isOpen) : stage c.phase = .running := by
    simp only [CamStream.isOpen, Bool.or_eq_true, decide_eq_true_eq] at hopen
    rcases hopen with hphase | hphase
    all_goals rw [hphase]; rfl
  intro i j a b ha hb haccount hi hj
  exact h.ordered.exclusive (chain_links ha) (chain_links hb) haccount (hrunning hi) (hrunning hj)

/-- In every run, at every moment: an account has one open source at most, a stream without
viewers is aborted, and each viewer is attended, except on streams that `close` aborted and
for viewers who came when the others had already been told of the end. -/
theorem shared_streams (inputs : List CamInput) :
    Along step (fun s => Exclusive s ∧ Thrifty s ∧
      ∀ sub ∈ s.subscriptions, sub.joined ≠ .settled → Closed s sub.stream ∨ Attended s sub)
      {} inputs := by
  have hinv : Along step Inv {} inputs := along_of_invariant (fun _ i h => h.step i) inv_init inputs
  refine hinv.mono fun s h => ⟨h.exclusive, fun c hc => (h.sound c hc).empty, fun sub hsub hjoined => ?_⟩
  cases hleft : sub.left with
  | true => exact .inr fun hstays => by simp [hleft] at hstays
  | false =>
      obtain ⟨c, hc, hclosed | htold | hkept⟩ := h.served sub hsub hleft hjoined
      · exact .inl ⟨c, hc, hclosed⟩
      · exact .inr fun _ => .inl htold
      · exact .inr fun _ => .inr ⟨c, hc, hkept⟩

def closing : List CamInput := [.subscribe "java" 1, .start 0, .close, .sourceEnded 0, .cleaned 0]

/-- `close` ends a stream without telling its viewer. -/
theorem closed_untold :
    ¬ ∀ inputs, Along step (fun s => Exclusive s ∧ Thrifty s ∧ ∀ sub ∈ s.subscriptions, Attended s sub)
      {} inputs := by
  intro h
  have hnotices : (run step {} closing).notices = [] := by decide
  have hstream : (run step {} closing).streams[0]? =
      some ⟨"java", none, [1], some .closed, .ended⟩ := by decide
  have hattended := (h closing).last.2.2 ⟨0, 1, .waiting, false⟩ (by decide) rfl
  rcases hattended with ⟨error, htold⟩ | ⟨c, hc, -, -, hended⟩
  · simp [hnotices] at htold
  · obtain rfl := Option.some.inj (hstream.symm.trans hc)
    exact hended rfl

end AfkClient.LiveCamStreams
