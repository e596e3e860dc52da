import AfkClient.Library.Run
import AfkClient.Model.PacketReader
import Mathlib.Data.List.Flatten
import Mathlib.Data.List.Basic

/-! # Order and completeness of the bounded reader -/

namespace AfkClient.PacketReader

open ItemFilter

/-! ### What the log of a connection tells -/

def Entry.injections : Entry → List Raw
  | .inject packets => packets
  | .turn .. => []

def Entry.arrivals : Entry → List Frame
  | .inject _ => []
  | .turn arrived .. => arrived

def Entry.injectedReads : Entry → List Raw
  | .turn _ (.injected _ raw) _ => [raw]
  | _ => []

def Entry.socketReads : Entry → List Frame
  | .turn _ (.socket _ frame) _ => [frame]
  | _ => []

/-- A frame that was read, with the phase of the connection at that point. -/
def Entry.frames : Entry → List (ConnectionProtocol × Raw)
  | .turn _ (.injected state raw) _ => [(state, raw)]
  | .turn _ (.socket state (.ok raw)) _ => [(state, raw)]
  | _ => []

def Entry.packets : Entry → List Raw
  | .turn _ _ processed => processed.map Prod.fst
  | _ => []

/-- One of the packets was kept or could not be decoded. -/
def Entry.applied : Entry → Bool
  | .turn _ _ processed => processed.any (·.2 != some false)
  | _ => false

def isDelimiter (w : Wire) (raw : Raw) : Bool :=
  (w.readVar raw).any (·.1 = w.bundleDelimiterId)

/-- One more frame after some units and a bundle that may be open. Outside the running game, and
outside of bundles, a packet is a unit of its own. -/
def separate (w : Wire) (units : List (List Raw) × Option (List Raw))
    (frame : ConnectionProtocol × Raw) : List (List Raw) × Option (List Raw) :=
  match frame.1 with
  | .login | .configuration => (units.1 ++ [[frame.2]], none)
  | .game =>
      if frame.2 = [] then units
      else
        match units.2, isDelimiter w frame.2 with
        | none, true => (units.1, some [])
        | some packets, true => (units.1 ++ [packets], none)
        | none, false => (units.1 ++ [[frame.2]], none)
        | some packets, false => (units.1, some (packets ++ [frame.2]))

/-- The units that a row of frames closes, and what is left of an open bundle. -/
def units (w : Wire) (frames : List (ConnectionProtocol × Raw)) :
    List (List Raw) × Option (List Raw) :=
  frames.foldl (separate w) ([], none)

/-- Whether a frame carries a packet: the running game has empty frames and delimiters. -/
def carries (w : Wire) : ConnectionProtocol × Raw → Bool
  | (.game, raw) => raw ≠ [] && !isDelimiter w raw
  | (.login, _) | (.configuration, _) => true

/-- Everything that came in was read in order or still waits, and all packets that were read were
processed in order or still wait in a bundle. What was processed are whole units. -/
structure Accounted (w : Wire) (log : List Entry) (c : RawConnection) : Prop where
  injected : log.flatMap Entry.injections =
    log.flatMap Entry.injectedReads ++ c.injectedClientboundPackets
  socket : ∀ queue, c.network = some queue →
    log.flatMap Entry.arrivals = log.flatMap Entry.socketReads ++ queue
  complete : log.flatMap Entry.packets ++ c.pending.getD [] =
    ((log.flatMap Entry.frames).filter (carries w)).map Prod.snd
  processed : log.flatMap Entry.packets = (units w (log.flatMap Entry.frames)).1.flatten
  pending : c.pending = (units w (log.flatMap Entry.frames)).2
  /-- An open bundle is one of the running game. -/
  phase : c.pending.isSome → c.state = .game

/-- An update within its budgets: injected packets come first, and whole units are processed. -/
structure Bounded (w : Wire) (before log : List Entry) (c : RawConnection) : Prop where
  applied : log.countP Entry.applied ≤ maxPacketsPerUpdate
  scanned : log.length ≤ maxScannedPacketsPerUpdate
  ordered : log.Pairwise fun e f => e.socketReads ≠ [] → f.injectedReads = []
  drained : (∃ e ∈ log, e.socketReads ≠ []) → c.injectedClientboundPackets = []
  whole : ∃ closed, (units w ((before ++ log).flatMap Entry.frames)).1 =
      (units w (before.flatMap Entry.frames)).1 ++ closed ∧
    log.flatMap Entry.packets = closed.flatten

/-- Frames were read to the end, and then a budget was used up. -/
def BudgetStop (round : Round) (log : List Entry) : Prop :=
  (∀ e ∈ log, e.frames ≠ []) ∧
    (maxPacketsPerUpdate ≤ log.countP Entry.applied ∨
      maxScannedPacketsPerUpdate ≤ log.length ∨ round.expired log.length = true)

/-! ### One packet -/

/-- What processing a packet leaves alone in a connection. -/
structure SameBuffers (c c' : RawConnection) : Prop where
  network : c'.network = c.network
  injected : c'.injectedClientboundPackets = c.injectedClientboundPackets
  pending : c'.pending = c.pending

theorem SameBuffers.refl (c : RawConnection) : SameBuffers c c := ⟨rfl, rfl, rfl⟩

theorem SameBuffers.trans {a b c : RawConnection} (h : SameBuffers a b) (h' : SameBuffers b c) :
    SameBuffers a c :=
  ⟨h'.network.trans h.network, h'.injected.trans h.injected, h'.pending.trans h.pending⟩

variable {World : Type} {w : Wire} {h : Handlers World}

theorem handled_connection {s : Work World} {c c' : RawConnection} {disconnect : Bool}
    {result : World × Option ConnectionProtocol}
    (hlive : (s.handled c disconnect result).connection = some c') : SameBuffers c c' := by
  obtain ⟨state, -, rfl⟩ := Option.map_eq_some_iff.mp hlive
  exact ⟨rfl, rfl, rfl⟩

theorem processConnected_processed (raw : Raw) (c : RawConnection) (s : Work World) :
    (processConnected w h raw c s).1.processed = s.processed := by
  unfold processConnected
  repeat' split
  all_goals rfl

theorem processConnected_live {raw : Raw} {c c' : RawConnection} {s : Work World}
    (hs : s.connection = some c)
    (hlive : (processConnected w h raw c s).1.connection = some c') : SameBuffers c c' := by
  have hsame (hc : s.connection = some c') : SameBuffers c c' := by
    rw [hs, Option.some.injEq] at hc
    exact hc ▸ SameBuffers.refl c
  unfold processConnected at hlive
  split at hlive
  · exact hsame hlive
  · split at hlive
    · split at hlive
      · exact hsame hlive
      · split at hlive
        · exact hsame hlive
        · simp only at hlive
          split at hlive
          · exact handled_connection hlive
          · exact hsame hlive
    · simp only at hlive
      split at hlive
      · exact hsame hlive
      · exact handled_connection hlive

theorem processSinglePacket_live {raw : Raw} {c' : RawConnection} {s : Work World}
    (hlive : (processSinglePacket w h raw s).1.connection = some c') :
    ∃ c, s.connection = some c ∧ SameBuffers c c' ∧
      (processSinglePacket w h raw s).1.processed =
        s.processed ++ [(raw, (processSinglePacket w h raw s).2)] := by
  unfold processSinglePacket at hlive ⊢
  cases hs : s.connection with
  | none => simp [hs] at hlive
  | some c =>
      simp only [hs] at hlive ⊢
      exact ⟨c, rfl, processConnected_live hs hlive, by rw [processConnected_processed]⟩

/-- The result of a bundle, from what came of its packets. -/
def outcome (applied failed : Bool) (results : List Kept) : Kept :=
  if failed || results.any (· == none) then none
  else some (applied || results.any (· == some true))

theorem outcome_cons (applied failed : Bool) (kept : Kept) (results : List Kept) :
    outcome applied failed (kept :: results) =
      outcome (applied || kept == some true) (failed || kept == none) results := by
  rw [outcome, outcome, List.any_cons, List.any_cons, Bool.or_assoc, Bool.or_assoc]

theorem outcome_single (kept : Kept) : outcome false false [kept] = kept := by
  rcases kept with - | - | - <;> rfl

theorem outcome_eq_dropped (results : List Kept) :
    outcome false false results = some false ↔ ∀ kept ∈ results, kept = some false := by
  simp only [outcome, Bool.false_or]
  split
  · rename_i hfailed
    obtain ⟨kept, hmem, hnone⟩ := List.any_eq_true.mp hfailed
    simp only [reduceCtorEq, false_iff, not_forall]
    exact ⟨kept, hmem, by rintro rfl; simp at hnone⟩
  · rename_i hfailed
    rw [Option.some.injEq, List.any_eq_false]
    refine forall₂_congr fun kept hmem => ?_
    have hok : kept ≠ none := by
      rintro rfl
      exact hfailed (List.any_eq_true.mpr ⟨none, hmem, rfl⟩)
    rcases kept with - | - | - <;> simp at hok ⊢

theorem processBundle_cons (packet : Raw) (packets : List Raw) (applied failed : Bool)
    (s : Work World) :
    processBundle w h (packet :: packets) applied failed s =
      let r := processSinglePacket w h packet s
      processBundle w h packets (applied || r.2 == some true) (failed || r.2 == none) r.1 := by
  rw [processBundle]
  rcases processSinglePacket w h packet s with ⟨s', - | - | -⟩ <;> simp

theorem processBundle_live (packets : List Raw) {applied failed : Bool} {c' : RawConnection}
    {s : Work World}
    (hlive : (processBundle w h packets applied failed s).1.connection = some c') :
    ∃ c processed, s.connection = some c ∧ SameBuffers c c' ∧
      (processBundle w h packets applied failed s).1.processed = s.processed ++ processed ∧
      processed.map Prod.fst = packets ∧
      (processBundle w h packets applied failed s).2 =
        outcome applied failed (processed.map Prod.snd) := by
  induction packets generalizing applied failed s with
  | nil =>
      refine ⟨c', [], hlive, SameBuffers.refl c', ?_, rfl, ?_⟩
      · simp [processBundle]
      · simp [processBundle, outcome]
  | cons packet packets ih =>
      rw [processBundle_cons] at hlive ⊢
      obtain ⟨c₁, processed, hc₁, hsame, hprocessed, hpackets, hresult⟩ := ih hlive
      obtain ⟨c, hc, hsame₁, hlast⟩ := processSinglePacket_live hc₁
      refine ⟨c, (packet, (processSinglePacket w h packet s).2) :: processed, hc,
        hsame₁.trans hsame, ?_, ?_, ?_⟩
      · rw [hprocessed, hlast, List.append_assoc]
        rfl
      · rw [List.map_cons, hpackets]
      · rw [hresult, List.map_cons, outcome_cons]

/-! ### One frame -/

/-- The units that a frame closes, by what it calls for. -/
def IncomingPacketBatch.closed (raw : Raw) : IncomingPacketBatch → List (List Raw)
  | .pending => []
  | .single => [[raw]]
  | .complete packets => [packets]

theorem isDelimiter_of_readVar {raw rest : Raw} {id : UInt32}
    (hread : w.readVar raw = some (id, rest)) :
    isDelimiter w raw = decide (id = w.bundleDelimiterId) := by
  rw [isDelimiter, hread, Option.any_some]

/-- A frame that is collected without an error closes units as `separate` has it. -/
theorem collect_ok {pending pending' : Option (List Raw)} {state : ConnectionProtocol} {raw : Raw}
    {batch : IncomingPacketBatch}
    (hcollect : collect w pending state raw = (pending', .ok batch)) (done : List (List Raw)) :
    separate w (done, pending) (state, raw) = (done ++ batch.closed raw, pending') := by
  unfold collect at hcollect
  cases state with
  | login | configuration =>
      obtain ⟨rfl, hbatch⟩ := Prod.mk.inj hcollect
      cases hbatch
      rfl
  | game =>
      simp only at hcollect
      by_cases hempty : raw = []
      · rw [if_pos hempty] at hcollect
        obtain ⟨rfl, hbatch⟩ := Prod.mk.inj hcollect
        cases hbatch
        simp [separate, hempty, IncomingPacketBatch.closed]
      · rw [if_neg hempty] at hcollect
        split at hcollect
        · simp at hcollect
        · cases hread : w.readVar raw with
          | none =>
              cases pending with
              | some packets => simp [hread] at hcollect
              | none =>
                  simp only [hread, Prod.mk.injEq, Except.ok.injEq] at hcollect
                  obtain ⟨rfl, rfl⟩ := hcollect
                  simp [separate, hempty, isDelimiter, hread, IncomingPacketBatch.closed]
          | some read =>
              obtain ⟨id, rest⟩ := read
              simp only [separate, hempty, isDelimiter_of_readVar hread, if_false]
              simp only [hread] at hcollect
              by_cases hid : id = w.bundleDelimiterId
              · rw [if_pos hid] at hcollect
                split at hcollect
                · simp at hcollect
                · cases pending with
                  | none | some packets =>
                      simp only [Prod.mk.injEq, Except.ok.injEq] at hcollect
                      obtain ⟨rfl, rfl⟩ := hcollect
                      simp [hid, IncomingPacketBatch.closed]
              · rw [if_neg hid] at hcollect
                cases pending with
                | none =>
                    simp only [Prod.mk.injEq, Except.ok.injEq] at hcollect
                    obtain ⟨rfl, rfl⟩ := hcollect
                    simp [hid, IncomingPacketBatch.closed]
                | some packets =>
                    simp only at hcollect
                    split at hcollect
                    · simp at hcollect
                    · split at hcollect
                      · simp at hcollect
                      · simp only [Prod.mk.injEq, Except.ok.injEq] at hcollect
                        obtain ⟨rfl, rfl⟩ := hcollect
                        simp [hid, IncomingPacketBatch.closed]

theorem collect_pending {pending pending' : Option (List Raw)} {state : ConnectionProtocol}
    {raw : Raw} {batch : IncomingPacketBatch}
    (hcollect : collect w pending state raw = (pending', .ok batch)) (hopen : pending'.isSome) :
    batch = .pending ∧ state = .game := by
  unfold collect at hcollect
  repeat' split at hcollect
  all_goals
    simp only [Prod.mk.injEq, Except.ok.injEq, reduceCtorEq, and_false] at hcollect
  all_goals
    obtain ⟨rfl, rfl⟩ := hcollect
    simp_all

/-- No packet of a frame is lost between the units and the bundle. -/
theorem separate_carries (done : List (List Raw)) {pending : Option (List Raw)}
    {frame : ConnectionProtocol × Raw} (hphase : pending.isSome → frame.1 = .game) :
    (separate w (done, pending) frame).1.flatten ++
        (separate w (done, pending) frame).2.getD [] =
      done.flatten ++ pending.getD [] ++ ([frame].filter (carries w)).map Prod.snd := by
  obtain ⟨state, raw⟩ := frame
  cases state with
  | login | configuration =>
      have hnone : pending = none := by simpa using hphase
      simp [separate, List.filter_cons, carries, hnone]
  | game =>
      by_cases hempty : raw = []
      · simp [separate, carries, hempty]
      · cases hdelimiter : isDelimiter w raw <;> cases pending <;>
          simp [separate, carries, hempty, hdelimiter]

theorem processPacket_live {raw : Raw} {c' : RawConnection} {s : Work World}
    (hs : s.processed = [])
    (hlive : (processPacket w h raw s).1.connection = some c') :
    ∃ c closed, s.connection = some c ∧ c'.network = c.network ∧
      c'.injectedClientboundPackets = c.injectedClientboundPackets ∧
      (∀ done, separate w (done, c.pending) (c.state, raw) = (done ++ closed, c'.pending)) ∧
      (processPacket w h raw s).1.processed.map Prod.fst = closed.flatten ∧
      (c'.pending.isSome → c'.state = .game) ∧
      ((processPacket w h raw s).2 = some false ↔
        ∀ x ∈ (processPacket w h raw s).1.processed, x.2 = some false) := by
  unfold processPacket at hlive ⊢
  cases hc : s.connection with
  | none => simp [hc] at hlive
  | some c =>
      cases hcollect : collect w c.pending c.state raw with
      | mk pending result =>
          simp only [hc, hcollect] at hlive ⊢
          cases result with
          | error error => simp at hlive
          | ok batch =>
              have hseparate := collect_ok hcollect
              cases batch with
              | pending =>
                  obtain rfl := Option.some.inj hlive
                  exact ⟨c, [], rfl, rfl, rfl, hseparate, by simp [hs],
                    fun hopen => (collect_pending hcollect hopen).2, by simp [hs]⟩
              | single =>
                  obtain ⟨c₁, hc₁, hsame, hprocessed⟩ := processSinglePacket_live hlive
                  obtain rfl := Option.some.inj hc₁
                  have hnone : c'.pending.isSome → c'.state = .game := by
                    rw [hsame.pending]
                    exact fun hopen => nomatch (collect_pending hcollect hopen).1
                  refine ⟨c, [[raw]], rfl, hsame.network, hsame.injected, ?_, ?_, hnone, ?_⟩
                  · rw [hsame.pending]
                    exact hseparate
                  · rw [hprocessed, hs]
                    rfl
                  · rw [hprocessed, hs, List.nil_append, List.forall_mem_singleton]
              | complete packets =>
                  obtain ⟨c₁, processed, hc₁, hsame, hprocessed, hpackets, hresult⟩ :=
                    processBundle_live packets hlive
                  obtain rfl := Option.some.inj hc₁
                  have hnone : c'.pending.isSome → c'.state = .game := by
                    rw [hsame.pending]
                    exact fun hopen => nomatch (collect_pending hcollect hopen).1
                  refine ⟨c, [packets], rfl, hsame.network, hsame.injected, ?_, ?_, hnone, ?_⟩
                  · rw [hsame.pending]
                    exact hseparate
                  · rw [hprocessed, hs, List.nil_append, hpackets, List.flatten_singleton]
                  · rw [hresult, outcome_eq_dropped, hprocessed, hs, List.nil_append]
                    exact List.forall_mem_map

/-! ### One entry -/

/-- What an entry of the log tells of the connection before and after it. -/
structure Advance (w : Wire) (c : RawConnection) (e : Entry) (c' : RawConnection) : Prop where
  injected : c.injectedClientboundPackets ++ e.injections =
    e.injectedReads ++ c'.injectedClientboundPackets
  socket : ∀ queue', c'.network = some queue' →
    ∃ queue, c.network = some queue ∧ queue ++ e.arrivals = e.socketReads ++ queue'
  units : ∃ closed, (∀ done, e.frames.foldl (separate w) (done, c.pending) =
    (done ++ closed, c'.pending)) ∧ e.packets = closed.flatten
  state : ∀ frame ∈ e.frames, frame.1 = c.state
  phase : (c.pending.isSome → c.state = .game) → c'.pending.isSome → c'.state = .game

theorem Entry.frames_cases (e : Entry) : e.frames = [] ∨ ∃ frame, e.frames = [frame] := by
  rcases e with - | ⟨-, - | - | ⟨-, - | -⟩, -⟩ <;> simp [Entry.frames]

theorem Advance.complete {c c' : RawConnection} {e : Entry} (ha : Advance w c e c')
    (hphase : c.pending.isSome → c.state = .game) :
    e.packets ++ c'.pending.getD [] =
      c.pending.getD [] ++ (e.frames.filter (carries w)).map Prod.snd := by
  obtain ⟨closed, hclosed, hpackets⟩ := ha.units
  have hfold := hclosed []
  rw [hpackets]
  rcases e.frames_cases with hframes | ⟨frame, hframes⟩
  · rw [hframes, List.foldl_nil, List.nil_append, Prod.mk.injEq] at hfold
    simp [hframes, ← hfold.1, hfold.2]
  · have hstate : frame.1 = c.state := ha.state frame (by simp [hframes])
    have hcarries := separate_carries (w := w) [] (hstate ▸ hphase)
    rw [hframes, List.foldl_cons, List.foldl_nil, List.nil_append] at hfold
    rw [hfold] at hcarries
    simpa [hframes] using hcarries

theorem Accounted.advance {log : List Entry} {c c' : RawConnection} {e : Entry}
    (hlog : Accounted w log c) (ha : Advance w c e c') : Accounted w (log ++ [e]) c' := by
  obtain ⟨closed, hclosed, hpackets⟩ := ha.units
  have hunits : units w ((log ++ [e]).flatMap Entry.frames) =
      ((units w (log.flatMap Entry.frames)).1 ++ closed, c'.pending) := by
    rw [units, List.flatMap_append, List.flatMap_singleton, List.foldl_append, ← hclosed,
      hlog.pending]
    rfl
  constructor
  · rw [List.flatMap_append, List.flatMap_append, List.flatMap_singleton, List.flatMap_singleton,
      hlog.injected, List.append_assoc, ha.injected, List.append_assoc]
  · intro queue' hqueue'
    obtain ⟨queue, hqueue, hmoved⟩ := ha.socket queue' hqueue'
    rw [List.flatMap_append, List.flatMap_append, List.flatMap_singleton, List.flatMap_singleton,
      hlog.socket queue hqueue, List.append_assoc, hmoved, List.append_assoc]
  · rw [List.flatMap_append, List.flatMap_append, List.flatMap_singleton, List.flatMap_singleton,
      List.filter_append, List.map_append, ← hlog.complete, List.append_assoc,
      ha.complete hlog.phase, List.append_assoc]
  · rw [hunits, List.flatMap_append, List.flatMap_singleton, hlog.processed, hpackets,
      List.flatten_append]
  · rw [hunits]
  · exact ha.phase hlog.phase

/-- What one read of an update does to a connection that is still there after it. -/
structure Turned (w : Wire) (p q : Pass World) (c : RawConnection) (e : Entry)
    (c' : RawConnection) : Prop where
  log : q.log = p.log ++ [e]
  advance : Advance w { c with injectedClientboundPackets := p.injected } e
    { c' with injectedClientboundPackets := q.injected }
  injections : e.injections = []
  applied : q.applied = p.applied + if e.applied then 1 else 0
  drained : e.socketReads ≠ [] → p.injected = []

theorem process_live {p : Pass World} {arrived : List Frame} {read : Read} {raw : Raw}
    {c c' : RawConnection} (hc : p.connection = some c)
    (hlive : (p.process w h arrived read raw).connection = some c') :
    ∃ processed closed,
      (p.process w h arrived read raw).log = p.log ++ [.turn arrived read processed] ∧
      (p.process w h arrived read raw).injected = p.injected ∧
      (p.process w h arrived read raw).applied =
        p.applied + (if processed.any (·.2 != some false) then 1 else 0) ∧
      c'.network = c.network ∧
      (∀ done, separate w (done, c.pending) (c.state, raw) = (done ++ closed, c'.pending)) ∧
      processed.map Prod.fst = closed.flatten ∧
      (c'.pending.isSome → c'.state = .game) := by
  obtain ⟨c₁, closed, hc₁, hnetwork, -, hclosed, hpackets, hphase, hkept⟩ :=
    processPacket_live (w := w) (h := h) (s := ⟨p.world, p.connection, p.filter, []⟩) rfl hlive
  obtain rfl : c = c₁ := Option.some.inj (hc.symm.trans hc₁)
  refine ⟨(processPacket w h raw ⟨p.world, p.connection, p.filter, []⟩).1.processed, closed, rfl,
    rfl, ?_, hnetwork, hclosed, hpackets, hphase⟩
  simp only [Pass.process]
  split
  · rename_i hdropped
    rw [if_neg, Nat.add_zero]
    simpa using hkept.mp hdropped
  · rename_i hkeep
    rw [if_pos]
    rw [hkept] at hkeep
    simpa using hkeep

/-- What the three kinds of entries that a read leaves have in common. -/
theorem Turned.of_process {p q : Pass World} {arrived : List Frame} {read : Read} {raw : Raw}
    {c c₁ c' : RawConnection} (hlive : (q.process w h arrived read raw).connection = some c')
    (hc : q.connection = some c₁) (hlog : q.log = p.log)
    (happlied : q.applied = p.applied) (hstate : c₁.state = c.state)
    (hpending : c₁.pending = c.pending)
    (hframes : ∀ processed, (Entry.turn arrived read processed).frames = [(c.state, raw)])
    (hinjected : ∀ processed, p.injected =
      (Entry.turn arrived read processed).injectedReads ++ q.injected)
    (hsocket : ∀ processed queue', c₁.network = some queue' →
      ∃ queue, c.network = some queue ∧
        queue ++ arrived = (Entry.turn arrived read processed).socketReads ++ queue')
    (hdrained : ∀ processed, (Entry.turn arrived read processed).socketReads ≠ [] →
      p.injected = []) :
    ∃ e, Turned w p (q.process w h arrived read raw) c e c' ∧ e.frames ≠ [] := by
  obtain ⟨processed, closed, hlog', hinjected', happlied', hnetwork, hclosed, hpackets, hphase⟩ :=
    process_live (w := w) (h := h) hc hlive
  refine ⟨.turn arrived read processed, ⟨?_, ⟨?_, ?_, ?_, ?_, ?_⟩, rfl, ?_, hdrained processed⟩, ?_⟩
  · rw [hlog', hlog]
  · simpa [Entry.injections, hinjected'] using hinjected processed
  · intro queue' hqueue'
    exact hsocket processed queue' (hnetwork ▸ hqueue')
  · refine ⟨closed, fun done => ?_, hpackets⟩
    rw [hframes, List.foldl_cons, List.foldl_nil, ← hstate, ← hpending]
    exact hclosed done
  · simp [hframes]
  · exact fun _ => hphase
  · rw [happlied', happlied, Entry.applied]
  · simp [hframes]

/-- A read goes on exactly after a frame. -/
theorem turn_live {round : Round} {p q : Pass World} {goes : Bool} {c' : RawConnection}
    (hturn : turn w h round p = (q, goes)) (hlive : q.connection = some c') :
    ∃ c, p.connection = some c ∧
      ((goes = false ∧ q = p) ∨
        ∃ e, Turned w p q c e c' ∧ (goes = true ↔ e.frames ≠ [])) := by
  unfold turn at hturn
  cases hc : p.connection with
  | none =>
      simp only [hc, Prod.mk.injEq] at hturn
      rw [← hturn.1, hc] at hlive
      cases hlive
  | some c =>
      refine ⟨c, rfl, ?_⟩
      have hnetwork : (c.arrive (round.arrived p.log.length)).network =
        c.network.map (· ++ round.arrived p.log.length) := rfl
      simp only [hc] at hturn
      cases hp : p.injected with
      | cons raw injected =>
          simp only [hp, Prod.mk.injEq] at hturn
          obtain ⟨rfl, rfl⟩ := hturn
          obtain ⟨e, hturned, hframes⟩ := Turned.of_process (p := p) (c := c) hlive
            rfl rfl rfl rfl rfl (fun _ => rfl) (fun _ => hp) (fun _ queue' hqueue' => by
              rw [hnetwork, Option.map_eq_some_iff] at hqueue'
              obtain ⟨queue, hqueue, rfl⟩ := hqueue'
              exact ⟨queue, hqueue, by simp [hnetwork, hqueue, Entry.socketReads]⟩)
            (fun _ hne => absurd rfl hne)
          exact .inr ⟨e, hturned, by simp [hframes]⟩
      | nil =>
          cases hqueue : c.network with
          | none =>
              have harrive : c.arrive (round.arrived p.log.length) = c := by
                rw [RawConnection.arrive, hqueue, Option.map_none, ← hqueue]
              simp only [hp, harrive, hqueue, Prod.mk.injEq] at hturn
              obtain ⟨rfl, rfl⟩ := hturn
              exact .inl ⟨rfl, by rw [← hc, ← hp]⟩
          | some queue =>
              rw [hqueue, Option.map_some] at hnetwork
              cases hrest : queue ++ round.arrived p.log.length with
              | nil =>
                  simp only [hp, hnetwork, hrest, Prod.mk.injEq] at hturn
                  obtain ⟨rfl, rfl⟩ := hturn
                  obtain rfl := Option.some.inj hlive
                  refine .inr ⟨_, ⟨rfl, ⟨?_, ?_, ?_, ?_, ?_⟩, rfl, ?_, ?_⟩, ?_⟩
                  · simp [Entry.injections, Entry.injectedReads, hp]
                  · intro queue' hqueue'
                    rw [hnetwork, Option.some.injEq] at hqueue'
                    exact ⟨queue, hqueue, by rw [← hqueue']; rfl⟩
                  · exact ⟨[], fun done => by simp [Entry.frames, RawConnection.arrive], rfl⟩
                  · simp [Entry.frames]
                  · exact id
                  · rfl
                  · exact fun _ => hp
                  · simp [Entry.frames]
              | cons frame rest =>
                  cases frame with
                  | ok raw =>
                      simp only [hp, hnetwork, hrest, Prod.mk.injEq] at hturn
                      obtain ⟨rfl, rfl⟩ := hturn
                      obtain ⟨e, hturned, hframes⟩ := Turned.of_process (p := p) (c := c) hlive
                        rfl rfl rfl rfl rfl (fun _ => rfl) (fun _ => hp) (fun _ queue' hqueue' => by
                          obtain rfl := Option.some.inj hqueue'
                          exact ⟨queue, hqueue, hrest⟩)
                        (fun _ _ => hp)
                      exact .inr ⟨e, hturned, by simp [hframes]⟩
                  | error error =>
                      simp only [hp, hnetwork, hrest, Prod.mk.injEq] at hturn
                      obtain ⟨rfl, rfl⟩ := hturn
                      dsimp only at hlive
                      split at hlive
                      · cases hlive
                      · obtain rfl := Option.some.inj hlive
                        refine .inr ⟨_, ⟨rfl, ⟨?_, ?_, ?_, ?_, ?_⟩, rfl, rfl, fun _ => hp⟩, ?_⟩
                        · simp [Entry.injections, Entry.injectedReads, hp]
                        · intro queue' hqueue'
                          obtain rfl := Option.some.inj hqueue'
                          exact ⟨queue, hqueue, hrest⟩
                        · exact ⟨[], fun done => by simp [Entry.frames, RawConnection.arrive], rfl⟩
                        · simp [Entry.frames]
                        · exact id
                        · simp [Entry.frames]

/-! ### One update -/

/-- What holds between the reads of an update that follows what is logged in `before`. -/
structure Going (w : Wire) (before : List Entry) (p : Pass World) (c : RawConnection) : Prop where
  accounted : Accounted w (before ++ p.log) { c with injectedClientboundPackets := p.injected }
  applied : p.applied = p.log.countP Entry.applied
  budget : p.applied ≤ maxPacketsPerUpdate
  ordered : p.log.Pairwise fun e f => e.socketReads ≠ [] → f.injectedReads = []
  drained : (∃ e ∈ p.log, e.socketReads ≠ []) → p.injected = []

theorem Going.turned {before : List Entry} {p q : Pass World} {c c' : RawConnection} {e : Entry}
    (hp : Going w before p c) (hroom : p.applied < maxPacketsPerUpdate)
    (ht : Turned w p q c e c') : Going w before q c' := by
  have hsplit : p.injected = e.injectedReads ++ q.injected := by
    simpa [ht.injections] using ht.advance.injected
  constructor
  · rw [ht.log, ← List.append_assoc]
    exact hp.accounted.advance ht.advance
  · rw [ht.applied, ht.log, List.countP_append, List.countP_singleton, hp.applied]
  · rw [ht.applied]
    split <;> omega
  · rw [ht.log, List.pairwise_append]
    refine ⟨hp.ordered, List.pairwise_singleton _ _, fun e' he' f hf hsocket => ?_⟩
    rw [List.mem_singleton.mp hf]
    rw [hp.drained ⟨e', he', hsocket⟩] at hsplit
    exact (List.append_eq_nil_iff.mp hsplit.symm).1
  · rintro ⟨e', he', hsocket⟩
    have hempty : p.injected = [] := by
      rw [ht.log, List.mem_append, List.mem_singleton] at he'
      rcases he' with he' | rfl
      · exact hp.drained ⟨e', he', hsocket⟩
      · exact ht.drained hsocket
    rw [hempty] at hsplit
    exact (List.append_eq_nil_iff.mp hsplit.symm).2

theorem turn_length {round : Round} {p q : Pass World} (hturn : turn w h round p = (q, true)) :
    q.log.length = p.log.length + 1 := by
  unfold turn at hturn
  split at hturn
  · simp at hturn
  · dsimp only at hturn
    split at hturn <;> simp only [Prod.mk.injEq, Bool.false_eq_true, and_false, and_true] at hturn
    all_goals rw [← hturn, Pass.process, List.length_append, List.length_singleton]

/-- The reads of an update, by the reads that were left to it. -/
theorem readLoop_live {round : Round} (before : List Entry) {c' : RawConnection} (remaining : ℕ)
    {p q : Pass World} {exhausted : Bool}
    (hloop : readLoop w h round remaining p = (q, exhausted)) (hlive : q.connection = some c')
    (hlength : p.log.length + remaining = maxScannedPacketsPerUpdate) :
    ∃ c, p.connection = some c ∧ (Going w before p c → Going w before q c') ∧
      q.log.length ≤ maxScannedPacketsPerUpdate ∧
      ((∀ e ∈ p.log, e.frames ≠ []) → q.filter.serverDisconnectReceived = false →
        (exhausted = true ↔ (∀ e ∈ q.log, e.frames ≠ []) ∧
          (maxPacketsPerUpdate ≤ q.applied ∨ maxScannedPacketsPerUpdate ≤ q.log.length ∨
            round.expired q.log.length = true))) := by
  induction remaining generalizing p with
  | zero =>
      rw [readLoop] at hloop
      split at hloop
      · rename_i hdisconnect
        obtain ⟨rfl, rfl⟩ := Prod.mk.inj hloop
        exact ⟨c', hlive, id, by omega, fun _ hopen => by simp [hdisconnect] at hopen⟩
      · obtain ⟨rfl, rfl⟩ := Prod.mk.inj hloop
        exact ⟨c', hlive, id, by omega, fun hframes _ => by
          simpa using ⟨hframes, .inr (.inl (by omega))⟩⟩
  | succ remaining ih =>
      rw [readLoop] at hloop
      split at hloop
      · rename_i hdisconnect
        obtain ⟨rfl, rfl⟩ := Prod.mk.inj hloop
        exact ⟨c', hlive, id, by omega, fun _ hopen => by simp [hdisconnect] at hopen⟩
      · split at hloop
        · rename_i hbudget
          obtain ⟨rfl, rfl⟩ := Prod.mk.inj hloop
          rw [Bool.or_eq_true, decide_eq_true_eq] at hbudget
          refine ⟨c', hlive, id, by omega, fun hframes _ => ?_⟩
          simpa using ⟨hframes, hbudget.imp_right .inr⟩
        · rename_i hbudget
          rw [Bool.or_eq_true, decide_eq_true_eq, not_or, not_le] at hbudget
          cases hturn : turn w h round p with
          | mk p₁ goes =>
              cases goes with
              | false =>
                  simp only [hturn, Prod.mk.injEq] at hloop
                  obtain ⟨rfl, rfl⟩ := hloop
                  obtain ⟨c, hc, ⟨-, rfl⟩ | ⟨e, hturned, hgoes⟩⟩ := turn_live hturn hlive
                  · obtain rfl := Option.some.inj (hc.symm.trans hlive)
                    refine ⟨c, hc, id, by omega, fun _ _ => ?_⟩
                    simp only [Bool.false_eq_true, false_iff, not_and, not_or]
                    exact fun _ => ⟨by omega, by omega, hbudget.2⟩
                  · refine ⟨c, hc, fun hp => hp.turned hbudget.1 hturned, ?_, fun _ _ => ?_⟩
                    · rw [hturned.log, List.length_append, List.length_singleton]
                      omega
                    · have hstop : e.frames = [] := by simpa using hgoes
                      simp only [Bool.false_eq_true, false_iff, not_and]
                      intro hframes
                      exact absurd hstop (hframes e (by simp [hturned.log]))
              | true =>
                  simp only [hturn] at hloop
                  have hlength₁ := turn_length hturn
                  obtain ⟨c₁, hc₁, hgoing, hscanned, hstop⟩ := ih hloop (by omega)
                  obtain ⟨c, hc, ⟨hfalse, -⟩ | ⟨e, hturned, hgoes⟩⟩ := turn_live hturn hc₁
                  · cases hfalse
                  · refine ⟨c, hc, fun hp => hgoing (hp.turned hbudget.1 hturned), hscanned,
                      fun hframes => hstop fun e' he' => ?_⟩
                    rw [hturned.log, List.mem_append, List.mem_singleton] at he'
                    rcases he' with he' | rfl
                    · exact hframes e' he'
                    · exact hgoes.mp rfl

/-! ### Clients -/

theorem separate_grows (b : List (List Raw) × Option (List Raw))
    (frame : ConnectionProtocol × Raw) : b.1 <+: (separate w b frame).1 := by
  unfold separate
  repeat' split
  all_goals simp

theorem units_grow (frames later : List (ConnectionProtocol × Raw)) :
    (units w frames).1 <+: (units w (frames ++ later)).1 := by
  rw [units, units, List.foldl_append]
  induction later generalizing frames with
  | nil => exact List.prefix_rfl
  | cons frame later ih =>
      have hnext := ih (frames ++ [frame])
      rw [List.foldl_append, List.foldl_cons, List.foldl_nil] at hnext
      exact (separate_grows _ frame).trans hnext

/-- What has been processed between two points are the units closed there. -/
theorem Accounted.whole {before log : List Entry} {c c' : RawConnection}
    (hbefore : Accounted w before c) (hafter : Accounted w (before ++ log) c') :
    ∃ closed, (units w ((before ++ log).flatMap Entry.frames)).1 =
        (units w (before.flatMap Entry.frames)).1 ++ closed ∧
      log.flatMap Entry.packets = closed.flatten := by
  obtain ⟨closed, hclosed⟩ :=
    units_grow (w := w) (before.flatMap Entry.frames) (log.flatMap Entry.frames)
  rw [← List.flatMap_append] at hclosed
  refine ⟨closed, hclosed.symm, ?_⟩
  have hprocessed := hafter.processed
  rw [← hclosed, List.flatMap_append, hbefore.processed, List.flatten_append] at hprocessed
  exact List.append_cancel_left hprocessed

theorem pollWriter_live {round : Round} {filter filter' : Filter} {c c' : RawConnection}
    (hpoll : pollWriter round filter c = (filter', some c')) :
    c' = c ∧ filter'.serverDisconnectReceived = filter.serverDisconnectReceived := by
  unfold pollWriter at hpoll
  split at hpoll
  · obtain ⟨rfl, hc⟩ := Prod.mk.inj hpoll
    split at hc
    · cases hc
    · exact ⟨(Option.some.inj hc).symm, rfl⟩
  · obtain ⟨rfl, hc⟩ := Prod.mk.inj hpoll
    exact ⟨(Option.some.inj hc).symm, rfl⟩

/-- The update of a client that is still connected after it. -/
theorem readClient_live {round : Round} {world : World} {c : Client} {c' : RawConnection}
    (hlive : (readClient w h round world c).2.1.connection = some c') :
    ∃ connection log, c.connection = some connection ∧
      (readClient w h round world c).2.1.log = c.log ++ log ∧
      (Accounted w c.log connection → Accounted w (c.log ++ log) c' ∧ Bounded w c.log log c' ∧
        ((readClient w h round world c).2.2 = true ↔
          (readClient w h round world c).2.1.filter.serverDisconnectReceived = false ∧
            BudgetStop round log)) := by
  unfold readClient at hlive ⊢
  cases hc : c.connection with
  | none => simp [hc] at hlive
  | some connection =>
      simp only [hc] at hlive ⊢
      cases hloop : readLoop w h round maxScannedPacketsPerUpdate
          { world := world
            connection := some { connection with injectedClientboundPackets := [] }
            filter := c.filter
            injected := connection.injectedClientboundPackets } with
      | mk q exhausted =>
          simp only [hloop] at hlive ⊢
          cases hq : q.connection with
          | none => simp [hq] at hlive
          | some connection' =>
              simp only [hq] at hlive ⊢
              cases hpoll : pollWriter round q.filter
                  { connection' with injectedClientboundPackets := q.injected } with
              | mk filter' polled =>
                  simp only [hpoll] at hlive ⊢
                  subst hlive
                  obtain ⟨rfl, hfilter⟩ := pollWriter_live hpoll
                  obtain ⟨c₁, hc₁, hgoing, hscanned, hstop⟩ :=
                    readLoop_live c.log _ hloop hq (by simp)
                  obtain rfl := Option.some.inj hc₁
                  refine ⟨connection, q.log, rfl, rfl, fun hlog => ?_⟩
                  have hgoing := hgoing ⟨by simpa using hlog, rfl, Nat.zero_le _,
                    List.Pairwise.nil, by simp⟩
                  refine ⟨hgoing.accounted, ⟨hgoing.applied ▸ hgoing.budget, hscanned,
                    hgoing.ordered, hgoing.drained, hlog.whole hgoing.accounted⟩, ?_⟩
                  have hstop := hstop (by simp)
                  rw [hgoing.applied, ← hfilter] at hstop
                  rw [Option.isSome_some, Bool.and_true, Bool.and_eq_true, Bool.not_eq_true', and_comm]
                  exact and_congr_right hstop

theorem readClient_disconnected {round : Round} {world : World} {c : Client}
    (hlive : (readClient w h round world c).2.1.connection = none) :
    (readClient w h round world c).2.2 = false := by
  unfold readClient at hlive ⊢
  cases hc : c.connection with
  | none => rfl
  | some connection =>
      simp only [hc] at hlive ⊢
      rw [hlive, Option.isSome_none, Bool.and_false]

theorem readClients_get (rounds : ℕ → Round) (world : World) (clients : List Client) :
    ∃ worlds : ℕ → World,
      (∀ i : ℕ, (readClients w h rounds world clients).2.1[i]? =
        clients[i]?.map fun c => (readClient w h (rounds i) (worlds i) c).2.1) ∧
      ((readClients w h rounds world clients).2.2 = true ↔
        ∃ i c, clients[i]? = some c ∧ (readClient w h (rounds i) (worlds i) c).2.2 = true) := by
  induction clients generalizing rounds world with
  | nil => exact ⟨fun _ => world, by simp [readClients], by simp [readClients]⟩
  | cons c clients ih =>
      obtain ⟨worlds, hget, hresume⟩ :=
        ih (fun n => rounds (n + 1)) (readClient w h (rounds 0) world c).1
      refine ⟨fun i => i.casesOn world worlds, fun i => ?_, ?_⟩
      · cases i with
        | zero => rfl
        | succ i => simpa [readClients] using hget i
      · rw [readClients, Bool.or_eq_true, hresume]
        constructor
        · rintro (hfirst | ⟨i, c', hi, hrest⟩)
          · exact ⟨0, c, rfl, hfirst⟩
          · exact ⟨i + 1, c', hi, hrest⟩
        · rintro ⟨i, c', hi, hrest⟩
          cases i with
          | zero =>
              obtain rfl := Option.some.inj hi
              exact .inl hrest
          | succ i => exact .inr ⟨i, c', hi, hrest⟩

/-! ### Runs -/

def Intact (w : Wire) (app : App World) : Prop :=
  ∀ (i : ℕ) (c : Client) (connection : RawConnection), app.clients[i]? = some c →
    c.connection = some connection → Accounted w c.log connection

theorem intact_start (world : World) (states : List ConnectionProtocol) :
    Intact w (start world states) := by
  intro i c connection hi hc
  rw [start, List.getElem?_map, Option.map_eq_some_iff] at hi
  obtain ⟨state, -, rfl⟩ := hi
  obtain rfl := Option.some.inj hc
  exact ⟨rfl, fun queue hqueue => by rw [← Option.some.inj hqueue]; rfl, rfl, rfl, rfl, nofun⟩

theorem advance_inject (c : RawConnection) (packets : List Raw) :
    Advance w c (.inject packets)
      { c with injectedClientboundPackets := c.injectedClientboundPackets ++ packets } :=
  ⟨rfl, fun queue hqueue => ⟨queue, hqueue, List.append_nil _⟩,
    ⟨[], fun done => by rw [List.append_nil]; rfl, rfl⟩, by simp [Entry.frames], id⟩

theorem intact_inject (i : ℕ) (packets : List Raw) {app : App World} (happ : Intact w app) :
    Intact w (step w h app (.inject i packets)) := by
  intro j c connection hj hc
  rw [step, List.getElem?_modify, Option.map_eq_map, Option.map_eq_some_iff] at hj
  obtain ⟨c₀, hc₀, rfl⟩ := hj
  split at hc
  · unfold Client.inject at hc ⊢
    cases hconnection : c₀.connection with
    | none => simp [hconnection] at hc
    | some connection₀ =>
        simp only [hconnection, Option.some.injEq] at hc ⊢
        subst hc
        simpa [*] using
          (happ j c₀ connection₀ hc₀ hconnection).advance (advance_inject connection₀ packets)
  · simpa [*] using happ j c₀ connection hc₀ hc

/-- The update of a client, within the update of all. -/
theorem update_client (rounds : ℕ → Round) {app : App World} (happ : Intact w app) {i : ℕ}
    {after : Client} {connection : RawConnection}
    (hi : (readPackets w h rounds app).clients[i]? = some after)
    (hlive : after.connection = some connection) :
    ∃ before log, app.clients[i]? = some before ∧ after.log = before.log ++ log ∧
      Accounted w after.log connection ∧ Bounded w before.log log connection := by
  obtain ⟨worlds, hget, -⟩ := readClients_get (w := w) (h := h) rounds app.world app.clients
  rw [readPackets, hget, Option.map_eq_some_iff] at hi
  obtain ⟨before, hbefore, rfl⟩ := hi
  obtain ⟨c, log, hc, hlog, hok⟩ := readClient_live hlive
  obtain ⟨haccounted, hbounded, -⟩ := hok (happ i before c hbefore hc)
  exact ⟨before, log, hbefore, hlog, hlog ▸ haccounted, hbounded⟩

theorem intact_step (app : App World) (event : Event) (happ : Intact w app) :
    Intact w (step w h app event) := by
  cases event with
  | inject i packets => exact intact_inject i packets happ
  | update rounds =>
      intro i after connection hi hlive
      obtain ⟨before, log, -, -, haccounted, -⟩ := update_client rounds happ hi hlive
      exact haccounted

theorem intact_run (world : World) (states : List ConnectionProtocol) (events : List Event) :
    Intact w (run (step w h) (start world states) events) :=
  run_of_invariant intact_step (intact_start world states) events

theorem backlog_iff (rounds : ℕ → Round) {app : App World} (happ : Intact w app) :
    (readPackets w h rounds app).packetReadBacklog = true ↔
      ∃ i before after log, app.clients[i]? = some before ∧
        (readPackets w h rounds app).clients[i]? = some after ∧ after.connection.isSome ∧
        after.filter.serverDisconnectReceived = false ∧ after.log = before.log ++ log ∧
        BudgetStop (rounds i) log := by
  obtain ⟨worlds, hget, hresume⟩ := readClients_get (w := w) (h := h) rounds app.world app.clients
  rw [readPackets]
  simp only [hresume, hget]
  refine exists_congr fun i => exists_congr fun before => ?_
  constructor
  · rintro ⟨hbefore, htrue⟩
    cases hc' : (readClient w h (rounds i) (worlds i) before).2.1.connection with
    | none => simp [readClient_disconnected hc'] at htrue
    | some connection =>
        obtain ⟨c, log, hc, hlog, hok⟩ := readClient_live hc'
        obtain ⟨-, -, hstop⟩ := hok (happ i before c hbefore hc)
        exact ⟨_, log, hbefore, by rw [hbefore]; rfl, by rw [hc']; rfl, (hstop.mp htrue).1, hlog,
          (hstop.mp htrue).2⟩
  · rintro ⟨after, log, hbefore, hafter, hlive, hopen, hlog, hstop⟩
    rw [hbefore, Option.map_some, Option.some.injEq] at hafter
    subst hafter
    obtain ⟨connection, hc'⟩ := Option.isSome_iff_exists.mp hlive
    obtain ⟨c, log', hc, hlog', hok⟩ := readClient_live hc'
    obtain rfl : log' = log := List.append_cancel_left (hlog'.symm.trans hlog)
    exact ⟨hbefore, (hok (happ i before c hbefore hc)).2.2.mpr ⟨hopen, hstop⟩⟩

/-- Nothing a connection receives is lost, processed twice or out of order, whatever the updates
and wherever they stop; each update keeps its budgets and asks for another one exactly if a
budget stopped it. -/
theorem bounded_reader (w : Wire) (h : Handlers World) (world : World)
    (states : List ConnectionProtocol) (events : List Event) (rounds : ℕ → Round) :
    let app := run (step w h) (start world states) events
    let next := readPackets w h rounds app
    (∀ (i : ℕ) (after : Client) (connection : RawConnection), next.clients[i]? = some after →
      after.connection = some connection →
        ∃ before log, app.clients[i]? = some before ∧ after.log = before.log ++ log ∧
          Accounted w after.log connection ∧ Bounded w before.log log connection) ∧
    (next.packetReadBacklog = true ↔
      ∃ i before after log, app.clients[i]? = some before ∧ next.clients[i]? = some after ∧
        after.connection.isSome ∧ after.filter.serverDisconnectReceived = false ∧
        after.log = before.log ++ log ∧ BudgetStop (rounds i) log) :=
  ⟨fun _ _ _ hi hlive => update_client rounds (intact_run world states events) hi hlive,
    backlog_iff rounds (intact_run world states events)⟩

end AfkClient.PacketReader
