import AfkClient.Library.Journal
import AfkClient.Library.Varint
import AfkClient.Model.ItemFilter
import Mathlib.Data.Finset.Dedup
import Mathlib.Data.List.Perm.Lattice

/-! Which entities are ignored, over all histories of packets, and what becomes of packets about
them. -/

namespace AfkClient.ItemFilter

variable {ignored : Finset Int32} {id : Int32} {ids : List Int32}

/-! ### Histories -/

/-- What the filter is told: a decoded packet, or that a login or a configuration begins. -/
inductive Event
  | packet (p : ClientboundGamePacket)
  | clear
  deriving DecidableEq

def step (ignored : Finset Int32) : Event → Finset Int32
  | .packet p => (keep ignored p).1
  | .clear => ∅

/-- All entities are gone. -/
def Event.Clears (e : Event) : Prop :=
  e ∈ [.clear, .packet .login, .packet .respawn, .packet .startConfiguration]

/-- The entity is new, removed, or gone with all others. -/
def Event.Ends (id : Int32) (e : Event) : Prop :=
  e.Clears ∨ (∃ kind, e = .packet (.addEntity id kind)) ∨
    ∃ ids, id ∈ ids ∧ e = .packet (.removeEntities ids)

/-- The last time the id was given to an entity, it was a dropped item, and the entity was not
removed since. -/
def Dropped (id : Int32) (history : List Event) : Prop :=
  Journal.Since (· = .packet (.addEntity id .item)) (Event.Ends id) history

theorem mem_retain : id ∈ (retain ignored ids).1 ↔ id ∈ ignored ∧ id ∉ ids := by
  induction ids generalizing ignored with
  | nil => simp [retain]
  | cons i ids ih =>
      rw [retain]
      by_cases hi : i ∈ ignored
      · rw [if_pos hi, ih, Finset.mem_erase, List.mem_cons]
        tauto
      · rw [if_neg hi]
        simp only [ih, List.mem_cons, not_or]
        refine ⟨fun ⟨hid, hids⟩ => ⟨hid, ?_, hids⟩, fun ⟨hid, _, hids⟩ => ⟨hid, hids⟩⟩
        rintro rfl
        exact hi hid

theorem mem_step (e : Event) : id ∈ step ignored e ↔
    e = .packet (.addEntity id .item) ∨ id ∈ ignored ∧ ¬e.Ends id := by
  cases e with
  | clear => simp [step, Event.Ends, Event.Clears]
  | packet p =>
      cases p with
      | addEntity i kind =>
          cases kind with
          | item =>
              simp only [step, keep, Finset.mem_insert, Event.Ends, Event.Clears]
              grind
          | other =>
              simp only [step, keep, Finset.mem_erase, Event.Ends, Event.Clears]
              grind
      | removeEntities ids =>
          simp only [step, keep, mem_retain, Event.Ends, Event.Clears]
          grind
      | _ => simp [step, keep, Event.Ends, Event.Clears]

/-- The ids of dropped items are ignored. -/
theorem ignored_iff (history : List Event) : id ∈ run step ∅ history ↔ Dropped id history :=
  @Journal.run_since _ _ step (id ∈ ·) _ _ _ (fun _ => mem_step) (Finset.notMem_empty id) history

/-! ### Decoded packets -/

/-- The entities that a packet is about. -/
def ClientboundGamePacket.entities : ClientboundGamePacket → List Int32
  | .addEntity id _ | .setEntityData id | .setEntityMotion id | .entityPositionSync id
  | .teleportEntity id | .moveEntityPos id | .moveEntityPosRot id | .moveEntityRot id
  | .entityEvent id => [id]
  | .takeItemEntity itemId => [itemId.toInt32]
  | .removeEntities ids => ids
  | .login | .respawn | .startConfiguration | .other => []

/-- The first occurrence of each ignored id is taken out. -/
theorem retain_kept : (retain ignored ids).2 = ids.diff ignored.toList := by
  induction ids generalizing ignored with
  | nil => rw [retain, List.nil_diff]
  | cons id ids ih =>
      rw [retain]
      by_cases hid : id ∈ ignored
      · have hperm := Finset.toList_insert (Finset.notMem_erase id ignored)
        rw [Finset.insert_erase hid] at hperm
        rw [if_pos hid, ih, hperm.diff_left, List.diff_cons, List.erase_cons_head]
      · rw [if_neg hid, List.cons_diff_of_not_mem (by simpa using hid), ih]

theorem keep_removeEntities : (keep ignored (.removeEntities ids)).2 =
    (.removeEntities (ids.diff ignored.toList), ! (ids.diff ignored.toList).isEmpty) := by
  rw [← retain_kept]
  rfl

/-- A packet that does not go on is about dropped items only. -/
theorem keep_dropped {packet : ClientboundGamePacket} (h : (keep ignored packet).2.2 = false)
    (hid : id ∈ packet.entities) :
    packet = .addEntity id .item ∨ id ∈ ignored ∧ ∀ kind, packet ≠ .addEntity id kind := by
  cases packet with
  | addEntity i kind =>
      cases kind with
      | item =>
          rw [List.mem_singleton.mp hid]
          exact .inl rfl
      | other => cases h
  | removeEntities ids =>
      right
      have hnone : ids.diff ignored.toList = [] := by
        simpa [keep_removeEntities] using h
      refine ⟨?_, nofun⟩
      by_contra hnot
      have hmem : id ∈ ids.diff ignored.toList := List.mem_diff_of_mem hid (by simpa using hnot)
      rw [hnone] at hmem
      cases hmem
  | login => cases h
  | respawn => cases h
  | startConfiguration => cases h
  | other => cases h
  | _ =>
      right
      rw [List.mem_singleton.mp hid]
      exact ⟨by simpa [keep] using h, nofun⟩

/-! ### The shortcut -/

/-- A packet of a type about one entity. -/
def FastItemPacket.packet (kind : FastItemPacket) (entityId : UInt32) : ClientboundGamePacket :=
  match kind with
  | .setEntityData => .setEntityData entityId.toInt32
  | .setEntityMotion => .setEntityMotion entityId.toInt32
  | .moveEntityPos => .moveEntityPos entityId.toInt32
  | .moveEntityPosRot => .moveEntityPosRot entityId.toInt32
  | .moveEntityRot => .moveEntityRot entityId.toInt32
  | .takeItemEntity => .takeItemEntity entityId
  | .entityPositionSync => .entityPositionSync entityId.toInt32
  | .teleportEntity => .teleportEntity entityId.toInt32

/-- Behind the id of a listed type stands the id of the entity. -/
structure Protocol.Pinned (p : Protocol) : Prop where
  entityFirst : ∀ {raw rest : List UInt8} {kind : FastItemPacket} {packet : ClientboundGamePacket},
    p.readVar raw = some (p.id kind, rest) → p.deserialize raw = some packet →
      ∃ entityId more, p.readVar rest = some (entityId, more) ∧ packet = kind.packet entityId

theorem keep_fast {kind : FastItemPacket} {entityId : UInt32} (h : entityId.toInt32 ∈ ignored) :
    keep ignored (kind.packet entityId) = (ignored, kind.packet entityId, false) := by
  cases kind <;> simp [FastItemPacket.packet, keep, h]

/-- What is skipped would be dropped. -/
theorem keep_skipped {p : Protocol} (hp : p.Pinned) {raw : List UInt8}
    {packet : ClientboundGamePacket} (h : skipRaw p ignored raw)
    (hpacket : p.deserialize raw = some packet) :
      keep ignored packet = (ignored, packet, false) := by
  rw [skipRaw] at h
  cases hraw : p.readVar raw with
  | none => simp [hraw] at h
  | some head =>
      obtain ⟨packetId, stream⟩ := head
      simp only [hraw] at h
      split at h
      · cases h
      rename_i hlisted
      obtain ⟨kind, rfl⟩ : ∃ kind, p.id kind = packetId := by
        simp only [Protocol.fastItemPacketIds, List.mem_cons, List.not_mem_nil, not_not] at hlisted
        grind
      obtain ⟨entityId, more, hentity, rfl⟩ := hp.entityFirst hraw hpacket
      simp only [hentity, decide_eq_true_eq] at h
      exact keep_fast h

/-- The filter without the shortcut. -/
def processDecoded (p : Protocol) (ignored : Finset Int32) (state : ConnectionProtocol)
    (raw : List UInt8) : Finset Int32 × Outcome :=
  if raw = [] then (ignored, .dropped)
  else
    match state with
    | .game => if isServerData p raw then (ignored, .dropped) else processGame p ignored raw
    | .login | .configuration => (∅, .phase)

/-- The shortcut hides nothing but packets that cannot be decoded. -/
theorem processSinglePacket_eq {p : Protocol} (hp : p.Pinned) (state : ConnectionProtocol)
    (raw : List UInt8) :
    (processSinglePacket p ignored state raw).1 = (processDecoded p ignored state raw).1 ∧
      ((processSinglePacket p ignored state raw).2 = (processDecoded p ignored state raw).2 ∨
        (processSinglePacket p ignored state raw).2 = .dropped ∧
          (processDecoded p ignored state raw).2 = .failed) := by
  unfold processSinglePacket processDecoded
  by_cases hraw : raw = []
  · simp [hraw]
  cases state with
  | login => simp [hraw]
  | configuration => simp [hraw]
  | game =>
      cases hserver : isServerData p raw with
      | true => simp [hraw]
      | false =>
          cases hskip : skipRaw p ignored raw with
          | false => simp [hraw]
          | true =>
              cases hpacket : p.deserialize raw with
              | none => simp [hraw, processGame, hpacket]
              | some packet => simp [hraw, processGame, hpacket, keep_skipped hp hskip hpacket]

/-- The packets that a run passes on. -/
def passed (process : Finset Int32 → ConnectionProtocol → List UInt8 → Finset Int32 × Outcome) :
    Finset Int32 → List (ConnectionProtocol × List UInt8) → List ClientboundGamePacket
  | _, [] => []
  | ignored, (state, raw) :: inputs =>
      let (ignored, outcome) := process ignored state raw
      (match outcome with
        | .processed packet => [packet]
        | _ => []) ++ passed process ignored inputs

/-- With and without the shortcut, the same packets are passed on. -/
theorem passed_eq {p : Protocol} (hp : p.Pinned) (inputs : List (ConnectionProtocol × List UInt8)) :
    passed (processSinglePacket p) ignored inputs = passed (processDecoded p) ignored inputs := by
  induction inputs generalizing ignored with
  | nil => rfl
  | cons input inputs ih =>
      obtain ⟨state, raw⟩ := input
      obtain ⟨hignored, houtcome | ⟨hdropped, hfailed⟩⟩ :=
        @processSinglePacket_eq ignored p hp state raw
      · simp only [passed, hignored, houtcome, ih]
      · simp only [passed, hignored, hdropped, hfailed, ih]

/-! ### All histories -/

/-- A protocol in which every listed packet is its id and the id of its entity. -/
def plainProtocol : Protocol where
  id
    | .setEntityData => 0x63
    | .setEntityMotion => 0x65
    | .moveEntityPos => 0x35
    | .moveEntityPosRot => 0x36
    | .moveEntityRot => 0x38
    | .takeItemEntity => 0x7c
    | .entityPositionSync => 0x23
    | .teleportEntity => 0x7d
  serverDataId := 0x5a
  readVar raw := ((Varint.read 32 raw).toOption).map fun (n, rest) => (UInt32.ofNat n, rest)
  deserialize raw :=
    match ((Varint.read 32 raw).toOption).map fun (n, rest) => (UInt32.ofNat n, rest) with
    | none => none
    | some (packetId, rest) =>
        let entityId := ((Varint.read 32 rest).toOption).map fun (n, _) => UInt32.ofNat n
        if packetId = 0x63 then entityId.map FastItemPacket.setEntityData.packet
        else if packetId = 0x65 then entityId.map FastItemPacket.setEntityMotion.packet
        else if packetId = 0x35 then entityId.map FastItemPacket.moveEntityPos.packet
        else if packetId = 0x36 then entityId.map FastItemPacket.moveEntityPosRot.packet
        else if packetId = 0x38 then entityId.map FastItemPacket.moveEntityRot.packet
        else if packetId = 0x7c then entityId.map FastItemPacket.takeItemEntity.packet
        else if packetId = 0x23 then entityId.map FastItemPacket.entityPositionSync.packet
        else if packetId = 0x7d then entityId.map FastItemPacket.teleportEntity.packet
        else some .other

theorem plainProtocol_pinned : plainProtocol.Pinned where
  entityFirst {raw rest kind packet} hraw hpacket := by
    simp only [plainProtocol] at hraw hpacket ⊢
    rw [hraw] at hpacket
    cases hentity : (Varint.read 32 rest).toOption with
    | none => cases kind <;> simp [hentity] at hpacket
    | some entity =>
        refine ⟨UInt32.ofNat entity.1, entity.2, by simp, ?_⟩
        cases kind <;> simp [hentity] at hpacket <;> exact hpacket.symm

end AfkClient.ItemFilter
