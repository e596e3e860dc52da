import AfkClient.Model.AutoButton

/-! The sections that the bot stores, and what its mouse button reads from them: always the latest
of a section's data and the updates received after it. -/

namespace AfkClient.AutoButton

open Reader (bind_ok length_mapM liftM_ok)

/-! ### What is decoded -/

/-- A whole section, or the sign for one of air. -/
def Sized (blocks : List UInt32) : Prop := blocks = [] ∨ blocks.length = 4096

theorem readStorage_length {payload : List UInt8} {offset : ℕ} {r : List UInt32 × ℕ}
    (h : readStorage payload offset = .ok r) : r.1.length = 4096 := by
  rw [readStorage] at h
  obtain ⟨header, next, -, h⟩ := bind_ok h
  dsimp only at h
  split at h
  · cases h
  split at h
  · obtain ⟨id, next, -, h⟩ := bind_ok h
    cases h
    exact List.length_replicate
  obtain ⟨start, next, -, h⟩ := bind_ok h
  split at h
  · cases h
  obtain ⟨_, next, -, h⟩ := bind_ok h
  obtain ⟨count, next, -, h⟩ := bind_ok h
  split at h
  · cases h
  obtain ⟨palette, next, -, h⟩ := bind_ok h
  simpa using length_mapM (liftM_ok h)

theorem readLayers_sized {payload : List UInt8} {left layer offset : ℕ} {blocks : List UInt32}
    {r : List UInt32 × ℕ} (hblocks : Sized blocks)
    (h : readLayers payload left layer blocks offset = .ok r) : Sized r.1 := by
  induction left generalizing layer offset blocks with
  | zero =>
      cases h
      exact hblocks
  | succ left ih =>
      rw [readLayers] at h
      obtain ⟨output, next, houtput, h⟩ := bind_ok h
      refine ih ?_ h
      by_cases hlayer : layer = 0
      · rw [if_pos hlayer]
        exact .inr (readStorage_length houtput)
      · rw [if_neg hlayer]
        exact hblocks

theorem readSubchunk_sized {payload : List UInt8} {part : Subchunk}
    (h : readSubchunk payload = .ok part) : Sized part.blocks := by
  rw [readSubchunk] at h
  cases hsection : readSection payload 0 with
  | error e =>
      rw [hsection] at h
      cases h
  | ok r =>
      rw [hsection] at h
      cases h
      rw [readSection] at hsection
      obtain ⟨version, next, -, hsection⟩ := bind_ok hsection
      split at hsection
      · cases hsection
      obtain ⟨layers, next, -, hsection⟩ := bind_ok hsection
      have hlayers : ∀ (y : Option ℤ) (next : ℕ),
          (if 2 < layers then throw "Invalid storage count"
            else do
              let blocks ← readLayers payload layers.toNat 0 []
              return (blocks, y) : Reader String (List UInt32 × Option ℤ)) next = .ok r →
            Sized r.1.1 := by
        intro y next hlayers
        split at hlayers
        · cases hlayers
        obtain ⟨blocks, next, hblocks, hlayers⟩ := bind_ok hlayers
        cases hlayers
        exact readLayers_sized (.inl rfl) hblocks
      dsimp only at hsection
      split at hsection
      · obtain ⟨y, next, -, hsection⟩ := bind_ok hsection
        exact hlayers y next hsection
      · obtain ⟨y, next, -, hsection⟩ := bind_ok hsection
        exact hlayers y next hsection

theorem decodeMouseSubchunk_sized {payload : List UInt8} {blocks : List UInt32}
    (h : decodeMouseSubchunk payload = .ok blocks) : Sized blocks := by
  rw [decodeMouseSubchunk] at h
  cases hpart : readSubchunk payload with
  | error e =>
      rw [hpart] at h
      cases h
  | ok part =>
      rw [hpart] at h
      cases h
      exact readSubchunk_sized hpart

theorem decodeSections_sized {s : BedrockAutoButton} {view : Option Position} {packet : LevelChunk}
    {payload : List UInt8} {left i offset : ℕ} {decoded : List (Vec × List UInt32)}
    (h : s.decodeSections view packet payload left i offset = .ok decoded) :
    ∀ d ∈ decoded, Sized d.2 := by
  induction left generalizing i offset decoded with
  | zero =>
      cases h
      simp
  | succ left ih =>
      rw [BedrockAutoButton.decodeSections] at h
      cases hpart : readSubchunk (payload.drop offset) with
      | error e => simp [hpart] at h
      | ok part =>
          simp only [hpart] at h
          cases hrest : s.decodeSections view packet payload left (i + 1) (offset + part.consumed) with
          | error e => simp [hrest, Except.map] at h
          | ok rest =>
              simp only [hrest, Except.map] at h
              cases h
              intro d hd
              split at hd
              · rcases List.mem_cons.mp hd with rfl | hd
                · exact readSubchunk_sized hpart
                · exact ih hrest d hd
              · exact ih hrest d hd

/-! ### Positions -/

theorem index_eq (p : Vec) : index p =
    (p.x % 16).toNat * 256 + (p.z % 16).toNat * 16 + (p.y % 16).toNat := by
  have hx : (p.x % 16).toNat < 16 := by omega
  have hy : (p.y % 16).toNat < 2 ^ 4 := by omega
  have hz : (p.z % 16).toNat <<< 4 < 2 ^ 8 := by
    rw [Nat.shiftLeft_eq]
    omega
  have hlow : (p.z % 16).toNat <<< 4 ||| (p.y % 16).toNat = (p.z % 16).toNat * 16 + (p.y % 16).toNat := by
    rw [Nat.shiftLeft_eq, Nat.mul_comm, ← Nat.two_pow_add_eq_or_of_lt hy]
  have hfit : (p.z % 16).toNat * 16 + (p.y % 16).toNat < 2 ^ 8 := by omega
  rw [index, Nat.or_assoc, hlow, Nat.shiftLeft_eq, Nat.mul_comm,
    ← Nat.two_pow_add_eq_or_of_lt hfit]
  omega

theorem index_lt (p : Vec) : index p < 4096 := by
  rw [index_eq]
  omega

/-- Blocks of one section lie at different places of it. -/
theorem index_injective {p q : Vec} (hchunk : chunk p = chunk q) (h : index p = index q) : p = q := by
  rw [index_eq, index_eq] at h
  obtain ⟨px, py, pz⟩ := p
  obtain ⟨qx, qy, qz⟩ := q
  simp only [chunk, Vec.mk.injEq] at hchunk h ⊢
  omega

/-! ### The eager map -/

/-- What is received of a world: the data of a section, or a block. -/
inductive Write
  | data (p : Vec) (blocks : List UInt32)
  | update (p : Vec) (id : UInt32)

/-- The runtime id of every block that is known. -/
abbrev EagerMap := Vec → Option UInt32

/-- Everything is written at once; no blocks at all stand for air. -/
def EagerMap.write (air : UInt32) (m : EagerMap) : Write → EagerMap
  | .data p blocks => fun block =>
      if chunk block = p then some (if blocks = [] then air else blocks.getD (index block) 0)
      else m block
  | .update p id => Function.update m p (some id)

/-- The section that an entry of the answer brings, if it is one that was asked for. -/
def BedrockAutoButton.entryWrites (view : Option Position) (origin : Vec) (s : BedrockAutoButton)
    (entry : SubchunkEntry) : List Write :=
  let p : Vec := ⟨origin.x + entry.dx, origin.y + entry.dy, origin.z + entry.dz⟩
  if ¬ nearby view p ∨ s.pending p = none then []
  else if entry.result = .successAllAir then [.data p []]
  else match s.entryValues entry with
    | .ok (some values) => [.data p values]
    | _ => []

def BedrockAutoButton.entriesWrites (view : Option Position) (origin : Vec) (s : BedrockAutoButton) :
    List SubchunkEntry → List Write
  | [] => []
  | entry :: entries =>
      s.entryWrites view origin entry ++ (s.onEntry view origin entry).entriesWrites view origin entries

/-- What is received with an event, the oldest first. -/
def BedrockAutoButton.writes (s : BedrockAutoButton) : Event → List Write
  | .levelChunk view packet =>
      match packet.payload with
      | none => []
      | some payload =>
          if s.takes view packet then
            match s.decodeSections view packet payload packet.subChunkCount.toNat 0 0 with
            | .error _ => []
            | .ok decoded => decoded.map fun d => .data d.1 d.2
          else []
  | .subchunk view packet =>
      match packet.origin with
      | none => []
      | some origin =>
          if s.mode = .off ∨ ¬ s.registry ∨ packet.cacheEnabled ∨ packet.dimension ≠ s.dimension then []
          else s.entriesWrites view origin (packet.entries.take 256)
  | .updateBlock packet =>
      match packet.position, packet.blockRuntimeId with
      | some position, some id =>
          if packet.layer.getD 0 ≠ 0 then [] else [.update position (UInt32.ofInt id)]
      | _, _ => []
  | _ => []

/-- The bot with the map beside it. -/
structure Observed where
  bot : BedrockAutoButton := {}
  map : EagerMap := fun _ => none

section Registry

variable (registryAir : Bool → UInt32)

/-- The runtime id of air in the world that the bot is in. -/
def worldAir (s : BedrockAutoButton) : UInt32 := registryAir (s.startGameData.getD false)

def Observed.step (o : Observed) (event : Event) : Observed where
  bot := o.bot.step registryAir event
  map :=
    match event with
    | .reset _ | .startGame _ _ => fun _ => none
    | event => (o.bot.writes event).foldl (EagerMap.write (worldAir registryAir o.bot)) o.map

def Observed.run (o : Observed) (events : List Event) : Observed :=
  events.foldl (Observed.step registryAir) o

end Registry

/-! ### The invariant -/

/-- What a stored section says of a block, with an update that waits for the registry. -/
def known (air : UInt32) (update : Option ℤ) (blocks : List UInt32) (block : Vec) : UInt32 :=
  if blocks = [] then (update.map UInt32.ofInt).getD air else blocks.getD (index block) 0

structure Faithful (air : UInt32) (s : BedrockAutoButton) (m : EagerMap) : Prop where
  loaded : s.registry = true → s.air = air ∧ s.airUpdates = .empty
  /-- Updates wait for sections of air only. -/
  parked : ∀ block id, s.airUpdates.get? block = some id →
    ∀ blocks, s.sections (chunk block) = some blocks → blocks = []
  sized : ∀ p blocks, s.sections p = some blocks → Sized blocks
  agrees : ∀ block blocks, s.sections (chunk block) = some blocks →
    m block = some (known air (s.airUpdates.get? block) blocks block)
  small : s.airUpdates.size ≤ 1024

variable {air : UInt32} {s : BedrockAutoButton} {m : EagerMap} {view : Option Position}

theorem Faithful.read_eq (h : Faithful air s m) (hloaded : s.registry = true) {block : Vec}
    (hstored : (s.sections (chunk block)).isSome = true) : s.read block = m block := by
  obtain ⟨blocks, hblocks⟩ := Option.isSome_iff_exists.mp hstored
  obtain ⟨hair, hupdates⟩ := h.loaded hloaded
  rw [h.agrees block blocks hblocks, hupdates, BedrockAutoButton.read, hblocks]
  by_cases hnil : blocks = [] <;> simp [known, hnil, hair]

theorem faithful_cleared {s : BedrockAutoButton} (hsections : ∀ p, s.sections p = none)
    (hupdates : s.airUpdates = .empty) (hloaded : s.registry = true → s.air = air) (m : EagerMap) :
    Faithful air s m where
  loaded h := ⟨hloaded h, hupdates⟩
  parked block id h := by
    rw [hupdates] at h
    cases h
  sized p blocks h := by
    rw [hsections] at h
    cases h
  agrees block blocks h := by
    rw [hsections] at h
    cases h
  small := by
    rw [hupdates]
    exact Nat.zero_le _

/-! ### Data of sections -/

theorem store_updates (d : Vec × List UInt32) (block : Vec) :
    (s.store d).airUpdates.get? block =
      if chunk block = d.1 then none else s.airUpdates.get? block := by
  rw [BedrockAutoButton.store, Dictionary.get?_deleteWhere]
  by_cases hd : chunk block = d.1 <;> cases s.airUpdates.get? block <;> simp [hd, Option.filter]

theorem store_sections (d : Vec × List UInt32) (p : Vec) :
    (s.store d).sections p = if p = d.1 then some d.2 else s.sections p := by
  by_cases hp : p = d.1 <;> simp [BedrockAutoButton.store, Function.update, hp]

theorem Faithful.store (h : Faithful air s m) {d : Vec × List UInt32} (hd : Sized d.2) :
    Faithful air (s.store d) (m.write air (.data d.1 d.2)) where
  loaded hloaded := by
    obtain ⟨hair, hupdates⟩ := h.loaded hloaded
    exact ⟨hair, by rw [BedrockAutoButton.store, hupdates]; rfl⟩
  parked block id hid blocks hblocks := by
    rw [store_updates] at hid
    rw [store_sections] at hblocks
    by_cases hp : chunk block = d.1
    · rw [if_pos hp] at hid
      cases hid
    · rw [if_neg hp] at hid hblocks
      exact h.parked block id hid blocks hblocks
  sized p blocks hblocks := by
    rw [store_sections] at hblocks
    by_cases hp : p = d.1
    · rw [if_pos hp] at hblocks
      cases hblocks
      exact hd
    · rw [if_neg hp] at hblocks
      exact h.sized p blocks hblocks
  agrees block blocks hblocks := by
    rw [store_updates]
    rw [store_sections] at hblocks
    by_cases hp : chunk block = d.1
    · rw [if_pos hp] at hblocks ⊢
      cases hblocks
      simp [EagerMap.write, hp, known]
    · rw [if_neg hp] at hblocks ⊢
      simpa [EagerMap.write, hp] using h.agrees block blocks hblocks
  small := (List.length_filter_le _ _).trans h.small

theorem Faithful.foldl_store {decoded : List (Vec × List UInt32)} (h : Faithful air s m)
    (hsized : ∀ d ∈ decoded, Sized d.2) :
    Faithful air (decoded.foldl BedrockAutoButton.store s)
      ((decoded.map fun d => Write.data d.1 d.2).foldl (EagerMap.write air) m) := by
  induction decoded generalizing s m with
  | nil => exact h
  | cons d decoded ih =>
      exact ih (h.store (hsized d (by simp))) fun d hd => hsized d (by simp [hd])

theorem Faithful.forget (h : Faithful air s m) (view : Option Position) :
    Faithful air (s.forget view) m := by
  have hsub : ∀ p blocks, (s.forget view).sections p = some blocks → s.sections p = some blocks := by
    intro p blocks hp
    simp only [BedrockAutoButton.forget] at hp
    by_cases hnear : nearby view p = true
    · rwa [if_pos hnear] at hp
    · rw [if_neg hnear] at hp
      cases hp
  exact ⟨h.loaded, fun block id hid blocks hblocks => h.parked block id hid blocks (hsub _ _ hblocks),
    fun p blocks hp => h.sized p blocks (hsub _ _ hp),
    fun block blocks hblocks => h.agrees block blocks (hsub _ _ hblocks), h.small⟩

theorem Faithful.onLevelChunk (h : Faithful air s m) (view : Option Position) (packet : LevelChunk) :
    Faithful air (s.onLevelChunk view packet)
      ((s.writes (.levelChunk view packet)).foldl (EagerMap.write air) m) := by
  rw [BedrockAutoButton.onLevelChunk, BedrockAutoButton.writes]
  cases packet.payload with
  | none => exact h
  | some payload =>
      by_cases htakes : s.takes view packet = true
      · simp only [htakes, if_true]
        cases hdecoded : s.decodeSections view packet payload packet.subChunkCount.toNat 0 0 with
        | error _ => exact h
        | ok decoded => exact (h.foldl_store (decodeSections_sized hdecoded)).forget view
      · simp only [htakes]
        exact h

/-- Only the request times change. -/
theorem Faithful.of_fields (h : Faithful air s m) {t : BedrockAutoButton}
    (hregistry : t.registry = s.registry) (hair : t.air = s.air) (hsections : t.sections = s.sections)
    (hupdates : t.airUpdates = s.airUpdates) : Faithful air t m := by
  obtain ⟨hloaded, hparked, hsized, hagrees, hsmall⟩ := h
  rw [← hregistry, ← hair, ← hupdates] at hloaded
  rw [← hsections, ← hupdates] at hparked hagrees
  exact ⟨hloaded, hparked, hsections ▸ hsized, hagrees, hupdates ▸ hsmall⟩

/-- A section of air, written out. -/
theorem write_air (m : EagerMap) (p : Vec) :
    m.write air (.data p (List.replicate 4096 air)) = m.write air (.data p []) := by
  funext block
  have hne : List.replicate 4096 air ≠ [] := by
    rw [← List.length_pos_iff, List.length_replicate]
    decide
  by_cases hp : chunk block = p
  · simp only [EagerMap.write, hp, if_true, if_neg hne]
    rw [List.getD_eq_getElem?_getD, List.getElem?_replicate, if_pos (index_lt block)]
    rfl
  · simp only [EagerMap.write, hp, if_false]

/-- Once the registry is there no update waits, and a new section needs no more than its data. -/
theorem Faithful.fill (h : Faithful air s m) (hloaded : s.registry = true) (p : Vec)
    {values : List UInt32} (hvalues : Sized values) :
    Faithful air
      { s with
        sections := Function.update s.sections p (some values)
        pending := Function.update s.pending p none }
      (m.write air (.data p values)) := by
  have hupdates := (h.loaded hloaded).2
  exact (h.store (d := (p, values)) hvalues).of_fields rfl rfl rfl
    (by rw [BedrockAutoButton.store, hupdates]; rfl)

theorem Faithful.onEntry (h : Faithful air s m) (hloaded : s.registry = true)
    (view : Option Position) (origin : Vec) (entry : SubchunkEntry) :
    Faithful air (s.onEntry view origin entry)
        ((s.entryWrites view origin entry).foldl (EagerMap.write air) m) ∧
      (s.onEntry view origin entry).registry = true := by
  rw [BedrockAutoButton.onEntry, BedrockAutoButton.entryWrites]
  by_cases hskip : ¬ nearby view ⟨origin.x + entry.dx, origin.y + entry.dy, origin.z + entry.dz⟩ = true ∨
      s.pending ⟨origin.x + entry.dx, origin.y + entry.dy, origin.z + entry.dz⟩ = none
  · rw [if_pos hskip, if_pos hskip]
    exact ⟨h, hloaded⟩
  rw [if_neg hskip, if_neg hskip]
  by_cases hair : entry.result = .successAllAir
  · have hvalues : s.entryValues entry = .ok (some (List.replicate 4096 air)) := by
      rw [BedrockAutoButton.entryValues, hair, (h.loaded hloaded).1]
    rw [if_pos hair, hvalues]
    refine ⟨?_, hloaded⟩
    rw [List.foldl_cons, List.foldl_nil, ← write_air]
    exact h.fill hloaded _ (.inr List.length_replicate)
  · rw [if_neg hair]
    cases hvalues : s.entryValues entry with
    | error e => exact ⟨h, hloaded⟩
    | ok values =>
        cases values with
        | none => exact ⟨h, hloaded⟩
        | some values =>
            refine ⟨h.fill hloaded _ ?_, hloaded⟩
            rw [BedrockAutoButton.entryValues] at hvalues
            split at hvalues
            · contradiction
            · rename_i payload _ _
              split at hvalues
              · cases hblocks : decodeMouseSubchunk payload with
                | error e => simp [hblocks, Except.map] at hvalues
                | ok blocks =>
                    rw [hblocks] at hvalues
                    cases hvalues
                    exact decodeMouseSubchunk_sized hblocks
              · cases hvalues
            · cases hvalues

theorem Faithful.onEntries (h : Faithful air s m) (hloaded : s.registry = true)
    (view : Option Position) (origin : Vec) (entries : List SubchunkEntry) :
    Faithful air (entries.foldl (BedrockAutoButton.onEntry view origin) s)
      ((s.entriesWrites view origin entries).foldl (EagerMap.write air) m) := by
  induction entries generalizing s m with
  | nil => exact h
  | cons entry entries ih =>
      rw [List.foldl_cons, BedrockAutoButton.entriesWrites, List.foldl_append]
      obtain ⟨hentry, hloaded⟩ := h.onEntry hloaded view origin entry
      exact ih hentry hloaded

theorem Faithful.onSubchunk (h : Faithful air s m) (view : Option Position) (packet : SubchunkPacket) :
    Faithful air (s.onSubchunk view packet)
      ((s.writes (.subchunk view packet)).foldl (EagerMap.write air) m) := by
  rw [BedrockAutoButton.onSubchunk, BedrockAutoButton.writes]
  cases packet.origin with
  | none => exact h
  | some origin =>
      by_cases hskip : s.mode = .off ∨ ¬ s.registry = true ∨ packet.cacheEnabled = true ∨
          packet.dimension ≠ s.dimension
      · simp only [if_pos hskip]
        exact h
      · simp only [if_neg hskip]
        have hloaded : s.registry = true := by
          by_contra hnot
          exact hskip (.inr (.inl hnot))
        exact h.onEntries hloaded view origin _

/-! ### Updates of blocks -/

/-- A stored section, with its blocks written out. -/
def filled (air : UInt32) (blocks : List UInt32) : List UInt32 :=
  if blocks = [] then List.replicate 4096 air else blocks

theorem length_filled {blocks : List UInt32} (h : Sized blocks) :
    (filled air blocks).length = 4096 := by
  rw [filled]
  by_cases hnil : blocks = []
  · rw [if_pos hnil, List.length_replicate]
  · rw [if_neg hnil]
    exact h.resolve_left hnil

theorem getD_filled (blocks : List UInt32) (block : Vec) :
    (filled air blocks).getD (index block) 0 = known air none blocks block := by
  rw [filled, known]
  by_cases hnil : blocks = []
  · rw [if_pos hnil, if_pos hnil, List.getD_eq_getElem?_getD, List.getElem?_replicate,
      if_pos (index_lt block)]
    rfl
  · rw [if_neg hnil, if_neg hnil]

/-- The section with one block written. -/
theorem known_set {blocks : List UInt32} (hsized : Sized blocks) {position block : Vec}
    (hchunk : chunk block = chunk position) (id : UInt32) (update : Option ℤ) :
    known air update ((filled air blocks).set (index position) id) block =
      if block = position then id else known air none blocks block := by
  have hlen : ((filled air blocks).set (index position) id).length = 4096 := by
    rw [List.length_set, length_filled hsized]
  have hne : (filled air blocks).set (index position) id ≠ [] := by
    rw [← List.length_pos_iff, hlen]
    decide
  rw [known, if_neg hne]
  by_cases hblock : block = position
  · have hlt : index position < (filled air blocks).length := by
      rw [length_filled hsized]
      exact index_lt position
    rw [if_pos hblock, hblock, List.getD_eq_getElem?_getD, List.getElem?_set_self hlt]
    rfl
  · have hindex : index position ≠ index block := fun h =>
      hblock (index_injective hchunk h.symm)
    rw [if_neg hblock, List.getD_eq_getElem?_getD, List.getElem?_set_ne hindex,
      ← List.getD_eq_getElem?_getD, getD_filled]

theorem sized_set {blocks : List UInt32} (hsized : Sized blocks) (i : ℕ) (id : UInt32) :
    Sized ((filled air blocks).set i id) := by
  refine .inr ?_
  rw [List.length_set, length_filled hsized]

/-- The block written into its section. -/
def BedrockAutoButton.put (s : BedrockAutoButton) (air : UInt32) (blocks : List UInt32)
    (position : Vec) (id : UInt32) : BedrockAutoButton :=
  { s with
    sections := Function.update s.sections (chunk position)
      (some ((filled air blocks).set (index position) id)) }

theorem put_sections (blocks : List UInt32) (position : Vec) (id : UInt32) (p : Vec) :
    (s.put air blocks position id).sections p =
      if p = chunk position then some ((filled air blocks).set (index position) id)
      else s.sections p := by
  by_cases hp : p = chunk position <;> simp [BedrockAutoButton.put, Function.update, hp]

/-- A block that is written at once. -/
theorem onUpdateBlock_write {position : Vec} {id : ℤ} {layer : Option ℤ} (hlayer : layer.getD 0 = 0)
    {blocks : List UInt32} (hblocks : s.sections (chunk position) = some blocks)
    (hwrite : ¬ (blocks = [] ∧ ¬ s.registry = true)) (hair : s.registry = true → s.air = air) :
    s.onUpdateBlock ⟨some position, layer, some id⟩ =
      s.put air blocks position (UInt32.ofInt id) := by
  have hfilled : (if blocks = [] then List.replicate 4096 s.air else blocks) = filled air blocks := by
    rw [filled]
    by_cases hnil : blocks = []
    · have hloaded : s.registry = true := by
        by_contra hnot
        exact hwrite ⟨hnil, hnot⟩
      rw [if_pos hnil, if_pos hnil, hair hloaded]
    · rw [if_neg hnil, if_neg hnil]
  simp only [BedrockAutoButton.onUpdateBlock, hlayer, hblocks, ne_eq, not_true_eq_false, if_false,
    if_neg hwrite, hfilled]
  rfl

theorem Faithful.ignore (h : Faithful air s m) {position : Vec}
    (hnone : s.sections (chunk position) = none) (id : UInt32) :
    Faithful air s (m.write air (.update position id)) where
  loaded := h.loaded
  parked := h.parked
  sized := h.sized
  agrees block blocks hblocks := by
    have hne : block ≠ position := by
      rintro rfl
      rw [hnone] at hblocks
      cases hblocks
    simpa [EagerMap.write, hne] using h.agrees block blocks hblocks
  small := h.small

theorem Faithful.park (h : Faithful air s m) (hloaded : ¬ s.registry = true) {position : Vec}
    (hair : s.sections (chunk position) = some []) (id : ℤ)
    (hsmall : (s.airUpdates.set position id).size ≤ 1024) :
    Faithful air { s with airUpdates := s.airUpdates.set position id }
      (m.write air (.update position (UInt32.ofInt id))) where
  loaded hregistry := absurd hregistry hloaded
  parked block id' hid blocks hblocks := by
    rw [Dictionary.get?_set] at hid
    by_cases hblock : block = position
    · subst hblock
      rw [hair] at hblocks
      cases hblocks
      rfl
    · rw [if_neg hblock] at hid
      exact h.parked block id' hid blocks hblocks
  sized := h.sized
  agrees block blocks hblocks := by
    rw [Dictionary.get?_set]
    by_cases hblock : block = position
    · subst hblock
      rw [hair] at hblocks
      cases hblocks
      simp [EagerMap.write, known]
    · simpa [EagerMap.write, hblock] using h.agrees block blocks hblocks
  small := hsmall

/-- No update waits for a section that can be written. -/
theorem Faithful.none_parked (h : Faithful air s m) {block : Vec} {blocks : List UInt32}
    (hblocks : s.sections (chunk block) = some blocks)
    (hwrite : ¬ (blocks = [] ∧ ¬ s.registry = true)) : s.airUpdates.get? block = none := by
  cases hid : s.airUpdates.get? block with
  | none => rfl
  | some id =>
      have hnil := h.parked block id hid blocks hblocks
      have hloaded : s.registry = true := by
        by_contra hnot
        exact hwrite ⟨hnil, hnot⟩
      rw [(h.loaded hloaded).2] at hid
      cases hid

theorem Faithful.put (h : Faithful air s m) {position : Vec} {blocks : List UInt32}
    (hblocks : s.sections (chunk position) = some blocks)
    (hwrite : ¬ (blocks = [] ∧ ¬ s.registry = true)) (id : UInt32) :
    Faithful air (s.put air blocks position id) (m.write air (.update position id)) where
  loaded := h.loaded
  parked block id' hid blocks' hblocks' := by
    rw [put_sections] at hblocks'
    by_cases hchunk : chunk block = chunk position
    · have hnone : (s.put air blocks position id).airUpdates.get? block = none :=
        h.none_parked (hchunk ▸ hblocks) hwrite
      rw [hnone] at hid
      cases hid
    · rw [if_neg hchunk] at hblocks'
      exact h.parked block id' hid blocks' hblocks'
  sized p blocks' hblocks' := by
    rw [put_sections] at hblocks'
    by_cases hp : p = chunk position
    · rw [if_pos hp] at hblocks'
      cases hblocks'
      exact sized_set (h.sized _ _ hblocks) _ _
    · rw [if_neg hp] at hblocks'
      exact h.sized p blocks' hblocks'
  agrees block blocks' hblocks' := by
    rw [put_sections] at hblocks'
    by_cases hchunk : chunk block = chunk position
    · rw [if_pos hchunk] at hblocks'
      cases hblocks'
      have hstored : s.sections (chunk block) = some blocks := hchunk ▸ hblocks
      rw [known_set (h.sized _ _ hblocks) hchunk]
      by_cases hblock : block = position
      · simp [EagerMap.write, hblock]
      · have hold := h.agrees block blocks hstored
        rw [h.none_parked hstored hwrite] at hold
        simpa [EagerMap.write, hblock] using hold
    · rw [if_neg hchunk] at hblocks'
      have hblock : block ≠ position := fun hsame => hchunk (hsame ▸ rfl)
      have hold := h.agrees block blocks' hblocks'
      rw [EagerMap.write, Function.update_of_ne hblock]
      exact hold
  small := h.small

theorem Faithful.onUpdateBlock (h : Faithful air s m) (packet : UpdateBlock) :
    Faithful air (s.onUpdateBlock packet)
      ((s.writes (.updateBlock packet)).foldl (EagerMap.write air) m) := by
  obtain ⟨position, layer, id⟩ := packet
  cases position with
  | none => exact h
  | some position =>
      cases id with
      | none => exact h
      | some id =>
          by_cases hlayer : layer.getD 0 = 0
          · have hwrites : s.writes (.updateBlock ⟨some position, layer, some id⟩) =
                [.update position (UInt32.ofInt id)] := by
              simp [BedrockAutoButton.writes, hlayer]
            rw [hwrites, List.foldl_cons, List.foldl_nil]
            cases hblocks : s.sections (chunk position) with
            | none =>
                have hsame : s.onUpdateBlock ⟨some position, layer, some id⟩ = s := by
                  simp [BedrockAutoButton.onUpdateBlock, hlayer, hblocks]
                rw [hsame]
                exact h.ignore hblocks _
            | some blocks =>
                by_cases hpark : blocks = [] ∧ ¬ s.registry = true
                · obtain ⟨rfl, hloaded⟩ := hpark
                  by_cases hfull : (s.airUpdates.set position id).size > 1024
                  · have hcleared : s.onUpdateBlock ⟨some position, layer, some id⟩ =
                        { s with sections := fun _ => none, airUpdates := .empty } := by
                      simp [BedrockAutoButton.onUpdateBlock, hlayer, hblocks, hloaded, hfull]
                    rw [hcleared]
                    refine faithful_cleared (fun _ => rfl) rfl ?_ _
                    exact fun hregistry => absurd hregistry hloaded
                  · have hparked : s.onUpdateBlock ⟨some position, layer, some id⟩ =
                        { s with airUpdates := s.airUpdates.set position id } := by
                      simp [BedrockAutoButton.onUpdateBlock, hlayer, hblocks, hloaded, hfull]
                    rw [hparked]
                    exact h.park hloaded hblocks id (Nat.not_lt.mp hfull)
                · rw [onUpdateBlock_write hlayer hblocks hpark fun hloaded => (h.loaded hloaded).1]
                  exact h.put hblocks hpark _
          · simp only [BedrockAutoButton.onUpdateBlock, BedrockAutoButton.writes, ne_eq, hlayer,
              not_false_eq_true, if_true]
            exact h

/-! ### The registry -/

/-- The registry is there, and these updates are still to be written. -/
structure Flushing (air : UInt32) (s : BedrockAutoButton) (m : EagerMap) (rest : List (Vec × ℤ)) :
    Prop where
  loaded : s.registry = true ∧ s.air = air
  sized : ∀ p blocks, s.sections p = some blocks → Sized blocks
  agrees : ∀ block blocks, s.sections (chunk block) = some blocks → m block =
    some ((((rest.find? (·.1 = block)).map Prod.snd).map UInt32.ofInt).getD
      (known air none blocks block))

theorem find?_of_fresh {rest : List (Vec × ℤ)} {block : Vec} (h : block ∉ rest.map Prod.fst) :
    rest.find? (·.1 = block) = none := by
  rw [List.find?_eq_none]
  intro update hupdate hsame
  exact h (List.mem_map.mpr ⟨update, hupdate, of_decide_eq_true hsame⟩)

theorem Flushing.step {update : Vec × ℤ} {rest : List (Vec × ℤ)}
    (h : Flushing air s m (update :: rest)) (hfresh : update.1 ∉ rest.map Prod.fst) :
    Flushing air (s.onUpdateBlock { position := some update.1, blockRuntimeId := some update.2 }) m
      rest := by
  obtain ⟨position, id⟩ := update
  have hother : ∀ block, block ≠ position →
      ((position, id) :: rest).find? (·.1 = block) = rest.find? (·.1 = block) := by
    intro block hblock
    rw [List.find?_cons_of_neg]
    simpa using fun hsame => hblock hsame.symm
  cases hblocks : s.sections (chunk position) with
  | none =>
      have hsame : s.onUpdateBlock ⟨some position, none, some id⟩ = s := by
        simp [BedrockAutoButton.onUpdateBlock, hblocks]
      rw [hsame]
      refine ⟨h.loaded, h.sized, fun block blocks hstored => ?_⟩
      have hne : block ≠ position := by
        rintro rfl
        rw [hblocks] at hstored
        cases hstored
      rw [← hother block hne]
      exact h.agrees block blocks hstored
  | some blocks =>
      have hwrite : ¬ (blocks = [] ∧ ¬ s.registry = true) := fun hpark => hpark.2 h.loaded.1
      rw [onUpdateBlock_write rfl hblocks hwrite fun _ => h.loaded.2]
      refine ⟨h.loaded, fun p blocks' hstored => ?_, fun block blocks' hstored => ?_⟩
      · rw [put_sections] at hstored
        by_cases hp : p = chunk position
        · rw [if_pos hp] at hstored
          cases hstored
          exact sized_set (h.sized _ _ hblocks) _ _
        · rw [if_neg hp] at hstored
          exact h.sized p blocks' hstored
      · rw [put_sections] at hstored
        by_cases hchunk : chunk block = chunk position
        · rw [if_pos hchunk] at hstored
          cases hstored
          rw [h.agrees block blocks (hchunk ▸ hblocks), known_set (h.sized _ _ hblocks) hchunk]
          by_cases hblock : block = position
          · subst hblock
            rw [find?_of_fresh hfresh]
            simp
          · rw [hother block hblock, if_neg hblock]
        · rw [if_neg hchunk] at hstored
          have hblock : block ≠ position := fun hsame => hchunk (hsame ▸ rfl)
          rw [← hother block hblock]
          exact h.agrees block blocks' hstored

theorem Flushing.run {updates : List (Vec × ℤ)} (hnodup : (updates.map Prod.fst).Nodup)
    (h : Flushing air s m updates) :
    Flushing air (updates.foldl (fun s update =>
      s.onUpdateBlock { position := some update.1, blockRuntimeId := some update.2 }) s) m [] := by
  induction updates generalizing s with
  | nil => exact h
  | cons update updates ih =>
      rw [List.map_cons, List.nodup_cons] at hnodup
      exact ih hnodup.2 (h.step hnodup.1)

variable {registryAir : Bool → UInt32}

/-- The updates that waited are written before anything is read. -/
theorem Faithful.initializeRegistry (h : Faithful (worldAir registryAir s) s m) :
    Faithful (worldAir registryAir s) (s.initializeRegistry registryAir) m := by
  have hstart : Flushing (worldAir registryAir s)
      { s with registry := true, air := registryAir (s.startGameData.getD false) } m
      s.airUpdates.rows := by
    refine ⟨⟨rfl, rfl⟩, h.sized, fun block blocks hblocks => ?_⟩
    rw [h.agrees block blocks hblocks]
    change _ = some (((s.airUpdates.get? block).map UInt32.ofInt).getD _)
    by_cases hnil : blocks = []
    · simp [known, hnil]
    · have hnone : s.airUpdates.get? block = none := by
        cases hid : s.airUpdates.get? block with
        | none => rfl
        | some id => exact absurd (h.parked block id hid blocks hblocks) hnil
      rw [hnone]
      simp
  obtain ⟨hloaded, hsized, hagrees⟩ := hstart.run s.airUpdates.nodup
  exact ⟨fun _ => ⟨hloaded.2, rfl⟩, (fun _ _ hid => by cases hid), hsized, hagrees, Nat.zero_le _⟩

/-! ### Runs -/

theorem foldl_startGameData {α : Type} {f : BedrockAutoButton → α → BedrockAutoButton}
    (hf : ∀ s a, (f s a).startGameData = s.startGameData) (items : List α) (s : BedrockAutoButton) :
    (items.foldl f s).startGameData = s.startGameData := by
  induction items generalizing s with
  | nil => rfl
  | cons a items ih => rw [List.foldl_cons, ih, hf]

theorem onUpdateBlock_startGameData (s : BedrockAutoButton) (packet : UpdateBlock) :
    (s.onUpdateBlock packet).startGameData = s.startGameData := by
  rw [BedrockAutoButton.onUpdateBlock]
  split
  · split
    · rfl
    · split
      · rfl
      · dsimp only
        split
        · split <;> rfl
        · rfl
  · rfl

theorem initializeRegistry_startGameData (s : BedrockAutoButton) :
    (s.initializeRegistry registryAir).startGameData = s.startGameData :=
  foldl_startGameData (f := fun (s : BedrockAutoButton) (update : Vec × ℤ) =>
      s.onUpdateBlock { position := some update.1, blockRuntimeId := some update.2 })
    (fun s _ => onUpdateBlock_startGameData s _) s.airUpdates.rows _

theorem configure_startGameData (s : BedrockAutoButton) (mode : Mode) :
    (s.configure registryAir mode).startGameData = s.startGameData := by
  rw [BedrockAutoButton.configure]
  split
  · rfl
  · dsimp only
    split
    · rfl
    · split
      · exact initializeRegistry_startGameData _
      · rfl

theorem onLevelChunk_startGameData (s : BedrockAutoButton) (view : Option Position)
    (packet : LevelChunk) : (s.onLevelChunk view packet).startGameData = s.startGameData := by
  rw [BedrockAutoButton.onLevelChunk]
  split
  · rfl
  · split
    · split
      · rfl
      · exact foldl_startGameData (f := BedrockAutoButton.store) (fun _ _ => rfl) _ s
    · rfl

theorem onSubchunk_startGameData (s : BedrockAutoButton) (view : Option Position)
    (packet : SubchunkPacket) : (s.onSubchunk view packet).startGameData = s.startGameData := by
  rw [BedrockAutoButton.onSubchunk]
  split
  · rfl
  · split
    · rfl
    · refine foldl_startGameData (fun s entry => ?_) _ s
      rw [BedrockAutoButton.onEntry]
      split
      · rfl
      · split <;> rfl

theorem foldl_pending {α : Type} {f : BedrockAutoButton → α → BedrockAutoButton}
    (hf : ∀ s a, ∃ pending, f s a = { s with pending }) (items : List α) (s : BedrockAutoButton) :
    ∃ pending, items.foldl f s = { s with pending } := by
  induction items generalizing s with
  | nil => exact ⟨s.pending, rfl⟩
  | cons a items ih =>
      obtain ⟨first, hfirst⟩ := hf s a
      obtain ⟨pending, hrest⟩ := ih (f s a)
      exact ⟨pending, by rw [List.foldl_cons, hrest, hfirst]⟩

/-- A tick forgets what is far away and asks for what is missing. -/
theorem tick_eq (s : BedrockAutoButton) (flushed : Bool) (view : Option Position) (now : ℤ) :
    s.tick flushed view now = s ∨
      ∃ pending, s.tick flushed view now = { s.forget view with pending } := by
  cases view with
  | none => exact .inl rfl
  | some view =>
      rw [BedrockAutoButton.tick]
      split
      · exact .inl rfl
      · right
        rw [BedrockAutoButton.requestSections]
        obtain ⟨pending, hpending⟩ := @foldl_pending Vec (fun s p =>
          if p.y < -4 ∨ p.y > 19 ∨ (s.sections p).isSome ∨ (s.pending p).any (now - · < 2000) then s
          else { s with pending := Function.update s.pending p (some now) })
          (fun s p => by
            split
            · exact ⟨s.pending, rfl⟩
            · exact ⟨_, rfl⟩) (around view.chunk)
          { s.forget (some view) with
            pending := fun p => if nearby (some view) p then (s.forget (some view)).pending p else none }
        exact ⟨pending, hpending⟩

theorem Observed.faithful_step {o : Observed}
    (h : Faithful (worldAir registryAir o.bot) o.bot o.map) (event : Event) :
    Faithful (worldAir registryAir (o.step registryAir event).bot) (o.step registryAir event).bot
      (o.step registryAir event).map := by
  cases event with
  | levelChunk view packet =>
      change Faithful (registryAir (Option.getD (o.bot.onLevelChunk view packet).startGameData _)) _ _
      rw [onLevelChunk_startGameData]
      exact h.onLevelChunk view packet
  | subchunk view packet =>
      change Faithful (registryAir (Option.getD (o.bot.onSubchunk view packet).startGameData _)) _ _
      rw [onSubchunk_startGameData]
      exact h.onSubchunk view packet
  | updateBlock packet =>
      change Faithful (registryAir (Option.getD (o.bot.onUpdateBlock packet).startGameData _)) _ _
      rw [onUpdateBlock_startGameData]
      exact h.onUpdateBlock packet
  | configure mode =>
      change Faithful (registryAir
        (Option.getD (o.bot.configure registryAir mode).startGameData _)) (o.bot.configure _ mode) o.map
      rw [configure_startGameData, BedrockAutoButton.configure]
      split
      · exact h
      · dsimp only
        split
        · exact h.of_fields rfl rfl rfl rfl
        · split
          · exact @Faithful.initializeRegistry { o.bot with mode } o.map registryAir
              (h.of_fields rfl rfl rfl rfl)
          · exact h.of_fields rfl rfl rfl rfl
  | itemRegistry =>
      change Faithful (worldAir registryAir (o.bot.onItemRegistry registryAir))
        (o.bot.onItemRegistry registryAir) o.map
      rw [BedrockAutoButton.onItemRegistry]
      split
      · rw [worldAir, initializeRegistry_startGameData]
        exact h.initializeRegistry
      · exact h
  | tick flushed view now =>
      change Faithful (worldAir registryAir (o.bot.tick flushed view now)) (o.bot.tick flushed view now)
        o.map
      obtain hsame | ⟨pending, hforget⟩ := tick_eq o.bot flushed view now
      · rw [hsame]
        exact h
      · rw [hforget]
        exact (h.forget view).of_fields rfl rfl rfl rfl
  | reset dimension =>
      exact faithful_cleared (s := o.bot.reset dimension) (fun _ => rfl) rfl
        (fun hloaded => (h.loaded hloaded).1) _
  | startGame dimension hashes =>
      change Faithful (worldAir registryAir (o.bot.onStartGame registryAir dimension hashes))
        (o.bot.onStartGame registryAir dimension hashes) fun _ => none
      have hreset : Faithful (registryAir hashes)
          { o.bot.reset (dimension.getD 0) with startGameData := some hashes, registry := false }
          fun _ => none :=
        faithful_cleared (fun _ => rfl) rfl (fun hloaded => by cases hloaded) _
      rw [BedrockAutoButton.onStartGame]
      dsimp only
      split
      · rw [worldAir, initializeRegistry_startGameData]
        exact Faithful.initializeRegistry (s := { o.bot.reset (dimension.getD 0) with
          startGameData := some hashes, registry := false }) hreset
      · exact hreset

theorem Observed.faithful_run {o : Observed}
    (h : Faithful (worldAir registryAir o.bot) o.bot o.map) (events : List Event) :
    Faithful (worldAir registryAir (o.run registryAir events).bot) (o.run registryAir events).bot
      (o.run registryAir events).map := by
  induction events generalizing o with
  | nil => exact h
  | cons event events ih => exact ih (Observed.faithful_step h event)

/-- In every run the mouse button reads of the stored sections what the eager map holds, and at
most 1024 updates wait; one more makes all sections unknown. -/
theorem block_store_eager (registryAir : Bool → UInt32) (events : List Event) :
    ((({} : Observed).run registryAir events).bot.registry = true →
      ∀ block, ((({} : Observed).run registryAir events).bot.sections (chunk block)).isSome = true →
        (({} : Observed).run registryAir events).bot.read block =
          (({} : Observed).run registryAir events).map block) ∧
    (({} : Observed).run registryAir events).bot.airUpdates.size ≤ 1024 ∧
    ∀ position id, (({} : Observed).run registryAir events).bot.registry = false →
      (({} : Observed).run registryAir events).bot.sections (chunk position) = some [] →
      1024 < ((({} : Observed).run registryAir events).bot.airUpdates.set position id).size →
      ∀ p, ((({} : Observed).run registryAir events).bot.onUpdateBlock
        { position := some position, blockRuntimeId := some id }).sections p = none := by
  have h := @Observed.faithful_run registryAir {}
    (faithful_cleared (fun _ => rfl) rfl (fun hloaded => by cases hloaded) _) events
  refine ⟨fun hloaded block hstored => h.read_eq hloaded hstored, h.small, ?_⟩
  intro position id hloaded hair hfull p
  simp [BedrockAutoButton.onUpdateBlock, hair, hloaded, hfull]

end AfkClient.AutoButton
