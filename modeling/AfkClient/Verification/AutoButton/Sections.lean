import AfkClient.Verification.AutoButton.Decoder

/-! The sections that chunk packets store. A chunk is decoded section by section before any of
them is stored, an answer for one section on its own. -/

namespace AfkClient.AutoButton

variable {s : BedrockAutoButton} {view : Option Position} {packet : LevelChunk}

/-! ### Whole chunks -/

/-- The sections of a chunk and where they go, from number `i` on. -/
def placed (s : BedrockAutoButton) (packet : LevelChunk) (i : ℕ) (sections : List Section) :
    List (Vec × List UInt32) :=
  sections.mapIdx fun j part => (s.place packet (i + j) part.version.y, part.first.ids)

theorem placed_cons (part : Section) (sections : List Section) (i : ℕ) :
    placed s packet i (part :: sections) =
      (s.place packet i part.version.y, part.first.ids) :: placed s packet (i + 1) sections := by
  simp only [placed, List.mapIdx_cons, Nat.add_zero, Nat.add_assoc, Nat.add_comm 1]

theorem decodeSections_encoded {payload tail : List UInt8} {sections : List Section} {offset : ℕ}
    (h : payload.drop offset = sections.flatMap Section.bytes ++ tail) (i : ℕ) :
    s.decodeSections view packet payload sections.length i offset =
      .ok ((placed s packet i sections).filter fun (p, _) => nearby view p) := by
  induction sections generalizing offset i with
  | nil => rfl
  | cons part sections ih =>
      rw [List.flatMap_cons, List.append_assoc] at h
      rw [List.length_cons, BedrockAutoButton.decodeSections, h, readSubchunk_bytes]
      simp only [ih (Reader.drop_next h), placed_cons, List.filter_cons, Except.map]

/-- What was stored last at a place stays there. -/
theorem foldl_store_sections (decoded : List (Vec × List UInt32)) (s : BedrockAutoButton)
    (p : Vec) :
    (decoded.foldl BedrockAutoButton.store s).sections p =
      ((decoded.reverse.find? fun d => d.1 = p).map Prod.snd).or (s.sections p) := by
  induction decoded generalizing s with
  | nil => rfl
  | cons d decoded ih =>
      rw [List.foldl_cons, ih, List.reverse_cons, List.find?_append]
      cases decoded.reverse.find? fun d => d.1 = p with
      | some found => rfl
      | none =>
          by_cases hp : d.1 = p
          · subst hp
            simp [BedrockAutoButton.store]
          · simp [BedrockAutoButton.store, hp, Function.update_of_ne (Ne.symm hp)]

theorem onLevelChunk_encoded {tail : List UInt8} {sections : List Section}
    (hpayload : packet.payload = some (sections.flatMap Section.bytes ++ tail))
    (hcount : packet.subChunkCount = sections.length) (htakes : s.takes view packet) (p : Vec) :
    (s.onLevelChunk view packet).sections p =
      if nearby view p then
        (((placed s packet 0 sections).reverse.find? fun d => d.1 = p).map Prod.snd).or
          (s.sections p)
      else none := by
  rw [BedrockAutoButton.onLevelChunk, hpayload]
  dsimp only
  rw [if_pos htakes, hcount, Int.toNat_natCast, decodeSections_encoded rfl 0]
  by_cases hp : nearby view p
  · simp only [BedrockAutoButton.forget, hp, if_true, foldl_store_sections]
    congr 2
    rw [← List.filter_reverse, List.find?_filter]
    congr 1
    funext d
    by_cases hd : d.1 = p
    · simp [hd, hp]
    · simp [hd]
  · simp [BedrockAutoButton.forget, hp]

/-- Section `k` of the payload begins at the offset. -/
inductive Starts (payload : List UInt8) : ℕ → ℕ → Prop
  | first : Starts payload 0 0
  | next {k offset : ℕ} {part : Subchunk} : Starts payload k offset →
      readSubchunk (payload.drop offset) = .ok part →
        Starts payload (k + 1) (offset + part.consumed)

theorem Starts.unique {payload : List UInt8} {k offset offset' : ℕ} (h : Starts payload k offset)
    (h' : Starts payload k offset') : offset = offset' := by
  induction h generalizing offset' with
  | first =>
      cases h'
      rfl
  | next _ hpart ih =>
      cases h' with
      | next h' hpart' =>
          obtain rfl := ih h'
          rw [hpart] at hpart'
          cases hpart'
          rfl

/-- All sections were decoded. -/
theorem decodeSections_ok {payload : List UInt8} {left i offset : ℕ}
    {decoded : List (Vec × List UInt32)}
    (h : s.decodeSections view packet payload left i offset = .ok decoded)
    (hi : Starts payload i offset) {k start : ℕ} (hk : Starts payload k start) (hle : i ≤ k)
    (hlt : k < i + left) : ∃ part, readSubchunk (payload.drop start) = .ok part := by
  induction left generalizing i offset decoded with
  | zero => omega
  | succ left ih =>
      rw [BedrockAutoButton.decodeSections] at h
      cases hpart : readSubchunk (payload.drop offset) with
      | error error => simp [hpart] at h
      | ok part =>
          by_cases heq : i = k
          · subst heq
            obtain rfl := hi.unique hk
            exact ⟨part, hpart⟩
          · simp only [hpart] at h
            cases hrest : s.decodeSections view packet payload left (i + 1)
              (offset + part.consumed) with
            | error error => simp [hrest, Except.map] at h
            | ok rest => exact ih hrest (hi.next hpart) (by omega) (by omega)

theorem onLevelChunk_malformed {payload : List UInt8} (hpayload : packet.payload = some payload)
    {k start : ℕ} (hk : Starts payload k start) (hlt : k < packet.subChunkCount) {error : String}
    (herror : readSubchunk (payload.drop start) = .error error) :
      s.onLevelChunk view packet = s := by
  rw [BedrockAutoButton.onLevelChunk, hpayload]
  dsimp only
  split
  · cases hdecoded : s.decodeSections view packet payload packet.subChunkCount.toNat 0 0 with
    | error _ => rfl
    | ok decoded =>
        obtain ⟨part, hpart⟩ := decodeSections_ok hdecoded .first hk (Nat.zero_le _) (by omega)
        rw [herror] at hpart
        cases hpart
  · rfl

/-! ### Single sections -/

/-- The answer carries blocks that cannot be decoded. -/
def SubchunkEntry.malformed (entry : SubchunkEntry) : Bool :=
  match entry.result, entry.payload with
  | .success, some payload => (decodeMouseSubchunk payload).toOption.isNone
  | _, _ => false

theorem onEntry_malformed {origin : Vec} {entry : SubchunkEntry} (h : entry.malformed) :
    s.onEntry view origin entry = s := by
  obtain ⟨dx, dy, dz, result, payload⟩ := entry
  cases result with
  | success =>
      cases payload with
      | none => cases h
      | some payload =>
          cases hblocks : decodeMouseSubchunk payload with
          | ok blocks => simp [SubchunkEntry.malformed, hblocks, Except.toOption] at h
          | error error =>
              simp only [BedrockAutoButton.onEntry, BedrockAutoButton.entryValues, hblocks]
              split
              · rfl
              · split <;> rename_i hvalues
                · split at hvalues <;> cases hvalues
                · rfl
  | successAllAir => cases h
  | other => cases h

/-- Answers that cannot be decoded count as if they were missing. -/
theorem onSubchunk_malformed (packet : SubchunkPacket) : s.onSubchunk view packet =
    s.onSubchunk view { packet with
      entries := (packet.entries.take 256).filter (! ·.malformed) } := by
  have hfold (origin : Vec) (entries : List SubchunkEntry) (s : BedrockAutoButton) :
      entries.foldl (BedrockAutoButton.onEntry view origin) s =
        (entries.filter (! ·.malformed)).foldl (BedrockAutoButton.onEntry view origin) s := by
    induction entries generalizing s with
    | nil => rfl
    | cons entry entries ih =>
        cases hentry : entry.malformed with
        | true => rw [List.foldl_cons, onEntry_malformed hentry,
            List.filter_cons_of_neg (by simp [hentry]), ih]
        | false => rw [List.foldl_cons, List.filter_cons_of_pos (by simp [hentry]), List.foldl_cons,
            ih]
  have htake : ((packet.entries.take 256).filter (! ·.malformed)).take 256 =
      (packet.entries.take 256).filter (! ·.malformed) :=
    List.take_of_length_le ((List.length_filter_le _ _).trans (List.length_take_le _ _))
  unfold BedrockAutoButton.onSubchunk
  cases packet.origin with
  | none => rfl
  | some origin =>
      dsimp only
      rw [htake, ← hfold]

/-- Encoded sections are decoded exactly and one after the other, and what cannot be decoded
changes nothing. -/
theorem subchunks_decoded :
    (∀ (part : Section) (rest : List UInt8), readSubchunk (part.bytes ++ rest) =
      .ok ⟨part.first.ids, part.bytes.length, part.version.y⟩) ∧
    ∀ (s : BedrockAutoButton) (view : Option Position),
      (∀ (packet : LevelChunk) (sections : List Section) (tail : List UInt8),
        packet.payload = some (sections.flatMap Section.bytes ++ tail) →
        packet.subChunkCount = sections.length → s.takes view packet → ∀ p,
          (s.onLevelChunk view packet).sections p =
            if nearby view p then
              (((placed s packet 0 sections).reverse.find? fun d => d.1 = p).map Prod.snd).or
                (s.sections p)
            else none) ∧
      (∀ (packet : LevelChunk) (payload : List UInt8) (k start : ℕ) (error : String),
        packet.payload = some payload → Starts payload k start → k < packet.subChunkCount →
        readSubchunk (payload.drop start) = .error error → s.onLevelChunk view packet = s) ∧
      ∀ packet : SubchunkPacket, s.onSubchunk view packet =
        s.onSubchunk view { packet with
          entries := (packet.entries.take 256).filter (! ·.malformed) } :=
  ⟨readSubchunk_bytes, fun _ _ =>
    ⟨fun _ _ _ hpayload hcount htakes => onLevelChunk_encoded hpayload hcount htakes,
      fun _ _ _ _ _ hpayload hk hlt herror => onLevelChunk_malformed hpayload hk hlt herror,
      onSubchunk_malformed⟩⟩

/-- A section of one block around the player, and a byte behind it. -/
theorem subchunks_decoded_uniform :
    let layer : Layer := ⟨List.replicate 4096 5, List.length_replicate, .uniform 5 rfl⟩
    let part : Section := ⟨.nine 4, layer, none⟩
    (({} : BedrockAutoButton).onLevelChunk (some ⟨0, 70, 0⟩)
      ⟨false, some (part.bytes ++ [7]), 0, 0, some 0, 1⟩).sections ⟨0, 4, 0⟩ =
        some (List.replicate 4096 5) := by
  intro layer part
  have hstored := (subchunks_decoded.2 {} (some ⟨0, 70, 0⟩)).1
    ⟨false, some (part.bytes ++ [7]), 0, 0, some 0, 1⟩ [part] [7] (by simp) rfl (by decide +kernel)
    ⟨0, 4, 0⟩
  rw [hstored, if_pos (by decide +kernel)]
  rfl

end AfkClient.AutoButton
