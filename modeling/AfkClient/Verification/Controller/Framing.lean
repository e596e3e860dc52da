import AfkClient.Library.Run
import AfkClient.Model.Controller
import Mathlib.Data.List.TakeWhile

/-! Framing of the controller's messages and the end of its life. The lines are read as they
were written as long as no chunk ends inside a character. -/

namespace AfkClient.Controller

open Text

/-! ### Lines -/

/-- A line that can be framed: blank, or the text of a message. -/
structure Framed (line : List Char) : Prop where
  single : '\n' ∉ line
  message : trim line ≠ [] → ∃ m, Json.parse line = some m ∧ m.isNull = false

/-- What is written to the standard input. -/
def stream (lines : List (List Char)) : List Char := lines.flatMap (· ++ ['\n'])

def message (line : List Char) : Option Json := if trim line = [] then none else Json.parse line

def messages (lines : List (List Char)) : List Json := lines.filterMap message

theorem takeLine_append {line : List Char} (h : '\n' ∉ line) (rest : List Char) :
    takeLine (line ++ '\n' :: rest) = some (line, rest) := by
  have hline : ∀ c ∈ line, (decide (c ≠ '\n')) = true := by
    intro c hc
    simpa using fun heq : c = '\n' => h (heq ▸ hc)
  simp only [takeLine]
  rw [List.dropWhile_append_of_pos hline, List.takeWhile_append_of_pos hline]
  simp

theorem takeLine_none {text : List Char} (h : '\n' ∉ text) : takeLine text = none := by
  have htext : text.dropWhile (fun c => decide (c ≠ '\n')) = [] := by
    rw [List.dropWhile_eq_nil_iff]
    intro c hc
    simpa using fun heq : c = '\n' => h (heq ▸ hc)
  simp only [takeLine, htext]

theorem stream_append (a b : List (List Char)) : stream (a ++ b) = stream a ++ stream b :=
  List.flatMap_append

theorem stream_cons (line : List Char) (lines : List (List Char)) :
    stream (line :: lines) = line ++ '\n' :: stream lines := by
  simp [stream]

/-- The begin of a stream consists of whole lines, as many as it has line ends, and the begin
of the next one. -/
theorem prefix_stream {lines : List (List Char)} (hlines : ∀ line ∈ lines, '\n' ∉ line)
    {text : List Char} (h : text <+: stream lines) : ∃ rest, '\n' ∉ rest ∧
      text = stream (lines.take (text.count '\n')) ++ rest := by
  induction lines generalizing text with
  | nil =>
      obtain rfl := List.prefix_nil.mp h
      exact ⟨[], by simp, rfl⟩
  | cons line lines ih =>
      have hline : '\n' ∉ line := hlines line (by simp)
      rw [stream_cons] at h
      have hwhole : line ++ ['\n'] <+: line ++ '\n' :: stream lines := by simp
      rcases List.prefix_or_prefix_of_prefix h hwhole with hshort | ⟨tail, rfl⟩
      · rcases List.prefix_concat_iff.mp hshort with rfl | hpart
        · refine ⟨[], by simp, ?_⟩
          simp [List.count_eq_zero.mpr hline, stream]
        · have hnone : '\n' ∉ text := fun hc => hline (hpart.subset hc)
          refine ⟨text, hnone, ?_⟩
          rw [List.count_eq_zero.mpr hnone]
          rfl
      · rw [List.append_assoc] at h
        have htail : tail <+: stream lines := by
          simpa using (List.prefix_append_right_inj line).mp h
        obtain ⟨rest, hrest, htext⟩ := ih (fun line hl => hlines line (by simp [hl])) htail
        refine ⟨rest, hrest, ?_⟩
        have hcount : (line ++ ['\n'] ++ tail).count '\n' = tail.count '\n' + 1 := by
          simp [List.count_append, List.count_eq_zero.mpr hline]
        rw [hcount, List.take_succ_cons, stream_cons]
        conv_lhs => rw [htext]
        simp

/-! ### Messages -/

/-- Commands, up to the first one to disconnect. -/
def commands (ms : List Json) : List Json := (ms.drop 1).takeWhile (! ·.isDisconnect)

/-- What the controller made of the messages so far. While it is not aborted, none of them
was a command to disconnect. -/
structure Heard (s : Controller) (ms : List Json) : Prop where
  started : s.started = ms.take 1
  accepted : s.accepted = commands ms
  config : s.aborted = false → (s.receivedConfig = true ↔ ms ≠ [])
  connected : s.aborted = false → ∀ m ∈ ms.drop 1, m.isDisconnect = false

variable {s : Controller} {ms : List Json}

/-- Reading lines, the controller is aborted by a command only. -/
structure Reading (s : Controller) (ms : List Json) : Prop where
  heard : Heard s ms
  finished : s.aborted = false → s.finished = false
  aborted : s.aborted = true → ∃ m ∈ ms.drop 1, m.isDisconnect = true

theorem commands_connected (h : ∀ m ∈ ms.drop 1, m.isDisconnect = false) : commands ms = ms.drop 1 := by
  rw [commands, List.takeWhile_eq_self_iff]
  intro m hm
  simp [h m hm]

theorem drop_snoc {m : Json} (h : ms ≠ []) : (ms ++ [m]).drop 1 = ms.drop 1 ++ [m] := by
  rw [List.drop_append_of_le_length (List.length_pos_of_ne_nil h)]

theorem take_snoc {m : Json} (h : ms ≠ []) : (ms ++ [m]).take 1 = ms.take 1 := by
  rw [List.take_append_of_le_length (List.length_pos_of_ne_nil h)]

theorem commands_snoc {m : Json} (h : ∃ x ∈ ms.drop 1, x.isDisconnect = true) :
    commands (ms ++ [m]) = commands ms := by
  have hne : ms ≠ [] := by
    rintro rfl
    simp at h
  obtain ⟨x, hx, hdisconnect⟩ := h
  rw [commands, commands, drop_snoc hne, List.takeWhile_append]
  rw [if_neg]
  intro hlength
  have hall := List.takeWhile_eq_self_iff.mp
    ((List.takeWhile_prefix (! ·.isDisconnect)).eq_of_length hlength) x hx
  simp [hdisconnect] at hall

theorem Reading.receive (h : Reading s ms) {m : Json} (hm : m.isNull = false) :
    ∃ s', s.receive m = some s' ∧ Reading s' (ms ++ [m]) ∧ s'.buffer = s.buffer ∧
      s'.stdin = s.stdin := by
  cases haborted : s.aborted with
  | true =>
      have hover := h.aborted haborted
      have hne : ms ≠ [] := by
        rintro rfl
        simp at hover
      refine ⟨s, by simp [Controller.receive, haborted], ⟨?_, by simp [haborted], fun _ => ?_⟩, rfl, rfl⟩
      · exact ⟨h.heard.started.trans (take_snoc hne).symm,
          h.heard.accepted.trans (commands_snoc hover).symm, by simp [haborted], by simp [haborted]⟩
      · obtain ⟨x, hx, hdisconnect⟩ := hover
        rw [drop_snoc hne]
        exact ⟨x, List.mem_append_left _ hx, hdisconnect⟩
  | false =>
      have hfinished := h.finished haborted
      have hconnected := h.heard.connected haborted
      have haccepted : s.accepted = ms.drop 1 := h.heard.accepted.trans (commands_connected hconnected)
      cases hconfig : s.receivedConfig with
      | false =>
          obtain rfl : ms = [] := by
            by_contra hne
            simp [(h.heard.config haborted).mpr hne] at hconfig
          refine ⟨{ s with receivedConfig := true, started := s.started ++ [m] },
            by simp [Controller.receive, haborted, hfinished, hconfig], ⟨⟨?_, ?_, ?_, ?_⟩, ?_, ?_⟩, rfl, rfl⟩
          · simp [h.heard.started]
          · simpa [commands] using haccepted
          · simp
          · simp
          · exact fun _ => hfinished
          · simp [haborted]
      | true =>
          have hne : ms ≠ [] := (h.heard.config haborted).mp hconfig
          cases hdisconnect : m.isDisconnect with
          | true =>
              refine ⟨{ s with killed := true, aborted := true }, ?_,
                ⟨⟨h.heard.started.trans (take_snoc hne).symm, ?_, by simp, by simp⟩, by simp, fun _ => ?_⟩,
                rfl, rfl⟩
              · simp [Controller.receive, haborted, hfinished, hconfig, hm, hdisconnect, kill]
              · rw [commands, drop_snoc hne, List.takeWhile_append_of_pos (by simpa using hconnected)]
                simpa [hdisconnect] using haccepted
              · rw [drop_snoc hne]
                exact ⟨m, by simp, hdisconnect⟩
          | false =>
              have hconnected' : ∀ x ∈ (ms ++ [m]).drop 1, x.isDisconnect = false := by
                rw [drop_snoc hne]
                intro x hx
                rcases List.mem_append.mp hx with hx | hx
                · exact hconnected x hx
                · rw [List.mem_singleton.mp hx, hdisconnect]
              refine ⟨{ s with queued := s.queued ++ [m], accepted := s.accepted ++ [m] }, ?_,
                ⟨⟨h.heard.started.trans (take_snoc hne).symm, ?_, ?_, fun _ => hconnected'⟩,
                  fun _ => hfinished, by simp [haborted]⟩, rfl, rfl⟩
              · simp [Controller.receive, haborted, hfinished, hconfig, hm, hdisconnect]
              · change s.accepted ++ [m] = commands (ms ++ [m])
                rw [commands_connected hconnected', drop_snoc hne, haccepted]
              · simp [hconfig]

theorem messages_cons {line : List Char} {lines : List (List Char)} :
    messages (line :: lines) = (message line).toList ++ messages lines := by
  simp only [messages, List.filterMap_cons]
  cases message line <;> rfl

theorem messages_append (a b : List (List Char)) : messages (a ++ b) = messages a ++ messages b :=
  List.filterMap_append

/-- The loop reads all whole lines of the buffer. -/
theorem Reading.readLines {lines : List (List Char)} (hlines : ∀ line ∈ lines, Framed line)
    {rest : List Char} (hrest : '\n' ∉ rest) {fuel : ℕ} (h : Reading s ms)
    (hbuffer : s.buffer = stream lines ++ rest) (hfuel : s.buffer.length ≤ fuel) :
    ∃ s', Controller.readLines fuel s = (s', true) ∧ Reading s' (ms ++ messages lines) ∧
      s'.buffer = rest ∧ s'.stdin = s.stdin := by
  induction lines generalizing s ms fuel with
  | nil =>
      have hs : s.buffer = rest := hbuffer
      refine ⟨s, ?_, by simpa [messages] using h, hs, rfl⟩
      cases fuel with
      | zero => rfl
      | succ fuel => rw [Controller.readLines, hs, takeLine_none hrest]
  | cons line lines ih =>
      have hline := hlines line (by simp)
      have hlines := fun line hl => hlines line (List.mem_cons_of_mem _ hl)
      rw [stream_cons, List.append_assoc, List.cons_append] at hbuffer
      cases fuel with
      | zero => simp [hbuffer] at hfuel
      | succ fuel =>
          let s₁ := { s with buffer := stream lines ++ rest }
          have h₁ : Reading s₁ ms := ⟨⟨h.heard.started, h.heard.accepted, h.heard.config,
            h.heard.connected⟩, h.finished, h.aborted⟩
          have hfuel₁ : s₁.buffer.length ≤ fuel := by
            rw [hbuffer] at hfuel
            simp only [List.length_append, List.length_cons] at hfuel
            simp only [s₁, List.length_append]
            omega
          rw [Controller.readLines, hbuffer, takeLine_append hline.single, messages_cons]
          dsimp only
          by_cases hblank : trim line = []
          · rw [if_pos hblank]
            simpa [message, hblank] using ih hlines h₁ rfl hfuel₁
          · obtain ⟨m, hm, hnull⟩ := hline.message hblank
            obtain ⟨s₂, hreceive, h₂, hbuffer₂, hstdin₂⟩ := h₁.receive hnull
            rw [if_neg hblank, hm, Option.bind_some, hreceive]
            obtain ⟨s', hread, h', hrest', hstdin'⟩ :=
              ih hlines h₂ hbuffer₂ (hbuffer₂ ▸ hfuel₁)
            refine ⟨s', hread, ?_, hrest', hstdin'.trans hstdin₂⟩
            simpa [message, hblank, hm] using h'

/-! ### Runs -/

def chunk : ControllerInput → List ℕ
  | .write chunk => chunk
  | _ => []

/-- The bytes that were written before the controller was aborted. -/
def heard (s : Controller) : List ControllerInput → List ℕ
  | [] => []
  | i :: is => (if s.aborted then [] else chunk i) ++ heard (s.step i) is

/-- A chunk consists of whole characters, and the session says nothing between the abort and
its end. -/
def Clean (s : Controller) : ControllerInput → Prop
  | .write chunk => s.aborted = true ∨ ∃ text, chunk = Utf8.encode text
  | .emitted _ => s.aborted = true → s.finished = true
  | _ => True

/-- The input ends the controller's life. -/
def Ends (s : Controller) : ControllerInput → Prop
  | .kill signal => s.receivedConfig = false ∨ signal = .name "SIGKILL" ∨ signal = .number 9
  | .stdinFinish => s.stdin = .writable ∧ s.receivedConfig = false
  | .succeeded | .failed _ => s.receivedConfig = true
  | _ => False

/-- Between the inputs: what was heard, and what of it is a whole line. -/
structure Framing (lines : List (List Char)) (s : Controller) (text : List Char) : Prop where
  written : text <+: stream lines
  heard : Heard s (messages (lines.take (text.count '\n')))
  finished : s.aborted = false → s.finished = false
  stdin : s.aborted = false → s.stdin = .writable
  buffer : s.aborted = false → '\n' ∉ s.buffer ∧
    text = stream (lines.take (text.count '\n')) ++ s.buffer

variable {lines : List (List Char)} {text : List Char}

theorem Framing.write (h : Framing lines s text) (hlines : ∀ line ∈ lines, Framed line)
    (haborted : s.aborted = false) {more : List Char} (hmore : text ++ more <+: stream lines) :
    Framing lines (s.write (Utf8.encode more)) (text ++ more) := by
  obtain ⟨rest, hrest, htext⟩ := prefix_stream (fun line hl => (hlines line hl).single) hmore
  generalize hn : (text ++ more).count '\n' = n at htext
  have hle : text.count '\n' ≤ n := by
    rw [← hn, List.count_append]
    omega
  have hsplit : lines.take n = lines.take (text.count '\n') ++ (lines.take n).drop (text.count '\n') := by
    conv_lhs => rw [← List.take_append_drop (text.count '\n') (lines.take n)]
    rw [List.take_take, Nat.min_eq_left hle]
  have hbuffer : s.buffer ++ more = stream ((lines.take n).drop (text.count '\n')) ++ rest := by
    obtain ⟨-, hold⟩ := h.buffer haborted
    rw [hsplit, stream_append, List.append_assoc] at htext
    conv_lhs at htext => rw [hold]
    rw [List.append_assoc] at htext
    exact List.append_cancel_left htext
  have hreading : Reading { s with buffer := s.buffer ++ more } (messages (lines.take (text.count '\n'))) :=
    ⟨⟨h.heard.started, h.heard.accepted, h.heard.config, h.heard.connected⟩, h.finished,
      by simp [haborted]⟩
  obtain ⟨s', hread, h', hbuffer', hstdin'⟩ := hreading.readLines
    (fun line hl => hlines line (List.mem_of_mem_take (List.mem_of_mem_drop hl))) hrest hbuffer
    (Nat.le_refl _)
  have hstdin := h.stdin haborted
  have hwrite : s.write (Utf8.encode more) = s' := by
    rw [Controller.write, if_pos hstdin, Utf8.decode_encode]
    dsimp only
    rw [hread]
    rfl
  rw [hwrite]
  rw [← messages_append, ← hsplit] at h'
  exact ⟨hmore, by rw [hn]; exact h'.heard, h'.finished, fun _ => hstdin'.trans hstdin,
    fun _ => by rw [hbuffer', hn]; exact ⟨hrest, htext⟩⟩

/-- Everything that a controller passes on. -/
structure Output where
  started : List Json
  accepted : List Json
  stdout : List Json

def output (s : Controller) : Output := ⟨s.started, s.accepted, s.stdout⟩

theorem output_finish (s : Controller) (code : Option ℤ) (signal : Option String) :
    output (s.finish code signal) = output s := by
  unfold finish
  split <;> rfl

theorem aborted_finish (h : s.finished = true → s.aborted = true) (code : Option ℤ)
    (signal : Option String) : (s.finish code signal).aborted = true := by
  unfold finish
  split
  · rename_i hfinished
    exact h hfinished
  · rfl

theorem output_kill (s : Controller) (signal : Signal) : output (s.kill signal).1 = output s := by
  unfold kill
  split
  · rfl
  · dsimp only
    split
    · exact output_finish ..
    · rfl

theorem aborted_kill (h : s.finished = true → s.aborted = true) (signal : Signal) :
    (s.kill signal).1.aborted = true := by
  unfold kill
  split
  · rename_i hfinished
    exact h hfinished
  · dsimp only
    split
    · exact aborted_finish (fun _ => rfl) _ _
    · rfl

/-- Once aborted, the loop only empties the buffer. -/
theorem readLines_aborted (h : s.aborted = true) (fuel : ℕ) :
    ∃ buffer, (readLines fuel s).1 = { s with buffer := buffer } := by
  induction fuel generalizing s with
  | zero => exact ⟨s.buffer, rfl⟩
  | succ fuel ih =>
      rw [readLines]
      cases takeLine s.buffer with
      | none => exact ⟨s.buffer, rfl⟩
      | some split =>
          obtain ⟨line, rest⟩ := split
          dsimp only
          have hreceive : Controller.receive { s with buffer := rest } =
              fun _ => some { s with buffer := rest } := by
            funext m
            simp [Controller.receive, h]
          rw [hreceive]
          obtain ⟨buffer, hbuffer⟩ := ih (s := { s with buffer := rest }) h
          split
          · exact ⟨buffer, hbuffer⟩
          · cases Json.parse line with
            | none => exact ⟨rest, rfl⟩
            | some m => exact ⟨buffer, hbuffer⟩

theorem write_aborted (h : s.aborted = true) (chunk : List ℕ) :
    ∃ buffer stdin, s.write chunk = { s with buffer := buffer, stdin := stdin } := by
  unfold Controller.write
  split
  · obtain ⟨buffer, hbuffer⟩ := readLines_aborted
      (s := { s with buffer := s.buffer ++ Utf8.decode chunk }) h (s.buffer ++ Utf8.decode chunk).length
    dsimp only
    split
    · exact ⟨buffer, s.stdin, hbuffer⟩
    · exact ⟨buffer, .broken, by rw [hbuffer]⟩
  · exact ⟨s.buffer, s.stdin, rfl⟩

/-- An aborted controller passes nothing on, if the session is silent. -/
theorem output_aborted (h : s.aborted = true) {i : ControllerInput} (hclean : Clean s i) :
    output (s.step i) = output s ∧ (s.step i).aborted = true := by
  cases i with
  | write chunk =>
      obtain ⟨buffer, stdin, hwrite⟩ := write_aborted h chunk
      rw [step, hwrite]
      exact ⟨rfl, h⟩
  | stdinFinish =>
      simp only [step]
      split
      · exact ⟨output_kill .., aborted_kill (fun _ => h) _⟩
      · exact ⟨rfl, h⟩
  | kill signal => exact ⟨output_kill .., aborted_kill (fun _ => h) _⟩
  | microtask =>
      simp only [step]
      split
      · exact ⟨rfl, h⟩
      · exact ⟨rfl, h⟩
  | shift | abort =>
      simp only [step]
      split
      · exact ⟨rfl, h⟩
      · exact ⟨rfl, by first | exact h | rfl⟩
  | emitted event =>
      simp only [step]
      rw [if_pos (hclean h)]
      split <;> exact ⟨rfl, h⟩
  | succeeded =>
      simp only [step]
      split
      · exact ⟨rfl, h⟩
      · exact ⟨output_finish .., aborted_finish (fun _ => h) _ _⟩
  | failed error =>
      simp only [step, h, Bool.not_true, Bool.and_false, Bool.false_eq_true, if_false]
      split
      · exact ⟨rfl, h⟩
      · exact ⟨output_finish .., aborted_finish (fun _ => h) _ _⟩

theorem Framing.closed (h : Framing lines s text) {s' : Controller} (hstarted : s'.started = s.started)
    (haccepted : s'.accepted = s.accepted) (haborted : s'.aborted = true) : Framing lines s' text :=
  ⟨h.written, ⟨hstarted.trans h.heard.started, haccepted.trans h.heard.accepted, by simp [haborted],
    by simp [haborted]⟩, by simp [haborted], by simp [haborted], by simp [haborted]⟩

/-- Inputs that write nothing. -/
theorem Framing.quiet (h : Framing lines s text) {i : ControllerInput} (hi : chunk i = [])
    (hwrite : ∀ c, i ≠ .write c) (haborted : s.aborted = false) : Framing lines (s.step i) text := by
  have hfinished := h.finished haborted
  have hover : s.finished = true → s.aborted = true := by simp [hfinished]
  have hclosed {s' : Controller} (hout : output s' = output s) (haborted : s'.aborted = true) :
      Framing lines s' text :=
    h.closed (congrArg Output.started hout) (congrArg Output.accepted hout) haborted
  cases i with
  | write c => exact absurd rfl (hwrite c)
  | stdinFinish =>
      simp only [step]
      split
      · exact hclosed (output_kill ..) (aborted_kill hover _)
      · exact h
  | kill signal => exact hclosed (output_kill ..) (aborted_kill hover _)
  | microtask =>
      simp only [step]
      split
      · exact ⟨h.written, ⟨h.heard.started, h.heard.accepted, h.heard.config, h.heard.connected⟩,
          h.finished, h.stdin, h.buffer⟩
      · exact h
  | shift =>
      simp only [step]
      split
      · exact h
      · exact ⟨h.written, ⟨h.heard.started, h.heard.accepted, h.heard.config, h.heard.connected⟩,
          h.finished, h.stdin, h.buffer⟩
  | abort =>
      simp only [step]
      split
      · exact h
      · exact hclosed rfl rfl
  | emitted event =>
      simp only [step]
      split
      · exact h
      · split
        · exact h
        · exact ⟨h.written, ⟨h.heard.started, h.heard.accepted, h.heard.config, h.heard.connected⟩,
            h.finished, h.stdin, h.buffer⟩
  | succeeded =>
      simp only [step]
      split
      · exact h
      · exact hclosed (output_finish ..) (aborted_finish hover _ _)
  | failed error =>
      simp only [step]
      split
      · exact h
      · refine h.closed ?_ ?_ (aborted_finish ?_ _ _)
        · refine (congrArg Output.started (output_finish ..)).trans ?_
          split <;> rfl
        · refine (congrArg Output.accepted (output_finish ..)).trans ?_
          split <;> rfl
        · split <;> exact hover

/-- What was heard is a text, as long as the chunks are clean. -/
theorem framing_run (hlines : ∀ line ∈ lines, Framed line) {inputs : List ControllerInput}
    (h : Framing lines s text)
    (hwritten : s.aborted = false →
      Utf8.encode text ++ inputs.flatMap chunk <+: Utf8.encode (stream lines))
    (hclean : Meets step Clean s inputs) : ∃ more, heard s inputs = Utf8.encode more ∧
      Framing lines (run step s inputs) (text ++ more) := by
  induction inputs generalizing s text with
  | nil => exact ⟨[], rfl, by simpa using h⟩
  | cons i inputs ih =>
      obtain ⟨hi, hclean⟩ := hclean
      rw [heard, run_cons]
      cases haborted : s.aborted with
      | true =>
          obtain ⟨hout, hstays⟩ := output_aborted haborted hi
          have h' : Framing lines (s.step i) text :=
            h.closed (congrArg Output.started hout) (congrArg Output.accepted hout) hstays
          exact ih h' (by simp [hstays]) hclean
      | false =>
          have hwritten := hwritten haborted
          rw [List.flatMap_cons, ← List.append_assoc] at hwritten
          have hwrite : ∃ part, chunk i = Utf8.encode part ∧ Framing lines (s.step i) (text ++ part) := by
            by_cases hwrites : ∃ c, i = .write c
            · obtain ⟨c, rfl⟩ := hwrites
              obtain ⟨part, rfl⟩ := hi.resolve_left (by simp [haborted])
              refine ⟨part, rfl, h.write hlines haborted (Utf8.prefix_of_encode_prefix ?_)⟩
              rw [Utf8.encode_append]
              exact (List.prefix_append _ _).trans hwritten
            · have hchunk : chunk i = [] := by
                cases i with
                | write c => exact absurd ⟨c, rfl⟩ hwrites
                | _ => rfl
              refine ⟨[], hchunk, ?_⟩
              rw [List.append_nil]
              exact h.quiet hchunk (fun c hc => hwrites ⟨c, hc⟩) haborted
          obtain ⟨part, hpart, h'⟩ := hwrite
          obtain ⟨more, hmore, hrun⟩ := ih h' (fun _ => by rwa [Utf8.encode_append, ← hpart]) hclean
          refine ⟨part ++ more, ?_, by rwa [← List.append_assoc]⟩
          rw [hpart, hmore, Utf8.encode_append]
          rfl

/-! ### The end of life -/

/-- Of the end is told once, and not in front of it. -/
structure Lifecycle (s : Controller) : Prop where
  living : s.finished = false → s.ending = none ∧ s.events = []
  ended : s.finished = true → s.aborted = true ∧
    ((∃ code signal, s.ending = some (code, signal) ∧ s.events = []) ∨
      s.ending = none ∧ ∃ code signal, s.events = [.exit code signal, .close code signal])

theorem Lifecycle.finish (h : Lifecycle s) (code : Option ℤ) (signal : Option String) :
    Lifecycle (s.finish code signal) := by
  unfold Controller.finish
  split
  · exact h
  · rename_i hliving
    exact ⟨nofun, fun _ => ⟨rfl, .inl ⟨code, signal, rfl, (h.living (by simpa using hliving)).2⟩⟩⟩

theorem Lifecycle.kill (h : Lifecycle s) (signal : Signal) : Lifecycle (s.kill signal).1 := by
  unfold Controller.kill
  split
  · exact h
  · have h' : Lifecycle { s with killed := true, aborted := true } :=
      ⟨h.living, fun hover => ⟨rfl, (h.ended hover).2⟩⟩
    dsimp only
    split
    · exact h'.finish _ _
    · exact h'

theorem Lifecycle.receive (h : Lifecycle s) {m : Json} {s' : Controller}
    (hs : s.receive m = some s') : Lifecycle s' ∧ s'.finished = s.finished := by
  unfold Controller.receive at hs
  split at hs
  · cases hs
    exact ⟨h, rfl⟩
  split at hs
  · cases hs
    exact ⟨⟨h.living, h.ended⟩, rfl⟩
  split at hs
  · cases hs
  split at hs
  · rename_i hrunning hconfig _ _
    cases hs
    refine ⟨h.kill _, ?_⟩
    simp_all [Controller.kill]
  · cases hs
    exact ⟨⟨h.living, h.ended⟩, rfl⟩

theorem Lifecycle.readLines (h : Lifecycle s) (fuel : ℕ) :
    Lifecycle (Controller.readLines fuel s).1 ∧ (Controller.readLines fuel s).1.finished = s.finished := by
  induction fuel generalizing s with
  | zero => exact ⟨h, rfl⟩
  | succ fuel ih =>
      rw [Controller.readLines]
      cases takeLine s.buffer with
      | none => exact ⟨h, rfl⟩
      | some split =>
          obtain ⟨line, rest⟩ := split
          have h' : Lifecycle { s with buffer := rest } := ⟨h.living, h.ended⟩
          dsimp only
          split
          · exact ih h'
          · split
            · rename_i s' hs
              obtain ⟨m, -, hreceive⟩ := Option.bind_eq_some_iff.mp hs
              obtain ⟨h'', hfinished⟩ := h'.receive hreceive
              obtain ⟨hread, hsame⟩ := ih h''
              exact ⟨hread, hsame.trans hfinished⟩
            · exact ⟨h', rfl⟩

theorem Lifecycle.write (h : Lifecycle s) (bytes : List ℕ) :
    Lifecycle (s.write bytes) ∧ (s.write bytes).finished = s.finished := by
  unfold Controller.write
  split
  · have hread := Lifecycle.readLines (s := { s with buffer := s.buffer ++ Utf8.decode bytes })
      ⟨h.living, h.ended⟩ (s.buffer ++ Utf8.decode bytes).length
    dsimp only
    split
    · exact hread
    · exact ⟨⟨hread.1.living, hread.1.ended⟩, hread.2⟩
  · exact ⟨h, rfl⟩

theorem finished_finish (s : Controller) (code : Option ℤ) (signal : Option String) :
    (s.finish code signal).finished = true := by
  unfold Controller.finish
  split
  · assumption
  · rfl

theorem finished_kill (s : Controller) (signal : Signal) : (s.kill signal).1.finished = true ↔
    s.finished = true ∨ Ends s (.kill signal) := by
  unfold Controller.kill
  split
  · rename_i hfinished
    simp [hfinished]
  · rename_i hfinished
    dsimp only
    split
    · rename_i hends
      simp only [finished_finish, true_iff]
      right
      simpa [Ends, or_assoc] using hends
    · rename_i hends
      simpa [Ends, or_assoc, hfinished] using hends

theorem Lifecycle.step (h : Lifecycle s) (i : ControllerInput) : Lifecycle (s.step i) ∧
    ((s.step i).finished = true ↔ s.finished = true ∨ Ends s i) := by
  cases i with
  | write bytes =>
      obtain ⟨hwrite, hfinished⟩ := h.write bytes
      exact ⟨hwrite, by simp [Controller.step, hfinished, Ends]⟩
  | kill signal => exact ⟨h.kill signal, finished_kill s signal⟩
  | stdinFinish =>
      simp only [Controller.step]
      split
      · rename_i hstdin
        refine ⟨h.kill _, ?_⟩
        rw [finished_kill]
        simp [Ends, hstdin]
      · rename_i hstdin
        exact ⟨h, by simp [Ends, hstdin]⟩
  | microtask =>
      simp only [Controller.step]
      split
      · rename_i code signal hending
        refine ⟨⟨fun hliving => ?_, fun hover => ⟨(h.ended hover).1, .inr ⟨rfl, code, signal, ?_⟩⟩⟩,
          by simp [Ends]⟩
        · simp [(h.living hliving).1] at hending
        · rcases (h.ended hover).2 with ⟨_, _, _, hevents⟩ | ⟨hnone, _⟩
          · rw [hevents]
            rfl
          · simp [hnone] at hending
      · exact ⟨h, by simp [Ends]⟩
  | shift | emitted | abort =>
      simp only [Controller.step]
      split
      · exact ⟨h, by simp [Ends]⟩
      · first
        | exact ⟨⟨h.living, fun hover => ⟨(h.ended hover).1, (h.ended hover).2⟩⟩, by simp [Ends]⟩
        | exact ⟨⟨h.living, fun hover => ⟨rfl, (h.ended hover).2⟩⟩, by simp [Ends]⟩
        | split
          · exact ⟨h, by simp [Ends]⟩
          · exact ⟨⟨h.living, h.ended⟩, by simp [Ends]⟩
  | succeeded =>
      simp only [Controller.step]
      split
      · rename_i hconfig
        exact ⟨h, by simp_all [Ends]⟩
      · rename_i hconfig
        exact ⟨h.finish _ _, by simp_all [finished_finish, Ends]⟩
  | failed error =>
      simp only [Controller.step]
      split
      · rename_i hconfig
        exact ⟨h, by simp_all [Ends]⟩
      · rename_i hconfig
        refine ⟨Lifecycle.finish ?_ _ _, by simp_all [finished_finish, Ends]⟩
        split
        · exact ⟨h.living, h.ended⟩
        · exact h

theorem framing_init (lines : List (List Char)) : Framing lines {} [] :=
  ⟨List.nil_prefix, ⟨rfl, rfl, by simp [messages], by simp [messages]⟩, fun _ => rfl, fun _ => rfl,
    fun _ => ⟨by simp, rfl⟩⟩

theorem lifecycle_init : Lifecycle {} := ⟨fun _ => ⟨rfl, rfl⟩, nofun⟩

theorem lifecycle_run (inputs : List ControllerInput) : Lifecycle (run step {} inputs) :=
  run_of_invariant (fun _ i h => (h.step i).1) lifecycle_init inputs

theorem finished_iff (inputs : List ControllerInput) : (run step {} inputs).finished = true ↔
    ∃ past i, past ++ [i] <+: inputs ∧ Ends (run step {} past) i := by
  rw [raised_iff (P := fun s => s.finished = true) (Q := Lifecycle) (fun _ i h => (h.step i).1)
    (fun _ i h => (h.step i).2) lifecycle_init]
  simp

/-- The messages of the lines that were heard to their end. -/
def heardMessages (lines : List (List Char)) (inputs : List ControllerInput) : List Json :=
  messages (lines.take ((heard {} inputs).count '\n'.toNat))

/-- The session was started with the first message only, was passed the commands up to the
first one to disconnect, and nothing was passed on after the abort `past`. -/
structure Faithful (lines : List (List Char)) (inputs : List ControllerInput) : Prop where
  started : (run step {} inputs).started = (heardMessages lines inputs).take 1
  accepted : (run step {} inputs).accepted =
    ((heardMessages lines inputs).drop 1).takeWhile (! ·.isDisconnect)
  silent : ∀ past, past <+: inputs → (run step {} past).aborted = true →
    output (run step {} inputs) = output (run step {} past)

/-- The controller tells of its end once, by `exit` and `close` in a microtask of its own. -/
structure ToldOnce (s : Controller) : Prop where
  living : s.finished = false → s.events = []
  once : s.events = [] ∨ ∃ code signal, s.events = [.exit code signal, .close code signal]
  told : s.finished = true →
    ∃ code signal, (s.step .microtask).events = [.exit code signal, .close code signal]

theorem Lifecycle.toldOnce (h : Lifecycle s) : ToldOnce s := by
  refine ⟨fun hliving => (h.living hliving).2, ?_, fun hover => ?_⟩
  · cases hover : s.finished with
    | false => exact .inl (h.living hover).2
    | true => exact (h.ended hover).2.imp (fun ⟨_, _, _, hevents⟩ => hevents) And.right
  · rcases (h.ended hover).2 with ⟨code, signal, hending, hevents⟩ | ⟨hending, code, signal, hevents⟩
    · exact ⟨code, signal, by simp [Controller.step, hending, hevents]⟩
    · exact ⟨code, signal, by simp [Controller.step, hending, hevents]⟩

theorem output_run (h : s.aborted = true) {inputs : List ControllerInput}
    (hclean : Meets step Clean s inputs) : output (run step s inputs) = output s := by
  induction inputs generalizing s with
  | nil => rfl
  | cons i inputs ih =>
      obtain ⟨hout, haborted⟩ := output_aborted h hclean.1
      exact (ih haborted hclean.2).trans hout

/-- As long as every chunk consists of whole characters and the session is silent between the
abort and its end: the messages arrive as they were written, nothing is passed on after the
abort, and the end is told once, when a kill or the end of the session has finished the
controller. -/
theorem controller_faithful (lines : List (List Char)) (hlines : ∀ line ∈ lines, Framed line)
    (inputs : List ControllerInput)
    (hwritten : inputs.flatMap chunk <+: Utf8.encode (stream lines))
    (hclean : Meets step Clean {} inputs) (past : List ControllerInput) (hpast : past <+: inputs) :
    Faithful lines past ∧ ToldOnce (run step {} past) ∧
      ((run step {} past).finished = true ↔
        ∃ earlier i, earlier ++ [i] <+: past ∧ Ends (run step {} earlier) i) := by
  refine ⟨?_, (lifecycle_run past).toldOnce, finished_iff past⟩
  obtain ⟨rest, rfl⟩ := hpast
  have hclean := (meets_append.mp hclean).1
  have hwritten : past.flatMap chunk <+: Utf8.encode (stream lines) := by
    rw [List.flatMap_append] at hwritten
    exact (List.prefix_append _ _).trans hwritten
  obtain ⟨text, htext, hframing⟩ := framing_run hlines (framing_init lines) (fun _ => hwritten) hclean
  have hmessages : heardMessages lines past = messages (lines.take (text.count '\n')) := by
    rw [heardMessages, htext, Utf8.count_encode _ (by decide)]
  refine ⟨?_, ?_, ?_⟩
  · rw [hmessages]
    exact hframing.heard.started
  · rw [hmessages]
    exact hframing.heard.accepted
  · rintro before ⟨after, rfl⟩ haborted
    rw [run_append]
    exact output_run haborted (meets_append.mp hclean).2

/-! ### A life of two lines -/

def config : List Char := "\x7b\"account_id\":\"one\"\x7d".toList

def greeting : List Char := "\x7b\"type\":\"chat\",\"text\":\"ä\"\x7d".toList

theorem framed_of_parse {line : List Char} (hsingle : '\n' ∉ line)
    (hparse : (Json.parse line).any (! ·.isNull) = true) : Framed line := by
  obtain ⟨m, hm, hnull⟩ := (Option.any_eq_true _ _).mp hparse
  exact ⟨hsingle, fun _ => ⟨m, hm, by simpa using hnull⟩⟩

theorem framed_lines : ∀ line ∈ [config, greeting], Framed line := by
  simp only [List.forall_mem_cons]
  exact ⟨framed_of_parse (by decide +kernel) (by decide +kernel),
    framed_of_parse (by decide +kernel) (by decide +kernel), nofun⟩
/-- The two lines, as the chunks in front of byte `k` and behind it. -/
def written (k : ℕ) : List ControllerInput :=
  let bytes := Utf8.encode (stream [config, greeting])
  [.write (bytes.take k), .write (bytes.drop k)]

theorem written_chunks (k : ℕ) :
    (written k).flatMap chunk = Utf8.encode (stream [config, greeting]) := by
  simp [written, chunk]

theorem written_clean {rest : List ControllerInput}
    (h : Meets step Clean (run step {} (written 5)) rest) :
    Meets step Clean {} (written 5 ++ rest) :=
  meets_append.mpr ⟨⟨.inr ⟨(stream [config, greeting]).take 5, by decide +kernel⟩,
      .inr ⟨(stream [config, greeting]).drop 5, by decide +kernel⟩, trivial⟩, h⟩

def life : List ControllerInput := written 5 ++ [.kill (.name "SIGTERM"), .succeeded]

theorem controller_faithful_life :
    Faithful [config, greeting] life ∧ ToldOnce (run step {} life) ∧
      ((run step {} life).finished = true ↔
        ∃ earlier i, earlier ++ [i] <+: life ∧ Ends (run step {} earlier) i) := by
  refine controller_faithful [config, greeting] framed_lines life ?_
    (written_clean ⟨trivial, trivial, trivial⟩) life (List.prefix_refl _)
  rw [life, List.flatMap_append, written_chunks]
  exact ⟨[], by simp [chunk]⟩

/-- The text of a command. -/
def commandText : Json → Option String
  | .obj entries => match Json.property entries "text" with
      | .str text => some text
      | _ => none
  | _ => none

def isEmitted : ControllerInput → Bool
  | .emitted _ => true
  | _ => false


def spoken : List ControllerInput :=
  [.write (Utf8.encode (stream [config])), .kill (.name "SIGTERM"), .emitted .null]

theorem prefix_spoken : spoken.flatMap chunk <+: Utf8.encode (stream [config, greeting]) := by
  refine ⟨Utf8.encode (stream [greeting]), ?_⟩
  rw [show [config, greeting] = [config] ++ [greeting] from rfl, stream_append, Utf8.encode_append]
  simp [spoken, chunk]

/-- A chunk that ends inside a character changes a message, and a session that speaks behind
the abort is passed on. -/
theorem controller_unfaithful :
    ¬ (∀ lines, (∀ line ∈ lines, Framed line) → ∀ inputs : List ControllerInput,
        inputs.flatMap chunk <+: Utf8.encode (stream lines) → (∀ i ∈ inputs, isEmitted i = false) →
        Faithful lines inputs) ∧
    ¬ (∀ lines, (∀ line ∈ lines, Framed line) → ∀ inputs : List ControllerInput,
        inputs.flatMap chunk <+: Utf8.encode (stream lines) →
        (∀ i ∈ inputs, ∃ text, chunk i = Utf8.encode text) → Faithful lines inputs) := by
  constructor
  · intro h
    have hfaithful := h [config, greeting] framed_lines (written 45)
      (by rw [written_chunks]) (by simp [written, isEmitted])
    have htext := congrArg (List.map commandText) hfaithful.accepted
    exact absurd htext (by decide +kernel)
  · intro h
    have hfaithful := h [config, greeting] framed_lines spoken prefix_spoken (by
      simp only [spoken, List.forall_mem_cons]
      exact ⟨⟨stream [config], rfl⟩, ⟨[], rfl⟩, ⟨[], rfl⟩, nofun⟩)
    have hsilent := hfaithful.silent (spoken.take 2) (List.take_prefix _ _) (by decide +kernel)
    have hlength := congrArg (fun o => o.stdout.length) hsilent
    exact absurd hlength (by decide +kernel)

end AfkClient.Controller
