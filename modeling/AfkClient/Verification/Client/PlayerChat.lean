import AfkClient.Library.Observe
import AfkClient.Model.Behaviors
import AfkClient.Verification.Client.Lifecycle

/-! Chat written by players. It changes nothing in the supervisor and nothing in the
behaviors; the only thing it can do is to be booked as a sale by the supervisor. -/

namespace AfkClient

open Text

/-- A chat event has a sender, and the sender is not the server. -/
def playerWritten (sender : Option String) : Bool :=
  sender.any fun name =>
    name ≠ "" && toLowerCase (stripFormatting name.toList) ≠ "hugosmp".toList

theorem playerWritten_some {sender : Option String} (h : playerWritten sender) :
    ∃ name, sender = some name ∧ name ≠ "" ∧
      toLowerCase (stripFormatting name.toList) ≠ "hugosmp".toList := by
  cases sender with
  | none => exact absurd h Bool.false_ne_true
  | some name =>
      simp only [playerWritten, Option.any_some, Bool.and_eq_true, decide_eq_true_eq] at h
      exact ⟨name, rfl, h⟩

/-! ### The supervisor -/

namespace Client

theorem fromServer_eq_false {sender : Option String} (h : playerWritten sender) :
    fromServer sender = false := by
  obtain ⟨name, rfl, hname, hserver⟩ := playerWritten_some h
  simp only [fromServer, Bool.or_eq_false_iff, beq_eq_false_iff_ne]
  exact ⟨by simpa using hname, hserver⟩

/-- The client, whatever it emitted in its last step. -/
def silent (s : Client) : Client := { s with outbox := [] }

def isChatOutput : Output → Bool
  | .chat _ => true
  | .console .chat _ _ => true
  | _ => false

/-- What the last step did, chat reports apart. -/
def effects (s : Client) : List Output := s.outbox.reverse.filter (! isChatOutput ·)

/-- A player's text, with the controller that reports it. -/
def playerText : Input → Option (ℕ × String)
  | .line child (.chat sender message) =>
      if playerWritten sender then some (child, message) else none
  | _ => none

def isPlayerChat (i : Input) : Bool := (playerText i).isSome

/-- No player's text that reaches the client reads as a sale payout. -/
def PayoutFree (s : Client) (i : Input) : Prop :=
  ∀ text ∈ playerText i, s.subprocess = some text.1 →
    parseSellEarning (stripMinecraftFormatting text.2) = none

instance (s : Client) (i : Input) : Decidable (s.PayoutFree i) :=
  inferInstanceAs (Decidable (∀ text ∈ playerText i, s.subprocess = some text.1 →
    parseSellEarning (stripMinecraftFormatting text.2) = none))

theorem playerText_some {i : Input} (h : isPlayerChat i) : ∃ child sender message,
    i = .line child (.chat sender message) ∧ playerWritten sender ∧
      playerText i = some (child, message) := by
  simp only [isPlayerChat, Option.isSome_iff_exists] at h
  obtain ⟨text, htext⟩ := h
  unfold playerText at htext ⊢
  split at htext
  · rename_i child sender message
    split at htext
    · rename_i hp
      exact ⟨child, sender, message, rfl, hp, by rw [if_pos hp]⟩
    · cases htext
  · cases htext

/-- A player's text is reported, and booked if it reads as a payout. -/
theorem handleChat_player (s : Client) {sender : Option String} (h : playerWritten sender)
    (message : String) :
    ∃ line, s.handleChat sender message =
      ((s.bookEarning (stripMinecraftFormatting message)).emit
        (.chat (stripMinecraftFormatting message))).emitConsole .chat line := by
  have hserver := fromServer_eq_false h
  obtain ⟨name, rfl, hname, -⟩ := playerWritten_some h
  have hpause : s.pauseForRestart (some name) (stripMinecraftFormatting message) = s := by
    unfold pauseForRestart
    split <;> simp [hserver]
  have hsome : (some name).filter (! ·.isEmpty) = some name := by simpa using hname
  refine ⟨s!"<{stripMinecraftFormatting name}> {stripMinecraftFormatting message}", ?_⟩
  simp only [handleChat, hpause, hserver, Bool.false_and, Bool.false_eq_true, if_false, reportChat,
    hsome]

theorem emit_silent (s : Client) (o : Output) : (s.emit o).silent = s.silent := rfl

theorem bookEarning_silent (s : Client) (clean : String) : (s.bookEarning clean).silent = s.silent := by
  unfold bookEarning
  split <;> rfl

theorem handleChat_player_silent (s : Client) {sender : Option String} (h : playerWritten sender)
    (message : String) : (s.handleChat sender message).silent = s.silent := by
  obtain ⟨line, hline⟩ := handleChat_player s h message
  rw [hline, emitConsole, emit_silent, emit_silent, bookEarning_silent]

theorem step_silent (s : Client) (i : Input) : s.step i = s.silent.step i := rfl

theorem step_chat (s : Client) (child : ℕ) (sender : Option String) (message : String) :
    s.step (.line child (.chat sender message)) =
      if s.subprocess = some child then s.silent.handleChat sender message else s.silent := rfl

theorem silent_step_playerChat (s : Client) {i : Input} (h : isPlayerChat i) :
    (s.step i).silent = s.silent := by
  obtain ⟨child, sender, message, rfl, hp, -⟩ := playerText_some h
  rw [step_chat]
  split
  · exact handleChat_player_silent s.silent hp message
  · rfl

/-- Without chat reports, a player's text has no effect exactly when it is no payout. -/
theorem effects_step_playerChat (s : Client) {i : Input} (h : isPlayerChat i) :
    (s.step i).effects = [] ↔ s.PayoutFree i := by
  obtain ⟨child, sender, message, rfl, hp, htext⟩ := playerText_some h
  obtain ⟨line, hline⟩ := handleChat_player s.silent hp message
  rw [step_chat, PayoutFree, htext, hline]
  by_cases hc : s.subprocess = some child
  · cases hparse : parseSellEarning (stripMinecraftFormatting message) <;>
      simp [hc, hparse, bookEarning, effects, emit, emitConsole, silent, isChatOutput]
  · simp [hc, effects, silent]

theorem blind : Blind step effects silent isPlayerChat where
  congr s t i hn := by
    rw [step_silent s, step_silent t, hn]
    exact ⟨rfl, rfl⟩
  skip s _ h := silent_step_playerChat s h

/-- Player chat goes unnoticed in a run exactly when none of it is a payout. -/
theorem effects_erase_iff (s : Client) (is : List Input) :
    observe step effects s is = observe step effects s (erase isPlayerChat is) ↔
      Meets step PayoutFree s is := by
  rw [blind.observe_erase_iff]
  constructor
  · refine Meets.mono fun t i h => ?_
    cases hi : isPlayerChat i with
    | true => exact (effects_step_playerChat t hi).mp (h hi)
    | false =>
        have hnone : playerText i = none := by simpa [isPlayerChat] using hi
        simp [PayoutFree, hnone]
  · exact Meets.mono fun t i h hi => (effects_step_playerChat t hi).mpr h

end Client

/-! ### The behaviors -/

namespace Behaviors

/-- The bot, whatever it emitted in its last step. -/
def Bot.silent (b : Bot) : Bot := b.on fun s => { s with outbox := [] }

def Bot.emitted (b : Bot) : List BotEvent := b.vars.outbox.reverse

def isPlayerChat : Input → Bool
  | .chat sender _ => playerWritten sender
  | _ => false

theorem removeFormatCodes_eq {text : List Char} (h : '§' ∉ text) : removeFormatCodes text = text := by
  induction text with
  | nil => rfl
  | cons c rest ih =>
      cases rest with
      | nil => rfl
      | cons d rest =>
          have hc : c ≠ '§' := fun hc => h (by simp [hc])
          simp [removeFormatCodes, hc, ih fun hm => h (List.mem_cons_of_mem _ hm)]

/-- A name that reads as the server's in lower case has no formatting codes. -/
theorem stripFormatting_of_lower {name : List Char} (h : toLowerCase name = "hugosmp".toList) :
    stripFormatting name = name := by
  have hcode : '§' ∉ name := by
    intro hm
    have hlow : '§' ∈ toLowerCase name :=
      List.mem_flatMap.mpr ⟨'§', hm, by decide⟩
    rw [h] at hlow
    exact absurd hlow (by decide)
  rw [stripFormatting, removeFormatCodes_eq hcode]
  exact List.filter_eq_self.mpr fun c hc => by simp; rintro rfl; exact hcode hc

/-- The behaviors ignore every player's text. -/
theorem onChat_player (s : Behaviors) {sender : Option String} (h : playerWritten sender)
    (message : String) : s.onChat sender message = s := by
  obtain ⟨name, rfl, hname, hserver⟩ := playerWritten_some h
  have hlow : toLowerCase name.toList ≠ "hugosmp".toList := by
    intro hlow
    rw [stripFormatting_of_lower hlow] at hserver
    exact hserver hlow
  unfold onChat
  rw [if_pos]
  simp only [Option.any_some, Bool.and_eq_true, decide_eq_true_eq]
  exact ⟨hname, hlow⟩

theorem Bot.blind : Blind Bot.step Bot.emitted Bot.silent isPlayerChat where
  congr s t i hn := by
    have hs : ∀ b : Bot, b.step i = b.silent.step i := fun b => rfl
    rw [hs s, hs t, hn]
    exact ⟨rfl, rfl⟩
  skip s i h := by
    cases i with
    | chat sender message =>
        change (s.silent.on fun v => v.onChat sender message).silent = s.silent
        rw [Bot.on, onChat_player _ h]
        rfl
    | _ => simp [isPlayerChat] at h

theorem Bot.emitted_playerChat (b : Bot) {i : Input} (h : isPlayerChat i) :
    (b.step i).emitted = [] := by
  cases i with
  | chat sender message =>
      change (b.silent.on fun v => v.onChat sender message).emitted = []
      rw [Bot.on, onChat_player _ h]
      rfl
  | _ => simp [isPlayerChat] at h

/-- Player chat goes unnoticed in every run of the behaviors. -/
theorem Bot.emitted_erase (b : Bot) (is : List Input) :
    observe Bot.step Bot.emitted b is = observe Bot.step Bot.emitted b (erase isPlayerChat is) :=
  (Bot.blind.observe_erase_iff b is).mpr
    (Meets.mono (fun t _ _ hi => t.emitted_playerChat hi) meets_true)

end Behaviors

/-! ### Both -/

/-- Of two runs that differ only in player chat, and of which one has no text that reads
as a payout, the other looks the same exactly when it has none either. The behaviors
never see a difference. -/
theorem player_chat_inert (config : ClientRuntimeConfig) (is js : List Client.Input)
    (h : erase Client.isPlayerChat is = erase Client.isPlayerChat js)
    (hjs : Meets Client.step Client.PayoutFree (.init config) js) :
    ((observe Client.step Client.effects (.init config) is
          = observe Client.step Client.effects (.init config) js
        ∧ (run Client.step (.init config) is).silent = (run Client.step (.init config) js).silent)
      ↔ Meets Client.step Client.PayoutFree (.init config) is) ∧
    ∀ (bot : Behaviors.Bot) (is js : List Behaviors.Input),
      erase Behaviors.isPlayerChat is = erase Behaviors.isPlayerChat js →
      observe Behaviors.Bot.step Behaviors.Bot.emitted bot is
          = observe Behaviors.Bot.step Behaviors.Bot.emitted bot js ∧
        (run Behaviors.Bot.step bot is).silent = (run Behaviors.Bot.step bot js).silent := by
  constructor
  · have hstate : (run Client.step (.init config) is).silent
        = (run Client.step (.init config) js).silent := by
      rw [Client.blind.run_erase, Client.blind.run_erase _ js, h]
    have hclean := (Client.effects_erase_iff (.init config) js).mpr hjs
    have hiff := Client.effects_erase_iff (.init config) is
    rw [h, ← hclean] at hiff
    simpa [hstate] using hiff
  · intro bot is js herase
    constructor
    · rw [bot.emitted_erase is, bot.emitted_erase js, herase]
    · rw [Behaviors.Bot.blind.run_erase, Behaviors.Bot.blind.run_erase _ js, herase]

/-- A player who greets is not noticed. -/
theorem player_chat_inert_greeting :
    observe Client.step Client.effects (.init Client.sampleConfig)
        [.connect, .line 0 .spawn, .line 0 (.chat (some "§aSteve") "in 5s restart der Welt?")]
      = observe Client.step Client.effects (.init Client.sampleConfig) [.connect, .line 0 .spawn] :=
  (((player_chat_inert Client.sampleConfig _ _ (by decide) (by decide)).1).mpr (by decide)).1

/-- A player's text is booked as a sale of 100 dollars. -/
theorem player_chat_books_earning :
    ¬ ∀ (config : ClientRuntimeConfig) (is js : List Client.Input),
      erase Client.isPlayerChat is = erase Client.isPlayerChat js →
      observe Client.step Client.effects (.init config) is
        = observe Client.step Client.effects (.init config) js := by
  intro h
  have hsame := h Client.sampleConfig
    [.connect, .line 0 .spawn, .line 0 (.chat (some "Steve") "verkauft für $100")]
    [.connect, .line 0 .spawn] (by decide)
  exact absurd hsame (by decide)

end AfkClient
