import OpenSesame.Core.Matcher
import OpenSesame.Config.Schema

/-!
# The lifecycle state machine

`app/state.rs`: `AppState::handle_event` as a pure function of the state, the event and the
instant it is handled at; one function for each state's arms, and an event with no arm leaves
the state unchanged.
-/

namespace OpenSesame

/-- An X keysym, the `u32` of `Keysym::raw`. -/
structure Keysym where
  raw : UInt32
deriving DecidableEq, Repr

/-! The X keysyms the state machine tests for, with their X11 values. -/

namespace Keysym

def Tab : Keysym := ⟨0xff09⟩
def ISO_Left_Tab : Keysym := ⟨0xfe20⟩
def Escape : Keysym := ⟨0xff1b⟩
def Return : Keysym := ⟨0xff0d⟩
def KP_Enter : Keysym := ⟨0xff8d⟩
def BackSpace : Keysym := ⟨0xff08⟩
def Down : Keysym := ⟨0xff54⟩
def KP_Down : Keysym := ⟨0xff99⟩
def Up : Keysym := ⟨0xff52⟩
def KP_Up : Keysym := ⟨0xff97⟩

end Keysym

inductive Event where
  | keyPress (keysym : Keysym) (shift : Bool)
  | altReleased
  | tick
  | frameCallback
  | cycleForward
  | cycleBackward
  | configure (width height : UInt32)
deriving DecidableEq, Repr

inductive Action where
  | scheduleRedraw
  | exit
deriving DecidableEq, Repr

inductive ActivationResult where
  | window (index : Nat)
  | quickSwitch
  | launch (key : String)
  | cancelled
deriving DecidableEq, Repr

inductive AppState where
  | borderOnly (startTime : Instant) (frameCount : UInt32)
  | fullOverlay (selectedHintIndex : Nat) (input : String)
  | pendingActivation (hintIndex : Nat) (input : String) (timeout : TimeoutTracker)
  | exiting (result : ActivationResult)
deriving DecidableEq, Repr

structure Transition where
  newState : AppState
  actions : List Action
deriving DecidableEq, Repr

def isTab (keysym : Keysym) : Bool :=
  keysym == Keysym.Tab || keysym == Keysym.ISO_Left_Tab || keysym.raw == 0xff09 ||
    keysym.raw == 0xfe20

def cycleIndex (current len : Nat) (forward : Bool) : Nat :=
  if len = 0 then 0
  else if forward then (current + 1) % len
  else if current = 0 then len - 1
  else current - 1

/-- `cycle_index` with overflow checks; `none` is the panic. -/
def cycleIndexChecked (current len : Nat) (forward : Bool) : Option Nat :=
  if len = 0 then some 0
  else if forward then (usizeCheckedAdd current 1).map (· % len)
  else if current = 0 then usizeCheckedSub len 1
  else usizeCheckedSub current 1

def keysymToChar (keysym : Keysym) : Option Char :=
  if 0x20 ≤ keysym.raw ∧ keysym.raw ≤ 0x7e then some (Char.ofNat keysym.raw.toNat) else none

theorem ne_of_keysymToChar {keysym : Keysym} {c : Char} (h : keysymToChar keysym = some c)
    {k : Keysym} (hk : 0x7e < k.raw) : keysym ≠ k := by
  unfold keysymToChar at h
  split_ifs at h with hr
  rintro rfl
  exact absurd hr.2 (by simpa using hk)

theorem isTab_of_keysymToChar {keysym : Keysym} {c : Char} (h : keysymToChar keysym = some c) :
    isTab keysym = false := by
  have h1 := ne_of_keysymToChar h (k := Keysym.Tab) (by decide)
  have h2 := ne_of_keysymToChar h (k := Keysym.ISO_Left_Tab) (by decide)
  have h3 : keysym.raw ≠ 0xff09 := fun hr => h1 (by cases keysym; simp_all [Keysym.Tab])
  have h4 : keysym.raw ≠ 0xfe20 := fun hr => h2 (by cases keysym; simp_all [Keysym.ISO_Left_Tab])
  simp [isTab, h1, h2, h3, h4]

/-- The position of the previous window among the hints, else `0`. -/
def previousPosition (hints : List WindowHint) (previous_window_id : Option String) : Nat :=
  (previous_window_id.bind fun prev_id => hints.findIdx? fun h => h.windowId = prev_id).getD 0

namespace AppState

def initial (launcher_mode : Bool) (hints : List WindowHint) (previous_window_id : Option String)
    (now : Instant) : AppState :=
  if launcher_mode then .fullOverlay (previousPosition hints previous_window_id) ""
  else .borderOnly now 0

section Transitions

variable (L : Lowercase) (config : Config) (hints : List WindowHint)
  (previous_window_id : Option String) (now : Instant)

def startedTimeout : TimeoutTracker :=
  (TimeoutTracker.new config.settings.activationDelay).start now

def quickSwitchResult (start_time : Instant) : ActivationResult :=
  if Instant.elapsed start_time now < Duration.fromMillis config.settings.quickSwitchThreshold then
    match previous_window_id with
    | some prev_id =>
      match hints.enum.find? fun ih => ih.2.windowId = prev_id with
      | some (idx, _) => .window idx
      | none => .window 0
    | none => .quickSwitch
  else .window 0

def borderOnlyKeyPress (keysym : Keysym) (shift : Bool) : Transition :=
  if isTab keysym then
    let idx := if shift then hints.length - 1 else min 1 (hints.length - 1)
    ⟨.fullOverlay idx "", [.scheduleRedraw]⟩
  else if keysym = Keysym.Escape then ⟨.exiting .cancelled, [.exit]⟩
  else
    match keysymToChar keysym with
    | some c =>
      let input := c.toString
      match HintMatcher.matchInput L hints input with
      | .exact index _ => ⟨.pendingActivation index input (startedTimeout config now), [.scheduleRedraw]⟩
      | .partialMatch _ => ⟨.fullOverlay 0 input, [.scheduleRedraw]⟩
      | .none =>
        let key_str := c.toString
        if (config.launchConfig key_str).isSome then ⟨.exiting (.launch key_str), [.exit]⟩
        else ⟨.fullOverlay 0 "", [.scheduleRedraw]⟩
    | none => ⟨.fullOverlay 0 "", [.scheduleRedraw]⟩

theorem borderOnlyKeyPress_elim {P : Transition → Prop} {keysym : Keysym} {shift : Bool}
    (onTab : P ⟨.fullOverlay (if shift then hints.length - 1 else min 1 (hints.length - 1)) "",
      [.scheduleRedraw]⟩)
    (onEscape : P ⟨.exiting .cancelled, [.exit]⟩)
    (onExact : ∀ c index w, keysymToChar keysym = some c →
      HintMatcher.matchInput L hints c.toString = .exact index w →
      P ⟨.pendingActivation index c.toString (startedTimeout config now), [.scheduleRedraw]⟩)
    (onPartial : ∀ c indices, keysymToChar keysym = some c →
      HintMatcher.matchInput L hints c.toString = .partialMatch indices →
      P ⟨.fullOverlay 0 c.toString, [.scheduleRedraw]⟩)
    (onLaunch : ∀ c, keysymToChar keysym = some c → HintMatcher.matchInput L hints c.toString = .none →
      (config.launchConfig c.toString).isSome → P ⟨.exiting (.launch c.toString), [.exit]⟩)
    (onOther : P ⟨.fullOverlay 0 "", [.scheduleRedraw]⟩) :
    P (borderOnlyKeyPress L config hints now keysym shift) := by
  unfold borderOnlyKeyPress; dsimp only
  by_cases htab : isTab keysym
  · rw [if_pos htab]; exact onTab
  rw [if_neg htab]
  split; · exact onEscape
  split
  · rename_i c hc
    split
    · exact onExact _ _ _ hc ‹_›
    · exact onPartial _ _ hc ‹_›
    · split
      · exact onLaunch _ hc ‹_› ‹_›
      · exact onOther
  · exact onOther

theorem borderOnlyKeyPress_exact {keysym : Keysym} {shift : Bool} {c : Char} {index : Nat}
    {w : String} (hc : keysymToChar keysym = some c)
    (hm : HintMatcher.matchInput L hints c.toString = .exact index w) :
    borderOnlyKeyPress L config hints now keysym shift =
      ⟨.pendingActivation index c.toString (startedTimeout config now), [.scheduleRedraw]⟩ := by
  simp (disch := decide) only [borderOnlyKeyPress, isTab_of_keysymToChar hc, ne_of_keysymToChar hc,
    hc, hm, Bool.false_eq_true, if_false]

def borderOnlyEvent (start_time : Instant) (frame_count : UInt32) : Event → Transition
  | .frameCallback => ⟨.borderOnly start_time (frame_count + 1), []⟩
  | .tick =>
    if Duration.fromMillis config.settings.overlayDelay ≤ Instant.elapsed start_time now ∧
        2 ≤ frame_count then
      ⟨.fullOverlay (previousPosition hints previous_window_id) "", [.scheduleRedraw]⟩
    else ⟨.borderOnly start_time frame_count, []⟩
  | .altReleased =>
    ⟨.exiting (quickSwitchResult config hints previous_window_id now start_time), [.exit]⟩
  | .keyPress keysym shift => borderOnlyKeyPress L config hints now keysym shift
  | .cycleForward => ⟨.fullOverlay (min 1 (hints.length - 1)) "", [.scheduleRedraw]⟩
  | .cycleBackward => ⟨.fullOverlay (hints.length - 1) "", [.scheduleRedraw]⟩
  | .configure .. => ⟨.borderOnly start_time frame_count, []⟩

/-- The `KeyPress` arms of `FullOverlay`, in the source's order. -/
def fullOverlayKeyPress (selected_hint_index : Nat) (input : String) (keysym : Keysym)
    (shift : Bool) : Transition :=
  if isTab keysym then
    ⟨.fullOverlay (cycleIndex selected_hint_index hints.length !shift) input, [.scheduleRedraw]⟩
  else if keysym = Keysym.Down ∨ keysym = Keysym.KP_Down then
    ⟨.fullOverlay (cycleIndex selected_hint_index hints.length true) input, [.scheduleRedraw]⟩
  else if keysym = Keysym.Up ∨ keysym = Keysym.KP_Up then
    ⟨.fullOverlay (cycleIndex selected_hint_index hints.length false) input, [.scheduleRedraw]⟩
  else if keysym = Keysym.Return ∨ keysym = Keysym.KP_Enter then
    ⟨.exiting (.window selected_hint_index), [.exit]⟩
  else if keysym = Keysym.Escape then ⟨.exiting .cancelled, [.exit]⟩
  else if keysym = Keysym.BackSpace then
    ⟨.fullOverlay selected_hint_index (popLast input), [.scheduleRedraw]⟩
  else
    match keysymToChar keysym with
    | some c =>
      let new_input := input.push c
      match HintMatcher.matchInput L hints new_input with
      | .exact index _ =>
        ⟨.pendingActivation index new_input (startedTimeout config now), [.scheduleRedraw]⟩
      | .partialMatch _ => ⟨.fullOverlay selected_hint_index new_input, [.scheduleRedraw]⟩
      | .none =>
        let key_str := c.toString
        if (config.launchConfig key_str).isSome then ⟨.exiting (.launch key_str), [.exit]⟩
        else ⟨.fullOverlay selected_hint_index input, []⟩
    | none => ⟨.fullOverlay selected_hint_index input, []⟩

theorem fullOverlayKeyPress_elim {P : Transition → Prop} {selected_hint_index : Nat}
    {input : String} {keysym : Keysym} {shift : Bool}
    (onCycle : ∀ forward, P ⟨.fullOverlay (cycleIndex selected_hint_index hints.length forward) input,
      [.scheduleRedraw]⟩)
    (onEnter : P ⟨.exiting (.window selected_hint_index), [.exit]⟩)
    (onEscape : P ⟨.exiting .cancelled, [.exit]⟩)
    (onBackSpace : P ⟨.fullOverlay selected_hint_index (popLast input), [.scheduleRedraw]⟩)
    (onExact : ∀ c index w, keysymToChar keysym = some c →
      HintMatcher.matchInput L hints (input.push c) = .exact index w →
      P ⟨.pendingActivation index (input.push c) (startedTimeout config now), [.scheduleRedraw]⟩)
    (onPartial : ∀ c indices, keysymToChar keysym = some c →
      HintMatcher.matchInput L hints (input.push c) = .partialMatch indices →
      P ⟨.fullOverlay selected_hint_index (input.push c), [.scheduleRedraw]⟩)
    (onLaunch : ∀ c, keysymToChar keysym = some c →
      HintMatcher.matchInput L hints (input.push c) = .none → (config.launchConfig c.toString).isSome →
      P ⟨.exiting (.launch c.toString), [.exit]⟩)
    (onIgnored : P ⟨.fullOverlay selected_hint_index input, []⟩) :
    P (fullOverlayKeyPress L config hints now selected_hint_index input keysym shift) := by
  unfold fullOverlayKeyPress; dsimp only
  by_cases h₁ : isTab keysym
  · rw [if_pos h₁]; exact onCycle _
  by_cases h₂ : keysym = Keysym.Down ∨ keysym = Keysym.KP_Down
  · rw [if_neg h₁, if_pos h₂]; exact onCycle _
  by_cases h₃ : keysym = Keysym.Up ∨ keysym = Keysym.KP_Up
  · rw [if_neg h₁, if_neg h₂, if_pos h₃]; exact onCycle _
  by_cases h₄ : keysym = Keysym.Return ∨ keysym = Keysym.KP_Enter
  · rw [if_neg h₁, if_neg h₂, if_neg h₃, if_pos h₄]; exact onEnter
  by_cases h₅ : keysym = Keysym.Escape
  · rw [if_neg h₁, if_neg h₂, if_neg h₃, if_neg h₄, if_pos h₅]; exact onEscape
  by_cases h₆ : keysym = Keysym.BackSpace
  · rw [if_neg h₁, if_neg h₂, if_neg h₃, if_neg h₄, if_neg h₅, if_pos h₆]; exact onBackSpace
  rw [if_neg h₁, if_neg h₂, if_neg h₃, if_neg h₄, if_neg h₅, if_neg h₆]
  split
  · rename_i c hc
    split
    · exact onExact _ _ _ hc ‹_›
    · exact onPartial _ _ hc ‹_›
    · split
      · exact onLaunch _ hc ‹_› ‹_›
      · exact onIgnored
  · exact onIgnored

theorem fullOverlayKeyPress_exact {sel : Nat} {input : String} {keysym : Keysym} {shift : Bool}
    {c : Char} {index : Nat} {w : String} (hc : keysymToChar keysym = some c)
    (hm : HintMatcher.matchInput L hints (input.push c) = .exact index w) :
    fullOverlayKeyPress L config hints now sel input keysym shift =
      ⟨.pendingActivation index (input.push c) (startedTimeout config now), [.scheduleRedraw]⟩ := by
  simp (disch := decide) only [fullOverlayKeyPress, isTab_of_keysymToChar hc, ne_of_keysymToChar hc,
    hc, hm, Bool.false_eq_true, if_false, or_self]

def fullOverlayEvent (selected_hint_index : Nat) (input : String) : Event → Transition
  | .keyPress keysym shift => fullOverlayKeyPress L config hints now selected_hint_index input keysym shift
  | .altReleased => ⟨.exiting (.window selected_hint_index), [.exit]⟩
  | .cycleForward =>
    ⟨.fullOverlay (cycleIndex selected_hint_index hints.length true) input, [.scheduleRedraw]⟩
  | .cycleBackward =>
    ⟨.fullOverlay (cycleIndex selected_hint_index hints.length false) input, [.scheduleRedraw]⟩
  | .tick | .frameCallback | .configure .. => ⟨.fullOverlay selected_hint_index input, []⟩

def pendingKeyPress (hint_index : Nat) (input : String) (timeout : TimeoutTracker)
    (keysym : Keysym) : Transition :=
  match keysymToChar keysym with
  | some c =>
    let new_input := input.push c
    match HintMatcher.matchInput L hints new_input with
    | .exact index _ =>
      ⟨.pendingActivation index new_input (startedTimeout config now), [.scheduleRedraw]⟩
    | .partialMatch _ => ⟨.fullOverlay hint_index new_input, [.scheduleRedraw]⟩
    | .none => ⟨.pendingActivation hint_index input timeout, []⟩
  | none =>
    if keysym = Keysym.Escape then ⟨.exiting .cancelled, [.exit]⟩
    else if keysym = Keysym.BackSpace then
      ⟨.fullOverlay hint_index (popLast input), [.scheduleRedraw]⟩
    else ⟨.pendingActivation hint_index input timeout, []⟩

theorem pendingKeyPress_elim {P : Transition → Prop} {hint_index : Nat} {input : String}
    {timeout : TimeoutTracker} {keysym : Keysym}
    (onExact : ∀ c index w, keysymToChar keysym = some c →
      HintMatcher.matchInput L hints (input.push c) = .exact index w →
      P ⟨.pendingActivation index (input.push c) (startedTimeout config now), [.scheduleRedraw]⟩)
    (onPartial : ∀ c indices, keysymToChar keysym = some c →
      HintMatcher.matchInput L hints (input.push c) = .partialMatch indices →
      P ⟨.fullOverlay hint_index (input.push c), [.scheduleRedraw]⟩)
    (onEscape : P ⟨.exiting .cancelled, [.exit]⟩)
    (onBackSpace : P ⟨.fullOverlay hint_index (popLast input), [.scheduleRedraw]⟩)
    (onIgnored : (∀ c, keysymToChar keysym = some c →
      HintMatcher.matchInput L hints (input.push c) = .none) →
      P ⟨.pendingActivation hint_index input timeout, []⟩) :
    P (pendingKeyPress L config hints now hint_index input timeout keysym) := by
  unfold pendingKeyPress; dsimp only
  split
  · rename_i c hc
    split
    · exact onExact _ _ _ hc ‹_›
    · exact onPartial _ _ hc ‹_›
    · exact onIgnored fun c' hc' => by rwa [← Option.some.inj (hc.symm.trans hc')]
  · rename_i hc
    split; · exact onEscape
    split; · exact onBackSpace
    exact onIgnored fun c' hc' => by simp [hc] at hc'

theorem pendingKeyPress_exact {j : Nat} {input : String} {timeout : TimeoutTracker}
    {keysym : Keysym} {c : Char} {index : Nat} {w : String} (hc : keysymToChar keysym = some c)
    (hm : HintMatcher.matchInput L hints (input.push c) = .exact index w) :
    pendingKeyPress L config hints now j input timeout keysym =
      ⟨.pendingActivation index (input.push c) (startedTimeout config now), [.scheduleRedraw]⟩ := by
  simp only [pendingKeyPress, hc, hm]

def pendingEvent (hint_index : Nat) (input : String) (timeout : TimeoutTracker) :
    Event → Transition
  | .tick =>
    if timeout.hasElapsed now then ⟨.exiting (.window hint_index), [.exit]⟩
    else ⟨.pendingActivation hint_index input timeout, []⟩
  | .keyPress keysym _ => pendingKeyPress L config hints now hint_index input timeout keysym
  | .altReleased => ⟨.exiting (.window hint_index), [.exit]⟩
  | .frameCallback | .cycleForward | .cycleBackward | .configure .. =>
    ⟨.pendingActivation hint_index input timeout, []⟩

def handleEvent : AppState → Event → Transition
  | .borderOnly start_time frame_count, e =>
    borderOnlyEvent L config hints previous_window_id now start_time frame_count e
  | .fullOverlay selected_hint_index input, e =>
    fullOverlayEvent L config hints now selected_hint_index input e
  | .pendingActivation hint_index input timeout, e =>
    pendingEvent L config hints now hint_index input timeout e
  | .exiting result, _ => ⟨.exiting result, []⟩

end Transitions

def selectedHintIndex : AppState → Nat
  | .fullOverlay selected_hint_index _ => selected_hint_index
  | .pendingActivation hint_index _ _ => hint_index
  | _ => 0

def input : AppState → String
  | .fullOverlay _ input => input
  | .pendingActivation _ input _ => input
  | _ => ""

def isFullOverlay : AppState → Bool
  | .fullOverlay .. | .pendingActivation .. => true
  | _ => false

def isExiting : AppState → Bool
  | .exiting _ => true
  | _ => false

def activationResult : AppState → Option ActivationResult
  | .exiting result => some result
  | _ => none

end AppState

end OpenSesame
