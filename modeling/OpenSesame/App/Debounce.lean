import OpenSesame.App.Run

/-!
# The activation debounce

A pending activation waits `activation_delay` so that a longer hint can still be typed. Over
every run from `initial`, its timer was started by the last key press that matched exactly, at
that press, and its index is the one that press matched.
-/

namespace OpenSesame

namespace AppState

section
variable (L : Lowercase) (hints : List WindowHint)

/-- The index a key press matches exactly in a live state: the press that starts, or restarts, the
timer. -/
def exactMatchOf (s : AppState) : Event → Option Nat
  | .keyPress keysym _ =>
    if s.isExiting then none
    else (keysymToChar keysym).bind fun c =>
      match HintMatcher.matchInput L hints (s.input.push c) with
      | .exact index _ => some index
      | _ => none
  | _ => none

variable (config : Config) (previous_window_id : Option String)

def NoExactPress (s : AppState) : List (Event × Instant) → Prop
  | [] => True
  | (e, now) :: rest => exactMatchOf L hints s e = none ∧
    NoExactPress (s.handleEvent L config hints previous_window_id now e).newState rest

theorem noExactPress_append_singleton (s : AppState) (events : List (Event × Instant))
    (e : Event) (now : Instant) :
    NoExactPress L hints config previous_window_id s (events ++ [(e, now)]) ↔
      NoExactPress L hints config previous_window_id s events ∧
        exactMatchOf L hints (run L config hints previous_window_id s events) e = none := by
  induction events generalizing s with
  | nil => simp [NoExactPress]
  | cons x rest ih =>
    obtain ⟨e', now'⟩ := x
    simp [NoExactPress, ih, and_assoc]

end

section
variable (L : Lowercase) (config : Config) (hints : List WindowHint)
  (previous_window_id : Option String) (now : Instant)

/-! Each state's handler enters `PendingActivation` only on an exact match, with the timer
started at the instant of the press; a pending activation that stays one is unchanged. -/

theorem borderOnlyKeyPress_pending {st : Instant} {fc : UInt32} {keysym : Keysym} {shift : Bool}
    {i : Nat} {inp : String} {timeout : TimeoutTracker}
    (h : (borderOnlyKeyPress L config hints now keysym shift).newState =
      .pendingActivation i inp timeout) :
    exactMatchOf L hints (.borderOnly st fc) (.keyPress keysym shift) = some i ∧
      timeout = startedTimeout config now := by
  refine borderOnlyKeyPress_elim (P := fun t => t.newState = .pendingActivation i inp timeout →
      exactMatchOf L hints (.borderOnly st fc) (.keyPress keysym shift) = some i ∧
        timeout = startedTimeout config now) L config hints now ?_ ?_ ?onExact ?_ ?_ ?_ h
  case onExact =>
    intro _ _ _ hc hm h
    obtain ⟨rfl, -, rfl⟩ := AppState.pendingActivation.inj h
    simp [exactMatchOf, isExiting, input, hc, hm]
  all_goals dsimp only; intros; contradiction

theorem fullOverlayKeyPress_pending {sel : Nat} {input : String} {keysym : Keysym} {shift : Bool}
    {i : Nat} {inp : String} {timeout : TimeoutTracker}
    (h : (fullOverlayKeyPress L config hints now sel input keysym shift).newState =
      .pendingActivation i inp timeout) :
    exactMatchOf L hints (.fullOverlay sel input) (.keyPress keysym shift) = some i ∧
      timeout = startedTimeout config now := by
  refine fullOverlayKeyPress_elim (P := fun t => t.newState = .pendingActivation i inp timeout →
      exactMatchOf L hints (.fullOverlay sel input) (.keyPress keysym shift) = some i ∧
        timeout = startedTimeout config now) L config hints now ?_ ?_ ?_ ?_ ?onExact ?_ ?_ ?_ h
  case onExact =>
    intro _ _ _ hc hm h
    obtain ⟨rfl, -, rfl⟩ := AppState.pendingActivation.inj h
    simp [exactMatchOf, isExiting, AppState.input, hc, hm]
  all_goals dsimp only; intros; contradiction

theorem pendingKeyPress_pending {j : Nat} {input : String} {timeout₀ : TimeoutTracker}
    {keysym : Keysym} {shift : Bool} {i : Nat} {inp : String} {timeout : TimeoutTracker}
    (h : (pendingKeyPress L config hints now j input timeout₀ keysym).newState =
      .pendingActivation i inp timeout) :
    (exactMatchOf L hints (.pendingActivation j input timeout₀) (.keyPress keysym shift) = some i ∧
      timeout = startedTimeout config now) ∨
    (exactMatchOf L hints (.pendingActivation j input timeout₀) (.keyPress keysym shift) = none ∧
      AppState.pendingActivation j input timeout₀ = .pendingActivation i inp timeout) := by
  refine pendingKeyPress_elim (P := fun t => t.newState = .pendingActivation i inp timeout →
      (exactMatchOf L hints (.pendingActivation j input timeout₀) (.keyPress keysym shift) = some i ∧
        timeout = startedTimeout config now) ∨
      (exactMatchOf L hints (.pendingActivation j input timeout₀) (.keyPress keysym shift) = none ∧
        AppState.pendingActivation j input timeout₀ = .pendingActivation i inp timeout))
    L config hints now ?onExact ?_ ?_ ?_ ?onIgnored h
  case onExact =>
    intro _ _ _ hc hm h
    obtain ⟨rfl, -, rfl⟩ := AppState.pendingActivation.inj h
    exact .inl ⟨by simp [exactMatchOf, isExiting, AppState.input, hc, hm], rfl⟩
  case onIgnored =>
    intro hnone h
    refine .inr ⟨?_, h⟩
    cases hc : keysymToChar keysym <;> simp [exactMatchOf, isExiting, AppState.input, hc, hnone]
  all_goals dsimp only; intros; contradiction

theorem handleEvent_pending {s : AppState} {e : Event} {i : Nat} {inp : String}
    {timeout : TimeoutTracker}
    (h : (s.handleEvent L config hints previous_window_id now e).newState =
      .pendingActivation i inp timeout) :
    (exactMatchOf L hints s e = some i ∧ timeout = startedTimeout config now) ∨
      (exactMatchOf L hints s e = none ∧ s = .pendingActivation i inp timeout) := by
  cases s with
  | borderOnly st fc =>
    cases e <;> simp only [handleEvent, borderOnlyEvent] at h
    case keyPress keysym shift => exact .inl (borderOnlyKeyPress_pending L config hints now h)
    all_goals (try split_ifs at h) <;> cases h
  | fullOverlay sel input =>
    cases e <;> simp only [handleEvent, fullOverlayEvent] at h
    case keyPress keysym shift => exact .inl (fullOverlayKeyPress_pending L config hints now h)
    all_goals cases h
  | pendingActivation j input timeout₀ =>
    cases e <;> simp only [handleEvent, pendingEvent] at h
    case keyPress keysym shift => exact pendingKeyPress_pending L config hints now h
    all_goals ((try split_ifs at h); first | exact .inr ⟨rfl, h⟩ | cases h)
  | exiting result => cases h

end

section
variable (L : Lowercase) (config : Config) (hints : List WindowHint)
  (previous_window_id : Option String)

theorem run_pending_lastExactPress (launcher_mode : Bool) (start : Instant)
    (history : List (Event × Instant)) {i : Nat} {inp : String} {timeout : TimeoutTracker}
    (hrun : run L config hints previous_window_id
      (initial launcher_mode hints previous_window_id start) history =
        .pendingActivation i inp timeout) :
    ∃ before press tm after, history = before ++ (press, tm) :: after ∧
      exactMatchOf L hints (run L config hints previous_window_id
        (initial launcher_mode hints previous_window_id start) before) press = some i ∧
      NoExactPress L hints config previous_window_id (run L config hints previous_window_id
        (initial launcher_mode hints previous_window_id start) (before ++ [(press, tm)])) after ∧
      timeout = startedTimeout config tm := by
  induction history using List.reverseRecOn generalizing i inp timeout with
  | nil => cases launcher_mode <;> cases hrun
  | append_singleton history x ih =>
    obtain ⟨e, now⟩ := x
    rw [run_append] at hrun
    rcases handleEvent_pending L config hints previous_window_id now hrun with
      ⟨hex, rfl⟩ | ⟨hnone, hs⟩
    · exact ⟨history, e, now, [], rfl, hex, trivial, rfl⟩
    · obtain ⟨before, press, tm, after, rfl, hpress, hafter, htm⟩ := ih hs
      refine ⟨before, press, tm, after ++ [(e, now)], by simp, hpress, ?_, htm⟩
      rw [noExactPress_append_singleton, ← run_append]
      exact ⟨hafter, by simpa [run_append] using hnone⟩

/-- What the debounce promises of a pending activation a run from `s₀` over `history` reaches. -/
structure Debounced (s₀ : AppState) (history : List (Event × Instant)) (i : Nat) (inp : String)
    (timeout : TimeoutTracker) : Prop where
  /-- Entered by the last exact-match press, at `tm`; a `Tick` activates `i` exactly once
  `activation_delay` has passed since `tm`. -/
  deadline : ∃ before press tm after, history = before ++ (press, tm) :: after ∧
    exactMatchOf L hints (run L config hints previous_window_id s₀ before) press = some i ∧
    NoExactPress L hints config previous_window_id
      (run L config hints previous_window_id s₀ (before ++ [(press, tm)])) after ∧
    ∀ now, ((AppState.pendingActivation i inp timeout).handleEvent L config hints
        previous_window_id now .tick).newState =
      if Duration.fromMillis config.settings.activationDelay ≤ now - tm then .exiting (.window i)
      else .pendingActivation i inp timeout
  /-- Unmatched keystrokes, and keys with no character but Escape and BackSpace, neither postpone
  nor cancel it. -/
  ignores_unmatched : ∀ now keysym shift, keysym ≠ Keysym.Escape → keysym ≠ Keysym.BackSpace →
    (∀ c, keysymToChar keysym = some c → HintMatcher.matchInput L hints (inp.push c) = .none) →
    (AppState.pendingActivation i inp timeout).handleEvent L config hints previous_window_id now
      (.keyPress keysym shift) = ⟨.pendingActivation i inp timeout, []⟩
  ignores_cycling : ∀ now,
    (AppState.pendingActivation i inp timeout).handleEvent L config hints previous_window_id now
      .cycleForward = ⟨.pendingActivation i inp timeout, []⟩ ∧
    (AppState.pendingActivation i inp timeout).handleEvent L config hints previous_window_id now
      .cycleBackward = ⟨.pendingActivation i inp timeout, []⟩

theorem run_pending_debounce (launcher_mode : Bool) (start : Instant)
    (history : List (Event × Instant)) {i : Nat} {inp : String} {timeout : TimeoutTracker}
    (hrun : run L config hints previous_window_id
      (initial launcher_mode hints previous_window_id start) history =
        .pendingActivation i inp timeout) :
    Debounced L config hints previous_window_id
      (initial launcher_mode hints previous_window_id start) history i inp timeout := by
  obtain ⟨before, press, tm, after, hh, hpress, hafter, rfl⟩ :=
    run_pending_lastExactPress L config hints previous_window_id launcher_mode start history hrun
  refine ⟨⟨before, press, tm, after, hh, hpress, hafter, fun now => ?_⟩, ?_, fun now => ⟨rfl, rfl⟩⟩
  · by_cases hd : Duration.fromMillis config.settings.activationDelay ≤ now - tm <;>
      simp [handleEvent, pendingEvent, startedTimeout, TimeoutTracker.new, hd]
  · intro now keysym shift hesc hbs hnone
    simp only [handleEvent, pendingEvent, pendingKeyPress]
    cases hc : keysymToChar keysym with
    | none => simp [hesc, hbs]
    | some c => simp [hnone c hc]

end

theorem run_pending_debounce_g_then_z :
    run .asciiOnly Config.default [⟨.new 'g' 1, "w0", "ghostty", "", 0⟩] none
        (initial false [⟨.new 'g' 1, "w0", "ghostty", "", 0⟩] none 0)
        [(.keyPress ⟨0x67⟩ false, 10), (.keyPress ⟨0x7a⟩ false, 20)] =
      .pendingActivation 0 "g" ⟨some 10, 200000000⟩ ∧
    Debounced .asciiOnly Config.default [⟨.new 'g' 1, "w0", "ghostty", "", 0⟩] none
      (initial false [⟨.new 'g' 1, "w0", "ghostty", "", 0⟩] none 0)
      [(.keyPress ⟨0x67⟩ false, 10), (.keyPress ⟨0x7a⟩ false, 20)] 0 "g" ⟨some 10, 200000000⟩ :=
  ⟨by decide, run_pending_debounce _ _ _ _ false 0 _ (by decide)⟩

end AppState

end OpenSesame
