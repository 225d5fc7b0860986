import OpenSesame.App.Run

/-!
# The action protocol of `handle_event`

Every transition does nothing visible and returns no action, moves between live states and asks
for a redraw, or enters `Exiting` and asks the loop to exit.
-/

namespace OpenSesame

namespace AppState

/-- The state unchanged, or only the border phase's frame count moved. -/
def Quiet (s s' : AppState) : Prop :=
  s' = s ∨ ∃ start_time frame_count, s = .borderOnly start_time frame_count ∧ s' = .borderOnly start_time (frame_count + 1)

def Shape (s : AppState) (t : Transition) : Prop :=
  (t.actions = [] ∧ Quiet s t.newState) ∨
  (t.actions = [.scheduleRedraw] ∧ s.isExiting = false ∧ t.newState.isExiting = false) ∨
  (t.actions = [.exit] ∧ s.isExiting = false ∧ t.newState.isExiting = true)

variable (L : Lowercase) (config : Config) (hints : List WindowHint)
  (previous_window_id : Option String) (now : Instant)

theorem borderOnlyKeyPress_shape (st : Instant) (fc : UInt32) (keysym : Keysym) (shift : Bool) :
    Shape (.borderOnly st fc) (borderOnlyKeyPress L config hints now keysym shift) := by
  refine borderOnlyKeyPress_elim L config hints now ?_ ?_ ?_ ?_ ?_ ?_ <;> intros <;>
    simp [Shape, isExiting]

theorem fullOverlayKeyPress_shape (sel : Nat) (input : String) (keysym : Keysym) (shift : Bool) :
    Shape (.fullOverlay sel input) (fullOverlayKeyPress L config hints now sel input keysym shift) := by
  refine fullOverlayKeyPress_elim L config hints now ?_ ?_ ?_ ?_ ?_ ?_ ?_ ?_ <;> intros <;>
    simp [Shape, isExiting, Quiet]

theorem pendingKeyPress_shape (i : Nat) (input : String) (timeout : TimeoutTracker) (keysym : Keysym) :
    Shape (.pendingActivation i input timeout)
      (pendingKeyPress L config hints now i input timeout keysym) := by
  refine pendingKeyPress_elim L config hints now ?_ ?_ ?_ ?_ ?_ <;> intros <;>
    simp [Shape, isExiting, Quiet]

theorem handleEvent_shape (s : AppState) (e : Event) :
    Shape s (s.handleEvent L config hints previous_window_id now e) := by
  cases s with
  | borderOnly st fc =>
    cases e <;> simp only [handleEvent, borderOnlyEvent]
    case keyPress keysym shift => exact borderOnlyKeyPress_shape L config hints now st fc keysym shift
    case frameCallback => exact .inl ⟨rfl, .inr ⟨st, fc, rfl, rfl⟩⟩
    all_goals (try split_ifs) <;> simp [Shape, isExiting, Quiet]
  | fullOverlay sel input =>
    cases e <;> simp only [handleEvent, fullOverlayEvent]
    case keyPress keysym shift => exact fullOverlayKeyPress_shape L config hints now sel input keysym shift
    all_goals simp [Shape, isExiting, Quiet]
  | pendingActivation i input timeout =>
    cases e <;> simp only [handleEvent, pendingEvent]
    case keyPress keysym _ => exact pendingKeyPress_shape L config hints now i input timeout keysym
    all_goals (try split_ifs) <;> simp [Shape, isExiting, Quiet]
  | exiting result => simp [handleEvent, Shape, Quiet]


/-- The full overlay or the border, the highlighted index, the typed input. -/
def view (s : AppState) : Bool × Nat × String := (s.isFullOverlay, s.selectedHintIndex, s.input)

theorem Quiet.view_eq {s s' : AppState} (h : Quiet s s') : s'.view = s.view := by
  rcases h with rfl | ⟨st, fc, rfl, rfl⟩ <;> rfl

theorem Quiet.isExiting_eq {s s' : AppState} (h : Quiet s s') : s'.isExiting = s.isExiting := by
  rcases h with rfl | ⟨st, fc, rfl, rfl⟩ <;> rfl

@[simp] theorem exiting_handleEvent (result : ActivationResult) (e : Event) :
    (exiting result).handleEvent L config hints previous_window_id now e = ⟨exiting result, []⟩ :=
  rfl

theorem run_exiting (result : ActivationResult) (events : List (Event × Instant)) :
    run L config hints previous_window_id (exiting result) events = exiting result := by
  induction events with
  | nil => rfl
  | cons x rest ih => exact ih

/-- `Exit` is returned exactly on entering `Exiting`, which absorbs every event, and a change of
what is drawn comes with an action. -/
theorem handleEvent_action_protocol (s : AppState) (e : Event) :
    let t := s.handleEvent L config hints previous_window_id now e
    (Action.exit ∈ t.actions ↔ s.isExiting = false ∧ t.newState.isExiting = true) ∧
    (s.isExiting = true → t.newState = s ∧ t.actions = []) ∧
    (t.newState.view ≠ s.view → t.actions ≠ []) ∧
    (s.isExiting = true → ∀ events, run L config hints previous_window_id s events = s) := by
  intro t
  have absorbing : s.isExiting = true → t.newState = s ∧ t.actions = [] := by
    cases s <;> simp [isExiting, t]
  refine ⟨?_, absorbing, ?_, ?_⟩
  · rcases handleEvent_shape L config hints previous_window_id now s e with
      ⟨ha, hq⟩ | ⟨ha, -, h⟩ | ⟨ha, h⟩
    · simp [t, ha, hq.isExiting_eq]
    · simp [t, ha, h]
    · simp [t, ha, h]
  · rcases handleEvent_shape L config hints previous_window_id now s e with
      ⟨-, hq⟩ | ⟨ha, -⟩ | ⟨ha, -⟩
    · exact fun h => absurd hq.view_eq h
    all_goals simp [t, ha]
  · intro h events
    cases s <;> simp_all [isExiting, run_exiting]

end AppState

end OpenSesame
