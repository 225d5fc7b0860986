import OpenSesame.App.State

/-!
# Runs of the machine

`App::run` folds the events into the state from `initial` and resolves the `Exiting` result
into the index and window id that `main` activates. Every invariant is proved over
`Reachable`.
-/

namespace OpenSesame

/-- An index out of range falls back to the first hint; a launch is reported as `(usize::MAX, key)`.
-/
def resolveResult (hints : List WindowHint) (previous_window_id : Option String) :
    Option ActivationResult → Option (Nat × String)
  | some (.window idx) =>
    match hints[idx]? with
    | some hint => some (idx, hint.windowId)
    | none => hints.head?.map fun hint => (0, hint.windowId)
  | some .quickSwitch =>
    match previous_window_id.bind fun prev_id =>
        hints.enum.find? fun ih => ih.2.windowId = prev_id with
    | some (idx, hint) => some (idx, hint.windowId)
    | none => hints.head?.map fun hint => (0, hint.windowId)
  | some (.launch key) => some (usizeMax, key)
  | some .cancelled => none
  | none => none

namespace AppState

variable (L : Lowercase) (config : Config) (hints : List WindowHint)
  (previous_window_id : Option String)

def run : AppState → List (Event × Instant) → AppState
  | s, [] => s
  | s, (e, now) :: rest => run (s.handleEvent L config hints previous_window_id now e).newState rest

@[simp] theorem run_nil (s : AppState) : run L config hints previous_window_id s [] = s := rfl

@[simp] theorem run_cons (s : AppState) (e : Event) (now : Instant) (rest : List (Event × Instant)) :
    run L config hints previous_window_id s ((e, now) :: rest) =
      run L config hints previous_window_id
        (s.handleEvent L config hints previous_window_id now e).newState rest := rfl

theorem run_append (s : AppState) (xs ys : List (Event × Instant)) :
    run L config hints previous_window_id s (xs ++ ys) =
      run L config hints previous_window_id (run L config hints previous_window_id s xs) ys := by
  induction xs generalizing s with
  | nil => rfl
  | cons x xs ih => exact ih _

/-- The states some run reaches, from either mode and any start instant. -/
inductive Reachable : AppState → Prop
  | initial (launcher_mode : Bool) (now : Instant) :
      Reachable (initial launcher_mode hints previous_window_id now)
  | step {s : AppState} (e : Event) (now : Instant) :
      Reachable s → Reachable (s.handleEvent L config hints previous_window_id now e).newState

theorem Reachable.run {s : AppState} (hs : Reachable L config hints previous_window_id s)
    (events : List (Event × Instant)) :
    Reachable L config hints previous_window_id (run L config hints previous_window_id s events) := by
  induction events generalizing s with
  | nil => exact hs
  | cons x rest ih => exact ih (.step x.1 x.2 hs)

theorem reachable_run_initial (launcher_mode : Bool) (start : Instant)
    (events : List (Event × Instant)) :
    Reachable L config hints previous_window_id
      (run L config hints previous_window_id
        (initial launcher_mode hints previous_window_id start) events) :=
  (Reachable.initial launcher_mode start).run L config hints previous_window_id events

theorem find?_enum_windowId (hints : List WindowHint) (prev_id : String) :
    (hints.enum.find? fun ih => ih.2.windowId = prev_id).map (·.1) =
      hints.findIdx? fun h => h.windowId = prev_id := by
  rw [List.findIdx?_eq_fst_find?_enum]

/-- A quick Alt release resolves to the same window in launcher mode as in switcher mode. -/
theorem resolveResult_quick_release (start now : Instant)
    (h : now - start < Duration.fromMillis config.settings.quickSwitchThreshold) :
    resolveResult hints previous_window_id (run L config hints previous_window_id
        (initial true hints previous_window_id start) [(.altReleased, now)]).activationResult =
      resolveResult hints previous_window_id (run L config hints previous_window_id
        (initial false hints previous_window_id start) [(.altReleased, now)]).activationResult := by
  have launcher : run L config hints previous_window_id (initial true hints previous_window_id start)
      [(.altReleased, now)] = .exiting (.window (previousPosition hints previous_window_id)) := rfl
  have switcher : run L config hints previous_window_id (initial false hints previous_window_id start)
      [(.altReleased, now)] = .exiting (quickSwitchResult config hints previous_window_id now start) :=
    rfl
  rw [launcher, switcher]
  simp only [activationResult, quickSwitchResult, Instant.elapsed_eq, if_pos h, previousPosition]
  cases previous_window_id with
  | none => cases hints <;> simp [resolveResult]
  | some prev_id =>
    have hfind := find?_enum_windowId hints prev_id
    cases hf : hints.enum.find? fun ih => ih.2.windowId = prev_id with
    | none =>
      rw [hf] at hfind
      simp [← hfind, hf, resolveResult]
    | some jw =>
      rw [hf] at hfind
      obtain ⟨j, w⟩ := jw
      have hj : hints[j]? = some w := List.mem_enum_iff_getElem?.1 (List.mem_of_find?_eq_some hf)
      simp [← hfind, hf, hj, resolveResult]

theorem resolveResult_quick_release_to_w1 :
    (1 : Instant) - 0 < Duration.fromMillis Config.default.settings.quickSwitchThreshold ∧
    resolveResult [⟨.new 'f' 1, "w0", "firefox", "", 0⟩, ⟨.new 'g' 1, "w1", "ghostty", "", 1⟩]
        (some "w1") (run .asciiOnly Config.default
          [⟨.new 'f' 1, "w0", "firefox", "", 0⟩, ⟨.new 'g' 1, "w1", "ghostty", "", 1⟩] (some "w1")
          (initial true [⟨.new 'f' 1, "w0", "firefox", "", 0⟩, ⟨.new 'g' 1, "w1", "ghostty", "", 1⟩]
            (some "w1") 0) [(.altReleased, 1)]).activationResult =
      resolveResult [⟨.new 'f' 1, "w0", "firefox", "", 0⟩, ⟨.new 'g' 1, "w1", "ghostty", "", 1⟩]
        (some "w1") (run .asciiOnly Config.default
          [⟨.new 'f' 1, "w0", "firefox", "", 0⟩, ⟨.new 'g' 1, "w1", "ghostty", "", 1⟩] (some "w1")
          (initial false [⟨.new 'f' 1, "w0", "firefox", "", 0⟩, ⟨.new 'g' 1, "w1", "ghostty", "", 1⟩]
            (some "w1") 0) [(.altReleased, 1)]).activationResult :=
  ⟨by decide, resolveResult_quick_release _ _ _ _ 0 1 (by decide)⟩

end AppState

end OpenSesame
