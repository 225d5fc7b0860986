import OpenSesame.App.EventLoop
import OpenSesame.App.Protocol

/-!
# Drawing

`app/renderer.rs` and the drawing of `app/mod.rs`. `renders n` is the outcome of the `n`-th
render tried, so one `renders` fixes every outcome of a run. The loop with the renderer
projects onto the loop without it (`run_app`) and never shows a stale overlay (`run_fresh`).
-/

namespace OpenSesame

open Ipc IpcServer

/-- The pool and the frame count are left out. The scale is the integer factor
`scale_factor_changed` reports, which `set_scale`'s test `abs > 0.001` tells apart exactly. -/
structure Renderer where
  width : UInt32
  height : UInt32
  scale : Int
  needsRedraw : Bool
deriving DecidableEq, Repr

namespace Renderer

def new : Renderer := ⟨0, 0, 1, false⟩

def configure (r : Renderer) (width height : UInt32) : Renderer :=
  if r.width ≠ width ∨ r.height ≠ height then
    { r with width := width, height := height, needsRedraw := true }
  else r

def setScale (r : Renderer) (scale : Int) : Renderer :=
  if r.scale ≠ scale then { r with scale := scale, needsRedraw := true } else r

def scheduleRedraw (r : Renderer) : Renderer := { r with needsRedraw := true }

end Renderer

/-- The surface's size and scale, and the view of the state. -/
structure Frame where
  width : UInt32
  height : UInt32
  scale : Int
  view : Bool × Nat × String
deriving DecidableEq, Repr

/-- `attempts` counts the renders tried, and only indexes their outcomes. -/
structure Shell where
  app : App
  renderer : Renderer
  shown : Option Frame
  attempts : Nat

namespace Shell

section Loop

variable (L : Lowercase) (config : Config) (hints : List WindowHint)
  (previous_window_id : Option String) (renders : Nat → Bool)

def frame (s : Shell) : Frame :=
  ⟨s.renderer.width, s.renderer.height, s.renderer.scale, s.app.state.view⟩

def new (launcher_mode : Bool) (now : Instant) (ipc_server : IpcServer) : Shell :=
  ⟨App.new hints previous_window_id launcher_mode now ipc_server, .new, none, 0⟩

/-- `App::draw`: nothing on a surface without a size or when this render fails; otherwise the frame
is shown and the flag cleared. -/
def draw (s : Shell) : Shell :=
  if s.renderer.width ≠ 0 ∧ s.renderer.height ≠ 0 ∧ renders s.attempts = true then
    { s with
      renderer := { s.renderer with needsRedraw := false }
      shown := some s.frame
      attempts := s.attempts + 1 }
  else { s with attempts := s.attempts + 1 }

def processEvent (now : Instant) (s : Shell) (event : Event) : Shell :=
  let t := s.app.state.handleEvent L config hints previous_window_id now event
  let app := { s.app with
    state := t.newState
    running := if Action.exit ∈ t.actions then false else s.app.running }
  let renderer := if Action.scheduleRedraw ∈ t.actions then s.renderer.scheduleRedraw
    else s.renderer
  let s := { s with app := app, renderer := renderer }
  if !t.actions.isEmpty then draw renders s else s

def handleWayland (s : Shell) : WaylandEvent × Instant → Shell
  | (.key keysym, now) => processEvent L config hints previous_window_id renders now s
      (.keyPress keysym s.app.shiftHeld)
  | (.modifiers alt shift, now) =>
    let s' := { s with app := { s.app with altHeld := alt, shiftHeld := shift } }
    if s.app.altHeld && !alt then
      processEvent L config hints previous_window_id renders now s' .altReleased
    else s'
  | (.configure width height, now) =>
    draw renders (processEvent L config hints previous_window_id renders now
      { s with renderer := s.renderer.configure width height } (.configure width height))
  | (.frame, now) => processEvent L config hints previous_window_id renders now s .frameCallback
  | (.closed, _) => { s with app := { s.app with running := false } }
  | (.scaleFactor factor, _) => { s with renderer := s.renderer.setScale factor }

def handleIpcCommand (now : Instant) (s : Shell) : IpcCommand → Shell
  | .cycleForward => processEvent L config hints previous_window_id renders now s .cycleForward
  | .cycleBackward => processEvent L config hints previous_window_id renders now s .cycleBackward
  | .ping => s

/-- A pass draws after the IPC commands when a redraw is pending. -/
def iterate (pending : List (WaylandEvent × Instant)) (now : Instant)
    (dispatched : List (WaylandEvent × Instant)) (s : Shell) : Shell × Option (List IpcCommand) :=
  if s.app.running then
    let s := processEvent L config hints previous_window_id renders now
      (pending.foldl (handleWayland L config hints previous_window_id renders) s) .tick
    let r := s.app.ipcServer.drain
    let s := r.2.foldl (handleIpcCommand L config hints previous_window_id renders now)
      { s with app := { s.app with ipcServer := r.1 } }
    let s := if s.renderer.needsRedraw then draw renders s else s
    (dispatched.foldl (handleWayland L config hints previous_window_id renders) s, some r.2)
  else ({ s with app := { s.app with ipcServer := s.app.ipcServer.drop } }, none)

def step (s : Shell) : LoopInput → Shell × List Seen
  | .peer byte =>
    let r := Ipc.step s.app.ipcServer (.connect byte)
    ({ s with app := { s.app with ipcServer := r.1 } }, [r.2])
  | .iterate pending now dispatched =>
    let r := iterate L config hints previous_window_id renders pending now dispatched s
    (r.1, match r.2 with
      | some cmds => cmds.map (Seen.received ∘ some) ++ [.received none]
      | none => [.dropped])

def run : Shell → List LoopInput → Shell × List Seen
  | s, [] => (s, [])
  | s, x :: rest =>
    let r := step L config hints previous_window_id renders s x
    let r' := run r.1 rest
    (r'.1, r.2 ++ r'.2)

end Loop

/-- The surface shows the current frame, or a redraw is pending, or nothing has been drawn on a
surface without a size. -/
def Fresh (s : Shell) : Prop :=
  s.app.running = true → s.renderer.needsRedraw = true ∨ s.shown = some s.frame ∨
    (s.shown = none ∧ (s.renderer.width = 0 ∨ s.renderer.height = 0))

section Lemmas

variable (L : Lowercase) (config : Config) (hints : List WindowHint)
  (previous_window_id : Option String) (renders : Nat → Bool)

/-! ### The loop without drawing -/

@[simp] theorem draw_app (s : Shell) : (draw renders s).app = s.app := by
  unfold draw; split_ifs <;> rfl

@[simp] theorem processEvent_app (now : Instant) (s : Shell) (e : Event) :
    (processEvent L config hints previous_window_id renders now s e).app =
      App.processEvent L config hints previous_window_id now s.app e := by
  unfold processEvent
  dsimp only
  split <;> simp only [draw_app] <;> rfl

theorem foldl_app {α : Type} (f : Shell → α → Shell) (g : App → α → App)
    (hf : ∀ s a, (f s a).app = g s.app a) (l : List α) (s : Shell) :
    (l.foldl f s).app = l.foldl g s.app := by
  induction l generalizing s with
  | nil => rfl
  | cons a l ih => rw [List.foldl_cons, ih, hf, List.foldl_cons]

@[simp] theorem handleWayland_app (s : Shell) (x : WaylandEvent × Instant) :
    (handleWayland L config hints previous_window_id renders s x).app =
      App.handleWayland L config hints previous_window_id s.app x := by
  obtain ⟨e, now⟩ := x
  cases e <;> simp only [handleWayland, App.handleWayland] <;> (try split_ifs) <;>
    first | rfl | simp only [draw_app, processEvent_app]

@[simp] theorem handleIpcCommand_app (now : Instant) (s : Shell) (cmd : IpcCommand) :
    (handleIpcCommand L config hints previous_window_id renders now s cmd).app =
      App.handleIpcCommand L config hints previous_window_id now s.app cmd := by
  cases cmd <;> simp [handleIpcCommand, App.handleIpcCommand]

theorem iterate_app (pending : List (WaylandEvent × Instant)) (now : Instant)
    (dispatched : List (WaylandEvent × Instant)) (s : Shell) :
    ((iterate L config hints previous_window_id renders pending now dispatched s).1.app,
      (iterate L config hints previous_window_id renders pending now dispatched s).2) =
      App.iterate L config hints previous_window_id pending now dispatched s.app := by
  have hw := foldl_app _ _ (handleWayland_app L config hints previous_window_id renders)
  have hc := foldl_app _ _ (handleIpcCommand_app L config hints previous_window_id renders now)
  have hdraw : ∀ (b : Bool) (s : Shell), (if b then draw renders s else s).app = s.app := by
    intro b s; split <;> simp only [draw_app]
  unfold iterate App.iterate
  split_ifs with hr
  · dsimp only
    rw [hw, hdraw, hc, processEvent_app, hw]
  · rfl

/-- With the renderer beside it, the loop goes through the same states of `App` and shows the same
observations. -/
theorem run_app (s : Shell) (inputs : List LoopInput) :
    ((run L config hints previous_window_id renders s inputs).1.app,
      (run L config hints previous_window_id renders s inputs).2) =
      App.run L config hints previous_window_id s.app inputs := by
  induction inputs generalizing s with
  | nil => rfl
  | cons x rest ih =>
    have hstep : ((step L config hints previous_window_id renders s x).1.app,
        (step L config hints previous_window_id renders s x).2) =
        App.step L config hints previous_window_id s.app x := by
      cases x with
      | peer byte => rfl
      | iterate pending now dispatched =>
        rw [App.step, ← iterate_app L config hints previous_window_id renders pending now dispatched s]
        rfl
    simp only [run, App.run, ← hstep, ← ih]

/-! ### Freshness -/

theorem fresh_new (launcher_mode : Bool) (now : Instant) (ipc_server : IpcServer) :
    Fresh (new hints previous_window_id launcher_mode now ipc_server) :=
  fun _ => .inr (.inr ⟨rfl, .inl rfl⟩)

theorem Fresh.of_not_running {s : Shell} (h : s.app.running = false) : Fresh s :=
  fun hr => absurd (h.symm.trans hr) Bool.false_ne_true

theorem Fresh.of_needsRedraw {s : Shell} (h : s.renderer.needsRedraw = true) : Fresh s :=
  fun _ => .inl h

theorem Fresh.ipcServer {s : Shell} (h : Fresh s) (server : IpcServer) :
    Fresh { s with app := { s.app with ipcServer := server } } := h

theorem Fresh.draw {s : Shell} (h : Fresh s) : Fresh (Shell.draw renders s) := by
  unfold Shell.draw
  split_ifs
  · exact fun _ => .inr (.inl rfl)
  · exact h

theorem Fresh.processEvent {s : Shell} (h : Fresh s) (now : Instant) (e : Event) :
    Fresh (Shell.processEvent L config hints previous_window_id renders now s e) := by
  unfold Shell.processEvent
  rcases AppState.handleEvent_shape L config hints previous_window_id now s.app.state e with
    ⟨hnil, hquiet⟩ | ⟨hredraw, -⟩ | ⟨hexit, -⟩
  · have hview := hquiet.view_eq
    simp only [hnil, List.not_mem_nil, if_false, List.isEmpty_nil, Bool.not_true,
      Bool.false_eq_true]
    intro hr
    rcases h hr with hn | hs | hz
    · exact .inl hn
    · exact .inr (.inl (by rw [hs]; simp [frame, hview]))
    · exact .inr (.inr hz)
  · simp only [hredraw]
    exact (Fresh.of_needsRedraw (by simp [Renderer.scheduleRedraw])).draw renders
  · simp only [hexit]
    exact (Fresh.of_not_running (by simp)).draw renders

theorem Fresh.handleWayland {s : Shell} (h : Fresh s) (x : WaylandEvent × Instant) :
    Fresh (Shell.handleWayland L config hints previous_window_id renders s x) := by
  obtain ⟨e, now⟩ := x
  cases e with
  | key keysym => exact h.processEvent L config hints previous_window_id renders now _
  | modifiers alt shift =>
    have h' : Fresh { s with app := { s.app with altHeld := alt, shiftHeld := shift } } := h
    simp only [Shell.handleWayland]
    split_ifs
    · exact h'.processEvent L config hints previous_window_id renders now _
    · exact h'
  | configure width height =>
    have h' : Fresh { s with renderer := s.renderer.configure width height } := by
      unfold Renderer.configure
      split_ifs
      · exact Fresh.of_needsRedraw rfl
      · exact h
    exact (h'.processEvent L config hints previous_window_id renders now _).draw renders
  | frame => exact h.processEvent L config hints previous_window_id renders now _
  | closed => exact Fresh.of_not_running rfl
  | scaleFactor factor =>
    simp only [Shell.handleWayland, Renderer.setScale]
    split_ifs
    · exact Fresh.of_needsRedraw rfl
    · exact h

theorem Fresh.foldl {α : Type} (f : Shell → α → Shell) (hf : ∀ s a, Fresh s → Fresh (f s a))
    (l : List α) {s : Shell} (h : Fresh s) : Fresh (l.foldl f s) := by
  induction l generalizing s with
  | nil => exact h
  | cons a l ih => exact ih (hf s a h)

theorem Fresh.iterate {s : Shell} (h : Fresh s) (pending : List (WaylandEvent × Instant))
    (now : Instant) (dispatched : List (WaylandEvent × Instant)) :
    Fresh (Shell.iterate L config hints previous_window_id renders pending now dispatched s).1 := by
  have hw : ∀ s x, Fresh s → Fresh (Shell.handleWayland L config hints previous_window_id renders s x) :=
    fun _ x h => h.handleWayland L config hints previous_window_id renders x
  have hc : ∀ s cmd, Fresh s →
      Fresh (Shell.handleIpcCommand L config hints previous_window_id renders now s cmd) := by
    intro s cmd h
    cases cmd
    · exact h.processEvent L config hints previous_window_id renders now _
    · exact h.processEvent L config hints previous_window_id renders now _
    · exact h
  unfold Shell.iterate
  split_ifs with hr
  · have h1 := (Fresh.foldl _ hw pending h).processEvent L config hints previous_window_id renders
      now .tick
    apply Fresh.foldl _ hw
    split_ifs
    · exact (Fresh.foldl _ hc _ (h1.ipcServer _)).draw renders
    · exact Fresh.foldl _ hc _ (h1.ipcServer _)
  · exact Fresh.of_not_running (by simpa using hr)

theorem Fresh.run {s : Shell} (h : Fresh s) (inputs : List LoopInput) :
    Fresh (Shell.run L config hints previous_window_id renders s inputs).1 := by
  induction inputs generalizing s with
  | nil => exact h
  | cons x rest ih =>
    apply ih
    cases x with
    | peer byte => exact h
    | iterate pending now dispatched =>
      exact h.iterate L config hints previous_window_id renders pending now dispatched

/-- No stale overlay, along every run of the loop, whatever the Wayland events, the IPC traffic and
the outcome of each render. -/
theorem run_fresh (launcher_mode : Bool) (now : Instant) (ipc_server : IpcServer)
    (inputs : List LoopInput) :
    Fresh (Shell.run L config hints previous_window_id renders
      (Shell.new hints previous_window_id launcher_mode now ipc_server) inputs).1 :=
  (fresh_new hints previous_window_id launcher_mode now ipc_server).run L config hints
    previous_window_id renders inputs

end Lemmas

end Shell

end OpenSesame
