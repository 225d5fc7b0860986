import OpenSesame.App.Invariants
import OpenSesame.Util.Ipc
import Mathlib.Data.Int.ModEq

/-!
# The event loop

`app/mod.rs`: `App::run` feeds the state machine the Wayland callbacks, a `Tick` per pass and
the IPC commands drained once per pass; what another process does between passes is a
connection. On its server every run is a run of the IPC protocol (`run_ipcServer`), and while
the instance cycles, the selection moves once per acknowledged command
(`run_selects_acknowledged`).
-/

namespace OpenSesame

open Ipc IpcServer

structure App where
  state : AppState
  running : Bool
  altHeld : Bool
  shiftHeld : Bool
  ipcServer : IpcServer
deriving DecidableEq, Repr

/-- The Wayland callbacks that reach the state machine or the loop. -/
inductive WaylandEvent where
  | key (keysym : Keysym)
  | modifiers (alt shift : Bool)
  | configure (width height : UInt32)
  | frame
  | closed
  | scaleFactor (factor : Int)
deriving DecidableEq, Repr

inductive LoopInput where
  | peer (byte : Option UInt8)
  /-- One pass while `running` is set: the events `dispatch_pending` handles, a `Tick` and the IPC
  commands at `now`, then the events `event_loop.dispatch` handles. -/
  | iterate (pending : List (WaylandEvent × Instant)) (now : Instant)
      (dispatched : List (WaylandEvent × Instant))
deriving DecidableEq, Repr

/-- A configure, a frame, a change of scale, or the modifiers with Alt held. -/
def WaylandEvent.Passive : WaylandEvent → Prop
  | .configure .. | .frame | .scaleFactor _ => True
  | .modifiers alt _ => alt = true
  | .key _ | .closed => False

def LoopInput.Passive : LoopInput → Prop
  | .peer _ => True
  | .iterate pending _ dispatched => (∀ e ∈ pending, e.1.Passive) ∧ ∀ e ∈ dispatched, e.1.Passive

/-- The input's tick, if any, comes before the border phase begun at `start` may show the overlay.
-/
def LoopInput.Early (config : Config) (start : Instant) : LoopInput → Prop
  | .peer _ => True
  | .iterate _ now _ =>
    Instant.elapsed start now < Duration.fromMillis config.settings.overlayDelay

/-- Showing `input`, the border phase begun at `start` while `early` holds, or the full overlay on a
selection in range. -/
def AppState.Cycling (n : Nat) (early : Prop) (start : Instant) (input : String) (s : AppState) :
    Prop :=
  (early ∧ ∃ fc, s = .borderOnly start fc ∧ input = "") ∨ ∃ i, s = .fullOverlay i input ∧ i < n


section Arms

variable (L : Lowercase) (config : Config) (hints : List WindowHint)
  (previous_window_id : Option String) (now : Instant)
  {n : Nat} {early : Prop} {start : Instant} {input : String} {s : AppState}

theorem AppState.Cycling.cycle (hs : s.Cycling hints.length early start input) (hn : hints ≠ [])
    {e : Event} {d : ℤ} (he : e = .cycleForward ∧ d = 1 ∨ e = .cycleBackward ∧ d = -1) :
    (s.handleEvent L config hints previous_window_id now e).actions = [.scheduleRedraw] ∧
      (s.handleEvent L config hints previous_window_id now e).newState.Cycling hints.length early
        start input ∧
      ((s.handleEvent L config hints previous_window_id now e).newState.selectedHintIndex : ℤ) ≡
        s.selectedHintIndex + d [ZMOD hints.length] := by
  have hlen : 0 < hints.length := List.length_pos.2 hn
  rcases hs with ⟨-, fc, rfl, rfl⟩ | ⟨i, rfl, hi⟩ <;> rcases he with ⟨rfl, rfl⟩ | ⟨rfl, rfl⟩
  · refine ⟨rfl, .inr ⟨_, rfl, by omega⟩, Int.modEq_iff_dvd.2 ?_⟩
    rcases (show hints.length = 1 ∨ 2 ≤ hints.length by omega) with h1 | h2
    · exact ⟨1, by simp [AppState.selectedHintIndex, AppState.handleEvent, AppState.borderOnlyEvent]; omega⟩
    · exact ⟨0, by simp [AppState.selectedHintIndex, AppState.handleEvent, AppState.borderOnlyEvent]; omega⟩
  · refine ⟨rfl, .inr ⟨_, rfl, by omega⟩, Int.modEq_iff_dvd.2 ⟨-1, ?_⟩⟩
    simp [AppState.selectedHintIndex, AppState.handleEvent, AppState.borderOnlyEvent]
    omega
  · refine ⟨rfl, .inr ⟨_, rfl, AppState.cycleIndex_lt true hi⟩, Int.modEq_iff_dvd.2 ?_⟩
    simp only [AppState.selectedHintIndex, AppState.handleEvent, AppState.fullOverlayEvent,
      AppState.cycleIndex_forward hi]
    split_ifs
    · exact ⟨1, by omega⟩
    · exact ⟨0, by omega⟩
  · refine ⟨rfl, .inr ⟨_, rfl, AppState.cycleIndex_lt false hi⟩, Int.modEq_iff_dvd.2 ?_⟩
    simp only [AppState.selectedHintIndex, AppState.handleEvent, AppState.fullOverlayEvent,
      AppState.cycleIndex_backward hi]
    split_ifs
    · exact ⟨-1, by omega⟩
    · exact ⟨0, by omega⟩

theorem AppState.Cycling.quiet (hs : s.Cycling n early start input) {e : Event}
    (he : e = .frameCallback ∨ (∃ w h, e = .configure w h) ∨ (e = .tick ∧
      (early → Instant.elapsed start now < Duration.fromMillis config.settings.overlayDelay))) :
    (s.handleEvent L config hints previous_window_id now e).actions = [] ∧
      (s.handleEvent L config hints previous_window_id now e).newState.Cycling n early start input ∧
      (s.handleEvent L config hints previous_window_id now e).newState.selectedHintIndex =
        s.selectedHintIndex := by
  rcases hs with ⟨hearly, fc, rfl, rfl⟩ | ⟨i, rfl, hi⟩ <;>
    rcases he with rfl | ⟨w, h, rfl⟩ | ⟨rfl, htime⟩
  · exact ⟨rfl, .inl ⟨hearly, fc + 1, rfl, rfl⟩, rfl⟩
  · exact ⟨rfl, .inl ⟨hearly, fc, rfl, rfl⟩, rfl⟩
  · have hguard : ¬(Duration.fromMillis config.settings.overlayDelay ≤ Instant.elapsed start now ∧
        2 ≤ fc) := fun hg => absurd hg.1 (not_le.2 (htime hearly))
    have htick : (AppState.borderOnly start fc).handleEvent L config hints previous_window_id now
        .tick = ⟨.borderOnly start fc, []⟩ := by
      simp only [AppState.handleEvent, AppState.borderOnlyEvent, if_neg hguard]
    rw [htick]
    exact ⟨rfl, .inl ⟨hearly, fc, rfl, rfl⟩, rfl⟩
  all_goals exact ⟨rfl, .inr ⟨i, rfl, hi⟩, rfl⟩

end Arms

namespace App

section Loop

variable (L : Lowercase) (config : Config) (hints : List WindowHint)
  (previous_window_id : Option String)

/-- `alt_held` starts set in switcher mode; an instance whose `IpcServer::start` failed runs with
`IpcServer.absent`. -/
def new (launcher_mode : Bool) (now : Instant) (ipc_server : IpcServer) : App :=
  ⟨.initial launcher_mode hints previous_window_id now, true, !launcher_mode, false, ipc_server⟩

/-- `App::process_event` without drawing: an `Exit` action clears `running`. -/
def processEvent (now : Instant) (app : App) (event : Event) : App :=
  let t := app.state.handleEvent L config hints previous_window_id now event
  { app with state := t.newState, running := if Action.exit ∈ t.actions then false else app.running }

def handleWayland (app : App) : WaylandEvent × Instant → App
  | (.key keysym, now) =>
    processEvent L config hints previous_window_id now app (.keyPress keysym app.shiftHeld)
  | (.modifiers alt shift, now) =>
    let app' := { app with altHeld := alt, shiftHeld := shift }
    if app.altHeld && !alt then processEvent L config hints previous_window_id now app' .altReleased
    else app'
  | (.configure width height, now) =>
    processEvent L config hints previous_window_id now app (.configure width height)
  | (.frame, now) => processEvent L config hints previous_window_id now app .frameCallback
  | (.closed, _) => { app with running := false }
  | (.scaleFactor _, _) => app

/-- A ping was answered by the listener. -/
def handleIpcCommand (now : Instant) (app : App) : IpcCommand → App
  | .cycleForward => processEvent L config hints previous_window_id now app .cycleForward
  | .cycleBackward => processEvent L config hints previous_window_id now app .cycleBackward
  | .ping => app

/-- Once `running` is clear, `App::run` returns and drops the `App` with its server. -/
def iterate (pending : List (WaylandEvent × Instant)) (now : Instant)
    (dispatched : List (WaylandEvent × Instant)) (app : App) : App × Option (List IpcCommand) :=
  if app.running then
    let app := processEvent L config hints previous_window_id now
      (pending.foldl (handleWayland L config hints previous_window_id) app) .tick
    let r := app.ipcServer.drain
    let app := r.2.foldl (handleIpcCommand L config hints previous_window_id now)
      { app with ipcServer := r.1 }
    (dispatched.foldl (handleWayland L config hints previous_window_id) app, some r.2)
  else ({ app with ipcServer := app.ipcServer.drop }, none)

/-- What an input does, and what it shows: the answer a peer read, each `try_recv` of a pass, or the
drop. -/
def step (app : App) : LoopInput → App × List Seen
  | .peer byte =>
    let r := Ipc.step app.ipcServer (.connect byte)
    ({ app with ipcServer := r.1 }, [r.2])
  | .iterate pending now dispatched =>
    let r := iterate L config hints previous_window_id pending now dispatched app
    (r.1, match r.2 with
      | some cmds => cmds.map (Seen.received ∘ some) ++ [.received none]
      | none => [.dropped])

def run : App → List LoopInput → App × List Seen
  | app, [] => (app, [])
  | app, x :: rest =>
    let r := step L config hints previous_window_id app x
    let r' := run r.1 rest
    (r'.1, r.2 ++ r'.2)

/-- A connection, or a pass's `try_recv`s up to the one that finds the channel empty, or the drop.
-/
def protocolSteps (app : App) : LoopInput → List Step
  | .peer byte => [.connect byte]
  | .iterate .. =>
    if app.running then List.replicate (app.ipcServer.queue.length + 1) .recv else [.drop]

end Loop

def cycleShift : IpcCommand → ℤ
  | .cycleForward => 1
  | .cycleBackward => -1
  | .ping => 0

def netShift : List IpcCommand → ℤ
  | [] => 0
  | cmd :: cmds => cycleShift cmd + netShift cmds

@[simp] theorem netShift_nil : netShift [] = 0 := rfl

@[simp] theorem netShift_cons (cmd : IpcCommand) (cmds : List IpcCommand) :
    netShift (cmd :: cmds) = cycleShift cmd + netShift cmds := rfl

@[simp] theorem netShift_append (xs ys : List IpcCommand) :
    netShift (xs ++ ys) = netShift xs + netShift ys := by
  induction xs with
  | nil => simp
  | cons x xs ih => simp [ih, add_assoc]

/-- Running, its server's receiver alive, and the state machine cycling. -/
structure Cycling (n : Nat) (early : Prop) (start : Instant) (input : String) (app : App) :
    Prop where
  running : app.running = true
  receiverAlive : app.ipcServer.receiverAlive = true
  state : app.state.Cycling n early start input

section Lemmas

variable (L : Lowercase) (config : Config) (hints : List WindowHint)
  (previous_window_id : Option String)

/-! ### The loop on its server -/

@[simp] theorem processEvent_ipcServer (now : Instant) (app : App) (e : Event) :
    (processEvent L config hints previous_window_id now app e).ipcServer = app.ipcServer := rfl

theorem foldl_ipcServer {α : Type} (f : App → α → App)
    (hf : ∀ app a, (f app a).ipcServer = app.ipcServer) (l : List α) (app : App) :
    (l.foldl f app).ipcServer = app.ipcServer := by
  induction l generalizing app with
  | nil => rfl
  | cons a l ih => rw [List.foldl_cons, ih, hf]

@[simp] theorem handleWayland_ipcServer (app : App) (x : WaylandEvent × Instant) :
    (handleWayland L config hints previous_window_id app x).ipcServer = app.ipcServer := by
  obtain ⟨e, now⟩ := x
  cases e <;> simp only [handleWayland] <;> (try split_ifs) <;> rfl

@[simp] theorem handleIpcCommand_ipcServer (now : Instant) (app : App) (cmd : IpcCommand) :
    (handleIpcCommand L config hints previous_window_id now app cmd).ipcServer = app.ipcServer := by
  cases cmd <;> rfl

theorem step_ipcServer (app : App) (x : LoopInput) :
    ((step L config hints previous_window_id app x).1.ipcServer,
      (step L config hints previous_window_id app x).2) = Ipc.run app.ipcServer (protocolSteps app x) := by
  cases x with
  | peer byte => rfl
  | iterate pending now dispatched =>
    by_cases hr : app.running
    · have hw := foldl_ipcServer _ (handleWayland_ipcServer L config hints previous_window_id)
      have hc := foldl_ipcServer _ (handleIpcCommand_ipcServer L config hints previous_window_id now)
      simp only [step, iterate, protocolSteps, hr, if_true, hw, hc, processEvent_ipcServer,
        run_replicate_recv]
    · simp only [step, iterate, protocolSteps, hr, Bool.false_eq_true, if_false]
      rfl

theorem run_append (app : App) (xs ys : List LoopInput) :
    run L config hints previous_window_id app (xs ++ ys) =
      ((run L config hints previous_window_id (run L config hints previous_window_id app xs).1 ys).1,
        (run L config hints previous_window_id app xs).2 ++
          (run L config hints previous_window_id (run L config hints previous_window_id app xs).1 ys).2) := by
  induction xs generalizing app with
  | nil => rfl
  | cons x xs ih => simp [run, ih]

/-- On its server every run of the loop is a run of the protocol. -/
theorem run_ipcServer (app : App) (inputs : List LoopInput) :
    ∃ steps, ((run L config hints previous_window_id app inputs).1.ipcServer,
      (run L config hints previous_window_id app inputs).2) = Ipc.run app.ipcServer steps := by
  induction inputs generalizing app with
  | nil => exact ⟨[], rfl⟩
  | cons x rest ih =>
    obtain ⟨steps, hsteps⟩ := ih (step L config hints previous_window_id app x).1
    refine ⟨protocolSteps app x ++ steps, ?_⟩
    rw [Ipc.run_append, ← step_ipcServer]
    dsimp only
    rw [← hsteps]
    rfl

theorem delivered_run {app : App} (hserver : app.ipcServer = IpcServer.start)
    (inputs : List LoopInput) :
    Delivered (run L config hints previous_window_id app inputs).2
      (run L config hints previous_window_id app inputs).1.ipcServer := by
  obtain ⟨steps, h⟩ := run_ipcServer L config hints previous_window_id app inputs
  have hd := delivered_start.run steps
  rw [← hserver, ← h] at hd
  simpa using hd


/-! ### Cycling -/

variable {n : Nat} {early : Prop} {start : Instant} {input : String} {app : App}

theorem Cycling.processEvent_quiet (h : app.Cycling n early start input) (now : Instant) {e : Event}
    (he : e = .frameCallback ∨ (∃ w h, e = .configure w h) ∨ (e = .tick ∧
      (early → Instant.elapsed start now < Duration.fromMillis config.settings.overlayDelay))) :
    (processEvent L config hints previous_window_id now app e).Cycling n early start input ∧
      (processEvent L config hints previous_window_id now app e).state.selectedHintIndex =
        app.state.selectedHintIndex := by
  obtain ⟨ha, hs, hsel⟩ := h.state.quiet L config hints previous_window_id now he
  exact ⟨⟨by simp [processEvent, ha, h.running], h.receiverAlive, hs⟩, hsel⟩

theorem Cycling.handleWayland_passive (h : app.Cycling n early start input) {x : WaylandEvent × Instant}
    (hx : x.1.Passive) :
    (handleWayland L config hints previous_window_id app x).Cycling n early start input ∧
      (handleWayland L config hints previous_window_id app x).state.selectedHintIndex =
        app.state.selectedHintIndex := by
  obtain ⟨e, now⟩ := x
  cases e with
  | key => exact hx.elim
  | modifiers alt shift =>
    cases (hx : alt = true)
    have hm : handleWayland L config hints previous_window_id app (.modifiers true shift, now) =
        { app with altHeld := true, shiftHeld := shift } := by
      simp [App.handleWayland]
    rw [hm]
    exact ⟨⟨h.running, h.receiverAlive, h.state⟩, rfl⟩
  | configure w h' => exact h.processEvent_quiet L config hints previous_window_id now (.inr (.inl ⟨w, h', rfl⟩))
  | frame => exact h.processEvent_quiet L config hints previous_window_id now (.inl rfl)
  | closed => exact hx.elim
  | scaleFactor _ => exact ⟨h, rfl⟩

theorem Cycling.foldl_handleWayland_passive (h : app.Cycling n early start input)
    {events : List (WaylandEvent × Instant)} (he : ∀ e ∈ events, e.1.Passive) :
    (events.foldl (handleWayland L config hints previous_window_id) app).Cycling n early start input ∧
      (events.foldl (handleWayland L config hints previous_window_id) app).state.selectedHintIndex =
        app.state.selectedHintIndex := by
  induction events generalizing app with
  | nil => exact ⟨h, rfl⟩
  | cons e events ih =>
    obtain ⟨h1, hsel1⟩ := h.handleWayland_passive L config hints previous_window_id (he e (List.mem_cons_self _ _))
    obtain ⟨h2, hsel2⟩ := ih h1 fun e' he' => he e' (List.mem_cons_of_mem _ he')
    exact ⟨h2, hsel2.trans hsel1⟩

theorem Cycling.handleIpcCommand_moves (hn : hints ≠ []) (h : app.Cycling hints.length early start input)
    (now : Instant) (cmd : IpcCommand) :
    (handleIpcCommand L config hints previous_window_id now app cmd).Cycling hints.length early start
        input ∧
      ((handleIpcCommand L config hints previous_window_id now app cmd).state.selectedHintIndex : ℤ) ≡
        app.state.selectedHintIndex + cycleShift cmd [ZMOD hints.length] := by
  have hcycle : ∀ {e : Event} {d : ℤ}, (e = .cycleForward ∧ d = 1 ∨ e = .cycleBackward ∧ d = -1) →
      (processEvent L config hints previous_window_id now app e).Cycling hints.length early start
          input ∧
        ((processEvent L config hints previous_window_id now app e).state.selectedHintIndex : ℤ) ≡
          app.state.selectedHintIndex + d [ZMOD hints.length] := fun he => by
    obtain ⟨ha, hs, hsel⟩ := h.state.cycle L config hints previous_window_id now hn he
    exact ⟨⟨by simp [processEvent, ha, h.running], h.receiverAlive, hs⟩, hsel⟩
  cases cmd with
  | cycleForward => exact hcycle (.inl ⟨rfl, rfl⟩)
  | cycleBackward => exact hcycle (.inr ⟨rfl, rfl⟩)
  | ping => exact ⟨h, by simp [App.handleIpcCommand, cycleShift]⟩

theorem Cycling.foldl_handleIpcCommand_moves (hn : hints ≠ [])
    (h : app.Cycling hints.length early start input) (now : Instant) (cmds : List IpcCommand) :
    (cmds.foldl (handleIpcCommand L config hints previous_window_id now) app).Cycling hints.length
        early start input ∧
      ((cmds.foldl (handleIpcCommand L config hints previous_window_id now) app).state.selectedHintIndex
        : ℤ) ≡ app.state.selectedHintIndex + netShift cmds [ZMOD hints.length] := by
  induction cmds generalizing app with
  | nil => exact ⟨h, by simp⟩
  | cons cmd cmds ih =>
    obtain ⟨h1, hsel1⟩ := h.handleIpcCommand_moves L config hints previous_window_id hn now cmd
    obtain ⟨h2, hsel2⟩ := ih h1
    refine ⟨h2, ?_⟩
    calc _ ≡ _ + netShift cmds [ZMOD hints.length] := hsel2
      _ ≡ app.state.selectedHintIndex + cycleShift cmd + netShift cmds [ZMOD hints.length] :=
        hsel1.add_right _
      _ = app.state.selectedHintIndex + netShift (cmd :: cmds) := by rw [netShift_cons, add_assoc]

theorem Cycling.iterate_drains (hn : hints ≠ []) (h : app.Cycling hints.length early start input)
    {pending : List (WaylandEvent × Instant)} {now : Instant} {dispatched : List (WaylandEvent × Instant)}
    (hp : (LoopInput.iterate pending now dispatched).Passive)
    (ht : early → (LoopInput.iterate pending now dispatched).Early config start) :
    let r := iterate L config hints previous_window_id pending now dispatched app
    r.2 = some app.ipcServer.queue ∧ r.1.ipcServer.queue = [] ∧
      r.1.Cycling hints.length early start input ∧
      (r.1.state.selectedHintIndex : ℤ) ≡ app.state.selectedHintIndex + netShift app.ipcServer.queue
        [ZMOD hints.length] := by
  have hw := foldl_ipcServer _ (handleWayland_ipcServer L config hints previous_window_id)
  have hc := foldl_ipcServer _ (handleIpcCommand_ipcServer L config hints previous_window_id now)
  simp only [App.iterate, h.running, if_true]
  set app1 := pending.foldl (handleWayland L config hints previous_window_id) app
  set app2 := processEvent L config hints previous_window_id now app1 .tick
  obtain ⟨h1, hsel1⟩ := h.foldl_handleWayland_passive L config hints previous_window_id hp.1
  obtain ⟨h2, hsel2⟩ := h1.processEvent_quiet L config hints previous_window_id now
    (.inr (.inr ⟨rfl, ht⟩))
  have hserver : app2.ipcServer = app.ipcServer := hw _ _
  rw [drain_eq, hserver]
  have h3 : ({ app2 with ipcServer := { app.ipcServer with queue := [] } } : App).Cycling
      hints.length early start input := ⟨h2.running, h.receiverAlive, h2.state⟩
  obtain ⟨h4, hsel4⟩ := h3.foldl_handleIpcCommand_moves L config hints previous_window_id hn now
    app.ipcServer.queue
  obtain ⟨h5, hsel5⟩ := h4.foldl_handleWayland_passive L config hints previous_window_id hp.2
  refine ⟨rfl, by simp [hw, hc], h5, ?_⟩
  rw [hsel5]
  calc _ ≡ _ [ZMOD hints.length] := hsel4
    _ = _ := by rw [← hsel1, ← hsel2]

theorem Cycling.step_moves (hn : hints ≠ []) (h : app.Cycling hints.length early start input)
    {x : LoopInput} (hp : x.Passive) (ht : early → x.Early config start) :
    (step L config hints previous_window_id app x).1.Cycling hints.length early start input ∧
      ((step L config hints previous_window_id app x).1.state.selectedHintIndex : ℤ) ≡
        app.state.selectedHintIndex +
          netShift ((step L config hints previous_window_id app x).2.filterMap Seen.receivedCommand)
          [ZMOD hints.length] := by
  cases x with
  | peer byte =>
    obtain ⟨halive, hnone⟩ := step_connect app.ipcServer byte
    exact ⟨⟨h.running, halive.trans h.receiverAlive, h.state⟩,
      by simp [App.step, hnone]⟩
  | iterate pending now dispatched =>
    obtain ⟨hcmds, -, h', hsel⟩ := h.iterate_drains L config hints previous_window_id hn hp ht
    exact ⟨h', by simpa [App.step, hcmds, List.filterMap_map, Function.comp_def] using hsel⟩

theorem Cycling.run_moves (hn : hints ≠ []) (h : app.Cycling hints.length early start input)
    {inputs : List LoopInput} (hp : ∀ x ∈ inputs, x.Passive)
    (ht : early → ∀ x ∈ inputs, x.Early config start) :
    (run L config hints previous_window_id app inputs).1.Cycling hints.length early start input ∧
      ((run L config hints previous_window_id app inputs).1.state.selectedHintIndex : ℤ) ≡
        app.state.selectedHintIndex +
          netShift ((run L config hints previous_window_id app inputs).2.filterMap
            Seen.receivedCommand) [ZMOD hints.length] := by
  induction inputs generalizing app with
  | nil => exact ⟨h, by simp [App.run]⟩
  | cons x rest ih =>
    obtain ⟨h1, hsel1⟩ := h.step_moves L config hints previous_window_id hn
      (hp x (List.mem_cons_self _ _)) fun he => ht he x (List.mem_cons_self _ _)
    obtain ⟨h2, hsel2⟩ := ih h1 (fun y hy => hp y (List.mem_cons_of_mem _ hy))
      fun he y hy => ht he y (List.mem_cons_of_mem _ hy)
    refine ⟨h2, ?_⟩
    calc _ ≡ _ [ZMOD _] := hsel2
      _ ≡ _ [ZMOD _] := hsel1.add_right _
      _ = _ := by simp [App.run, add_assoc]

/-- Repeated Alt+Tab over IPC: whatever other processes send, in any interleaving, while only
passive Wayland events arrive, after a pass the selection has moved once per command answered `Ok`,
modulo the number of hints. -/
theorem run_selects_acknowledged (hn : hints ≠ []) (h : app.Cycling hints.length early start input)
    (hserver : app.ipcServer = IpcServer.start) {inputs : List LoopInput}
    {pending : List (WaylandEvent × Instant)} {now : Instant}
    {dispatched : List (WaylandEvent × Instant)}
    (hp : ∀ x ∈ inputs ++ [.iterate pending now dispatched], x.Passive)
    (ht : early → ∀ x ∈ inputs ++ [.iterate pending now dispatched], x.Early config start) :
    (run L config hints previous_window_id app
        (inputs ++ [.iterate pending now dispatched])).1.state.Cycling hints.length early start
        input ∧
      ((run L config hints previous_window_id app
          (inputs ++ [.iterate pending now dispatched])).1.state.selectedHintIndex : ℤ) ≡
        app.state.selectedHintIndex + netShift ((run L config hints previous_window_id app
          (inputs ++ [.iterate pending now dispatched])).2.filterMap Seen.acknowledged)
          [ZMOD hints.length] := by
  obtain ⟨hc, hsel⟩ := h.run_moves L config hints previous_window_id hn hp ht
  obtain ⟨⟨lost, horder, hlost⟩, -, -⟩ :=
    delivered_run L config hints previous_window_id hserver (inputs ++ [.iterate pending now dispatched])
  -- the last pass left the channel empty
  have hmid := h.run_moves L config hints previous_window_id hn
    (fun x hx => hp x (List.mem_append_left _ hx)) fun he x hx => ht he x (List.mem_append_left _ hx)
  obtain ⟨-, hempty, -⟩ := hmid.1.iterate_drains L config hints previous_window_id hn
    (hp _ (List.mem_append_right _ (List.mem_singleton_self _)))
    fun he => ht he _ (List.mem_append_right _ (List.mem_singleton_self _))
  have hq : (run L config hints previous_window_id app
      (inputs ++ [.iterate pending now dispatched])).1.ipcServer.queue = [] := by
    simpa [run_append, App.run, App.step] using hempty
  rw [hlost hc.receiverAlive, hq, List.append_nil, List.append_nil] at horder
  exact ⟨hc.state, horder ▸ hsel⟩

theorem run_selects_acknowledged_switcher :
    (run .asciiOnly Config.default
        [⟨.new 'f' 1, "w0", "firefox", "", 0⟩, ⟨.new 'g' 1, "w1", "ghostty", "", 1⟩] none
        (new [⟨.new 'f' 1, "w0", "firefox", "", 0⟩, ⟨.new 'g' 1, "w1", "ghostty", "", 1⟩] none
          false 0 .start)
        ([.peer (some 'F'.toUInt8), .peer (some 'F'.toUInt8), .peer (some 'B'.toUInt8)] ++
          [.iterate [] 1 []])).1.state.Cycling 2 True 0 "" ∧
      ((run .asciiOnly Config.default
        [⟨.new 'f' 1, "w0", "firefox", "", 0⟩, ⟨.new 'g' 1, "w1", "ghostty", "", 1⟩] none
        (new [⟨.new 'f' 1, "w0", "firefox", "", 0⟩, ⟨.new 'g' 1, "w1", "ghostty", "", 1⟩] none
          false 0 .start)
        ([.peer (some 'F'.toUInt8), .peer (some 'F'.toUInt8), .peer (some 'B'.toUInt8)] ++
          [.iterate [] 1 []])).1.state.selectedHintIndex : ℤ) ≡
        0 + netShift ((run .asciiOnly Config.default
          [⟨.new 'f' 1, "w0", "firefox", "", 0⟩, ⟨.new 'g' 1, "w1", "ghostty", "", 1⟩] none
          (new [⟨.new 'f' 1, "w0", "firefox", "", 0⟩, ⟨.new 'g' 1, "w1", "ghostty", "", 1⟩] none
            false 0 .start)
          ([.peer (some 'F'.toUInt8), .peer (some 'F'.toUInt8), .peer (some 'B'.toUInt8)] ++
            [.iterate [] 1 []])).2.filterMap Seen.acknowledged) [ZMOD 2] :=
  run_selects_acknowledged .asciiOnly Config.default _ none (by simp)
    ⟨rfl, rfl, .inl ⟨trivial, 0, rfl, rfl⟩⟩ rfl (by simp [LoopInput.Passive])
    fun _ => by simp [LoopInput.Early, Config.default, Settings.default, Duration.fromMillis]

end Lemmas

end App

end OpenSesame
