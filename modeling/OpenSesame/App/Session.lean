import OpenSesame.App.Run
import OpenSesame.Core.Assignment
import OpenSesame.Platform.Wayland

/-!
# Launcher sessions and the MRU file

`main.rs`, `run_launcher`: a session enumerates the windows, picks the quick-switch target from
the MRU file, runs the overlay, activates the result and records the switch. Sessions chain
through the desktop and the MRU file: quick Alt+Tabs alternate between two windows, unless the
file's previous window is the focused one.
-/

namespace OpenSesame

open Wayland Mru

namespace AppState

variable (L : Lowercase) (config : Config) (hints : List WindowHint)
  (previous_window_id : Option String)

/-- Ticks, frame callbacks and configures leave an overlay waiting for Alt's release as it is. -/
def isPassive : Event → Bool
  | .tick | .frameCallback | .configure .. => true
  | _ => false

/-- Before anything is typed: the border, or the full overlay on the previous window. -/
def Waiting (start : Instant) (s : AppState) : Prop :=
  (∃ frame_count, s = .borderOnly start frame_count) ∨
    s = .fullOverlay (previousPosition hints previous_window_id) ""

theorem waiting_initial (launcher_mode : Bool) (start : Instant) :
    Waiting hints previous_window_id start (initial launcher_mode hints previous_window_id start) := by
  cases launcher_mode
  · exact .inl ⟨0, rfl⟩
  · exact .inr rfl

theorem waiting_handleEvent {start : Instant} {s : AppState}
    (hs : Waiting hints previous_window_id start s) {e : Event} (he : isPassive e = true)
    (now : Instant) :
    Waiting hints previous_window_id start
      (s.handleEvent L config hints previous_window_id now e).newState := by
  rcases hs with ⟨frame_count, rfl⟩ | rfl
  · cases e <;> simp only [isPassive, Bool.false_eq_true] at he
    case tick =>
      simp only [handleEvent, borderOnlyEvent]
      split_ifs
      · exact .inr rfl
      · exact .inl ⟨_, rfl⟩
    all_goals exact .inl ⟨_, rfl⟩
  · cases e <;> simp only [isPassive, Bool.false_eq_true] at he <;> exact .inr rfl

theorem waiting_run {start : Instant} {s : AppState} (hs : Waiting hints previous_window_id start s)
    {events : List (Event × Instant)} (he : ∀ e ∈ events, isPassive e.1 = true) :
    Waiting hints previous_window_id start (run L config hints previous_window_id s events) := by
  induction events generalizing s with
  | nil => exact hs
  | cons e rest ih =>
    obtain ⟨e, now⟩ := e
    exact ih (waiting_handleEvent L config hints previous_window_id hs (he _ (.head _)) now)
      fun e' he' => he e' (.tail _ he')

theorem handleEvent_altReleased_of_waiting {start now : Instant} {s : AppState}
    {prev_id : String} (hs : Waiting hints (some prev_id) start s)
    (hquick : now - start < Duration.fromMillis config.settings.quickSwitchThreshold) :
    (s.handleEvent L config hints (some prev_id) now .altReleased).newState =
      .exiting (.window (previousPosition hints (some prev_id))) := by
  rcases hs with ⟨frame_count, rfl⟩ | rfl
  · have hfind := find?_enum_windowId hints prev_id
    simp only [handleEvent, borderOnlyEvent, quickSwitchResult, Instant.elapsed_eq, if_pos hquick,
      previousPosition, Option.some_bind]
    cases hf : hints.enum.find? fun ih => ih.2.windowId = prev_id with
    | none => simp [← hfind, hf]
    | some jw =>
      obtain ⟨j, w⟩ := jw
      simp [← hfind, hf]
  · rfl

theorem run_quick_release (launcher_mode : Bool) {start release : Instant} {prev_id : String}
    {passive : List (Event × Instant)} (hp : ∀ e ∈ passive, isPassive e.1 = true)
    (hquick : release - start < Duration.fromMillis config.settings.quickSwitchThreshold) :
    run L config hints (some prev_id) (initial launcher_mode hints (some prev_id) start)
        (passive ++ [(.altReleased, release)]) =
      .exiting (.window (previousPosition hints (some prev_id))) := by
  rw [run_append]
  exact handleEvent_altReleased_of_waiting L config hints
    (waiting_run L config hints _ (waiting_initial hints _ launcher_mode start) hp) hquick

end AppState

theorem resolveResult_previousPosition {hints : List WindowHint} {prev_id : String}
    (h : prev_id ∈ hints.map (·.windowId)) :
    previousPosition hints (some prev_id) < hints.length ∧
      resolveResult hints (some prev_id) (some (.window (previousPosition hints (some prev_id)))) =
        some (previousPosition hints (some prev_id), prev_id) := by
  obtain ⟨i, hi⟩ : ∃ i, (hints.findIdx? fun h => h.windowId = prev_id) = some i := by
    refine Option.ne_none_iff_exists'.1 fun hnone => ?_
    obtain ⟨w, hw, rfl⟩ := List.mem_map.1 h
    simpa using List.findIdx?_eq_none_iff.1 hnone w hw
  obtain ⟨hlt, hid, -⟩ := List.findIdx?_eq_some_iff_getElem.1 hi
  have hpos : previousPosition hints (some prev_id) = i := by simp [previousPosition, hi]
  rw [hpos]
  exact ⟨hlt, by simp [resolveResult, List.getElem?_eq_getElem hlt, of_decide_eq_true hid]⟩

namespace Session

/-- The MRU file's previous window when some hint has it, else the first hint's window. -/
def quickSwitchTarget (hints : List WindowHint) (mru_previous : Option String) : Option String :=
  match hints.head? with
  | none => none
  | some first =>
    match mru_previous with
    | some prev_id =>
      if hints.any (·.windowId = prev_id) then some prev_id else some first.windowId
    | none => some first.windowId

structure SessionResult where
  activated : Option String
  launched : Option String
  mru : Option String
deriving DecidableEq, Repr

/-- `run_launcher` once the instance lock is held, on the reported toplevels and the MRU file's
text. -/
def runLauncher (L : Lowercase) (config : Config) (launcher_mode : Bool)
    (toplevels : List PendingToplevel) (mru : Option String) (start : Instant)
    (events : List (Event × Instant)) : SessionResult :=
  let windows := enumerateWindows toplevels
  if windows.isEmpty then ⟨none, none, mru⟩ else
  let window_of_origin := (windows.find? (·.isFocused)).map (·.id)
  let hints := (HintAssignment.assign L windows (config.keyForApp L)).hints
  let quick_switch_target := quickSwitchTarget hints (getPreviousWindow mru)
  let final := AppState.run L config hints quick_switch_target
    (AppState.initial launcher_mode hints quick_switch_target start) events
  match resolveResult hints quick_switch_target final.activationResult with
  | some (idx, identifier) =>
    if idx = usizeMax then ⟨none, (config.launchConfig identifier).map fun _ => identifier, mru⟩
    else if idx < hints.length ∧ activateWindow toplevels identifier then
      ⟨some identifier, none, saveActivatedWindow window_of_origin identifier mru⟩
    else ⟨none, none, mru⟩
  | none => ⟨none, none, mru⟩

structure SessionInput where
  launcherMode : Bool
  start : Instant
  events : List (Event × Instant)

/-- Nothing but passive events, then Alt released within `quick_switch_threshold` of the start. -/
def SessionInput.QuickAltTab (config : Config) (s : SessionInput) : Prop :=
  ∃ passive release, s.events = passive ++ [(.altReleased, release)] ∧
    (∀ e ∈ passive, AppState.isPassive e.1 = true) ∧
    release - s.start < Duration.fromMillis config.settings.quickSwitchThreshold

/-- Each session on the desktop and MRU file the one before left, the compositor focusing each
activated window. -/
def sessions (L : Lowercase) (config : Config) :
    List SessionInput → List PendingToplevel → Option String → List SessionResult
  | [], _, _ => []
  | s :: rest, toplevels, mru =>
    let r := runLauncher L config s.launcherMode toplevels mru s.start s.events
    r :: sessions L config rest ((r.activated.map (focus toplevels)).getD toplevels) r.mru

def switchTarget (toplevels : List PendingToplevel) (mru : Option String) : String :=
  let ids := (enumerateWindows toplevels).map (·.id)
  match getPreviousWindow mru with
  | some prev_id => if prev_id ∈ ids then prev_id else ids.headD ""
  | none => ids.headD ""

def alternating {α : Type} (a b : α) : Nat → List α
  | 0 => []
  | n + 1 => a :: alternating b a n

section Lemmas

variable {L : Lowercase} {config : Config} {toplevels : List PendingToplevel} {focused : String}

theorem quickSwitchTarget_eq {hints : List WindowHint} {ids : List String}
    (h : hints.map (·.windowId) = ids) (mru_previous : Option String) :
    quickSwitchTarget hints mru_previous =
      ids.head?.map fun first =>
        match mru_previous with
        | some prev_id => if prev_id ∈ ids then prev_id else first
        | none => first := by
  subst h
  cases hints with
  | nil => rfl
  | cons first rest =>
    cases mru_previous with
    | none => rfl
    | some prev_id =>
      have hany : (first :: rest).any (·.windowId = prev_id) =
          decide (prev_id ∈ (first :: rest).map (·.windowId)) :=
        Bool.eq_iff_iff.2 (by simp only [List.any_eq_true, decide_eq_true_eq, List.mem_map])
      simp only [quickSwitchTarget, List.head?_cons, hany, Option.map_some', decide_eq_true_eq]
      split_ifs <;> rfl

theorem mem_windows_iff (h : FocusedOn toplevels focused) {id : String} :
    id ∈ (enumerateWindows toplevels).map (·.id) ↔ id ∈ identifiers toplevels := by
  obtain ⟨others, last, hws, -, -, -, hperm⟩ := enumerateWindows_spec h
  rw [hws]
  exact hperm.mem_iff

theorem switchTarget_mem (h : FocusedOn toplevels focused) (mru : Option String) :
    switchTarget toplevels mru ∈ identifiers toplevels := by
  obtain ⟨others, last, hws, -, -, -, hperm⟩ := enumerateWindows_spec h
  have hhead : ((enumerateWindows toplevels).map (·.id)).headD "" ∈ identifiers toplevels := by
    rw [← mem_windows_iff h, hws]
    cases others <;> simp
  dsimp only [switchTarget]
  split
  · split
    · exact (mem_windows_iff h).1 ‹_›
    · exact hhead
  · exact hhead

theorem switchTarget_ne_focused (h : FocusedOn toplevels focused) (hlen : 2 ≤ toplevels.length)
    {mru : Option String} (hm : getPreviousWindow mru ≠ some focused) :
    switchTarget toplevels mru ≠ focused := by
  obtain ⟨others, last, hws, -, -, hothers, hperm⟩ := enumerateWindows_spec h
  have hhead : ((enumerateWindows toplevels).map (·.id)).headD "" ≠ focused := by
    have hlen' := length_enumerateWindows h
    obtain _ | ⟨w, ws⟩ := others
    · simp only [hws, List.nil_append, List.length_singleton] at hlen'
      omega
    · simpa [hws] using (hothers w (.head _)).1
  dsimp only [switchTarget]
  split
  · rename_i prev_id hprev
    split
    · rintro rfl
      exact hm hprev
    · exact hhead
  · exact hhead

theorem runLauncher_eq (h : FocusedOn toplevels focused) (launcher_mode : Bool)
    (mru : Option String) (start : Instant) (events : List (Event × Instant)) :
    let hints := (HintAssignment.assign L (enumerateWindows toplevels) (config.keyForApp L)).hints
    runLauncher L config launcher_mode toplevels mru start events =
      match resolveResult hints (some (switchTarget toplevels mru))
          (AppState.run L config hints (some (switchTarget toplevels mru))
            (AppState.initial launcher_mode hints (some (switchTarget toplevels mru)) start)
            events).activationResult with
      | some (idx, identifier) =>
        if idx = usizeMax then ⟨none, (config.launchConfig identifier).map fun _ => identifier, mru⟩
        else if idx < hints.length ∧ activateWindow toplevels identifier then
          ⟨some identifier, none, saveActivatedWindow (some focused) identifier mru⟩
        else ⟨none, none, mru⟩
      | none => ⟨none, none, mru⟩ := by
  intro hints
  obtain ⟨others, last, hws, hlastId, hlastFoc, hothers, -⟩ := enumerateWindows_spec h
  have horigin : ((enumerateWindows toplevels).find? (·.isFocused)).map (·.id) = some focused := by
    rw [hws, List.find?_append, List.find?_eq_none.2 fun w hw => by simp [(hothers w hw).2]]
    simp [hlastFoc, hlastId]
  have htarget : quickSwitchTarget hints (getPreviousWindow mru) =
      some (switchTarget toplevels mru) := by
    rw [quickSwitchTarget_eq (assign_windowIds L (config.keyForApp L) _), hws]
    simp only [switchTarget, hws]
    cases others <;> rfl
  have hne : (enumerateWindows toplevels).isEmpty = false := by simp [hws]
  simp only [runLauncher, hne, horigin, htarget, Bool.false_eq_true, if_false]

theorem runLauncher_quickAltTab (h : FocusedOn toplevels focused) {s : SessionInput}
    (hq : s.QuickAltTab config) (mru : Option String) :
    runLauncher L config s.launcherMode toplevels mru s.start s.events =
      ⟨some (switchTarget toplevels mru), none,
        saveActivatedWindow (some focused) (switchTarget toplevels mru) mru⟩ := by
  obtain ⟨passive, release, hevents, hp, hquick⟩ := hq
  set hints := (HintAssignment.assign L (enumerateWindows toplevels) (config.keyForApp L)).hints
  set target := switchTarget toplevels mru
  have hmem : target ∈ hints.map (·.windowId) := by
    rw [assign_windowIds, mem_windows_iff h]
    exact switchTarget_mem h mru
  obtain ⟨hlt, hres⟩ := resolveResult_previousPosition hmem
  have hlen : hints.length ≤ usizeMax := by
    have := congrArg List.length (assign_windowIds L (config.keyForApp L) (enumerateWindows toplevels))
    simp only [List.length_map, length_enumerateWindows h] at this
    exact this ▸ h.fits
  rw [runLauncher_eq h, hevents, AppState.run_quick_release L config hints s.launcherMode hp hquick]
  simp only [AppState.activationResult, hres, if_neg (show previousPosition hints (some target) ≠
    usizeMax by omega), activateWindow_of_mem (switchTarget_mem h mru), hlt, and_self, if_true]

theorem sessions_alternate {a b : String} (h : FocusedOn toplevels a)
    (hb : b ∈ identifiers toplevels) (hab : b ≠ a) {ss : List SessionInput}
    (hq : ∀ s ∈ ss, s.QuickAltTab config) :
    (sessions L config ss (focus toplevels b) (some (mruText (some a) b))).map (·.activated) =
      alternating (some a) (some b) ss.length := by
  induction ss generalizing toplevels a b with
  | nil => rfl
  | cons s ss ih =>
    have hb' := h.focus hb
    have ha : a ∈ identifiers (focus toplevels b) := by simpa using h.listed
    have hprev : getPreviousWindow (some (mruText (some a) b)) = some a := by
      rw [getPreviousWindow, loadMruState_mruText (fun _ he => Option.some.inj he ▸ h.clean a h.listed)
        (h.clean b hb)]
    have htarget : switchTarget (focus toplevels b) (some (mruText (some a) b)) = a := by
      simp only [switchTarget, hprev, if_pos ((mem_windows_iff hb').2 ha)]
    have hsave : saveActivatedWindow (some b) a (some (mruText (some a) b)) =
        some (mruText (some b) a) := by
      simp [saveActivatedWindow, hab]
    simp only [sessions, runLauncher_quickAltTab hb' (hq s (.head _)), htarget, hsave,
      Option.map_some', Option.getD_some, List.map_cons, List.length_cons, alternating]
    rw [ih hb' ha hab.symm fun s hs => hq s (.tail _ hs)]

theorem sessions_stuck {a : String} (h : FocusedOn toplevels a) {mru : Option String}
    (hm : getPreviousWindow mru = some a) {ss : List SessionInput}
    (hq : ∀ s ∈ ss, s.QuickAltTab config) :
    sessions L config ss toplevels mru = ss.map fun _ => ⟨some a, none, mru⟩ := by
  induction ss with
  | nil => rfl
  | cons s ss ih =>
    have htarget : switchTarget toplevels mru = a := by
      simp only [switchTarget, hm, if_pos ((mem_windows_iff h).2 h.listed)]
    simp only [sessions, runLauncher_quickAltTab h (hq s (.head _)), htarget,
      saveActivatedWindow, if_true, Option.map_some', Option.getD_some, focus_self h, List.map_cons]
    rw [ih fun s hs => hq s (.tail _ hs)]

/-- Quick Alt+Tabs on a desktop of two windows or more, from any MRU file: they alternate between
two windows, unless the file's previous window is the focused one, which they then keep activating.
-/
theorem sessions_quickAltTab {a : String} (h : FocusedOn toplevels a)
    (hlen : 2 ≤ toplevels.length) (mru : Option String) {ss : List SessionInput}
    (hq : ∀ s ∈ ss, s.QuickAltTab config) :
    (sessions L config ss toplevels mru).map (·.activated) =
        (if getPreviousWindow mru = some a then List.replicate ss.length (some a)
        else alternating (some (switchTarget toplevels mru)) (some a) ss.length) ∧
      (getPreviousWindow mru ≠ some a → switchTarget toplevels mru ≠ a) := by
  refine ⟨?_, switchTarget_ne_focused h hlen⟩
  split_ifs with hm
  · simp [sessions_stuck h hm hq]
  · cases ss with
    | nil => rfl
    | cons s ss =>
      have hT := switchTarget_ne_focused h hlen hm
      have hsave : saveActivatedWindow (some a) (switchTarget toplevels mru) mru =
          some (mruText (some a) (switchTarget toplevels mru)) := by
        simp [saveActivatedWindow, Ne.symm hT]
      simp only [sessions, runLauncher_quickAltTab h (hq s (.head _)), hsave, Option.map_some',
        Option.getD_some, List.map_cons, List.length_cons, alternating]
      rw [sessions_alternate h (switchTarget_mem h mru) hT fun s hs => hq s (.tail _ hs)]

theorem sessions_quickAltTab_two_windows :
    FocusedOn [⟨some "w0", some "firefox", some "", false⟩, ⟨some "w1", some "ghostty", some "", true⟩]
      "w1" ∧
    2 ≤ [(⟨some "w0", some "firefox", some "", false⟩ : PendingToplevel),
      ⟨some "w1", some "ghostty", some "", true⟩].length ∧
    (∀ s ∈ [(⟨false, 0, [(.altReleased, 1)]⟩ : SessionInput), ⟨true, 5, [(.tick, 6), (.altReleased, 7)]⟩],
      s.QuickAltTab Config.default) ∧
    ((sessions .asciiOnly Config.default
        [⟨false, 0, [(.altReleased, 1)]⟩, ⟨true, 5, [(.tick, 6), (.altReleased, 7)]⟩]
        [⟨some "w0", some "firefox", some "", false⟩, ⟨some "w1", some "ghostty", some "", true⟩]
        none).map (·.activated) =
        (if getPreviousWindow none = some "w1" then List.replicate 2 (some "w1")
        else alternating (some (switchTarget [⟨some "w0", some "firefox", some "", false⟩,
          ⟨some "w1", some "ghostty", some "", true⟩] none)) (some "w1") 2) ∧
      (getPreviousWindow none ≠ some "w1" → switchTarget [⟨some "w0", some "firefox", some "", false⟩,
          ⟨some "w1", some "ghostty", some "", true⟩] none ≠ "w1")) :=
  have hD : FocusedOn [⟨some "w0", some "firefox", some "", false⟩,
      ⟨some "w1", some "ghostty", some "", true⟩] "w1" :=
    { window := by simp
      nodup := by decide
      clean := by decide
      activated := by decide
      listed := by decide
      fits := by decide }
  have hq : ∀ s ∈ [(⟨false, 0, [(.altReleased, 1)]⟩ : SessionInput),
      ⟨true, 5, [(.tick, 6), (.altReleased, 7)]⟩], s.QuickAltTab Config.default := by
    simp only [List.mem_cons, List.mem_singleton, List.not_mem_nil, or_false]
    rintro s (rfl | rfl)
    · exact ⟨[], 1, rfl, by simp, by decide⟩
    · exact ⟨[(.tick, 6)], 7, rfl, by simp [AppState.isPassive], by decide⟩
  ⟨hD, by decide, hq, sessions_quickAltTab hD (by decide) none hq⟩

end Lemmas

end Session

end OpenSesame
