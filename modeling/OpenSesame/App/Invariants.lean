import OpenSesame.App.Run

/-!
# Invariants of every run

`InBounds`, the index safety `App::run` and `main` assume of the result, and `InputInv`, that
the input only grows by a keystroke some hint still matches; each is proved for one event, then
for every reachable state.
-/

namespace OpenSesame

namespace AppState

/-- A selection or a match indexes the hints, and a launch result has a launch configuration. -/
def InBounds (config : Config) (n : Nat) : AppState → Prop
  | .fullOverlay selected_hint_index _ => selected_hint_index < n
  | .pendingActivation hint_index _ _ => hint_index < n
  | .exiting (.window index) => index < n
  | .exiting (.launch key) => (config.launchConfig key).isSome
  | _ => True

theorem cycleIndex_lt {current len : Nat} (forward : Bool) (h : current < len) :
    cycleIndex current len forward < len := by
  unfold cycleIndex
  split_ifs <;> first | omega | exact Nat.mod_lt _ (by omega)

@[simp] theorem cycleIndex_zero_len (current : Nat) (forward : Bool) :
    cycleIndex current 0 forward = 0 := rfl

theorem cycleIndex_forward {current len : Nat} (h : current < len) :
    cycleIndex current len true = if current + 1 = len then 0 else current + 1 := by
  split_ifs with hlast
  · simp [cycleIndex, show len ≠ 0 by omega, hlast]
  · simp [cycleIndex, show len ≠ 0 by omega, Nat.mod_eq_of_lt (show current + 1 < len by omega)]

theorem cycleIndex_backward {current len : Nat} (h : current < len) :
    cycleIndex current len false = if current = 0 then len - 1 else current - 1 := by
  simp [cycleIndex, show len ≠ 0 by omega]

/-- `cycle_index` is a bijection of `[0, len)`, inverted by the other direction; its `usize`
arithmetic never overflows. -/
theorem cycleIndex_bounded_inverse (current len : Nat) (forward : Bool) :
    cycleIndex current 0 forward = 0 ∧
    (current < len →
      cycleIndex current len forward < len ∧
      cycleIndex (cycleIndex current len true) len false = current ∧
      cycleIndex (cycleIndex current len false) len true = current ∧
      (len ≤ usizeMax →
        cycleIndexChecked current len forward = some (cycleIndex current len forward))) := by
  refine ⟨rfl, fun h => ⟨cycleIndex_lt forward h, ?_, ?_, fun hmax => ?_⟩⟩
  · rw [cycleIndex_backward (cycleIndex_lt true h), cycleIndex_forward h]
    by_cases hlast : current + 1 = len
    · rw [if_pos hlast, if_pos rfl]; omega
    · rw [if_neg hlast, if_neg (Nat.succ_ne_zero current)]; omega
  · rw [cycleIndex_forward (cycleIndex_lt false h), cycleIndex_backward h]
    by_cases h0 : current = 0
    · rw [if_pos h0, if_pos (show len - 1 + 1 = len by omega), h0]
    · rw [if_neg h0, if_neg (show current - 1 + 1 ≠ len by omega)]; omega
  · have hlen : len ≠ 0 := by omega
    cases forward
    · by_cases h0 : current = 0
      · simp [cycleIndexChecked, cycleIndex, usizeCheckedSub, hlen, h0, show 1 ≤ len by omega]
      · simp [cycleIndexChecked, cycleIndex, usizeCheckedSub, hlen, h0, show 1 ≤ current by omega]
    · simp [cycleIndexChecked, cycleIndex, usizeCheckedAdd, hlen, show current + 1 ≤ usizeMax by omega]

theorem cycleIndex_bounded_inverse_at_wrap :
    2 < 3 ∧ cycleIndex 2 3 true < 3 ∧ cycleIndex (cycleIndex 2 3 true) 3 false = 2 ∧
      cycleIndex (cycleIndex 2 3 false) 3 true = 2 ∧
      cycleIndexChecked 2 3 true = some (cycleIndex 2 3 true) :=
  have h := ((cycleIndex_bounded_inverse 2 3 true).2 (by decide))
  ⟨by decide, h.1, h.2.1, h.2.2.1, h.2.2.2 (by decide)⟩

section
variable (L : Lowercase) (config : Config) (hints : List WindowHint)
  (previous_window_id : Option String) (now : Instant)

theorem matchInput_exact_lt (hidx : ∀ i (h : i < hints.length), hints[i].index = i)
    {input : String} {i : Nat} {w : String}
    (h : HintMatcher.matchInput L hints input = .exact i w) : i < hints.length := by
  obtain ⟨hint, hmem, rfl, -⟩ := HintMatcher.matchInput_exact_mem L hints h
  obtain ⟨j, hj, rfl⟩ := List.getElem_of_mem hmem
  rw [hidx j hj]
  exact hj

theorem previousPosition_lt (hne : hints ≠ []) :
    previousPosition hints previous_window_id < hints.length := by
  unfold previousPosition
  cases previous_window_id with
  | none => exact List.length_pos.2 hne
  | some prev_id =>
    cases h : hints.findIdx? fun hint => hint.windowId = prev_id with
    | none => simpa [h] using List.length_pos.2 hne
    | some i => simpa [h] using (List.findIdx?_eq_some_iff_findIdx_eq.1 h).1

variable (hne : hints ≠ []) (hidx : ∀ i (h : i < hints.length), hints[i].index = i)

include hne in
theorem quickSwitchResult_inBounds (start_time : Instant) :
    InBounds config hints.length
      (.exiting (quickSwitchResult config hints previous_window_id now start_time)) := by
  unfold quickSwitchResult
  split_ifs
  · split
    · split
      · exact List.fst_lt_of_mem_enum (List.mem_of_find?_eq_some ‹_›)
      · exact List.length_pos.2 hne
    · trivial
  · exact List.length_pos.2 hne

include hne hidx in
theorem borderOnlyKeyPress_inBounds (keysym : Keysym) (shift : Bool) :
    InBounds config hints.length (borderOnlyKeyPress L config hints now keysym shift).newState := by
  have hpos : 0 < hints.length := List.length_pos.2 hne
  refine borderOnlyKeyPress_elim (P := fun t => InBounds config hints.length t.newState)
    L config hints now ?_ trivial (fun _ _ _ _ h => matchInput_exact_lt L hints hidx h)
    (fun _ _ _ _ => hpos) (fun _ _ _ h => h) hpos
  show (if shift then _ else _) < _
  split <;> omega

include hidx in
theorem fullOverlayKeyPress_inBounds {sel : Nat} (hsel : sel < hints.length) (input : String)
    (keysym : Keysym) (shift : Bool) :
    InBounds config hints.length
      (fullOverlayKeyPress L config hints now sel input keysym shift).newState :=
  fullOverlayKeyPress_elim (P := fun t => InBounds config hints.length t.newState)
    L config hints now (fun _ => cycleIndex_lt _ hsel) hsel trivial hsel
    (fun _ _ _ _ h => matchInput_exact_lt L hints hidx h) (fun _ _ _ _ => hsel) (fun _ _ _ h => h) hsel

include hidx in
theorem pendingKeyPress_inBounds {i : Nat} (hi : i < hints.length) (input : String)
    (timeout : TimeoutTracker) (keysym : Keysym) :
    InBounds config hints.length
      (pendingKeyPress L config hints now i input timeout keysym).newState :=
  pendingKeyPress_elim (P := fun t => InBounds config hints.length t.newState)
    L config hints now (fun _ _ _ _ h => matchInput_exact_lt L hints hidx h) (fun _ _ _ _ => hi)
    trivial hi fun _ => hi

include hne hidx in
theorem inBounds_handleEvent {s : AppState} (hs : InBounds config hints.length s) (e : Event) :
    InBounds config hints.length (s.handleEvent L config hints previous_window_id now e).newState := by
  cases s with
  | borderOnly st fc =>
    have hpos := List.length_pos.2 hne
    cases e <;> simp only [handleEvent, borderOnlyEvent]
    case altReleased => exact quickSwitchResult_inBounds config hints previous_window_id now hne st
    case keyPress keysym shift => exact borderOnlyKeyPress_inBounds L config hints now hne hidx keysym shift
    case tick =>
      split_ifs
      · exact previousPosition_lt hints previous_window_id hne
      · trivial
    all_goals simp only [InBounds] <;> omega
  | fullOverlay sel input =>
    cases e <;> simp only [handleEvent, fullOverlayEvent]
    case keyPress keysym shift =>
      exact fullOverlayKeyPress_inBounds L config hints now hidx hs input keysym shift
    all_goals first | exact hs | exact cycleIndex_lt _ hs
  | pendingActivation i input timeout =>
    cases e <;> simp only [handleEvent, pendingEvent]
    case keyPress keysym _ =>
      exact pendingKeyPress_inBounds L config hints now hidx hs input timeout keysym
    case tick => split_ifs <;> exact hs
    all_goals exact hs
  | exiting result => exact hs

end


section
variable (L : Lowercase) (config : Config) (hints : List WindowHint)
  (previous_window_id : Option String)

theorem Reachable.inBounds (hne : hints ≠ []) (hidx : ∀ i (h : i < hints.length), hints[i].index = i)
    {s : AppState} (h : Reachable L config hints previous_window_id s) :
    InBounds config hints.length s := by
  induction h with
  | initial launcher_mode now =>
    cases launcher_mode
    · trivial
    · exact previousPosition_lt hints previous_window_id hne
  | step e now _ ih => exact inBounds_handleEvent L config hints previous_window_id now hne hidx ih e

/-- Index safety on every run from `initial` over hints indexed by their position. -/
theorem run_inBounds (hne : hints ≠ []) (hidx : ∀ i (h : i < hints.length), hints[i].index = i)
    (launcher_mode : Bool) (start : Instant) (events : List (Event × Instant)) :
    InBounds config hints.length (run L config hints previous_window_id
      (initial launcher_mode hints previous_window_id start) events) :=
  (reachable_run_initial L config hints previous_window_id launcher_mode start events).inBounds
    L config hints previous_window_id hne hidx

theorem run_inBounds_single_hint :
    [(⟨.new 'a' 1, "w0", "app", "", 0⟩ : WindowHint)] ≠ [] ∧
    (∀ i (h : i < [(⟨.new 'a' 1, "w0", "app", "", 0⟩ : WindowHint)].length),
      [(⟨.new 'a' 1, "w0", "app", "", 0⟩ : WindowHint)][i].index = i) ∧
    InBounds Config.default [(⟨.new 'a' 1, "w0", "app", "", 0⟩ : WindowHint)].length
      (run .asciiOnly Config.default [⟨.new 'a' 1, "w0", "app", "", 0⟩] none
      (initial true [⟨.new 'a' 1, "w0", "app", "", 0⟩] none 0) [(.keyPress ⟨0x61⟩ false, 1)]) :=
  ⟨by decide, by decide, run_inBounds .asciiOnly Config.default _ none (by decide) (by decide) true 0 _⟩

theorem resolveResult_of_inBounds {result : ActivationResult}
    (h : InBounds config hints.length (.exiting result)) :
    (∀ i, result = .window i → ∃ hi : i < hints.length,
      resolveResult hints previous_window_id (some result) = some (i, hints[i].windowId)) ∧
    (∀ key, result = .launch key → (config.launchConfig key).isSome) := by
  constructor
  · rintro i rfl
    exact ⟨h, by simp [resolveResult, List.getElem?_eq_getElem h]⟩
  · rintro key rfl
    exact h

/-- `App::run` never takes its out-of-range fallback, and `main` finds every launch key. -/
theorem run_resolveResult (hne : hints ≠ []) (hidx : ∀ i (h : i < hints.length), hints[i].index = i)
    (launcher_mode : Bool) (start : Instant) (events : List (Event × Instant))
    {result : ActivationResult} (hrun : run L config hints previous_window_id
      (initial launcher_mode hints previous_window_id start) events = .exiting result) :
    (∀ i, result = .window i → ∃ hi : i < hints.length,
      resolveResult hints previous_window_id (some result) = some (i, hints[i].windowId)) ∧
    (∀ key, result = .launch key → (config.launchConfig key).isSome) :=
  resolveResult_of_inBounds config hints previous_window_id (hrun ▸
    (reachable_run_initial L config hints previous_window_id launcher_mode start events).inBounds
      L config hints previous_window_id hne hidx)

theorem run_resolveResult_typed_a :
    run .asciiOnly Config.default [⟨.new 'a' 1, "w0", "app", "", 0⟩] none
        (initial true [⟨.new 'a' 1, "w0", "app", "", 0⟩] none 0)
        [(.keyPress ⟨0x61⟩ false, 1), (.tick, 300000000)] = .exiting (.window 0) ∧
    (∀ i, ActivationResult.window 0 = .window i →
      ∃ hi : i < [(⟨.new 'a' 1, "w0", "app", "", 0⟩ : WindowHint)].length,
        resolveResult [⟨.new 'a' 1, "w0", "app", "", 0⟩] none (some (.window 0)) =
          some (i, [(⟨.new 'a' 1, "w0", "app", "", 0⟩ : WindowHint)][i].windowId)) ∧
    (∀ key, ActivationResult.window 0 = .launch key → (Config.default.launchConfig key).isSome) :=
  have hrun : run .asciiOnly Config.default [⟨.new 'a' 1, "w0", "app", "", 0⟩] none
      (initial true [⟨.new 'a' 1, "w0", "app", "", 0⟩] none 0)
      [(.keyPress ⟨0x61⟩ false, 1), (.tick, 300000000)] = .exiting (.window 0) := by decide
  ⟨hrun, run_resolveResult .asciiOnly Config.default _ none (by decide) (by decide) true 0 _ hrun⟩

end

section
variable (L : Lowercase) (config : Config) (hints : List WindowHint)
  (previous_window_id : Option String) (now : Instant)

def PrefixesMatch (input : String) : Prop :=
  ∀ p, p <+: input.data → p ≠ [] → HintMatcher.matchInput L hints ⟨p⟩ ≠ .none

/-- The input is extended only by keystrokes some hint still matches, and a pending activation is
the exact match of its input. -/
def InputInv : AppState → Prop
  | .fullOverlay _ input => PrefixesMatch L hints input
  | .pendingActivation hint_index input _ =>
    PrefixesMatch L hints input ∧ ∃ w, HintMatcher.matchInput L hints input = .exact hint_index w
  | _ => True

theorem prefixesMatch_empty : PrefixesMatch L hints "" := by
  intro p hp hne
  exact absurd (List.prefix_nil.1 hp) hne

theorem PrefixesMatch.push {input : String} (h : PrefixesMatch L hints input) {c : Char}
    (hc : HintMatcher.matchInput L hints (input.push c) ≠ .none) :
    PrefixesMatch L hints (input.push c) := by
  intro p hp hne
  rcases List.prefix_concat_iff.1 (by simpa using hp) with rfl | hp
  · exact hc
  · exact h p hp hne

theorem PrefixesMatch.pop {input : String} (h : PrefixesMatch L hints input) :
    PrefixesMatch L hints (popLast input) :=
  fun p hp => h p (hp.trans (by simpa using List.dropLast_prefix input.data))

theorem prefixesMatch_singleton {c : Char}
    (hc : HintMatcher.matchInput L hints c.toString ≠ .none) : PrefixesMatch L hints c.toString :=
  (prefixesMatch_empty L hints).push L hints hc

theorem borderOnlyKeyPress_inputInv (keysym : Keysym) (shift : Bool) :
    InputInv L hints (borderOnlyKeyPress L config hints now keysym shift).newState :=
  borderOnlyKeyPress_elim (P := fun t => InputInv L hints t.newState) L config hints now
    (prefixesMatch_empty L hints) trivial
    (fun _ _ _ _ h => ⟨prefixesMatch_singleton L hints (by simp [h]), _, h⟩)
    (fun _ _ _ h => prefixesMatch_singleton L hints (by simp [h])) (fun _ _ _ _ => trivial)
    (prefixesMatch_empty L hints)

theorem fullOverlayKeyPress_inputInv {sel : Nat} {input : String} (hs : PrefixesMatch L hints input)
    (keysym : Keysym) (shift : Bool) :
    InputInv L hints (fullOverlayKeyPress L config hints now sel input keysym shift).newState :=
  fullOverlayKeyPress_elim (P := fun t => InputInv L hints t.newState) L config hints now
    (fun _ => hs) trivial trivial (hs.pop L hints)
    (fun _ _ _ _ h => ⟨hs.push L hints (by simp [h]), _, h⟩)
    (fun _ _ _ h => hs.push L hints (by simp [h])) (fun _ _ _ _ => trivial) hs

theorem pendingKeyPress_inputInv {i : Nat} {input : String} {timeout : TimeoutTracker}
    (hs : InputInv L hints (.pendingActivation i input timeout)) (keysym : Keysym) :
    InputInv L hints (pendingKeyPress L config hints now i input timeout keysym).newState :=
  pendingKeyPress_elim (P := fun t => InputInv L hints t.newState) L config hints now
    (fun _ _ _ _ h => ⟨hs.1.push L hints (by simp [h]), _, h⟩)
    (fun _ _ _ h => hs.1.push L hints (by simp [h])) trivial (hs.1.pop L hints) fun _ => hs

theorem inputInv_handleEvent {s : AppState} (hs : InputInv L hints s) (e : Event) :
    InputInv L hints (s.handleEvent L config hints previous_window_id now e).newState := by
  cases s with
  | borderOnly st fc =>
    cases e <;> simp only [handleEvent, borderOnlyEvent]
    case keyPress keysym shift => exact borderOnlyKeyPress_inputInv L config hints now keysym shift
    case tick => split_ifs <;> simp [InputInv, prefixesMatch_empty]
    all_goals simp [InputInv, prefixesMatch_empty]
  | fullOverlay sel input =>
    cases e <;> simp only [handleEvent, fullOverlayEvent]
    case keyPress keysym shift => exact fullOverlayKeyPress_inputInv L config hints now hs keysym shift
    all_goals first | exact hs | trivial
  | pendingActivation i input timeout =>
    cases e <;> simp only [handleEvent, pendingEvent]
    case keyPress keysym _ => exact pendingKeyPress_inputInv L config hints now hs keysym
    case tick => split_ifs; trivial; exact hs
    all_goals first | exact hs | trivial
  | exiting result => trivial

end


section
variable (L : Lowercase) (config : Config) (hints : List WindowHint)
  (previous_window_id : Option String)

/-- What the input shows is what the machine acts on. -/
def InputConsistent : AppState → Prop
  | .pendingActivation hint_index input _ =>
    ∃ w, HintMatcher.matchInput L hints input = .exact hint_index w
  | .fullOverlay _ input => input = "" ∨ HintMatcher.matchInput L hints input ≠ .none
  | _ => True

theorem Reachable.inputInv {s : AppState} (h : Reachable L config hints previous_window_id s) :
    InputInv L hints s := by
  induction h with
  | initial launcher_mode now =>
    cases launcher_mode
    · trivial
    · exact prefixesMatch_empty L hints
  | step e now _ ih => exact inputInv_handleEvent L config hints previous_window_id now ih e

theorem InputInv.consistent {s : AppState} (h : InputInv L hints s) : InputConsistent L hints s := by
  match s, h with
  | .borderOnly .., _ | .exiting _, _ => trivial
  | .pendingActivation .., h => exact h.2
  | .fullOverlay _ input, h =>
    by_cases hi : input.data = []
    · exact .inl (String.ext hi)
    · exact .inr (h input.data (List.prefix_refl _) hi)

theorem run_inputConsistent (launcher_mode : Bool) (start : Instant)
    (events : List (Event × Instant)) :
    InputConsistent L hints (run L config hints previous_window_id
      (initial launcher_mode hints previous_window_id start) events) :=
  ((reachable_run_initial L config hints previous_window_id launcher_mode start events).inputInv
    L config hints previous_window_id).consistent L hints

end

end AppState

end OpenSesame
