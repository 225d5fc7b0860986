import OpenSesame.App.Invariants

/-!
# The input processor

`input/buffer.rs` and `input/processor.rs`, the library's second input pipeline;
`Keysym::key_char` is xkbcommon's table and a parameter. Until it asks for a launch, every run
keeps the processor `Consistent` (`reachable_consistent`).
-/

namespace OpenSesame

def TimeoutTracker.cancel (t : TimeoutTracker) : TimeoutTracker := { t with startedAt := none }

def TimeoutTracker.reset (t : TimeoutTracker) (now : Instant) : TimeoutTracker := t.start now

namespace Input

def maxInputLength : Nat := 64

structure InputBuffer where
  chars : List Char
deriving DecidableEq, Repr

namespace InputBuffer

def new : InputBuffer := ⟨[]⟩

/-- The character, lowercased, unless the buffer is full; whether it was added. -/
def push (b : InputBuffer) (c : Char) : InputBuffer × Bool :=
  if maxInputLength ≤ b.chars.length then (b, false) else (⟨b.chars ++ [c.toLower]⟩, true)

def pop (b : InputBuffer) : InputBuffer × Option Char := (⟨b.chars.dropLast⟩, b.chars.getLast?)

def firstChar (b : InputBuffer) : Option Char := b.chars.head?

def asStr (b : InputBuffer) : String := ⟨b.chars⟩

/-- `From<&str>`: lowercased, cut at `MAX_INPUT_LENGTH` characters. -/
def ofStr (L : Lowercase) (s : String) : InputBuffer :=
  ⟨(L.toLowercase s.data).take maxInputLength⟩

end InputBuffer

inductive SelectionDirection where
  | up
  | down
deriving DecidableEq, Repr

inductive InputAction where
  | ignore
  | bufferChanged
  | selectionChanged (direction : SelectionDirection)
  | pendingActivation (windowId : String) (index : Nat)
  | activateNow (windowId : String) (index : Nat)
  | activateSelected
  | tryLaunch (key : Char)
  | cancel
deriving DecidableEq, Repr

structure InputProcessor where
  buffer : InputBuffer
  timeout : TimeoutTracker
  pendingIndex : Option Nat
  pendingWindowId : Option String
deriving DecidableEq, Repr

/-- An ASCII letter or digit, lowercased. -/
def keysymToChar (keyChar : Keysym → Option Char) (key : Keysym) : Option Char :=
  ((keyChar key).filter Char.isAlphanum).map Char.toLower

namespace InputProcessor

def new (activation_delay_ms : Nat) : InputProcessor :=
  ⟨.new, .new activation_delay_ms, none, none⟩

def hasPending (p : InputProcessor) : Bool := p.pendingIndex.isSome

def pending (p : InputProcessor) : Option (Nat × String) :=
  match p.pendingIndex, p.pendingWindowId with
  | some idx, some id => some (idx, id)
  | _, _ => none

@[simp] theorem pending_eq_some {p : InputProcessor} {i : Nat} {w : String} :
    p.pending = some (i, w) ↔ p.pendingIndex = some i ∧ p.pendingWindowId = some w := by
  unfold pending
  split <;> simp_all

def clearPending (p : InputProcessor) : InputProcessor :=
  { p with pendingIndex := none, pendingWindowId := none, timeout := p.timeout.cancel }

/-- Once the timeout has elapsed, both parts of the match are taken and the timeout cancelled. -/
def checkTimeout (now : Instant) (p : InputProcessor) : InputProcessor × Option (Nat × String) :=
  if p.timeout.hasElapsed now then
    match p.pendingIndex, p.pendingWindowId with
    | some idx, some id =>
      ({ p with pendingIndex := none, pendingWindowId := none, timeout := p.timeout.cancel },
        some (idx, id))
    | _, _ => ({ p with pendingIndex := none, pendingWindowId := none }, none)
  else (p, none)

section Process

variable (L : Lowercase) (hints : List WindowHint) (keyChar : Keysym → Option Char)
  (has_launch_config : String → Bool) (now : Instant)

def processChar (p : InputProcessor) (c : Char) : InputProcessor × InputAction :=
  let p := { p with buffer := (p.buffer.push c).1, timeout := p.timeout.reset now }
  match HintMatcher.matchInput L hints p.buffer.asStr with
  | .exact index window_id =>
    let p := { p with pendingIndex := some index, pendingWindowId := some window_id }
    ({ p with timeout := p.timeout.start now }, .pendingActivation window_id index)
  | .none =>
    match p.buffer.firstChar with
    | some key =>
      if has_launch_config key.toString then (p, .tryLaunch key)
      else ({ p with buffer := p.buffer.pop.1 }, .bufferChanged)
    | none => ({ p with buffer := p.buffer.pop.1 }, .bufferChanged)
  | .partialMatch _ => (p.clearPending, .bufferChanged)

/-- With `HintMatcher::new(hints)` as the matcher. -/
def processKey (p : InputProcessor) (key : Keysym) : InputProcessor × InputAction :=
  if key = Keysym.Escape then (p, .cancel)
  else if key = Keysym.BackSpace then
    let p := { p with buffer := p.buffer.pop.1 }.clearPending
    ({ p with timeout := p.timeout.reset now }, .bufferChanged)
  else if key = Keysym.Return ∨ key = Keysym.KP_Enter then
    match p.pending with
    | some (idx, id) => (p.clearPending, .activateNow id idx)
    | none =>
      match HintMatcher.matchInput L hints p.buffer.asStr with
      | .exact index window_id => (p, .activateNow window_id index)
      | _ => (p, .activateSelected)
  else if key = Keysym.Up ∨ key = Keysym.KP_Up then (p, .selectionChanged .up)
  else if key = Keysym.Down ∨ key = Keysym.KP_Down then (p, .selectionChanged .down)
  else
    match keysymToChar keyChar key with
    | none => (p, .ignore)
    | some c => processChar L hints has_launch_config now p c

end Process

/-! ### Consistency -/

section Consistency

variable (L : Lowercase) (hints : List WindowHint) (keyChar : Keysym → Option Char)
  (has_launch_config : String → Bool)

/-- The buffer fits, holds lowercase ASCII letters and digits, and each non-empty prefix is matched;
a pending match is the buffer's exact match, its timeout running. -/
structure Consistent (p : InputProcessor) : Prop where
  fits : p.buffer.chars.length ≤ maxInputLength
  lower : ∀ c ∈ p.buffer.chars, c.isAlphanum ∧ c.toLower = c
  prefixes : AppState.PrefixesMatch L hints p.buffer.asStr
  paired : p.pendingIndex.isSome = p.pendingWindowId.isSome
  pending : ∀ i w, p.pending = some (i, w) →
    HintMatcher.matchInput L hints p.buffer.asStr = .exact i w ∧ p.timeout.startedAt.isSome

theorem isAlphanum_toLower {c : Char} (h : c.isAlphanum) : c.toLower.isAlphanum := by
  by_cases hu : 65 ≤ c.toNat ∧ c.toNat ≤ 90
  · have ha : c.isAlpha := (Char.isAlpha_iff c).2 (.inl hu)
    simp [Char.isAlphanum, Char.isAlpha_toLower ha]
  · rwa [Char.toLower_of_not_upper hu]

theorem keysymToChar_lower {key : Keysym} {c : Char} (h : keysymToChar keyChar key = some c) :
    c.isAlphanum ∧ c.toLower = c := by
  obtain ⟨d, hd, rfl⟩ := Option.map_eq_some'.1 h
  exact ⟨isAlphanum_toLower (Option.filter_eq_some.1 hd).2, Char.toLower_toLower d⟩

theorem push_cases (b : InputBuffer) (c : Char) :
    ((b.push c).1 = b ∧ maxInputLength ≤ b.chars.length) ∨
      ((b.push c).1.chars = b.chars ++ [c.toLower] ∧ b.chars.length < maxInputLength) := by
  unfold InputBuffer.push
  split_ifs with hfull
  · exact .inl ⟨rfl, hfull⟩
  · exact .inr ⟨rfl, by omega⟩

theorem fits_push {b : InputBuffer} (h : b.chars.length ≤ maxInputLength) (c : Char) :
    (b.push c).1.chars.length ≤ maxInputLength := by
  rcases push_cases b c with ⟨hb, -⟩ | ⟨hb, hlt⟩
  · rwa [hb]
  · simp only [hb, List.length_append, List.length_singleton]; omega

theorem lower_push {b : InputBuffer} (h : ∀ c ∈ b.chars, c.isAlphanum ∧ c.toLower = c) {c : Char}
    (hc : c.isAlphanum ∧ c.toLower = c) : ∀ d ∈ (b.push c).1.chars, d.isAlphanum ∧ d.toLower = d := by
  rcases push_cases b c with ⟨hb, -⟩ | ⟨hb, -⟩
  · rwa [hb]
  · intro d hd
    rw [hb, hc.2, List.mem_append, List.mem_singleton] at hd
    rcases hd with hd | rfl
    exacts [h d hd, hc]

theorem prefixes_push {b : InputBuffer} (h : AppState.PrefixesMatch L hints b.asStr) (c : Char)
    (hm : HintMatcher.matchInput L hints (b.push c).1.asStr ≠ .none) :
    AppState.PrefixesMatch L hints (b.push c).1.asStr := by
  rcases push_cases b c with ⟨hb, -⟩ | ⟨hb, -⟩
  · rwa [hb]
  · have he : (b.push c).1.asStr = b.asStr.push c.toLower := String.ext hb
    rw [he] at hm ⊢
    exact h.push L hints hm

theorem pop_push {b : InputBuffer} (h : AppState.PrefixesMatch L hints b.asStr) (c : Char)
    (hm : HintMatcher.matchInput L hints (b.push c).1.asStr = .none) : (b.push c).1.pop.1 = b := by
  rcases push_cases b c with ⟨hb, hfull⟩ | ⟨hb, -⟩
  · rw [hb] at hm
    have hne : b.chars ≠ [] := fun hnil => by simp [hnil, maxInputLength] at hfull
    exact absurd hm (h b.chars (List.prefix_refl _) hne)
  · simp [InputBuffer.pop, hb]

theorem consistent_of_not_pending {p : InputProcessor}
    (hfits : p.buffer.chars.length ≤ maxInputLength)
    (hlower : ∀ c ∈ p.buffer.chars, c.isAlphanum ∧ c.toLower = c)
    (hprefixes : AppState.PrefixesMatch L hints p.buffer.asStr)
    (hi : p.pendingIndex = none) (hw : p.pendingWindowId = none) : Consistent L hints p :=
  ⟨hfits, hlower, hprefixes, by simp [hi, hw], fun _ _ hp => by simp [hi] at hp⟩

theorem consistent_new (activation_delay_ms : Nat) :
    Consistent L hints (new activation_delay_ms) :=
  consistent_of_not_pending L hints (Nat.zero_le _) (fun _ h => absurd h (List.not_mem_nil _))
    (AppState.prefixesMatch_empty L hints) rfl rfl

theorem Consistent.checkTimeout {p : InputProcessor} (h : Consistent L hints p) (now : Instant) :
    Consistent L hints (checkTimeout now p).1 := by
  unfold InputProcessor.checkTimeout
  split_ifs
  · split
    all_goals exact consistent_of_not_pending L hints h.fits h.lower h.prefixes rfl rfl
  · exact h

theorem Consistent.backspace {p : InputProcessor} (h : Consistent L hints p) (now : Instant) :
    Consistent L hints
      { ({ p with buffer := p.buffer.pop.1 }).clearPending with timeout := p.timeout.cancel.reset now } :=
  consistent_of_not_pending L hints
    ((List.length_dropLast _).trans_le (Nat.sub_le _ _ |>.trans h.fits))
    (fun c hc => h.lower c ((List.dropLast_prefix _).subset hc)) (h.prefixes.pop L hints) rfl rfl

theorem Consistent.processChar {p : InputProcessor} (h : Consistent L hints p) {c : Char}
    (hc : c.isAlphanum ∧ c.toLower = c) (now : Instant)
    (hlaunch : ∀ k, (processChar L hints has_launch_config now p c).2 ≠ .tryLaunch k) :
    Consistent L hints (processChar L hints has_launch_config now p c).1 := by
  have hfits := fits_push h.fits c
  have hlower := lower_push h.lower hc
  have hback : ∀ t : TimeoutTracker, t.startedAt.isSome →
      HintMatcher.matchInput L hints (p.buffer.push c).1.asStr = .none →
      Consistent L hints { p with buffer := (p.buffer.push c).1.pop.1, timeout := t } :=
    fun t ht hm => by
      rw [pop_push L hints h.prefixes c hm]
      exact ⟨h.fits, h.lower, h.prefixes, h.paired, fun i w hp => ⟨(h.pending i w hp).1, ht⟩⟩
  unfold InputProcessor.processChar at hlaunch ⊢
  dsimp only at hlaunch ⊢
  cases hm : HintMatcher.matchInput L hints (p.buffer.push c).1.asStr with
  | exact index w =>
    refine ⟨hfits, hlower, prefixes_push L hints h.prefixes c (by simp [hm]), rfl, ?_⟩
    simp only [pending_eq_some, Option.some.injEq, and_imp]
    rintro i w' rfl rfl
    exact ⟨hm, rfl⟩
  | none =>
    simp only [hm] at hlaunch ⊢
    cases hk : (p.buffer.push c).1.firstChar with
    | some k =>
      simp only [hk] at hlaunch ⊢
      by_cases hl : has_launch_config k.toString
      · simp [hl] at hlaunch
      · rw [if_neg hl]; exact hback _ rfl hm
    | none => exact hback _ rfl hm
  | partialMatch indices =>
    exact consistent_of_not_pending L hints hfits hlower
      (prefixes_push L hints h.prefixes c (by simp [hm])) rfl rfl

theorem Consistent.processKey {p : InputProcessor} (h : Consistent L hints p) (now : Instant)
    (key : Keysym) (hlaunch : ∀ k, (processKey L hints keyChar has_launch_config now p key).2 ≠ .tryLaunch k) :
    Consistent L hints (processKey L hints keyChar has_launch_config now p key).1 := by
  unfold InputProcessor.processKey at hlaunch ⊢
  by_cases hesc : key = Keysym.Escape
  · rw [if_pos hesc]; exact h
  rw [if_neg hesc] at hlaunch ⊢
  by_cases hback : key = Keysym.BackSpace
  · rw [if_pos hback]; exact h.backspace L hints now
  rw [if_neg hback] at hlaunch ⊢
  by_cases henter : key = Keysym.Return ∨ key = Keysym.KP_Enter
  · rw [if_pos henter]
    split
    · exact consistent_of_not_pending L hints h.fits h.lower h.prefixes rfl rfl
    · split <;> exact h
  rw [if_neg henter] at hlaunch ⊢
  by_cases hup : key = Keysym.Up ∨ key = Keysym.KP_Up
  · rw [if_pos hup]; exact h
  rw [if_neg hup] at hlaunch ⊢
  by_cases hdown : key = Keysym.Down ∨ key = Keysym.KP_Down
  · rw [if_pos hdown]; exact h
  rw [if_neg hdown] at hlaunch ⊢
  cases hc : keysymToChar keyChar key with
  | none => exact h
  | some c =>
    simp only [hc] at hlaunch ⊢
    exact h.processChar L hints has_launch_config (keysymToChar_lower keyChar hc) now hlaunch

/-- The runs from `InputProcessor::new` that never ask their caller for a launch. -/
inductive Reachable (activation_delay_ms : Nat) : InputProcessor → Prop
  | new : Reachable activation_delay_ms (new activation_delay_ms)
  | key {p : InputProcessor} (now : Instant) (key : Keysym) : Reachable activation_delay_ms p →
      (∀ k, (processKey L hints keyChar has_launch_config now p key).2 ≠ .tryLaunch k) →
      Reachable activation_delay_ms (processKey L hints keyChar has_launch_config now p key).1
  | check {p : InputProcessor} (now : Instant) : Reachable activation_delay_ms p →
      Reachable activation_delay_ms (checkTimeout now p).1

/-- Along every run that launches nothing, at every instant, the processor stays consistent. -/
theorem reachable_consistent {activation_delay_ms : Nat} {p : InputProcessor}
    (h : Reachable L hints keyChar has_launch_config activation_delay_ms p) :
    Consistent L hints p := by
  induction h with
  | new => exact consistent_new L hints activation_delay_ms
  | key now key _ hlaunch ih => exact ih.processKey L hints keyChar has_launch_config now key hlaunch
  | check now _ ih => exact ih.checkTimeout L hints now

theorem reachable_consistent_after_f :
    Consistent .asciiOnly [⟨.new 'f' 1, "w0", "firefox", "", 0⟩, ⟨.new 'g' 1, "w1", "ghostty", "", 1⟩]
      (processKey .asciiOnly [⟨.new 'f' 1, "w0", "firefox", "", 0⟩, ⟨.new 'g' 1, "w1", "ghostty", "", 1⟩]
        (fun _ => some 'f') (fun _ => false) 0 (new 200) ⟨0x66⟩).1 :=
  have hpending : (processKey .asciiOnly
      [⟨.new 'f' 1, "w0", "firefox", "", 0⟩, ⟨.new 'g' 1, "w1", "ghostty", "", 1⟩]
      (fun _ => some 'f') (fun _ => false) 0 (new 200) ⟨0x66⟩).2 = .pendingActivation "w0" 0 := by
    decide
  reachable_consistent .asciiOnly _ _ _ (.key 0 ⟨0x66⟩ .new fun k h => by rw [hpending] at h; cases h)

end Consistency

end InputProcessor

end Input

end OpenSesame
