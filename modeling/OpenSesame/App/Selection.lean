import OpenSesame.App.Run
import OpenSesame.Core.Assignment

/-!
# Selecting a window by typing its hint

Every prefix of a hint is another hint of its group, so typing a hint ends in the pending
activation of the hint equal to the input. That is the typed one unless two base letters differ
only by case, which `assign` allows.
-/

namespace OpenSesame

/-- The X keysym of a printable ASCII character is its code. -/
def Keysym.ofChar (c : Char) : Keysym := ⟨c.val⟩

theorem keysymToChar_ofChar {c : Char} (h : 0x20 ≤ c.toNat ∧ c.toNat ≤ 0x7e) :
    keysymToChar (.ofChar c) = some c := by
  have h' : 0x20 ≤ c.val ∧ c.val ≤ 0x7e := h
  simp only [keysymToChar, Keysym.ofChar, h', and_self, if_true]
  exact congrArg some (Char.ofNat_toNat c)

namespace AppState

def typeLetter (c : Char) (times : List Instant) : List (Event × Instant) :=
  times.map fun t => (.keyPress (.ofChar c) false, t)

section
variable (L : Lowercase) (config : Config) (hints : List WindowHint)
  (previous_window_id : Option String)
variable {L hints} (hdc : DownwardClosed hints) {h : WindowHint} (hh : h ∈ hints)

include hdc hh in
theorem matchInput_replicate_exact (hascii : h.hint.base.toNat < 128) {m : Nat} (hm0 : 0 < m)
    (hm : m ≤ h.hint.count) :
    ∃ index w, HintMatcher.matchInput L hints ⟨List.replicate m h.hint.base⟩ = .exact index w := by
  obtain ⟨h', hh', hb, hc⟩ := hdc h hh m hm0 hm
  have hne : (⟨List.replicate m h.hint.base⟩ : String) ≠ "" := fun he => by
    simpa [Nat.pos_iff_ne_zero.1 hm0] using congrArg String.data he
  rw [HintMatcher.matchInput_eq_exactLookup hdc hne]
  refine HintMatcher.exactLookup_exact_of_mem hh' ?_
  rw [normalizeInput_replicate L hascii h.hint.base_lower hm0]
  exact String.ext (by simp [hb, hc])

include hdc hh in
theorem run_typeLetter (hprint : 0x20 ≤ h.hint.base.toNat ∧ h.hint.base.toNat ≤ 0x7e)
    (launcher_mode : Bool) (start : Instant) (ts : List Instant) (t : Instant)
    (hlen : ts.length + 1 ≤ h.hint.count) :
    ∃ index w, run L config hints previous_window_id
        (initial launcher_mode hints previous_window_id start) (typeLetter h.hint.base (ts ++ [t])) =
          .pendingActivation index ⟨List.replicate (ts.length + 1) h.hint.base⟩
            (startedTimeout config t) ∧
      HintMatcher.matchInput L hints ⟨List.replicate (ts.length + 1) h.hint.base⟩ = .exact index w := by
  have hk := keysymToChar_ofChar hprint
  have hascii : h.hint.base.toNat < 128 := by omega
  induction ts using List.reverseRecOn generalizing t with
  | nil =>
    obtain ⟨i, w, hm⟩ :=
      matchInput_replicate_exact hdc hh hascii (m := 1) Nat.one_pos (by simpa using hlen)
    refine ⟨i, w, ?_, hm⟩
    cases launcher_mode
    · exact congrArg Transition.newState (borderOnlyKeyPress_exact L config hints t hk hm)
    · have hm' : HintMatcher.matchInput L hints ("".push h.hint.base) = .exact i w := hm
      exact congrArg Transition.newState (fullOverlayKeyPress_exact L config hints t hk hm')
  | append_singleton ts t' ih =>
    simp only [List.length_append, List.length_singleton] at hlen ⊢
    obtain ⟨i, w, hrun, -⟩ := ih t' (by omega)
    obtain ⟨i', w', hm⟩ :=
      matchInput_replicate_exact hdc hh hascii (m := ts.length + 1 + 1) (by omega) hlen
    have hpush : (⟨List.replicate (ts.length + 1) h.hint.base⟩ : String).push h.hint.base =
        ⟨List.replicate (ts.length + 1 + 1) h.hint.base⟩ := by
      simp [String.push, List.replicate_succ']
    refine ⟨i', w', ?_, hm⟩
    rw [typeLetter, List.map_append, ← typeLetter, run_append, hrun]
    rw [← hpush] at hm ⊢
    exact congrArg Transition.newState (pendingKeyPress_exact L config hints t hk hm)

include hdc hh in
/-- On a downward-closed list with no two hints of one text, typing a printable hint ends in its
pending activation. -/
theorem run_typeHint (huniq : ∀ h' ∈ hints, h'.hint = h.hint → h' = h)
    (hprint : 0x20 ≤ h.hint.base.toNat ∧ h.hint.base.toNat ≤ 0x7e) (launcher_mode : Bool)
    (start : Instant) (ts : List Instant) (t : Instant) (hlen : ts.length + 1 = h.hint.count) :
    run L config hints previous_window_id (initial launcher_mode hints previous_window_id start)
        (typeLetter h.hint.base (ts ++ [t])) =
      .pendingActivation h.index h.hint.asString (startedTimeout config t) := by
  obtain ⟨i, w, hrun, hm⟩ :=
    run_typeLetter config previous_window_id hdc hh hprint launcher_mode start ts t hlen.le
  rw [hlen] at hrun hm
  have hne : h.hint.asString ≠ "" := fun he => by
    simpa [Nat.pos_iff_ne_zero.1 h.hint.count_pos] using congrArg String.data he
  have hnorm := normalizeInput_replicate L (by omega) h.hint.base_lower h.hint.count_pos
  have hex : HintMatcher.matchInput L hints h.hint.asString = .exact h.index h.windowId := by
    rw [HintMatcher.matchInput_eq_exactLookup hdc hne]
    exact HintMatcher.exactLookup_of_unique hh huniq hnorm.symm
  rw [show (⟨List.replicate h.hint.count h.hint.base⟩ : String) = h.hint.asString from rfl, hex] at hm
  cases hm
  exact hrun

end

/-- Typing a window's hint selects that window, when every base letter is printable and no two
differ only by case. -/
theorem run_type_assigned_hint (L : Lowercase) (config : Config) (windows : List Window)
    (key_for_app : String → Option Char) (previous_window_id : Option String)
    (hprint : ∀ w ∈ windows,
      0x20 ≤ (baseFor L key_for_app w).toNat ∧ (baseFor L key_for_app w).toNat ≤ 0x7e)
    (hcase : ∀ v ∈ windows, ∀ w ∈ windows,
      (baseFor L key_for_app v).toLower = (baseFor L key_for_app w).toLower →
        baseFor L key_for_app v = baseFor L key_for_app w)
    {h : WindowHint} (hh : h ∈ (HintAssignment.assign L windows key_for_app).hints)
    (launcher_mode : Bool) (start : Instant) (ts : List Instant) (t : Instant)
    (hlen : ts.length + 1 = h.hint.count) :
    windows[h.index]?.map Window.id = some h.windowId ∧
    run L config (HintAssignment.assign L windows key_for_app).hints previous_window_id
        (initial launcher_mode (HintAssignment.assign L windows key_for_app).hints
          previous_window_id start) (typeLetter h.hint.base (ts ++ [t])) =
      .pendingActivation h.index h.hint.asString (startedTimeout config t) ∧
    (∀ u, ((AppState.pendingActivation h.index h.hint.asString (startedTimeout config t)).handleEvent
        L config (HintAssignment.assign L windows key_for_app).hints previous_window_id u
          .altReleased).newState = .exiting (.window h.index)) ∧
    (∀ u, Duration.fromMillis config.settings.activationDelay ≤ u - t →
      ((AppState.pendingActivation h.index h.hint.asString (startedTimeout config t)).handleEvent
        L config (HintAssignment.assign L windows key_for_app).hints previous_window_id u
          .tick).newState = .exiting (.window h.index)) := by
  rw [assign_hints] at hh ⊢
  obtain ⟨w, hw, hid, hbase⟩ := referenceHints_mem L key_for_app hh
  have hprint' : 0x20 ≤ h.hint.base.toNat ∧ h.hint.base.toNat ≤ 0x7e :=
    hbase ▸ Char.toLower_printable (hprint w (List.getElem?_mem hw))
  have hdc : DownwardClosed (referenceHints L key_for_app windows) := by
    simpa [← assign_hints] using downwardClosed_assignIn (byBase L key_for_app windows)
  refine ⟨by simp [hw, hid], run_typeHint config previous_window_id hdc hh
    (fun h' hh' => referenceHints_hint_inj L key_for_app hcase hh hh') hprint'
    launcher_mode start ts t hlen, fun u => rfl, fun u hu => ?_⟩
  simp [handleEvent, pendingEvent, startedTimeout, TimeoutTracker.new, hu]

theorem run_type_assigned_hint_ghostty :
    [(⟨"w0", "firefox", "", false⟩ : Window), ⟨"w1", "ghostty", "", false⟩][1]?.map Window.id =
      some "w1" ∧
    run .asciiOnly Config.default (HintAssignment.assign .asciiOnly
        [⟨"w0", "firefox", "", false⟩, ⟨"w1", "ghostty", "", false⟩]
          (Config.default.keyForApp .asciiOnly)).hints none
        (initial false (HintAssignment.assign .asciiOnly
          [⟨"w0", "firefox", "", false⟩, ⟨"w1", "ghostty", "", false⟩]
            (Config.default.keyForApp .asciiOnly)).hints none 0) (typeLetter 'g' ([] ++ [1])) =
      .pendingActivation 1 (HintSequence.new 'g' 1).asString (startedTimeout Config.default 1) ∧
    (∀ u, ((AppState.pendingActivation 1 (HintSequence.new 'g' 1).asString
        (startedTimeout Config.default 1)).handleEvent .asciiOnly Config.default
          (HintAssignment.assign .asciiOnly [⟨"w0", "firefox", "", false⟩,
            ⟨"w1", "ghostty", "", false⟩] (Config.default.keyForApp .asciiOnly)).hints none u
          .altReleased).newState = .exiting (.window 1)) ∧
    (∀ u, Duration.fromMillis Config.default.settings.activationDelay ≤ u - 1 →
      ((AppState.pendingActivation 1 (HintSequence.new 'g' 1).asString
        (startedTimeout Config.default 1)).handleEvent .asciiOnly Config.default
          (HintAssignment.assign .asciiOnly [⟨"w0", "firefox", "", false⟩,
            ⟨"w1", "ghostty", "", false⟩] (Config.default.keyForApp .asciiOnly)).hints none u
          .tick).newState = .exiting (.window 1)) :=
  run_type_assigned_hint .asciiOnly Config.default
    [⟨"w0", "firefox", "", false⟩, ⟨"w1", "ghostty", "", false⟩] (Config.default.keyForApp .asciiOnly)
    none (by decide) (by decide) (h := ⟨.new 'g' 1, "w1", "ghostty", "", 1⟩) (by decide) false 0 [] 1
    (by decide)

/-- A configured `G` for `gedit` and a generated `g` for `gimp` give both the hint `g`; typing it
selects `gedit`. -/
theorem run_typing_g_selects_gedit_only :
    (HintAssignment.assign .asciiOnly [⟨"w0", "gedit", "", false⟩, ⟨"w1", "gimp", "", false⟩]
        (Config.keyForApp .asciiOnly
          ⟨Settings.default, ⟨[("G", ⟨["gedit"], none⟩)], by decide⟩⟩)).hints =
      [⟨.new 'G' 1, "w0", "gedit", "", 0⟩, ⟨.new 'g' 1, "w1", "gimp", "", 1⟩] ∧
    (HintSequence.new 'G' 1).asString = (HintSequence.new 'g' 1).asString ∧
    ∀ launcher_mode, run .asciiOnly ⟨Settings.default, ⟨[("G", ⟨["gedit"], none⟩)], by decide⟩⟩
        [⟨.new 'G' 1, "w0", "gedit", "", 0⟩, ⟨.new 'g' 1, "w1", "gimp", "", 1⟩] none
        (initial launcher_mode [⟨.new 'G' 1, "w0", "gedit", "", 0⟩, ⟨.new 'g' 1, "w1", "gimp", "", 1⟩]
          none 0) [(.keyPress ⟨0x67⟩ false, 1)] =
      .pendingActivation 0 "g" ⟨some 1, 200000000⟩ :=
  ⟨by decide, by decide, by decide⟩

end AppState

end OpenSesame
