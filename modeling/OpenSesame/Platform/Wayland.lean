import OpenSesame.Core.Hint
import OpenSesame.Util.Mru

/-!
# Window enumeration and activation

`platform/wayland/protocols.rs`: a desktop is the toplevels the protocols report.
`enumerate_windows` drops those with no app id and moves the focused one last; `focus`, what the
compositor does on activation, is not from the source.
-/

namespace OpenSesame

namespace Wayland

open Mru

/-- What the protocols reported for one toplevel, once both round trips are done. -/
structure PendingToplevel where
  identifier : Option String
  appId : Option String
  title : Option String
  isActivated : Bool
deriving DecidableEq, Repr

/-- A toplevel with no app id, or an empty one, is no window. -/
def toWindow (pending : PendingToplevel) : Option Window := do
  let app_id ← pending.appId
  if app_id.isEmpty then none
  else some ⟨pending.identifier.getD "", app_id, pending.title.getD "", pending.isActivated⟩

def enumerateWindows (toplevels : List PendingToplevel) : List Window :=
  let windows := toplevels.filterMap toWindow
  match windows.findIdx? (·.isFocused) with
  | some focused_idx => moveToEnd windows focused_idx
  | none => windows

/-- Whether `request_cosmic_handle` finds the identifier among the toplevels. -/
def activateWindow (toplevels : List PendingToplevel) (identifier : String) : Bool :=
  toplevels.any fun t => t.identifier = some identifier

/-- What the compositor does when `activate_window` succeeds (not from the source). -/
def focus (toplevels : List PendingToplevel) (identifier : String) : List PendingToplevel :=
  toplevels.map fun t => { t with isActivated := t.identifier = some identifier }

def identifiers (toplevels : List PendingToplevel) : List String :=
  toplevels.filterMap (·.identifier)

/-- Distinct clean identifiers, non-empty app ids, and the activated toplevel the one with
identifier `focused`. -/
structure FocusedOn (toplevels : List PendingToplevel) (focused : String) : Prop where
  window : ∀ t ∈ toplevels,
    (∃ id, t.identifier = some id) ∧ ∃ app_id, t.appId = some app_id ∧ app_id ≠ ""
  nodup : (identifiers toplevels).Nodup
  clean : ∀ id ∈ identifiers toplevels, Clean id
  activated : ∀ t ∈ toplevels, t.isActivated = decide (t.identifier = some focused)
  listed : focused ∈ identifiers toplevels
  fits : toplevels.length ≤ usizeMax

section Lemmas

variable {toplevels : List PendingToplevel} {focused : String}

@[simp] theorem identifiers_focus (toplevels : List PendingToplevel) (identifier : String) :
    identifiers (focus toplevels identifier) = identifiers toplevels := by
  simp [identifiers, focus, List.filterMap_map, Function.comp_def]

theorem activateWindow_of_mem {identifier : String} (h : identifier ∈ identifiers toplevels) :
    activateWindow toplevels identifier = true := by
  obtain ⟨t, ht, hid⟩ := List.mem_filterMap.1 h
  exact List.any_eq_true.2 ⟨t, ht, by simp [hid]⟩

theorem FocusedOn.focus (h : FocusedOn toplevels focused) {target : String}
    (ht : target ∈ identifiers toplevels) : FocusedOn (Wayland.focus toplevels target) target where
  window t ht' := by
    obtain ⟨t', ht'', rfl⟩ := List.mem_map.1 ht'
    exact h.window t' ht''
  nodup := by simpa using h.nodup
  clean := by simpa using h.clean
  activated t ht' := by
    obtain ⟨t', -, rfl⟩ := List.mem_map.1 ht'
    rfl
  listed := by simpa using ht
  fits := by simpa [Wayland.focus] using h.fits

theorem focus_self (h : FocusedOn toplevels focused) : focus toplevels focused = toplevels := by
  conv_rhs => rw [← List.map_id toplevels]
  refine List.map_congr_left fun t ht => ?_
  have hact := h.activated t ht
  cases t
  simp_all

theorem map_id_filterMap_toWindow (h : FocusedOn toplevels focused) :
    (toplevels.filterMap toWindow).map (·.id) = identifiers toplevels := by
  rw [List.map_filterMap, identifiers]
  refine List.filterMap_congr fun t ht => ?_
  obtain ⟨⟨id, hid⟩, app_id, happ, hne⟩ := h.window t ht
  have hempty : app_id.isEmpty = false :=
    Bool.eq_false_iff.2 fun he => hne ((String.isEmpty_iff app_id).1 he)
  simp [toWindow, happ, hempty, hid]

theorem length_identifiers (h : FocusedOn toplevels focused) :
    (identifiers toplevels).length = toplevels.length := by
  have hsome : identifiers toplevels =
      toplevels.filterMap (some ∘ fun t => t.identifier.getD "") :=
    List.filterMap_congr fun t ht => by
      obtain ⟨⟨id, hid⟩, -⟩ := h.window t ht
      simp [hid]
  rw [hsome, List.filterMap_eq_map, List.length_map]

theorem isFocused_of_mem_filterMap (h : FocusedOn toplevels focused) {w : Window}
    (hw : w ∈ toplevels.filterMap toWindow) : w.isFocused = decide (w.id = focused) := by
  obtain ⟨t, ht, htw⟩ := List.mem_filterMap.1 hw
  obtain ⟨⟨id, hid⟩, app_id, happ, hne⟩ := h.window t ht
  have hempty : app_id.isEmpty = false :=
    Bool.eq_false_iff.2 fun he => hne ((String.isEmpty_iff app_id).1 he)
  simp only [toWindow, happ, Option.bind_eq_bind, Option.some_bind, hempty] at htw
  cases htw
  simp [h.activated t ht, hid]

/-- `enumerate_windows` lists every window once and the focused one last. -/
theorem enumerateWindows_spec (h : FocusedOn toplevels focused) :
    ∃ others last, enumerateWindows toplevels = others ++ [last] ∧ last.id = focused ∧
      last.isFocused = true ∧ (∀ w ∈ others, w.id ≠ focused ∧ w.isFocused = false) ∧
      ((others ++ [last]).map (·.id)).Perm (identifiers toplevels) := by
  have hmap := map_id_filterMap_toWindow h
  have hfoc : ∀ w ∈ toplevels.filterMap toWindow, w.isFocused = decide (w.id = focused) :=
    fun _ hw => isFocused_of_mem_filterMap h hw
  set windows := toplevels.filterMap toWindow
  -- the focused window is listed, so `position` finds it
  obtain ⟨k, hk⟩ : ∃ k, windows.findIdx? (·.isFocused) = some k := by
    refine Option.ne_none_iff_exists'.1 fun hnone => ?_
    obtain ⟨w, hw, hid⟩ := List.mem_map.1 (hmap ▸ h.listed)
    have := List.findIdx?_eq_none_iff.1 hnone w hw
    simp [hfoc w hw, hid] at this
  obtain ⟨hlt, -⟩ := List.findIdx?_eq_some_iff_findIdx_eq.1 hk
  obtain ⟨last, hlast⟩ : ∃ last, windows[k]? = some last := ⟨_, List.getElem?_eq_getElem hlt⟩
  have hlastFoc : last.isFocused = true := by simpa [hlast] using List.findIdx?_of_eq_some hk
  have hlastId : last.id = focused := by
    simpa [hfoc last (List.getElem?_mem hlast)] using hlastFoc
  obtain ⟨hsplit, hmove⟩ := moveToEnd_of_getElem? hlast
  -- the others are the other windows, none with the focused id
  have hout : focused ∉ (windows.take k ++ windows.drop (k + 1)).map (·.id) := by
    have hnd := h.nodup
    rw [← hmap, hsplit, List.map_append, List.map_cons, List.nodup_middle, hlastId] at hnd
    simpa using (List.nodup_cons.1 hnd).1
  refine ⟨windows.take k ++ windows.drop (k + 1), last, ?_, hlastId, hlastFoc, fun w hw => ?_, ?_⟩
  · simp only [enumerateWindows, hk, hmove, windows]
  · have hne : w.id ≠ focused := fun he => hout (he ▸ List.mem_map_of_mem _ hw)
    have hmem : w ∈ windows := by
      rw [hsplit]
      rcases List.mem_append.1 hw with hw | hw
      · exact List.mem_append_left _ hw
      · exact List.mem_append_right _ (List.mem_cons_of_mem _ hw)
    exact ⟨hne, by simpa [hne] using hfoc w hmem⟩
  · rw [← hmove, ← hmap]
    exact (moveToEnd_perm hlast).map _

theorem length_enumerateWindows (h : FocusedOn toplevels focused) :
    (enumerateWindows toplevels).length = toplevels.length := by
  obtain ⟨others, last, hws, -, -, -, hperm⟩ := enumerateWindows_spec h
  rw [← length_identifiers h, ← hperm.length_eq, List.length_map, hws]

end Lemmas

end Wayland

end OpenSesame
