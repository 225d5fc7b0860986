import OpenSesame.Util.Str

/-!
# The MRU file

`util/mru.rs`: the previous and the current window id on two lines. For `Clean` ids,
`load_mru_state` reads back what `save_activated_window` wrote.
-/

namespace OpenSesame

namespace Mru

open Str

structure MruState where
  current : Option String
  previous : Option String
deriving DecidableEq, Repr

def MruState.default : MruState := ⟨none, none⟩

/-- Trimmed, and no window when empty. -/
def readLine (line : Option (List Char)) : Option String :=
  (line.map fun s => (⟨trim s⟩ : String)).filter fun s => !s.isEmpty

def parseMruContents (contents : String) : MruState :=
  let lines := Str.lines contents.data
  { current := readLine lines[1]?, previous := readLine lines.head? }

/-- The file's text is `none` where it cannot be opened, locked or read. -/
def loadMruState : Option String → MruState
  | some contents => parseMruContents contents
  | none => .default

def getPreviousWindow (file : Option String) : Option String := (loadMruState file).previous

/-- `format!("{}\n{}", previous, new_window_id)`, with `previous` the window of origin or `""`. -/
def mruText (origin_window_id : Option String) (new_window_id : String) : String :=
  origin_window_id.getD "" ++ "\n" ++ new_window_id

/-- Nothing is written when the activated window is the window of origin. -/
def saveActivatedWindow (origin_window_id : Option String) (new_window_id : String)
    (file : Option String) : Option String :=
  if origin_window_id = some new_window_id then file
  else some (mruText origin_window_id new_window_id)

/-- `Vec::remove(pos)` then `Vec::push`, as `reorder_for_mru` and `enumerate_windows` do. -/
def moveToEnd {α : Type} (l : List α) (pos : Nat) : List α := l.eraseIdx pos ++ l[pos]?.toList

def reorderForMru {α : Type} (get_id : α → String) (state : MruState) (windows : List α) :
    List α :=
  match state.current with
  | some current_id =>
    match windows.findIdx? fun w => get_id w = current_id with
    | some pos => if pos < windows.length - 1 then moveToEnd windows pos else windows
    | none => windows
  | none => windows

/-- A window id the MRU file keeps as it is: not empty, with no newline, and untouched by `trim`. -/
def Clean (id : String) : Prop := id.data ≠ [] ∧ '\n' ∉ id.data ∧ trim id.data = id.data

instance (id : String) : Decidable (Clean id) := inferInstanceAs (Decidable (_ ∧ _ ∧ _))

section Lemmas

variable {α : Type}

theorem readLine_clean {id : String} (h : Clean id) : readLine (some id.data) = some id := by
  have hne : id.isEmpty = false :=
    Bool.eq_false_iff.2 fun he => h.1 (by rw [(String.isEmpty_iff id).1 he])
  simp [readLine, h.2.2, hne, Option.filter]

theorem getLast?_ne_cr {s : List Char} (h : trim s = s) : s.getLast? ≠ some '\r' := fun hs => by
  have hlast : (trimEnd (trimStart s)).getLast? = some '\r' := by
    show (trim s).getLast? = _
    rw [h]
    exact hs
  exact absurd (isWhitespace_of_getLast?_trimEnd hlast) (by decide)

theorem lines_mruText {origin : Option String} {new_window_id : String}
    (horigin : ∀ a, origin = some a → Clean a) (hnew : Clean new_window_id) :
    Str.lines (mruText origin new_window_id).data = [(origin.getD "").data, new_window_id.data] := by
  have ho : '\n' ∉ (origin.getD "").data ∧ (origin.getD "").data.getLast? ≠ some '\r' := by
    cases origin with
    | none => exact ⟨List.not_mem_nil _, by simp⟩
    | some a => exact ⟨(horigin a rfl).2.1, getLast?_ne_cr (horigin a rfl).2.2⟩
  have hjoin : (mruText origin new_window_id).data =
      join ['\n'] [(origin.getD "").data, new_window_id.data] := by
    simp [mruText, join, List.intercalate]
  rw [hjoin]
  refine lines_join (List.cons_ne_nil _ _) ?_ ?_ (by simpa using hnew.1)
  · simp only [List.mem_cons, List.mem_singleton, List.not_mem_nil, or_false]
    rintro l (rfl | rfl)
    exacts [ho.1, hnew.2.1]
  · simp only [List.mem_cons, List.mem_singleton, List.not_mem_nil, or_false]
    rintro l (rfl | rfl)
    exacts [ho.2, getLast?_ne_cr hnew.2.2]

theorem loadMruState_mruText {origin : Option String} {new_window_id : String}
    (horigin : ∀ a, origin = some a → Clean a) (hnew : Clean new_window_id) :
    loadMruState (some (mruText origin new_window_id)) = ⟨some new_window_id, origin⟩ := by
  simp only [loadMruState, parseMruContents, lines_mruText horigin hnew, List.getElem?_cons_succ,
    List.getElem?_cons_zero, List.head?_cons, readLine_clean hnew]
  cases origin with
  | none => rfl
  | some a => rw [Option.getD_some, readLine_clean (horigin a rfl)]

/-- The MRU file as a store, for every file and all clean window ids. -/
theorem loadMruState_saveActivatedWindow {origin : Option String} {new_window_id : String}
    (horigin : ∀ a, origin = some a → Clean a) (hnew : Clean new_window_id) (file : Option String) :
    loadMruState (saveActivatedWindow origin new_window_id file) =
      if origin = some new_window_id then loadMruState file else ⟨some new_window_id, origin⟩ := by
  unfold saveActivatedWindow
  split_ifs
  · rfl
  · exact loadMruState_mruText horigin hnew

theorem loadMruState_saveActivatedWindow_w0_w1 :
    (∀ a, some "w0" = some a → Clean a) ∧ Clean "w1" ∧
      loadMruState (saveActivatedWindow (some "w0") "w1" none) =
        if some "w0" = some "w1" then loadMruState none else ⟨some "w1", some "w0"⟩ :=
  have h0 : ∀ a, some "w0" = some a → Clean a := fun _ he => Option.some.inj he ▸ by decide
  ⟨h0, by decide, loadMruState_saveActivatedWindow h0 (by decide) none⟩

theorem moveToEnd_of_getElem? {l : List α} {pos : Nat} {x : α} (h : l[pos]? = some x) :
    l = l.take pos ++ x :: l.drop (pos + 1) ∧
      moveToEnd l pos = l.take pos ++ l.drop (pos + 1) ++ [x] := by
  obtain ⟨hlt, rfl⟩ := List.getElem?_eq_some_iff.1 h
  refine ⟨?_, by simp [moveToEnd, List.eraseIdx_eq_take_drop_succ, h]⟩
  conv_lhs => rw [← List.take_append_drop pos l, List.drop_eq_getElem_cons hlt]

theorem moveToEnd_perm {l : List α} {pos : Nat} {x : α} (h : l[pos]? = some x) :
    (moveToEnd l pos).Perm l := by
  obtain ⟨hl, hm⟩ := moveToEnd_of_getElem? h
  have hp := (List.perm_append_singleton x (l.take pos ++ l.drop (pos + 1))).trans
    List.perm_middle.symm
  rwa [← hl, ← hm] at hp

end Lemmas

end Mru

end OpenSesame
