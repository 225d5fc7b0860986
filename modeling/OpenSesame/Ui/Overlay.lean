import OpenSesame.App.Run

/-!
# The rows of the full overlay

`ui/overlay.rs`: `render_full` filters the hints by the input and marks the row at the state's
selected index, an index into the unfiltered hints (`renderFullRows_marks_selected_iff`).
-/

namespace OpenSesame

namespace Overlay

def isVisible (L : Lowercase) (input : String) (h : WindowHint) : Bool :=
  input.isEmpty || h.hint.matchesInput L input

/-- The rows with their `is_selected` flags; `none` is the card that says nothing matches. -/
def renderFullRows (L : Lowercase) (hints : List WindowHint) (input : String)
    (selection : Nat) : Option (List (WindowHint × Bool)) :=
  let visible_hints := hints.filter (isVisible L input)
  if visible_hints.isEmpty then none
  else
    let selection := min selection (visible_hints.length - 1)
    some (visible_hints.enum.map fun ih => (ih.2, decide (ih.1 = selection)))

/-- Hints `f, g, gg`: typing `g` selects the first ghostty window, and `render_full` marks the row
of the second. -/
theorem renderFullRows_marks_other_window :
    (HintAssignment.assign .asciiOnly
        [⟨"w0", "firefox", "", false⟩, ⟨"w1", "ghostty", "", false⟩, ⟨"w2", "ghostty", "", false⟩]
        (Config.default.keyForApp .asciiOnly)).hints =
      [⟨.new 'f' 1, "w0", "firefox", "", 0⟩, ⟨.new 'g' 1, "w1", "ghostty", "", 1⟩,
        ⟨.new 'g' 2, "w2", "ghostty", "", 2⟩] ∧
    (∀ launcher_mode, AppState.run .asciiOnly Config.default
        [⟨.new 'f' 1, "w0", "firefox", "", 0⟩, ⟨.new 'g' 1, "w1", "ghostty", "", 1⟩,
          ⟨.new 'g' 2, "w2", "ghostty", "", 2⟩] none
        (AppState.initial launcher_mode [⟨.new 'f' 1, "w0", "firefox", "", 0⟩,
          ⟨.new 'g' 1, "w1", "ghostty", "", 1⟩, ⟨.new 'g' 2, "w2", "ghostty", "", 2⟩] none 0)
        [(.keyPress ⟨0x67⟩ false, 1)] = .pendingActivation 1 "g" ⟨some 1, 200000000⟩) ∧
    renderFullRows .asciiOnly [⟨.new 'f' 1, "w0", "firefox", "", 0⟩,
        ⟨.new 'g' 1, "w1", "ghostty", "", 1⟩, ⟨.new 'g' 2, "w2", "ghostty", "", 2⟩] "g" 1 =
      some [(⟨.new 'g' 1, "w1", "ghostty", "", 1⟩, false), (⟨.new 'g' 2, "w2", "ghostty", "", 2⟩, true)] :=
  ⟨by decide, by decide, by decide⟩

end Overlay

end OpenSesame
