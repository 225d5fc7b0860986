import OpenSesame.Core.Hint

/-!
# Matching typed input

`core/matcher.rs`: of the hints that extend the normalized input, one is an exact match, and
several are narrowed to the one equal to the input, if any, or else are a partial match.
-/

namespace OpenSesame

/-- `Partial` is `partialMatch`, `partial` being a Lean keyword. -/
inductive MatchResult where
  | none
  | partialMatch (indices : List Nat)
  | exact (index : Nat) (window_id : String)
deriving DecidableEq, Repr

/-- Each base letter's hints have the counts `1, 2, ...` up to the largest, with no gap. -/
def DownwardClosed (hints : List WindowHint) : Prop :=
  ∀ h ∈ hints, ∀ m, 0 < m → m ≤ h.hint.count →
    ∃ h' ∈ hints, h'.hint.base = h.hint.base ∧ h'.hint.count = m

namespace HintMatcher

variable (L : Lowercase) (hints : List WindowHint)

def matchInput (input : String) : MatchResult :=
  if input.isEmpty then .partialMatch (hints.map (·.index))
  else
    let matched := hints.filter fun h => h.hint.matchesInput L input
    match matched with
    | [] => .none
    | [m] => .exact m.index m.windowId
    | _ =>
      match matched.find? fun h => h.hint.equalsInput L input with
      | some exact => .exact exact.index exact.windowId
      | none => .partialMatch (matched.map (·.index))

def filterHints (input : String) : List WindowHint :=
  if input.isEmpty then hints else hints.filter fun h => h.hint.matchesInput L input

theorem matchInput_exact_mem {input : String} {i : Nat} {w : String}
    (h : matchInput L hints input = .exact i w) :
    ∃ hint ∈ hints, hint.index = i ∧ hint.windowId = w := by
  unfold matchInput at h
  split_ifs at h
  dsimp only at h
  split at h
  · cases h
  · rename_i m hm
    cases h
    exact ⟨m, (List.mem_filter.1 (hm ▸ List.mem_singleton_self m)).1, rfl, rfl⟩
  · split at h
    · rename_i exact hexact
      cases h
      exact ⟨exact, (List.mem_filter.1 (List.mem_of_find?_eq_some hexact)).1, rfl, rfl⟩
    · cases h

def exactLookup (input : String) : MatchResult :=
  match hints.find? fun h => h.hint.asString == normalizeInput L input with
  | some h => .exact h.index h.windowId
  | none => .none

variable {L hints}

theorem exactLookup_of_unique {input : String} {h : WindowHint} (hh : h ∈ hints)
    (huniq : ∀ h' ∈ hints, h'.hint = h.hint → h' = h)
    (heq : h.hint.asString = normalizeInput L input) :
    exactLookup L hints input = .exact h.index h.windowId := by
  unfold exactLookup
  cases hf : hints.find? fun h' => h'.hint.asString == normalizeInput L input with
  | none => exact absurd (List.find?_eq_none.1 hf h hh) (by simp [heq])
  | some h'' =>
    obtain rfl := huniq h'' (List.mem_of_find?_eq_some hf)
      (HintSequence.asString_injective (by simpa [heq] using List.find?_some hf))
    rfl

theorem exactLookup_exact_of_mem {input : String} {h : WindowHint} (hh : h ∈ hints)
    (heq : h.hint.asString = normalizeInput L input) :
    ∃ index w, exactLookup L hints input = .exact index w := by
  unfold exactLookup
  cases hf : hints.find? fun h' => h'.hint.asString == normalizeInput L input with
  | none => exact absurd (List.find?_eq_none.1 hf h hh) (by simp [heq])
  | some h'' => exact ⟨_, _, rfl⟩

theorem exists_equal_of_matches (hdc : DownwardClosed hints) {input : String}
    (hne : input.data ≠ []) {h : WindowHint} (hh : h ∈ hints)
    (hm : h.hint.matchesInput L input = true) :
    ∃ h' ∈ hints, h'.hint.asString = normalizeInput L input := by
  rw [HintSequence.matchesInput_iff] at hm
  have hpos : 0 < (normalizeInput L input).data.length :=
    List.length_pos.2 (normalizeInput_ne_nil L hne)
  obtain ⟨h', hh', hbase, hcount⟩ := hdc h hh _ hpos hm.1
  refine ⟨h', hh', String.ext ?_⟩
  rw [HintSequence.asString_data, hcount, hbase]
  exact (List.eq_replicate_iff.2 ⟨rfl, hm.2⟩).symm

theorem find?_equal_filter (input : String) :
    (hints.filter fun h => h.hint.matchesInput L input).find?
        (fun h => h.hint.asString == normalizeInput L input) =
      hints.find? fun h => h.hint.asString == normalizeInput L input := by
  rw [List.find?_filter]
  congr 1
  funext h
  by_cases he : h.hint.asString = normalizeInput L input
  · have : h.hint.matchesInput L input = true := by
      simp [HintSequence.matchesInput, ← he, List.isPrefixOf_iff_prefix]
    simp [he, this]
  · simp [he]

theorem matchInput_eq_exactLookup (hdc : DownwardClosed hints) {input : String}
    (hne : input ≠ "") : matchInput L hints input = exactLookup L hints input := by
  have hdata : input.data ≠ [] := fun h => hne (String.ext h)
  have hfind := @find?_equal_filter L hints input
  unfold matchInput exactLookup
  rw [if_neg (by simpa [String.isEmpty_iff] using hne)]
  dsimp only
  split
  · rename_i hnil
    rw [← hfind, hnil]
    rfl
  · rename_i m hm
    have hmem : m ∈ hints.filter fun h => h.hint.matchesInput L input := hm ▸ List.mem_singleton_self m
    obtain ⟨h', hh', heq⟩ := exists_equal_of_matches hdc hdata (List.mem_filter.1 hmem).1
      (List.mem_filter.1 hmem).2
    have hh'm : h' ∈ hints.filter fun h => h.hint.matchesInput L input :=
      List.mem_filter.2 ⟨hh', by simp [HintSequence.matchesInput, heq, List.isPrefixOf_iff_prefix]⟩
    rw [hm, List.mem_singleton] at hh'm
    subst hh'm
    rw [← hfind, hm]
    simp [heq]
  · rename_i hn0 hn1
    simp only [HintSequence.equalsInput]
    rw [hfind]
    cases hf : hints.find? fun h => h.hint.asString == normalizeInput L input with
    | some h => rfl
    | none =>
      obtain ⟨m, hm⟩ := List.exists_mem_of_ne_nil _ hn0
      obtain ⟨h', hh', heq⟩ := exists_equal_of_matches hdc hdata (List.mem_filter.1 hm).1
        (List.mem_filter.1 hm).2
      exact absurd (by simp [heq]) (List.find?_eq_none.1 hf h' hh')

end HintMatcher

end OpenSesame
