import OpenSesame.Core.Matcher

/-!
# The reference assignment

`referenceHints` states `HintAssignment::assign` without the map: window `i` gets its base letter
once more than the earlier windows with that letter. `assign` gives it in every visiting order of
the groups, and its hints are downward closed.
-/

namespace OpenSesame

theorem insertionSort_index_eq {l r : List WindowHint} (hp : l.Perm r)
    (hr : r.Sorted fun a b => a.index < b.index) :
    l.insertionSort (fun a b => a.index ≤ b.index) = r := by
  let R : WindowHint → WindowHint → Prop := fun a b => a.index < b.index ∨ a = b
  haveI : IsTotal WindowHint fun a b => a.index ≤ b.index := ⟨fun a b => Nat.le_total _ _⟩
  haveI : IsTrans WindowHint fun a b => a.index ≤ b.index := ⟨fun _ _ _ => Nat.le_trans⟩
  haveI : IsAntisymm WindowHint R := ⟨fun a b hab hba => by
    rcases hab with hab | rfl
    · rcases hba with hba | rfl <;> omega
    · rfl⟩
  have hsort := List.sorted_insertionSort (fun a b : WindowHint => a.index ≤ b.index) l
  have hperm := (List.perm_insertionSort (fun a b : WindowHint => a.index ≤ b.index) l).trans hp
  have hne : (l.insertionSort fun a b => a.index ≤ b.index).Pairwise
      fun a b => a.index ≠ b.index := by
    have : (r.map (·.index)).Nodup := List.pairwise_map.2 (hr.imp Nat.ne_of_lt)
    exact List.pairwise_map.1 ((hperm.map _).nodup_iff.2 this)
  refine List.eq_of_perm_of_sorted (r := R) hperm ((hsort.and hne).imp ?_) (hr.imp .inl)
  exact fun h => .inl (Nat.lt_of_le_of_ne h.1 h.2)

def lookupGroup {κ α : Type} [DecidableEq κ] (m : List (κ × List α)) (k : κ) : List α :=
  ((m.find? fun e => e.1 = k).map Prod.snd).getD []

theorem lookupGroup_pushEntry {κ α : Type} [DecidableEq κ] (m : List (κ × List α)) (k b : κ)
    (a : α) :
    lookupGroup (pushEntry m k a) b = if k = b then lookupGroup m b ++ [a] else lookupGroup m b := by
  induction m with
  | nil => by_cases h : k = b <;> simp [pushEntry, lookupGroup, h]
  | cons e rest ih =>
    obtain ⟨k', as⟩ := e
    by_cases hk : k' = k
    · subst hk
      by_cases hb : k' = b <;> simp [pushEntry, lookupGroup, hb]
    · by_cases hb : k' = b
      · subst hb
        simp [pushEntry, lookupGroup, hk, Ne.symm hk]
      · simpa [pushEntry, lookupGroup, hk, hb] using ih

theorem groupHints_pushEntry (m : List (Char × List (Nat × Window))) (k : Char) (a : Nat × Window) :
    (groupHints (pushEntry m k a)).Perm
      (groupHints m ++ [groupHint k (lookupGroup m k).length a]) := by
  induction m with
  | nil => simp [pushEntry, groupHints, lookupGroup]
  | cons e rest ih =>
    obtain ⟨k', as⟩ := e
    by_cases hk : k' = k
    · subst hk
      simpa [pushEntry, groupHints, lookupGroup, List.enum_append] using
        List.Perm.append_left _ (List.perm_append_singleton _ _).symm
    · simpa [pushEntry, groupHints, lookupGroup, hk] using List.Perm.append_left _ ih

theorem downwardClosed_groupHints (groups : List (Char × List (Nat × Window))) :
    DownwardClosed (groupHints groups) := by
  intro h hh m hm0 hm
  obtain ⟨g, hg, jw, hjw, rfl⟩ : ∃ g ∈ groups, ∃ jw ∈ g.2.enum, groupHint g.1 jw.1 jw.2 = h := by
    simpa [groupHints] using hh
  have hlt : m - 1 < g.2.length := by
    have := List.fst_lt_of_mem_enum hjw
    simp only [groupHint, HintSequence.new_count] at hm
    omega
  refine ⟨groupHint g.1 (m - 1) g.2[m - 1], ?_, rfl, by simp [groupHint]; omega⟩
  simp only [groupHints, List.mem_flatMap, List.mem_map]
  exact ⟨g, hg, (m - 1, g.2[m - 1]), List.mem_enum_iff_getElem?.2 (by simp [hlt]), rfl⟩

theorem downwardClosed_assignIn (groups : List (Char × List (Nat × Window))) :
    DownwardClosed (assignIn groups) := by
  intro h hh m hm0 hm
  obtain ⟨h', hh', hb, hc⟩ :=
    downwardClosed_groupHints groups h ((List.mem_insertionSort _).1 hh) m hm0 hm
  exact ⟨h', (List.mem_insertionSort _).2 hh', hb, hc⟩

theorem countP_take_lt {α : Type} {p : α → Bool} {l : List α} {i j : Nat} (hij : i < j) {a : α}
    (ha : l[i]? = some a) (hp : p a = true) :
    (l.take i).countP p < (l.take j).countP p := by
  have h1 : (l.take (i + 1)).countP p = (l.take i).countP p + 1 := by
    rw [List.take_succ, ha]
    simp [hp]
  have h2 := (List.take_sublist_take_left l (show i + 1 ≤ j by omega)).countP_le (p := p)
  omega

section
variable (L : Lowercase) (key_for_app : String → Option Char)

/-- Window `i` gets its base letter once more than the earlier windows with that letter, and keeps
its place. -/
def referenceHints (windows : List Window) : List WindowHint :=
  windows.enum.map fun iw =>
    { hint := .new (baseFor L key_for_app iw.2)
        (1 + (windows.take iw.1).countP
          fun w => baseFor L key_for_app w == baseFor L key_for_app iw.2),
      windowId := iw.2.id, appId := iw.2.appId, title := iw.2.title, index := iw.1 }

theorem byBase_append_singleton (ws : List Window) (w : Window) :
    byBase L key_for_app (ws ++ [w]) =
      pushEntry (byBase L key_for_app ws) (baseFor L key_for_app w) (ws.length, w) := by
  simp [byBase, List.enum_append]

theorem lookupGroup_byBase_length (ws : List Window) (b : Char) :
    (lookupGroup (byBase L key_for_app ws) b).length =
      ws.countP fun v => baseFor L key_for_app v == b := by
  induction ws using List.reverseRecOn with
  | nil => rfl
  | append_singleton ws w ih =>
    rw [byBase_append_singleton, lookupGroup_pushEntry]
    by_cases h : baseFor L key_for_app w = b <;> simp [h, ih]

theorem referenceHints_append_singleton (ws : List Window) (w : Window) :
    referenceHints L key_for_app (ws ++ [w]) = referenceHints L key_for_app ws ++
      [groupHint (baseFor L key_for_app w)
        (ws.countP fun v => baseFor L key_for_app v == baseFor L key_for_app w) (ws.length, w)] := by
  simp only [referenceHints, List.enum_append, List.map_append]
  congr 1
  · apply List.map_congr_left
    intro iw hiw
    rw [List.take_append_of_le_length (List.fst_lt_of_mem_enum hiw).le]
  · simp [groupHint, Nat.add_comm]

theorem groupHints_byBase_perm (ws : List Window) :
    (groupHints (byBase L key_for_app ws)).Perm (referenceHints L key_for_app ws) := by
  induction ws using List.reverseRecOn with
  | nil => rfl
  | append_singleton ws w ih =>
    rw [byBase_append_singleton, referenceHints_append_singleton, ← lookupGroup_byBase_length]
    exact (groupHints_pushEntry _ _ _).trans (ih.append_right _)

theorem referenceHints_sorted (ws : List Window) :
    (referenceHints L key_for_app ws).Sorted fun a b => a.index < b.index := by
  have h : (referenceHints L key_for_app ws).map (·.index) = List.range ws.length := by
    simp [referenceHints, Function.comp_def, List.enum_map_fst]
  have hr := List.pairwise_lt_range ws.length
  rw [← h, List.pairwise_map] at hr
  exact hr

theorem assign_hints (windows : List Window) :
    (HintAssignment.assign L windows key_for_app).hints = referenceHints L key_for_app windows :=
  insertionSort_index_eq (groupHints_byBase_perm L key_for_app windows)
    (referenceHints_sorted L key_for_app windows)

theorem assign_windowIds (windows : List Window) :
    (HintAssignment.assign L windows key_for_app).hints.map (·.windowId) = windows.map (·.id) := by
  rw [assign_hints, referenceHints, List.map_map]
  conv_rhs => rw [← List.enum_map_snd windows, List.map_map]
  rfl

/-- `HintAssignment::assign` gives the reference hints whatever order `by_base` is visited in. -/
theorem assignIn_eq_referenceHints (windows : List Window)
    (groups : List (Char × List (Nat × Window))) (hg : groups.Perm (byBase L key_for_app windows)) :
    assignIn groups = referenceHints L key_for_app windows :=
  insertionSort_index_eq ((hg.flatMap_right _).trans (groupHints_byBase_perm L key_for_app windows))
    (referenceHints_sorted L key_for_app windows)

theorem referenceHints_mem {windows : List Window} {h : WindowHint}
    (hh : h ∈ referenceHints L key_for_app windows) :
    ∃ w, windows[h.index]? = some w ∧ h.windowId = w.id ∧
      h.hint.base = (baseFor L key_for_app w).toLower := by
  simp only [referenceHints, List.mem_map] at hh
  obtain ⟨⟨i, v⟩, hi, rfl⟩ := hh
  exact ⟨v, List.mem_enum_iff_getElem?.1 hi, rfl, rfl⟩

/-- When no two base letters differ only by case, no two reference hints have one text. -/
theorem referenceHints_hint_inj {windows : List Window}
    (hcase : ∀ v ∈ windows, ∀ w ∈ windows,
      (baseFor L key_for_app v).toLower = (baseFor L key_for_app w).toLower →
        baseFor L key_for_app v = baseFor L key_for_app w)
    {h h' : WindowHint} (hh : h ∈ referenceHints L key_for_app windows)
    (hh' : h' ∈ referenceHints L key_for_app windows) (heq : h'.hint = h.hint) : h' = h := by
  simp only [referenceHints, List.mem_map] at hh hh'
  obtain ⟨⟨i, v⟩, hi, rfl⟩ := hh
  obtain ⟨⟨j, u⟩, hj, rfl⟩ := hh'
  rw [List.mem_enum_iff_getElem?] at hi hj
  have hbe := hcase u (List.getElem?_mem hj) v (List.getElem?_mem hi)
    (congrArg HintSequence.base heq)
  have hn := congrArg HintSequence.count heq
  simp only [HintSequence.new_count, hbe] at hn
  rcases Nat.lt_trichotomy i j with hij | rfl | hij
  · have := countP_take_lt hij hi (p := fun w => baseFor L key_for_app w == baseFor L key_for_app v)
      (by simp)
    omega
  · obtain rfl : u = v := Option.some.inj (hj.symm.trans hi)
    rfl
  · have := countP_take_lt hij hj (p := fun w => baseFor L key_for_app w == baseFor L key_for_app v)
      (by simp [hbe])
    omega

end

theorem assignIn_reverse_byBase :
    (byBase .asciiOnly (fun _ => none)
        [⟨"w0", "firefox", "", false⟩, ⟨"w1", "ghostty", "", false⟩, ⟨"w2", "firefox", "", true⟩]).reverse.Perm
      (byBase .asciiOnly (fun _ => none)
        [⟨"w0", "firefox", "", false⟩, ⟨"w1", "ghostty", "", false⟩, ⟨"w2", "firefox", "", true⟩]) ∧
    assignIn (byBase .asciiOnly (fun _ => none)
        [⟨"w0", "firefox", "", false⟩, ⟨"w1", "ghostty", "", false⟩, ⟨"w2", "firefox", "", true⟩]).reverse =
      referenceHints .asciiOnly (fun _ => none)
        [⟨"w0", "firefox", "", false⟩, ⟨"w1", "ghostty", "", false⟩, ⟨"w2", "firefox", "", true⟩] :=
  ⟨List.reverse_perm _, assignIn_eq_referenceHints _ _ _ _ (List.reverse_perm _)⟩

/-- On the hints `assign` gives, matching is the lookup of the first hint equal to the normalized
input. -/
theorem assign_matchInput_eq_exactLookup (L : Lowercase) (windows : List Window)
    (key_for_app : String → Option Char) {input : String} (hne : input ≠ "") :
    (∀ indices, HintMatcher.matchInput L (HintAssignment.assign L windows key_for_app).hints input ≠
      .partialMatch indices) ∧
    HintMatcher.matchInput L (HintAssignment.assign L windows key_for_app).hints input =
      HintMatcher.exactLookup L (HintAssignment.assign L windows key_for_app).hints input := by
  have heq : HintMatcher.matchInput L (HintAssignment.assign L windows key_for_app).hints input =
      HintMatcher.exactLookup L (HintAssignment.assign L windows key_for_app).hints input :=
    HintMatcher.matchInput_eq_exactLookup (downwardClosed_assignIn _) hne
  refine ⟨fun indices h => ?_, heq⟩
  rw [heq, HintMatcher.exactLookup] at h
  split at h <;> cases h

theorem assign_matchInput_gg :
    "gg" ≠ "" ∧
    (∀ indices, HintMatcher.matchInput .asciiOnly (HintAssignment.assign .asciiOnly
        [⟨"w0", "ghostty", "", false⟩, ⟨"w1", "ghostty", "", false⟩] fun _ => none).hints "gg" ≠
      .partialMatch indices) ∧
    HintMatcher.matchInput .asciiOnly (HintAssignment.assign .asciiOnly
        [⟨"w0", "ghostty", "", false⟩, ⟨"w1", "ghostty", "", false⟩] fun _ => none).hints "gg" =
      HintMatcher.exactLookup .asciiOnly (HintAssignment.assign .asciiOnly
        [⟨"w0", "ghostty", "", false⟩, ⟨"w1", "ghostty", "", false⟩] fun _ => none).hints "gg" :=
  ⟨by decide, assign_matchInput_eq_exactLookup .asciiOnly _ _ (by decide)⟩

end OpenSesame
