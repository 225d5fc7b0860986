import OpenSesame.Util.Str
import OpenSesame.Platform.Ron

/-!
# COSMIC shortcuts

`platform/cosmic_keys.rs`: `--setup-keybinding` and `--remove-keybinding` edit COSMIC's RON
shortcuts file line by line, so an entry written over several lines loses only the line that
mentions `sesame`.
-/

namespace OpenSesame

namespace CosmicKeys

open Str Ron

/-- The lowercased text, mapped to COSMIC's names where it is one of theirs. -/
def modifierName (L : Lowercase) (m : List Char) : List Char :=
  let m := L.toLowercase m
  if m = "super".data ∨ m = "mod".data ∨ m = "logo".data ∨ m = "win".data then "Super".data
  else if m = "shift".data then "Shift".data
  else if m = "ctrl".data ∨ m = "control".data then "Ctrl".data
  else if m = "alt".data then "Alt".data
  else m

/-- The trimmed parts between `+`s; the last is the key. -/
def parseKeyCombo (L : Lowercase) (combo : List Char) : Outcome (List (List Char) × List Char) :=
  let parts := (combo.splitOn '+').map trim
  match parts.getLast? with
  | none => .err (.other "Empty key combo")
  | some key => .ok (parts.dropLast.map (modifierName L), key)

/-- `split` always gives a part, so `parse_key_combo` never returns its error. -/
theorem parseKeyCombo_ok (L : Lowercase) (combo : List Char) :
    ∃ modifiers key, parseKeyCombo L combo = .ok (modifiers, key) := by
  have hne : (combo.splitOn '+').map trim ≠ [] := by
    simpa [List.splitOn] using List.splitOnP_ne_nil (· == '+') combo
  cases h : ((combo.splitOn '+').map trim).getLast? with
  | none => exact absurd (List.getLast?_eq_none_iff.1 h) hne
  | some key =>
    exact ⟨((combo.splitOn '+').map trim).dropLast.map (modifierName L), key,
      by simp only [parseKeyCombo, h]⟩

def escapeRonString (s : List Char) : List Char :=
  s.flatMap fun c => if c = '\\' then ['\\', '\\'] else if c = '"' then ['\\', '"'] else [c]

/-- The key and the command cannot leave their string. -/
theorem readString_escapeRonString (s rest : List Char) :
    Ron.readString (escapeRonString s ++ '"' :: rest) = some (s, rest) := by
  induction s with
  | nil => rfl
  | cons c s ih =>
    simp only [escapeRonString, List.flatMap_cons] at ih ⊢
    by_cases hb : c = '\\'
    · simp [hb, Ron.readString, Ron.escapeChar, ih]
    by_cases hq : c = '"'
    · simp [hq, Ron.readString, Ron.escapeChar, ih]
    simp only [hb, hq, if_false, List.append_assoc, List.cons_append, List.nil_append]
    rw [Ron.readString.eq_4 c _ hq (fun _ _ h => absurd h hb), if_neg hb, ih]
    rfl

theorem mem_escapeRonString {c : Char} {s : List Char} (h : c ∈ escapeRonString s) :
    c ∈ s ∨ c = '\\' := by
  simp only [escapeRonString, List.mem_flatMap] at h
  obtain ⟨d, hd, hc⟩ := h
  split_ifs at hc with hb hq
  · simp only [List.mem_cons, List.not_mem_nil, or_false, or_self] at hc
    exact .inr hc
  · simp only [List.mem_cons, List.not_mem_nil, or_false] at hc
    rcases hc with rfl | rfl
    · exact .inr rfl
    · exact .inl (hq ▸ hd)
  · exact .inl (List.mem_singleton.1 hc ▸ hd)

/-- The key and the command are escaped, the modifiers are not. -/
def formatKeybinding (modifiers : List (List Char)) (key command : List Char) : List Char :=
  let mods := if modifiers.isEmpty then "[]".data else '[' :: join ", ".data modifiers ++ [']']
  "    (modifiers: ".data ++ mods ++ ", key: \"".data ++ escapeRonString key ++
    "\"): Spawn(\"".data ++ escapeRonString command ++ "\"),".data

/-- The file's text, or an empty map when there is no file. -/
def readShortcuts (file : Option (List Char)) : List Char := file.getD "\x7b\n\x7d".data

def hasSesameBinding (content : List Char) : Bool := contains content "sesame".data

def removeSesameBindings (content : List Char) : List Char :=
  join ['\n'] ((lines content).filter fun line => !contains line "sesame".data)

/-- A new map around the entry, or the entry inserted before the last `}`. -/
def addBinding (content binding : List Char) : List Char :=
  let trimmed := trim content
  if trimmed = [] ∨ trimmed = "\x7b\x7d".data ∨ trimmed = "\x7b\n\x7d".data then
    "\x7b\n".data ++ binding ++ "\n\x7d".data
  else
    match beforeLast '}' trimmed with
    | some before =>
      let before := trimEnd before
      let needs_comma := !(before.getLast? = some '{') && !(before.getLast? = some ',')
      before ++ (if needs_comma then [','] else []) ++ ['\n'] ++ binding ++ "\n\x7d".data
    | none => "\x7b\n".data ++ binding ++ "\n\x7d".data

/-- The text it writes, from the text `read_shortcuts` gave. -/
def setupKeybinding (L : Lowercase) (content launcher_key_combo : List Char) :
    Outcome (List Char) := do
  let (launcher_mods, launcher_key) ← parseKeyCombo L launcher_key_combo
  let launcher_binding := formatKeybinding launcher_mods launcher_key "sesame --launcher".data
  let switcher_forward := formatKeybinding ["Alt".data] "tab".data "sesame".data
  let switcher_backward :=
    formatKeybinding ["Alt".data, "Shift".data] "tab".data "sesame --backward".data
  let content := if hasSesameBinding content then removeSesameBindings content else content
  let content := addBinding content switcher_forward
  let content := addBinding content switcher_backward
  pure (addBinding content launcher_binding)

/-- The text it writes, or `none` where there is no sesame binding. -/
def removeKeybinding (content : List Char) : Option (List Char) :=
  if !hasSesameBinding content then none else some (removeSesameBindings content)

/-- A second `--remove-keybinding` writes nothing. -/
theorem removeKeybinding_removeSesameBindings (content : List Char) :
    removeKeybinding (removeSesameBindings content) = none := by
  have h : hasSesameBinding (removeSesameBindings content) = false := by
    simp only [hasSesameBinding, removeSesameBindings, contains, decide_eq_false_iff_not]
    refine not_infix_join (by decide) (by decide) fun l hl => ?_
    simpa [contains] using (List.mem_filter.1 hl).2
  simp [removeKeybinding, h]

/-! ### Files of one-line entries, as `add_binding` writes them from `{\n}` -/

structure Binding where
  modifiers : List (List Char)
  key : List Char
  command : List Char

namespace Binding

def line (b : Binding) : List Char := formatKeybinding b.modifiers b.key b.command

/-- The key `(modifiers: [..], key: "..")` and the action `Spawn("..")` the line stands for. -/
def value (b : Binding) : Value × Value :=
  (.tuple [] [("modifiers".data, .list (b.modifiers.map .ident)), ("key".data, .str b.key)],
    .tuple "Spawn".data [([], .str b.command)])

/-- Its modifiers are identifiers, and its key and command hold no newline. -/
def OneLine (b : Binding) : Prop :=
  (∀ m ∈ b.modifiers, isIdent m = true) ∧ '\n' ∉ b.key ∧ '\n' ∉ b.command

end Binding

def shortcutsFile (lines : List (List Char)) : List Char :=
  '{' :: lines.flatMap (fun l => '\n' :: l) ++ "\n\x7d".data

theorem formatKeybinding_append (modifiers : List (List Char)) (key command rest : List Char) :
    formatKeybinding modifiers key command ++ rest =
      "    (modifiers: [".data ++ (join ", ".data modifiers ++ ']' :: ',' :: ' ' ::
        ("key: \"".data ++ (escapeRonString key ++ '"' :: ')' :: ':' :: (" Spawn(\"".data ++
          (escapeRonString command ++ '"' :: ')' :: ',' :: rest))))) := by
  cases modifiers <;> simp [formatKeybinding, join, List.intercalate]

theorem readValue_modifier {n : Nat} {c d : Char} {t X : List Char} (hm : isIdent (c :: t) = true)
    (hd : d = ',' ∨ d = ']') :
    readValue (n + 1) (c :: (t ++ d :: X)) = some (.ident (c :: t), d :: X) := by
  have hdc : isIdentChar d = false ∧ isWs d = false ∧ d ≠ '(' := by
    rcases hd with rfl | rfl <;> decide
  exact readValue_ident (skipWs_of_isIdentStart (isIdentStart_of_isIdent hm)) hm
    (head_not_isIdentChar hdc.1) (skipWs_ne_of_head hdc.2.1 hdc.2.2)

theorem readSeq_modifiers {n : Nat} {rest : List Char} :
    ∀ {mods : List (List Char)} {f : Nat}, (∀ m ∈ mods, isIdent m = true) → mods.length < f →
      readSeq (readValue (n + 1)) ']' f (join ", ".data mods ++ ']' :: rest) =
        some (mods.map .ident, rest)
  | [], f + 1, _, _ => readSeq_close rfl
  | [m], f + 1, hm, _ => by
    have hid := hm m (List.mem_singleton_self m)
    obtain _ | ⟨c, t⟩ := m
    · cases hid
    have hc := isIdentStart_of_isIdent hid
    have hcne : c ≠ ']' := by rintro rfl; exact absurd hc (by decide)
    rw [join_singleton]
    exact readSeq_last (skipWs_of_isIdentStart hc) hcne (readValue_modifier hid (.inr rfl)) rfl
      (by decide)
  | m :: m' :: ms, f + 1, hm, hf => by
    have hid := hm m (List.mem_cons_self _ _)
    obtain _ | ⟨c, t⟩ := m
    · cases hid
    have hc := isIdentStart_of_isIdent hid
    have hcne : c ≠ ']' := by rintro rfl; exact absurd hc (by decide)
    have ih : readSeq (readValue (n + 1)) ']' f (join ", ".data (m' :: ms) ++ ']' :: rest) =
        some ((m' :: ms).map .ident, rest) :=
      readSeq_modifiers (fun m hmem => hm m (List.mem_cons_of_mem _ hmem)) (by simp at hf ⊢; omega)
    rw [join_cons_cons, List.append_assoc, List.append_assoc, List.cons_append]
    generalize join ", ".data (m' :: ms) ++ ']' :: rest = X at ih
    have hv : readValue (n + 1) (c :: (t ++ (", ".data ++ X))) =
        some (.ident (c :: t), ", ".data ++ X) := readValue_modifier hid (.inl rfl)
    rw [readSeq_cons (skipWs_of_isIdentStart hc) hcne hv
        (show skipWs (", ".data ++ X) = ',' :: ' ' :: X from rfl),
      readSeq_cons_of_isWs (by decide), ih]
    rfl

theorem readValue_spawn (n : Nat) (command rest : List Char) :
    readValue (n + 3) (" Spawn(\"".data ++ (escapeRonString command ++ '"' :: ')' :: ',' :: rest)) =
      some (.tuple "Spawn".data [([], .str command)], ',' :: rest) := by
  have hcmd : readValue (n + 2) ('"' :: (escapeRonString command ++ '"' :: ')' :: ',' :: rest)) =
      some (.str command, ')' :: ',' :: rest) :=
    readValue_str (skipWs_cons (by decide)) (readString_escapeRonString command _)
  refine readValue_named (show skipWs _ = "Spawn".data ++
      '(' :: '"' :: (escapeRonString command ++ '"' :: ')' :: ',' :: rest) from rfl) (by decide)
    (head_not_isIdentChar (by decide)) (skipWs_cons (by decide)) ?_
  rw [List.length_cons]
  exact readSeq_last (skipWs_cons (by decide)) (by decide)
    (readField_positional (skipWs_cons (by decide)) (by decide) (by decide) (by decide) hcmd)
    (skipWs_cons (by decide)) (by decide)

theorem readValue_key {n : Nat} {mods : List (List Char)} (hmods : ∀ m ∈ mods, isIdent m = true)
    (key after : List Char) :
    readValue (n + 3) ("    (modifiers: [".data ++ (join ", ".data mods ++ ']' :: ',' :: ' ' ::
      ("key: \"".data ++ (escapeRonString key ++ '"' :: ')' :: ':' :: after)))) =
      some (.tuple [] [("modifiers".data, .list (mods.map .ident)), ("key".data, .str key)],
        ':' :: after) := by
  have hkeyStr :
      readValue (n + 2) (' ' :: '"' :: (escapeRonString key ++ '"' :: ')' :: ':' :: after)) =
      some (.str key, ')' :: ':' :: after) :=
    readValue_str rfl (readString_escapeRonString key _)
  generalize hK : "key: \"".data ++ (escapeRonString key ++ '"' :: ')' :: ':' :: after) = K
  have hkeyField : ∀ f, readSeq (readField (readValue (n + 2))) ')' (f + 1) (' ' :: K) =
      some ([("key".data, .str key)], ':' :: after) := fun f => by
    rw [readSeq_cons_of_isWs (by decide), ← hK]
    exact readSeq_last (skipWs_cons (by decide)) (by decide)
      (readField_named (show skipWs _ = "key".data ++
        ':' :: ' ' :: '"' :: (escapeRonString key ++ '"' :: ')' :: ':' :: after) from rfl)
        (by decide) (head_not_isIdentChar (by decide)) (skipWs_cons (by decide)) hkeyStr)
      (skipWs_cons (by decide)) (by decide)
  have hlist : readValue (n + 2) (' ' :: '[' :: (join ", ".data mods ++ ']' :: ',' :: ' ' :: K)) =
      some (.list (mods.map .ident), ',' :: ' ' :: K) := by
    refine readValue_list rfl (readSeq_modifiers hmods ?_)
    have := length_le_length_join (show [',', ' '] ≠ [] by decide) mods
    simp only [List.length_append, List.length_cons]
    omega
  refine readValue_struct (show skipWs _ = '(' :: ("modifiers: [".data ++
    (join ", ".data mods ++ ']' :: ',' :: ' ' :: K)) from rfl) ?_
  obtain ⟨f, hf⟩ : ∃ f, ("modifiers: [".data ++
      (join ", ".data mods ++ ']' :: ',' :: ' ' :: K)).length = f + 2 :=
    ⟨_, (Nat.sub_add_cancel (show 2 ≤ _ by simp)).symm⟩
  have hseq : readSeq (readField (readValue (n + 2))) ')' (f + 2) ("modifiers: [".data ++
      (join ", ".data mods ++ ']' :: ',' :: ' ' :: K)) =
      (readSeq (readField (readValue (n + 2))) ')' (f + 1) (' ' :: K)).map
        fun q => (("modifiers".data, .list (mods.map .ident)) :: q.1, q.2) :=
    readSeq_cons (skipWs_cons (by decide : isWs 'm' = false)) (by decide : 'm' ≠ ')')
      (readField_named (show skipWs _ = "modifiers".data ++
        ':' :: ' ' :: '[' :: (join ", ".data mods ++ ']' :: ',' :: ' ' :: K) from rfl)
        (by decide) (head_not_isIdentChar (by decide)) (skipWs_cons (by decide)) hlist)
      (skipWs_cons (by decide : isWs ',' = false))
  rw [hf, hseq, hkeyField]
  rfl

theorem readEntry_line {n : Nat} {b : Binding} (hb : ∀ m ∈ b.modifiers, isIdent m = true)
    (rest : List Char) :
    readEntry (readValue (n + 3)) (b.line ++ rest) = some (b.value, ',' :: rest) := by
  rw [Binding.line, formatKeybinding_append]
  exact readEntry_eq (readValue_key hb _ _) (skipWs_cons (by decide)) (readValue_spawn n _ _)

theorem skipWs_line_append (b : Binding) (rest : List Char) :
    skipWs (b.line ++ rest) = '(' :: ("modifiers: [".data ++ (join ", ".data b.modifiers ++ ']' ::
      ',' :: ' ' :: ("key: \"".data ++ (escapeRonString b.key ++ '"' :: ')' :: ':' ::
        (" Spawn(\"".data ++ (escapeRonString b.command ++ '"' :: ')' :: ',' :: rest)))))) := by
  rw [Binding.line, formatKeybinding_append]
  rfl

theorem length_le_length_flatMap_cons (c : Char) :
    ∀ ls : List (List Char), ls.length ≤ (ls.flatMap fun l => c :: l).length
  | [] => le_refl _
  | l :: ls => by
    have := length_le_length_flatMap_cons c ls
    simp only [List.flatMap_cons, List.length_append, List.length_cons]
    omega

theorem readSeq_lines {n : Nat} {rest : List Char} :
    ∀ {bs : List Binding} {f : Nat}, (∀ b ∈ bs, ∀ m ∈ b.modifiers, isIdent m = true) →
      bs.length < f →
      readSeq (readEntry (readValue (n + 3))) '}' f
          ((bs.map Binding.line).flatMap (fun l => '\n' :: l) ++ '\n' :: '}' :: rest) =
        some (bs.map Binding.value, rest)
  | [], f + 1, _, _ => readSeq_close rfl
  | b :: bs, f + 1, hbs, hf => by
    have ih : readSeq (readEntry (readValue (n + 3))) '}' f
        ((bs.map Binding.line).flatMap (fun l => '\n' :: l) ++ '\n' :: '}' :: rest) =
        some (bs.map Binding.value, rest) :=
      readSeq_lines (fun b hb => hbs b (List.mem_cons_of_mem _ hb)) (by simp at hf ⊢; omega)
    simp only [List.map_cons, List.flatMap_cons, List.append_assoc, List.cons_append]
    generalize (bs.map Binding.line).flatMap (fun l => '\n' :: l) ++ '\n' :: '}' :: rest = T at ih
    have hentry := readEntry_line (n := n) (hbs b (List.mem_cons_self _ _)) T
    rw [← readEntry_skipWs, skipWs_line_append] at hentry
    rw [readSeq_cons_of_isWs (by decide), readSeq_cons (skipWs_line_append b T) (by decide) hentry
      (skipWs_cons (by decide)), ih]
    rfl

theorem readDoc_shortcutsFile {bs : List Binding}
    (hbs : ∀ b ∈ bs, ∀ m ∈ b.modifiers, isIdent m = true) :
    readDoc (shortcutsFile (bs.map Binding.line)) = some (.map (bs.map Binding.value)) := by
  cases bs with
  | nil => rfl
  | cons b bs =>
    obtain ⟨n, hn⟩ : ∃ n, (shortcutsFile ((b :: bs).map Binding.line)).length = n + 4 :=
      ⟨_, (Nat.sub_add_cancel (show 4 ≤ _ by simp [shortcutsFile]; omega)).symm⟩
    refine readDoc_eq (r := []) ?_ rfl
    rw [hn]
    refine readValue_map (show skipWs _ = '{' :: (((b :: bs).map Binding.line).flatMap
      (fun l => '\n' :: l) ++ "\n\x7d".data) from rfl) ?_
    have := length_le_length_flatMap_cons '\n' ((b :: bs).map Binding.line)
    have h2 : "\n\x7d".data.length = 2 := rfl
    exact readSeq_lines hbs
      (by simp only [List.length_map, List.length_append, h2] at this ⊢; omega)

theorem shortcutsFile_eq_join (ls : List (List Char)) :
    shortcutsFile ls = join ['\n'] ("\x7b".data :: ls ++ ["\x7d".data]) := by
  suffices h : ∀ a : List Char, join ['\n'] (a :: ls ++ ["\x7d".data]) =
      a ++ ls.flatMap (fun l => '\n' :: l) ++ "\n\x7d".data from (h "\x7b".data).symm
  induction ls with
  | nil => intro a; simp [join_cons_cons, join_singleton]
  | cons l ls ih =>
    intro a
    rw [List.cons_append, List.cons_append, join_cons_cons, ← List.cons_append, ih]
    simp

theorem shortcutsFile_eq_append (ls : List (List Char)) :
    shortcutsFile ls = '{' :: (ls.flatMap (fun l => '\n' :: l) ++ ['\n']) ++ ['}'] := by
  simp [shortcutsFile]

theorem lines_shortcutsFile {ls : List (List Char)}
    (hls : ∀ l ∈ ls, '\n' ∉ l ∧ l.getLast? = some ',') :
    lines (shortcutsFile ls) = "\x7b".data :: ls ++ ["\x7d".data] := by
  rw [shortcutsFile_eq_join]
  refine lines_join (List.cons_ne_nil _ _) ?_ ?_ ?_
  · simp only [List.mem_cons, List.mem_append, List.not_mem_nil, or_false]
    rintro l ((rfl | hl) | rfl)
    · decide
    · exact (hls l hl).1
    · decide
  · simp only [List.mem_cons, List.mem_append, List.not_mem_nil, or_false]
    rintro l ((rfl | hl) | rfl)
    · decide
    · rw [(hls l hl).2]; decide
    · decide
  · rw [List.getLast?_concat]; decide

theorem removeSesameBindings_shortcutsFile {ls : List (List Char)}
    (hls : ∀ l ∈ ls, '\n' ∉ l ∧ l.getLast? = some ',') :
    removeSesameBindings (shortcutsFile ls) =
      shortcutsFile (ls.filter fun l => !contains l "sesame".data) := by
  rw [removeSesameBindings, lines_shortcutsFile hls, shortcutsFile_eq_join, List.filter_append,
    List.filter_cons, List.filter_singleton]
  rfl

theorem filter_sesame_of_hasSesameBinding {ls : List (List Char)}
    (h : hasSesameBinding (shortcutsFile ls) = false) :
    ls.filter (fun l => !contains l "sesame".data) = ls := by
  refine List.filter_eq_self.2 fun l hl => ?_
  have hinfix : l <:+: shortcutsFile ls :=
    (List.infix_cons (List.infix_refl l)).trans <|
      (List.infix_of_mem_flatten (List.mem_map_of_mem (fun l => '\n' :: l) hl)).trans <|
        (List.infix_append [] _ _).trans (List.infix_cons (List.infix_refl _))
  simp only [hasSesameBinding, contains, decide_eq_false_iff_not] at h
  simpa [contains] using fun hs => h (hs.trans hinfix)

theorem getLast?_flatMap_lines {ls : List (List Char)} (hne : ls ≠ [])
    (hls : ∀ l ∈ ls, l.getLast? = some ',') :
    ('{' :: ls.flatMap (fun l => '\n' :: l)).getLast? = some ',' := by
  obtain ⟨init, last, rfl⟩ : ∃ init last, ls = init ++ [last] :=
    ⟨_, _, (List.dropLast_append_getLast hne).symm⟩
  have hlast := hls last (List.mem_append_right _ (List.mem_singleton_self _))
  simp [List.flatMap_append, List.getLast?_cons, hlast]

theorem addBinding_shortcutsFile {ls : List (List Char)} (hls : ∀ l ∈ ls, l.getLast? = some ',')
    (binding : List Char) :
    addBinding (shortcutsFile ls) binding = shortcutsFile (ls ++ [binding]) := by
  by_cases hnil : ls = []
  · subst hnil
    rw [addBinding, show trim (shortcutsFile []) = "\x7b\n\x7d".data by decide,
      if_pos (.inr (.inr rfl))]
    simp [shortcutsFile]
  have hne : ls ≠ [] := hnil
  have hlen : 4 ≤ (shortcutsFile ls).length := by
    obtain ⟨l, ls', rfl⟩ := List.exists_cons_of_ne_nil hne
    simp [shortcutsFile]
    omega
  have htrim : trim (shortcutsFile ls) = shortcutsFile ls := by
    rw [shortcutsFile_eq_append]; exact trim_of_ends (by decide) (by decide)
  have hsmall : ¬(shortcutsFile ls = [] ∨ shortcutsFile ls = "\x7b\x7d".data ∨
      shortcutsFile ls = "\x7b\n\x7d".data) := by
    rintro (h | h | h) <;> rw [h] at hlen <;> simp at hlen
  have hlast := getLast?_flatMap_lines hne hls
  rw [addBinding, htrim, if_neg hsmall, shortcutsFile_eq_append, beforeLast_append_singleton]
  simp only [← List.cons_append]
  simp only [trimEnd_append_of_isWhitespace (show isWhitespace '\n' = true by decide),
    trimEnd_of_getLast? hlast (by decide), hlast]
  simp [shortcutsFile, List.flatMap_append]

theorem getLast?_formatKeybinding (modifiers : List (List Char)) (key command : List Char) :
    (formatKeybinding modifiers key command).getLast? = some ',' := by
  rw [← List.append_nil (formatKeybinding _ _ _), formatKeybinding_append]
  simp [List.getLast?_cons]

theorem newline_not_mem_line {b : Binding} (hb : b.OneLine) : '\n' ∉ b.line := by
  obtain ⟨hmods, hkey, hcmd⟩ := hb
  have hk : '\n' ∉ escapeRonString b.key := fun h => (mem_escapeRonString h).elim hkey (by decide)
  have hc : '\n' ∉ escapeRonString b.command := fun h =>
    (mem_escapeRonString h).elim hcmd (by decide)
  have hj : '\n' ∉ join ", ".data b.modifiers := fun h => (mem_join h).elim (by decide)
    fun ⟨m, hm, hn⟩ => absurd (isIdentChar_of_mem_isIdent (hmods m hm) hn) (by decide)
  rw [Binding.line, ← List.append_nil (formatKeybinding _ _ _), formatKeybinding_append]
  simp [hk, hc, hj]

theorem setupKeybinding_shortcutsFile (L : Lowercase) {ls : List (List Char)}
    (hls : ∀ l ∈ ls, '\n' ∉ l ∧ l.getLast? = some ',') {combo : List Char}
    {modifiers : List (List Char)} {key : List Char}
    (hparse : parseKeyCombo L combo = .ok (modifiers, key)) :
    setupKeybinding L (shortcutsFile ls) combo =
      .ok (shortcutsFile (ls.filter (fun l => !contains l "sesame".data) ++
        [formatKeybinding ["Alt".data] "tab".data "sesame".data,
          formatKeybinding ["Alt".data, "Shift".data] "tab".data "sesame --backward".data,
          formatKeybinding modifiers key "sesame --launcher".data])) := by
  have hcontent : (if hasSesameBinding (shortcutsFile ls) then
      removeSesameBindings (shortcutsFile ls) else shortcutsFile ls) =
      shortcutsFile (ls.filter fun l => !contains l "sesame".data) := by
    cases h : hasSesameBinding (shortcutsFile ls)
    · rw [if_neg Bool.false_ne_true, filter_sesame_of_hasSesameBinding h]
    · rw [if_pos rfl, removeSesameBindings_shortcutsFile hls]
  have hkept : ∀ l ∈ ls.filter (fun l => !contains l "sesame".data), l.getLast? = some ',' :=
    fun l hl => (hls l (List.mem_filter.1 hl).1).2
  have hstep : ∀ (K : List (List Char)) (b : List Char), (∀ l ∈ K, l.getLast? = some ',') →
      b.getLast? = some ',' → ∀ l ∈ K ++ [b], l.getLast? = some ',' := fun K b hK hb l hl =>
    (List.mem_append.1 hl).elim (hK l) fun h => List.mem_singleton.1 h ▸ hb
  simp only [setupKeybinding, hparse, Outcome.ok_bind, hcontent]
  generalize ls.filter (fun l => !contains l "sesame".data) = K at hkept ⊢
  rw [addBinding_shortcutsFile hkept, addBinding_shortcutsFile (hstep _ _ hkept
    (getLast?_formatKeybinding _ _ _)), addBinding_shortcutsFile (hstep _ _ (hstep _ _ hkept
    (getLast?_formatKeybinding _ _ _)) (getLast?_formatKeybinding _ _ _))]
  simp

theorem removeKeybinding_shortcutsFile {ls : List (List Char)}
    (hls : ∀ l ∈ ls, '\n' ∉ l ∧ l.getLast? = some ',') :
    removeKeybinding (shortcutsFile ls) = if hasSesameBinding (shortcutsFile ls) then
      some (shortcutsFile (ls.filter fun l => !contains l "sesame".data)) else none := by
  rw [removeKeybinding, removeSesameBindings_shortcutsFile hls]
  cases hasSesameBinding (shortcutsFile ls) <;> rfl

/-- On a file of one-line entries, `--setup-keybinding` writes the map of the entries that do not
mention `sesame` and sesame's three bindings, and `--remove-keybinding` the map of the former. -/
theorem setupKeybinding_one_line_entries (L : Lowercase) {bs : List Binding}
    (hbs : ∀ b ∈ bs, b.OneLine) {combo : List Char} {modifiers : List (List Char)}
    {key : List Char} (hparse : parseKeyCombo L combo = .ok (modifiers, key))
    (hlauncher : (Binding.mk modifiers key "sesame --launcher".data).OneLine) :
    readDoc (shortcutsFile (bs.map Binding.line)) = some (.map (bs.map Binding.value)) ∧
    (∃ out, setupKeybinding L (shortcutsFile (bs.map Binding.line)) combo = .ok out ∧
      readDoc out = some (.map (((bs.filter fun b => !contains b.line "sesame".data) ++
        ([⟨["Alt".data], "tab".data, "sesame".data⟩,
          ⟨["Alt".data, "Shift".data], "tab".data, "sesame --backward".data⟩,
          ⟨modifiers, key, "sesame --launcher".data⟩] : List Binding)).map Binding.value))) ∧
    ∀ out, removeKeybinding (shortcutsFile (bs.map Binding.line)) = some out →
      readDoc out = some (.map ((bs.filter fun b => !contains b.line "sesame".data).map
        Binding.value)) := by
  have hls : ∀ l ∈ bs.map Binding.line, '\n' ∉ l ∧ l.getLast? = some ',' := by
    simp only [List.mem_map]
    rintro _ ⟨b, hb, rfl⟩
    exact ⟨newline_not_mem_line (hbs b hb), getLast?_formatKeybinding _ _ _⟩
  have hkept : (bs.map Binding.line).filter (fun l => !contains l "sesame".data) =
      (bs.filter fun b => !contains b.line "sesame".data).map Binding.line := by
    simp only [List.filter_map, Function.comp_def]
  have hid : ∀ b ∈ bs.filter (fun b => !contains b.line "sesame".data), ∀ m ∈ b.modifiers,
      isIdent m = true := fun b hb => (hbs b (List.mem_filter.1 hb).1).1
  refine ⟨readDoc_shortcutsFile fun b hb => (hbs b hb).1,
    ⟨_, setupKeybinding_shortcutsFile L hls hparse, ?_⟩, fun out hout => ?_⟩
  · have hread := @readDoc_shortcutsFile (((bs.filter fun b => !contains b.line "sesame".data) ++
      ([⟨["Alt".data], "tab".data, "sesame".data⟩,
        ⟨["Alt".data, "Shift".data], "tab".data, "sesame --backward".data⟩,
        ⟨modifiers, key, "sesame --launcher".data⟩] : List Binding))) ?_
    · rw [List.map_append, ← hkept] at hread
      exact hread
    intro b hb
    rcases List.mem_append.1 hb with hb | hb
    · exact hid b hb
    · simp only [List.mem_cons, List.not_mem_nil, or_false] at hb
      rcases hb with rfl | rfl | rfl
      · decide
      · decide
      · exact hlauncher.1
  · rw [removeKeybinding_shortcutsFile hls] at hout
    split at hout
    · rw [← Option.some.inj hout, hkept]
      exact readDoc_shortcutsFile hid
    · cases hout

theorem setupKeybinding_one_line_entries_notes :
    readDoc (shortcutsFile (([⟨["Super".data], "n".data, "gedit notes.txt".data⟩] : List Binding).map
        Binding.line)) =
      some (.map (([⟨["Super".data], "n".data, "gedit notes.txt".data⟩] : List Binding).map
        Binding.value)) ∧
    (∃ out, setupKeybinding .asciiOnly (shortcutsFile
        (([⟨["Super".data], "n".data, "gedit notes.txt".data⟩] : List Binding).map Binding.line))
        "alt+space".data = .ok out ∧
      readDoc out = some (.map (((([⟨["Super".data], "n".data, "gedit notes.txt".data⟩] :
          List Binding).filter fun b => !contains b.line "sesame".data) ++
        ([⟨["Alt".data], "tab".data, "sesame".data⟩,
          ⟨["Alt".data, "Shift".data], "tab".data, "sesame --backward".data⟩,
          ⟨["Alt".data], "space".data, "sesame --launcher".data⟩] : List Binding)).map
            Binding.value))) ∧
    ∀ out, removeKeybinding (shortcutsFile
        (([⟨["Super".data], "n".data, "gedit notes.txt".data⟩] : List Binding).map Binding.line)) =
          some out →
      readDoc out = some (.map ((([⟨["Super".data], "n".data, "gedit notes.txt".data⟩] :
        List Binding).filter fun b => !contains b.line "sesame".data).map Binding.value)) :=
  setupKeybinding_one_line_entries .asciiOnly
    (by simp only [List.mem_singleton, forall_eq]; unfold Binding.OneLine; decide) (by decide)
    (by unfold Binding.OneLine; decide)

/-! ### Beyond one-line entries -/

/-- As RON's pretty-printer writes it, sesame's entry over several lines. -/
def prettyShortcuts : List Char :=
  ("\x7b\n    (\n        modifiers: [\n            Super,\n        ],\n        key: \"space\",\n" ++
    "    ): Spawn(\"sesame\"),\n\x7d").data

set_option maxRecDepth 2000 in
/-- Of an entry over several lines only the line with `sesame` is dropped; an entry whose command
mentions `sesame` is removed; a modifier is written unescaped. -/
theorem setupKeybinding_breaks_shortcuts :
    Ron.isBindingMap prettyShortcuts = true ∧
    (removeKeybinding prettyShortcuts).map Ron.isMap = some false ∧
    Ron.isMap <$> setupKeybinding .asciiOnly prettyShortcuts "alt+space".data = .ok false ∧
    Ron.isBindingMap
      "\x7b\n    (modifiers: [Super], key: \"n\"): Spawn(\"gedit sesame-notes.txt\"),\n\x7d".data =
        true ∧
    removeKeybinding
      "\x7b\n    (modifiers: [Super], key: \"n\"): Spawn(\"gedit sesame-notes.txt\"),\n\x7d".data =
        some "\x7b\n\x7d".data ∧
    Ron.isMap <$> setupKeybinding .asciiOnly "\x7b\n\x7d".data "super]+space".data = .ok false := by
  decide

end CosmicKeys

end OpenSesame
