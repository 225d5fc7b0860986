import OpenSesame.Util.Str

/-!
# Environment files

`util/env.rs`: a `.env` file is read line by line, later lines winning. `parse_env_value`
decodes a double-quoted value by four `str::replace` calls, one left-to-right pass only on text
with no escaped backslash.
-/

namespace OpenSesame

namespace Env

open Str

/-- The four `replace` calls of `parse_env_value`, in the source's order. -/
def unescapeQuoted (value : List Char) : List Char :=
  replace (replace (replace (replace value ['\\', 'n'] ['\n']) ['\\', 't'] ['\t'])
    ['\\', '"'] ['"']) ['\\', '\\'] ['\\']

/-- `parse_env_value`; its warning about shell metacharacters is logging only. -/
def parseEnvValue (raw : List Char) : List Char :=
  let raw := trim raw
  if raw.head? = some '"' ∧ raw.getLast? = some '"' ∧ 2 ≤ String.utf8ByteSize ⟨raw⟩ then
    unescapeQuoted (raw.drop 1).dropLast
  else if raw.head? = some '\x27' ∧ raw.getLast? = some '\x27' ∧
      2 ≤ String.utf8ByteSize ⟨raw⟩ then
    (raw.drop 1).dropLast
  else
    match splitAtFirst [' ', '#'] raw with
    | some (before, _) => trim before
    | none => raw

/-- The loop body of `parse_env_file`: an assignment with a non-empty key, or nothing. -/
def parseEnvLine (line : List Char) : Option (List Char × List Char) :=
  let line := trim line
  if line = [] ∨ line.head? = some '#' then none
  else
    let line := (stripPrefix "export ".data line).getD line
    match splitAtFirst ['='] line with
    | none => none
    | some (key, value_raw) =>
      let key := trim key
      if key = [] then none else some (key, parseEnvValue (trim value_raw))

def parseEnvFile (content : List Char) : HashMap String String :=
  (lines content).foldl (fun env line =>
    match parseEnvLine line with
    | some (key, value) => env.insert ⟨key⟩ ⟨value⟩
    | none => env) HashMap.empty

/-- One left-to-right decoding of `\n`, `\t`, `\"` and `\\`, which a standard escaper's output
needs. -/
def unescape : List Char → List Char
  | '\\' :: 'n' :: s => '\n' :: unescape s
  | '\\' :: 't' :: s => '\t' :: unescape s
  | '\\' :: '"' :: s => '"' :: unescape s
  | '\\' :: '\\' :: s => '\\' :: unescape s
  | c :: s => c :: unescape s
  | [] => []

/-- The standard escaper that `unescape` inverts. -/
def escape (v : List Char) : List Char :=
  v.flatMap fun c =>
    if c = '\n' then ['\\', 'n'] else if c = '\t' then ['\\', 't']
    else if c = '"' then ['\\', '"'] else if c = '\\' then ['\\', '\\'] else [c]

theorem unescape_escape (v : List Char) : unescape (escape v) = v := by
  induction v with
  | nil => rfl
  | cons c v ih =>
    have hv : unescape (escape v) = v := ih
    simp only [escape, List.flatMap_cons] at hv ⊢
    by_cases hn : c = '\n'
    · simp [hn, unescape, hv]
    by_cases ht : c = '\t'
    · simp [ht, unescape, hv]
    by_cases hq : c = '"'
    · simp [hq, unescape, hv]
    by_cases hb : c = '\\'
    · simp [hb, unescape, hv]
    simp only [hn, ht, hq, hb, if_false, List.singleton_append]
    rw [unescape.eq_5 c _ (fun _ h => absurd h hb) (fun _ h => absurd h hb)
      (fun _ h => absurd h hb) (fun _ h => absurd h hb), hv]

section Passes

variable {c : Char} {s : List Char}

theorem replaceFrom_escape_cons (hc : c ≠ '\\') (x : Char) (rep t : List Char) :
    replaceFrom ['\\', x] rep 0 (c :: t) = c :: replaceFrom ['\\', x] rep 0 t :=
  replaceFrom_cons_of_head fun h => hc (Option.some.inj h).symm

theorem unescapeQuoted_cons (hc : c ≠ '\\') : unescapeQuoted (c :: s) = c :: unescapeQuoted s := by
  simp only [unescapeQuoted, replace, replaceFrom_escape_cons hc]

theorem unescapeQuoted_newline : unescapeQuoted ('\\' :: 'n' :: s) = '\n' :: unescapeQuoted s := by
  simp only [unescapeQuoted, replace, replaceFrom_pair_match, List.singleton_append,
    replaceFrom_escape_cons (show '\n' ≠ '\\' by decide)]

theorem unescapeQuoted_tab : unescapeQuoted ('\\' :: 't' :: s) = '\t' :: unescapeQuoted s := by
  simp only [unescapeQuoted, replace, replaceFrom_pair_miss (show 't' ≠ 'n' by decide),
    replaceFrom_escape_cons (show 't' ≠ '\\' by decide), replaceFrom_pair_match,
    List.singleton_append, replaceFrom_escape_cons (show '\t' ≠ '\\' by decide)]

theorem unescapeQuoted_quote : unescapeQuoted ('\\' :: '"' :: s) = '"' :: unescapeQuoted s := by
  simp only [unescapeQuoted, replace, replaceFrom_pair_miss (show '"' ≠ 'n' by decide),
    replaceFrom_pair_miss (show '"' ≠ 't' by decide),
    replaceFrom_escape_cons (show '"' ≠ '\\' by decide), replaceFrom_pair_match,
    List.singleton_append]

theorem unescapeQuoted_backslash (hn : c ≠ 'n') (ht : c ≠ 't') (hq : c ≠ '"') (hb : c ≠ '\\') :
    unescapeQuoted ('\\' :: c :: s) = '\\' :: c :: unescapeQuoted s := by
  simp only [unescapeQuoted, replace, replaceFrom_pair_miss hn, replaceFrom_pair_miss ht,
    replaceFrom_pair_miss hq, replaceFrom_pair_miss hb, replaceFrom_escape_cons hb]

theorem unescapeQuoted_last_backslash : unescapeQuoted ['\\'] = ['\\'] := by
  simp only [unescapeQuoted, replace, replaceFrom_pair_last]

/-- On a value with no escaped backslash the four passes are the one-pass decoding. -/
theorem unescapeQuoted_eq_unescape {t : List Char} (h : ¬ ['\\', '\\'] <:+: t) :
    unescapeQuoted t = unescape t := by
  have tail : ∀ {a b : Char} {s : List Char}, ¬ ['\\', '\\'] <:+: a :: b :: s →
      ¬ ['\\', '\\'] <:+: s := fun h hs => h (List.infix_cons (List.infix_cons hs))
  induction t using unescape.induct with
  | case1 s ih => rw [unescapeQuoted_newline, ih (tail h), unescape]
  | case2 s ih => rw [unescapeQuoted_tab, ih (tail h), unescape]
  | case3 s ih => rw [unescapeQuoted_quote, ih (tail h), unescape]
  | case4 s => exact absurd (List.IsPrefix.isInfix ⟨s, rfl⟩) h
  | case5 c s hn ht hq hb ih =>
    have hs : ¬ ['\\', '\\'] <:+: s := fun hs => h (List.infix_cons hs)
    rw [unescape.eq_5 c s hn ht hq hb, ← ih hs]
    by_cases hc : c = '\\'
    · subst hc
      cases s with
      | nil => exact unescapeQuoted_last_backslash
      | cons d s =>
        have hd : d ≠ '\\' := fun hd => hb s rfl (by rw [hd])
        rw [unescapeQuoted_backslash (fun he => hn s rfl (by rw [he]))
          (fun he => ht s rfl (by rw [he])) (fun he => hq s rfl (by rw [he])) hd,
          unescapeQuoted_cons hd]
    · exact unescapeQuoted_cons hc
  | case6 => rfl

end Passes

theorem parseEnvValue_quoted {t : List Char} (h : ¬ ['\\', '\\'] <:+: t) :
    parseEnvValue ('"' :: t ++ ['"']) = unescape t := by
  have hq : isWhitespace '"' = false := by decide
  have hsize : 2 ≤ String.utf8ByteSize ⟨'"' :: t ++ ['"']⟩ := by
    have := length_le_utf8ByteSize ('"' :: t ++ ['"'])
    simp only [List.length_append, List.length_cons, List.length_singleton] at this
    omega
  have hlast : ('"' :: t ++ ['"']).getLast? = some '"' := by rw [List.getLast?_append]; rfl
  rw [parseEnvValue, trim_of_ends hq hq, if_pos ⟨rfl, hlast, hsize⟩, List.cons_append,
    List.drop_one, List.tail_cons, List.dropLast_concat, unescapeQuoted_eq_unescape h]

theorem not_infix_escape {v : List Char} (hv : '\\' ∉ v) : ¬ ['\\', '\\'] <:+: escape v := by
  induction v with
  | nil => simp [escape]
  | cons c v ih =>
    simp only [List.mem_cons, not_or] at hv
    have hc : c ≠ '\\' := fun h => hv.1 h.symm
    have ih := ih hv.2
    simp only [escape, List.flatMap_cons] at ih ⊢
    split_ifs <;> simp_all [List.infix_cons_iff]

/-- A value with no backslash, escaped by a standard escaper and double-quoted, is read back by
`parse_env_value`. -/
theorem parseEnvValue_escape {v : List Char} (hv : '\\' ∉ v) :
    parseEnvValue ('"' :: escape v ++ ['"']) = v := by
  rw [parseEnvValue_quoted (not_infix_escape hv), unescape_escape]

theorem parseEnvValue_escape_tab_quote :
    '\\' ∉ "a\t\"b".data ∧ parseEnvValue ('"' :: escape "a\t\"b".data ++ ['"']) = "a\t\"b".data :=
  ⟨by decide, parseEnvValue_escape (by decide)⟩

/-- The line `DIR="C:\\new"`, a standard escaper's output for `C:\new`, gives `DIR` a backslash and
a newline. -/
theorem parseEnvFile_escaped_backslash_newline :
    escape "C:\\new".data = "C:\\\\new".data ∧ unescape "C:\\\\new".data = "C:\\new".data ∧
    parseEnvValue "\"C:\\\\new\"".data = ['C', ':', '\\', '\n', 'e', 'w'] ∧
    (parseEnvFile "DIR=\"C:\\\\new\"\n".data).get "DIR" = some ⟨['C', ':', '\\', '\n', 'e', 'w']⟩ := by
  decide

/-! ### Loading files -/

def assignments (content : List Char) : List (String × String) :=
  (lines content).filterMap fun line => (parseEnvLine line).map fun kv => (⟨kv.1⟩, ⟨kv.2⟩)

/-- `load_env_files`; `read` gives a path's contents after `expand_path`, `none` where it cannot be
read. -/
def loadEnvFiles (read : String → Option String) (paths : List String) :
    HashMap String String :=
  paths.foldl (fun env path_str =>
    match read path_str with
    | some content => env.extend (parseEnvFile content.data).entries
    | none => env) HashMap.empty

def fileAssignments (read : String → Option String) (paths : List String) :
    List (String × String) :=
  (paths.filterMap read).flatMap fun content => assignments content.data

theorem parseEnvFile_eq (content : List Char) :
    parseEnvFile content = HashMap.empty.extend (assignments content) := by
  suffices h : ∀ (ls : List (List Char)) (env : HashMap String String),
      ls.foldl (fun env line =>
        match parseEnvLine line with
        | some (key, value) => env.insert ⟨key⟩ ⟨value⟩
        | none => env) env =
      env.extend (ls.filterMap fun line => (parseEnvLine line).map fun kv => (⟨kv.1⟩, ⟨kv.2⟩)) from
    h _ _
  intro ls
  induction ls with
  | nil => intro env; rfl
  | cons l rest ih =>
    intro env
    cases hl : parseEnvLine l with
    | none => simp only [List.foldl_cons, hl, List.filterMap_cons, Option.map_none', ih]
    | some kv => simp only [List.foldl_cons, hl, List.filterMap_cons, Option.map_some', ih]; rfl

/-- Later lines of a file, and later files, override earlier ones. -/
theorem get_loadEnvFiles (read : String → Option String) (paths : List String) (k : String) :
    (loadEnvFiles read paths).get k = HashMap.lastValue (fileAssignments read paths) k := by
  suffices h : ∀ env : HashMap String String, (paths.foldl (fun env path_str =>
      match read path_str with
      | some content => env.extend (parseEnvFile content.data).entries
      | none => env) env).get k = (HashMap.lastValue (fileAssignments read paths) k).or (env.get k) by
    rw [loadEnvFiles, h, HashMap.get_empty, Option.or_none]
  induction paths with
  | nil => intro env; rfl
  | cons p rest ih =>
    intro env
    cases hp : read p with
    | none => simp only [List.foldl_cons, hp, ih, fileAssignments, List.filterMap_cons]
    | some content =>
      have hfile : (parseEnvFile content.data).get k = HashMap.lastValue (assignments content.data) k := by
        rw [parseEnvFile_eq, HashMap.get_extend, HashMap.get_empty, Option.or_none]
      simp only [List.foldl_cons, hp]
      rw [ih, HashMap.extend, HashMap.get_foldl_insert _ (parseEnvFile content.data).nodup_keys]
      simp only [fileAssignments, List.filterMap_cons, hp, List.flatMap_cons,
        HashMap.lastValue_append, Option.or_assoc]
      rw [← hfile]
      rfl

end Env

end OpenSesame
