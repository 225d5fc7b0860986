import OpenSesame.Config.Schema
import Mathlib.Data.List.Nodup

/-!
# The configuration validator

`config/validator.rs`. `key_for_app` returns the key of the first matching binding, so it
depends on the map's order; a config that validates cleanly has at most one binding that matches
an app id with no `.`.
-/

namespace OpenSesame

inductive Severity where
  | warning
  | error
deriving DecidableEq, Repr

structure ValidationIssue where
  severity : Severity
  message : String
deriving DecidableEq, Repr

def ValidationIssue.warning (message : String) : ValidationIssue := ⟨.warning, message⟩

def ValidationIssue.error (message : String) : ValidationIssue := ⟨.error, message⟩

namespace ConfigValidator

def validateSettings (settings : Settings) : List ValidationIssue :=
  (if 5000 < settings.activationDelay then [.warning "activation_delay > 5s is very slow"]
    else []) ++
  (if settings.borderWidth < 0 then [.error "border_width cannot be negative"] else []) ++
  (if 100 < settings.borderWidth then [.warning "border_width > 100px is unusually large"]
    else [])

/-- The first loop of `validate_keys`; `key.len()` counts bytes. -/
def keyIssues (key : String) (binding : KeyBinding) : List ValidationIssue :=
  (if key.isEmpty then [.error "Empty key name found"] else []) ++
  (if 1 < key.utf8ByteSize then
    [.warning ("Key \x27" ++ key ++ "\x27 should be a single character")] else []) ++
  (if binding.apps.isEmpty && binding.launch.isNone then
    [.warning ("Key \x27" ++ key ++ "\x27 has no apps and no launch command")] else [])

def appToKeyGet (app_to_key : List (List Char × String)) (app_lower : List Char) :
    Option String :=
  (app_to_key.find? fun e => e.1 = app_lower).map Prod.snd

/-- One pattern of the second loop of `validate_keys`: the first key to list an app is remembered, a
later one warned of. -/
def duplicateAppStep (L : Lowercase)
    (acc : List (List Char × String) × List ValidationIssue) (ka : String × String) :
    List (List Char × String) × List ValidationIssue :=
  let app_lower := L.toLowercase ka.2.data
  match appToKeyGet acc.1 app_lower with
  | some existing_key =>
    if existing_key ≠ ka.1 then
      (acc.1, acc.2 ++ [.warning ("App \x27" ++ ka.2 ++ "\x27 is mapped to both \x27" ++
        existing_key ++ "\x27 and \x27" ++ ka.1 ++ "\x27")])
    else acc
  | none => ((app_lower, ka.1) :: acc.1, acc.2)

def keyAppPairs (keys : List (String × KeyBinding)) : List (String × String) :=
  keys.flatMap fun kb => kb.2.apps.map fun app => (kb.1, app)

/-- The second loop of `validate_keys`. -/
def duplicateAppIssues (L : Lowercase) (keys : List (String × KeyBinding)) :
    List ValidationIssue :=
  ((keyAppPairs keys).foldl (duplicateAppStep L) ([], [])).2

def validate (L : Lowercase) (config : Config) : List ValidationIssue :=
  validateSettings config.settings ++
    config.keys.entries.flatMap (fun kb => keyIssues kb.1 kb.2) ++
    duplicateAppIssues L config.keys.entries

/-- Warnings are allowed. -/
def isValid (L : Lowercase) (config : Config) : Bool :=
  (validate L config).all fun i => i.severity ≠ .error

/-! The duplicate-app loop with no warning remembers, for every pair it visited, that
pair's key under its lowercased app. -/

section
variable (L : Lowercase)

theorem duplicateAppStep_issues (acc : List (List Char × String) × List ValidationIssue)
    (ka : String × String) : ∃ new, (duplicateAppStep L acc ka).2 = acc.2 ++ new := by
  unfold duplicateAppStep; dsimp only
  split
  · split_ifs
    · exact ⟨_, rfl⟩
    · exact ⟨[], (List.append_nil _).symm⟩
  · exact ⟨[], (List.append_nil _).symm⟩

theorem foldl_duplicateAppStep_issues (pairs : List (String × String))
    (acc : List (List Char × String) × List ValidationIssue) :
    ∃ new, (pairs.foldl (duplicateAppStep L) acc).2 = acc.2 ++ new := by
  induction pairs generalizing acc with
  | nil => exact ⟨[], (List.append_nil _).symm⟩
  | cons ka rest ih =>
    obtain ⟨new₁, h₁⟩ := duplicateAppStep_issues L acc ka
    obtain ⟨new₂, h₂⟩ := ih (duplicateAppStep L acc ka)
    exact ⟨new₁ ++ new₂, by rw [List.foldl_cons, h₂, h₁, List.append_assoc]⟩

theorem validate_eq_asciiOnly (config : Config)
    (hascii : ∀ ka ∈ keyAppPairs config.keys.entries, ∀ c ∈ ka.2.data, c.toNat < 128) :
    validate L config = validate .asciiOnly config := by
  simp only [validate, duplicateAppIssues]
  congr 2
  refine List.foldl_ext _ _ _ fun acc ka hka => ?_
  simp only [duplicateAppStep, L.map_ascii _ (hascii ka hka)]
  rfl

/-- The default configuration has no issue, whatever the Unicode tables. -/
theorem validate_default : validate L Config.default = [] := by
  rw [validate_eq_asciiOnly L _ (by decide)]
  decide

theorem appToKeyGet_cons {app_to_key : List (List Char × String)} {x y : List Char} {k k' : String}
    (hy : appToKeyGet app_to_key y = none) (hx : appToKeyGet app_to_key x = some k') :
    appToKeyGet ((y, k) :: app_to_key) x = some k' := by
  have hxy : y ≠ x := by rintro rfl; rw [hx] at hy; cases hy
  simpa [appToKeyGet, hxy] using hx

theorem duplicateAppStep_remembers {m m' : List (List Char × String)} {ka : String × String}
    (h : duplicateAppStep L (m, []) ka = (m', [])) :
    appToKeyGet m' (L.toLowercase ka.2.data) = some ka.1 ∧
      ∀ x k, appToKeyGet m x = some k → appToKeyGet m' x = some k := by
  unfold duplicateAppStep at h; dsimp only at h
  split at h
  · rename_i existing hget
    split_ifs at h with hne
    · simp at h
    · obtain rfl := (Prod.mk.inj h).1
      exact ⟨by rw [hget, not_not.1 hne], fun _ _ hx => hx⟩
  · rename_i hget
    obtain rfl := (Prod.mk.inj h).1
    exact ⟨by simp [appToKeyGet], fun x k hx => appToKeyGet_cons hget hx⟩

theorem foldl_duplicateAppStep_remembers (pairs : List (String × String))
    (m m' : List (List Char × String))
    (h : pairs.foldl (duplicateAppStep L) (m, []) = (m', [])) :
    (∀ ka ∈ pairs, appToKeyGet m' (L.toLowercase ka.2.data) = some ka.1) ∧
      ∀ x k, appToKeyGet m x = some k → appToKeyGet m' x = some k := by
  induction pairs generalizing m with
  | nil => exact ⟨fun _ h => absurd h (List.not_mem_nil _), fun x k hx => (Prod.mk.inj h).1 ▸ hx⟩
  | cons ka rest ih =>
    rw [List.foldl_cons] at h
    obtain ⟨new, hnew⟩ := foldl_duplicateAppStep_issues L rest (duplicateAppStep L (m, []) ka)
    have hstep : duplicateAppStep L (m, []) ka = ((duplicateAppStep L (m, []) ka).1, []) := by
      rw [h] at hnew
      exact Prod.ext rfl (List.append_eq_nil.1 hnew.symm).1
    obtain ⟨hhead, hkeep⟩ := duplicateAppStep_remembers L hstep
    rw [hstep] at h
    obtain ⟨hrest, hkeep'⟩ := ih _ h
    refine ⟨fun ka' hka' => ?_, fun x k hx => hkeep' x k (hkeep x k hx)⟩
    rcases List.mem_cons.1 hka' with rfl | hka'
    · exact hkeep' _ _ hhead
    · exact hrest ka' hka'

theorem key_eq_of_duplicateAppIssues_nil {keys : List (String × KeyBinding)}
    (h : duplicateAppIssues L keys = []) {ka ka' : String × String} (hka : ka ∈ keyAppPairs keys)
    (hka' : ka' ∈ keyAppPairs keys) (hl : L.toLowercase ka.2.data = L.toLowercase ka'.2.data) :
    ka.1 = ka'.1 := by
  have hfold : (keyAppPairs keys).foldl (duplicateAppStep L) ([], []) =
      (((keyAppPairs keys).foldl (duplicateAppStep L) ([], [])).1, []) := Prod.ext rfl h
  have hrem := (foldl_duplicateAppStep_remembers L _ _ _ hfold).1
  have := hrem ka hka
  rw [hl, hrem ka' hka'] at this
  exact (Option.some.inj this).symm

end

theorem patternMatches_iff_of_no_dot (L : Lowercase) {app_id : String} (hdot : '.' ∉ app_id.data)
    (pattern : String) :
    patternMatches L app_id pattern = true ↔
      L.toLowercase pattern.data = L.toLowercase app_id.data := by
  have hsplit : app_id.data.splitOn '.' = [app_id.data] :=
    List.splitOnP_eq_single _ _ fun c hc hce => hdot (beq_iff_eq.1 hce ▸ hc)
  simp only [patternMatches, hsplit, List.getLast?_singleton, Option.map_some', Bool.or_eq_true,
    beq_iff_eq, Option.some.injEq]
  constructor
  · rintro ((rfl | h) | h)
    · rfl
    · exact h
    · exact h.symm
  · exact fun h => .inl (.inr h)

theorem find?_perm_of_unique {α : Type} {p : α → Bool} {l r : List α} (hp : l.Perm r)
    (huniq : ∀ x ∈ l, ∀ y ∈ l, p x = true → p y = true → x = y) : l.find? p = r.find? p := by
  cases hr : r.find? p with
  | none =>
    exact List.find?_eq_none.2 fun x hx => List.find?_eq_none.1 hr x (hp.mem_iff.1 hx)
  | some x =>
    have hx := hp.mem_iff.2 (List.mem_of_find?_eq_some hr)
    have hpx := List.find?_some hr
    cases hl : l.find? p with
    | none => exact absurd hpx (by simpa using List.find?_eq_none.1 hl x hx)
    | some y =>
      rw [huniq y (List.mem_of_find?_eq_some hl) x hx (List.find?_some hl) hpx]

/-- On a configuration that validates cleanly, `key_for_app` of an app id with no `.` is the same in
every iteration order. -/
theorem keyForAppIn_perm_of_validate (L : Lowercase) (config : Config) {app_id : String}
    (hvalid : validate L config = []) (hdot : '.' ∉ app_id.data)
    (order : List (String × KeyBinding)) (hperm : order.Perm config.keys.entries) :
    keyForAppIn L order app_id = config.keyForApp L app_id := by
  have hdup : duplicateAppIssues L config.keys.entries = [] := by
    simp only [validate, List.append_eq_nil] at hvalid
    exact hvalid.2
  have huniq : ∀ x ∈ order, ∀ y ∈ order, (x.2.apps.any (patternMatches L app_id)) = true →
      (y.2.apps.any (patternMatches L app_id)) = true → x = y := by
    intro x hx y hy hpx hpy
    obtain ⟨a, ha, hpa⟩ := List.any_eq_true.1 hpx
    obtain ⟨b, hb, hpb⟩ := List.any_eq_true.1 hpy
    rw [patternMatches_iff_of_no_dot L hdot] at hpa hpb
    have hxa : (x.1, a) ∈ keyAppPairs config.keys.entries :=
      List.mem_flatMap.2 ⟨x, hperm.mem_iff.1 hx, List.mem_map_of_mem _ ha⟩
    have hyb : (y.1, b) ∈ keyAppPairs config.keys.entries :=
      List.mem_flatMap.2 ⟨y, hperm.mem_iff.1 hy, List.mem_map_of_mem _ hb⟩
    have hkey := key_eq_of_duplicateAppIssues_nil L hdup hxa hyb (hpa.trans hpb.symm)
    exact List.inj_on_of_nodup_map config.keys.nodup_keys (hperm.mem_iff.1 hx)
      (hperm.mem_iff.1 hy) hkey
  simp only [Config.keyForApp, keyForAppIn]
  rw [find?_perm_of_unique hperm huniq]

theorem keyForAppIn_reverse_default_firefox :
    validate .asciiOnly Config.default = [] ∧ '.' ∉ "firefox".data ∧
    Config.default.keys.entries.reverse.Perm Config.default.keys.entries ∧
    keyForAppIn .asciiOnly Config.default.keys.entries.reverse "firefox" =
      Config.default.keyForApp .asciiOnly "firefox" :=
  ⟨validate_default _, by decide, List.reverse_perm _,
    keyForAppIn_perm_of_validate .asciiOnly Config.default (validate_default _) (by decide) _
      (List.reverse_perm _)⟩

/-- Bindings `g = ["ghostty"]` and `h = ["com.mitchellh.ghostty"]` validate cleanly, and
`key_for_app` gives `g` or `h` by the iteration order. -/
theorem keyForApp_depends_on_order :
    ¬ ∀ (config : Config) (app_id : String) (order : List (String × KeyBinding)),
      validate .asciiOnly config = [] → order.Perm config.keys.entries →
        keyForAppIn .asciiOnly order app_id = config.keyForApp .asciiOnly app_id := fun h =>
  absurd
    (h ⟨Settings.default,
        ⟨[("g", ⟨["ghostty"], none⟩), ("h", ⟨["com.mitchellh.ghostty"], none⟩)], by decide⟩⟩
      "com.mitchellh.ghostty"
      [("h", ⟨["com.mitchellh.ghostty"], none⟩), ("g", ⟨["ghostty"], none⟩)]
      (by decide) (List.Perm.swap _ _ _))
    (by decide)

end ConfigValidator

end OpenSesame
