import OpenSesame.Config.Schema

/-!
# Layered configuration

`config/loader.rs`: `Config::default()` with each file merged in turn by `deep_merge`. Decoding
fills a missing setting with its default, so a later file overrides a setting only with a value
other than the default; key bindings are merged key by key.
-/

namespace OpenSesame

/-- What one configuration file sets; `keys` is empty when it has no `[keys]` table. -/
structure ConfigFile where
  activationKey : Option String
  activationDelay : Option Nat
  overlayDelay : Option Nat
  quickSwitchThreshold : Option Nat
  borderWidth : Option ℚ
  borderColor : Option Color
  backgroundColor : Option Color
  cardColor : Option Color
  textColor : Option Color
  hintColor : Option Color
  hintMatchedColor : Option Color
  envFiles : Option (List String)
  keys : HashMap String KeyBinding

namespace ConfigFile

def blank : ConfigFile :=
  ⟨none, none, none, none, none, none, none, none, none, none, none, none, HashMap.empty⟩

/-- `#[serde(default)]` fills a setting the file leaves out from `Settings::default()`. -/
def decode (file : ConfigFile) : Config :=
  let d := Settings.default
  ⟨{ activationKey := file.activationKey.getD d.activationKey
     activationDelay := file.activationDelay.getD d.activationDelay
     overlayDelay := file.overlayDelay.getD d.overlayDelay
     quickSwitchThreshold := file.quickSwitchThreshold.getD d.quickSwitchThreshold
     borderWidth := file.borderWidth.getD d.borderWidth
     borderColor := file.borderColor.getD d.borderColor
     backgroundColor := file.backgroundColor.getD d.backgroundColor
     cardColor := file.cardColor.getD d.cardColor
     textColor := file.textColor.getD d.textColor
     hintColor := file.hintColor.getD d.hintColor
     hintMatchedColor := file.hintMatchedColor.getD d.hintMatchedColor
     envFiles := file.envFiles.getD d.envFiles }, file.keys⟩

end ConfigFile

/-- One setting of `deep_merge`: the overlay's value where it differs from the default. -/
def mergeSetting {α : Type} [DecidableEq α] (base overlay default : α) : α :=
  if overlay ≠ default then overlay else base

def deepMerge (base overlay : Config) : Config :=
  let defaults := Config.default.settings
  let b := base.settings
  let o := overlay.settings
  ⟨{ activationKey := mergeSetting b.activationKey o.activationKey defaults.activationKey
     activationDelay := mergeSetting b.activationDelay o.activationDelay defaults.activationDelay
     overlayDelay := mergeSetting b.overlayDelay o.overlayDelay defaults.overlayDelay
     quickSwitchThreshold :=
       mergeSetting b.quickSwitchThreshold o.quickSwitchThreshold defaults.quickSwitchThreshold
     borderWidth := mergeSetting b.borderWidth o.borderWidth defaults.borderWidth
     borderColor := mergeSetting b.borderColor o.borderColor defaults.borderColor
     backgroundColor := mergeSetting b.backgroundColor o.backgroundColor defaults.backgroundColor
     cardColor := mergeSetting b.cardColor o.cardColor defaults.cardColor
     textColor := mergeSetting b.textColor o.textColor defaults.textColor
     hintColor := mergeSetting b.hintColor o.hintColor defaults.hintColor
     hintMatchedColor :=
       mergeSetting b.hintMatchedColor o.hintMatchedColor defaults.hintMatchedColor
     envFiles := if !o.envFiles.isEmpty then o.envFiles else b.envFiles },
   overlay.keys.entries.foldl (fun keys kb => keys.insert kb.1 kb.2) base.keys⟩

/-- `load_config` and `load_config_from_paths` once the files are read. -/
def loadConfig (files : List ConfigFile) : Config :=
  files.foldl (fun config file => deepMerge config file.decode) Config.default

/-- The last value other than the default that a file sets, or the default. -/
def layered {α : Type} [DecidableEq α] (default : α) (field : ConfigFile → Option α)
    (files : List ConfigFile) : α :=
  (((files.filterMap field).filter (· ≠ default)).getLast?).getD default

/-- The documented layering: the value of the last file that sets the setting, or the default. -/
def lastSet {α : Type} (default : α) (field : ConfigFile → Option α)
    (files : List ConfigFile) : α :=
  ((files.filterMap field).getLast?).getD default

section Layering

variable {α : Type} [DecidableEq α]

theorem foldl_mergeSetting (d : α) (field : ConfigFile → Option α) (files : List ConfigFile)
    (init : α) :
    files.foldl (fun acc f => mergeSetting acc ((field f).getD d) d) init =
      (((files.filterMap field).filter (· ≠ d)).getLast?).getD init := by
  induction files using List.reverseRecOn with
  | nil => rfl
  | append_singleton files f ih =>
    rw [List.foldl_append, List.foldl_cons, List.foldl_nil, ih, List.filterMap_append,
      List.filter_append, List.getLast?_append]
    cases hf : field f with
    | none => simp [mergeSetting, hf]
    | some v => by_cases hv : v = d <;> simp [mergeSetting, hf, hv]

theorem loadConfig_setting (get : Settings → α) (field : ConfigFile → Option α)
    (hstep : ∀ (c : Config) (f : ConfigFile), get (deepMerge c f.decode).settings =
      mergeSetting (get c.settings) ((field f).getD (get Settings.default)) (get Settings.default))
    (files : List ConfigFile) :
    get (loadConfig files).settings = layered (get Settings.default) field files := by
  rw [layered, ← foldl_mergeSetting]
  exact (List.foldl_hom (fun c : Config => get c.settings) _ _ files Config.default
    fun c f => (hstep c f).symm).symm

end Layering

theorem envFiles_merge (base overlay : List String) :
    (if !overlay.isEmpty then overlay else base) = mergeSetting base overlay [] := by
  cases overlay <;> rfl

theorem loadConfig_settings (files : List ConfigFile) :
    (loadConfig files).settings =
      { activationKey := layered Settings.default.activationKey ConfigFile.activationKey files
        activationDelay :=
          layered Settings.default.activationDelay ConfigFile.activationDelay files
        overlayDelay := layered Settings.default.overlayDelay ConfigFile.overlayDelay files
        quickSwitchThreshold :=
          layered Settings.default.quickSwitchThreshold ConfigFile.quickSwitchThreshold files
        borderWidth := layered Settings.default.borderWidth ConfigFile.borderWidth files
        borderColor := layered Settings.default.borderColor ConfigFile.borderColor files
        backgroundColor :=
          layered Settings.default.backgroundColor ConfigFile.backgroundColor files
        cardColor := layered Settings.default.cardColor ConfigFile.cardColor files
        textColor := layered Settings.default.textColor ConfigFile.textColor files
        hintColor := layered Settings.default.hintColor ConfigFile.hintColor files
        hintMatchedColor :=
          layered Settings.default.hintMatchedColor ConfigFile.hintMatchedColor files
        envFiles := layered [] ConfigFile.envFiles files } := by
  have key := loadConfig_setting Settings.activationKey ConfigFile.activationKey
    (fun _ _ => rfl) files
  have delay := loadConfig_setting Settings.activationDelay ConfigFile.activationDelay
    (fun _ _ => rfl) files
  have overlay := loadConfig_setting Settings.overlayDelay ConfigFile.overlayDelay
    (fun _ _ => rfl) files
  have quick := loadConfig_setting Settings.quickSwitchThreshold
    ConfigFile.quickSwitchThreshold (fun _ _ => rfl) files
  have width := loadConfig_setting Settings.borderWidth ConfigFile.borderWidth
    (fun _ _ => rfl) files
  have border := loadConfig_setting Settings.borderColor ConfigFile.borderColor
    (fun _ _ => rfl) files
  have background := loadConfig_setting Settings.backgroundColor ConfigFile.backgroundColor
    (fun _ _ => rfl) files
  have card := loadConfig_setting Settings.cardColor ConfigFile.cardColor (fun _ _ => rfl) files
  have text := loadConfig_setting Settings.textColor ConfigFile.textColor (fun _ _ => rfl) files
  have hint := loadConfig_setting Settings.hintColor ConfigFile.hintColor (fun _ _ => rfl) files
  have matched := loadConfig_setting Settings.hintMatchedColor ConfigFile.hintMatchedColor
    (fun _ _ => rfl) files
  have env : (loadConfig files).settings.envFiles = layered [] ConfigFile.envFiles files :=
    loadConfig_setting Settings.envFiles ConfigFile.envFiles (fun _ _ => envFiles_merge _ _) files
  rw [← key, ← delay, ← overlay, ← quick, ← width, ← border, ← background, ← card, ← text,
    ← hint, ← matched, ← env]

theorem loadConfig_keys_get (files : List ConfigFile) (k : String) :
    (loadConfig files).keys.get k =
      ((files.filterMap fun f => f.keys.get k).getLast?).or (defaultKeys.get k) := by
  induction files using List.reverseRecOn with
  | nil => rfl
  | append_singleton files f ih =>
    have hstep : (deepMerge (loadConfig files) f.decode).keys.get k =
        (f.keys.get k).or ((loadConfig files).keys.get k) :=
      HashMap.get_foldl_insert _ f.keys.nodup_keys k
    rw [loadConfig, List.foldl_append, List.foldl_cons, List.foldl_nil, ← loadConfig, hstep, ih,
      List.filterMap_append, List.getLast?_append, Option.or_assoc]
    cases h : f.keys.get k <;> simp [h]

/-- A later file that sets `activation_delay` back to 200, or `env_files` to `[]`, leaves the
earlier value in place. -/
theorem loadConfig_keeps_value_reset_to_default :
    (loadConfig [{ ConfigFile.blank with activationDelay := some 300 },
        { ConfigFile.blank with activationDelay := some 200 }]).settings.activationDelay = 300 ∧
    lastSet Settings.default.activationDelay ConfigFile.activationDelay
        [{ ConfigFile.blank with activationDelay := some 300 },
          { ConfigFile.blank with activationDelay := some 200 }] = 200 ∧
    (loadConfig [{ ConfigFile.blank with envFiles := some ["~/.env"] },
        { ConfigFile.blank with envFiles := some [] }]).settings.envFiles = ["~/.env"] := by
  decide

end OpenSesame
