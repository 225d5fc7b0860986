import OpenSesame.Config.Color
import Mathlib.Data.Rat.Defs

/-!
# Configuration

`config/schema.rs`: the settings, the key bindings, `key_for_app` and `launch_config`. A Rust
`HashMap` is its list of entries with distinct keys, in an iteration order Rust leaves
unspecified.
-/

namespace OpenSesame

/-- `border_width` is an `f32` only compared with literals; it is taken as a rational. -/
structure Settings where
  activationKey : String
  activationDelay : Nat
  overlayDelay : Nat
  quickSwitchThreshold : Nat
  borderWidth : ℚ
  borderColor : Color
  backgroundColor : Color
  cardColor : Color
  textColor : Color
  hintColor : Color
  hintMatchedColor : Color
  envFiles : List String
deriving DecidableEq

def Settings.default : Settings where
  activationKey := "alt+space"
  activationDelay := 200
  overlayDelay := 720
  quickSwitchThreshold := 250
  borderWidth := 3
  borderColor := Color.default
  backgroundColor := Color.new 0 0 0 200
  cardColor := Color.new 30 30 30 240
  textColor := Color.new 255 255 255 255
  hintColor := Color.new 100 100 100 255
  hintMatchedColor := Color.new 76 175 80 255
  envFiles := []

inductive LaunchConfig where
  | simple (cmd : String)
  | advanced (command : String) (args : List String) (env_files : List String)
      (env : List (String × String))
deriving DecidableEq

structure KeyBinding where
  apps : List String
  launch : Option LaunchConfig
deriving DecidableEq

structure Config where
  settings : Settings
  keys : HashMap String KeyBinding

def defaultKeys : HashMap String KeyBinding where
  entries :=
    [("g", ⟨["ghostty", "com.mitchellh.ghostty"], some (.simple "ghostty")⟩),
     ("f", ⟨["firefox", "org.mozilla.firefox"], some (.simple "firefox")⟩),
     ("e", ⟨["microsoft-edge"], some (.simple "microsoft-edge")⟩),
     ("c", ⟨["chromium", "google-chrome"], none⟩),
     ("v", ⟨["code", "Code", "cursor", "Cursor"], some (.simple "code")⟩),
     ("n", ⟨["nautilus", "org.gnome.Nautilus"], some (.simple "nautilus")⟩),
     ("s", ⟨["slack", "Slack"], some (.simple "slack")⟩),
     ("d", ⟨["discord", "Discord"], some (.simple "discord")⟩),
     ("m", ⟨["spotify"], some (.simple "spotify")⟩),
     ("t", ⟨["thunderbird"], some (.simple "thunderbird")⟩)]
  nodup_keys := by decide

def Config.default : Config := ⟨Settings.default, defaultKeys⟩

/-- Equal to the app id, equal ignoring case, or equal ignoring case to its last dotted segment. -/
def patternMatches (L : Lowercase) (app_id pattern : String) : Bool :=
  let app_lower := L.toLowercase app_id.data
  let app_last_segment := (app_id.data.splitOn '.').getLast?.map L.toLowercase
  pattern == app_id || L.toLowercase pattern.data == app_lower ||
    app_last_segment == some (L.toLowercase pattern.data)

/-- The loop of `Config::key_for_app` over the bindings in the order `keys`. -/
def keyForAppIn (L : Lowercase) (keys : List (String × KeyBinding)) (app_id : String) :
    Option Char :=
  (keys.find? fun kb => kb.2.apps.any (patternMatches L app_id)).bind fun kb => kb.1.data.head?

namespace Config

def keyForApp (L : Lowercase) (config : Config) (app_id : String) : Option Char :=
  keyForAppIn L config.keys.entries app_id

def launchConfig (config : Config) (key : String) : Option LaunchConfig :=
  (config.keys.get key).bind KeyBinding.launch

end Config

end OpenSesame
