import OpenSesame.Util
import OpenSesame.Util.Str
import OpenSesame.Util.Env
import OpenSesame.Core.Hint
import OpenSesame.Core.Matcher
import OpenSesame.Core.Assignment
import OpenSesame.Config.Color
import OpenSesame.Config.Schema
import OpenSesame.Config.Validator
import OpenSesame.Config.Loader
import OpenSesame.App.State
import OpenSesame.App.Run
import OpenSesame.App.Protocol
import OpenSesame.App.Invariants
import OpenSesame.App.Debounce
import OpenSesame.App.Selection
import OpenSesame.Ui.Overlay
import OpenSesame.Platform.Ron
import OpenSesame.Platform.CosmicKeys
import OpenSesame.Util.Mru
import OpenSesame.Platform.Wayland
import OpenSesame.App.Session
import OpenSesame.Util.Ipc
import OpenSesame.App.EventLoop
import OpenSesame.Input.Processor
import OpenSesame.Util.Lock
import OpenSesame.Core.Launcher
import OpenSesame.App.Display
