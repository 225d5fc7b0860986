import OpenSesame.Util.Env
import OpenSesame.Config.Schema

/-!
# Launching an application

`core/launcher.rs`: `LaunchCommand::execute` spawns its command with the inherited environment
overridden by the global `env_files`, the command's own `env_files` and its `env`, in turn
(`execute_env_get`). The pid and the I/O errors are left out.
-/

namespace OpenSesame

open HashMap

/-- `env` is the entries of its map. -/
structure LaunchCommand where
  command : String
  args : List String
  envFiles : List String
  env : List (String × String)
deriving DecidableEq, Repr

/-- `Command::new(program).args(args)`, and the environment after `Command::envs`. -/
structure Spawn where
  program : String
  args : List String
  env : HashMap String String

namespace LaunchCommand

def simple (command : String) : LaunchCommand := ⟨command, [], [], []⟩

def advanced (command : String) (args env_files : List String) (env : List (String × String)) :
    LaunchCommand :=
  ⟨command, args, env_files, env⟩

/-- With the process environment `inherited`: the global files, the command's files, then its `env`,
each over the one before. -/
def execute (read : String → Option String) (inherited : HashMap String String)
    (global_env_files : List String) (cmd : LaunchCommand) : Spawn :=
  let global_env := Env.loadEnvFiles read global_env_files
  let app_env := Env.loadEnvFiles read cmd.envFiles
  ⟨cmd.command, cmd.args,
    ((inherited.extend global_env.entries).extend app_env.entries).extend cmd.env⟩

end LaunchCommand

def LaunchConfig.toLaunchCommand : LaunchConfig → LaunchCommand
  | .simple cmd => .simple cmd
  | .advanced command args env_files env => .advanced command args env_files env

namespace LaunchCommand

theorem get_extend_entries (m o : HashMap String String) (k : String) :
    (m.extend o.entries).get k = (o.get k).or (m.get k) :=
  get_foldl_insert m o.nodup_keys k

/-- A variable of the spawned command has the value of the command's `env`, else of the last
assignment in its `env_files`, else in the global ones, else the inherited one. -/
theorem execute_env_get (read : String → Option String) (inherited : HashMap String String)
    (global_env_files : List String) (cmd : LaunchCommand) (k : String) :
    (cmd.execute read inherited global_env_files).env.get k =
      (lastValue cmd.env k).or ((lastValue (Env.fileAssignments read cmd.envFiles) k).or
        ((lastValue (Env.fileAssignments read global_env_files) k).or (inherited.get k))) := by
  rw [execute, get_extend, get_extend_entries, get_extend_entries, Env.get_loadEnvFiles,
    Env.get_loadEnvFiles]

end LaunchCommand

end OpenSesame
