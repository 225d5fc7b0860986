import OpenSesame.Util

/-!
# The instance protocol

`util/ipc.rs`: a peer writes one command byte and reads one answer, and the listener forwards
cycle commands to the main thread over a channel. A run is an interleaving of whole
connections, `try_recv`s and the drop (`Step`); on every one, the commands received, queued and
discarded are those answered `Ok`, in order (`run_start_delivered`).
-/

namespace OpenSesame

namespace Ipc

inductive IpcCommand where
  | cycleForward
  | cycleBackward
  | ping
deriving DecidableEq, Repr

inductive IpcResponse where
  | ok
  | pong
  | error
deriving DecidableEq, Repr

def IpcCommand.toByte : IpcCommand → UInt8
  | .cycleForward => 'F'.toUInt8
  | .cycleBackward => 'B'.toUInt8
  | .ping => 'P'.toUInt8

def IpcCommand.fromByte (byte : UInt8) : Option IpcCommand :=
  if byte = 'F'.toUInt8 then some .cycleForward
  else if byte = 'B'.toUInt8 then some .cycleBackward
  else if byte = 'P'.toUInt8 then some .ping
  else none

def IpcResponse.toByte : IpcResponse → UInt8
  | .ok => 'K'.toUInt8
  | .pong => 'O'.toUInt8
  | .error => 'E'.toUInt8

def IpcResponse.fromByte (byte : UInt8) : Option IpcResponse :=
  if byte = 'K'.toUInt8 then some .ok
  else if byte = 'O'.toUInt8 then some .pong
  else if byte = 'E'.toUInt8 then some .error
  else none

@[simp] theorem IpcCommand.fromByte_toByte (cmd : IpcCommand) : fromByte cmd.toByte = some cmd := by
  cases cmd <;> decide

@[simp] theorem IpcResponse.fromByte_toByte (response : IpcResponse) :
    fromByte response.toByte = some response := by
  cases response <;> decide

/-- What the threads and other processes share: the socket file, the main thread's `Receiver`, and
the commands queued on the channel, oldest first. -/
structure IpcServer where
  listening : Bool
  receiverAlive : Bool
  queue : List IpcCommand
deriving DecidableEq, Repr

namespace IpcServer

def start : IpcServer := ⟨true, true, []⟩

/-- The server of an instance whose `IpcServer::start` failed, or whose server was dropped. -/
def absent : IpcServer := ⟨false, false, []⟩

/-- `Sender::send`: queued while the receiver lives, refused after. -/
def send (server : IpcServer) (cmd : IpcCommand) : Option IpcServer :=
  if server.receiverAlive then some { server with queue := server.queue ++ [cmd] } else none

/-- The `Ok` arm of `listener_loop`'s `accept` for a peer that wrote `byte`: the server after, and
the byte written back. -/
def handleConnection (server : IpcServer) (byte : Option UInt8) : IpcServer × Option UInt8 :=
  match byte.bind IpcCommand.fromByte with
  | some cmd =>
    if cmd = .ping then (server, some IpcResponse.pong.toByte)
    else
      match server.send cmd with
      | some server' => (server', some IpcResponse.ok.toByte)
      | none => (server, some IpcResponse.error.toByte)
  | none => (server, none)

def tryRecv (server : IpcServer) : IpcServer × Option IpcCommand :=
  match server.queue with
  | [] => (server, none)
  | cmd :: rest => ({ server with queue := rest }, some cmd)

theorem queue_of_tryRecv {server server' : IpcServer} {cmd : IpcCommand}
    (h : server.tryRecv = (server', some cmd)) : server.queue = cmd :: server'.queue := by
  unfold tryRecv at h
  split at h
  · cases h
  · cases h; assumption

/-- The event loop's `while let Some(cmd) = s.try_recv() { cmds.push(cmd) }`. -/
def drain (server : IpcServer) : IpcServer × List IpcCommand :=
  match h : server.tryRecv with
  | (server', some cmd) => ((drain server').1, cmd :: (drain server').2)
  | (server', none) => (server', [])
termination_by server.queue.length
decreasing_by simp [queue_of_tryRecv h]

/-- `Drop`: the socket file removed, and the `Receiver` gone with the commands still queued. -/
def drop (_server : IpcServer) : IpcServer := absent

theorem drain_eq (server : IpcServer) : server.drain = ({ server with queue := [] }, server.queue) := by
  obtain ⟨listening, alive, queue⟩ := server
  induction queue with
  | nil => rw [drain]; rfl
  | cons cmd rest ih => rw [drain]; simp only [tryRecv, ih]

end IpcServer

namespace IpcClient

open IpcServer

/-- `IpcClient::send`: the server after the exchange, and the response, `none` for an I/O error. -/
def send (server : IpcServer) (cmd : IpcCommand) : IpcServer × Option IpcResponse :=
  if server.listening then
    let r := server.handleConnection (some cmd.toByte)
    (r.1, r.2.bind IpcResponse.fromByte)
  else (server, none)

def isInstanceRunning (server : IpcServer) : Bool := (send server .ping).2.isSome

/-- `signal_cycle_forward` and `signal_cycle_backward`: whether the answer was `Ok`. -/
def signalCycle (server : IpcServer) (cmd : IpcCommand) : IpcServer × Bool :=
  let r := send server cmd
  (r.1, decide (r.2 = some .ok))

def signalCycleForward (server : IpcServer) : IpcServer × Bool := signalCycle server .cycleForward

def signalCycleBackward (server : IpcServer) : IpcServer × Bool := signalCycle server .cycleBackward

end IpcClient

inductive Step where
  /-- A peer's whole connection; `byte` is `none` when the listener's read times out. -/
  | connect (byte : Option UInt8)
  | recv
  | drop
deriving DecidableEq, Repr

inductive Seen where
  | answered (byte response : Option UInt8)
  | refused
  | received (cmd : Option IpcCommand)
  | dropped
deriving DecidableEq, Repr

open IpcServer

def step (server : IpcServer) : Step → IpcServer × Seen
  | .connect byte =>
    if server.listening then
      let r := server.handleConnection byte
      (r.1, .answered byte r.2)
    else (server, .refused)
  | .recv =>
    let r := server.tryRecv
    (r.1, .received r.2)
  | .drop => (server.drop, .dropped)

def run : IpcServer → List Step → IpcServer × List Seen
  | server, [] => (server, [])
  | server, st :: rest =>
    let r := step server st
    let r' := run r.1 rest
    (r'.1, r.2 :: r'.2)

theorem run_append (server : IpcServer) (xs ys : List Step) :
    run server (xs ++ ys) =
      ((run (run server xs).1 ys).1, (run server xs).2 ++ (run (run server xs).1 ys).2) := by
  induction xs generalizing server with
  | nil => rfl
  | cons x xs ih => simp [run, ih]

/-- The command a peer was answered `Ok` for. -/
def Seen.acknowledged : Seen → Option IpcCommand
  | .answered (some byte) (some response) =>
    if IpcResponse.fromByte response = some .ok then IpcCommand.fromByte byte else none
  | _ => none

def Seen.receivedCommand : Seen → Option IpcCommand
  | .received cmd => cmd
  | _ => none

@[simp] theorem Seen.acknowledged_refused : Seen.refused.acknowledged = none := rfl
@[simp] theorem Seen.acknowledged_received (cmd : Option IpcCommand) :
    (Seen.received cmd).acknowledged = none := rfl
@[simp] theorem Seen.acknowledged_dropped : Seen.dropped.acknowledged = none := rfl
@[simp] theorem Seen.receivedCommand_answered (byte response : Option UInt8) :
    (Seen.answered byte response).receivedCommand = none := rfl
@[simp] theorem Seen.receivedCommand_refused : Seen.refused.receivedCommand = none := rfl
@[simp] theorem Seen.receivedCommand_received (cmd : Option IpcCommand) :
    (Seen.received cmd).receivedCommand = cmd := rfl
@[simp] theorem Seen.receivedCommand_dropped : Seen.dropped.receivedCommand = none := rfl

/-- The protocol's safety on a trace: the commands received, then queued, then discarded, are the
acknowledged ones, in order, and nothing is discarded while the receiver lives. -/
structure Delivered (trace : List Seen) (server : IpcServer) : Prop where
  order : ∃ lost, trace.filterMap Seen.receivedCommand ++ server.queue ++ lost =
      trace.filterMap Seen.acknowledged ∧ (server.receiverAlive → lost = [])
  quiet : server.receiverAlive = false → server.queue = []
  noPing : IpcCommand.ping ∉ trace.filterMap Seen.acknowledged

section Lemmas

theorem handleConnection_acknowledged (server : IpcServer) (byte : Option UInt8) :
    (server.handleConnection byte).1 = { server with
      queue := server.queue ++ (Seen.answered byte (server.handleConnection byte).2).acknowledged.toList } ∧
    ∀ cmd, (Seen.answered byte (server.handleConnection byte).2).acknowledged = some cmd →
      cmd ≠ .ping ∧ server.receiverAlive = true := by
  unfold handleConnection
  split
  · rename_i cmd hcmd
    obtain ⟨b, rfl, hb⟩ := Option.bind_eq_some.1 hcmd
    by_cases hping : cmd = .ping
    · simp [hping, Seen.acknowledged]
    · rw [if_neg hping]
      unfold send
      by_cases halive : server.receiverAlive
      · simp [halive, Seen.acknowledged, hb, hping]
      · rw [if_neg halive]
        simp [Seen.acknowledged]
  · cases byte <;> simp [Seen.acknowledged]

/-- `IpcServer::drain` is `try_recv` until the queue is empty. -/
theorem run_replicate_recv (server : IpcServer) :
    run server (List.replicate (server.queue.length + 1) .recv) =
      (server.drain.1, server.drain.2.map (Seen.received ∘ some) ++ [.received none]) := by
  rw [drain_eq]
  obtain ⟨listening, alive, queue⟩ := server
  induction queue with
  | nil => rfl
  | cons cmd rest ih => simpa [run, step, tryRecv] using ih

theorem step_connect (server : IpcServer) (byte : Option UInt8) :
    (Ipc.step server (.connect byte)).1.receiverAlive = server.receiverAlive ∧
      (Ipc.step server (.connect byte)).2.receivedCommand = none := by
  rw [Ipc.step]
  split
  · exact ⟨by dsimp only; rw [(handleConnection_acknowledged server byte).1], rfl⟩
  · exact ⟨rfl, rfl⟩

theorem delivered_start : Delivered [] IpcServer.start :=
  ⟨⟨[], rfl, fun _ => rfl⟩, fun h => absurd h (by decide), List.not_mem_nil _⟩

theorem Delivered.step {trace : List Seen} {server : IpcServer} (h : Delivered trace server)
    (st : Step) : Delivered (trace ++ [(Ipc.step server st).2]) (Ipc.step server st).1 := by
  obtain ⟨⟨lost, horder, hlost⟩, hquiet, hping⟩ := h
  cases st with
  | connect byte =>
    by_cases hl : server.listening
    · rw [Ipc.step, if_pos hl]
      obtain ⟨hserver, hack⟩ := handleConnection_acknowledged server byte
      dsimp only
      rw [hserver]
      cases hc : (Seen.answered byte (server.handleConnection byte).2).acknowledged with
      | none =>
        exact ⟨⟨lost, by simpa [hc] using horder, hlost⟩, by simpa using hquiet, by simpa [hc] using hping⟩
      | some cmd =>
        obtain ⟨hne, halive⟩ := hack cmd hc
        refine ⟨⟨[], ?_, fun _ => rfl⟩, by simp [halive], by simp [hc, hping, hne.symm]⟩
        simp [hc, ← horder, hlost halive]
    · rw [Ipc.step, if_neg hl]
      exact ⟨⟨lost, by simpa using horder, hlost⟩, hquiet, by simpa using hping⟩
  | recv =>
    rw [Ipc.step]
    cases hq : server.queue with
    | nil =>
      simp only [tryRecv, hq]
      exact ⟨⟨lost, by simpa using horder, hlost⟩, hquiet, by simpa using hping⟩
    | cons cmd rest =>
      simp only [tryRecv, hq]
      refine ⟨⟨lost, by simpa [hq] using horder, hlost⟩, fun h => by simp [hquiet h] at hq,
        by simpa using hping⟩
  | drop =>
    simp only [Ipc.step, IpcServer.drop, absent]
    exact ⟨⟨server.queue ++ lost, by simpa using horder, fun h => absurd h (by decide)⟩, fun _ => rfl,
      by simpa using hping⟩

theorem Delivered.run {trace : List Seen} {server : IpcServer} (h : Delivered trace server)
    (steps : List Step) :
    Delivered (trace ++ (Ipc.run server steps).2) (Ipc.run server steps).1 := by
  induction steps generalizing trace server with
  | nil => simpa [Ipc.run] using h
  | cons st rest ih => simpa [Ipc.run] using ih (h.step st)

/-- At every point of every interleaving of connections, `try_recv`s and the drop from a fresh
server, the trace is `Delivered`. -/
theorem run_start_delivered (steps : List Step) :
    Delivered (run IpcServer.start steps).2 (run IpcServer.start steps).1 := by
  simpa using delivered_start.run steps

end Lemmas

end Ipc

end OpenSesame
