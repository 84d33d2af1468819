/-
VmProbe/Main.lean

The program: the command line, the files, the terminal and the network of the machine that it
runs on.  What is printed and sent is decided in `Shell` and `Client`; here it is done.
-/
import Std.Async.DNS
import Std.Async.Signal
import Std.Async.TCP
import Std.Async.Timer
import VmProbe.Shell.Run

namespace VmProbe.Program

open Client (Dialogue Exchange)
open Files (FileError)
open Shell (Arguments Command Ending Failure)
open Wire (Transport Url)
open Std.Async (AsyncTask)

/-! ### Files and the terminal -/

/-- An error of the system about a file. -/
def fileError : IO.Error → FileError
  | .noFileOrDirectory .. => .notFound
  | .inappropriateType _ code words =>
    if code = 20 then .notDirectory else if code = 21 then .isDirectory else .other words
  | .resourceExhausted _ code words => if code = 36 then .nameTooLong else .other words
  | e => .other (toString e)

/-- What a path names. -/
def find (path : String) : IO (Except FileError Files.Entry) := do
  try
    let bytes ← IO.FS.readBinFile path
    return .ok (.file bytes.toList)
  catch e =>
    match fileError e with
    | .isDirectory => return .ok .directory
    | e => return .error e

/-- The content of the file that a path names. -/
def contents (path : String) : IO (Except FileError (List UInt8)) := do
  return (← find path).bind Files.Tree.Entry.read

/-- Prints a text at once. -/
def say (text : String) : IO Unit := do
  let output ← IO.getStdout
  output.putStr text
  output.flush

/-- Reads a line of input, without its line break; nothing at the end of the input. -/
partial def readLine (input : IO.FS.Stream) (line : List UInt8) : IO (Option (List UInt8)) := do
  match (← input.read 1).toList with
  | [] => return if line.isEmpty then none else some line.reverse
  | b :: _ => if b = 0x0A then return some line.reverse else readLine input (b :: line)

/-! ### The network -/

/-- What the program waits for. -/
inductive Arrival
  | body (bytes : List UInt8)
  /-- There is no answer, or the time is over. -/
  | nothing
  /-- The user gave up waiting. -/
  | interrupted

/-- The address to connect to. -/
def socketAddress (service : UInt16) : Std.Net.IPAddr → Std.Net.SocketAddress
  | .v4 addr => .v4 ⟨addr, service⟩
  | .v6 addr => .v6 ⟨addr, service⟩

/-- Receives an answer to its end. -/
partial def receive (socket : Std.Async.TCP.Socket.Client) (got : List UInt8) :
    Std.Async.Async Arrival := do
  match ← socket.recv? 65536 with
  | none => return (Wire.answerBody? true got).elim .nothing .body
  | some chunk =>
    let got := got ++ chunk.toList
    match Wire.answerBody? false got with
    | some bytes => return .body bytes
    | none => receive socket got

/-- Posts bytes and waits for the answer. -/
def post (url : Url) (bytes : List UInt8) : Std.Async.Async Arrival := do
  let addresses ← Std.Async.DNS.getAddrInfo url.host (toString url.service.toNat)
  match addresses[0]? with
  | none => return .nothing
  | some addr =>
    let socket ← Std.Async.TCP.Socket.Client.mk
    socket.connect (socketAddress url.service addr)
    socket.send ⟨(Wire.postText url bytes).toArray⟩
    receive socket []

/-- Lets time pass. -/
def pause (time : Nat) : Std.Async.Async Arrival := do
  Std.Async.sleep (Std.Time.Millisecond.Offset.ofNat time)
  return .nothing

/-- The first of several things to happen; a failure counts as nothing. -/
def first (x : Std.Async.Async Arrival) (others : List (Task Arrival)) : IO Arrival := do
  let settled (r : Except IO.Error Arrival) : Arrival :=
    match r with
    | .ok arrival => arrival
    | .error _ => .nothing
  let task : AsyncTask Arrival ← x.asTask
  IO.waitAny (Task.map settled task :: others) (Nat.succ_pos _)

/-- Waits in a task of its own. -/
def pauseTask (time : Nat) : IO (Task Arrival) := do
  let task : AsyncTask Arrival ← (pause time).asTask
  return Task.map (fun _ => .nothing) task

/-- Sends a frame; `stop` ends when the user gives up. -/
def exchange (t : Transport) (stop : List (Task Arrival)) (frame : List UInt8) : IO Exchange := do
  let timeouts ← t.timeout.toList.mapM fun time => pauseTask time.toNat
  let send (url : Url) (bytes : List UInt8) : OptionT IO (Option (List UInt8)) := do
    match ← (first (post url bytes) (timeouts ++ stop) : IO Arrival) with
    | .body bytes => return some bytes
    | .nothing => return none
    | .interrupted => failure
  match ← (t.exchange send frame).run with
  | none => return .interrupted
  | some (.ok bytes) => return .reply bytes
  | some (.error e) => return .failure e

/-- Holds a dialogue. -/
def hold {α : Type} (ask : List UInt8 → IO Exchange) : Dialogue α → IO α
  | .done a => return a
  | .ask frame next => do
    let x ← ask frame
    hold ask (next x)

/-! ### The console -/

/-- Where the console is and how it is reached. -/
structure Desk where
  transport : Transport
  /-- The time between two attempts to open a session, in milliseconds. -/
  retryInterval : Nat
  interrupt : Std.Async.Signal.Waiter

/-- Ends when the user interrupts. -/
def Desk.stop (d : Desk) : IO (Task Arrival) := do
  let task : AsyncTask Int ← d.interrupt.wait
  return Task.map (fun _ => .interrupted) task

/-- Tries to open a session until the server accepts or the user gives up. -/
partial def Desk.keepOpening (d : Desk) (stop : Task Arrival) (c : Client) :
    IO (Except Client.Error Unit × Client) := do
  match ← hold (exchange d.transport [stop]) c.openAttempt with
  | (.ok .openSession, c) => return (.ok (), c)
  | (.error .cancelled, c) => return (.error .cancelled, c)
  | (_, c) =>
    match ← first (pause d.retryInterval) [stop] with
    | .interrupted => return (.error .cancelled, c)
    | _ => d.keepOpening stop c

/-- Opens a session; does nothing when there is one. -/
def Desk.openSession (d : Desk) (c : Client) : IO (List String × Client) := do
  if c.phase = .closed then
    let (result, c) ← d.keepOpening (← d.stop) c
    return (Shell.openingLines result, c)
  else return ([], c)

/-- Does what a command needs; nothing is left when it leaves the console. -/
def Desk.execute (d : Desk) (c : Client) : Shell.Action → IO (Option (List String × Client))
  | .quit => return none
  | .tell lines => return some (lines c, c)
  | .talk operation => do
    let (result, c) ← hold (exchange d.transport []) (operation c)
    return some (Shell.talkLines result, c)
  | .load path => do return some (Shell.loadFound path (← contents path) c)
  | .openSession => do return some (← d.openSession c)

/-- Closes the session at the end. -/
def Desk.shutdown (d : Desk) (c : Client) : IO Ending := do
  discard (hold (exchange d.transport []) c.closeSession)
  return .success

/-- Reads and executes commands. -/
partial def Desk.converse (d : Desk) (input : IO.FS.Stream) (c : Client) : IO Ending := do
  say Shell.prompt
  match ← readLine input [] with
  | none => d.shutdown c
  | some line =>
    match Text.decode? line with
    | none => return .failed Shell.inputFailure
    | some line =>
      match ← d.execute c (Command.ofLine line).action with
      | none => d.shutdown c
      | some (lines, after) =>
        say (Shell.answerText lines c after)
        d.converse input after

/-- The console from the first attempt to open a session. -/
def Desk.interact (d : Desk) (before c : Client) : IO Ending := do
  let (lines, opened) ← d.openSession c
  say (Shell.answerText lines before opened)
  d.converse (← IO.getStdin) opened

/-- The interactive console. -/
def debug (s : Settings) (file : Option String) : IO Ending := do
  let interrupt ← Std.Async.Signal.Waiter.mk .sigint true
  let desk : Desk := ⟨Shell.transport s, s.session.retryInterval.toNat, interrupt⟩
  match file with
  | none => desk.interact .new .new
  | some path =>
    match ← contents path with
    | .error e => return .failed (Shell.readFailure path e)
    | .ok bytes =>
      match Client.new.loadImage bytes with
      | (.error _, c) =>
        say (Shell.eventsText .new c)
        return .failed ["could not load " ++ path]
      | (.ok _, c) => desk.interact .new c

/-! ### Runs -/

/-- How to use the program. -/
def usage : String :=
  Shell.unlines
    ["Inspect and debug programs for the UVM",
      "",
      "Usage: uvm-dbg [OPTIONS] <COMMAND>",
      "",
      "Commands:",
      "  info <FILE> [--json]    Print the header and sections of an image",
      "  disasm <FILE> [--json]  Disassemble the code section of an image",
      "  debug [FILE]            Start an interactive debug session",
      "  help                    Print this message",
      "",
      "Options:",
      "      --server <SERVER>   Address of the debug server, overriding the config file",
      "      --config <CONFIG>   Config file to use instead of the default location",
      "  -h, --help              Print help"]

/-- The settings of a run. -/
def settings (a : Arguments) : IO (Except Failure Settings) := do
  let directories : Settings.Directories :=
    ⟨← IO.getEnv "HOME", ← IO.getEnv "XDG_CONFIG_HOME", none⟩
  match Shell.settingsFile? directories a with
  | none => return .ok (Shell.overridden a .default)
  | some f => return (f.settings (← find f.path)).map (Shell.overridden a)

/-- Prints what a function makes of a file. -/
def report (path : String) (text : List UInt8 → Except Failure String) : IO Ending := do
  match ((← contents path).mapError (Shell.readFailure path)).bind text with
  | .error messages => return .failed messages
  | .ok text =>
    say text
    return .success

/-- Runs a command line. -/
def run (a : Arguments) : IO Ending := do
  match ← settings a with
  | .error messages => return .failed messages
  | .ok s =>
    match a.task with
    | .info file json => report file (Shell.infoText json)
    | .disassemble file json => report file (Shell.disassemblyText json)
    | .debug file => debug s file

/-- The messages of an error, numbered from the widest view to the cause. -/
def failureLines (messages : Failure) : List String :=
  "Error: " :: messages.zipIdx.map fun (message, i) => "   " ++ toString i ++ ": " ++ message

/-- Runs the words after the program's name and reports how that ends. -/
def start (words : List String) : IO UInt32 := do
  let ending ← match Arguments.read words with
    | .error refusal => pure (Ending.ofRefusal refusal)
    | .ok a => run a
  match ending with
  | .success => pure ()
  | .helped => say usage
  | .misused => (← IO.getStderr).putStr usage
  | .failed messages => (← IO.getStderr).putStr (Shell.unlines (failureLines messages))
  return ending.code

end VmProbe.Program

/-- The program. -/
def main (words : List String) : IO UInt32 := VmProbe.Program.start words
