/-
VmProbe/Shell/Run.lean

A run of the program in a known world.

The world gives the files, the user's directories, all of the input, and the link to the
server of a transport.  `run` says how the run ends: the exit code, what was printed, the
messages of the error if there is one, and the frames that were sent.

The console executes one line of input after another.  Before each it prints a prompt; after
each it prints what the command says and then the events that the command led to.
-/
import VmProbe.Client.Session
import VmProbe.Settings.Files
import VmProbe.Shell.Arguments
import VmProbe.Shell.Command
import VmProbe.Wire.Http

namespace VmProbe.Shell

open Client (Link)
open Files (Tree FileError)
open Wire (Transport)

/-! ### Ends -/

/-- An error with the messages from the widest view to the cause. -/
abbrev Failure := List String

/-- How a run ends. -/
inductive Ending
  | success
  /-- With help in place of a task. -/
  | helped
  | misused
  | failed (messages : Failure)
  deriving DecidableEq, Repr

/-- The exit code. -/
def Ending.code : Ending → UInt32
  | success => 0
  | helped => 0
  | failed _ => 1
  | misused => 2

/-- The messages of an error. -/
def Ending.messages : Ending → Failure
  | failed messages => messages
  | _ => []

/-- The end of a run whose words ask for no task. -/
def Ending.ofRefusal : Refusal → Ending
  | .help => helped
  | .misuse => misused

/-- A run that is over. -/
structure Outcome where
  ending : Ending
  output : String
  /-- The frames that were sent, the first one first. -/
  sent : List (List UInt8)
  deriving DecidableEq, Repr

/-- A run that sent nothing. -/
def Outcome.ofText : Except Failure String → Outcome
  | .ok text => ⟨.success, text, []⟩
  | .error messages => ⟨.failed messages, "", []⟩

/-! ### Failures -/

/-- The failure to read a file. -/
def readFailure (path : String) (e : FileError) : Failure := ["reading " ++ path, e.message]

/-- The failure to load the settings. -/
def settingsFailure (e : Settings.FilesError) : Failure :=
  "loading config" :: e.chain.1 ++ e.chain.2.toList

/-- What is printed about the bytes of an image. -/
def infoText (json : Bool) (bytes : List UInt8) : Except Failure String :=
  match Image.parse bytes with
  | .error e => .error ["parsing image", e.message]
  | .ok i => .ok (imageText json i)

/-- The listing of the bytes of an image. -/
def disassemblyText (json : Bool) (bytes : List UInt8) : Except Failure String :=
  match Image.parse bytes with
  | .error e => .error ["parsing image", e.message]
  | .ok i =>
    match i.disassemble with
    | .error e => .error ["disassembling image", e.message]
    | .ok lines => .ok (listingText json lines)

/-- The file that a run takes its settings from. -/
structure SettingsFile where
  path : String
  /-- Whether the user named it; only then it must be there. -/
  named : Bool
  deriving DecidableEq, Repr

/-- The file that a run takes its settings from, if the user has a place for it. -/
def settingsFile? (d : Settings.Directories) (a : Arguments) : Option SettingsFile :=
  match a.settings with
  | some path => some ⟨path, true⟩
  | none => d.defaultPath?.map fun path => ⟨path, false⟩

/-- The settings with the server of the command line. -/
def overridden (a : Arguments) (s : Settings) : Settings :=
  match a.server with
  | none => s
  | some url => { s with server := { s.server with url } }

/-- The settings in what was found at the place of the settings file. -/
def SettingsFile.settings (f : SettingsFile) (found : Except FileError Files.Entry) :
    Except Failure Settings :=
  (if f.named then Settings.loadFound f.path found
    else Settings.loadFoundOrDefault f.path found).mapError settingsFailure

/-- The transport of some settings. -/
def transport (s : Settings) : Transport := ⟨s.server.url, s.server.timeout⟩

/-! ### The console -/

/-- What stands before a line of input. -/
def prompt : String := "> "

/-- The failure to read a line that is not text. -/
def inputFailure : Failure := ["reading from stdin", "stream did not contain valid UTF-8"]

/-- The lines of the input, without their line breaks. -/
def inputLines (input : List UInt8) : List (List UInt8) := inputLinesFrom [] input
where
  /-- The same when `line` is what was read of the first line, backwards. -/
  inputLinesFrom (line : List UInt8) : List UInt8 → List (List UInt8)
    | [] => if line.isEmpty then [] else [line.reverse]
    | b :: bs =>
      if b = 0x0A then line.reverse :: inputLinesFrom [] bs else inputLinesFrom (b :: line) bs

/-- Does what a command needs; nothing is left when it leaves the console. -/
def execute (files : Tree) (s : Session) : Action → Option (List String × Session)
  | .quit => none
  | .tell lines => some (lines s.client, s)
  | .talk operation =>
    let (result, after) := s.perform operation
    some (talkLines result, after)
  | .load path =>
    let (lines, client) := loadFound path (files.contents path) s.client
    some (lines, { s with client })
  | .openSession =>
    let (result, after) := s.openSession
    some (openingLines result, after)

/-- What is printed by a command that led from one client to a later one. -/
def answerText (lines : List String) (before after : Client) : String :=
  unlines lines ++ eventsText before after

/-- The console over lines of input: how it ends, what is printed, and the session at the end.
A line that is not text is an error, at which the session is left as it is. -/
def converse (files : Tree) (s : Session) : List (List UInt8) → Ending × String × Session
  | [] => (.success, prompt, s.shutdown.2)
  | line :: rest =>
    match Text.decode? line with
    | none => (.failed inputFailure, prompt, s)
    | some line =>
      match execute files s (Command.ofLine line).action with
      | none => (.success, prompt, s.shutdown.2)
      | some (lines, after) =>
        let (ending, text, last) := converse files after rest
        (ending, prompt ++ answerText lines s.client after.client ++ text, last)

/-- The console from the first attempt to open a session.  `before` is the client of which all
events are printed. -/
def interact (files : Tree) (input : List UInt8) (before : Client) (s : Session) :
    Ending × String × Session :=
  let (result, opened) := s.openSession
  let (ending, text, last) := converse files opened (inputLines input)
  (ending, answerText (openingLines result) before opened.client ++ text, last)

/-- The console with an image that is loaded first. -/
def interactWith (files : Tree) (input : List UInt8) (s : Session) (path : String)
    (bytes : List UInt8) : Ending × String × Session :=
  match s.client.loadImage bytes with
  | (.error _, client) =>
    (.failed ["could not load " ++ path], eventsText s.client client, { s with client })
  | (.ok _, client) => interact files input s.client { s with client }

/-! ### Runs -/

/-- What a run depends on besides its command line. -/
structure World where
  files : Tree
  directories : Settings.Directories
  /-- The input, to its end. -/
  input : List UInt8
  /-- The way to the server of a transport. -/
  link : Transport → Link

/-- The settings of a run. -/
def World.settings (w : World) (a : Arguments) : Except Failure Settings :=
  match settingsFile? w.directories a with
  | none => .ok (overridden a .default)
  | some f => (f.settings (w.files.find f.path)).map (overridden a)

/-- The content of a file that a task needs. -/
def World.read (w : World) (path : String) : Except Failure (List UInt8) :=
  (w.files.contents path).mapError (readFailure path)

/-- The interactive console. -/
def debug (w : World) (s : Settings) (file : Option String) : Outcome :=
  let session := Session.new (w.link (transport s)) s.session.retryInterval.toNat
  let finished (x : Ending × String × Session) : Outcome :=
    ⟨x.1, x.2.1, x.2.2.link.sent.map (·.frame)⟩
  match file with
  | none => finished (interact w.files w.input session.client session)
  | some path =>
    match w.read path with
    | .error messages => ⟨.failed messages, "", []⟩
    | .ok bytes => finished (interactWith w.files w.input session path bytes)

/-- A run with a command line. -/
def runTask (w : World) (a : Arguments) : Outcome :=
  match w.settings a with
  | .error messages => ⟨.failed messages, "", []⟩
  | .ok settings =>
    match a.task with
    | .info file json => .ofText ((w.read file).bind (infoText json))
    | .disassemble file json => .ofText ((w.read file).bind (disassemblyText json))
    | .debug file => debug w settings file

/-- A run with the words after the program's name. -/
def run (w : World) (words : List String) : Outcome :=
  match Arguments.read words with
  | .error refusal => ⟨.ofRefusal refusal, "", []⟩
  | .ok a => runTask w a

end VmProbe.Shell
