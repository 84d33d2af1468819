/-
VmProbe/Shell/Arguments.lean

The words after the program's name.

A command line has two levels: options for the whole program, and a task with its own file and
options.  The options for the whole program may stand on either level; on each at most once,
and the inner one wins.  After `--` every word is a file.

Words are read from left to right and the first thing wrong decides.  A value that stands in a
word of its own is held back and only checked when something else of its level is read, or at
the end of the level; so a request for help in the inner level wins over a bad value in the
outer one.
-/
namespace VmProbe.Shell

/-- What the program is to do. -/
inductive Task
  | info (file : String) (json : Bool)
  | disassemble (file : String) (json : Bool)
  | debug (file : Option String)
  deriving DecidableEq, Repr

/-- A command line. -/
structure Arguments where
  /-- The URL of the server, before that of the settings. -/
  server : Option String
  /-- The settings file, in place of the default one. -/
  settings : Option String
  task : Task
  deriving DecidableEq, Repr

/-- What stands in the way of a task. -/
inductive Refusal
  /-- The user asks for help. -/
  | help
  /-- The words make no command line. -/
  | misuse
  deriving DecidableEq, Repr

/-! ### Words -/

/-- The form of a word. -/
inductive Word
  /-- Two dashes and nothing else. -/
  | separator
  /-- A name after two dashes, with a value if there is an equals sign. -/
  | option (name : String) (value : Option String)
  /-- Letters after one dash. -/
  | letters (first : Char)
  | plain (text : String)
  deriving DecidableEq, Repr

/-- The form of a word. -/
def Word.of (s : String) : Word :=
  match s.toList with
  | '-' :: '-' :: [] => separator
  | '-' :: '-' :: cs =>
    match cs.dropWhile (· ≠ '=') with
    | [] => option (String.ofList cs) none
    | _ :: value => option (String.ofList (cs.takeWhile (· ≠ '='))) (some (String.ofList value))
  | '-' :: c :: _ => letters c
  | _ => plain s

/-! ### Levels -/

/-- What a value is for. -/
inductive Slot
  | server
  | settings
  | file
  deriving DecidableEq, Repr

/-- The slot of an option that has a value. -/
def Slot.ofOption? (name : String) : Option Slot :=
  if name = "server" then some server
  else if name = "config" then some settings
  else none

/-- What was read of a level. -/
structure Level where
  server : Option String
  settings : Option String
  file : Option String
  json : Bool
  /-- The slot read last with its value, which is not checked yet or still to come. -/
  held : Option (Slot × Option String)
  deriving DecidableEq, Repr

namespace Level

/-- A level of which nothing was read. -/
def blank : Level := ⟨none, none, none, false, none⟩

/-- Puts a value into its slot.  A slot takes one value, and a path is not empty. -/
def put (l : Level) (value : String) : Slot → Except Refusal Level
  | .server => if l.server.isSome then .error .misuse else .ok { l with server := some value }
  | .settings =>
    if l.settings.isSome ∨ value = "" then .error .misuse
    else .ok { l with settings := some value }
  | .file =>
    if l.file.isSome ∨ value = "" then .error .misuse else .ok { l with file := some value }

/-- Checks the value that is held back. -/
def settle (l : Level) : Except Refusal Level :=
  match l.held with
  | none => .ok l
  | some (_, none) => .error .misuse
  | some (slot, some value) => { l with held := none }.put value slot

/-- Holds a slot back, after the one before it was checked. -/
def hold (l : Level) (slot : Slot) (value : Option String) : Except Refusal Level :=
  l.settle.map fun l => { l with held := some (slot, value) }

/-- Answers a request for help. -/
def help {α : Type} (l : Level) : Except Refusal α := l.settle.bind fun _ => .error .help

/-- Answers letters after one dash; only the one for help is known. -/
def readLetter {α : Type} (l : Level) (c : Char) : Except Refusal α :=
  if c = 'h' then l.help else .error .misuse

/-- Sets the flag for JSON, which can be set once. -/
def setJson (l : Level) : Except Refusal Level :=
  l.settle.bind fun l => if l.json then .error .misuse else .ok { l with json := true }

/-- Whether a file was given, checked or not. -/
def hasFile (l : Level) : Bool := l.file.isSome || l.held.any (·.1 = .file)

/-- Takes a file, if there is none yet. -/
def takeFile (l : Level) (file : String) : Except Refusal Level :=
  if l.hasFile then .error .misuse else l.hold .file (some file)

/-- Takes an option. -/
def takeOption (l : Level) (hasJson : Bool) (name : String) (value : Option String) :
    Except Refusal Level :=
  match Slot.ofOption? name, value with
  | some slot, some value => l.settle.bind fun l => l.put value slot
  | some slot, none => l.hold slot none
  | none, some _ => .error .misuse
  | none, none =>
    if name = "help" then l.help
    else if name = "json" ∧ hasJson then l.setJson
    else .error .misuse

end Level

/-! ### Tasks -/

/-- The tasks by name. -/
inductive TaskName
  | info
  | disassemble
  | debug
  deriving DecidableEq, Repr

namespace TaskName

/-- The task that a word names. -/
def ofWord? (s : String) : Option TaskName :=
  if s = "info" then some info
  else if s = "disasm" then some disassemble
  else if s = "debug" then some debug
  else none

/-- Whether a task can write JSON. -/
def hasJson : TaskName → Bool
  | debug => false
  | _ => true

/-- The task with what its level holds. -/
def task (l : Level) : TaskName → Except Refusal Task
  | info => (l.file.map fun file => Task.info file l.json).elim (.error .misuse) .ok
  | disassemble => (l.file.map fun file => Task.disassemble file l.json).elim (.error .misuse) .ok
  | debug => .ok (.debug l.file)

/-- Reads words that can only be files. -/
def readFiles (l : Level) : List String → Except Refusal Level
  | [] => l.settle
  | word :: rest => (l.takeFile word).bind fun l => readFiles l rest

/-- Reads the words of a task. -/
def readLevel (t : TaskName) (l : Level) : List String → Except Refusal Level
  | [] => l.settle
  | word :: rest =>
    match l.held, Word.of word with
    | some (slot, none), .plain value => t.readLevel { l with held := some (slot, some value) } rest
    | _, .plain file => (l.takeFile file).bind fun l => t.readLevel l rest
    | _, .separator => readFiles l rest
    | _, .letters c => l.readLetter c
    | _, .option name value =>
      (l.takeOption t.hasJson name value).bind fun l => t.readLevel l rest

end TaskName

/-! ### Command lines -/

/-- The command line with what was read of both levels. -/
def assemble (outer : Level) (name : TaskName) (inner : Level) : Except Refusal Arguments :=
  (name.task inner).bind fun task =>
    outer.settle.map fun outer =>
      ⟨inner.server.or outer.server, inner.settings.or outer.settings, task⟩

/-- Answers a request for help about what the words name. -/
def helpOn : List String → Refusal
  | [] => .help
  | [word] => if word = "help" ∨ (TaskName.ofWord? word).isSome then .help else .misuse
  | _ => .misuse

/-- Reads the words of a command line. -/
def readArguments (l : Level) : List String → Except Refusal Arguments
  | [] => .error .misuse
  | word :: rest =>
    match l.held, Word.of word with
    | some (slot, none), .plain value =>
      readArguments { l with held := some (slot, some value) } rest
    | _, .plain name =>
      match TaskName.ofWord? name with
      | some name => (name.readLevel .blank rest).bind (assemble l name)
      | none => .error (if name = "help" then helpOn rest else .misuse)
    | _, .separator => .error .misuse
    | _, .letters c => l.readLetter c
    | _, .option name value =>
      (l.takeOption false name value).bind fun l => readArguments l rest

/-- The command line in the words after the program's name. -/
def Arguments.read (words : List String) : Except Refusal Arguments :=
  readArguments .blank words

end VmProbe.Shell
