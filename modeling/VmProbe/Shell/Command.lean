/-
VmProbe/Shell/Command.lean

The commands of the interactive console.

A line of input is split into words; the first one names the command and the second one is its
argument.  `Command.action` says what a command needs from the world: nothing but a text to
print, a conversation with the server, the content of a file, or a session to be opened.
-/
import VmProbe.Client.Dialogue
import VmProbe.Files.Tree
import VmProbe.Shell.Report

namespace VmProbe.Shell

open Client (Dialogue Result)

/-! ### Words -/

/-- Whether a character is a blank: it has the Unicode property White_Space. -/
def isBlank (c : Char) : Bool :=
  let n := c.toNat
  (0x09 ≤ n && n ≤ 0x0D) || n = 0x20 || n = 0x85 || n = 0xA0 || n = 0x1680 ||
    (0x2000 ≤ n && n ≤ 0x200A) || n = 0x2028 || n = 0x2029 || n = 0x202F || n = 0x205F ||
    n = 0x3000

/-- The words of a text, when `word` is what was read of the first one, backwards. -/
def wordsFrom (word : List Char) : List Char → List String
  | [] => if word.isEmpty then [] else [String.ofList word.reverse]
  | c :: cs =>
    if isBlank c then
      if word.isEmpty then wordsFrom [] cs
      else String.ofList word.reverse :: wordsFrom [] cs
    else wordsFrom (c :: word) cs

/-- The words of a text: its longest parts without blanks, in order. -/
def words (s : String) : List String := wordsFrom [] s.toList

/-! ### Commands -/

/-- A line of input, understood. -/
inductive Command
  /-- An empty line. -/
  | nothing
  | quit
  | help
  | load (path : String)
  | openSession
  | closeSession
  | run
  | step
  | resume
  | stop
  | registers
  | toggle (address : UInt64)
  /-- A breakpoint at what is no address. -/
  | toggleAt (text : String)
  | breakpoints
  | list
  | unknown (word : String)
  deriving DecidableEq, Repr

namespace Command

/-- A command that needs an argument; without one the word is not known. -/
def withArgument (word : String) (f : String → Command) : Option String → Command
  | none => unknown word
  | some argument => f argument

/-- A breakpoint at an address. -/
def toggleText (text : String) : Command :=
  match Text.readAddress? text with
  | some address => toggle address
  | none => toggleAt text

/-- The command that a word with an argument is. -/
def ofWord (word : String) (argument : Option String) : Command :=
  if word = "q" ∨ word = "quit" then quit
  else if word = "help" ∨ word = "h" then help
  else if word = "load" then withArgument word load argument
  else if word = "open" then openSession
  else if word = "close" then closeSession
  else if word = "run" then run
  else if word = "s" ∨ word = "step" then step
  else if word = "c" ∨ word = "continue" then resume
  else if word = "stop" then stop
  else if word = "regs" then registers
  else if word = "b" ∨ word = "break" then withArgument word toggleText argument
  else if word = "breakpoints" then breakpoints
  else if word = "l" ∨ word = "list" then list
  else unknown word

/-- The command in a line of input. -/
def ofLine (line : String) : Command :=
  match words line with
  | [] => nothing
  | word :: rest => ofWord word rest.head?

/-- What the help command prints. -/
def helpLines : List String :=
  ["commands:",
    "  load <file>     load and disassemble an image",
    "  open            open a debug session (ctrl-c to give up)",
    "  close           close the debug session",
    "  run             run the loaded image",
    "  step, s         execute one instruction",
    "  continue, c     run until a breakpoint or the end",
    "  stop            stop the program",
    "  regs            show the registers",
    "  break, b <addr> toggle a breakpoint",
    "  breakpoints     list breakpoints",
    "  list, l         show the disassembly",
    "  quit, q         close the session and exit"]

end Command

/-- What a command needs. -/
inductive Action where
  /-- Leaves the console. -/
  | quit
  /-- Prints lines about what the client knows. -/
  | tell (lines : Client → List String)
  /-- Talks to the server, and prints lines when that succeeds. -/
  | talk (operation : Client → Dialogue (Result (List String)))
  /-- Loads the image in a file. -/
  | load (path : String)
  /-- Opens a session. -/
  | openSession

/-- An operation after which nothing is printed. -/
def quietly (operation : Client → Dialogue (Result Unit)) : Action :=
  .talk fun c => (operation c).map fun x => (x.1.map fun _ => [], x.2)

/-- Sets or removes a breakpoint and says which. -/
def toggleAction (address : UInt64) : Action :=
  .talk fun c => (c.toggleBreakpoint address).map fun x =>
    (x.1.map fun isSet =>
      ["breakpoint " ++ (if isSet then "set" else "removed") ++ " at " ++
        Text.address address.toNat], x.2)

/-- What a command needs. -/
def Command.action : Command → Action
  | nothing => .tell fun _ => []
  | quit => .quit
  | help => .tell fun _ => helpLines
  | load path => .load path
  | openSession => .openSession
  | closeSession => quietly Client.closeSession
  | run => quietly Client.runLoaded
  | step => quietly Client.step
  | resume => quietly Client.resume
  | stop => quietly Client.stop
  | registers => .tell fun c => registerLines c.bank
  | toggle address => toggleAction address
  | toggleAt text => .tell fun _ => ["invalid address '" ++ text ++ "'"]
  | breakpoints => .tell breakpointLines
  | list => .tell programLines
  | unknown word => .tell fun _ => ["Unhandled command: '" ++ word ++ "', try 'help'"]

/-- Loads the image in a file that was read, or says why it was not. -/
def loadFound (path : String) (found : Except Files.FileError (List UInt8)) (c : Client) :
    List String × Client :=
  match found with
  | .error e => (["cannot read " ++ path ++ ": " ++ e.message], c)
  | .ok bytes => ([], (c.loadImage bytes).2)

/-- What is printed when the user gives up waiting for a session. -/
def openingLines : Except Client.Error Unit → List String
  | .error .cancelled => ["gave up opening a session"]
  | _ => []

/-- What is printed after an operation. -/
def talkLines : Except Client.Error (List String) → List String
  | .ok lines => lines
  | .error _ => []

end VmProbe.Shell
