/-
VmProbe/Settings/Basic.lean

The user's settings, and the text of the settings file.

The file is a TOML document with the tables `server` and `session`.  Whatever is missing has
its default and whatever is unknown is ignored.  A table may also be given as an array with
the fields in order.  Times are whole milliseconds; a time that does not fit into the signed
64-bit integers of the format cannot be written.
-/
import VmProbe.Text.Utf8
import VmProbe.Toml.Document

namespace VmProbe.Settings

/-- Where the debug server is. -/
structure Server where
  url : String
  /-- How long an exchange may take; forever if absent. -/
  timeout : Option UInt64
  deriving DecidableEq, Repr

/-- How sessions are opened. -/
structure Opening where
  /-- The time between two attempts. -/
  retryInterval : UInt64
  deriving DecidableEq, Repr

end VmProbe.Settings

namespace VmProbe

open Settings

/-- The settings of the program; times are in milliseconds. -/
structure Settings where
  server : Server
  session : Opening
  deriving DecidableEq, Repr

namespace Settings

/-- The server when nothing is said about it. -/
def Server.default : Server := ⟨"http://127.0.0.1:2001", none⟩

/-- How sessions are opened when nothing is said about it. -/
def Opening.default : Opening := ⟨2000⟩

/-- The settings when there is no file. -/
def default : Settings := ⟨.default, .default⟩

/-! ### Reading -/

/-- The values of a table, by name or by position. -/
inductive Values
  | named (fields : Toml.Fields)
  | positional (items : List Toml.Node)

/-- A node read as a table.  A date counts as a table without any known field. -/
def Values.ofNode? : Toml.Node → Option Values
  | .table _ fields => some (named fields)
  | .record fields => some (named fields)
  | .datetime _ => some (named [])
  | .array items => some (positional items)
  | .tables elements => some (positional elements)
  | _ => none

/-- The value with a name and a position. -/
def Values.get? (position : Nat) (name : String) : Values → Option Toml.Node
  | named fields => Toml.find? name fields
  | positional items => items[position]?

/-- A text, or the default when nothing is given. -/
def readText (default : String) : Option Toml.Node → Option String
  | none => some default
  | some (.string s) => some s
  | some _ => none

/-- A time, if one is given. -/
def readTime? : Option Toml.Node → Option (Option UInt64)
  | none => some none
  | some (.integer n) => if 0 ≤ n then some (some (UInt64.ofNat n.toNat)) else none
  | some _ => none

/-- The server. -/
def readServer : Option Toml.Node → Option Server
  | none => some .default
  | some node =>
    (Values.ofNode? node).bind fun values =>
      (readText Server.default.url (values.get? 0 "url")).bind fun url =>
        (readTime? (values.get? 1 "request_timeout_ms")).map fun timeout => ⟨url, timeout⟩

/-- How sessions are opened. -/
def readOpening : Option Toml.Node → Option Opening
  | none => some .default
  | some node =>
    (Values.ofNode? node).bind fun values =>
      (readTime? (values.get? 0 "retry_interval_ms")).map fun time =>
        ⟨time.getD Opening.default.retryInterval⟩

/-- The settings of a document. -/
def ofFields? (fields : Toml.Fields) : Option Settings :=
  (readServer (Toml.find? "server" fields)).bind fun server =>
    (readOpening (Toml.find? "session" fields)).map fun session => ⟨server, session⟩

/-- Why a text is no settings file. -/
inductive LoadError
  | notText
  | unparsable
  deriving DecidableEq, Repr

/-- The settings that the bytes of a file hold. -/
def load (bytes : List UInt8) : Except LoadError Settings :=
  match Text.decode? bytes with
  | none => .error .notText
  | some s =>
    match (Toml.parse? s).bind ofFields? with
    | none => .error .unparsable
    | some settings => .ok settings

/-! ### Writing -/

/-- The greatest time that can be written. -/
def timeLimit : Nat := 0x7FFFFFFFFFFFFFFF

/-- Whether a time can be written. -/
def writable (time : UInt64) : Bool := time.toNat ≤ timeLimit

/-- A key with a time, on a line of its own. -/
def timeLine (key : String) (time : UInt64) : String := key ++ " = " ++ toString time.toNat ++ "\n"

/-- The text of the settings file; nothing when a time cannot be written. -/
def save? (s : Settings) : Option String :=
  if s.server.timeout.all writable && writable s.session.retryInterval then
    some ("[server]\nurl = " ++ Toml.quote s.server.url ++ "\n" ++
      (match s.server.timeout with
        | none => ""
        | some time => timeLine "request_timeout_ms" time) ++
      "\n[session]\n" ++ timeLine "retry_interval_ms" s.session.retryInterval)
  else none

end Settings

end VmProbe
