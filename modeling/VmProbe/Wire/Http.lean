/-
VmProbe/Wire/Http.lean

Frames over HTTP: an exchange is a POST whose body is the request frame, and the body of the
answer is the reply frame, whatever the status of the answer.

A `Transport` is where exchanges go.  `Transport.exchange` does not say how bytes travel; it is
given a function that posts to a URL, which may be a scripted answer or a connection.  The
texts of both messages are here too: `postText` writes one, and `answerBody?` finds the body of
the other.
-/
import VmProbe.Text.Utf8
import VmProbe.Wire.Error

namespace VmProbe.Wire

/-! ### URLs -/

/-- Where a message goes: a server and what to ask it for. -/
structure Url where
  host : String
  /-- The number of the service on the host. -/
  service : UInt16
  /-- The path and what follows it; starts with a slash. -/
  target : String
  deriving DecidableEq, Repr

namespace Url

/-- The service when none is given. -/
def webService : UInt16 := 80

/-- What is left of a text after its scheme, in any case of letters. -/
def afterScheme? (s : List Char) : Option (List Char) :=
  let scheme := "http://".toList
  if (s.take scheme.length).map Char.toLower = scheme then some (s.drop scheme.length) else none

/-- A service in decimal digits; no digits mean the default. -/
def readService? (digits : List Char) : Option UInt16 :=
  if digits.isEmpty then some webService
  else
    (Text.readDigits? 10 Text.decimalValue? 0 digits).bind fun n =>
      if n < UInt16.size then some (UInt16.ofNat n) else none

/-- Whether a character ends the server's part of a URL. -/
def endsServer (c : Char) : Bool := c = '/' || c = '\\' || c = '?' || c = '#'

/-- What to ask for, with the slash that it must start with. -/
def readTarget (s : List Char) : String :=
  match s with
  | '/' :: _ => String.ofList s
  | '\\' :: rest => String.ofList ('/' :: rest)
  | _ => String.ofList ('/' :: s)

/-- The URL that a text holds. -/
def read? (s : String) : Option Url :=
  (afterScheme? s.toList).bind fun rest =>
    let server := rest.takeWhile fun c => !endsServer c
    let target := readTarget (rest.dropWhile fun c => !endsServer c)
    let host := server.takeWhile (· ≠ ':')
    if host.isEmpty then none
    else
      (readService? ((server.dropWhile (· ≠ ':')).drop 1)).map fun service =>
        ⟨(String.ofList host).toLower, service, target⟩

/-- The host, with the service unless it is the default. -/
def server (u : Url) : String :=
  if u.service = webService then u.host else u.host ++ ":" ++ toString u.service.toNat

/-- The text of a URL. -/
def text (u : Url) : String := "http://" ++ u.server ++ u.target

/-- What is asked for, without the part that stays with the client. -/
def requestTarget (u : Url) : String := String.ofList (u.target.toList.takeWhile (· ≠ '#'))

end Url

/-! ### Exchanges -/

/-- Where exchanges go and how long one may take. -/
structure Transport where
  url : String
  /-- The time for one exchange in milliseconds; forever if absent. -/
  timeout : Option UInt64
  deriving DecidableEq, Repr

namespace Transport

/-- The error of an exchange that is not answered. -/
def unanswered (t : Transport) : TransportError :=
  match Url.read? t.url with
  | none => .http "builder error"
  | some url => .http ("error sending request for url (" ++ url.text ++ ")")

/-- Posts a frame; `post` gives the body of the answer, or nothing if there is no answer. -/
def exchange {m : Type → Type} [Monad m] (t : Transport)
    (post : Url → List UInt8 → m (Option (List UInt8))) (frame : List UInt8) :
    m (Except TransportError (List UInt8)) :=
  match Url.read? t.url with
  | none => pure (.error t.unanswered)
  | some url => do
    match ← post url frame with
    | none => return .error t.unanswered
    | some body => return .ok body

end Transport

/-! ### Messages -/

/-- The bytes of a POST with a body, after which the connection is to be closed. -/
def postText (url : Url) (body : List UInt8) : List UInt8 :=
  Text.encode ("POST " ++ url.requestTarget ++ " HTTP/1.1\r\nhost: " ++ url.server ++
    "\r\naccept: */*\r\ncontent-type: application/octet-stream\r\ncontent-length: " ++
    toString body.length ++ "\r\nconnection: close\r\n\r\n") ++ body

/-- A line up to its line break, and what follows. -/
def splitLine? : List UInt8 → Option (List UInt8 × List UInt8)
  | [] => none
  | b :: bs =>
    if b = 0x0A then some ([], bs)
    else (splitLine? bs).map fun (line, rest) => (b :: line, rest)

theorem length_of_splitLine? {bs line rest : List UInt8} (h : splitLine? bs = some (line, rest)) :
    rest.length < bs.length := by
  induction bs generalizing line with
  | nil => simp [splitLine?] at h
  | cons b bs ih =>
    simp only [splitLine?] at h
    split at h
    · obtain ⟨-, rfl⟩ := Prod.mk.inj (Option.some.inj h)
      simp
    · obtain ⟨⟨l, r⟩, hr, e⟩ := Option.map_eq_some_iff.1 h
      obtain ⟨-, rfl⟩ := Prod.mk.inj e
      exact Nat.lt_succ_of_lt (ih hr)

/-- A line of the head as text, without the other half of its line break. -/
def headLine (line : List UInt8) : String :=
  String.ofList ((line.map fun b => Char.ofNat b.toNat).filter (· ≠ '\r'))

/-- The lines of a head, up to the empty one, and what follows it. -/
def splitHead? (bs : List UInt8) : Option (List String × List UInt8) :=
  match h : splitLine? bs with
  | none => none
  | some (line, rest) =>
    if headLine line = "" then some ([], rest)
    else
      have := length_of_splitLine? h
      (splitHead? rest).map fun (lines, body) => (headLine line :: lines, body)
termination_by bs.length

/-- The value of a field of a head. -/
def headField? (name : String) (lines : List String) : Option String :=
  lines.findSome? fun line =>
    let key := line.toList.takeWhile (· ≠ ':')
    if (String.ofList key).toLower = name then
      let value := (line.toList.drop (key.length + 1)).dropWhile (· = ' ')
      some (String.ofList (value.reverse.dropWhile (· = ' ')).reverse)
    else none

/-- The body in chunks, if all of them are there. -/
def readChunks? (bs : List UInt8) : Option (List UInt8) :=
  match h : splitLine? bs with
  | none => none
  | some (line, rest) =>
    let digits := (headLine line).toList.takeWhile fun c => (Text.hexValue? c).isSome
    match Text.readDigits? 16 Text.hexValue? 0 digits with
    | none => none
    | some size =>
      if digits.isEmpty then none
      else if size = 0 then some []
      else if rest.length < size + 2 then none
      else
        have := length_of_splitLine? h
        (readChunks? (rest.drop (size + 2))).map fun more => rest.take size ++ more
termination_by bs.length
decreasing_by
  simp only [List.length_drop]
  omega

/-- The body of an answer, or nothing as long as the answer is not complete.  An answer that
does not give its own length is complete when the server has closed the connection. -/
def answerBody? (closed : Bool) (bs : List UInt8) : Option (List UInt8) :=
  (splitHead? bs).bind fun (lines, body) =>
    match headField? "transfer-encoding" lines, headField? "content-length" lines with
    | some _, _ => readChunks? body
    | none, some digits =>
      (Text.readDigits? 10 Text.decimalValue? 0 digits.toList).bind fun length =>
        if body.length < length then none else some (body.take length)
    | none, none => if closed then some body else none

end VmProbe.Wire
