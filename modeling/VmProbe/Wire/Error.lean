/-
VmProbe/Wire/Error.lean

What can go wrong on the wire: a frame that does not follow the format (`ProtocolError`), a
request that the server refuses (`ServerError`), and an exchange that does not take place
(`TransportError`).
-/
import VmProbe.Machine.Fault
import VmProbe.Text.Hex

namespace VmProbe.Wire

open Machine (Fault)

/-- Why bytes are no frame, or a request has none. -/
inductive ProtocolError
  | truncated (length needed : Nat)
  | badMagic (found : Nat)
  | unknownOpcode (byte : UInt8)
  | unknownErrorCode (byte : UInt8)
  | unknownFault (byte : UInt8)
  | unknownRegister (byte : UInt8)
  | duplicateRegister (byte : UInt8)
  | tooLarge (length : Nat)
  deriving DecidableEq, Repr

namespace ProtocolError

/-- The message for a person. -/
def message : ProtocolError → String
  | truncated length needed =>
    "frame truncated: " ++ toString length ++ " bytes, need at least " ++ toString needed
  | badMagic found => "bad magic " ++ Text.fixedHex .lower 16 found
  | unknownOpcode b => "unknown opcode " ++ Text.hexByte b
  | unknownErrorCode b => "unknown error code " ++ Text.hexByte b
  | unknownFault b => "unknown runtime error " ++ Text.hexByte b
  | unknownRegister b => "unknown register id " ++ Text.hexByte b ++ " in register block"
  | duplicateRegister b =>
    "register id " ++ Text.hexByte b ++ " appears twice in register block"
  | tooLarge length => "file of " ++ toString length ++ " bytes is too large to send"

end ProtocolError

/-- Why the server refuses a request. -/
inductive ServerError
  | alreadyInSession
  | notInSession
  | fault (kind : Fault)
  | fileFormat
  | breakpointAlreadySet
  | breakpointNotExisting
  deriving DecidableEq, Repr

namespace ServerError

/-- The error code that announces a fault; the fault's own byte follows it. -/
def faultCode : UInt8 := 3

/-- The error code in a reply. -/
def code : ServerError → UInt8
  | alreadyInSession => 1
  | notInSession => 2
  | fault _ => faultCode
  | fileFormat => 4
  | breakpointAlreadySet => 5
  | breakpointNotExisting => 6

/-- The printed name. -/
def message : ServerError → String
  | alreadyInSession => "ALREADY_IN_SESSION"
  | notInSession => "NOT_IN_SESSION"
  | fault kind => "RUNTIME_ERROR (" ++ kind.name ++ ")"
  | fileFormat => "FILE_FORMAT_ERROR"
  | breakpointAlreadySet => "BREAKPOINT_ALREADY_SET"
  | breakpointNotExisting => "BREAKPOINT_NOT_EXISTING"

end ServerError

/-- Why an exchange with the server did not take place. -/
inductive TransportError
  /-- The HTTP client gave up. -/
  | http (detail : String)
  /-- There is no way to the server. -/
  | unavailable (detail : String)
  deriving DecidableEq, Repr

namespace TransportError

/-- The message for a person. -/
def message : TransportError → String
  | http detail => "HTTP request failed: " ++ detail
  | unavailable detail => "transport unavailable: " ++ detail

end TransportError

end VmProbe.Wire
