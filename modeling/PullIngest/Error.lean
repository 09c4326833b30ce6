import PullIngest.Text.Base64
import PullIngest.Text.Quoted
import PullIngest.Wire.Phase

/-!
# Errors of a transfer

What can go wrong while a file is taken in, with the wording of each cause.
-/

namespace PullIngest

/-- Why the file system refuses an operation. -/
inductive IoError where
  | notFound
  | alreadyExists
  | notDirectory
  | isDirectory
  | busy
  | nameTooLong
  /-- What holds the file fails. -/
  | device
  /-- A path with a NUL character names nothing. -/
  | nulInPath
  /-- A text file holds bytes that are not UTF-8. -/
  | notText
  deriving DecidableEq, Repr

/-- The wording of a refusal. -/
def IoError.message : IoError → String
  | .notFound => "No such file or directory (os error 2)"
  | .busy => "Device or resource busy (os error 16)"
  | .alreadyExists => "File exists (os error 17)"
  | .notDirectory => "Not a directory (os error 20)"
  | .isDirectory => "Is a directory (os error 21)"
  | .nameTooLong => "File name too long (os error 36)"
  | .device => "Input/output error (os error 5)"
  | .nulInPath => "file name contained an unexpected NUL byte"
  | .notText => "stream did not contain valid UTF-8"

/-- Why a declared name is refused. -/
inductive NameError where
  | empty
  | nul
  | noFile
  | absolute
  | traversal
  deriving DecidableEq, Repr

/-- The wording of a refusal of a name. -/
def NameError.message (name : String) : NameError → String
  | .empty => "empty name"
  | .nul => "NUL byte not allowed: " ++ Quoted.encode name
  | .noFile => "name has no file component: " ++ name
  | .absolute => "absolute path not allowed: " ++ name
  | .traversal => "parent directory traversal not allowed: " ++ name

/-- What one side does that the protocol does not allow. -/
inductive Violation where
  /-- A chunk does not begin where the last one ended. -/
  | outOfOrder (offset expected : UInt64)
  /-- A payload holds another number of bytes than it declares. -/
  | payloadLength (held : Nat) (declared : UInt64)
  /-- Bytes or a verdict for a sink that has its verdict. -/
  | sinkClosed
  /-- A verdict is due and the file is not complete. -/
  | incomplete (received size : UInt64)
  /-- The file begins with no known signature. -/
  | unknownFormat
  /-- The receiver of the bytes wants no more of them. -/
  | refused (offset : UInt64)
  deriving DecidableEq, Repr

/-- The wording of a violation. -/
def Violation.message : Violation → String
  | .outOfOrder offset expected =>
    "chunk at offset " ++ toString offset.toNat ++ ", expected " ++ toString expected.toNat
  | .payloadLength held declared =>
    "payload holds " ++ toString held ++ " bytes, declared " ++ toString declared.toNat
  | .sinkClosed => "sink already closed"
  | .incomplete received size =>
    "received " ++ toString received.toNat ++ " of " ++ toString size.toNat ++ " bytes"
  | .unknownFormat => "unrecognized file format"
  | .refused offset => "refused at " ++ toString offset.toNat

/-- What goes wrong in a transfer. -/
inductive TransferError where
  | io (cause : IoError)
  | range (offset size limit : UInt64)
  | codec (cause : Base64.DecodeError)
  | violation (cause : Violation)
  | invalidState (phase : Phase)
  | invalidChunkSize
  | invalidName (cause : NameError) (name : String)
  | conflict (name : String)
  deriving DecidableEq, Repr

namespace TransferError

/-- The wording of an error. -/
def message : TransferError → String
  | io cause => "I/O error: " ++ cause.message
  | range offset size limit =>
    "range " ++ toString offset.toNat ++ "+" ++ toString size.toNat ++ " exceeds "
      ++ toString limit.toNat ++ " bytes"
  | codec cause => "malformed chunk payload: " ++ cause.message
  | violation cause => "protocol violation: " ++ cause.message
  | invalidState phase => "cannot request a chunk while session is " ++ phase.label
  | invalidChunkSize => "chunk size must be greater than zero"
  | invalidName cause name => "invalid name: " ++ cause.message name
  | conflict name => name ++ " is already being ingested by another session"

/-- Whether an error ends the session at once. The others are counted. -/
def isFatal : TransferError → Bool
  | codec _ => false
  | violation _ => false
  | _ => true

end TransferError

end PullIngest
