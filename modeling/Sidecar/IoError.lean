/-!
# Sidecar.IoError

Failures of the system: numbered ones, as the operating system reports them,
and those that a library raises without a number. The number is what an
operator is shown where there is one (`codeOrText`); the text is what a program
prints as the cause of its own error (`text`).
-/

namespace Sidecar

/-- The classes of failure that can come without a number or a text of their own. -/
inductive IoErrorKind where
  | notFound
  | permissionDenied
  | invalidInput
  | invalidData
  | unexpectedEof
  | interrupted
  | timedOut
  | other
  deriving DecidableEq, Repr

def IoErrorKind.text : IoErrorKind → String
  | .notFound => "entity not found"
  | .permissionDenied => "permission denied"
  | .invalidInput => "invalid input parameter"
  | .invalidData => "invalid data"
  | .unexpectedEof => "unexpected end of file"
  | .interrupted => "operation interrupted"
  | .timedOut => "timed out"
  | .other => "other error"

/-- A failure of the system: reported by the operating system under a number, known
by its class only, or known by a text, which comes with a class. -/
inductive IoError where
  | os (code : Int)
  | bare (kind : IoErrorKind)
  | described (text : String) (kind : IoErrorKind := .other)
  deriving DecidableEq, Repr

namespace IoError

/-! ## Numbered failures -/

abbrev notFound : IoError := .os 2
abbrev busy : IoError := .os 16
abbrev alreadyExists : IoError := .os 17
abbrev notDirectory : IoError := .os 20
abbrev isDirectory : IoError := .os 21
/-- The request makes no sense for this path. -/
abbrev invalidRequest : IoError := .os 22
abbrev nameTooLong : IoError := .os 36
abbrev notEmpty : IoError := .os 39
abbrev tooManyLinks : IoError := .os 40

/-- The system's wordings of the numbers from zero on. -/
def wordings : List String :=
  ["Success", "Operation not permitted", "No such file or directory", "No such process",
   "Interrupted system call", "Input/output error", "No such device or address",
   "Argument list too long", "Exec format error", "Bad file descriptor", "No child processes",
   "Resource temporarily unavailable", "Cannot allocate memory", "Permission denied",
   "Bad address", "Block device required", "Device or resource busy", "File exists",
   "Invalid cross-device link", "No such device", "Not a directory", "Is a directory",
   "Invalid argument", "Too many open files in system", "Too many open files",
   "Inappropriate ioctl for device", "Text file busy", "File too large", "No space left on device",
   "Illegal seek", "Read-only file system", "Too many links", "Broken pipe",
   "Numerical argument out of domain", "Numerical result out of range",
   "Resource deadlock avoided", "File name too long", "No locks available",
   "Function not implemented", "Directory not empty", "Too many levels of symbolic links",
   "Unknown error 41", "No message of desired type", "Identifier removed",
   "Channel number out of range", "Level 2 not synchronized", "Level 3 halted", "Level 3 reset",
   "Link number out of range", "Protocol driver not attached", "No CSI structure available",
   "Level 2 halted", "Invalid exchange", "Invalid request descriptor", "Exchange full", "No anode",
   "Invalid request code", "Invalid slot", "Unknown error 58", "Bad font file format",
   "Device not a stream", "No data available", "Timer expired", "Out of streams resources",
   "Machine is not on the network", "Package not installed", "Object is remote",
   "Link has been severed", "Advertise error", "Srmount error", "Communication error on send",
   "Protocol error", "Multihop attempted", "RFS specific error", "Bad message",
   "Value too large for defined data type", "Name not unique on network",
   "File descriptor in bad state", "Remote address changed",
   "Can not access a needed shared library", "Accessing a corrupted shared library",
   ".lib section in a.out corrupted", "Attempting to link in too many shared libraries",
   "Cannot exec a shared library directly", "Invalid or incomplete multibyte or wide character",
   "Interrupted system call should be restarted", "Streams pipe error", "Too many users",
   "Socket operation on non-socket", "Destination address required", "Message too long",
   "Protocol wrong type for socket", "Protocol not available", "Protocol not supported",
   "Socket type not supported", "Operation not supported", "Protocol family not supported",
   "Address family not supported by protocol", "Address already in use",
   "Cannot assign requested address", "Network is down", "Network is unreachable",
   "Network dropped connection on reset", "Software caused connection abort",
   "Connection reset by peer", "No buffer space available",
   "Transport endpoint is already connected", "Transport endpoint is not connected",
   "Cannot send after transport endpoint shutdown", "Too many references: cannot splice",
   "Connection timed out", "Connection refused", "Host is down", "No route to host",
   "Operation already in progress", "Operation now in progress", "Stale file handle",
   "Structure needs cleaning", "Not a XENIX named type file", "No XENIX semaphores available",
   "Is a named type file", "Remote I/O error", "Disk quota exceeded", "No medium found",
   "Wrong medium type", "Operation canceled", "Required key not available", "Key has expired",
   "Key has been revoked", "Key was rejected by service", "Owner died", "State not recoverable",
   "Operation not possible due to RF-kill", "Memory page has hardware error"]

/-- The system's wording for a number. -/
def describe (code : Int) : String :=
  match code with
  | .ofNat n => wordings.getD n ("Unknown error " ++ toString n)
  | .negSucc n => "Unknown error " ++ toString (Int.negSucc n)

/-! ## Views -/

/-- Whether the call that failed this way has to be made again. -/
def isInterrupted : IoError → Bool
  | .os code => code == 4
  | .bare kind | .described _ kind => kind == .interrupted

/-- The operating system's number, where there is one. -/
def osCode? : IoError → Option Int
  | .os code => some code
  | _ => none

def text : IoError → String
  | .os code => describe code ++ " (os error " ++ toString code ++ ")"
  | .bare kind => kind.text
  | .described text _ => text

/-- The operating system's number where there is one, else the failure in words. -/
def codeOrText (e : IoError) : String :=
  match e.osCode? with
  | some code => toString code
  | none => e.text

end IoError

end Sidecar
