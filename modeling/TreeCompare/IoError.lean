/-!
# Input and output errors

An `IoError` is either an error number of the operating system or a
refusal with a text of its own. `IoError.message` is the text a report
carries: the system's description with its number, or the refusal as it
stands.
-/

namespace TreeCompare

/-- Why a file system operation failed. -/
inductive IoError where
  /-- The operating system's error with this number. -/
  | system (number : Nat)
  /-- A refusal that is not the operating system's. -/
  | refusal (text : String)
deriving DecidableEq, Repr

namespace IoError

/-- The operating system's descriptions of the error numbers from 1 on. -/
def descriptions : List String :=
  [
    "Operation not permitted", "No such file or directory", "No such process",
    "Interrupted system call", "Input/output error", "No such device or address",
    "Argument list too long", "Exec format error", "Bad file descriptor", "No child processes",
    "Resource temporarily unavailable", "Cannot allocate memory", "Permission denied",
    "Bad address", "Block device required", "Device or resource busy", "File exists",
    "Invalid cross-device link", "No such device", "Not a directory", "Is a directory",
    "Invalid argument", "Too many open files in system", "Too many open files",
    "Inappropriate ioctl for device", "Text file busy", "File too large",
    "No space left on device", "Illegal seek", "Read-only file system", "Too many links",
    "Broken pipe", "Numerical argument out of domain", "Numerical result out of range",
    "Resource deadlock avoided", "File name too long", "No locks available",
    "Function not implemented", "Directory not empty", "Too many levels of symbolic links",
    "Unknown error 41", "No message of desired type", "Identifier removed",
    "Channel number out of range", "Level 2 not synchronized", "Level 3 halted", "Level 3 reset",
    "Link number out of range", "Protocol driver not attached", "No CSI structure available",
    "Level 2 halted", "Invalid exchange", "Invalid request descriptor", "Exchange full",
    "No anode", "Invalid request code", "Invalid slot", "Unknown error 58",
    "Bad font file format", "Device not a stream", "No data available", "Timer expired",
    "Out of streams resources", "Machine is not on the network", "Package not installed",
    "Object is remote", "Link has been severed", "Advertise error", "Srmount error",
    "Communication error on send", "Protocol error", "Multihop attempted", "RFS specific error",
    "Bad message", "Value too large for defined data type", "Name not unique on network",
    "File descriptor in bad state", "Remote address changed",
    "Can not access a needed shared library", "Accessing a corrupted shared library",
    ".lib section in a.out corrupted", "Attempting to link in too many shared libraries",
    "Cannot exec a shared library directly", "Invalid or incomplete multibyte or wide character",
    "Interrupted system call should be restarted", "Streams pipe error", "Too many users",
    "Socket operation on non-socket", "Destination address required", "Message too long",
    "Protocol wrong type for socket", "Protocol not available", "Protocol not supported",
    "Socket type not supported", "Operation not supported", "Protocol family not supported",
    "Address family not supported by protocol", "Address already in use",
    "Cannot assign requested address", "Network is down", "Network is unreachable",
    "Network dropped connection on reset", "Software caused connection abort",
    "Connection reset by peer", "No buffer space available",
    "Transport endpoint is already connected", "Transport endpoint is not connected",
    "Cannot send after transport endpoint shutdown", "Too many references: cannot splice",
    "Connection timed out", "Connection refused", "Host is down", "No route to host",
    "Operation already in progress", "Operation now in progress", "Stale file handle",
    "Structure needs cleaning", "Not a XENIX named type file", "No XENIX semaphores available",
    "Is a named type file", "Remote I/O error", "Disk quota exceeded", "No medium found",
    "Wrong medium type", "Operation canceled", "Required key not available", "Key has expired",
    "Key has been revoked", "Key was rejected by service", "Owner died", "State not recoverable",
    "Operation not possible due to RF-kill", "Memory page has hardware error"]

/-- The operating system's description of an error number. -/
def describe (number : Nat) : String :=
  match number with
  | 0 => "Success"
  | n + 1 => descriptions.getD n s!"Unknown error {n + 1}"

/-- The text of an error in reports. -/
def message : IoError → String
  | system number => s!"{describe number} (os error {number})"
  | refusal text => text

/-! The errors that the file tree and its readers raise. -/

def notPermitted : IoError := system 1
def notFound : IoError := system 2
def inputOutput : IoError := system 5
def alreadyExists : IoError := system 17
def notDirectory : IoError := system 20
def isDirectory : IoError := system 21
def nameTooLong : IoError := system 36
def tooManyLinks : IoError := system 40

/-- A path that holds a NUL byte names nothing the system can be asked. -/
def nulInPath : IoError := refusal "file name contained an unexpected NUL byte"

/-- Text was asked for, and the bytes are not UTF-8. -/
def notText : IoError := refusal "stream did not contain valid UTF-8"

/-- Opening a directory does not go through a symbolic link. -/
def linkRefused : IoError := refusal "Too many levels of symbolic links"

/-- Only a directory can be enumerated. -/
def directoryExpected : IoError := refusal "Not a directory"

end IoError

end TreeCompare
