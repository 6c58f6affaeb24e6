import KestrelCompiler.Decimal.Limit
import KestrelCompiler.Disk
import KestrelCompiler.LoweringError
import KestrelCompiler.Text.Row

/-!
What stops a command or a look-up, other than a fault in a program.
-/

namespace KestrelCompiler

inductive Failure where
  | disk (error : DiskError)
  /-- A file that is not UTF-8. -/
  | encoding
  | malformedConfig
  /-- A configuration with a decimal integer of too many digits. -/
  | unreadableInteger (digits : Nat)
  /-- `package` or `build` is something other than a table. -/
  | notTable
  | invalidWidth (path : String)
  | noConfig
  /-- A number of too many decimal digits would have to be written. -/
  | unwritableInteger
  /-- The builder did not take the code of a program. -/
  | refused (reason : Refusal)
  | row (error : Text.RowError)

namespace Failure

def configName : String := "kestrel.toml"

def message : Failure → String
  | disk .missing => "no such file or directory"
  | disk .isDirectory => "is a directory"
  | disk .notDirectory => "not a directory"
  | disk .nameTooLong => "file name too long"
  | disk .nullCharacter => "embedded null byte"
  | disk .fileExists => "file exists"
  | encoding => "the file is not valid UTF-8"
  | malformedConfig => "the configuration is not valid TOML"
  | unreadableInteger digits => Decimal.unreadable digits
  | notTable => "package and build have to be tables"
  | invalidWidth path => path ++ ": build.int_width must be a positive integer"
  | noConfig => "No " ++ configName ++ " found in any parent directory"
  | unwritableInteger => Decimal.unwritable
  | refused reason => reason.message
  | row error => error.message

def ofDisk {α : Type} : Except DiskError α → Except Failure α
  | .ok a => .ok a
  | .error e => .error (.disk e)

def ofRow {α : Type} : Except Text.RowError α → Except Failure α
  | .ok a => .ok a
  | .error e => .error (.row e)

/-- The text of a file. -/
def decode (bytes : ByteArray) : Except Failure String :=
  match String.fromUTF8? bytes with
  | some text => .ok text
  | none => .error .encoding

end Failure

end KestrelCompiler
