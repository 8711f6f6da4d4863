/-!
# Stores of files

What commands need of the place where files are kept: reading and writing
whole texts, and making directories. Whoever implements it decides where the
texts go; commands see nothing but the results. A file need not hold a text,
and then it cannot be read.
-/

namespace ApiBaseline

/-- Why a file cannot be read or written. -/
inductive FileError where
  | notFound
  | alreadyExists
  | notDirectory
  | isDirectory
  /-- The path has a character that no path can have. -/
  | badPath
  /-- The bytes of the file are not those of a text. -/
  | notText
  /-- Another cause, in the words of the store. -/
  | other (text : String)
  deriving DecidableEq, Repr

/-- The wording of a cause, with its number in the system. -/
def FileError.message : FileError → String
  | notFound => "No such file or directory (os error 2)"
  | alreadyExists => "File exists (os error 17)"
  | notDirectory => "Not a directory (os error 20)"
  | isDirectory => "Is a directory (os error 21)"
  | badPath => "file name contained an unexpected NUL byte"
  | notText => "stream did not contain valid UTF-8"
  | other text => text

/-- The text that the bytes of a file are read as. -/
def textOfBytes (bytes : ByteArray) : Except FileError String :=
  match String.fromUTF8? bytes with
  | some text => .ok text
  | none => .error .notText

@[simp] theorem textOfBytes_toUTF8 (text : String) : textOfBytes text.toUTF8 = .ok text := by
  rw [textOfBytes, String.toUTF8, String.fromUTF8?, dif_pos text.isValidUTF8]
  rfl

/-- A place where files are kept, with the effects of `m`. -/
class FileStore (m : Type → Type) where
  /-- The text of a file. -/
  read : String → m (Except FileError String)
  /-- Makes a directory and those that it lies in, as far as they are missing. -/
  makeDirectories : String → m (Except FileError Unit)
  /-- Gives a file a text, whether there is a file at the path or not. -/
  write : String → String → m (Except FileError Unit)

end ApiBaseline
