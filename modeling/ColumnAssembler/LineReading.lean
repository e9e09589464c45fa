import ColumnAssembler.FileTree

/-!
# Reading lines

A text is read line by line. A line ends at a line feed or at the end of the text, and one carriage
return before its end is dropped; a text that ends with a line feed has no empty line after it.
Reading stops at a line that is too long for the reader, with the lines before it already read.
-/

namespace ColumnAssembler

/-- Why reading stops early. -/
inductive ReadError where
  /-- A line is too long. -/
  | longLine
  /-- The file cannot be read. -/
  | path (cause : PathError)
  deriving DecidableEq, Repr

/-- The wording of a read error. -/
def ReadError.message : ReadError → Text
  | longLine => Text.ascii "bufio.Scanner: token too long"
  | path cause => cause.message

/-- The lines read and the error that stopped reading. -/
structure LineReading where
  /-- The lines, without their ends. -/
  lines : Array Text
  /-- Why there may be more lines. -/
  failure : Option ReadError
  deriving DecidableEq, Repr

namespace LineReading

/-- The largest number of bytes before a line feed. -/
def maxLength : Nat := 65535

/-- The line collected backwards, without one carriage return at its end. -/
def close (collected : Text) : Text :=
  (Text.withoutStart [Byte.carriageReturn] collected).reverse

/-- Read on with the lines done so far and the line under way, collected backwards with its
length. -/
def readFrom (done : Array Text) (collected : Text) (length : Nat) : Text → LineReading
  | [] => ⟨if collected.isEmpty then done else done.push (close collected), none⟩
  | b :: rest =>
    if b = Byte.lineFeed then readFrom (done.push (close collected)) [] 0 rest
    else if maxLength ≤ length then ⟨done, some .longLine⟩
    else readFrom done (b :: collected) (length + 1) rest

/-- Read the lines of a text. -/
def ofText (t : Text) : LineReading := readFrom #[] [] 0 t

/-- Read the lines of what was opened at a path. -/
def ofNode (path : Text) : Node → LineReading
  | .file content => ofText content
  | .directory => ⟨#[], some (.path ⟨.reading, path, .isDirectory⟩)⟩

end LineReading

end ColumnAssembler
