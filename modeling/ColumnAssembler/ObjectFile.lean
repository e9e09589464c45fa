import ColumnAssembler.LineReading
import ColumnAssembler.Program
import ColumnAssembler.Text.Blank
import ColumnAssembler.Text.Quoted

/-!
# Object files

An object file has one line for every memory record of a program: four hexadecimal digits of the
address, a colon, and the bytes in two digits each with a blank before them. The reader takes
digits in either case and any white space around the bytes, and names the first line that has
another form.
-/

namespace ColumnAssembler

/-- A line of an object file. -/
structure ObjectLine where
  /-- The address of the first byte. -/
  address : UInt16
  /-- The bytes from there on. -/
  data : List UInt8
  deriving DecidableEq, Repr

/-- Why a text is no line of an object file. -/
inductive ObjectLineError where
  /-- There are not four bytes before a colon. -/
  | shape (line : Text)
  /-- The address is no hexadecimal number. -/
  | address (digits : Text) (cause : Numeral.ReadError)
  /-- A field has not exactly two hexadecimal digits. -/
  | byte (field : Text)
  /-- There is no byte after the colon. -/
  | noData (line : Text)
  deriving DecidableEq, Repr

/-- The wording of an object line error. -/
def ObjectLineError.message (e : ObjectLineError) : Text :=
  Text.ascii "invalid object file line: " ++
    match e with
    | shape line => line.cited
    | address digits cause =>
      Text.ascii "address " ++ digits.cited ++ Text.ascii ": " ++ cause.message digits
    | byte field => Text.ascii "byte " ++ field.cited
    | noData line => Text.ascii "no data in " ++ line.cited

/-- Why an object file cannot be read. -/
inductive ObjectError where
  /-- A line has another form. -/
  | line (number : Nat) (cause : ObjectLineError)
  /-- The file cannot be read to its end. -/
  | reading (cause : ReadError)
  deriving DecidableEq, Repr

/-- The wording of an object file error. -/
def ObjectError.message : ObjectError → Text
  | line number cause =>
    Text.ascii "parsing line " ++ Numeral.decimal number ++ Text.ascii ": " ++ cause.message
  | reading cause => Text.ascii "reading object file: " ++ cause.message

/-- An object file cannot be created. -/
structure ObjectWriteError where
  /-- The path of the object file. -/
  path : Text
  /-- Why it cannot be created. -/
  cause : PathError
  deriving DecidableEq, Repr

/-- The wording of the error for an object file that cannot be created. -/
def ObjectWriteError.message (e : ObjectWriteError) : Text :=
  Text.ascii "creating object file " ++ e.path.cited ++ Text.ascii ": " ++ e.cause.message

namespace ObjectFile

/-- The extension of object files. -/
def extension : Text := Text.ascii ".o"

/-- The object lines of a program. -/
def lines (p : Program) : List ObjectLine :=
  let contributions := p.contributions
  p.memory.map fun m => ⟨m.address, m.bytes contributions⟩

/-- The text of the object file of a program. -/
def encode (p : Program) : Text :=
  let contributions := p.contributions
  List.intercalate [Byte.lineFeed]
    (p.memory.map fun m => (m.assembly contributions).withoutTrailingSpaces)

/-- Read a field of exactly two hexadecimal digits. -/
def parseByte (field : Text) : Except ObjectLineError UInt8 :=
  match Numeral.read 16 0xFF field with
  | .ok n => if field.length = 2 then .ok (UInt8.ofNat n) else .error (.byte field)
  | .error _ => .error (.byte field)

/-- Read the fields after the colon. -/
def parseBytes : List Text → Except ObjectLineError (List UInt8)
  | [] => .ok []
  | field :: rest =>
    match parseByte field with
    | .error cause => .error cause
    | .ok b =>
      match parseBytes rest with
      | .error cause => .error cause
      | .ok bytes => .ok (b :: bytes)

/-- Read a line of an object file. -/
def parseLine (line : Text) : Except ObjectLineError ObjectLine :=
  let digits := line.before Byte.colon
  match line.after? Byte.colon with
  | none => .error (.shape line)
  | some data =>
    if digits.length ≠ 4 then .error (.shape line)
    else
      match Numeral.read 16 0xFFFF digits with
      | .error cause => .error (.address digits cause)
      | .ok address =>
        match parseBytes data.fields with
        | .error cause => .error cause
        | .ok [] => .error (.noData line)
        | .ok bytes => .ok ⟨UInt16.ofNat address, bytes⟩

/-- Read lines one after the other, with the object lines done so far, which number them. -/
def parseLines (done : Array ObjectLine) : List Text → Except ObjectError (Array ObjectLine)
  | [] => .ok done
  | line :: rest =>
    match parseLine line with
    | .error cause => .error (.line (done.size + 1) cause)
    | .ok object => parseLines (done.push object) rest

/-- Read an object file. A malformed line is found before reading goes on to a later one. -/
def parseReading (reading : LineReading) : Except ObjectError (List ObjectLine) :=
  match parseLines #[] reading.lines.toList with
  | .error cause => .error cause
  | .ok objects =>
    match reading.failure with
    | some cause => .error (.reading cause)
    | none => .ok objects.toList

/-- Read the text of an object file. -/
def parse (t : Text) : Except ObjectError (List ObjectLine) := parseReading (.ofText t)

/-- Write the object file of a program, replacing a file that is there. A program that cannot be
emitted gives nothing. -/
def write (tree : FileTree) (path : Text) (p : Program) :
    Except ObjectWriteError (Option FileTree) :=
  if p.isEmittable then
    match tree.create path (encode p) with
    | .ok next => .ok (some next)
    | .error cause => .error ⟨path, cause⟩
  else .ok none

end ObjectFile

end ColumnAssembler
