import ColumnAssembler.LineReading

/-!
# Source files

A source file is loaded whole or not at all.
-/

namespace ColumnAssembler

/-- The source text cannot be read to its end. -/
structure ScanError where
  /-- Why reading stopped. -/
  cause : ReadError
  deriving DecidableEq, Repr

/-- The wording of the error for a source text. -/
def ScanError.message (e : ScanError) : Text := Text.ascii "scanning lines: " ++ e.cause.message

/-- Why a source file cannot be loaded. -/
inductive LoadError where
  /-- It cannot be opened. -/
  | opening (path : Text) (cause : PathError)
  /-- It cannot be read to its end. -/
  | reading (path : Text) (cause : ScanError)
  deriving DecidableEq, Repr

/-- The wording of a load error. -/
def LoadError.message : LoadError → Text
  | opening path cause => Text.ascii "opening file " ++ path ++ Text.ascii ": " ++ cause.message
  | reading path cause => Text.ascii "reading file " ++ path ++ Text.ascii ": " ++ cause.message

namespace SourceFile

/-- The lines of a reading that came to its end. -/
def linesOf (reading : LineReading) : Except ScanError (List Text) :=
  match reading.failure with
  | some cause => .error ⟨cause⟩
  | none => .ok reading.lines.toList

/-- The lines of a source text. -/
def ofText (t : Text) : Except ScanError (List Text) := linesOf (.ofText t)

/-- The lines of the source file at a path. -/
def load (tree : FileTree) (path : Text) : Except LoadError (List Text) :=
  match tree.openNode path with
  | .error cause => .error (.opening path cause)
  | .ok node =>
    match linesOf (.ofNode path node) with
    | .error cause => .error (.reading path cause)
    | .ok lines => .ok lines

end SourceFile

end ColumnAssembler
