import ColumnAssembler.Program

/-!
# Listings

A listing shows every record with its assembly field, line number and source text, preceded by the
error of a marked record. For a complete program a summary and two symbol tables follow. A listing
is written part by part, and writing stops at the first part that cannot be written.
-/

namespace ColumnAssembler

/-- The orders of the symbol tables. -/
inductive SymbolOrder where
  /-- By name. -/
  | alphabetical
  /-- By value. -/
  | numerical
  deriving DecidableEq, Repr

/-- The name of an order. -/
def SymbolOrder.name : SymbolOrder → Text
  | alphabetical => Text.ascii "alphabetical"
  | numerical => Text.ascii "numerical"

/-- What is written to a listing at once. -/
inductive ListingPart where
  /-- The error of the record that follows. -/
  | error (d : Diagnostic)
  /-- A record: its assembly field, line number and source text. -/
  | record (assembly : Text) (number : Int) (raw : Text)
  /-- The numbers of bytes and errors. -/
  | summary (size errors : Nat)
  /-- The title of a symbol table. -/
  | title (order : SymbolOrder)
  /-- A row of a symbol table. -/
  | row (symbols : List Symbol)
  deriving DecidableEq, Repr

namespace ListingPart

/-- A symbol with its value in a table. -/
def symbolText (s : Symbol) : Text :=
  s.name.padRight 9 ++ Text.padRight 9 (Text.ascii "=$" ++ Numeral.hexPadded 2 s.value.toNat)

/-- The text of a part. -/
def text : ListingPart → Text
  | error d => d.message ++ [Byte.lineFeed]
  | record assembly number raw =>
    assembly.padRight 15 ++ Text.padLeft Byte.space 2 (Numeral.decimalInt number)
      ++ [Byte.space] ++ raw ++ [Byte.lineFeed]
  | summary size errors =>
    [Byte.lineFeed] ++ Text.ascii "--End assembly, " ++ Numeral.decimal size
      ++ Text.ascii " bytes, errors: " ++ Numeral.decimal errors
      ++ [Byte.lineFeed, Byte.lineFeed]
  | title order =>
    Text.ascii "Symbol table - " ++ order.name ++ Text.ascii " order:" ++ [Byte.lineFeed]
  | row symbols => Text.ascii "    " ++ symbols.flatMap symbolText ++ [Byte.lineFeed]

/-- What was being written, as errors name it. -/
def activity : ListingPart → Text
  | error _ => Text.ascii "writing error line"
  | record _ number _ => Text.ascii "writing line " ++ Numeral.decimalInt number
  | summary .. => Text.ascii "writing summary"
  | title _ => Text.ascii "writing symbol table header"
  | row _ => Text.ascii "writing symbol table"

end ListingPart

/-- A writer that fails once. -/
structure WriteFault where
  /-- The number of the part that cannot be written, counted from one. -/
  index : Nat
  /-- The reason. -/
  message : Text
  deriving DecidableEq, Repr

/-- A part of a listing cannot be written. -/
structure ListingError where
  /-- The part. -/
  part : ListingPart
  /-- The reason. -/
  cause : Text
  deriving DecidableEq, Repr

/-- The wording of a listing error. -/
def ListingError.message (e : ListingError) : Text :=
  e.part.activity ++ Text.ascii ": " ++ e.cause

namespace Listing

/-- The extension of listing files. -/
def extension : Text := Text.ascii ".lst"

/-- The parts of a record. -/
def recordParts (contributions : Array UInt8) (r : Record) : List ListingPart :=
  ((Diagnostic.ofRecord? r).map ListingPart.error).toList
    ++ [.record (r.assembly contributions) r.source.number r.source.raw]

/-- The rows of a symbol table, four symbols in each. There is always a last row with fewer. -/
def rows : List Symbol → List (List Symbol)
  | a :: b :: c :: d :: rest => [a, b, c, d] :: rows rest
  | short => [short]

/-- The rows hold the symbols in order, each once. -/
theorem flatten_rows (symbols : List Symbol) : (rows symbols).flatten = symbols := by
  fun_induction rows symbols with
  | case1 a b c d rest ih => simp [ih]
  | case2 short => simp

/-- The parts of a symbol table. -/
def tableParts (order : SymbolOrder) (symbols : List Symbol) : List ListingPart :=
  .title order :: (rows symbols).map ListingPart.row

/-- The parts after the records of a complete program. -/
def closingParts (p : Program) : List ListingPart :=
  .summary p.size p.errorCount :: (tableParts .alphabetical p.symbols.byName
    ++ tableParts .numerical p.symbols.byValue)

/-- The parts of the listing of a program. -/
def parts (p : Program) : List ListingPart :=
  p.records.toList.flatMap (recordParts p.contributions)
    ++ if p.complete then closingParts p else []

/-- The text of some parts. -/
def textOf (parts : List ListingPart) : Text := parts.flatMap ListingPart.text

/-- The text of the listing of a program. -/
def render (p : Program) : Text := textOf (parts p)

/-- Write parts to a writer that may fail: what was written, and the error that stopped it. -/
def write (fault : Option WriteFault) (parts : List ListingPart) : Text × Option ListingError :=
  match fault with
  | none => (textOf parts, none)
  | some f =>
    if f.index = 0 then (textOf parts, none)
    else
      match parts[f.index - 1]? with
      | none => (textOf parts, none)
      | some part => (textOf (parts.take (f.index - 1)), some ⟨part, f.message⟩)

end Listing

end ColumnAssembler
