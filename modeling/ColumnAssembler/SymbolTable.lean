import ColumnAssembler.Numeral
import ColumnAssembler.StableSort
import ColumnAssembler.Text.Search

/-!
# Symbols

Names with 16-bit values, in the order of their definition. The first definition of a name stands.
The views by length, by name and by value order the same symbols; the longest name found in a text
is the one that a reference in that text means.
-/

namespace ColumnAssembler

/-- A name with its value. -/
structure Symbol where
  /-- The name, compared bytewise. -/
  name : Text
  /-- The value, an address or a constant. -/
  value : UInt16
  deriving DecidableEq, Repr

/-- The value of a symbol in hexadecimal digits. -/
def Symbol.hex (s : Symbol) : Text := Numeral.hex s.value.toNat

/-- The defined symbols. -/
structure SymbolTable where
  /-- The symbols in the order of their definition. -/
  symbols : List Symbol
  deriving DecidableEq, Repr

namespace SymbolTable

/-- The largest number of symbols a program may define. -/
def maxSymbols : Nat := 255

/-- The table without symbols. -/
def empty : SymbolTable := ⟨[]⟩

/-- The symbol with the given name. -/
def get? (table : SymbolTable) (name : Text) : Option Symbol :=
  table.symbols.find? fun s => s.name == name

/-- Whether the name is defined. -/
def has (table : SymbolTable) (name : Text) : Bool := (table.get? name).isSome

/-- Define a new name. A name that is already defined gives nothing, and its value stands. -/
def define? (table : SymbolTable) (name : Text) (value : UInt16) : Option SymbolTable :=
  if table.has name then none else some ⟨table.symbols ++ [⟨name, value⟩]⟩

/-- The number of symbols. -/
def size (table : SymbolTable) : Nat := table.symbols.length

/-- Whether there are more symbols than a program may define. -/
def isExceeded (table : SymbolTable) : Bool := maxSymbols < table.size

/-- The symbols with longer names first, so that a name is met before the names it contains. -/
def byLength (table : SymbolTable) : List Symbol :=
  StableSort.sort (fun a b => b.name.length ≤ a.name.length) table.symbols

/-- The symbols in the bytewise order of their names. -/
def byName (table : SymbolTable) : List Symbol :=
  StableSort.sort (fun a b => a.name.notAfter b.name) table.symbols

/-- The symbols by ascending value. -/
def byValue (table : SymbolTable) : List Symbol :=
  StableSort.sort (fun a b => a.value ≤ b.value) table.symbols

/-- The length of the name of the best match so far. -/
def matchLength : Option Symbol → Nat
  | some best => best.name.length
  | none => 0

/-- Take a symbol over the best match so far if its name occurs in the text and is longer. -/
def betterMatch (t : Text) (best : Option Symbol) (s : Symbol) : Option Symbol :=
  if matchLength best < s.name.length && s.name.occursIn t then some s else best

/-- The symbol with the longest name that occurs in the text, of equally long ones the first. The
empty name is never found. -/
def longestMatch? (table : SymbolTable) (t : Text) : Option Symbol :=
  table.symbols.foldl (betterMatch t) none

end SymbolTable

end ColumnAssembler
