import ColumnAssembler.Literal

/-!
# Expressions

An expression is a chain of literals with operators between them. Operators have no precedence:
the chain is evaluated from left to right in wrapping 64-bit arithmetic, so 2+3*4 is 20. Whatever
follows the first comma names an index register and has no value. An operator byte between two
equal quotes belongs to a character literal and does not divide the chain.
-/

namespace ColumnAssembler

/-- The operators of a chain. -/
inductive Operator where
  /-- Sum, written with a plus sign. -/
  | add
  /-- Difference, written with a minus sign. -/
  | subtract
  /-- Product, written with a star. -/
  | multiply
  /-- Quotient rounded toward zero, written with a slash. -/
  | divide
  /-- Bitwise and, written with an ampersand. -/
  | both
  /-- Bitwise or, written with a dot. -/
  | either
  /-- Bitwise exclusive or, written with an exclamation mark. -/
  | differ
  deriving DecidableEq, Repr

namespace Operator

/-- The byte of an operator. -/
def byte : Operator → UInt8
  | add => 0x2B
  | subtract => 0x2D
  | multiply => 0x2A
  | divide => 0x2F
  | both => 0x26
  | either => 0x2E
  | differ => 0x21

/-- All operators. -/
def all : List Operator := [add, subtract, multiply, divide, both, either, differ]

/-- The operator written with a byte, if there is one. -/
def ofByte? (b : UInt8) : Option Operator := all.find? fun op => op.byte == b

/-- No two operators are written alike. -/
@[simp] theorem ofByte?_byte (op : Operator) : ofByte? op.byte = some op := by
  cases op <;> rfl

/-- The operator read from a byte is written with that byte. -/
theorem byte_of_ofByte? {b : UInt8} {op : Operator} (h : ofByte? b = some op) : op.byte = b := by
  simpa using List.find?_some h

/-- The result of an operator; nothing for a division by zero. -/
def combine? (op : Operator) (a b : Int64) : Option Int64 :=
  match op with
  | add => some (a + b)
  | subtract => some (a - b)
  | multiply => some (a * b)
  | divide => if b = 0 then none else some (a / b)
  | both => some (a &&& b)
  | either => some (a ||| b)
  | differ => some (a ^^^ b)

end Operator

/-- Why an expression has no value. -/
inductive ExpressionError where
  /-- Nothing stands before the comma. -/
  | empty
  /-- There is a blank, a tab or an end of line in the expression. -/
  | whitespace (t : Text)
  /-- An operand of the chain is no literal. -/
  | operand (t : Text) (cause : LiteralError)
  /-- The expression divides by zero. -/
  | divisionByZero (t : Text)
  deriving DecidableEq, Repr

/-- The wording of an expression error. -/
def ExpressionError.message : ExpressionError → Text
  | empty => LiteralError.empty.message
  | whitespace t => (LiteralError.whitespace t).message
  | operand t cause => Text.ascii "parsing operand " ++ t.cited ++ Text.ascii ": " ++ cause.message
  | divisionByZero t =>
    Text.ascii "evaluating " ++ t.cited ++ Text.ascii ": division by zero"

/-- An expression divided at its operators. -/
structure Chain where
  /-- The first operand. -/
  head : Text
  /-- The operators, each with the operand after it. -/
  rest : List (Operator × Text)
  deriving DecidableEq, Repr

namespace Chain

/-- Put a byte in front of the first operand. -/
def cons (b : UInt8) (chain : Chain) : Chain := { chain with head := b :: chain.head }

/-- Put an empty operand and an operator in front. -/
def divide (op : Operator) (chain : Chain) : Chain := ⟨[], (op, chain.head) :: chain.rest⟩

/-- The text of the chain. -/
def text (chain : Chain) : Text :=
  chain.head ++ chain.rest.flatMap fun link => link.1.byte :: link.2

@[simp] theorem text_cons (b : UInt8) (chain : Chain) :
    (chain.cons b).text = b :: chain.text := rfl

@[simp] theorem text_divide (op : Operator) (chain : Chain) :
    (chain.divide op).text = op.byte :: chain.text := rfl

/-- Divide a text at its operators. Inside a quoted span the argument is its quote; a span opens
only at a quote that is closed later, so an unclosed quote protects nothing. -/
def splitFrom : Option UInt8 → Text → Chain
  | _, [] => ⟨[], []⟩
  | some quote, b :: rest =>
    (splitFrom (if b = quote then none else some quote) rest).cons b
  | none, b :: rest =>
    if Text.isQuote b && rest.contains b then (splitFrom (some b) rest).cons b
    else
      match Operator.ofByte? b with
      | some op => (splitFrom none rest).divide op
      | none => (splitFrom none rest).cons b

/-- Dividing loses nothing, inside a quoted span or outside. -/
@[simp] theorem text_splitFrom (quote : Option UInt8) (t : Text) :
    (splitFrom quote t).text = t := by
  induction t generalizing quote with
  | nil => cases quote <;> rfl
  | cons b rest ih =>
    cases quote with
    | some q => simp [splitFrom, ih]
    | none =>
      rw [splitFrom]
      split
      · simp [ih]
      · split
        · next op h => simp [ih, Operator.byte_of_ofByte? h]
        · simp [ih]

/-- Divide a text at its operators. -/
def split (t : Text) : Chain := splitFrom none t

end Chain

namespace Expression

/-- The value of one operand. -/
def operandValue (t : Text) : Except ExpressionError Int64 :=
  match Literal.parse t with
  | .ok value => .ok value
  | .error cause => .error (.operand t cause)

/-- Apply the links of a chain to a value from left to right. Every operand is read before its
operator is applied. The first argument is the expression that errors cite. -/
def fold (whole : Text) (value : Int64) : List (Operator × Text) → Except ExpressionError Int64
  | [] => .ok value
  | (op, t) :: links =>
    match operandValue t with
    | .error cause => .error cause
    | .ok operand =>
      match op.combine? value operand with
      | some result => fold whole result links
      | none => .error (.divisionByZero whole)

/-- The value of a chain. -/
def evaluateChain (whole : Text) (chain : Chain) : Except ExpressionError Int64 :=
  match operandValue chain.head with
  | .error cause => .error cause
  | .ok value => fold whole value chain.rest

/-- The value of an expression, an index register after it ignored. -/
def evaluate (t : Text) : Except ExpressionError Int64 :=
  let whole := t.before Byte.comma
  if whole.isEmpty then .error .empty
  else if whole.any Text.isSeparator then .error (.whitespace whole)
  else evaluateChain whole (Chain.split whole)

/-- The value in hexadecimal digits; the empty expression gives the empty text. -/
def evaluateHex (t : Text) : Except ExpressionError Text :=
  if (t.before Byte.comma).isEmpty then .ok []
  else
    match evaluate t with
    | .ok value => .ok (Literal.hex value)
    | .error cause => .error cause

end Expression

end ColumnAssembler
