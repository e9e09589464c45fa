import ColumnAssembler.Proofs.EncodingSoundness
import ColumnAssembler.Proofs.OperatorChain
import ColumnAssembler.Proofs.SymbolReference

/-!
# Decorated operands

A hash, parentheses and index registers around an expression say how an instruction uses its value.
The mode is chosen by tests on the whole operand, but the value is taken from the operand without
what follows its first comma, and the other decoration is not stripped until the literals are read:
what opens the operand goes with its first literal and what closes it with its last one, whichever
literals these are. The main statement says that an operand keeps the value of its expression all
the same, and that its decoration selects the mode.
-/

namespace ColumnAssembler

namespace Text

/-- An ending with a comma is not found in a text without one. -/
theorem isSuffixOf_eq_false_of_comma (ending : Text) {t : Text} (hending : Byte.comma ∈ ending)
    (h : Byte.comma ∉ t) : ending.isSuffixOf t = false := by
  apply eq_false_of_ne_true
  intro hsuffix
  exact h ((List.isSuffixOf_iff_suffix.mp hsuffix).mem hending)

end Text

namespace Literal

/-- A hash or a parenthesis in front of a literal that begins with neither changes nothing. -/
theorem parse_cons {c : UInt8} (hc : c = Byte.openParen ∨ c = Byte.hash) {t : Text}
    (hopen : t.head? ≠ some Byte.openParen) (hhash : t.head? ≠ some Byte.hash) :
    parse (c :: t) = parse t := by
  have hbare : undecorated (c :: t) = undecorated t := by
    rw [undecorated, undecorated, Text.withoutStart_of_head?_ne hopen]
    rcases hc with rfl | rfl
    · rw [Text.withoutStart_cons]
    · have hother : (Byte.hash :: t).head? ≠ some Byte.openParen := by simp
      rw [Text.withoutStart_of_head?_ne hother, Text.withoutStart_cons,
        Text.withoutStart_of_head?_ne hhash]
  rw [parse, hbare, parse]

/-- A closing parenthesis behind a literal that ends with none changes nothing. -/
theorem parse_concat {t : Text} (h : t.getLast? ≠ some Byte.closeParen) :
    parse (t ++ [Byte.closeParen]) = parse t := by
  have hrest : (Text.withoutStart [Byte.hash] (Text.withoutStart [Byte.openParen] t)).getLast? ≠
      some Byte.closeParen :=
    fun hlast => h (Text.getLast?_withoutStart (Text.getLast?_withoutStart hlast))
  have hbare : undecorated (t ++ [Byte.closeParen]) = undecorated t := by
    rw [undecorated, undecorated, Text.withoutStart_concat (by decide),
      Text.withoutStart_concat (by decide), Text.withoutEnd_concat,
      Text.withoutEnd_of_getLast?_ne hrest]
  rw [parse, hbare, parse]

end Literal

namespace Chain

/-- Two links with the same operator and literals that are read alike. -/
def LinkAlike (link other : Operator × Text) : Prop :=
  link.1 = other.1 ∧ Literal.parse link.2 = Literal.parse other.2

/-- Links that are alike make the same step. -/
theorem LinkAlike.foldStep_eq {link other : Operator × Text} (h : LinkAlike link other)
    (value : Int64) : foldStep value link = foldStep value other := by
  rw [foldStep, foldStep, literalValue, literalValue, h.1, h.2]

/-- Chains whose literals are read alike have the same left fold. -/
theorem leftFold_congr {chain other : Chain}
    (hhead : Literal.parse chain.head = Literal.parse other.head)
    (hrest : List.Forall₂ LinkAlike chain.rest other.rest) : chain.leftFold = other.leftFold := by
  have hfold : ∀ (links others : List (Operator × Text)) (value : Int64),
      List.Forall₂ LinkAlike links others →
      links.foldlM foldStep value = others.foldlM foldStep value := by
    intro links others value halike
    induction halike generalizing value with
    | nil => rfl
    | cons hlink _ ih =>
      rw [List.foldlM_cons, List.foldlM_cons, hlink.foldStep_eq]
      exact bind_congr fun next => ih next
  rw [leftFold, leftFold, literalValue, literalValue, hhead]
  exact bind_congr fun first => hfold _ _ first hrest

/-- A chain with a byte behind the last of its operands. -/
def concatTo (b : UInt8) : Text → List (Operator × Text) → Chain
  | head, [] => ⟨head ++ [b], []⟩
  | head, (op, t) :: links => ⟨head, (op, (concatTo b t links).head) :: (concatTo b t links).rest⟩

/-- The chain with a byte behind its last operand. -/
def concat (chain : Chain) (b : UInt8) : Chain := concatTo b chain.head chain.rest

theorem concat_cons (chain : Chain) (c b : UInt8) :
    (chain.cons c).concat b = (chain.concat b).cons c := by
  obtain ⟨head, links⟩ := chain
  cases links <;> rfl

/-- A byte that is no quote and no operator, behind a text, goes to the last operand. -/
theorem splitFrom_concat {b : UInt8} (hquote : Text.isQuote b = false)
    (hoperator : Operator.ofByte? b = none) (quote : Option UInt8) (t : Text) :
    splitFrom quote (t ++ [b]) = (splitFrom quote t).concat b := by
  induction t generalizing quote with
  | nil =>
    cases quote with
    | some q => rfl
    | none =>
      have hplain : ∀ c ∈ [b], Text.isQuote c = false ∧ Operator.ofByte? c = none := by
        simpa using ⟨hquote, hoperator⟩
      exact split_of_plain hplain
  | cons c rest ih =>
    cases quote with
    | some q => rw [List.cons_append, splitFrom, ih, splitFrom, concat_cons]
    | none =>
      -- The byte closes no quoted span that the text leaves open.
      have hclosed : (Text.isQuote c && (rest ++ [b]).contains c) =
          (Text.isQuote c && rest.contains c) := by
        cases hc : Text.isQuote c with
        | false => rfl
        | true =>
          have hne : c ≠ b := by
            rintro rfl
            exact Bool.false_ne_true (hquote.symm.trans hc)
          simp [hne]
      rw [List.cons_append, splitFrom, hclosed, splitFrom]
      split
      · rw [ih, concat_cons]
      · split
        · rw [ih]
          rfl
        · rw [ih, concat_cons]

/-- A closing parenthesis behind a chain that ends with none leaves all literals as they are. -/
theorem alike_concatTo {head : Text} {links : List (Operator × Text)}
    (h : (text ⟨head, links⟩).getLast? ≠ some Byte.closeParen) :
    Literal.parse (concatTo Byte.closeParen head links).head = Literal.parse head ∧
      List.Forall₂ LinkAlike (concatTo Byte.closeParen head links).rest links := by
  induction links generalizing head with
  | nil =>
    have hhead : head.getLast? ≠ some Byte.closeParen := by simpa [text] using h
    exact ⟨Literal.parse_concat hhead, .nil⟩
  | cons link links ih =>
    have htail : (text ⟨link.2, links⟩).getLast? ≠ some Byte.closeParen := by
      intro hlast
      obtain ⟨front, hfront⟩ := List.getLast?_eq_some_iff.mp hlast
      apply h
      rw [text_link, hfront, ← List.cons_append, ← List.append_assoc, List.getLast?_concat]
    obtain ⟨hnext, hrest⟩ := ih htail
    exact ⟨rfl, .cons ⟨rfl, hnext⟩ hrest⟩

/-- A closing parenthesis behind a text that ends with none does not change its left fold. -/
theorem leftFold_split_concat {t : Text} (h : t.getLast? ≠ some Byte.closeParen) :
    (split (t ++ [Byte.closeParen])).leftFold = (split t).leftFold := by
  have htext : (split t).text.getLast? ≠ some Byte.closeParen := by rwa [split, text_splitFrom]
  obtain ⟨hhead, hrest⟩ := alike_concatTo htext
  rw [split, splitFrom_concat rfl rfl]
  exact leftFold_congr hhead hrest

/-- A hash or a parenthesis in front of a text that begins with neither does not change its left
fold. -/
theorem leftFold_split_cons {c : UInt8} (hc : c = Byte.openParen ∨ c = Byte.hash) {t : Text}
    (hopen : t.head? ≠ some Byte.openParen) (hhash : t.head? ≠ some Byte.hash) :
    (split (c :: t)).leftFold = (split t).leftFold := by
  have hplain : ∀ b ∈ [c], Text.isQuote b = false ∧ Operator.ofByte? b = none := by
    intro b hb
    rw [List.mem_singleton.mp hb]
    rcases hc with rfl | rfl <;> decide
  have hfirst : ∀ b, (split t).head.head? = some b → t.head? = some b := by
    intro b hb
    obtain ⟨rest, hrest⟩ := List.head?_eq_some_iff.mp hb
    have htext : (split t).text = t := text_splitFrom none t
    rw [← htext, text, hrest]
    rfl
  have hsplit : split (c :: t) = (split t).cons c := split_append_of_plain hplain t
  rw [hsplit]
  refine leftFold_congr (Literal.parse_cons hc ?_ ?_)
    (List.forall₂_same.mpr fun _ _ => ⟨rfl, rfl⟩)
  · exact fun h => hopen (hfirst _ h)
  · exact fun h => hhash (hfirst _ h)

end Chain

/-- The ways to write an expression as an operand. -/
inductive Decoration where
  /-- A hash in front. -/
  | immediate
  /-- The expression alone. -/
  | direct
  /-- Parentheses around it. -/
  | indirect
  /-- The register X behind it. -/
  | indexedX
  /-- The register Y behind it. -/
  | indexedY
  /-- The register X behind it, and parentheses around both. -/
  | indirectX
  /-- Parentheses around it, and the register Y behind them. -/
  | indirectY
  deriving DecidableEq, Repr

namespace Decoration

/-- The operand made of an expression. -/
def wrap (d : Decoration) (e : Text) : Text :=
  match d with
  | immediate => Text.ascii "#" ++ e
  | direct => e
  | indirect => Text.ascii "(" ++ e ++ Text.ascii ")"
  | indexedX => e ++ Text.ascii ",X"
  | indexedY => e ++ Text.ascii ",Y"
  | indirectX => Text.ascii "(" ++ e ++ Text.ascii ",X)"
  | indirectY => Text.ascii "(" ++ e ++ Text.ascii "),Y"

/-- The mode that a decorated operand selects for a mnemonic and a value. A mnemonic that lacks the
immediate mode takes an operand with a hash as one without; one that lacks an indexed indirect mode
takes the operand as an indirect one. -/
def mode (d : Decoration) (modes : Encodings) (value : Int64) : Mode :=
  match d with
  | immediate =>
    if modes.supports .immediate then .immediate
    else if FitsByte value then .zeroPage else .absolute
  | direct => if FitsByte value then .zeroPage else .absolute
  | indirect => .indirect
  | indexedX => if FitsByte value then .zeroPageX else .absoluteX
  | indexedY => if FitsByte value then .zeroPageY else .absoluteY
  | indirectX => if modes.supports .indirectX then .indirectX else .indirect
  | indirectY => if modes.supports .indirectY then .indirectY else .indirect

/-- What stands in front of the expression. -/
def opening : Decoration → Text
  | immediate => [Byte.hash]
  | indirect | indirectX | indirectY => [Byte.openParen]
  | direct | indexedX | indexedY => []

/-- What stands between the expression and the comma. -/
def closing : Decoration → Text
  | indirect | indirectY => [Byte.closeParen]
  | immediate | direct | indexedX | indexedY | indirectX => []

/-- What stands from the comma on. -/
def register : Decoration → Text
  | immediate | direct | indirect => []
  | indexedX => Text.ascii ",X"
  | indexedY | indirectY => Text.ascii ",Y"
  | indirectX => Text.ascii ",X)"

/-- A decorated operand in its parts. -/
theorem wrap_eq (d : Decoration) (e : Text) :
    d.wrap e = d.opening ++ (e ++ d.closing) ++ d.register := by
  cases d <;> simp [wrap, opening, closing, register, Text.ascii]

/-- An expression without decoration of its own: it has no comma, begins with no parenthesis or
hash and does not end with a parenthesis. -/
structure Bare (e : Text) : Prop where
  /-- There is no index register. -/
  comma : Byte.comma ∉ e
  /-- It does not begin with a parenthesis. -/
  paren : e.head? ≠ some Byte.openParen
  /-- It does not begin with a hash. -/
  hash : e.head? ≠ some Byte.hash
  /-- It does not end with a parenthesis. -/
  closed : e.getLast? ≠ some Byte.closeParen

variable {e : Text} {value : Int64}

/-- What closes an operand does not change the left fold of its expression. -/
theorem leftFold_closing (h : Bare e) (d : Decoration) :
    (Chain.split (e ++ d.closing)).leftFold = (Chain.split e).leftFold := by
  have hkept : (Chain.split (e ++ [])).leftFold = (Chain.split e).leftFold := by
    rw [List.append_nil]
  cases d with
  | indirect | indirectY => exact Chain.leftFold_split_concat h.closed
  | immediate | direct | indexedX | indexedY | indirectX => exact hkept

/-- What opens an operand does not change its left fold. -/
theorem leftFold_opening (h : Bare e) (d : Decoration) :
    (Chain.split (d.opening ++ (e ++ d.closing))).leftFold = (Chain.split e).leftFold := by
  have hfirst : ∀ c, c ≠ Byte.closeParen → e.head? ≠ some c → (e ++ d.closing).head? ≠ some c := by
    intro c hc hhead
    cases e with
    | nil => cases d <;> simp [closing] <;> exact fun h => hc h.symm
    | cons b rest => exact hhead
  have hparen := hfirst Byte.openParen (by decide) h.paren
  have hhash := hfirst Byte.hash (by decide) h.hash
  rw [← leftFold_closing h d]
  cases d with
  | immediate => exact Chain.leftFold_split_cons (.inr rfl) hparen hhash
  | indirect | indirectX | indirectY => exact Chain.leftFold_split_cons (.inl rfl) hparen hhash
  | direct | indexedX | indexedY => rfl

/-- A decorated operand has the value of its expression. -/
theorem evaluate_wrap (h : Bare e) (hvalue : Expression.evaluate e = .ok value) (d : Decoration) :
    Expression.evaluate (d.wrap e) = .ok value := by
  have hcomma : Byte.comma ∉ d.opening ++ (e ++ d.closing) := by
    cases d <;> simpa [opening, closing] using h.comma
  have hregister : d.register = [] ∨ d.register.head? = some Byte.comma := by
    cases d <;> decide
  have hplain : e.before Byte.comma = e := by
    simpa using Text.before_append h.comma (.inl rfl)
  rw [Expression.evaluate_ok_iff, hplain] at hvalue
  have hseparator : (d.opening ++ (e ++ d.closing)).any Text.isSeparator = false := by
    have hopening : d.opening.any Text.isSeparator = false := by cases d <;> rfl
    have hclosing : d.closing.any Text.isSeparator = false := by cases d <;> rfl
    rw [List.any_append, List.any_append, hopening, hclosing, hvalue.1]
    rfl
  rw [Expression.evaluate_ok_iff, wrap_eq, Text.before_append hcomma hregister,
    leftFold_opening h d]
  exact ⟨hseparator, hvalue.2⟩

end Decoration

/-- An operand that evaluates is not empty and does not name the accumulator. -/
theorem Encodings.hasValue_of_evaluate {operand : Text} {value : Int64}
    (h : Expression.evaluate operand = .ok value) (modes : Encodings) :
    modes.hasValue operand = true := by
  have hempty : operand ≠ [] := by
    rintro rfl
    simp [Expression.evaluate, Text.before] at h
  have haccumulator : operand ≠ Text.ascii "A" := by
    rintro rfl
    exact Expression.evaluate_ne_ok (by decide) value h
  simp [hasValue, isAccumulatorOperand, hempty, haccumulator]

namespace Decoration

variable {e : Text} {value : Int64}

/-- The first of two candidates that has an opcode, or the second one. -/
theorem find?_pair (modes : Encodings) (first second : Mode) :
    [first, second].find? modes.supports =
      [if modes.supports first then first else second].find? modes.supports := by
  cases h : modes.supports first <;> simp [h]

/-- Modes that are chosen by width, for the width of a value. -/
theorem byWidth_of (value : Int64) (narrow wide : List Mode) :
    Encodings.byWidth (Width.of value) narrow wide = if FitsByte value then narrow else wide := by
  by_cases hfits : FitsByte value
  · rw [(Width.of_eq_byte_iff value).mpr hfits, if_pos hfits]
    simp [Encodings.byWidth, Width.isNarrow, Width.isWide]
  · rw [(Width.of_eq_word_iff value).mpr hfits, if_neg hfits]
    simp [Encodings.byWidth, Width.isNarrow, Width.isWide]

/-- The modes that a decoration leaves to the width of the value and to the mnemonic. -/
def candidates (d : Decoration) (modes : Encodings) (width : Width) : List Mode :=
  match d with
  | immediate =>
    if modes.supports .immediate then [.immediate]
    else Encodings.byWidth width [.relative, .zeroPage] [.absolute]
  | direct => Encodings.byWidth width [.relative, .zeroPage] [.absolute]
  | indirect => [.indirect]
  | indexedX => Encodings.byWidth width [.zeroPageX] [.absoluteX]
  | indexedY => Encodings.byWidth width [.zeroPageY] [.absoluteY]
  | indirectX => [.indirectX, .indirect]
  | indirectY => [.indirectY, .indirect]

/-- The tests on the whole operand find its decoration. -/
theorem candidates_wrap (h : Bare e) {modes : Encodings} (d : Decoration)
    (hvalue : modes.hasValue (d.wrap e) = true) (width : Width) :
    modes.candidates (d.wrap e) width = d.candidates modes width := by
  have hends : ∀ front ending : Text, ending.isSuffixOf (front ++ ending) = true :=
    fun front ending => List.isSuffixOf_iff_suffix.mpr (List.suffix_append front ending)
  -- Behind an expression a register begins, if anything, so the first byte is that of neither.
  have hfirst : ∀ (c last : UInt8), c ≠ Byte.comma → e.head? ≠ some c →
      [c].isPrefixOf (e ++ [Byte.comma, last]) = false := by
    intro c last hc hhead
    apply eq_false_of_ne_true
    rw [Text.singleton_isPrefixOf_iff]
    cases e with
    | nil => exact fun hsome => hc (Option.some.inj hsome).symm
    | cons b rest => exact hhead
  have hparen : [Byte.openParen].isPrefixOf e = false :=
    eq_false_of_ne_true fun hstart => h.paren (Text.singleton_isPrefixOf_iff.mp hstart)
  have hhash : [Byte.hash].isPrefixOf e = false :=
    eq_false_of_ne_true fun hstart => h.hash (Text.singleton_isPrefixOf_iff.mp hstart)
  rw [Encodings.candidates, hvalue, Bool.not_true, if_neg Bool.false_ne_true]
  cases d with
  | immediate =>
    have hplain : Byte.comma ∉ Byte.hash :: e := by simpa using h.comma
    have hx := Text.isSuffixOf_eq_false_of_comma (Text.ascii ",X") (by decide) hplain
    have hy := Text.isSuffixOf_eq_false_of_comma (Text.ascii ",Y") (by decide) hplain
    have hwrap : immediate.wrap e = Byte.hash :: e := rfl
    rw [hwrap, hx, hy, candidates]
    cases modes.supports .immediate <;> rfl
  | direct =>
    have hx := Text.isSuffixOf_eq_false_of_comma (Text.ascii ",X") (by decide) h.comma
    have hy := Text.isSuffixOf_eq_false_of_comma (Text.ascii ",Y") (by decide) h.comma
    have hwrap : direct.wrap e = e := rfl
    rw [hwrap, hhash, hparen, hx, hy]
    rfl
  | indirect =>
    have hplain : Byte.comma ∉ Byte.openParen :: (e ++ [Byte.closeParen]) := by
      simpa using h.comma
    have hx := Text.isSuffixOf_eq_false_of_comma (Text.ascii ",X)") (by decide) hplain
    have hy := Text.isSuffixOf_eq_false_of_comma (Text.ascii "),Y") (by decide) hplain
    have hwrap : indirect.wrap e = Byte.openParen :: (e ++ [Byte.closeParen]) := rfl
    rw [hwrap, hx, hy]
    rfl
  | indexedX =>
    have hx := hends e (Text.ascii ",X")
    have hwrap : indexedX.wrap e = e ++ Text.ascii ",X" := rfl
    have hnotHash := hfirst Byte.hash 0x58 (by decide) h.hash
    have hnotParen := hfirst Byte.openParen 0x58 (by decide) h.paren
    rw [hwrap, hx]
    have hregister : Text.ascii ",X" = [Byte.comma, 0x58] := rfl
    rw [hregister, hnotHash, hnotParen]
    rfl
  | indexedY =>
    have hy := hends e (Text.ascii ",Y")
    have hx := Text.isSuffixOf_eq_false (f := Text.ascii ",X") hy rfl (by decide)
    have hnotHash := hfirst Byte.hash 0x59 (by decide) h.hash
    have hnotParen := hfirst Byte.openParen 0x59 (by decide) h.paren
    have hwrap : indexedY.wrap e = e ++ Text.ascii ",Y" := rfl
    rw [hwrap, hx, hy]
    have hregister : Text.ascii ",Y" = [Byte.comma, 0x59] := rfl
    rw [hregister, hnotHash, hnotParen]
    rfl
  | indirectX =>
    have hx := hends (Byte.openParen :: e) (Text.ascii ",X)")
    have hy := Text.isSuffixOf_eq_false (f := Text.ascii "),Y") hx rfl (by decide)
    have hwrap : indirectX.wrap e = Byte.openParen :: e ++ Text.ascii ",X)" := rfl
    rw [hwrap, hx, hy]
    rfl
  | indirectY =>
    have hy := hends (Byte.openParen :: e) (Text.ascii "),Y")
    have hwrap : indirectY.wrap e = Byte.openParen :: e ++ Text.ascii "),Y" := rfl
    rw [hwrap, hy]
    rfl

/-- The mode of a decorated operand is inferred if the mnemonic has it, and else none. -/
theorem infer_wrap (h : Bare e) {modes : Encodings} (d : Decoration)
    (hvalue : modes.hasValue (d.wrap e) = true) (hrelative : modes.supports .relative = false) :
    modes.infer (d.wrap e) (Width.of value) = [d.mode modes value].find? modes.supports := by
  have hdirect : (Encodings.byWidth (Width.of value) [.relative, .zeroPage] [.absolute]).find?
      modes.supports = [if FitsByte value then .zeroPage else .absolute].find? modes.supports := by
    rw [byWidth_of]
    split
    · exact List.find?_cons_of_neg (by rw [hrelative]; exact Bool.false_ne_true)
    · rfl
  have hindexed : ∀ narrow wide : Mode,
      (Encodings.byWidth (Width.of value) [narrow] [wide]).find? modes.supports =
        [if FitsByte value then narrow else wide].find? modes.supports := by
    intro narrow wide
    rw [byWidth_of]
    split <;> rfl
  rw [Encodings.infer, candidates_wrap h d hvalue]
  cases d with
  | immediate =>
    rw [candidates, mode]
    by_cases himmediate : modes.supports .immediate = true
    · rw [if_pos himmediate, if_pos himmediate]
    · rw [if_neg himmediate, if_neg himmediate, hdirect]
  | direct => exact hdirect
  | indirect => rfl
  | indexedX | indexedY => exact hindexed _ _
  | indirectX | indirectY => exact find?_pair modes _ _

end Decoration

namespace Instruction

/-- An instruction of no branch whose operand has no known name in it is encoded with the mode that
the operand selects for its value, or marked when there is none. -/
theorem create?_of_value {source : SourceLine} {table : SymbolTable} {value : Int64}
    {modes : Encodings} (hmodes : EncodingTable.lookup source.mnemonic = some modes)
    (hbranch : modes.supports .relative = false)
    (habsent : ∀ s ∈ table.symbols, ¬ s.name <:+: source.operand)
    (hvalue : Expression.evaluate source.operand = .ok value) (address : UInt16) :
    ∃ i, create? source address table = some i ∧
      (∀ mode opcode, modes.infer source.operand (Width.of value) = some mode →
        modes.opcode? mode = some opcode →
        i.encoding = .complete mode opcode (params (some value))) ∧
      (modes.infer source.operand (Width.of value) = none →
        i.encoding = .marked .badAddressMode) := by
  have hfold : table.byLength.foldl substituteKnown (start source address) =
      start source address :=
    foldl_substituteKnown_of_absent fun s hs => habsent s (SymbolTable.mem_byLength.mp hs)
  have hown : (start source address).modes = modes := by
    rw [Instruction.modes, EncodingTable.encodings, start, hmodes]
    rfl
  have hrelative : (start source address).isRelative = false := by
    rw [isRelative_eq_supports, hown, hbranch]
  have hstart : Expression.evaluate (start source address).operand = .ok value := hvalue
  have hoperand : (start source address).operandValue = .ok (some value) := by
    rw [operandValue, if_pos (Encodings.hasValue_of_evaluate hstart _), hstart]
  have hsome : create? source address table = some { start source address with
      encoding := (start source address).encodingOf (some value) } := by
    rw [create?, hmodes, Option.isNone_some, if_neg Bool.false_ne_true, hfold, encodeOrDefer,
      hoperand]
  have hencoding : ∀ found, modes.infer source.operand (Width.of value) = found →
      (start source address).modes.infer (start source address).operand (widthOf (some value)) =
        found := fun found hfound => hown.symm ▸ hfound
  refine ⟨_, hsome, fun mode opcode hmode hopcode => ?_, fun hnone => ?_⟩
  · rw [encodingOf, hrelative, Bool.false_and, if_neg Bool.false_ne_true, hencoding _ hmode]
    dsimp only
    rw [hown, hopcode, Option.getD_some]
  · rw [encodingOf, hrelative, Bool.false_and, if_neg Bool.false_ne_true, hencoding _ hnone]

/-- A decorated operand has the value of its expression, and in an instruction that is no branch and
has no known name in its operand the decoration selects the mode. If the mnemonic has the mode, the
instruction is encoded with the opcode for it and the low part of the value, in one byte if it fits
there and in two otherwise; if not, it is marked and emits nothing. -/
theorem decoration_selects_mode (e : Text) (value : Int64) (h : Decoration.Bare e)
    (hvalue : Expression.evaluate e = .ok value) (d : Decoration) :
    Expression.evaluate (d.wrap e) = .ok value ∧
      ∀ (source : SourceLine) (address : UInt16) (table : SymbolTable) (modes : Encodings),
        EncodingTable.lookup source.mnemonic = some modes →
        EncodingTable.isRelative source.mnemonic = false → source.operand = d.wrap e →
        (∀ s ∈ table.symbols, ¬ s.name <:+: source.operand) →
        ∃ i, create? source address table = some i ∧
          (∀ opcode, modes.opcode? (d.mode modes value) = some opcode →
            i.marker? = none ∧ i.mode? = some (d.mode modes value) ∧
              ∃ operand, i.bytes = opcode :: operand ∧
                (FitsByte value → IsLowPart 1 value operand) ∧
                (¬ FitsByte value → IsLowPart 2 value operand)) ∧
          (modes.opcode? (d.mode modes value) = none →
            i.marker? = some .badAddressMode ∧ i.mode? = none ∧ i.bytes = [] ∧ i.length = 0) := by
  have hwrap := Decoration.evaluate_wrap h hvalue d
  refine ⟨hwrap, fun source address table modes hmodes hbranch hoperand habsent => ?_⟩
  have hrelative : modes.supports .relative = false := by
    rw [EncodingTable.isRelative_eq_supports, EncodingTable.encodings, hmodes] at hbranch
    exact hbranch
  have hinfer : modes.infer (d.wrap e) (Width.of value) =
      [d.mode modes value].find? modes.supports :=
    Decoration.infer_wrap h d (Encodings.hasValue_of_evaluate hwrap modes) hrelative
  rw [← hoperand] at hwrap hinfer
  obtain ⟨i, hcreate, hcomplete, hmarked⟩ :=
    create?_of_value hmodes hrelative habsent hwrap address
  refine ⟨i, hcreate, fun opcode hopcode => ?_, fun hnone => ?_⟩
  · have hmode : modes.infer source.operand (Width.of value) = some (d.mode modes value) := by
      rw [hinfer, List.find?_cons_of_pos (by rw [Encodings.supports, hopcode]; rfl)]
    have hencoding := hcomplete _ _ hmode hopcode
    exact ⟨by rw [marker?, hencoding], by rw [mode?, hencoding], params (some value),
      by rw [bytes, hencoding], isLowPart_params value⟩
  · have hmode : modes.infer source.operand (Width.of value) = none := by
      rw [hinfer, List.find?_cons_of_neg (by rw [Encodings.supports, hnone]; decide)]
      rfl
    have hencoding := hmarked hmode
    exact ⟨by rw [marker?, hencoding], by rw [mode?, hencoding], by rw [bytes, hencoding],
      by rw [length, hencoding]⟩

/-- The expression has a quoted parenthesis at its end, and the parentheses around it go with two
different literals. A load takes its value in the indexed indirect mode; a jump has no mode for it
with a register behind it. -/
theorem decoration_selects_mode_quoted :
    let e := Text.ascii "1+'('"
    let load : SourceLine := ⟨1, [], [], Text.ascii "LDA", Text.ascii "(1+'('),Y"⟩
    let jump : SourceLine := ⟨1, [], [], Text.ascii "JMP", Text.ascii "1+'(',X"⟩
    let table : SymbolTable := ⟨[⟨Text.ascii "NAME", 5⟩]⟩
    Decoration.Bare e ∧ Expression.evaluate e = .ok 41 ∧
      Expression.evaluate load.operand = .ok 41 ∧
      (∃ i, create? load 0x8000 table = some i ∧ i.mode? = some .indirectY ∧
        ∃ operand, i.bytes = 0xB1 :: operand ∧ IsLowPart 1 41 operand) ∧
      ∃ i, create? jump 0x8000 table = some i ∧ i.marker? = some .badAddressMode ∧
        i.bytes = [] := by
  intro e load jump table
  have hbare : Decoration.Bare e := ⟨by decide, by decide, by decide, by decide⟩
  have hvalue : Expression.evaluate e = .ok 41 := by decide +kernel
  have hload := decoration_selects_mode e 41 hbare hvalue .indirectY
  have hjump := decoration_selects_mode e 41 hbare hvalue .indexedX
  obtain ⟨i, hi, hencoded, _⟩ := hload.2 load 0x8000 table _ rfl (by decide) rfl (by decide +kernel)
  obtain ⟨j, hj, _, hmarked⟩ := hjump.2 jump 0x8000 table _ rfl (by decide) rfl (by decide +kernel)
  obtain ⟨_, hmode, operand, hbytes, hlow, _⟩ := hencoded 0xB1 (by decide)
  obtain ⟨hmarker, _, hnone, _⟩ := hmarked (by decide)
  exact ⟨hbare, hvalue, hload.1, ⟨i, hi, hmode, operand, hbytes, hlow (by decide)⟩, j, hj, hmarker,
    hnone⟩

end Instruction

end ColumnAssembler
