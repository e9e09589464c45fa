import ColumnAssembler.Proofs.OperandForm
import ColumnAssembler.Proofs.SecondPass
import ColumnAssembler.Proofs.SymbolNames

/-!
# References to symbols

An operand that is the name of a symbol is meant to be encoded as its value. Names are replaced in
the text of the operand, so other names can come between: a name known before the symbol may occur
in the name of a symbol that is not known yet, a name replaced after the symbol may occur in the
literal of its value, and a name that is a number has a value before it is defined. The main
statement says that a reference free of these means its symbol, whether it is defined before or
after the reference.
-/

namespace ColumnAssembler

namespace Symbol

/-- The mode of an operand that is the value of the symbol. -/
def addressMode (s : Symbol) : Mode := if s.value.toNat ≤ 0xFF then .zeroPage else .absolute

/-- The value of the symbol as operand bytes, low byte first. -/
def addressBytes (s : Symbol) : List UInt8 :=
  if s.value.toNat ≤ 0xFF then [UInt8.ofNat s.value.toNat]
  else [UInt8.ofNat s.value.toNat, UInt8.ofNat (s.value.toNat / 0x100)]

/-- The literal of the value of the symbol. -/
def literal (s : Symbol) : Text := Literal.ofAddress s.value.toNat

/-- A value is within the range of literals. -/
theorem value_le (s : Symbol) : s.value.toNat ≤ Literal.maxValue :=
  Nat.le_trans (Nat.le_of_lt s.value.toNat_lt) (by decide)

/-- A literal has no syntax around it. -/
theorem form_literal (s : Symbol) : OperandForm.of s.literal = .direct := by
  have hcomma : Byte.comma ∉ s.literal :=
    Literal.not_mem_of_isForeign (t := [Byte.comma]) rfl List.mem_cons_self _
  have hparen : [Byte.openParen].isPrefixOf s.literal = false := by
    rw [literal, Literal.ofAddress_eq s.value_le]
    rfl
  have hend : ∀ register, [Byte.comma, register].isSuffixOf s.literal = false := by
    intro register
    apply eq_false_of_ne_true
    intro hsuffix
    exact hcomma ((List.isSuffixOf_iff_suffix.mp hsuffix).mem List.mem_cons_self)
  have hx : (Text.ascii ",X").isSuffixOf s.literal = false := hend 0x58
  have hy : (Text.ascii ",Y").isSuffixOf s.literal = false := hend 0x59
  rw [OperandForm.of, hparen, hx, hy]
  rfl

/-- A literal has a value to evaluate. -/
theorem hasValue_literal (s : Symbol) (modes : Encodings) : modes.hasValue s.literal = true := by
  rw [literal, Literal.ofAddress_eq s.value_le, Encodings.hasValue, Encodings.isAccumulatorOperand]
  rfl

/-- An address takes two bytes exactly when it is not in the first page. -/
theorem width_value (s : Symbol) : Width.of (Int64.ofNat s.value.toNat) =
    if s.value.toNat ≤ 0xFF then .byte else .word := by
  have hvalue := Literal.toInt_ofNat s.value_le
  have hsign : ¬ Int64.ofNat s.value.toNat < 0 := by
    rw [Int64.lt_iff_toInt_lt, hvalue]
    exact Int.not_lt.mpr (Int.natCast_nonneg _)
  have hwide : 0xFF < Int64.ofNat s.value.toNat ↔ ¬ s.value.toNat ≤ 0xFF := by
    have hbound : (0xFF : Int64).toInt = 0xFF := rfl
    rw [Int64.lt_iff_toInt_lt, hvalue, hbound]
    omega
  by_cases hpage : s.value.toNat ≤ 0xFF <;> simp [Width.of, hsign, hwide, hpage]

/-- The operand bytes of a value. -/
theorem params_value (s : Symbol) :
    Instruction.params (some (Int64.ofNat s.value.toNat)) = s.addressBytes := by
  have hvalue := Literal.toInt_ofNat s.value_le
  have hlow : ∀ n : Nat, UInt8.ofInt (n : Int) = UInt8.ofNat n := by
    intro n
    have hmod : ((n : Int) % 2 ^ 8).toNat = n % 2 ^ 8 := by omega
    rw [UInt8.ofInt, hmod]
    exact UInt8.ofNat_mod_size
  rw [Instruction.params, width_value, hvalue, addressBytes, hlow]
  by_cases hpage : s.value.toNat ≤ 0xFF
  · simp [hpage]
  · simp only [hpage, if_false, if_true]
    rw [← hlow (s.value.toNat / 0x100), Int.natCast_ediv]
    rfl

/-- Apart from a displacement, the value of a symbol selects no other mode. -/
theorem infer_literal {s : Symbol} {modes : Encodings} {mode : Mode}
    (hrelative : modes.supports .relative = false)
    (h : modes.infer s.literal (Width.of (Int64.ofNat s.value.toNat)) = some mode) :
    mode = s.addressMode := by
  have himmediate : modes.isImmediate s.literal = false := by
    rw [Encodings.isImmediate, literal, Literal.ofAddress_eq s.value_le]
    rfl
  have hsupported := Encodings.supports_of_infer h
  have hmem := List.mem_of_find?_eq_some h
  rw [Encodings.candidates_eq (s.hasValue_literal modes) himmediate, form_literal, width_value]
    at hmem
  by_cases hpage : s.value.toNat ≤ 0xFF
  · simp only [hpage, if_true] at hmem
    have hnarrow : mode = .relative ∨ mode = .zeroPage := by
      simpa [Encodings.byWidth, Width.isNarrow, Width.isWide] using hmem
    rcases hnarrow with rfl | rfl
    · rw [hrelative] at hsupported
      exact absurd hsupported Bool.false_ne_true
    · rw [addressMode, if_pos hpage]
  · simp only [hpage, if_false] at hmem
    have hwide : mode = .absolute := by
      simpa [Encodings.byWidth, Width.isNarrow, Width.isWide] using hmem
    rw [hwide, addressMode, if_neg hpage]

end Symbol

namespace SymbolTable

/-- The symbols that are replaced after the given one. -/
def replacedAfter (table : SymbolTable) (s : Symbol) : List Symbol :=
  (table.byLength.dropWhile (· ≠ s)).tail

/-- No other name comes between a symbol and its name as an operand, given the symbols known where
the operand stands. For a known symbol, no name replaced after it occurs in the literal of its
value. For one not known yet, no known name occurs in its name, which has no value of its own. -/
def Unambiguous (known : SymbolTable) (s : Symbol) : Prop :=
  (s ∈ known.symbols → ∀ t ∈ known.replacedAfter s, ¬ t.name <:+: s.literal) ∧
    (s ∉ known.symbols → (∀ t ∈ known.symbols, ¬ t.name <:+: s.name) ∧
      (Expression.evaluate s.name).isOk = false)

instance (known : SymbolTable) (s : Symbol) : Decidable (known.Unambiguous s) :=
  inferInstanceAs (Decidable (_ ∧ _))

/-- The symbols replaced before a known one have other names that are no shorter. -/
theorem Named.byLength_split {table : SymbolTable} (h : table.Named) {s : Symbol}
    (hs : s ∈ table.symbols) :
    ∃ earlier, table.byLength = earlier ++ s :: table.replacedAfter s ∧
      ∀ t ∈ earlier, ¬ t.name <:+: s.name := by
  obtain ⟨earlier, later, hsplit, hfirst⟩ := List.eq_append_cons_of_mem (mem_byLength.mpr hs)
  have hlater : table.replacedAfter s = later := by
    have hdrop : table.byLength.dropWhile (· ≠ s) = s :: later := by
      rw [hsplit, List.dropWhile_append_of_pos, List.dropWhile_cons_of_neg]
      · simp
      · intro t ht
        rw [decide_eq_true_eq]
        rintro rfl
        exact hfirst ht
    rw [replacedAfter, hdrop, List.tail_cons]
  refine ⟨earlier, by rw [hlater, hsplit], ?_⟩
  intro t ht hoccurs
  have hsorted := table.pairwise_byLength
  rw [hsplit, List.pairwise_append] at hsorted
  have hlong : s.name.length ≤ t.name.length := hsorted.2.2 t ht s List.mem_cons_self
  have hmem : t ∈ table.symbols := by
    rw [← mem_byLength, hsplit]
    exact List.mem_append_left _ ht
  have hsame : t = s := h.eq_of_name_eq hmem hs (hoccurs.eq_of_length_le hlong)
  exact hfirst (hsame ▸ ht)

end SymbolTable

namespace Instruction

/-- Names that do not occur in the operand leave the instruction as it is. -/
theorem foldl_substituteKnown_of_absent {symbols : List Symbol} {i : Instruction}
    (h : ∀ t ∈ symbols, ¬ t.name <:+: i.operand) : symbols.foldl substituteKnown i = i := by
  induction symbols with
  | nil => rfl
  | cons s rest ih =>
    have habsent : ¬ s.name.occursIn i.operand = true := by
      rw [Text.occursIn_iff]
      exact h s List.mem_cons_self
    rw [List.foldl_cons, substituteKnown, if_neg habsent]
    exact ih fun t ht => h t (List.mem_cons_of_mem s ht)

/-- The name of a symbol as the operand of no branch is replaced by the literal of its value. -/
theorem operand_substitute_name {i : Instruction} {s : Symbol} (hrelative : i.isRelative = false)
    (hname : s.name ≠ []) (hoperand : i.operand = s.name) :
    (i.substitute s).operand = s.literal := by
  rw [substitute, hrelative, if_neg Bool.false_ne_true]
  dsimp only
  rw [hoperand, Text.replaceAll_self hname]
  rfl

/-- The name of a known symbol as the operand is replaced once if no name replaced after it occurs
in what takes its place. -/
theorem foldl_substituteKnown_of_name {table : SymbolTable} (hnamed : table.Named) {s : Symbol}
    (hs : s ∈ table.symbols) {i : Instruction} (hoperand : i.operand = s.name)
    (hlater : ∀ t ∈ table.replacedAfter s, ¬ t.name <:+: (i.substitute s).operand) :
    table.byLength.foldl substituteKnown i = i.substitute s := by
  obtain ⟨earlier, hsplit, hearlier⟩ := hnamed.byLength_split hs
  have hbefore : earlier.foldl substituteKnown i = i :=
    foldl_substituteKnown_of_absent (by rwa [hoperand])
  have hhere : i.substituteKnown s = i.substitute s := by
    have hoccurs : s.name.occursIn i.operand = true :=
      (Text.occursIn_iff _ _).mpr (hoperand ▸ List.infix_refl s.name)
    rw [substituteKnown, if_pos hoccurs]
  rw [hsplit, List.foldl_append, hbefore, List.foldl_cons, hhere,
    foldl_substituteKnown_of_absent hlater]

/-- With all known names replaced, the name of a known symbol is the literal of its value. -/
theorem operand_foldl_of_known {table : SymbolTable} (hnamed : table.Named) {s : Symbol}
    (hs : s ∈ table.symbols) {i : Instruction} (hrelative : i.isRelative = false)
    (hoperand : i.operand = s.name)
    (hlater : ∀ t ∈ table.replacedAfter s, ¬ t.name <:+: s.literal) :
    (table.byLength.foldl substituteKnown i).operand = s.literal := by
  have hliteral := operand_substitute_name hrelative (hnamed.nonempty s hs) hoperand
  rw [foldl_substituteKnown_of_name hnamed hs hoperand (by rwa [hliteral]), hliteral]

/-- A created instruction has the operand in which the known names were replaced. -/
theorem operand_create? {source : SourceLine} {address : UInt16} {table : SymbolTable}
    {i : Instruction} (h : create? source address table = some i) :
    i.operand = (table.byLength.foldl substituteKnown (start source address)).operand := by
  rw [create?_eq_some h, encodeOrDefer]
  split <;> rfl

/-- An operand that is the literal of a symbol has the value of the symbol. -/
theorem operandValue_literal {i : Instruction} {s : Symbol} (h : i.operand = s.literal) :
    i.operandValue = .ok (some (Int64.ofNat s.value.toNat)) := by
  have hvalue : i.modes.hasValue i.operand = true := by
    rw [h]
    exact s.hasValue_literal i.modes
  rw [operandValue, hvalue, if_pos rfl, h, Symbol.literal, Expression.evaluate_ofAddress s.value_le]

/-- The name of a known symbol, with nothing in between, leaves no pending instruction. -/
theorem create?_of_known {source : SourceLine} {address : UInt16} {table : SymbolTable}
    {i : Instruction} (h : create? source address table = some i) (hnamed : table.Named)
    {s : Symbol} (hs : s ∈ table.symbols) (hrelative : i.isRelative = false)
    (hoperand : source.operand = s.name)
    (hlater : ∀ t ∈ table.replacedAfter s, ¬ t.name <:+: s.literal) :
    i.isPending = false ∧ i.operand = s.literal := by
  have hstart : (start source address).isRelative = false := by
    rw [isRelative, (samePlace_create? h).1] at hrelative
    exact hrelative
  have hliteral : i.operand = s.literal := by
    rw [operand_create? h]
    exact operand_foldl_of_known hnamed hs hstart hoperand hlater
  refine ⟨?_, hliteral⟩
  cases hp : i.isPending with
  | false => rfl
  | true =>
    obtain ⟨cause, herror⟩ := create?_pending h hp
    rw [operandValue_literal hliteral] at herror
    exact absurd herror (by simp)

/-- The name of a symbol that is not known, with nothing in between, is left as it is. -/
theorem create?_of_unknown {source : SourceLine} {address : UInt16} {table : SymbolTable}
    {i : Instruction} (h : create? source address table = some i) {s : Symbol}
    (hname : s.name ≠ []) (hoperand : source.operand = s.name)
    (haccumulator : i.modes.isAccumulatorOperand s.name = false)
    (hknown : ∀ t ∈ table.symbols, ¬ t.name <:+: s.name)
    (hvalue : (Expression.evaluate s.name).isOk = false) :
    i.isPending = true ∧ i.operand = s.name := by
  have hsame : i.operand = s.name := by
    rw [operand_create? h, foldl_substituteKnown_of_absent]
    · exact hoperand
    · intro t ht
      rw [start, hoperand]
      exact hknown t (SymbolTable.mem_byLength.mp ht)
  refine ⟨?_, hsame⟩
  cases hp : i.isPending with
  | true => rfl
  | false =>
    obtain ⟨value, hok, _⟩ := create?_settled h hp
    have hhas : i.modes.hasValue i.operand = true := by
      simp [Encodings.hasValue, hsame, haccumulator, hname]
    rw [operandValue, hhas, if_pos rfl, hsame] at hok
    cases heval : Expression.evaluate s.name with
    | ok result =>
      rw [heval] at hvalue
      exact absurd hvalue (by simp [Except.isOk, Except.toBool])
    | error cause =>
      rw [heval] at hok
      exact absurd hok (by simp)

/-- An encoded operand that is the literal of a symbol has the bytes of its value. -/
theorem bytes_of_literal {i : Instruction} {s : Symbol} {value : Option Int64}
    (hrelative : i.isRelative = false) (hoperand : i.operand = s.literal)
    (hvalue : i.operandValue = .ok value) (hencoding : i.encoding = i.encodingOf value)
    (hmarker : i.marker? = none) :
    ∃ opcode, i.modes.opcode? s.addressMode = some opcode ∧ i.bytes = opcode :: s.addressBytes := by
  rw [operandValue_literal hoperand, Except.ok.injEq] at hvalue
  subst hvalue
  rcases encodingOf_cases i (some (Int64.ofNat s.value.toNat)) with
    ⟨marker, hmarked⟩ | ⟨mode, opcode, hmode, hopcode, hcomplete, _⟩
  · rw [marker?, hencoding, hmarked] at hmarker
    exact absurd hmarker (by simp)
  · rw [hoperand] at hmode
    rw [isRelative_eq_supports] at hrelative
    have haddress : mode = s.addressMode := Symbol.infer_literal hrelative hmode
    refine ⟨opcode, by rw [← haddress, hopcode], ?_⟩
    rw [bytes, hencoding, hcomplete, Symbol.params_value]

/-- A reference with nothing in between is encoded with the literal of its symbol in the end. -/
theorem resolve_reference {source : SourceLine} {address : UInt16} {known table : SymbolTable}
    {i : Instruction} (h : create? source address known = some i) (hok : (i.resolve table).2 = none)
    (hknown : known.Named) (htable : table.Named) {s : Symbol} (hs : s ∈ table.symbols)
    (hrelative : i.isRelative = false) (hoperand : source.operand = s.name)
    (haccumulator : i.modes.isAccumulatorOperand s.name = false) (hfree : known.Unambiguous s) :
    (i.resolve table).1.operand = s.literal ∧
      ∃ value, (i.resolve table).1.operandValue = .ok value ∧
        (i.resolve table).1.encoding = (i.resolve table).1.encodingOf value := by
  have hname := htable.nonempty s hs
  by_cases hmem : s ∈ known.symbols
  · obtain ⟨hp, hliteral⟩ := create?_of_known h hknown hmem hrelative hoperand (hfree.1 hmem)
    rw [resolve_of_not_pending table hp]
    exact ⟨hliteral, create?_settled h hp⟩
  · obtain ⟨habsent, hnovalue⟩ := hfree.2 hmem
    obtain ⟨hp, hsame⟩ := create?_of_unknown h hname hoperand haccumulator habsent hnovalue
    obtain ⟨value, hvalue, hresolved⟩ := resolve_ok hp hok
    have hlongest : i.substituteLongest table = i.substitute s := by
      rw [substituteLongest, hsame, htable.longestMatch?_name hs]
    rw [hlongest] at hvalue hresolved
    rw [hresolved]
    exact ⟨operand_substitute_name hrelative hname hsame, value, hvalue, rfl⟩

end Instruction

namespace Assembly

/-- No instruction of an emittable program is marked. -/
theorem marker?_of_isEmittable {p : Program} (h : p.isEmittable = true) {k : Nat} {i : Instruction}
    (hi : p.records.toList[k]? = some (.memory (.instruction i))) : i.marker? = none := by
  have hmem : Memory.instruction i ∈ p.memory :=
    Program.mem_memory.mpr (List.mem_of_getElem? hi)
  exact Program.marker?_eq_none h hmem

/-- In an emittable program, an instruction other than a branch whose operand is the name of a
symbol is encoded as the value of the symbol in the final table, wherever that is defined, unless
another name comes between or the operand is the accumulator. -/
theorem reference_encodes_symbol (origin : UInt16) (cancelAt : Option Nat) (lines : List Text)
    (emittable : (run origin cancelAt lines).program.isEmittable = true)
    {k : Nat} {i : Instruction} {s : Symbol}
    (hi : (run origin cancelAt lines).program.records.toList[k]? =
      some (.memory (.instruction i)))
    (hs : s ∈ (run origin cancelAt lines).program.symbols.symbols)
    (hrelative : i.isRelative = false) (hoperand : i.source.operand = s.name)
    (haccumulator : i.modes.isAccumulatorOperand i.source.operand = false)
    (hfree : (stateAfter origin cancelAt lines k).program.symbols.Unambiguous s) :
    ∃ opcode, i.modes.opcode? s.addressMode = some opcode ∧ i.bytes = opcode :: s.addressBytes := by
  have hcomplete : (run origin cancelAt lines).program.complete = true := by
    simp only [Program.isEmittable, Bool.and_eq_true] at emittable
    exact emittable.1.1
  have h := completed_of_complete hcomplete
  have hmarker := marker?_of_isEmittable emittable hi
  rw [h.symbols] at hs
  rw [h.records, List.getElem?_map, Option.map_eq_some_iff] at hi
  obtain ⟨r, hr, hresolved⟩ := hi
  have hok := h.resolves r (List.mem_of_getElem? hr)
  obtain ⟨j, rfl⟩ : ∃ j, r = .memory (.instruction j) := by
    match r, hresolved with
    | .memory (.instruction j), _ => exact ⟨j, rfl⟩
  obtain rfl : (j.resolve _).1 = i := Memory.instruction.inj (Record.memory.inj hresolved)
  obtain ⟨source, address, hcreate⟩ := create?_of_record h.scan hr
  have hplace := Instruction.samePlace_resolve j (scanned origin cancelAt lines).program.symbols
  have hsource : j.source = source := (Instruction.samePlace_create? hcreate).1
  rw [hoperand, Instruction.modes, hplace.source] at haccumulator
  rw [hplace.source, hsource] at hoperand
  have hplain : j.isRelative = false := by
    rwa [Instruction.isRelative, hplace.source] at hrelative
  obtain ⟨hliteral, value, hvalue, hencoding⟩ := Instruction.resolve_reference hcreate hok
    (named_stateAfter k) (named_stateAfter _) hs hplain hoperand haccumulator hfree
  exact Instruction.bytes_of_literal hrelative hliteral hvalue hencoding hmarker

/-- A reference before the definition and one behind it, with a part of the name defined between. -/
theorem reference_encodes_symbol_both_ways :
    let lines := [Text.ascii "        LDA  AB", Text.ascii "AB      EQU  $1234",
      Text.ascii "B       EQU  1", Text.ascii "        LDA  AB"]
    let program := (run 0x8000 none lines).program
    let s : Symbol := ⟨Text.ascii "AB", 0x1234⟩
    let forward : Instruction := ⟨⟨1, Text.ascii "        LDA  AB", [], Text.ascii "LDA", s.name⟩,
      0x8000, Text.ascii "$1234", false, .complete .absolute 0xAD [0x34, 0x12]⟩
    let backward : Instruction := ⟨⟨4, Text.ascii "        LDA  AB", [], Text.ascii "LDA", s.name⟩,
      0x8003, Text.ascii "$1234", false, .complete .absolute 0xAD [0x34, 0x12]⟩
    program.isEmittable = true ∧
      program.records.toList[0]? = some (.memory (.instruction forward)) ∧
      (∃ opcode, forward.modes.opcode? s.addressMode = some opcode ∧
        forward.bytes = opcode :: s.addressBytes) ∧
      program.records.toList[3]? = some (.memory (.instruction backward)) ∧
      (∃ opcode, backward.modes.opcode? s.addressMode = some opcode ∧
        backward.bytes = opcode :: s.addressBytes) := by
  refine ⟨by decide +kernel, by decide +kernel, ?_, by decide +kernel, ?_⟩
  · exact reference_encodes_symbol 0x8000 none
      [Text.ascii "        LDA  AB", Text.ascii "AB      EQU  $1234", Text.ascii "B       EQU  1",
        Text.ascii "        LDA  AB"]
      (by decide +kernel) (k := 0) (by decide +kernel) (by decide +kernel) (by decide +kernel) rfl
      (by decide +kernel) (by decide +kernel)
  · exact reference_encodes_symbol 0x8000 none
      [Text.ascii "        LDA  AB", Text.ascii "AB      EQU  $1234", Text.ascii "B       EQU  1",
        Text.ascii "        LDA  AB"]
      (by decide +kernel) (k := 3) (by decide +kernel) (by decide +kernel) (by decide +kernel) rfl
      (by decide +kernel) (by decide +kernel)

/-- The program is emittable, but an operand that is the name of a symbol, neither the target of a
branch nor the accumulator, is not encoded as its value. -/
def Misreads (p : Program) : Prop :=
  p.isEmittable = true ∧ ∃ m ∈ p.memory, ∃ s ∈ p.symbols.symbols,
    m.source.operand = s.name ∧ EncodingTable.isRelative m.source.mnemonic = false ∧
    (EncodingTable.encodings m.source.mnemonic).isAccumulatorOperand s.name = false ∧
    (m.bytes p.contributions).tail ≠ s.addressBytes

instance (p : Program) : Decidable (Misreads p) := inferInstanceAs (Decidable (_ ∧ _))

/-- Each way in which another name comes between misreads a program: a known name in the name of a
symbol defined later, a known name in the literal of a known symbol, and a name that is a number. -/
theorem reference_misread :
    Misreads (run 0x8000 none [Text.ascii "A       EQU  1", Text.ascii "        LDA  AB",
        Text.ascii "AB      EQU  $20"]).program ∧
      Misreads (run 0x8000 none [Text.ascii "FOO     EQU  $FF", Text.ascii "$F      EQU  1",
        Text.ascii "        LDA  FOO"]).program ∧
      Misreads (run 0x8000 none [Text.ascii "        LDA  10",
        Text.ascii "10      EQU  5"]).program := by
  decide +kernel

end Assembly

end ColumnAssembler
