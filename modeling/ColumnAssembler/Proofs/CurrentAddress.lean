import ColumnAssembler.Proofs.AbortedRun
import ColumnAssembler.Proofs.LiteralRoundTrip
import ColumnAssembler.Proofs.ObjectGrammar
import ColumnAssembler.Proofs.Replacement
import ColumnAssembler.Proofs.SymbolNames

/-!
# Constants at the current address

A star in the operand of a constant stands for the current address. It is replaced by the literal of
the address before the known names are, and so the names are looked for in the digits of the literal
as well. The main statement says what a constant with a star is defined as: the number that the text
denotes when all names are replaced. That is the current address if no known name occurs in the
literal. A name without a dollar sign that occurs in its digits brings a second dollar sign in, and
then the operand is refused; a name with one may lead to another number.
-/

namespace ColumnAssembler

namespace Numeral

/-- No digit is a dollar sign. -/
theorem Hexadecimal.dollar_not_mem {digits : Text} {n : Nat} (h : Hexadecimal digits n) :
    Byte.dollar ∉ digits := by
  induction h with
  | nil => exact List.not_mem_nil
  | concat _ hb ih =>
    have hne := hb.of_forall (P := fun b _ => Byte.dollar ≠ b) (by decide) (by decide) (by decide)
    rw [List.mem_append, List.mem_singleton, not_or]
    exact ⟨ih, hne⟩

/-- Digits are read as the number they denote, within the limit. -/
theorem read_hexadecimal_iff {digits : Text} {limit n : Nat} :
    read 16 limit digits = .ok n ↔ digits ≠ [] ∧ Hexadecimal digits n ∧ n ≤ limit := by
  constructor
  · intro hread
    have hbound := read_le hread
    cases digits with
    | nil => simp [read] at hread
    | cons b rest =>
      refine ⟨List.cons_ne_nil b rest, ?_, hbound⟩
      rw [read, List.isEmpty_cons, if_neg Bool.false_ne_true] at hread
      exact Hexadecimal.nil.of_readFrom hread
  · rintro ⟨hsome, hdigits, hbound⟩
    have hread := hdigits.readFrom_append hbound []
    rw [List.append_nil, readFrom] at hread
    rw [read, List.isEmpty_eq_false_iff.mpr hsome, if_neg Bool.false_ne_true, hread]

/-- The digits of a number denote it. -/
theorem hexadecimal_hex {n : Nat} (h : n ≤ Literal.maxValue) : Hexadecimal (hex n) n :=
  (read_hexadecimal_iff.mp (read_render (by decide) (by decide) h)).2.1

end Numeral

/-- A dollar sign and inert bytes evaluate to the number that these denote in hexadecimal. -/
theorem Expression.evaluate_hexadecimal_iff {digits : Text}
    (hinert : ∀ b ∈ Byte.dollar :: digits, Literal.isInert b = true) {value : Int64} :
    evaluate (Byte.dollar :: digits) = .ok value ↔ digits ≠ [] ∧
      ∃ n ≤ Literal.maxValue, Numeral.Hexadecimal digits n ∧ value = Int64.ofNat n := by
  have hcomma : Byte.comma ∉ Byte.dollar :: digits :=
    fun hmem => absurd (hinert _ hmem) (by decide)
  have hone : Chain.split (Byte.dollar :: digits) = ⟨Byte.dollar :: digits, []⟩ := by
    refine Chain.split_of_plain fun b hb => ?_
    have hb := hinert b hb
    simp only [Literal.isInert, Bool.and_eq_true, Bool.not_eq_true', Option.isNone_iff_eq_none,
      and_assoc] at hb
    exact ⟨hb.2.1, hb.1⟩
  have hparse : Literal.parse (Byte.dollar :: digits) =
      Literal.parseDigits (Byte.dollar :: digits) digits 16 := by
    rw [Literal.parse, Literal.undecorated_of_inert hinert,
      Literal.parseUndecorated_cons (Literal.any_isSeparator_of_inert hinert), if_pos rfl]
  rw [evaluate_ok_iff_parse hcomma hone, hparse, Literal.parseDigits]
  cases hread : Numeral.read 16 Literal.maxValue digits with
  | ok n =>
    obtain ⟨hsome, hdigits, hbound⟩ := Numeral.read_hexadecimal_iff.mp hread
    rw [List.isEmpty_eq_false_iff.mpr hsome, if_neg Bool.false_ne_true, Except.ok.injEq]
    constructor
    · rintro rfl
      exact ⟨hsome, n, hbound, hdigits, rfl⟩
    · rintro ⟨_, m, hm, hsame, rfl⟩
      have hagain := Numeral.read_hexadecimal_iff.mpr ⟨hsome, hsame, hm⟩
      rw [hread, Except.ok.injEq] at hagain
      rw [hagain]
  | error cause =>
    constructor
    · intro h
      split at h <;> simp at h
    · rintro ⟨hsome, m, hm, hdigits, _⟩
      rw [Numeral.read_hexadecimal_iff.mpr ⟨hsome, hdigits, hm⟩] at hread
      exact absurd hread (by simp)

namespace SymbolTable

/-- No name in the view by length is empty. -/
theorem Named.nonempty_byLength {table : SymbolTable} (h : table.Named) :
    ∀ symbol ∈ table.byLength, symbol.name ≠ [] :=
  fun symbol hsymbol => h.nonempty symbol (mem_byLength.mp hsymbol)

/-- The text with the names of symbols replaced by their literals, one symbol after the other. -/
def replaceNames (symbols : List Symbol) (t : Text) : Text :=
  symbols.foldl
    (fun t symbol => t.replaceAll symbol.name (Literal.ofAddress symbol.value.toNat)) t

variable {symbols : List Symbol}

/-- The first symbol is replaced before the others. -/
theorem replaceNames_cons {symbol : Symbol} (hname : symbol.name ≠ []) (t : Text) :
    replaceNames (symbol :: symbols) t = replaceNames symbols
      (Text.replaceFrom symbol.name (Literal.ofAddress symbol.value.toNat) 0 t) := by
  rw [replaceNames, List.foldl_cons, Text.replaceAll_of_ne_nil hname, replaceNames]

/-- What replacing one name keeps is kept when all are replaced. -/
theorem replaceNames_preserves {P : Text → Prop} {t : Text} (h : P t)
    (hnames : ∀ symbol ∈ symbols, symbol.name ≠ [])
    (step : ∀ symbol ∈ symbols, ∀ t, P t →
      P (Text.replaceFrom symbol.name (Literal.ofAddress symbol.value.toNat) 0 t)) :
    P (replaceNames symbols t) := by
  induction symbols generalizing t with
  | nil => exact h
  | cons symbol rest ih =>
    rw [List.forall_mem_cons] at hnames step
    rw [replaceNames_cons hnames.1]
    exact ih (step.1 t h) hnames.2 step.2

/-- A literal begins with a dollar sign. -/
theorem head?_ofAddress (n : Nat) : (Literal.ofAddress n).head? = some Byte.dollar := by
  obtain ⟨m, hm⟩ := Literal.format_hexadecimal (Int64.ofNat n)
  rw [Literal.ofAddress, hm, List.head?_cons]

/-- The bytes of a literal are inert. -/
theorem isInert_ofAddress (n : Nat) : ∀ b ∈ Literal.ofAddress n, Literal.isInert b = true :=
  Literal.forall_mem_format (P := fun b => Literal.isInert b = true) _ (by decide)
    fun digit => Literal.isInert_digit digit.isLt

/-- Replacing names leaves a text that begins with a dollar sign and has inert bytes only. -/
theorem replaceNames_ofAddress (hnames : ∀ symbol ∈ symbols, symbol.name ≠ []) (n : Nat) :
    ∃ digits, replaceNames symbols (Literal.ofAddress n) = Byte.dollar :: digits ∧
      ∀ b ∈ Byte.dollar :: digits, Literal.isInert b = true := by
  have hkept : (replaceNames symbols (Literal.ofAddress n)).head? = some Byte.dollar ∧
      ∀ b ∈ replaceNames symbols (Literal.ofAddress n), Literal.isInert b = true := by
    refine replaceNames_preserves
      (P := fun t => t.head? = some Byte.dollar ∧ ∀ b ∈ t, Literal.isInert b = true)
      ⟨head?_ofAddress n, isInert_ofAddress n⟩ hnames ?_
    rintro symbol _ t ⟨hhead, hinert⟩
    refine ⟨Text.head?_replaceFrom_of_value (head?_ofAddress _) hhead, fun b hb => ?_⟩
    rcases Text.mem_of_mem_replaceFrom hb with hvalue | hb
    · exact isInert_ofAddress _ b hvalue
    · exact hinert b hb
  obtain ⟨digits, hdigits⟩ := List.head?_eq_some_iff.mp hkept.1
  exact ⟨digits, hdigits, hdigits ▸ hkept.2⟩

/-- Names that do not occur in the text leave it as it is. -/
theorem replaceNames_of_absent {t : Text} (hnames : ∀ symbol ∈ symbols, symbol.name ≠ [])
    (h : ∀ symbol ∈ symbols, ¬ symbol.name <:+: t) : replaceNames symbols t = t := by
  refine replaceNames_preserves (P := fun u => u = t) rfl hnames ?_
  rintro symbol hsymbol u rfl
  exact Text.replaceFrom_of_absent _ (h symbol hsymbol)

/-- Names without a dollar sign are replaced behind it. -/
theorem replaceNames_dollar (hnames : ∀ symbol ∈ symbols, symbol.name ≠ [])
    (hplain : ∀ symbol ∈ symbols, Byte.dollar ∉ symbol.name) (t : Text) :
    replaceNames symbols (Byte.dollar :: t) = Byte.dollar :: replaceNames symbols t := by
  induction symbols generalizing t with
  | nil => rfl
  | cons symbol rest ih =>
    rw [List.forall_mem_cons] at hnames hplain
    rw [replaceNames_cons hnames.1, replaceNames_cons hnames.1,
      Text.replaceFrom_cons_of_not_mem hnames.1 hplain.1, ih hnames.2 hplain.2]

/-- A name that occurs brings the dollar sign of its literal into the text, and names without one do
not take it away. -/
theorem dollar_mem_replaceNames (hnames : ∀ symbol ∈ symbols, symbol.name ≠ [])
    (hplain : ∀ symbol ∈ symbols, Byte.dollar ∉ symbol.name) {t : Text}
    (h : ∃ symbol ∈ symbols, symbol.name <:+: t) : Byte.dollar ∈ replaceNames symbols t := by
  induction symbols generalizing t with
  | nil =>
    obtain ⟨symbol, hnone, _⟩ := h
    exact absurd hnone List.not_mem_nil
  | cons symbol rest ih =>
    rw [List.forall_mem_cons] at hnames hplain
    rw [replaceNames_cons hnames.1]
    by_cases hhere : symbol.name <:+: t
    · have hdollar : Byte.dollar ∈ Literal.ofAddress symbol.value.toNat :=
        List.mem_of_head? (head?_ofAddress _)
      refine replaceNames_preserves (P := fun u => Byte.dollar ∈ u)
        (Text.mem_replaceFrom hnames.1 hhere hdollar) hnames.2 ?_
      intro later hlater u hu
      exact Text.mem_replaceFrom_of_not_mem (hnames.2 later hlater) (hplain.2 later hlater)
        List.not_mem_nil hu
    · rw [Text.replaceFrom_of_absent _ hhere]
      obtain ⟨other, hother, hoccurs⟩ := h
      rcases List.mem_cons.mp hother with rfl | hother
      · exact absurd hoccurs hhere
      · exact ih hnames.2 hplain.2 ⟨other, hother, hoccurs⟩

end SymbolTable

namespace Scan

/-- A star stands for the literal of the current address, and the names are replaced in it. -/
theorem argumentText_star (s : Scan) : s.argumentText [Byte.star] =
    SymbolTable.replaceNames s.program.symbols.byLength (Literal.ofAddress s.address) := by
  have hplaced : Literal.ofAddress s.address ++ [] = Literal.ofAddress s.address :=
    List.append_nil _
  rw [argumentText, if_pos rfl, hplaced, SymbolTable.replaceNames]

/-- A star means the number that its text denotes in hexadecimal. -/
theorem means_star_iff {s : Scan} (hnamed : s.program.symbols.Named) {value : UInt16} :
    s.Means [Byte.star] value ↔ ∃ digits, digits ≠ [] ∧
      s.argumentText [Byte.star] = Byte.dollar :: digits ∧
      Numeral.Hexadecimal digits value.toNat := by
  have hnames := hnamed.nonempty_byLength
  obtain ⟨digits, htext, hinert⟩ := SymbolTable.replaceNames_ofAddress hnames s.address
  rw [← argumentText_star] at htext
  rw [Means, argument, htext]
  constructor
  · rintro ⟨checked, h, hchecked⟩
    cases hvalue : Expression.evaluate (Byte.dollar :: digits) with
    | error cause => simp [hvalue] at h
    | ok v =>
      obtain ⟨hsome, n, hn, hdigits, rfl⟩ :=
        (Expression.evaluate_hexadecimal_iff hinert).mp hvalue
      rw [hvalue] at h
      dsimp only at h
      split at h
      · simp at h
      · rw [← Except.ok.inj h, Literal.toInt_ofNat hn, Int.ofNat_inj] at hchecked
        exact ⟨digits, hsome, rfl, hchecked ▸ hdigits⟩
  · rintro ⟨digits', hsome, hsame, hdigits⟩
    obtain rfl := (List.cons.inj hsame).2
    have hbound : value.toNat ≤ 0xFFFF := Nat.le_of_lt_succ value.toNat_lt
    have hmax : value.toNat ≤ Literal.maxValue := Nat.le_trans hbound (by decide)
    have hvalue := (Expression.evaluate_hexadecimal_iff hinert).mpr
      ⟨hsome, value.toNat, hmax, hdigits, rfl⟩
    have hrange : ¬ (decide (Int64.ofNat value.toNat < 0) ||
        decide (0xFFFF < Int64.ofNat value.toNat)) = true := by
      rw [Bool.or_eq_true, decide_eq_true_eq, decide_eq_true_eq, Int64.lt_iff_toInt_lt,
        Int64.lt_iff_toInt_lt, Literal.toInt_ofNat hmax, not_or]
      exact ⟨Int.not_lt.mpr (Int.natCast_nonneg _), Int.not_lt.mpr (Int.ofNat_le.mpr hbound)⟩
    refine ⟨Int64.ofNat value.toNat, ?_, Literal.toInt_ofNat hmax⟩
    rw [hvalue]
    dsimp only
    rw [if_neg hrange]

/-- A star means the current address if no known name occurs in the literal of it. -/
theorem means_star_of_absent {s : Scan} (hnamed : s.program.symbols.Named)
    (hroom : s.address ≤ 0xFFFF)
    (h : ∀ symbol ∈ s.program.symbols.symbols, ¬ symbol.name <:+: Literal.ofAddress s.address) :
    s.Means [Byte.star] (UInt16.ofNat s.address) := by
  have hmax : s.address ≤ Literal.maxValue := Nat.le_trans hroom (by decide)
  have hnames := hnamed.nonempty_byLength
  have hkept : s.argumentText [Byte.star] = Byte.dollar :: Numeral.hex s.address := by
    rw [argumentText_star, SymbolTable.replaceNames_of_absent hnames
      fun symbol hsymbol => h symbol (SymbolTable.mem_byLength.mp hsymbol),
      Literal.ofAddress_eq hmax]
  refine (means_star_iff hnamed).mpr ⟨_, Numeral.render_ne_nil 16 s.address, hkept, ?_⟩
  rw [UInt16.toNat_ofNat_of_lt' (Nat.lt_succ_of_le hroom)]
  exact Numeral.hexadecimal_hex hmax

/-- A star means nothing if a name occurs in the digits of the current address and no name has a
dollar sign. -/
theorem argument_star_of_occurs {s : Scan} (hnamed : s.program.symbols.Named)
    (hroom : s.address ≤ 0xFFFF)
    (hplain : ∀ symbol ∈ s.program.symbols.symbols, Byte.dollar ∉ symbol.name)
    (h : ∃ symbol ∈ s.program.symbols.symbols, symbol.name <:+: Numeral.hex s.address) :
    ∃ fault, s.argument [Byte.star] = .error fault := by
  have hnames := hnamed.nonempty_byLength
  have hfree : ∀ symbol ∈ s.program.symbols.byLength, Byte.dollar ∉ symbol.name :=
    fun symbol hsymbol => hplain symbol (SymbolTable.mem_byLength.mp hsymbol)
  have htext : s.argumentText [Byte.star] = Byte.dollar ::
      SymbolTable.replaceNames s.program.symbols.byLength (Numeral.hex s.address) := by
    rw [argumentText_star, Literal.ofAddress_eq (Nat.le_trans hroom (by decide)),
      SymbolTable.replaceNames_dollar hnames hfree]
  obtain ⟨symbol, hsymbol, hoccurs⟩ := h
  have hsecond : Byte.dollar ∈
      SymbolTable.replaceNames s.program.symbols.byLength (Numeral.hex s.address) :=
    SymbolTable.dollar_mem_replaceNames hnames hfree
      ⟨symbol, SymbolTable.mem_byLength.mpr hsymbol, hoccurs⟩
  cases hvalue : s.argument [Byte.star] with
  | error fault => exact ⟨fault, rfl⟩
  | ok value =>
    obtain ⟨digits, _, hsame, hdigits⟩ := (means_star_iff hnamed).mp (means_wordOf hvalue)
    rw [htext, List.cons.injEq] at hsame
    rw [hsame.2] at hsecond
    exact absurd hsecond hdigits.dollar_not_mem

/-- The line defines the name with the value, and its operand is not at fault. -/
structure Gives (s : Scan) (number : Int) (line name : Text) (value : UInt16) : Prop where
  /-- The symbol is added to the table. -/
  symbols : (s.scanLine number line).1.program.symbols.symbols =
    s.program.symbols.symbols ++ [⟨name, value⟩]
  /-- The line does not stop the pass for its operand. -/
  fault : ∀ e, (s.scanLine number line).2 = some e → e.fault.kind ≠ .badOperand

/-- The line stops the pass for its operand and defines nothing. -/
structure Refuses (s : Scan) (number : Int) (line : Text) : Prop where
  /-- The table stays as it is. -/
  symbols : (s.scanLine number line).1.program.symbols.symbols = s.program.symbols.symbols
  /-- The operand is at fault. -/
  fault : ∃ e, (s.scanLine number line).2 = some e ∧ e.fault.kind = .badOperand

section NewConstant

variable {s : Scan} {number : Int} {line : Text} {source : SourceLine}

/-- A new constant is defined as its operand means, or stops the pass when that means nothing. -/
theorem scanSource_newConstant (hclass : source.classify = .constant) (hlabel : source.label ≠ [])
    (hnew : s.program.symbols.has source.label = false) :
    (∀ fault, s.argument source.operand = .error fault →
      s.scanSource source = (s.addDirective source, some fault)) ∧
    ∀ value, s.argument source.operand = .ok value → s.scanSource source =
      ((s.addDirective source).define source.label (wordOf value) source.number).checked := by
  have hargument : (s.addDirective source).argument source.operand =
      s.argument source.operand := rfl
  have hfresh : (s.addDirective source).program.symbols.has source.label = false := hnew
  have hsome : source.label.isEmpty = false := List.isEmpty_eq_false_iff.mpr hlabel
  rw [scanSource, hclass]
  dsimp only
  rw [defineConstant, hsome, if_neg Bool.false_ne_true, hfresh, if_neg Bool.false_ne_true,
    hargument]
  constructor
  · intro fault hfault
    rw [hfault]
  · intro value hvalue
    rw [hvalue]

/-- A new constant with an operand that means nothing is refused. -/
theorem refuses_of_argument (hparse : SourceLine.parse number line = .ok source)
    (hclass : source.classify = .constant) (hlabel : source.label ≠ [])
    (hnew : s.program.symbols.has source.label = false) {fault : Fault}
    (h : s.argument source.operand = .error fault) : s.Refuses number line := by
  have hline : s.scanLine number line = (s.addDirective source, some ⟨number, fault⟩) := by
    rw [scanLine_of_parse hparse, (scanSource_newConstant hclass hlabel hnew).1 fault h]
    rfl
  exact ⟨by rw [hline]; rfl, ⟨number, fault⟩, by rw [hline], argument_kind h⟩

/-- A new constant is defined as its operand means. -/
theorem gives_of_means (hparse : SourceLine.parse number line = .ok source)
    (hclass : source.classify = .constant) (hlabel : source.label ≠ [])
    (hnew : s.program.symbols.has source.label = false) {value : UInt16}
    (h : s.Means source.operand value) : s.Gives number line source.label value := by
  have ⟨checked, hchecked, _⟩ := h
  have hscan := (scanSource_newConstant hclass hlabel hnew).2 checked hchecked
  rw [(means_wordOf hchecked).unique h] at hscan
  have hfresh : (s.addDirective source).program.symbols.has source.label = false := hnew
  have hsymbols : ((s.addDirective source).define source.label value
      source.number).program.symbols.symbols =
        s.program.symbols.symbols ++ [⟨source.label, value⟩] := by
    rw [define, SymbolTable.define?, hfresh, if_neg Bool.false_ne_true]
    rfl
  constructor
  · rw [scanLine_of_parse hparse, hscan]
    exact hsymbols
  · intro e he
    rw [scanLine_of_parse hparse, hscan, Option.map_eq_some_iff] at he
    obtain ⟨fault, hfault, rfl⟩ := he
    rw [kind_of_limitFault? hfault]
    decide

/-- A new constant gets exactly the value that its operand means. -/
theorem gives_iff_means (hparse : SourceLine.parse number line = .ok source)
    (hclass : source.classify = .constant) (hlabel : source.label ≠ [])
    (hnew : s.program.symbols.has source.label = false) {value : UInt16} :
    s.Gives number line source.label value ↔ s.Means source.operand value := by
  refine ⟨fun hgives => ?_, gives_of_means hparse hclass hlabel hnew⟩
  cases h : s.argument source.operand with
  | error fault =>
    have hsame := (refuses_of_argument hparse hclass hlabel hnew h).symbols
    rw [hgives.symbols] at hsame
    exact absurd (congrArg List.length hsame) (by simp)
  | ok checked =>
    have hmeans := means_wordOf h
    have hsame := (gives_of_means hparse hclass hlabel hnew hmeans).symbols
    rw [hgives.symbols, List.append_cancel_left_eq, List.cons.injEq, Symbol.mk.injEq] at hsame
    rwa [hsame.1.2]

end NewConstant

end Scan

/-- A name without a dollar sign occurs in the literal of an address only where it occurs in the
digits. -/
theorem Literal.infix_ofAddress_iff {n : Nat} (h : n ≤ maxValue) {name : Text} (hname : name ≠ [])
    (hplain : Byte.dollar ∉ name) : name <:+: ofAddress n ↔ name <:+: Numeral.hex n := by
  rw [ofAddress_eq h, List.infix_cons_iff, or_iff_right]
  intro hprefix
  obtain ⟨b, others, rfl⟩ := List.exists_cons_of_ne_nil hname
  obtain ⟨rfl, _⟩ := List.cons_prefix_cons.mp hprefix
  exact hplain List.mem_cons_self

namespace Assembly

/-- What a new constant with a star for its operand is defined as, behind any lines. It gets the
number that its text denotes in hexadecimal behind a dollar sign once all names are replaced, and is
refused if the text denotes no 16-bit number. So it gets the current address if no known name occurs
in the literal of it. If no known name has a dollar sign, it gets the current address exactly if
none occurs in the digits of the address, and is refused otherwise. -/
theorem constant_at_star (origin : UInt16) (cancelAt : Option Nat) (lines : List Text)
    (hscan : (Scan.scanLines cancelAt (opening origin lines) 0 lines).2 = none)
    (number : Int) (line : Text) (source : SourceLine)
    (hparse : SourceLine.parse number line = .ok source) (hclass : source.classify = .constant)
    (hlabel : source.label ≠ [])
    (hnew : (scanned origin cancelAt lines).program.symbols.has source.label = false)
    (hoperand : source.operand = [Byte.star]) :
    (∀ value, (scanned origin cancelAt lines).Gives number line source.label value ↔
      ∃ digits, digits ≠ [] ∧
        (scanned origin cancelAt lines).argumentText [Byte.star] = Byte.dollar :: digits ∧
        Numeral.Hexadecimal digits value.toNat) ∧
    ((∀ value, ¬ (scanned origin cancelAt lines).Gives number line source.label value) →
      (scanned origin cancelAt lines).Refuses number line) ∧
    ((∀ symbol ∈ (scanned origin cancelAt lines).program.symbols.symbols,
        ¬ symbol.name <:+: Literal.ofAddress (scanned origin cancelAt lines).address) →
      ∃ value, value.toNat = (scanned origin cancelAt lines).address ∧
        (scanned origin cancelAt lines).Gives number line source.label value) ∧
    ((∀ symbol ∈ (scanned origin cancelAt lines).program.symbols.symbols,
        Byte.dollar ∉ symbol.name) →
      ((∃ value, value.toNat = (scanned origin cancelAt lines).address ∧
          (scanned origin cancelAt lines).Gives number line source.label value) ↔
        ∀ symbol ∈ (scanned origin cancelAt lines).program.symbols.symbols,
          ¬ symbol.name <:+: Numeral.hex (scanned origin cancelAt lines).address) ∧
      ((∃ symbol ∈ (scanned origin cancelAt lines).program.symbols.symbols,
          symbol.name <:+: Numeral.hex (scanned origin cancelAt lines).address) →
        (scanned origin cancelAt lines).Refuses number line)) := by
  have hnamed : (scanned origin cancelAt lines).program.symbols.Named := named_stateAfter _
  have hroom : (scanned origin cancelAt lines).address ≤ 0xFFFF :=
    (sound_stateAfter (Nat.le_refl _) (scanLines_take_length hscan)).room
  generalize scanned origin cancelAt lines = s at hnew hnamed hroom ⊢
  have hgives : ∀ {value}, s.Gives number line source.label value ↔
      s.Means [Byte.star] value := by
    intro value
    rw [Scan.gives_iff_means hparse hclass hlabel hnew, hoperand]
  have hrefuses : ∀ {fault}, s.argument [Byte.star] = .error fault → s.Refuses number line := by
    intro fault hfault
    exact Scan.refuses_of_argument hparse hclass hlabel hnew (hoperand.symm ▸ hfault)
  have hhere : (∀ symbol ∈ s.program.symbols.symbols,
      ¬ symbol.name <:+: Literal.ofAddress s.address) →
        ∃ value, value.toNat = s.address ∧ s.Gives number line source.label value :=
    fun habsent => ⟨_, UInt16.toNat_ofNat_of_lt' (Nat.lt_succ_of_le hroom),
      hgives.mpr (Scan.means_star_of_absent hnamed hroom habsent)⟩
  refine ⟨fun value => hgives.trans (Scan.means_star_iff hnamed), ?_, hhere, ?_⟩
  · intro hnone
    cases hvalue : s.argument [Byte.star] with
    | error fault => exact hrefuses hvalue
    | ok checked => exact absurd (hgives.mpr (Scan.means_wordOf hvalue)) (hnone _)
  · intro hplain
    refine ⟨⟨?_, ?_⟩, ?_⟩
    · rintro ⟨value, _, hgiven⟩ symbol hsymbol hoccurs
      obtain ⟨fault, hfault⟩ :=
        Scan.argument_star_of_occurs hnamed hroom hplain ⟨symbol, hsymbol, hoccurs⟩
      obtain ⟨checked, hchecked, _⟩ := hgives.mp hgiven
      rw [hchecked] at hfault
      exact absurd hfault (by simp)
    · intro habsent
      refine hhere fun symbol hsymbol hoccurs => habsent symbol hsymbol ?_
      exact (Literal.infix_ofAddress_iff (Nat.le_trans hroom (by decide))
        (hnamed.nonempty symbol hsymbol) (hplain symbol hsymbol)).mp hoccurs
    · intro hoccurs
      obtain ⟨fault, hfault⟩ := Scan.argument_star_of_occurs hnamed hroom hplain hoccurs
      exact hrefuses hfault

/-- Behind a name that does not occur in the digits of the address, and behind one that does. -/
theorem constant_at_star_between_names :
    let name := Text.ascii "HERE"
    let line := Text.ascii "HERE    EQU  *"
    let plain := [Text.ascii "COUNT   EQU  9", Text.ascii "        NOP"]
    let clashing := [Text.ascii "A       EQU  1", Text.ascii "        NOP"]
    (∃ value, value.toNat = (scanned 0xA000 none plain).address ∧
        (scanned 0xA000 none plain).Gives 3 line name value) ∧
      (scanned 0xA000 none clashing).Refuses 3 line := by
  intro name line plain clashing
  have hparse : SourceLine.parse 3 line =
      .ok ⟨3, line, name, Text.ascii "EQU", [Byte.star]⟩ := by
    rw [SourceLine.parse, if_neg (by decide +kernel)]
    exact congrArg Except.ok (by decide +kernel)
  have hplain : (Scan.scanLines none (opening 0xA000 plain) 0 plain).2 = none ∧
      (scanned 0xA000 none plain).program.symbols.symbols = [⟨Text.ascii "COUNT", 9⟩] ∧
      (scanned 0xA000 none plain).address = 0xA001 := by decide +kernel
  have hclashing : (Scan.scanLines none (opening 0xA000 clashing) 0 clashing).2 = none ∧
      (scanned 0xA000 none clashing).program.symbols.symbols = [⟨Text.ascii "A", 1⟩] ∧
      (scanned 0xA000 none clashing).address = 0xA001 := by decide +kernel
  have hfirst := constant_at_star 0xA000 none plain hplain.1 3 line _ hparse (by decide)
    (by decide) (by decide +kernel) rfl
  have hsecond := constant_at_star 0xA000 none clashing hclashing.1 3 line _ hparse (by decide)
    (by decide) (by decide +kernel) rfl
  constructor
  · apply hfirst.2.2.1
    rw [hplain.2.1, hplain.2.2, List.forall_mem_singleton, ← Text.occursIn_iff]
    decide
  · have hfree : ∀ symbol ∈ (scanned 0xA000 none clashing).program.symbols.symbols,
        Byte.dollar ∉ symbol.name := by
      rw [hclashing.2.1, List.forall_mem_singleton]
      decide
    apply (hsecond.2.2.2 hfree).2
    rw [hclashing.2.1, hclashing.2.2]
    exact ⟨_, List.mem_singleton_self _, (Text.occursIn_iff _ _).mp (by decide)⟩

/-- A name for a digit of the address gets a constant at the address refused, and a name for the
first bytes of its literal gets it another value. -/
theorem constant_at_star_astray :
    let digit := [Text.ascii "A       EQU  1"]
    let start := [Text.ascii "$8      EQU  9"]
    let line := Text.ascii "HERE    EQU  *"
    (scanned 0xA000 none digit).address = 0xA000 ∧
      (run 0xA000 none (digit ++ [line])).failure = some (.fatal ⟨2, .argument [Byte.star]
        (.operand (Text.ascii "$$1000") (.notNumber (Text.ascii "$$1000") 16))⟩) ∧
      (scanned 0x8000 none start).address = 0x8000 ∧
      (run 0x8000 none (start ++ [line])).failure = none ∧
      (run 0x8000 none (start ++ [line])).program.symbols.get? (Text.ascii "HERE") =
        some ⟨Text.ascii "HERE", 0x9000⟩ := by
  decide +kernel

end Assembly

end ColumnAssembler
