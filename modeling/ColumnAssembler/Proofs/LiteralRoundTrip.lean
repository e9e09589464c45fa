import ColumnAssembler.Proofs.OperatorChain
import ColumnAssembler.Proofs.SourceText

/-!
# Literals that read back

A value is written in a notation and read again. Numerals are written for all 64-bit values, with a
minus or wrapped around when the value is negative, but read without a sign and up to 32 bits only.
A character is written as the UTF-8 form of a code point and read as a single byte. The main
statement gives the values that come back in each notation, from the reader of literals and from the
evaluator of expressions. The evaluator takes a comma in quotes for the end of the expression, which
is the only difference between the two.
-/

namespace ColumnAssembler

/-- The form of a code point has no byte of ASCII but the code point itself. -/
theorem Glyph.not_mem_encodeCode {code : Nat} (hcode : code < 0x110000) {q : UInt8}
    (hq : q.toNat < 0x80) (hne : code ≠ q.toNat) : q ∉ encodeCode code := by
  intro hmem
  rcases mem_encodeCode hcode hmem with ⟨hascii, rfl⟩ | hhigh
  · have hfits : code < UInt8.size := Nat.lt_trans hascii (by decide)
    rw [Nat.toUInt8_eq, UInt8.toNat_ofNat_of_lt' hfits] at hne
    exact hne rfl
  · omega

namespace LiteralFormat

/-- The mark in front of the digits. -/
def mark : LiteralFormat → Text
  | hexadecimal => [Byte.dollar]
  | octal => [0x4F]
  | binary => [Byte.percent]
  | decimal | character => []

/-- The base of the digits. -/
def base : LiteralFormat → Nat
  | hexadecimal => 16
  | octal => 8
  | binary => 2
  | decimal | character => 10

/-- The values whose literal reads back: numbers of at most 32 bits, and of the characters those of
ASCII that are no quote, blank, tab or end of line. -/
def ReadsBack (f : LiteralFormat) (value : Int64) : Prop :=
  match f with
  | character => 0 ≤ value.toInt ∧ value.toInt ≤ 127 ∧ value.toInt ∉ [9, 10, 13, 32, 34, 39]
  | hexadecimal | decimal | octal | binary => 0 ≤ value.toInt ∧ value.toInt < 0x100000000

end LiteralFormat

namespace Literal

/-- A byte of a numeral or of its mark: it has no meaning to a chain and decorates nothing. -/
def isInert (b : UInt8) : Bool :=
  (Operator.ofByte? b).isNone && !Text.isQuote b && !Text.isSeparator b && b != Byte.comma &&
    b != Byte.openParen && b != Byte.hash && b != Byte.closeParen

/-- Digits of the bases in use are inert. -/
theorem isInert_digit {digit : Nat} (h : digit < 16) :
    isInert (Numeral.digitByte digit) = true := by
  have hall : ∀ d : Fin 16, isInert (Numeral.digitByte d) = true := by decide
  exact hall ⟨digit, h⟩

/-- A numeral with its mark is inert. -/
theorem isInert_numeral (f : LiteralFormat) (n : Nat) :
    ∀ b ∈ f.mark ++ Numeral.render f.base n, isInert b = true := by
  have hpositive : 0 < f.base := by cases f <;> decide
  have hbase : f.base ≤ 16 := by cases f <;> decide
  have hmark : f.mark.all isInert = true := by cases f <;> decide
  intro b hb
  rcases List.mem_append.mp hb with hb | hb
  · exact List.all_eq_true.mp hmark b hb
  · obtain ⟨digit, rfl⟩ := Numeral.mem_render hpositive hb
    exact isInert_digit (Nat.lt_of_lt_of_le digit.isLt hbase)

/-- A text of inert bytes has no decoration. -/
theorem undecorated_of_inert {t : Text} (h : ∀ b ∈ t, isInert b = true) : undecorated t = t := by
  have hnot : ∀ c, isInert c = false → c ∉ t := by
    intro c hc hmem
    exact Bool.false_ne_true (hc.symm.trans (h c hmem))
  have hhead : ∀ c, isInert c = false → t.head? ≠ some c :=
    fun c hc hsome => hnot c hc (List.mem_of_head? hsome)
  have hlast : t.getLast? ≠ some Byte.closeParen :=
    fun hsome => hnot _ (by decide) (List.mem_of_getLast? hsome)
  rw [undecorated, Text.withoutStart_of_head?_ne (hhead _ (by decide)),
    Text.withoutStart_of_head?_ne (hhead _ (by decide)), Text.withoutEnd_of_getLast?_ne hlast]

/-- No separator is inert. -/
theorem any_isSeparator_of_inert {t : Text} (h : ∀ b ∈ t, isInert b = true) :
    t.any Text.isSeparator = false := by
  rw [List.any_eq_false]
  intro b hb hseparator
  have hinert := h b hb
  simp [isInert, hseparator] at hinert

/-- The digits of a number of at most 32 bits denote it. -/
theorem parseDigits_render (whole : Text) {base n : Nat} (hlow : 2 ≤ base) (hhigh : base ≤ 36)
    (h : n ≤ maxValue) : parseDigits whole (Numeral.render base n) base = .ok (Int64.ofNat n) := by
  have hsome : (Numeral.render base n).isEmpty = false :=
    List.isEmpty_eq_false_iff.mpr (Numeral.render_ne_nil base n)
  rw [parseDigits, hsome, if_neg Bool.false_ne_true, Numeral.read_render hlow hhigh h]

/-- The first byte tells the notation. -/
theorem parseUndecorated_cons {mark : UInt8} {digits : Text}
    (h : (mark :: digits).any Text.isSeparator = false) : parseUndecorated (mark :: digits) =
      if mark = Byte.dollar then parseDigits (mark :: digits) digits 16
      else if mark = 0x6F ∨ mark = 0x4F then parseDigits (mark :: digits) digits 8
      else if mark = Byte.percent then parseDigits (mark :: digits) digits 2
      else if Text.isQuote mark then parseCharacter (mark :: digits)
      else parseDigits (mark :: digits) (mark :: digits) 10 := by
  rw [parseUndecorated, h, if_neg Bool.false_ne_true]

/-- A decimal digit is no mark of another notation. -/
theorem parseUndecorated_digit {digit : Fin 10} {rest : Text}
    (h : (Numeral.digitByte digit :: rest).any Text.isSeparator = false) :
    parseUndecorated (Numeral.digitByte digit :: rest) =
      parseDigits (Numeral.digitByte digit :: rest) (Numeral.digitByte digit :: rest) 10 := by
  have hmark : ∀ d : Fin 10, Numeral.digitByte d ≠ Byte.dollar ∧
      ¬ (Numeral.digitByte d = 0x6F ∨ Numeral.digitByte d = 0x4F) ∧
      Numeral.digitByte d ≠ Byte.percent ∧ ¬ Text.isQuote (Numeral.digitByte d) = true := by decide
  obtain ⟨hdollar, hletter, hpercent, hquote⟩ := hmark digit
  rw [parseUndecorated_cons h, if_neg hdollar, if_neg hletter, if_neg hpercent, if_neg hquote]

/-- A numeral with its mark denotes its number, if that has at most 32 bits. -/
theorem parse_numeral (f : LiteralFormat) {n : Nat} (h : n ≤ maxValue) :
    parse (f.mark ++ Numeral.render f.base n) = .ok (Int64.ofNat n) := by
  have hinert := isInert_numeral f n
  have hseparator := any_isSeparator_of_inert hinert
  have hdigits : ∀ whole, parseDigits whole (Numeral.render f.base n) f.base =
      .ok (Int64.ofNat n) :=
    fun whole => parseDigits_render whole (by cases f <;> decide) (by cases f <;> decide) h
  rw [parse, undecorated_of_inert hinert]
  cases f with
  | hexadecimal | octal | binary => exact (parseUndecorated_cons hseparator).trans (hdigits _)
  | decimal | character =>
    obtain ⟨b, rest, hrender⟩ := List.exists_cons_of_ne_nil (Numeral.render_ne_nil 10 n)
    obtain ⟨digit, rfl⟩ : ∃ digit : Fin 10, b = Numeral.digitByte digit :=
      Numeral.mem_render (by decide) (hrender ▸ List.mem_cons_self)
    have hread : parseDigits (Numeral.digitByte digit :: rest) (Numeral.render 10 n) 10 =
      .ok (Int64.ofNat n) := hdigits _
    have hplain : (Numeral.render 10 n).any Text.isSeparator = false := hseparator
    have hwhole : parseUndecorated (Numeral.render 10 n) = .ok (Int64.ofNat n) := by
      rw [hrender] at hplain hread ⊢
      rw [parseUndecorated_digit hplain, hread]
    exact hwhole

/-- All that a value is written as in a notation of digits: the numeral of a number, which is the
value itself unless that is negative, or a minus between the mark and the digits. -/
theorem format_cases (value : Int64) {f : LiteralFormat} (hf : f ≠ .character) :
    (∃ n : Nat, format value f = f.mark ++ Numeral.render f.base n ∧
      (0 ≤ value.toInt → n = value.toInt.toNat)) ∨
      (f ≠ .hexadecimal ∧ value.toInt < 0 ∧
        ∃ digits, format value f = f.mark ++ Byte.minus :: digits) := by
  have hsigned : ∀ base : Nat, (Numeral.renderInt base value.toInt =
        Numeral.render base value.toInt.natAbs ∧ 0 ≤ value.toInt) ∨
      (Numeral.renderInt base value.toInt = Byte.minus :: Numeral.render base value.toInt.natAbs ∧
        value.toInt < 0) := by
    intro base
    unfold Numeral.renderInt
    split
    · next hsign => exact Or.inr ⟨rfl, hsign⟩
    · next hsign => exact Or.inl ⟨rfl, by omega⟩
  cases f with
  | hexadecimal =>
    refine Or.inl ?_
    unfold format hex
    dsimp only
    split
    · next hnegative =>
      refine ⟨_, rfl, fun hsign => ?_⟩
      rw [Int64.lt_iff_toInt_lt] at hnegative
      have hzero : (0 : Int64).toInt = 0 := rfl
      omega
    · exact ⟨_, rfl, fun _ => rfl⟩
  | decimal =>
    rcases hsigned 10 with ⟨hrender, hsign⟩ | ⟨hrender, hsign⟩
    · exact Or.inl ⟨_, hrender, fun _ => by omega⟩
    · exact Or.inr ⟨by decide, hsign, _, hrender⟩
  | octal =>
    rcases hsigned 8 with ⟨hrender, hsign⟩ | ⟨hrender, hsign⟩
    · exact Or.inl ⟨_, congrArg (0x4F :: ·) hrender, fun _ => by omega⟩
    · exact Or.inr ⟨by decide, hsign, _, congrArg (0x4F :: ·) hrender⟩
  | binary =>
    rcases hsigned 2 with ⟨hrender, hsign⟩ | ⟨hrender, hsign⟩
    · exact Or.inl ⟨_, congrArg (Byte.percent :: ·) hrender, fun _ => by omega⟩
    · exact Or.inr ⟨by decide, hsign, _, congrArg (Byte.percent :: ·) hrender⟩
  | character => exact absurd rfl hf

/-- A value that is not negative is its number as a word. -/
theorem ofNat_toNat {value : Int64} (h : 0 ≤ value.toInt) :
    Int64.ofNat value.toInt.toNat = value := by
  rw [← Int64.ofInt_eq_ofNat, Int.toNat_of_nonneg h, Int64.ofInt_toInt]

/-- A value reads back from a notation of digits exactly when it has at most 32 bits. -/
theorem parse_format_iff {value : Int64} {f : LiteralFormat} (hf : f ≠ .character) :
    parse (format value f) = .ok value ↔ 0 ≤ value.toInt ∧ value.toInt < 0x100000000 := by
  have hmax : maxValue = 0xFFFFFFFF := rfl
  constructor
  · intro h
    have hbounds := toInt_of_parse h
    omega
  · rintro ⟨hlow, hhigh⟩
    rcases format_cases value hf with ⟨n, hformat, hn⟩ | ⟨_, hnegative, _⟩
    · rw [hformat, hn hlow, parse_numeral f (by omega), ofNat_toNat hlow]
    · omega

/-- A text between apostrophes denotes the one byte in it that is no quote, if there is one and no
separator is with it. -/
theorem parse_quoted_iff (inner : Text) (value : Int64) :
    parse (Byte.apostrophe :: (inner ++ [Byte.apostrophe])) = .ok value ↔
      inner.any Text.isSeparator = false ∧
        ∃ b, (inner.filter fun b => !Text.isQuote b) = [b] ∧ Int64.ofNat b.toNat = value := by
  have hmark : Text.isQuote Byte.apostrophe = true := rfl
  have hbare : undecorated (Byte.apostrophe :: (inner ++ [Byte.apostrophe])) =
      Byte.apostrophe :: (inner ++ [Byte.apostrophe]) := by
    have hopen : (Byte.apostrophe :: (inner ++ [Byte.apostrophe])).head? ≠ some Byte.openParen := by
      simp
    have hhash : (Byte.apostrophe :: (inner ++ [Byte.apostrophe])).head? ≠ some Byte.hash := by simp
    have hclose : (Byte.apostrophe :: (inner ++ [Byte.apostrophe])).getLast? ≠
        some Byte.closeParen := by
      rw [← List.cons_append, List.getLast?_concat]
      decide
    rw [undecorated, Text.withoutStart_of_head?_ne hopen, Text.withoutStart_of_head?_ne hhash,
      Text.withoutEnd_of_getLast?_ne hclose]
  have hany : (Byte.apostrophe :: (inner ++ [Byte.apostrophe])).any Text.isSeparator =
      inner.any Text.isSeparator := by
    have hplain : Text.isSeparator Byte.apostrophe = false := rfl
    rw [List.any_cons, List.any_append, List.any_cons, hplain, List.any_nil, Bool.false_or,
      Bool.or_false, Bool.or_false]
  rw [parse, hbare]
  cases hseparator : inner.any Text.isSeparator with
  | true =>
    rw [parseUndecorated.eq_def, if_pos (hany.trans hseparator)]
    simp
  | false =>
    have hcharacter : parseUndecorated (Byte.apostrophe :: (inner ++ [Byte.apostrophe])) =
        parseCharacter (Byte.apostrophe :: (inner ++ [Byte.apostrophe])) :=
      parseUndecorated_cons (hany.trans hseparator)
    have hfilter : ((Byte.apostrophe :: (inner ++ [Byte.apostrophe])).filter fun b =>
        !Text.isQuote b) = inner.filter fun b => !Text.isQuote b := by
      simp [List.filter_append, Text.isQuote]
    rw [hcharacter, parseCharacter, hfilter]
    split
    · next b hone => simp [hone]
    · next hnone =>
      simp only [reduceCtorEq, false_iff, true_and, not_exists, not_and]
      exact fun b hb => absurd hb (hnone b)

/-- The form of a code point between apostrophes denotes the code point, if that is in ASCII and no
separator and no quote. -/
theorem parse_character_iff {code : Nat} (hcode : code < 0x110000) (value : Int64) :
    parse (Byte.apostrophe :: (Glyph.encodeCode code ++ [Byte.apostrophe])) = .ok value ↔
      code < 0x80 ∧ code ∉ [9, 10, 13, 32, 34, 39] ∧ Int64.ofNat code = value := by
  rw [parse_quoted_iff]
  by_cases hascii : code < 0x80
  · have hone : Glyph.encodeCode code = [code.toUInt8] := by rw [Glyph.encodeCode, if_pos hascii]
    have hbyte : code.toUInt8.toNat = code := by
      have hfits : code < UInt8.size := Nat.lt_trans hascii (by decide)
      rw [Nat.toUInt8_eq, UInt8.toNat_ofNat_of_lt' hfits]
    have hexcluded : ∀ c : Fin 0x80, (Text.isSeparator c.val.toUInt8 = false ∧
        Text.isQuote c.val.toUInt8 = false) ↔ c.val ∉ [9, 10, 13, 32, 34, 39] := by decide
    have hthis := hexcluded ⟨code, hascii⟩
    simp only [hascii, true_and]
    rw [hone, ← hthis, List.any_cons, List.any_nil, Bool.or_false, and_assoc]
    refine and_congr_right fun _ => ?_
    cases hquote : Text.isQuote code.toUInt8 <;> simp [hquote, hbyte]
  · -- Outside of ASCII there is more than one byte, and none of them is a quote.
    have hkept : ((Glyph.encodeCode code).filter fun b => !Text.isQuote b) =
        Glyph.encodeCode code := by
      rw [List.filter_eq_self]
      intro b hb
      have hquote : ∀ q : UInt8, q.toNat < 0x80 → b ≠ q := by
        rintro q hq rfl
        exact Glyph.not_mem_encodeCode hcode hq (by omega) hb
      simp [Text.isQuote, hquote Byte.apostrophe (by decide), hquote Byte.doubleQuote (by decide)]
    have hlong : 2 ≤ (Glyph.encodeCode code).length := by
      rw [Glyph.encodeCode, if_neg hascii]
      split
      · exact Nat.le_refl 2
      · split <;> simp
    simp only [hascii, false_and, iff_false, hkept]
    rintro ⟨_, b, hone, _⟩
    rw [hone, List.length_singleton] at hlong
    exact absurd hlong (by decide)

/-- A character is written as the form of a code point, which is the value if that is in ASCII. -/
theorem format_character (value : Int64) :
    ∃ code, code < 0x110000 ∧ format value .character =
        Byte.apostrophe :: (Glyph.encodeCode code ++ [Byte.apostrophe]) ∧
      (0 ≤ value.toInt → value.toInt ≤ 127 → code = value.toInt.toNat) := by
  have hreplacement : Glyph.replacementCode < 0x110000 := by decide
  have hnarrow : value.toInt32.toInt = value.toInt.bmod 0x100000000 := value.toInt_toInt32
  have hsmall : 0 ≤ value.toInt → value.toInt ≤ 127 → value.toInt32.toInt = value.toInt := by
    intro hlow hhigh
    rw [hnarrow, Int.bmod_def]
    split <;> omega
  unfold format
  dsimp only
  split
  · next hnegative =>
    refine ⟨_, hreplacement, rfl, fun hlow hhigh => ?_⟩
    have := hsmall hlow hhigh
    omega
  · unfold Glyph.encodeScalar
    split
    · next hscalar =>
      refine ⟨_, Glyph.lt_of_isScalar hscalar, rfl, fun hlow hhigh => ?_⟩
      rw [hsmall hlow hhigh]
    · next hsurrogate =>
      refine ⟨_, hreplacement, rfl, fun hlow hhigh => ?_⟩
      rw [hsmall hlow hhigh, Glyph.isScalar] at hsurrogate
      have hless : value.toInt.toNat < 0xD800 := by omega
      rw [decide_eq_true hless, Bool.true_or] at hsurrogate
      exact absurd rfl hsurrogate

/-- A character reads back exactly when it is in ASCII and no separator and no quote. -/
theorem parse_format_character_iff (value : Int64) :
    parse (format value .character) = .ok value ↔ LiteralFormat.character.ReadsBack value := by
  obtain ⟨code, hcode, hformat, hsmall⟩ := format_character value
  rw [hformat, parse_character_iff hcode, LiteralFormat.ReadsBack]
  simp only [List.mem_cons, List.not_mem_nil, or_false, not_or]
  constructor
  · rintro ⟨hascii, hplain, rfl⟩
    have hvalue : (Int64.ofNat code).toInt = code :=
      toInt_ofNat (Nat.le_trans (Nat.le_of_lt hascii) (by decide))
    rw [hvalue]
    omega
  · rintro ⟨hlow, hhigh, hplain⟩
    rw [hsmall hlow hhigh]
    refine ⟨by omega, by omega, ofNat_toNat hlow⟩

/-- The reader of literals gives back exactly the values that the notation allows for. -/
theorem parse_format_iff_readsBack (value : Int64) (f : LiteralFormat) :
    parse (format value f) = .ok value ↔ f.ReadsBack value := by
  cases f with
  | character => exact parse_format_character_iff value
  | hexadecimal | decimal | octal | binary => exact parse_format_iff (by decide)

end Literal

namespace Expression

/-- An expression of one literal without a comma has the value of the literal. -/
theorem evaluate_ok_iff_parse {t : Text} (hcomma : Byte.comma ∉ t)
    (hone : Chain.split t = ⟨t, []⟩) {value : Int64} :
    evaluate t = .ok value ↔ Literal.parse t = .ok value := by
  have hwhole : t.before Byte.comma = t := by
    simpa using Text.before_append hcomma (.inl rfl)
  have hfold : (Chain.mk t []).leftFold = .ok value ↔ Literal.parse t = .ok value := by
    rw [Chain.leftFold, Chain.literalValue]
    cases Literal.parse t <;> simp [Except.mapError, bind, Except.bind, pure, Except.pure]
  rw [evaluate_ok_iff, hwhole, hone, hfold]
  exact ⟨fun h => h.2, fun h => ⟨Literal.any_isSeparator_of_parse h, h⟩⟩

/-- The evaluator reads a numeral with its mark as the reader of literals does. -/
theorem evaluate_numeral_iff (f : LiteralFormat) (n : Nat) (value : Int64) :
    evaluate (f.mark ++ Numeral.render f.base n) = .ok value ↔
      Literal.parse (f.mark ++ Numeral.render f.base n) = .ok value := by
  have hinert := Literal.isInert_numeral f n
  refine evaluate_ok_iff_parse (fun hcomma => ?_) (Chain.split_of_plain fun b hb => ?_)
  · exact absurd (hinert _ hcomma) (by decide)
  · have hb := hinert b hb
    simp only [Literal.isInert, Bool.and_eq_true, Bool.not_eq_true', Option.isNone_iff_eq_none,
      and_assoc] at hb
    exact ⟨hb.2.1, hb.1⟩

/-- A minus behind a mark leaves the mark alone, which denotes nothing. -/
theorem evaluate_minus_ne_ok {f : LiteralFormat} (digits : Text) (value : Int64) :
    evaluate (f.mark ++ Byte.minus :: digits) ≠ .ok value := by
  have hbefore : (f.mark ++ Byte.minus :: digits).before Byte.comma =
      f.mark ++ Operator.subtract.byte :: digits.before Byte.comma := by
    cases f <;> rfl
  have hplain : ∀ b ∈ f.mark, Text.isQuote b = false ∧ Operator.ofByte? b = none := by
    cases f <;> simp [LiteralFormat.mark] <;> decide
  have hsplit : (Chain.split (f.mark ++ Operator.subtract.byte :: digits.before Byte.comma)).head =
      f.mark := by
    rw [Chain.split_append_of_plain hplain, Chain.split_operator]
    exact List.append_nil f.mark
  have hmark : ∃ kind, Chain.literalValue f.mark = .error kind := by
    cases f <;> exact ⟨_, rfl⟩
  obtain ⟨kind, hkind⟩ := hmark
  rw [Ne, evaluate_ok_iff, hbefore, Chain.leftFold, hsplit, hkind]
  rintro ⟨_, hfold⟩
  exact absurd hfold (by simp [bind, Except.bind])

/-- In a notation of digits the evaluator gives back the values that the reader of literals does. -/
theorem evaluate_format_iff {value : Int64} {f : LiteralFormat} (hf : f ≠ .character) :
    evaluate (Literal.format value f) = .ok value ↔
      Literal.parse (Literal.format value f) = .ok value := by
  rcases Literal.format_cases value hf with ⟨n, hformat, _⟩ | ⟨_, hnegative, digits, hformat⟩
  · rw [hformat]
    exact evaluate_numeral_iff f n value
  · have hnot : ¬ Literal.parse (Literal.format value f) = .ok value := by
      intro hparse
      have hbounds := Literal.toInt_of_parse hparse
      omega
    rw [hformat] at hnot ⊢
    exact iff_of_false (evaluate_minus_ne_ok digits value) hnot

/-- Of the characters the evaluator gives back those that the reader of literals does, less the
comma. -/
theorem evaluate_character_iff {code : Nat} (hcode : code < 0x110000) (value : Int64) :
    evaluate (Byte.apostrophe :: (Glyph.encodeCode code ++ [Byte.apostrophe])) = .ok value ↔
      Literal.parse (Byte.apostrophe :: (Glyph.encodeCode code ++ [Byte.apostrophe])) = .ok value ∧
        code ≠ 44 := by
  by_cases hcomma : code = 44
  · subst hcomma
    simp only [ne_eq, not_true_eq_false, and_false, iff_false]
    exact evaluate_ne_ok (by decide) value
  · by_cases hapostrophe : code = 39
    · -- The second quote closes the first one, and the third is left over.
      subst hapostrophe
      rw [Literal.parse_character_iff hcode]
      simp only [List.mem_cons, not_true_eq_false, or_true, true_or, false_and, and_false,
        iff_false]
      exact evaluate_ne_ok (by decide) value
    · have hquote : Text.isQuote Byte.apostrophe = true := rfl
      have hinner : Byte.apostrophe ∉ Glyph.encodeCode code :=
        Glyph.not_mem_encodeCode hcode (by decide) hapostrophe
      have hsplit := Chain.split_span hquote hinner []
      have hplain :
          Byte.comma ∉ Byte.apostrophe :: (Glyph.encodeCode code ++ [Byte.apostrophe]) := by
        have hnone : Byte.comma ∉ Glyph.encodeCode code :=
          Glyph.not_mem_encodeCode hcode (by decide) hcomma
        simpa using hnone
      rw [evaluate_ok_iff_parse hplain hsplit]
      simp [hcomma]

end Expression

namespace Literal

/-- A value reads back from its literal exactly when it has at most 32 bits, as a character exactly
when it is in ASCII and no quote, blank, tab or end of line. The evaluator gives back the same
values less one: it fails on a comma in quotes. -/
theorem literal_reads_back_iff (value : Int64) (f : LiteralFormat) :
    (parse (format value f) = .ok value ↔ f.ReadsBack value) ∧
      (Expression.evaluate (format value f) = .ok value ↔
        f.ReadsBack value ∧ ¬ (f = .character ∧ value = 44)) ∧
      ∃ cause, Expression.evaluate (format 44 .character) = .error cause := by
  have hread := parse_format_iff_readsBack value f
  refine ⟨hread, ?_, .operand [Byte.apostrophe] (.notCharacter [Byte.apostrophe]), by decide⟩
  by_cases hf : f = .character
  · subst hf
    obtain ⟨code, hcode, hformat, hsmall⟩ := format_character value
    have hevaluate := Expression.evaluate_character_iff hcode value
    rw [← hformat, hread] at hevaluate
    rw [hevaluate]
    refine and_congr_right fun hback => ?_
    have hsame : code = 44 ↔ value = 44 := by
      have hnumber : value = 44 ↔ value.toInt = 44 := (Int64.toInt_inj (y := 44)).symm
      rw [hsmall hback.1 hback.2.1, hnumber]
      omega
    simp [hsame]
  · rw [Expression.evaluate_format_iff hf, hread]
    simp [hf]

end Literal

end ColumnAssembler
