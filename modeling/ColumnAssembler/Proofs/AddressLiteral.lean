import ColumnAssembler.Expression
import Mathlib.Data.List.TakeWhile

/-!
# Literals of addresses

A numeral reads back as the number it was written for, in every base, up to the limit of the
reader. So the hexadecimal literal that takes the place of a name in an operand has the value of
the name: its bytes are a dollar sign and capital hexadecimal digits, none of which divides an
expression, decorates a literal or names an index register.
-/

namespace ColumnAssembler

namespace Numeral

/-- Every digit has its byte and every such byte its digit. -/
theorem digitValue?_digitByte {digit : Nat} (h : digit < 36) :
    digitValue? (digitByte digit) = some digit := by
  have hall : ∀ d : Fin 36, digitValue? (digitByte d) = some d.val := by decide
  exact hall ⟨digit, h⟩

/-- The digits of a number are digits of the base. -/
theorem lowDigits_lt {base : Nat} (hbase : 0 < base) (room n : Nat) :
    ∀ digit ∈ lowDigits base room n, digit < base := by
  induction room generalizing n with
  | zero => simp [lowDigits]
  | succ room ih =>
    rw [lowDigits]
    split
    · next h => simpa using h
    · intro digit hdigit
      rcases List.mem_cons.mp hdigit with rfl | hrest
      · exact Nat.mod_lt n hbase
      · exact ih (n / base) digit hrest

/-- With room for all digits of a number, they are those of the number. -/
theorem foldr_lowDigits {base : Nat} (hbase : 2 ≤ base) {room n : Nat} (h : n < room) :
    (lowDigits base room n).foldr (fun digit value => value * base + digit) 0 = n := by
  induction room generalizing n with
  | zero => omega
  | succ room ih =>
    rw [lowDigits]
    split
    · simp
    · next hge =>
      have hsmaller : n / base < room := by
        have := Nat.div_lt_self (by omega : 0 < n) hbase
        omega
      rw [List.foldr_cons, ih hsmaller]
      exact Nat.div_add_mod' n base

/-- The digits of a number, highest first, make up the number. -/
theorem foldl_digits {base : Nat} (hbase : 2 ≤ base) (n : Nat) :
    (digits base n).foldl (fun value digit => value * base + digit) 0 = n := by
  rw [digits, List.foldl_reverse]
  exact foldr_lowDigits hbase (Nat.lt_succ_self n)

/-- Every number has a digit. -/
theorem render_ne_nil (base n : Nat) : render base n ≠ [] := by
  rw [render, digits, lowDigits]
  split <;> simp

/-- Reading on never makes the number smaller. -/
theorem le_foldl_digits {base : Nat} (hbase : 1 ≤ base) (digits : List Nat) (value : Nat) :
    value ≤ digits.foldl (fun value digit => value * base + digit) value := by
  induction digits generalizing value with
  | nil => exact Nat.le_refl value
  | cons digit rest ih =>
    have hhere : value ≤ value * base := Nat.le_mul_of_pos_right value hbase
    have hrest := ih (value * base + digit)
    rw [List.foldl_cons]
    omega

/-- Digits of the base are read as the number they make up, within the limit. -/
theorem readFrom_map_digitByte {base limit : Nat} (hlow : 1 ≤ base) (hhigh : base ≤ 36)
    (digits : List Nat) (value : Nat) (hdigits : ∀ digit ∈ digits, digit < base)
    (hlimit : digits.foldl (fun value digit => value * base + digit) value ≤ limit) :
    readFrom base limit value (digits.map digitByte) =
      .ok (digits.foldl (fun value digit => value * base + digit) value) := by
  induction digits generalizing value with
  | nil => rfl
  | cons digit rest ih =>
    have hdigit := hdigits digit List.mem_cons_self
    have hnext := le_foldl_digits hlow rest (value * base + digit)
    rw [List.foldl_cons] at hlimit ⊢
    rw [List.map_cons, readFrom, digitValue?_digitByte (by omega)]
    dsimp only
    rw [if_neg (by omega), if_neg (by omega)]
    exact ih _ (fun d hd => hdigits d (List.mem_cons_of_mem digit hd)) hlimit

/-- A numeral reads back as the number it was written for, within the limit. -/
theorem read_render {base limit n : Nat} (hlow : 2 ≤ base) (hhigh : base ≤ 36) (h : n ≤ limit) :
    read base limit (render base n) = .ok n := by
  have hvalue := foldl_digits hlow n
  have hdigits : ∀ digit ∈ digits base n, digit < base := by
    intro digit hdigit
    exact lowDigits_lt (by omega) _ _ digit (List.mem_reverse.mp hdigit)
  rw [read, if_neg (by simpa using render_ne_nil base n), render,
    readFrom_map_digitByte (by omega) hhigh _ _ hdigits (by omega), hvalue]

/-- The bytes of a numeral are digits of the base. -/
theorem mem_render {b : UInt8} {base n : Nat} (hbase : 0 < base) (h : b ∈ render base n) :
    ∃ digit : Fin base, b = digitByte digit := by
  obtain ⟨digit, hdigit, rfl⟩ := List.mem_map.mp h
  exact ⟨⟨digit, lowDigits_lt hbase _ _ digit (List.mem_reverse.mp hdigit)⟩, rfl⟩

/-- The bytes of a hexadecimal numeral are capital hexadecimal digits. -/
theorem mem_hex {b : UInt8} {n : Nat} (h : b ∈ hex n) : ∃ digit : Fin 16, b = digitByte digit :=
  mem_render (by decide) h

end Numeral

namespace Chain

/-- A text without quotes and operators in front belongs to the first operand. -/
theorem split_append_of_plain {front : Text}
    (h : ∀ b ∈ front, Text.isQuote b = false ∧ Operator.ofByte? b = none) (t : Text) :
    split (front ++ t) = ⟨front ++ (split t).head, (split t).rest⟩ := by
  unfold split
  induction front with
  | nil => rfl
  | cons b front ih =>
    obtain ⟨hquote, hoperator⟩ := h b List.mem_cons_self
    rw [List.cons_append, splitFrom, hquote, Bool.false_and, if_neg Bool.false_ne_true, hoperator,
      ih fun c hc => h c (List.mem_cons_of_mem b hc)]
    rfl

/-- A text without quotes and operators is a chain of one operand. -/
theorem split_of_plain {t : Text}
    (h : ∀ b ∈ t, Text.isQuote b = false ∧ Operator.ofByte? b = none) : split t = ⟨t, []⟩ := by
  have hwhole := split_append_of_plain h []
  rw [List.append_nil] at hwhole
  rw [hwhole]
  exact congrArg (Chain.mk · []) (List.append_nil t)

end Chain

namespace Literal

/-- A hexadecimal literal is a dollar sign and a hexadecimal numeral. -/
theorem format_hexadecimal (value : Int64) :
    ∃ n, format value .hexadecimal = Byte.dollar :: Numeral.hex n := by
  unfold format hex
  dsimp only
  split <;> exact ⟨_, rfl⟩

/-- What holds of the dollar sign and of all digits holds of every byte of a hexadecimal literal. -/
theorem forall_mem_format {P : UInt8 → Prop} (value : Int64) (hdollar : P Byte.dollar)
    (hdigits : ∀ digit : Fin 16, P (Numeral.digitByte digit)) :
    ∀ b ∈ format value .hexadecimal, P b := by
  obtain ⟨n, hn⟩ := format_hexadecimal value
  rw [hn]
  intro b hb
  rcases List.mem_cons.mp hb with rfl | hb
  · exact hdollar
  · obtain ⟨digit, rfl⟩ := Numeral.mem_hex hb
    exact hdigits digit

/-- A number that a literal may denote fits in a 64-bit word. -/
theorem toInt_ofNat {n : Nat} (h : n ≤ maxValue) : (Int64.ofNat n).toInt = n := by
  apply Int64.toInt_ofNat_of_lt
  unfold maxValue at h
  omega

/-- The literal of an address is a dollar sign and its hexadecimal numeral. -/
theorem ofAddress_eq {n : Nat} (h : n ≤ maxValue) : ofAddress n = Byte.dollar :: Numeral.hex n := by
  have hsign : ¬ Int64.ofNat n < 0 := by
    rw [Int64.lt_iff_toInt_lt, toInt_ofNat h]
    exact Int.not_lt.mpr (Int.natCast_nonneg n)
  rw [ofAddress, format, hex, if_neg hsign, toInt_ofNat h, Int.toNat_natCast]

/-- A literal without decoration keeps all its bytes. -/
theorem undecorated_format (value : Int64) :
    undecorated (format value .hexadecimal) = format value .hexadecimal := by
  have hend : [Byte.closeParen].isSuffixOf (format value .hexadecimal) = false := by
    apply eq_false_of_ne_true
    intro hsuffix
    have hmem := (List.isSuffixOf_iff_suffix.mp hsuffix).mem List.mem_cons_self
    exact forall_mem_format (P := fun b => b ≠ Byte.closeParen) value (by decide) (by decide) _
      hmem rfl
  obtain ⟨n, hn⟩ := format_hexadecimal value
  rw [hn] at hend ⊢
  have hopen : Text.withoutStart [Byte.openParen] (Byte.dollar :: Numeral.hex n) =
      Byte.dollar :: Numeral.hex n := rfl
  have hhash : Text.withoutStart [Byte.hash] (Byte.dollar :: Numeral.hex n) =
      Byte.dollar :: Numeral.hex n := rfl
  rw [undecorated, hopen, hhash, Text.withoutEnd, hend, if_neg Bool.false_ne_true]

/-- There is no separator in a literal. -/
theorem any_isSeparator_format (value : Int64) :
    (format value .hexadecimal).any Text.isSeparator = false := by
  rw [List.any_eq_false]
  exact forall_mem_format (P := fun b => ¬ Text.isSeparator b = true) value (by decide) (by decide)

/-- The literal of an address denotes it. -/
theorem parse_ofAddress {n : Nat} (h : n ≤ maxValue) :
    parse (ofAddress n) = .ok (Int64.ofNat n) := by
  have hblank : (ofAddress n).any Text.isSeparator = false := any_isSeparator_format _
  have hdigits : (Numeral.hex n).isEmpty = false :=
    List.isEmpty_eq_false_iff.mpr (Numeral.render_ne_nil 16 n)
  have hread : Numeral.read 16 maxValue (Numeral.hex n) = .ok n :=
    Numeral.read_render (by decide) (by decide) h
  have hbare : undecorated (ofAddress n) = ofAddress n := undecorated_format _
  rw [ofAddress_eq h] at hblank hbare ⊢
  simp only [parse, hbare, parseUndecorated, hblank, parseDigits, hdigits, hread, reduceIte,
    Bool.false_eq_true]

end Literal

namespace Expression

/-- The literal of an address has the address as its value. -/
theorem evaluate_ofAddress {n : Nat} (h : n ≤ Literal.maxValue) :
    evaluate (Literal.ofAddress n) = .ok (Int64.ofNat n) := by
  have hwhole : (Literal.ofAddress n).before Byte.comma = Literal.ofAddress n := by
    rw [Text.before, List.takeWhile_eq_self_iff]
    exact Literal.forall_mem_format (P := fun b => decide (b ≠ Byte.comma) = true) _ (by decide)
      (by decide)
  have hplain : Chain.split (Literal.ofAddress n) = ⟨Literal.ofAddress n, []⟩ :=
    Chain.split_of_plain <| Literal.forall_mem_format
      (P := fun b => Text.isQuote b = false ∧ Operator.ofByte? b = none) _ (by decide) (by decide)
  have hblank : (Literal.ofAddress n).any Text.isSeparator = false :=
    Literal.any_isSeparator_format _
  have hsome : (Literal.ofAddress n).isEmpty = false := by rw [Literal.ofAddress_eq h]; rfl
  simp only [evaluate, hwhole, hsome, hblank, hplain, evaluateChain, operandValue,
    Literal.parse_ofAddress h, fold, Bool.false_eq_true, reduceIte]

end Expression

end ColumnAssembler
