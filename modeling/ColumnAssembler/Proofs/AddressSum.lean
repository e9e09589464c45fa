import ColumnAssembler.Proofs.AddressLiteral

/-!
# Sums with the literal of an address

A literal of any notation denotes a number of at most 32 bits, and no separator stands in it. So an
expression that adds a literal to that of an address, or takes one from it, is a chain of two
operands, and its value is the sum or the difference.
-/

namespace ColumnAssembler

namespace Numeral

/-- A number that is read on is within the limit. -/
theorem readFrom_le {base limit value n : Nat} {t : Text} (hvalue : value ≤ limit)
    (h : readFrom base limit value t = .ok n) : n ≤ limit := by
  induction t generalizing value with
  | nil =>
    rw [readFrom, Except.ok.injEq] at h
    omega
  | cons b rest ih =>
    rw [readFrom] at h
    split at h
    · simp at h
    · split at h
      · simp at h
      · split at h
        · simp at h
        · next hwithin => exact ih (Nat.le_of_not_lt hwithin) h

/-- A numeral denotes a number within the limit. -/
theorem read_le {base limit n : Nat} {t : Text} (h : read base limit t = .ok n) : n ≤ limit := by
  unfold read at h
  split at h
  · simp at h
  · exact readFrom_le (Nat.zero_le limit) h

end Numeral

namespace Text

/-- Only the byte taken off the start of a text may be missing in the rest. -/
theorem mem_withoutStart {b c : UInt8} {t : Text} (hb : b ∈ t) (hne : b ≠ c) :
    b ∈ withoutStart [c] t := by
  unfold withoutStart
  split
  · next hstart =>
    obtain ⟨rest, rfl⟩ := List.isPrefixOf_iff_prefix.mp hstart
    exact (List.mem_cons.mp hb).resolve_left hne
  · exact hb

/-- Only the byte taken off the end of a text may be missing in the rest. -/
theorem mem_withoutEnd {b c : UInt8} {t : Text} (hb : b ∈ t) (hne : b ≠ c) :
    b ∈ withoutEnd [c] t := by
  unfold withoutEnd
  split
  · next hend =>
    obtain ⟨front, rfl⟩ := List.isSuffixOf_iff_suffix.mp hend
    have hfront : (front ++ [c]).take ((front ++ [c]).length - [c].length) = front := by simp
    rw [hfront]
    exact (List.mem_append.mp hb).resolve_right fun h => hne (List.mem_singleton.mp h)
  · exact hb

/-- A text that begins otherwise is left as it is. -/
theorem withoutStart_of_head?_ne {c : UInt8} {t : Text} (h : t.head? ≠ some c) :
    withoutStart [c] t = t := by
  have hstart : ¬ [c].isPrefixOf t = true := by
    intro hprefix
    obtain ⟨rest, rfl⟩ := List.isPrefixOf_iff_prefix.mp hprefix
    exact h rfl
  rw [withoutStart, if_neg hstart]

/-- The first byte is taken off. -/
theorem withoutStart_cons (c : UInt8) (t : Text) : withoutStart [c] (c :: t) = t := by
  simp [withoutStart]

/-- What is taken off the start does not depend on a different byte behind the text. -/
theorem withoutStart_concat {c d : UInt8} (h : c ≠ d) (t : Text) :
    withoutStart [c] (t ++ [d]) = withoutStart [c] t ++ [d] := by
  cases t with
  | nil =>
    have hother : [d].head? ≠ some c := fun hsome => h (Option.some.inj hsome).symm
    exact withoutStart_of_head?_ne hother
  | cons b rest =>
    by_cases hb : b = c
    · rw [hb, List.cons_append, withoutStart_cons, withoutStart_cons]
    · have hhead : (b :: rest).head? ≠ some c := fun hsome => hb (Option.some.inj hsome)
      have hlonger : (b :: rest ++ [d]).head? ≠ some c := hhead
      rw [withoutStart_of_head?_ne hhead, withoutStart_of_head?_ne hlonger]

/-- What is left without a start ends as the text does. -/
theorem getLast?_withoutStart {c d : UInt8} {t : Text}
    (h : (withoutStart [c] t).getLast? = some d) : t.getLast? = some d := by
  unfold withoutStart at h
  split at h
  · rw [List.getLast?_drop] at h
    split at h
    · simp at h
    · exact h
  · exact h

/-- The last byte is taken off. -/
theorem withoutEnd_concat (d : UInt8) (t : Text) : withoutEnd [d] (t ++ [d]) = t := by
  have hend : [d].isSuffixOf (t ++ [d]) = true :=
    List.isSuffixOf_iff_suffix.mpr (List.suffix_append t [d])
  rw [withoutEnd, if_pos hend]
  simp

/-- A text that ends otherwise is left as it is. -/
theorem withoutEnd_of_getLast?_ne {d : UInt8} {t : Text} (h : t.getLast? ≠ some d) :
    withoutEnd [d] t = t := by
  have hend : ¬ [d].isSuffixOf t = true := by
    intro hsuffix
    obtain ⟨front, rfl⟩ := List.isSuffixOf_iff_suffix.mp hsuffix
    exact h (by simp)
  rw [withoutEnd, if_neg hend]

/-- What stands before the first occurrence of a byte is all that the byte follows, if it does not
occur in it. -/
theorem before_append {c : UInt8} {t : Text} (h : c ∉ t) {rest : Text}
    (hrest : rest = [] ∨ rest.head? = some c) : (t ++ rest).before c = t := by
  have hplain : ∀ b ∈ t, decide (b ≠ c) = true :=
    fun b hb => decide_eq_true (ne_of_mem_of_not_mem hb h)
  rw [before, List.takeWhile_append_of_pos hplain]
  rcases hrest with rfl | hhead
  · rw [List.takeWhile_nil, List.append_nil]
  · obtain ⟨behind, rfl⟩ := List.head?_eq_some_iff.mp hhead
    rw [List.takeWhile_cons_of_neg (by simp), List.append_nil]

end Text

namespace Literal

/-- The digits of a literal denote a number of at most 32 bits. -/
theorem parseDigits_ok {literal digits : Text} {base : Nat} {value : Int64}
    (h : parseDigits literal digits base = .ok value) :
    ∃ n, n ≤ maxValue ∧ value = Int64.ofNat n := by
  unfold parseDigits at h
  split at h
  · simp at h
  · split at h
    · next n hread => exact ⟨n, Numeral.read_le hread, (Except.ok.inj h).symm⟩
    · simp at h

/-- A quoted byte denotes a number of at most 32 bits. -/
theorem parseCharacter_ok {literal : Text} {value : Int64}
    (h : parseCharacter literal = .ok value) : ∃ n, n ≤ maxValue ∧ value = Int64.ofNat n := by
  unfold parseCharacter at h
  split at h
  · next b _ =>
    exact ⟨b.toNat, Nat.le_trans (Nat.le_of_lt b.toNat_lt) (by decide), (Except.ok.inj h).symm⟩
  · simp at h

/-- A literal denotes a number of at most 32 bits. -/
theorem parse_ok {t : Text} {value : Int64} (h : parse t = .ok value) :
    ∃ n, n ≤ maxValue ∧ value = Int64.ofNat n := by
  unfold parse parseUndecorated at h
  split at h
  · simp at h
  · split at h
    · simp at h
    · split at h
      · exact parseDigits_ok h
      · split at h
        · exact parseDigits_ok h
        · split at h
          · exact parseDigits_ok h
          · split at h
            · exact parseCharacter_ok h
            · exact parseDigits_ok h

/-- The value of a literal is not negative and has at most 32 bits. -/
theorem toInt_of_parse {t : Text} {value : Int64} (h : parse t = .ok value) :
    0 ≤ value.toInt ∧ value.toInt ≤ maxValue := by
  obtain ⟨n, hn, rfl⟩ := parse_ok h
  rw [toInt_ofNat hn]
  omega

/-- Decoration is no separator, so a separator is not taken off a text with it. -/
theorem mem_undecorated {b : UInt8} {t : Text} (hb : b ∈ t)
    (hseparator : Text.isSeparator b = true) : b ∈ undecorated t := by
  have hne : ∀ c : UInt8, Text.isSeparator c = false → b ≠ c := by
    rintro c hc rfl
    exact Bool.false_ne_true (hc.symm.trans hseparator)
  exact Text.mem_withoutEnd (Text.mem_withoutStart (Text.mem_withoutStart hb (hne _ rfl))
    (hne _ rfl)) (hne _ rfl)

/-- No separator stands in a literal. -/
theorem any_isSeparator_of_parse {t : Text} {value : Int64} (h : parse t = .ok value) :
    t.any Text.isSeparator = false := by
  rw [List.any_eq_false]
  intro b hb hseparator
  have hany : (undecorated t).any Text.isSeparator = true :=
    List.any_eq_true.mpr ⟨b, mem_undecorated hb hseparator, hseparator⟩
  unfold parse parseUndecorated at h
  rw [if_pos hany] at h
  simp at h

end Literal

namespace Operator

/-- What a sum or a difference adds: the amount, or its opposite. -/
def signed (op : Operator) (amount : Int) : Int := if op = .subtract then -amount else amount

/-- A sum or a difference in 64-bit words adds the signed amount. -/
theorem combine?_eq {op : Operator} (hop : op = .add ∨ op = .subtract) (n : Nat) (value : Int64) :
    op.combine? (Int64.ofNat n) value = some (Int64.ofInt (n + op.signed value.toInt)) := by
  rcases hop with rfl | rfl
  · rw [combine?, signed, if_neg (by decide), Int64.ofInt_add, Int64.ofInt_toInt,
      Int64.ofInt_eq_ofNat]
  · rw [combine?, signed, if_pos rfl, ← Int.sub_eq_add_neg, Int64.ofInt_sub, Int64.ofInt_toInt,
      Int64.ofInt_eq_ofNat]

end Operator

/-- An operator outside of quotes ends an operand. -/
theorem Chain.split_operator (op : Operator) (t : Text) :
    split (op.byte :: t) = (split t).divide op := by
  have hquote : Text.isQuote op.byte = false := by cases op <;> rfl
  rw [split, splitFrom, hquote, Bool.false_and, if_neg Bool.false_ne_true, Operator.ofByte?_byte]
  rfl

namespace Expression

/-- The value of the literal of an address with a literal added or taken away. -/
theorem evaluate_sum {n : Nat} (hn : n ≤ Literal.maxValue) {op : Operator}
    (hop : op = .add ∨ op = .subtract) {t : Text} {value : Int64}
    (hparse : Literal.parse t = .ok value) (hone : Chain.split t = ⟨t, []⟩)
    (hcomma : Byte.comma ∉ t) :
    evaluate (Literal.ofAddress n ++ op.byte :: t) =
      .ok (Int64.ofInt (n + op.signed value.toInt)) := by
  have hwhole : (Literal.ofAddress n ++ op.byte :: t).before Byte.comma =
      Literal.ofAddress n ++ op.byte :: t := by
    have hfront : ∀ b ∈ Literal.ofAddress n, b ≠ Byte.comma :=
      Literal.forall_mem_format (P := fun b => b ≠ Byte.comma) _ (by decide) (by decide)
    have hoperator : op.byte ≠ Byte.comma := by cases op <;> decide
    rw [Text.before, List.takeWhile_eq_self_iff]
    intro b hb
    rw [decide_eq_true_iff]
    rcases List.mem_append.mp hb with hb | hb
    · exact hfront b hb
    · rcases List.mem_cons.mp hb with rfl | hb
      · exact hoperator
      · exact ne_of_mem_of_not_mem hb hcomma
  have hblank : (Literal.ofAddress n ++ op.byte :: t).any Text.isSeparator = false := by
    have hoperator : Text.isSeparator op.byte = false := by cases op <;> rfl
    have hfront : (Literal.ofAddress n).any Text.isSeparator = false :=
      Literal.any_isSeparator_format _
    rw [List.any_append, List.any_cons, hfront, hoperator,
      Literal.any_isSeparator_of_parse hparse]
    rfl
  have hsome : (Literal.ofAddress n ++ op.byte :: t).isEmpty = false := by
    rw [Literal.ofAddress_eq hn]
    rfl
  have hsplit : Chain.split (Literal.ofAddress n ++ op.byte :: t) =
      ⟨Literal.ofAddress n, [(op, t)]⟩ := by
    have hplain : ∀ b ∈ Literal.ofAddress n, Text.isQuote b = false ∧ Operator.ofByte? b = none :=
      Literal.forall_mem_format (P := fun b => Text.isQuote b = false ∧ Operator.ofByte? b = none) _
        (by decide) (by decide)
    rw [Chain.split_append_of_plain hplain, Chain.split_operator, hone]
    exact congrArg (Chain.mk · [(op, t)]) (List.append_nil _)
  simp only [evaluate, hwhole, hsome, hblank, hsplit, evaluateChain, operandValue,
    Literal.parse_ofAddress hn, hparse, fold, Operator.combine?_eq hop, Bool.false_eq_true,
    reduceIte]

end Expression

end ColumnAssembler
