import ColumnAssembler.Proofs.AddressSum

/-!
# Chains of literals

An expression is divided at its operators before anything is evaluated, and a quoted byte protects
an operator that stands between its quotes. The main statement says that this division finds the
literals and operators that the expression was put together from, so that its value is the left fold
over them: each literal is read before its operator is applied to the value so far, and the first
error stands. Arithmetic is that of integers wrapped around to 64 bits. A literal is never negative
and has at most 32 bits, so a quotient is always the exact one.
-/

namespace ColumnAssembler

/-- What an expression error is about, whatever text it cites. -/
inductive ErrorKind where
  /-- There is no literal where one is expected. -/
  | empty
  /-- A text is no literal. -/
  | invalidLiteral
  /-- There is a blank, a tab or an end of line. -/
  | whitespace
  /-- Something is divided by zero. -/
  | divisionByZero
  deriving DecidableEq, Repr

/-- The kind of a literal error. -/
def LiteralError.kind : LiteralError → ErrorKind
  | empty => .empty
  | whitespace _ => .whitespace
  | noDigits _ | notNumber _ _ | notCharacter _ => .invalidLiteral

/-- The kind of an expression error. An operand passes on what is wrong with its literal. -/
def ExpressionError.kind : ExpressionError → ErrorKind
  | empty => .empty
  | whitespace _ => .whitespace
  | operand _ cause => cause.kind
  | divisionByZero _ => .divisionByZero

namespace Operator

/-- The result of an operator: the integer result wrapped around to 64 bits, a quotient rounded
toward zero, and the bitwise operators on the bits of the words. -/
def result (op : Operator) (a b : Int64) : Except ErrorKind Int64 :=
  match op with
  | add => .ok (Int64.ofInt (a.toInt + b.toInt))
  | subtract => .ok (Int64.ofInt (a.toInt - b.toInt))
  | multiply => .ok (Int64.ofInt (a.toInt * b.toInt))
  | divide =>
    if b.toInt = 0 then .error .divisionByZero else .ok (Int64.ofInt (a.toInt.tdiv b.toInt))
  | both => .ok (a &&& b)
  | either => .ok (a ||| b)
  | differ => .ok (a ^^^ b)

/-- Word arithmetic gives the wrapped result, and nothing exactly for a division by zero. -/
theorem result_eq (op : Operator) (a b : Int64) : op.result a b =
    match op.combine? a b with
    | some r => .ok r
    | none => .error .divisionByZero := by
  cases op with
  | add => rw [result, combine?, Int64.ofInt_add, Int64.ofInt_toInt, Int64.ofInt_toInt]
  | subtract => rw [result, combine?, Int64.ofInt_sub, Int64.ofInt_toInt, Int64.ofInt_toInt]
  | multiply => rw [result, combine?, Int64.ofInt_mul, Int64.ofInt_toInt, Int64.ofInt_toInt]
  | divide =>
    have hzero : b.toInt = 0 ↔ b = 0 := (Int64.toInt_inj (y := 0))
    have hquotient : Int64.ofInt (a.toInt.tdiv b.toInt) = a / b := by
      rw [Int64.ofInt_tdiv a.minValue_le_toInt a.toInt_le b.minValue_le_toInt b.toInt_le,
        Int64.ofInt_toInt, Int64.ofInt_toInt]
    rw [result, combine?]
    by_cases h : b = 0
    · rw [if_pos (hzero.mpr h), if_pos h]
    · rw [if_neg fun hb => h (hzero.mp hb), if_neg h, hquotient]
  | both | either | differ => rfl

/-- An operator fails only for a division by zero. -/
theorem kind_of_result {op : Operator} {a b : Int64} {kind : ErrorKind}
    (h : op.result a b = .error kind) : kind = .divisionByZero := by
  rw [result_eq] at h
  split at h
  · simp at h
  · exact (Except.error.inj h).symm

end Operator

namespace Literal

/-- A quotient by a literal is exact: only a divisor of minus one can take it out of the word. -/
theorem toInt_div_of_parse {t : Text} {b : Int64} (h : parse t = .ok b) (a : Int64) :
    (a / b).toInt = a.toInt.tdiv b.toInt := by
  apply Int64.toInt_div_of_ne_right
  rintro rfl
  exact absurd (toInt_of_parse h).1 (by decide)

end Literal

namespace Chain

/-- The operands of a chain in order. -/
def operands (chain : Chain) : List Text := chain.head :: chain.rest.map (·.2)

/-- The value of a literal, or the kind of its error. -/
def literalValue (t : Text) : Except ErrorKind Int64 :=
  (Literal.parse t).mapError LiteralError.kind

/-- One step of the left fold: the next literal is read, then its operator is applied. -/
def foldStep (value : Int64) (link : Operator × Text) : Except ErrorKind Int64 :=
  literalValue link.2 >>= link.1.result value

/-- The left fold over the literals of a chain, stopped by the first error. -/
def leftFold (chain : Chain) : Except ErrorKind Int64 :=
  literalValue chain.head >>= fun first => chain.rest.foldlM foldStep first

/-- A literal as it can stand in a chain: a text without operators, commas, quotes and separators,
or one byte that is no comma, quote or separator between two equal quotes. -/
inductive IsLiteral : Text → Prop where
  /-- Nothing in the text has a meaning to the chain. -/
  | plain {t : Text} (h : ∀ b ∈ t, Operator.ofByte? b = none ∧ b ≠ Byte.comma ∧
      Text.isQuote b = false ∧ Text.isSeparator b = false) : IsLiteral t
  /-- The byte between the quotes may be that of an operator. -/
  | quoted {quote b : UInt8} (hquote : Text.isQuote quote = true) (hcomma : b ≠ Byte.comma)
      (hinner : Text.isQuote b = false) (hseparator : Text.isSeparator b = false) :
      IsLiteral [quote, b, quote]

/-- No literal of a chain has a comma or a separator. -/
theorem IsLiteral.inert {t : Text} (h : IsLiteral t) :
    ∀ b ∈ t, b ≠ Byte.comma ∧ Text.isSeparator b = false := by
  cases h with
  | plain hplain => exact fun b hb => ⟨(hplain b hb).2.1, (hplain b hb).2.2.2⟩
  | @quoted quote c hquote hcomma _ hseparator =>
    have hmark : quote ≠ Byte.comma ∧ Text.isSeparator quote = false := by
      rw [Text.isQuote, Bool.or_eq_true, beq_iff_eq, beq_iff_eq] at hquote
      rcases hquote with rfl | rfl <;> decide
    intro b hb
    simp only [List.mem_cons, List.not_mem_nil, or_false] at hb
    rcases hb with rfl | rfl | rfl
    · exact hmark
    · exact ⟨hcomma, hseparator⟩
    · exact hmark

/-- A closed span of quotes without its own quote inside belongs to the first operand, whatever
operators it holds. -/
theorem split_span {quote : UInt8} (hquote : Text.isQuote quote = true) {inner : Text}
    (hinner : quote ∉ inner) (rest : Text) :
    split (quote :: (inner ++ quote :: rest)) =
      ⟨quote :: (inner ++ quote :: (split rest).head), (split rest).rest⟩ := by
  -- Inside the span only its own quote counts.
  have hspan : splitFrom (some quote) (inner ++ quote :: rest) =
      ⟨inner ++ quote :: (split rest).head, (split rest).rest⟩ := by
    induction inner with
    | nil =>
      rw [List.nil_append, splitFrom, if_pos rfl]
      rfl
    | cons b inner ih =>
      rw [List.mem_cons, not_or] at hinner
      rw [List.cons_append, splitFrom, if_neg (Ne.symm hinner.1), ih hinner.2]
      rfl
  have hclosed : (inner ++ quote :: rest).contains quote = true := by simp
  rw [split, splitFrom, hquote, hclosed, Bool.and_self, if_pos rfl, hspan]
  rfl

/-- A literal in front of a text belongs to the first operand. -/
theorem IsLiteral.split_append {t : Text} (h : IsLiteral t) (rest : Text) :
    split (t ++ rest) = ⟨t ++ (split rest).head, (split rest).rest⟩ := by
  cases h with
  | plain hplain =>
    exact split_append_of_plain (fun b hb => ⟨(hplain b hb).2.2.1, (hplain b hb).1⟩) rest
  | @quoted quote b hquote _ hinner _ =>
    have hother : quote ∉ [b] := by
      rw [List.mem_singleton]
      rintro rfl
      exact Bool.false_ne_true (hinner.symm.trans hquote)
    exact split_span hquote hother rest

/-- The text of a chain is its first operand, an operator and the text of the chain from the next
operand on. -/
theorem text_link (head : Text) (link : Operator × Text) (links : List (Operator × Text)) :
    text ⟨head, link :: links⟩ = head ++ link.1.byte :: text ⟨link.2, links⟩ := by
  simp [text]

/-- Dividing the text of a chain of literals gives the chain back. -/
theorem split_text {chain : Chain} (h : ∀ t ∈ chain.operands, IsLiteral t) :
    split chain.text = chain := by
  obtain ⟨head, links⟩ := chain
  induction links generalizing head with
  | nil =>
    have hsplit := (h head List.mem_cons_self).split_append []
    simpa [text, split, splitFrom] using hsplit
  | cons link links ih =>
    have hrest : split (text ⟨link.2, links⟩) = ⟨link.2, links⟩ :=
      ih link.2 fun t ht => h t (List.mem_cons_of_mem head ht)
    rw [text_link, (h head List.mem_cons_self).split_append, split_operator, hrest]
    simp [divide]

/-- What holds of all operators and of the bytes of all operands holds of the text of a chain. -/
theorem forall_mem_text {P : UInt8 → Prop} {chain : Chain} (hoperators : ∀ op : Operator, P op.byte)
    (hoperands : ∀ t ∈ chain.operands, ∀ b ∈ t, P b) : ∀ b ∈ chain.text, P b := by
  intro b hb
  rw [text, List.mem_append, List.mem_flatMap] at hb
  rcases hb with hhead | ⟨link, hlink, hb⟩
  · exact hoperands _ List.mem_cons_self b hhead
  · rcases List.mem_cons.mp hb with rfl | hb
    · exact hoperators link.1
    · exact hoperands _ (List.mem_cons_of_mem _ (List.mem_map_of_mem hlink)) b hb

/-- Evaluating the links of a chain is the left fold over them, up to what errors cite. -/
theorem mapError_fold (whole : Text) (value : Int64) (links : List (Operator × Text)) :
    (Expression.fold whole value links).mapError ExpressionError.kind =
      links.foldlM foldStep value := by
  induction links generalizing value with
  | nil => rfl
  | cons link links ih =>
    obtain ⟨op, t⟩ := link
    rw [List.foldlM_cons, foldStep, literalValue, Expression.fold, Expression.operandValue]
    cases Literal.parse t with
    | error cause => rfl
    | ok operand =>
      have hresult := op.result_eq value operand
      cases hcombine : op.combine? value operand with
      | none =>
        rw [hcombine] at hresult
        simp only [Except.mapError, bind, Except.bind, hresult, hcombine]
        rfl
      | some r =>
        rw [hcombine] at hresult
        simp only [Except.mapError, bind, Except.bind, hresult, hcombine]
        exact ih r

/-- Evaluating a chain is the left fold over its literals, up to what errors cite. -/
theorem mapError_evaluateChain (whole : Text) (chain : Chain) :
    (Expression.evaluateChain whole chain).mapError ExpressionError.kind = chain.leftFold := by
  rw [Expression.evaluateChain, Expression.operandValue, leftFold, literalValue]
  cases Literal.parse chain.head with
  | error cause => rfl
  | ok first => exact mapError_fold whole first chain.rest

end Chain

namespace Expression

/-- The value of an expression is the left fold over what stands before the comma, which may hold
no separator. The empty expression is a chain of one empty literal. -/
theorem mapError_evaluate (t : Text) : (evaluate t).mapError ExpressionError.kind =
    if (t.before Byte.comma).any Text.isSeparator then .error .whitespace
    else (Chain.split (t.before Byte.comma)).leftFold := by
  rw [evaluate]
  generalize t.before Byte.comma = whole
  cases whole with
  | nil => rfl
  | cons b rest =>
    rw [List.isEmpty_cons, if_neg Bool.false_ne_true]
    split
    · rfl
    · exact Chain.mapError_evaluateChain _ _

/-- An expression has a value exactly when it has no separator and the left fold gives the value. -/
theorem evaluate_ok_iff {t : Text} {value : Int64} : evaluate t = .ok value ↔
    (t.before Byte.comma).any Text.isSeparator = false ∧
      (Chain.split (t.before Byte.comma)).leftFold = .ok value := by
  have hkind : evaluate t = .ok value ↔
      (evaluate t).mapError ExpressionError.kind = .ok value := by
    cases evaluate t <;> simp [Except.mapError]
  rw [hkind, mapError_evaluate]
  cases (t.before Byte.comma).any Text.isSeparator <;> simp

/-- A text that is found to have no value has none. -/
theorem evaluate_ne_ok {t : Text} (h : (evaluate t).isOk = false) (value : Int64) :
    evaluate t ≠ .ok value := by
  intro hok
  rw [hok] at h
  exact absurd h (by simp [Except.isOk, Except.toBool])

end Expression

namespace Literal

/-- A byte of a text without its decoration is one of the text. -/
theorem mem_of_mem_undecorated {b : UInt8} {t : Text} (h : b ∈ undecorated t) : b ∈ t := by
  have hstart : ∀ (c : UInt8) (s : Text), b ∈ Text.withoutStart [c] s → b ∈ s := by
    intro c s hb
    unfold Text.withoutStart at hb
    split at hb
    · exact List.mem_of_mem_drop hb
    · exact hb
  unfold undecorated Text.withoutEnd at h
  split at h
  · exact hstart _ _ (hstart _ _ (List.mem_of_mem_take h))
  · exact hstart _ _ (hstart _ _ h)

/-- A text without separators that is no literal is empty or invalid. -/
theorem kind_of_parse {t : Text} {cause : LiteralError}
    (hseparator : ∀ b ∈ t, Text.isSeparator b = false) (h : parse t = .error cause) :
    cause.kind = .empty ∨ cause.kind = .invalidLiteral := by
  have hdigits : ∀ {literal digits : Text} {base : Nat}, parseDigits literal digits base =
      .error cause → cause.kind = .invalidLiteral := by
    intro literal digits base hparse
    unfold parseDigits at hparse
    split at hparse
    · rw [← Except.error.inj hparse]
      rfl
    · split at hparse
      · simp at hparse
      · rw [← Except.error.inj hparse]
        rfl
  have hcharacter : ∀ {literal : Text}, parseCharacter literal = .error cause →
      cause.kind = .invalidLiteral := by
    intro literal hparse
    unfold parseCharacter at hparse
    split at hparse
    · simp at hparse
    · rw [← Except.error.inj hparse]
      rfl
  have hnone : ¬ (undecorated t).any Text.isSeparator = true := by
    rw [List.any_eq_true]
    rintro ⟨b, hb, hseparated⟩
    rw [hseparator b (mem_of_mem_undecorated hb)] at hseparated
    exact Bool.false_ne_true hseparated
  unfold parse parseUndecorated at h
  rw [if_neg hnone] at h
  split at h
  · rw [← Except.error.inj h]
    exact Or.inl rfl
  · refine Or.inr ?_
    split at h
    · exact hdigits h
    · split at h
      · exact hdigits h
      · split at h
        · exact hdigits h
        · split at h
          · exact hcharacter h
          · exact hdigits h

end Literal

namespace Chain

/-- The error that stops the fold over links is that of a step at one of them. -/
theorem exists_of_foldlM_error {links : List (Operator × Text)} {value : Int64} {kind : ErrorKind}
    (h : links.foldlM foldStep value = .error kind) :
    ∃ link ∈ links, ∃ before, foldStep before link = .error kind := by
  induction links generalizing value with
  | nil => simp [pure, Except.pure] at h
  | cons link links ih =>
    rw [List.foldlM_cons] at h
    cases hstep : foldStep value link with
    | error e =>
      rw [hstep] at h
      exact ⟨link, List.mem_cons_self, value, hstep.trans h⟩
    | ok next =>
      rw [hstep] at h
      obtain ⟨other, hother, before, hbefore⟩ := ih h
      exact ⟨other, List.mem_cons_of_mem _ hother, before, hbefore⟩

/-- A text without separators has a value or one of two errors. -/
theorem kind_of_literalValue {t : Text} {kind : ErrorKind}
    (hseparator : ∀ b ∈ t, Text.isSeparator b = false) (h : literalValue t = .error kind) :
    kind = .empty ∨ kind = .invalidLiteral := by
  rw [literalValue] at h
  cases hparse : Literal.parse t with
  | ok value => simp [hparse, Except.mapError] at h
  | error cause =>
    rw [hparse] at h
    rw [← Except.error.inj h]
    exact Literal.kind_of_parse hseparator hparse

/-- The left fold over literals without separators ends in a value or in one of three errors. -/
theorem kind_of_leftFold {chain : Chain} {kind : ErrorKind}
    (hseparator : ∀ t ∈ chain.operands, ∀ b ∈ t, Text.isSeparator b = false)
    (h : chain.leftFold = .error kind) : kind ∈ [.empty, .invalidLiteral, .divisionByZero] := by
  have hliteral : ∀ t ∈ chain.operands, literalValue t = .error kind →
      kind ∈ [.empty, .invalidLiteral, .divisionByZero] := by
    intro t ht hvalue
    rcases kind_of_literalValue (hseparator t ht) hvalue with rfl | rfl <;> simp
  unfold leftFold at h
  cases hhead : literalValue chain.head with
  | error e =>
    rw [hhead] at h
    exact hliteral _ List.mem_cons_self (hhead.trans h)
  | ok first =>
    rw [hhead] at h
    obtain ⟨link, hlink, value, hstep⟩ := exists_of_foldlM_error h
    have hmem : link.2 ∈ chain.operands := List.mem_cons_of_mem _ (List.mem_map_of_mem hlink)
    rw [foldStep] at hstep
    cases hnext : literalValue link.2 with
    | error e =>
      rw [hnext] at hstep
      exact hliteral _ hmem (hnext.trans hstep)
    | ok operand =>
      rw [hnext] at hstep
      rw [Operator.kind_of_result hstep]
      simp

/-- The value of the text of a chain of literals is the left fold over them. -/
theorem evaluate_text {chain : Chain} (h : ∀ t ∈ chain.operands, IsLiteral t) :
    (Expression.evaluate chain.text).mapError ExpressionError.kind = chain.leftFold := by
  have hinert : ∀ b ∈ chain.text, b ≠ Byte.comma ∧ Text.isSeparator b = false :=
    forall_mem_text (fun op => by cases op <;> decide) fun t ht => (h t ht).inert
  have hwhole : chain.text.before Byte.comma = chain.text := by
    rw [Text.before, List.takeWhile_eq_self_iff]
    exact fun b hb => decide_eq_true (hinert b hb).1
  have hseparator : chain.text.any Text.isSeparator = false := by
    rw [List.any_eq_false]
    exact fun b hb => Bool.eq_false_iff.mp (hinert b hb).2
  rw [Expression.mapError_evaluate, hwhole, hseparator, if_neg Bool.false_ne_true, split_text h]

/-- The value of a chain of literals is the left fold over them: dividing the text finds exactly
these literals and operators, and evaluation ends in the value of the fold or in the first error of
it. A literal is missing or invalid, or something is divided by zero; there is no other error. Every
divisor is a literal, not negative and of at most 32 bits, and the quotient by it is exact. -/
theorem chain_value_is_left_fold (chain : Chain) (h : ∀ t ∈ chain.operands, IsLiteral t) :
    split chain.text = chain ∧
      (Expression.evaluate chain.text).mapError ExpressionError.kind = chain.leftFold ∧
      (∀ cause, Expression.evaluate chain.text = .error cause →
        cause.kind ∈ [.empty, .invalidLiteral, .divisionByZero]) ∧
      ∀ t ∈ chain.operands, ∀ b, Literal.parse t = .ok b →
        0 ≤ b.toInt ∧ b.toInt < 0x100000000 ∧
          ∀ a : Int64, (a / b).toInt = a.toInt.tdiv b.toInt := by
  have hsplit := split_text h
  have hvalue := evaluate_text h
  refine ⟨hsplit, hvalue, fun cause hcause => ?_, fun t _ b hb => ?_⟩
  · rw [hcause] at hvalue
    exact kind_of_leftFold (fun t ht b hb => ((h t ht).inert b hb).2) hvalue.symm
  · have hbounds := Literal.toInt_of_parse hb
    have hmax : Literal.maxValue = 0xFFFFFFFF := rfl
    exact ⟨hbounds.1, by omega, Literal.toInt_div_of_parse hb⟩

/-- A quoted operator is no operator, the products wrap around to a negative number, and the
quotient is rounded toward zero. In a second chain the division by zero is found before the text
behind it that is no literal. -/
theorem chain_value_is_left_fold_wrapped :
    let chain : Chain := ⟨Text.ascii "'+'", [(.add, Text.ascii "1"),
      (.multiply, Text.ascii "$FFFFFFFF"), (.multiply, Text.ascii "$FFFFFFFF"),
      (.divide, Text.ascii "3")]⟩
    let broken : Chain := ⟨Text.ascii "4", [(.divide, Text.ascii "0"), (.add, Text.ascii "NAME")]⟩
    (∀ t ∈ chain.operands, IsLiteral t) ∧ (∀ t ∈ broken.operands, IsLiteral t) ∧
      chain.text = Text.ascii "'+'+1*$FFFFFFFF*$FFFFFFFF/3" ∧
      (Expression.evaluate chain.text).mapError ExpressionError.kind = .ok (-125985707334) ∧
      (Expression.evaluate broken.text).mapError ExpressionError.kind = .error .divisionByZero := by
  intro chain broken
  have hplain : ∀ t : Text, (t.all fun b => (Operator.ofByte? b).isNone && b != Byte.comma &&
      !Text.isQuote b && !Text.isSeparator b) = true → IsLiteral t := by
    intro t ht
    refine .plain fun b hb => ?_
    simpa [and_assoc] using List.all_eq_true.mp ht b hb
  have hchain : ∀ t ∈ chain.operands, IsLiteral t := by
    intro t ht
    rcases List.mem_cons.mp ht with rfl | ht
    · exact .quoted rfl (by decide) rfl rfl
    · have hall : (chain.rest.map (·.2)).all (fun t => t.all fun b => (Operator.ofByte? b).isNone &&
          b != Byte.comma && !Text.isQuote b && !Text.isSeparator b) = true := by decide
      exact hplain t (List.all_eq_true.mp hall t ht)
  have hbroken : ∀ t ∈ broken.operands, IsLiteral t := by
    intro t ht
    have hall : broken.operands.all (fun t => t.all fun b => (Operator.ofByte? b).isNone &&
        b != Byte.comma && !Text.isQuote b && !Text.isSeparator b) = true := by decide
    exact hplain t (List.all_eq_true.mp hall t ht)
  refine ⟨hchain, hbroken, by decide, ?_, ?_⟩
  · rw [(chain_value_is_left_fold chain hchain).2.1]
    decide +kernel
  · rw [(chain_value_is_left_fold broken hbroken).2.1]
    decide +kernel

end Chain

end ColumnAssembler
