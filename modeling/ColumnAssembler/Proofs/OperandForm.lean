import ColumnAssembler.AddressingMode
import ColumnAssembler.Proofs.AddressLiteral
import ColumnAssembler.Proofs.Replacement

/-!
# The form of an operand

A start parenthesis or an index register behind a comma says which modes an operand can select,
whatever its value is. An operand without a value has all modes of its form as candidates. A literal
in the place of a name brings no such syntax with it, so an operand keeps its form or loses it to
the name, and one that keeps its form has no candidates that it had not before.
-/

namespace ColumnAssembler

/-- What the syntax of an operand says about its modes. -/
inductive OperandForm where
  /-- A parenthesis stands in front. -/
  | indirect
  /-- An index register stands at the end, and no parenthesis in front. -/
  | indexed
  /-- Neither of them. -/
  | direct
  deriving DecidableEq, Repr

namespace OperandForm

/-- The form of an operand. -/
def of (operand : Text) : OperandForm :=
  if [Byte.openParen].isPrefixOf operand then indirect
  else if (Text.ascii ",X").isSuffixOf operand || (Text.ascii ",Y").isSuffixOf operand then indexed
  else direct

end OperandForm

/-- The bytes that a hexadecimal literal may have. -/
def Literal.hexBytes : List UInt8 := Byte.dollar :: (List.range 16).map Numeral.digitByte

/-- A hexadecimal literal has no other bytes. -/
theorem Literal.mem_hexBytes {value : Int64} {b : UInt8}
    (h : b ∈ Literal.format value .hexadecimal) : b ∈ Literal.hexBytes := by
  refine Literal.forall_mem_format (P := fun b => b ∈ Literal.hexBytes) value List.mem_cons_self ?_
    b h
  intro digit
  have hdigit := List.mem_map_of_mem (f := Numeral.digitByte) (List.mem_range.mpr digit.isLt)
  exact List.mem_cons_of_mem _ hdigit

/-- Whether no byte of the text is one of a hexadecimal literal. -/
def Literal.isForeign (t : Text) : Bool := t.all fun b => !Literal.hexBytes.contains b

/-- A hexadecimal literal has no byte of a text that is foreign to it. -/
theorem Literal.not_mem_of_isForeign {t : Text} (h : Literal.isForeign t = true) {b : UInt8}
    (hb : b ∈ t) (value : Int64) : b ∉ Literal.format value .hexadecimal := by
  intro hmem
  have hnot := List.all_eq_true.mp h b hb
  rw [Bool.not_eq_true', List.contains_eq_mem, decide_eq_false_iff_not] at hnot
  exact hnot (Literal.mem_hexBytes hmem)

namespace Text

/-- A text that starts and ends with no syntax which another text did not have. -/
structure NoNewSyntax (before after : Text) : Prop where
  /-- A start that no literal has was there before. -/
  start : ∀ b, Literal.isForeign [b] = true → [b].isPrefixOf after = true →
    [b].isPrefixOf before = true
  /-- An ending that no literal has was there before. -/
  ending : ∀ e : Text, Literal.isForeign e = true → e.isSuffixOf after = true →
    e.isSuffixOf before = true

/-- A text starts with a byte that is its first one. -/
theorem singleton_isPrefixOf_iff {b : UInt8} {t : Text} :
    [b].isPrefixOf t = true ↔ t.head? = some b := by
  cases t with
  | nil => simp
  | cons c rest =>
    rw [List.isPrefixOf_cons_cons, List.isPrefixOf_nil_left, Bool.and_true, beq_iff_eq,
      List.head?_cons, Option.some.injEq, eq_comm]

/-- A hexadecimal literal in the place of a name brings no syntax with it. -/
theorem noNewSyntax_replaceAll {name : Text} (hname : name ≠ []) (t : Text) (value : Int64) :
    NoNewSyntax t (t.replaceAll name (Literal.format value .hexadecimal)) := by
  have hvalue : Literal.format value .hexadecimal ≠ [] := by
    obtain ⟨n, hn⟩ := Literal.format_hexadecimal value
    rw [hn]
    exact List.cons_ne_nil _ _
  rw [replaceAll_of_ne_nil hname]
  constructor
  · intro b hb hstart
    rw [singleton_isPrefixOf_iff] at hstart ⊢
    exact head?_of_replaceFrom hvalue
      (Literal.not_mem_of_isForeign hb List.mem_cons_self value) hstart
  · intro e he hend
    rw [List.isSuffixOf_iff_suffix] at hend ⊢
    exact suffix_of_replaceFrom hvalue
      (fun b hb => Literal.not_mem_of_isForeign he hb value) hend

/-- Two endings of one length are one ending. -/
theorem isSuffixOf_eq_false {e f t : Text} (h : e.isSuffixOf t = true)
    (hlength : e.length = f.length) (hne : e ≠ f) : f.isSuffixOf t = false := by
  apply eq_false_of_ne_true
  intro hf
  have hsuffix := List.suffix_of_suffix_length_le (List.isSuffixOf_iff_suffix.mp h)
    (List.isSuffixOf_iff_suffix.mp hf) (Nat.le_of_eq hlength)
  exact hne (hsuffix.eq_of_length hlength)

end Text

namespace OperandForm

/-- A form is kept where the syntax of the operand is. -/
theorem of_eq_of_kept {before after : Text} (hnew : Text.NoNewSyntax before after)
    (hstart : [Byte.openParen].isPrefixOf before = true → [Byte.openParen].isPrefixOf after = true)
    (hend : ∀ e ∈ [Text.ascii ",X", Text.ascii ",Y"], e.isSuffixOf before = true →
      e.isSuffixOf after = true) : of after = of before := by
  have hparen : [Byte.openParen].isPrefixOf after = [Byte.openParen].isPrefixOf before :=
    Bool.eq_iff_iff.mpr ⟨hnew.start _ (by decide), hstart⟩
  have hx : (Text.ascii ",X").isSuffixOf after = (Text.ascii ",X").isSuffixOf before :=
    Bool.eq_iff_iff.mpr ⟨hnew.ending _ (by decide), hend _ (by simp)⟩
  have hy : (Text.ascii ",Y").isSuffixOf after = (Text.ascii ",Y").isSuffixOf before :=
    Bool.eq_iff_iff.mpr ⟨hnew.ending _ (by decide), hend _ (by simp)⟩
  rw [of, of, hparen, hx, hy]

end OperandForm

namespace Encodings

/-- The operand means itself for a mnemonic that can take it so. -/
def isImmediate (modes : Encodings) (operand : Text) : Bool :=
  [Byte.hash].isPrefixOf operand && modes.supports .immediate

/-- The candidates of an operand with a value that is not meant itself. -/
theorem candidates_eq {modes : Encodings} {operand : Text} (hvalue : modes.hasValue operand = true)
    (himmediate : modes.isImmediate operand = false) (width : Width) :
    modes.candidates operand width =
      match OperandForm.of operand with
      | .indirect =>
        if (Text.ascii "),Y").isSuffixOf operand then [.indirectY, .indirect]
        else if (Text.ascii ",X)").isSuffixOf operand then [.indirectX, .indirect]
        else [.indirect]
      | .indexed =>
        if (Text.ascii ",X").isSuffixOf operand then byWidth width [.zeroPageX] [.absoluteX]
        else byWidth width [.zeroPageY] [.absoluteY]
      | .direct => byWidth width [.relative, .zeroPage] [.absolute] := by
  rw [isImmediate] at himmediate
  rw [candidates, hvalue, himmediate, OperandForm.of]
  cases hparen : [Byte.openParen].isPrefixOf operand with
  | true => rfl
  | false =>
    cases hx : (Text.ascii ",X").isSuffixOf operand with
    | true => rfl
    | false => cases hy : (Text.ascii ",Y").isSuffixOf operand <;> rfl

/-- An operand without a value counts as narrow and as wide. -/
theorem mem_byWidth_unresolved {width : Width} {narrow wide : List Mode} {mode : Mode}
    (h : mode ∈ byWidth width narrow wide) : mode ∈ byWidth .unresolved narrow wide := by
  have hall : byWidth .unresolved narrow wide = narrow ++ wide := rfl
  rw [hall]
  unfold byWidth at h
  rcases List.mem_append.mp h with hnarrow | hwide
  · split at hnarrow
    · exact List.mem_append_left _ hnarrow
    · simp at hnarrow
  · split at hwide
    · exact List.mem_append_right _ hwide
    · simp at hwide

/-- An operand that keeps its form has no candidates that it had not before it had a value. -/
theorem mem_candidates_unresolved {modes : Encodings} {before after : Text}
    (hnew : Text.NoNewSyntax before after) (hform : OperandForm.of after = OperandForm.of before)
    (hbefore : modes.hasValue before = true) (hafter : modes.hasValue after = true)
    (hnotBefore : modes.isImmediate before = false) (hnotAfter : modes.isImmediate after = false)
    {width : Width} {mode : Mode} (h : mode ∈ modes.candidates after width) :
    mode ∈ modes.candidates before .unresolved := by
  rw [candidates_eq hafter hnotAfter, hform] at h
  rw [candidates_eq hbefore hnotBefore]
  cases hof : OperandForm.of before with
  | direct =>
    rw [hof] at h
    exact mem_byWidth_unresolved h
  | indexed =>
    simp only [hof] at h ⊢
    cases hx : (Text.ascii ",X").isSuffixOf after with
    | true =>
      rw [hx, if_pos rfl] at h
      rw [if_pos (hnew.ending _ (by decide) hx)]
      exact mem_byWidth_unresolved h
    | false =>
      -- The register at the end is Y, before and after.
      have hy : (Text.ascii ",Y").isSuffixOf after = true := by
        rw [hof, OperandForm.of, hx] at hform
        cases hy : (Text.ascii ",Y").isSuffixOf after with
        | true => rfl
        | false => cases hp : [Byte.openParen].isPrefixOf after <;> simp [hp, hy] at hform
      have hbeforeX := Text.isSuffixOf_eq_false (f := Text.ascii ",X")
        (hnew.ending _ (by decide) hy) rfl (by decide)
      rw [hx, if_neg Bool.false_ne_true] at h
      rw [hbeforeX, if_neg Bool.false_ne_true]
      exact mem_byWidth_unresolved h
  | indirect =>
    simp only [hof] at h ⊢
    cases hy : (Text.ascii "),Y").isSuffixOf after with
    | true =>
      rw [hy, if_pos rfl] at h
      rwa [if_pos (hnew.ending _ (by decide) hy)]
    | false =>
      cases hx : (Text.ascii ",X)").isSuffixOf after with
      | true =>
        have hbeforeX := hnew.ending _ (by decide) hx
        have hbeforeY := Text.isSuffixOf_eq_false (f := Text.ascii "),Y") hbeforeX rfl (by decide)
        rw [hy, hx, if_neg Bool.false_ne_true, if_pos rfl] at h
        rwa [hbeforeY, hbeforeX, if_neg Bool.false_ne_true, if_pos rfl]
      | false =>
        -- The indirect mode is a candidate of every operand of this form.
        rw [hy, hx, if_neg Bool.false_ne_true, if_neg Bool.false_ne_true] at h
        rw [List.mem_singleton.mp h]
        split
        · simp
        · split <;> simp

/-- Where no mode was found before an operand had a value, none is found if it keeps its form. -/
theorem infer_eq_none_of_form_eq {modes : Encodings} {before after : Text}
    (hnew : Text.NoNewSyntax before after) (hform : OperandForm.of after = OperandForm.of before)
    (hbefore : modes.hasValue before = true) (hafter : modes.hasValue after = true)
    (hnone : modes.infer before .unresolved = none) (width : Width) :
    modes.infer after width = none := by
  have hnotBefore : modes.isImmediate before = false := by
    cases himmediate : modes.isImmediate before with
    | false => rfl
    | true =>
      rw [isImmediate] at himmediate
      have hcandidates : modes.candidates before .unresolved = [.immediate] := by
        rw [candidates, hbefore, himmediate]
        rfl
      rw [infer, hcandidates, List.find?_eq_none] at hnone
      exact absurd (Bool.and_eq_true_iff.mp himmediate).2 (hnone _ List.mem_cons_self)
  have hnotAfter : modes.isImmediate after = false := by
    rw [isImmediate] at hnotBefore ⊢
    cases hstart : [Byte.hash].isPrefixOf after with
    | false => rfl
    | true => rwa [hnew.start _ (by decide) hstart] at hnotBefore
  rw [infer, List.find?_eq_none] at hnone ⊢
  intro mode hmode
  exact hnone mode
    (mem_candidates_unresolved hnew hform hbefore hafter hnotBefore hnotAfter hmode)

end Encodings

end ColumnAssembler
