import ColumnAssembler.EncodingTable
import ColumnAssembler.Proofs.EncodingSoundness

/-!
# Modes of operands without a value

An operand that has no value yet may become narrow or wide. The mode that it selects until then is
the one it would select as a narrow operand, or as a wide one if no mode fits it narrow, so a mode
is found for it exactly when one will be found for some value. The syntax decides whether the width
matters at all, and no operand selects a mode that its mnemonic does not have. A mnemonic with the
relative mode has no other one, so for an operand that selects it without a value no wide mode can
be found.
-/

namespace ColumnAssembler

namespace Encodings

/-- There is an opcode for a mode that is listed. -/
theorem supports_iff {modes : Encodings} {mode : Mode} :
    modes.supports mode = true ↔ mode ∈ modes.map Prod.fst := by
  rw [supports, opcode?, List.lookup_isSome_iff, List.mem_map]
  constructor
  · rintro ⟨code, hcode, hsame⟩
    exact ⟨code, hcode, (beq_iff_eq.mp hsame).symm⟩
  · rintro ⟨code, hcode, rfl⟩
    exact ⟨code, hcode, beq_self_eq_true _⟩

/-- The syntax of an operand decides whether its candidates depend on the width. -/
theorem candidates_cases (modes : Encodings) (operand : Text) :
    (∃ free, ∀ width, modes.candidates operand width = free) ∨
      ∃ narrow wide, ∀ width, modes.candidates operand width = byWidth width narrow wide := by
  unfold candidates
  by_cases hvalue : (!modes.hasValue operand) = true
  · exact .inl ⟨_, fun width => if_pos hvalue⟩
  by_cases himmediate : ([Byte.hash].isPrefixOf operand && modes.supports .immediate) = true
  · refine .inl ⟨[.immediate], fun width => ?_⟩
    rw [if_neg hvalue, if_pos himmediate]
  by_cases hparen : [Byte.openParen].isPrefixOf operand = true
  · refine .inl ⟨if (Text.ascii "),Y").isSuffixOf operand then [.indirectY, .indirect]
      else if (Text.ascii ",X)").isSuffixOf operand then [.indirectX, .indirect]
      else [.indirect], fun width => ?_⟩
    rw [if_neg hvalue, if_neg himmediate, if_pos hparen]
  by_cases hx : (Text.ascii ",X").isSuffixOf operand = true
  · refine .inr ⟨[.zeroPageX], [.absoluteX], fun width => ?_⟩
    rw [if_neg hvalue, if_neg himmediate, if_neg hparen, if_pos hx]
  by_cases hy : (Text.ascii ",Y").isSuffixOf operand = true
  · refine .inr ⟨[.zeroPageY], [.absoluteY], fun width => ?_⟩
    rw [if_neg hvalue, if_neg himmediate, if_neg hparen, if_neg hx, if_pos hy]
  · refine .inr ⟨[.relative, .zeroPage], [.absolute], fun width => ?_⟩
    rw [if_neg hvalue, if_neg himmediate, if_neg hparen, if_neg hx, if_neg hy]

/-- An operand without a value selects the mode it would select if it were narrow, or else the one
it would select if it were wide. -/
theorem infer_unresolved (modes : Encodings) (operand : Text) :
    modes.infer operand .unresolved =
      (modes.infer operand .byte).or (modes.infer operand .word) := by
  rw [infer, infer, infer]
  rcases modes.candidates_cases operand with ⟨free, hfree⟩ | ⟨narrow, wide, hwidth⟩
  · rw [hfree, hfree, hfree, Option.or_self]
  · have hboth : byWidth .unresolved narrow wide = narrow ++ wide := rfl
    have hnarrow : byWidth .byte narrow wide = narrow := List.append_nil narrow
    have hwide : byWidth .word narrow wide = wide := List.nil_append wide
    rw [hwidth, hwidth, hwidth, hboth, hnarrow, hwide, List.find?_append]

/-- No wide operand selects the relative mode. -/
theorem infer_word_ne_relative (modes : Encodings) (operand : Text) :
    modes.infer operand .word ≠ some .relative := by
  intro h
  have hmem := List.mem_of_find?_eq_some h
  cases hvalue : modes.hasValue operand with
  | false => exact absurd (mem_candidates_of_no_value hvalue hmem) (by decide)
  | true => exact absurd (mem_candidates hvalue hmem) (by decide)

/-- A mode is found for an operand without a value exactly when one is found for it narrow or wide,
whatever modes there are and whatever the operand is. Every mode that is found has an opcode. For
the modes of a mnemonic, an operand that selects the relative mode without a value selects it if it
is narrow and none if it is wide. -/
theorem unresolved_width_is_optimistic :
    (∀ (modes : Encodings) (operand : Text),
      (modes.infer operand .unresolved).isSome = true ↔
        (modes.infer operand .byte).isSome = true ∨ (modes.infer operand .word).isSome = true) ∧
      (∀ (modes : Encodings) (operand : Text) (width : Width) (mode : Mode),
        modes.infer operand width = some mode → mode ∈ modes.map Prod.fst) ∧
      ∀ (mnemonic : Text) (modes : Encodings), EncodingTable.lookup mnemonic = some modes →
        ∀ operand : Text, modes.infer operand .unresolved = some .relative →
          modes.infer operand .byte = some .relative ∧ modes.infer operand .word = none := by
  refine ⟨fun modes operand => ?_, fun modes operand width mode h => ?_, ?_⟩
  · rw [infer_unresolved, Option.isSome_or, Bool.or_eq_true]
  · exact supports_iff.mp (supports_of_infer h)
  · intro mnemonic modes hlookup operand h
    have hrelative := supports_of_infer h
    have hword : modes.infer operand .word = none := by
      cases hfound : modes.infer operand .word with
      | none => rfl
      | some mode =>
        have hmode := EncodingTable.eq_relative_of_supports hlookup hrelative
          (supports_of_infer hfound)
        exact absurd (hmode ▸ hfound) (infer_word_ne_relative modes operand)
    rw [infer_unresolved, hword, Option.or_none] at h
    exact ⟨h, hword⟩

/-- A branch has no immediate mode, so a number sign in front of its operand says nothing, and the
operand selects the relative mode if it is narrow. -/
theorem unresolved_width_is_optimistic_branch :
    let modes : Encodings := [(.relative, 0xD0)]
    let operand := Text.ascii "#LOOP"
    EncodingTable.lookup (Text.ascii "BNE") = some modes ∧
      modes.infer operand .unresolved = some .relative ∧
      modes.infer operand .byte = some .relative ∧ modes.infer operand .word = none ∧
      Mode.relative ∈ modes.map Prod.fst := by
  intro modes operand
  have hlookup : EncodingTable.lookup (Text.ascii "BNE") = some modes := by decide
  have hunresolved : modes.infer operand .unresolved = some .relative := by decide
  obtain ⟨_, hlisted, hbranch⟩ := unresolved_width_is_optimistic
  obtain ⟨hbyte, hword⟩ := hbranch _ _ hlookup _ hunresolved
  exact ⟨hlookup, hunresolved, hbyte, hword, hlisted _ _ _ _ hbyte⟩

end Encodings

end ColumnAssembler
