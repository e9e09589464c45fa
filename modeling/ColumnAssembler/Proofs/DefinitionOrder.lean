import ColumnAssembler.Proofs.SymbolReference

/-!
# Definitions before and after their use

The two passes look for names in different ways. The first goes through all known symbols, longer
names first, and replaces each that occurs in what the operand has become by then. The second looks
once for the longest name and replaces that. Where an operand has one name in it, and its literal
brings no other into the text, both ways come down to one replacement, and the record is the same
whether the symbol is defined before the instruction or after it.
-/

namespace ColumnAssembler

namespace Symbol

/-- The literal that stands for the symbol in the operand of a line at an address: that of its
value, in a branch that of the displacement to it. -/
def literalAt (s : Symbol) (source : SourceLine) (address : UInt16) : Text :=
  if EncodingTable.isRelative source.mnemonic then
    Literal.format (Int64.ofInt
      (Instruction.displacementValue (Instruction.displacement address s.value))) .hexadecimal
  else s.literal

/-- The operand of a line at an address with every occurrence of the symbol replaced. -/
def replacedIn (s : Symbol) (source : SourceLine) (address : UInt16) : Text :=
  source.operand.replaceAll s.name (s.literalAt source address)

end Symbol

namespace SymbolTable

/-- The symbol is the only one of the table whose name occurs in the operand of a line at an
address, and once it is replaced there is none. -/
structure Sole (table : SymbolTable) (source : SourceLine) (address : UInt16) (s : Symbol) :
    Prop where
  /-- The symbol is defined. -/
  defined : s ∈ table.symbols
  /-- Its name can be seen. -/
  named : s.name ≠ []
  /-- Its name occurs in the operand. -/
  occurs : s.name <:+: source.operand
  /-- No other name does. -/
  only : ∀ t ∈ table.symbols, t.name <:+: source.operand → t = s
  /-- No name occurs in the operand once it is replaced. -/
  gone : ∀ t ∈ table.symbols, ¬ t.name <:+: s.replacedIn source address

/-- Where no name occurs there is no longest match. -/
theorem longestMatch?_of_absent {table : SymbolTable} {t : Text}
    (h : ∀ s ∈ table.symbols, ¬ s.name <:+: t) : table.longestMatch? t = none := by
  cases hfound : table.longestMatch? t with
  | none => rfl
  | some u =>
    obtain ⟨hu, hoccurs⟩ := (bestMatch_longestMatch? table t).found u hfound
    exact absurd hoccurs (h u hu)

/-- The only name in the operand is its longest match. -/
theorem Sole.longestMatch? {table : SymbolTable} {source : SourceLine} {address : UInt16}
    {s : Symbol} (h : table.Sole source address s) :
    table.longestMatch? source.operand = some s := by
  have hbest := bestMatch_longestMatch? table source.operand
  have hlong := hbest.longest s h.defined h.occurs
  have hpos := List.length_pos_iff.mpr h.named
  cases hfound : table.longestMatch? source.operand with
  | none =>
    rw [hfound, matchLength] at hlong
    omega
  | some u =>
    obtain ⟨hu, hoccurs⟩ := hbest.found u hfound
    rw [h.only u hu hoccurs]

end SymbolTable

namespace Instruction

/-- With no name left in its operand, an instruction is settled whether it was deferred or not. -/
theorem resolve_encodeOrDefer {i : Instruction} {table : SymbolTable}
    (h : ∀ t ∈ table.symbols, ¬ t.name <:+: i.operand) :
    i.encodeOrDefer.resolve table = i.settle := by
  cases hvalue : i.operandValue with
  | ok value =>
    have hencoded : i.encodeOrDefer = { i with encoding := i.encodingOf value } := by
      rw [encodeOrDefer, hvalue]
    have hsettled : i.encodeOrDefer.isPending = false := by
      rw [hencoded]
      exact beq_eq_false_iff_ne.mpr (encodingOf_ne_pending i value)
    rw [resolve_of_not_pending table hsettled, hencoded, settle, hvalue]
  | error cause =>
    have hdeferred : i.encodeOrDefer = { i with encoding := .pending } := by
      rw [encodeOrDefer, hvalue]
    have hpending : i.encodeOrDefer.isPending = true := by
      rw [hdeferred]
      rfl
    -- The second look finds no name either, so the operand is the one that had no value.
    have hsame : i.encodeOrDefer.substituteLongest table = { i with encoding := .pending } := by
      rw [hdeferred, substituteLongest, SymbolTable.longestMatch?_of_absent h]
    have hvalue' : ({ i with encoding := .pending } : Instruction).operandValue = .error cause :=
      hvalue
    rw [resolve_of_pending table hpending, hsame, settle, settle, hvalue, hvalue']

/-- Of symbols of which only one occurs, and none once it is replaced, just that one is replaced. -/
theorem foldl_substituteKnown_of_sole {symbols : List Symbol} {i : Instruction} {s : Symbol}
    (hs : s ∈ symbols) (hoccurs : s.name <:+: i.operand)
    (honly : ∀ t ∈ symbols, t.name <:+: i.operand → t = s)
    (hgone : ∀ t ∈ symbols, ¬ t.name <:+: (i.substitute s).operand) :
    symbols.foldl substituteKnown i = i.substitute s := by
  induction symbols with
  | nil => exact absurd hs List.not_mem_nil
  | cons t rest ih =>
    have hrest : ∀ u ∈ rest, ¬ u.name <:+: (i.substitute s).operand := fun u hu =>
      hgone u (List.mem_cons_of_mem t hu)
    rw [List.foldl_cons, substituteKnown]
    by_cases hhere : t.name <:+: i.operand
    · have hsame : t = s := honly t List.mem_cons_self hhere
      rw [if_pos ((Text.occursIn_iff _ _).mpr hhere), hsame]
      exact foldl_substituteKnown_of_absent hrest
    · rw [if_neg (by rwa [Text.occursIn_iff])]
      have hlater : s ∈ rest := by
        rcases List.mem_cons.mp hs with rfl | hlater
        · exact absurd hoccurs hhere
        · exact hlater
      exact ih hlater (fun u hu => honly u (List.mem_cons_of_mem t hu)) hrest

/-- At the start of its instruction, a symbol is replaced by the literal that stands for it. -/
theorem operand_substitute_start (source : SourceLine) (address : UInt16) (s : Symbol) :
    ((start source address).substitute s).operand = s.replacedIn source address := by
  have hbranch : (start source address).isRelative = EncodingTable.isRelative source.mnemonic := rfl
  rw [substitute, hbranch, Symbol.replacedIn, Symbol.literalAt]
  cases EncodingTable.isRelative source.mnemonic <;> rfl

/-- There is an instruction for a line exactly when the mnemonic is known, whatever the symbols. -/
theorem create?_of_create? {source : SourceLine} {address : UInt16} {known : SymbolTable}
    {i : Instruction} (h : create? source address known = some i) (table : SymbolTable) :
    create? source address table =
      some (table.byLength.foldl substituteKnown (start source address)).encodeOrDefer := by
  unfold create? at h ⊢
  split at h
  · simp at h
  · next hknown => rw [if_neg hknown]

/-- An instruction without known names that is pending is as it was at the start. -/
theorem create?_eq_start {source : SourceLine} {address : UInt16} {known : SymbolTable}
    {i : Instruction} (h : create? source address known = some i) (hp : i.isPending = true)
    (habsent : ∀ t ∈ known.symbols, ¬ t.name <:+: source.operand) : i = start source address := by
  have hfold : known.byLength.foldl substituteKnown (start source address) = start source address :=
    foldl_substituteKnown_of_absent fun t ht => habsent t (SymbolTable.mem_byLength.mp ht)
  have hcreated := create?_eq_some h
  rw [hfold, encodeOrDefer] at hcreated
  split at hcreated
  · next value _ =>
    rw [hcreated, isPending, beq_iff_eq] at hp
    exact absurd hp (encodingOf_ne_pending _ value)
  · exact hcreated

/-- An instruction whose operand has one name of the final symbols in it, and which is pending
because the name is not known yet, ends as the same record, with the same outcome, as the one that
is created with the final symbols: every occurrence of the name is replaced by the literal that
stands for it there, and the operand is encoded, marked or left without a value. -/
theorem definition_order_irrelevant {source : SourceLine} {address : UInt16}
    {known final : SymbolTable} {s : Symbol} {late : Instruction}
    (habsent : ∀ t ∈ known.symbols, ¬ t.name <:+: source.operand)
    (hsole : final.Sole source address s)
    (hcreate : create? source address known = some late) (hpending : late.isPending = true) :
    ∃ early, create? source address final = some early ∧
      early.resolve final = late.resolve final ∧
      (late.resolve final).1.operand = s.replacedIn source address := by
  have hoperand := operand_substitute_start source address s
  have hgone : ∀ t ∈ final.symbols,
      ¬ t.name <:+: ((start source address).substitute s).operand := by
    rw [hoperand]
    exact hsole.gone
  have hlate : late.resolve final = ((start source address).substitute s).settle := by
    have hstart := create?_eq_start hcreate hpending habsent
    have hlongest : final.longestMatch? (start source address).operand = some s :=
      hsole.longestMatch?
    rw [resolve_of_pending final hpending, hstart, substituteLongest, hlongest]
  have hfold : final.byLength.foldl substituteKnown (start source address) =
      (start source address).substitute s :=
    foldl_substituteKnown_of_sole (SymbolTable.mem_byLength.mpr hsole.defined) hsole.occurs
      (fun t ht => hsole.only t (SymbolTable.mem_byLength.mp ht))
      (fun t ht => hgone t (SymbolTable.mem_byLength.mp ht))
  refine ⟨_, create?_of_create? hcreate final, ?_, ?_⟩
  · rw [hfold, resolve_encodeOrDefer hgone, hlate]
  · rw [hlate, settle, ← hoperand]
    split <;> rfl

/-- An indexed operand with a name in an expression, and a branch to a target out of reach: both are
pending without the symbol, and end the same with it defined before or after them. -/
theorem definition_order_irrelevant_indexed_and_branch :
    let indexed : SourceLine := ⟨1, Text.ascii "        LDA  TAB+1,X", [], Text.ascii "LDA",
      Text.ascii "TAB+1,X"⟩
    let branch : SourceLine := ⟨2, Text.ascii "        BNE  TAB", [], Text.ascii "BNE",
      Text.ascii "TAB"⟩
    let s : Symbol := ⟨Text.ascii "TAB", 0x1234⟩
    let final : SymbolTable := ⟨[s]⟩
    let load := start indexed 0x8000
    let jump := start branch 0x8003
    (create? indexed 0x8000 .empty = some load ∧
      (∃ early, create? indexed 0x8000 final = some early ∧
        early.resolve final = load.resolve final ∧
        (load.resolve final).1.operand = s.replacedIn indexed 0x8000) ∧
      (load.resolve final).1.bytes = [0xBD, 0x35, 0x12]) ∧
    create? branch 0x8003 .empty = some jump ∧
      (∃ early, create? branch 0x8003 final = some early ∧
        early.resolve final = jump.resolve final ∧
        (jump.resolve final).1.operand = s.replacedIn branch 0x8003) ∧
      (jump.resolve final).1.marker? = some .badBranch := by
  intro indexed branch s final load jump
  have hnone : ∀ source : SourceLine, ∀ t ∈ SymbolTable.empty.symbols,
      ¬ t.name <:+: source.operand := fun _ t ht => absurd ht List.not_mem_nil
  have hload : final.Sole indexed 0x8000 s :=
    ⟨List.mem_cons_self, by decide, by decide, fun t ht _ => List.mem_singleton.mp ht,
      by decide +kernel⟩
  have hjump : final.Sole branch 0x8003 s :=
    ⟨List.mem_cons_self, by decide, by decide, fun t ht _ => List.mem_singleton.mp ht,
      by decide +kernel⟩
  have hindexed : create? indexed 0x8000 .empty = some load := by decide +kernel
  have hbranch : create? branch 0x8003 .empty = some jump := by decide +kernel
  exact ⟨⟨hindexed, definition_order_irrelevant (hnone indexed) hload hindexed rfl,
    by decide +kernel⟩, hbranch, definition_order_irrelevant (hnone branch) hjump hbranch rfl,
    by decide +kernel⟩

end Instruction

end ColumnAssembler
