import ColumnAssembler.Proofs.MemoryLayout
import ColumnAssembler.Proofs.OperandForm
import ColumnAssembler.Proofs.SymbolNames

/-!
# Records without a reservation

A pending instruction whose operand fits no mode gets no bytes reserved. It is encoded in the second
pass all the same when the name replaced there takes its form away: an operand that was indirect or
indexed becomes one of another form, for which the mnemonic may have a mode. The main statement says
that this is the only way for a record without a reservation to emit bytes, that otherwise the bytes
of all records lie apart, and that it takes a name with a comma, with a parenthesis, or of an index
register.
-/

namespace ColumnAssembler

/-- A name that does not reach into the syntax of an operand. -/
structure Text.IsPlain (name : Text) : Prop where
  /-- It has no parenthesis. -/
  paren : Byte.openParen ∉ name
  /-- It has no comma. -/
  comma : Byte.comma ∉ name
  /-- It is not the name of an index register. -/
  index : name ≠ Text.ascii "X" ∧ name ≠ Text.ascii "Y"

instance (name : Text) : Decidable name.IsPlain :=
  decidable_of_iff
    (Byte.openParen ∉ name ∧ Byte.comma ∉ name ∧ name ≠ Text.ascii "X" ∧ name ≠ Text.ascii "Y")
    ⟨fun h => ⟨h.1, h.2.1, h.2.2⟩, fun h => ⟨h.paren, h.comma, h.index⟩⟩

namespace Instruction

/-- Whatever the kind of the instruction, a name is replaced by a hexadecimal literal. -/
theorem operand_substitute (i : Instruction) (s : Symbol) :
    ∃ value, (i.substitute s).operand =
      i.operand.replaceAll s.name (Literal.format value .hexadecimal) := by
  unfold substitute
  split
  · exact ⟨_, rfl⟩
  · exact ⟨_, rfl⟩

/-- Replacing a name brings no syntax into the operand. -/
theorem noNewSyntax_substitute (i : Instruction) {s : Symbol} (hname : s.name ≠ []) :
    Text.NoNewSyntax i.operand (i.substitute s).operand := by
  obtain ⟨value, hvalue⟩ := operand_substitute i s
  rw [hvalue]
  exact Text.noNewSyntax_replaceAll hname i.operand value

/-- Replacing a plain name keeps the form of the operand. -/
theorem form_substitute_of_plain (i : Instruction) {s : Symbol} (hname : s.name ≠ [])
    (hplain : s.name.IsPlain) :
    OperandForm.of (i.substitute s).operand = OperandForm.of i.operand := by
  have hnew := noNewSyntax_substitute i hname
  obtain ⟨value, hvalue⟩ := operand_substitute i s
  rw [hvalue, Text.replaceAll_of_ne_nil hname] at hnew ⊢
  apply OperandForm.of_eq_of_kept hnew
  · intro hstart
    rw [Text.singleton_isPrefixOf_iff] at hstart ⊢
    exact Text.head?_replaceFrom hname hplain.paren hstart
  · intro e he hend
    rw [List.isSuffixOf_iff_suffix] at hend ⊢
    have hlength := hend.length_le
    rcases List.mem_cons.mp he with rfl | he
    · exact Text.separated_suffix_replaceFrom hname hplain.comma hplain.index.1 hlength hend
    · rw [List.mem_singleton.mp he] at hlength hend ⊢
      exact Text.separated_suffix_replaceFrom hname hplain.comma hplain.index.2 hlength hend

/-- An operand in which a name was replaced has a value to evaluate. -/
theorem hasValue_substitute (i : Instruction) {s : Symbol} (hname : s.name ≠ [])
    (hoccurs : s.name <:+: i.operand) (modes : Encodings) :
    modes.hasValue (i.substitute s).operand = true := by
  obtain ⟨value, hvalue⟩ := operand_substitute i s
  have hdollar : Byte.dollar ∈ (i.substitute s).operand := by
    rw [hvalue, Text.replaceAll_of_ne_nil hname]
    apply Text.mem_replaceFrom hname hoccurs
    obtain ⟨n, hn⟩ := Literal.format_hexadecimal value
    rw [hn]
    exact List.mem_cons_self
  have hne : (i.substitute s).operand ≠ [] := List.ne_nil_of_mem hdollar
  have hnotA : (i.substitute s).operand ≠ Text.ascii "A" := by
    intro h
    rw [h] at hdollar
    exact absurd hdollar (by decide)
  simp [Encodings.hasValue, Encodings.isAccumulatorOperand, hne, hnotA]

/-- The instruction has an encoding for the value of its operand: some mode fits, and a branch is in
reach. -/
def CanEncode (i : Instruction) (value : Option Int64) : Prop :=
  (i.modes.infer i.operand (widthOf value)).isSome = true ∧
    (i.isRelative = true → i.outOfReach = false ∧ widthOf value ≠ .word)

/-- An encoded instruction emits bytes exactly when it has an encoding. -/
theorem bytes_ne_nil_iff {i : Instruction} {value : Option Int64}
    (h : i.encoding = i.encodingOf value) : i.bytes ≠ [] ↔ i.CanEncode value := by
  rw [bytes, h, encodingOf, CanEncode]
  by_cases hreach : (i.isRelative && (i.outOfReach || widthOf value == .word)) = true
  · rw [if_pos hreach]
    simp only [Bool.and_eq_true, Bool.or_eq_true, beq_iff_eq] at hreach
    constructor
    · intro hne
      exact absurd rfl hne
    · rintro ⟨_, hnear⟩
      obtain ⟨hinside, hnarrow⟩ := hnear hreach.1
      rcases hreach.2 with hout | hword
      · rw [hinside] at hout
        exact absurd hout Bool.false_ne_true
      · exact absurd hword hnarrow
  · rw [if_neg hreach]
    cases hmode : i.modes.infer i.operand (widthOf value) with
    | none => simp
    | some mode =>
      refine ⟨fun _ => ⟨rfl, fun hrelative => ?_⟩, fun _ => List.cons_ne_nil _ _⟩
      simpa [hrelative] using hreach

/-- A pending instruction that the name replaced in the second pass gives another form, in which it
has an encoding. -/
def Reshaped (i : Instruction) (table : SymbolTable) : Prop :=
  i.isPending = true ∧ ∃ s, table.longestMatch? i.operand = some s ∧
    OperandForm.of (i.substitute s).operand ≠ OperandForm.of i.operand ∧
    ∃ value, (i.substitute s).operandValue = .ok value ∧ (i.substitute s).CanEncode value

/-- An operand without a value has one to evaluate. -/
theorem hasValue_of_operandValue_error {i : Instruction} {cause : ExpressionError}
    (h : i.operandValue = .error cause) : i.modes.hasValue i.operand = true := by
  unfold operandValue at h
  split at h
  · assumption
  · simp at h

/-- A pending instruction without a reservation emits bytes in the end exactly when it is
reshaped. -/
theorem bytes_resolve_ne_nil_iff {i : Instruction} {table : SymbolTable} {cause : ExpressionError}
    (hnamed : table.Named) (hp : i.isPending = true) (herror : i.operandValue = .error cause)
    (hreserved : i.length = 0) (hok : (i.resolve table).2 = none) :
    (i.resolve table).1.bytes ≠ [] ↔ i.Reshaped table := by
  obtain ⟨value, hvalue, hresolved⟩ := resolve_ok hp hok
  cases hmatch : table.longestMatch? i.operand with
  | none =>
    -- Nothing was replaced, so the operand would still have no value.
    rw [substituteLongest, hmatch] at hvalue
    rw [herror] at hvalue
    exact absurd hvalue (by simp)
  | some s =>
    have hlongest : i.substituteLongest table = i.substitute s := by rw [substituteLongest, hmatch]
    rw [hlongest] at hvalue hresolved
    obtain ⟨hs, hoccurs⟩ := (table.bestMatch_longestMatch? i.operand).found s hmatch
    have hname := hnamed.nonempty s hs
    have hemits : (i.resolve table).1.bytes ≠ [] ↔ (i.substitute s).CanEncode value := by
      rw [hresolved]
      exact bytes_ne_nil_iff rfl
    rw [hemits]
    constructor
    · intro hcan
      refine ⟨hp, s, hmatch, ?_, value, hvalue, hcan⟩
      intro hform
      have hmodes : (i.substitute s).modes = i.modes := by
        rw [modes, modes, (samePlace_substitute i s).source]
      have hnone : i.modes.infer i.operand .unresolved = none :=
        infer_eq_none_of_length hp hreserved
      have hlost := Encodings.infer_eq_none_of_form_eq (noNewSyntax_substitute i hname) hform
        (hasValue_of_operandValue_error herror) (hasValue_substitute i hname hoccurs _) hnone
        (widthOf value)
      have hsome := hcan.1
      rw [hmodes, hlost] at hsome
      exact absurd hsome (by decide)
    · rintro ⟨_, s', hmatch', _, value', hvalue', hcan⟩
      rw [hmatch, Option.some.injEq] at hmatch'
      subst hmatch'
      rw [hvalue, Except.ok.injEq] at hvalue'
      rwa [hvalue']

/-- No instruction is reshaped by plain names. -/
theorem not_reshaped_of_plain {table : SymbolTable} (hnamed : table.Named)
    (hplain : ∀ s ∈ table.symbols, s.name.IsPlain) (i : Instruction) : ¬ i.Reshaped table := by
  rintro ⟨_, s, hmatch, hform, _⟩
  obtain ⟨hs, _⟩ := (table.bestMatch_longestMatch? i.operand).found s hmatch
  exact hform (form_substitute_of_plain i (hnamed.nonempty s hs) (hplain s hs))

end Instruction

namespace Memory

/-- The record is an instruction that the second pass reshapes. -/
def Reshaped : Memory → SymbolTable → Prop
  | instruction i, table => i.Reshaped table
  | checksum _, _ => False

/-- A pending record has an operand without a value. -/
def PendingHasNoValue (m : Memory) : Prop :=
  ∀ i, m = instruction i → i.isPending = true → ∃ cause, i.operandValue = .error cause

/-- A record without a reservation emits bytes in the end exactly when it is reshaped. -/
theorem bytes_resolved_ne_nil_iff {m : Memory} {table : SymbolTable} (hnamed : table.Named)
    (hvalue : m.PendingHasNoValue) (hreserved : m.length = 0) (hok : m.unresolved? table = none)
    (contributions : Array UInt8) :
    (m.resolved table).bytes contributions ≠ [] ↔ m.Reshaped table := by
  cases m with
  | checksum c => exact absurd hreserved (by simp [length])
  | instruction i =>
    cases hp : i.isPending with
    | true =>
      obtain ⟨cause, herror⟩ := hvalue i rfl hp
      exact Instruction.bytes_resolve_ne_nil_iff hnamed hp herror hreserved hok
    | false =>
      have hbytes : i.bytes = [] := by
        rw [← List.length_eq_zero_iff, Instruction.length_bytes hp]
        exact hreserved
      rw [resolved, Instruction.resolve_of_not_pending table hp]
      constructor
      · intro hne
        exact absurd hbytes hne
      · rintro ⟨hpending, _⟩
        rw [hp] at hpending
        exact absurd hpending Bool.false_ne_true

end Memory

namespace Assembly

variable {origin : UInt16} {cancelAt : Option Nat} {lines : List Text}

/-- All through the first pass, pending records have operands without a value. -/
theorem pendingHasNoValue_stateAfter (count : Nat) :
    ∀ m ∈ (stateAfter origin cancelAt lines count).program.memory, m.PendingHasNoValue := by
  intro m hm i hi hp
  obtain ⟨s, source, become⟩ := becomes_of_mem_memory hm
  cases become with
  | checksum => cases hi
  | instruction hcreate =>
    cases hi
    exact Instruction.create?_pending hcreate hp

/-- A record without a reservation emits bytes exactly when it is reshaped. -/
theorem Completed.emits_iff (h : Completed origin cancelAt lines) {k : Nat} {r a : Memory}
    (hr : (scanned origin cancelAt lines).program.memory[k]? = some r) (hreserved : r.length = 0)
    (ha : (run origin cancelAt lines).program.memory[k]? = some a) :
    a.bytes (run origin cancelAt lines).program.contributions ≠ [] ↔
      r.Reshaped (run origin cancelAt lines).program.symbols := by
  obtain ⟨rfl, hok⟩ := h.eq_resolved hr ha
  rw [h.symbols]
  exact Memory.bytes_resolved_ne_nil_iff (named_stateAfter _)
    (pendingHasNoValue_stateAfter _ r (List.mem_of_getElem? hr)) hreserved hok _

/-- In a run that completes, a record without a reservation, from the line that added it on, emits
bytes exactly when the second pass reshapes it. Where it reshapes none, every record with bytes
ends before the records behind it begin; and plain names reshape none. -/
theorem unreserved_emits_iff_reshaped (origin : UInt16) (cancelAt : Option Nat) (lines : List Text)
    (completes : (run origin cancelAt lines).failure = none) :
    let before := (scanned origin cancelAt lines).program
    let after := (run origin cancelAt lines).program
    (∀ (count k : Nat) (r a : Memory),
        (stateAfter origin cancelAt lines count).program.memory[k]? = some r → r.length = 0 →
        after.memory[k]? = some a →
        (a.bytes after.contributions ≠ [] ↔ r.Reshaped after.symbols)) ∧
      ((∀ r ∈ before.memory, r.length = 0 → ¬ r.Reshaped after.symbols) →
        ∀ (i j : Nat) (a b : Memory), i < j → after.memory[i]? = some a →
          after.memory[j]? = some b → a.bytes after.contributions ≠ [] →
          a.address.toNat + (a.bytes after.contributions).length ≤ b.address.toNat) ∧
      ((∀ s ∈ after.symbols.symbols, s.name.IsPlain) →
        ∀ r ∈ before.memory, ¬ r.Reshaped after.symbols) := by
  have h := completed_of_failure_eq_none completes
  refine ⟨?_, ?_, ?_⟩
  · intro count k r a hr hreserved ha
    have hlast : (scanned origin cancelAt lines).program.memory[k]? = some r := by
      obtain ⟨hbound, hget⟩ := List.getElem?_eq_some_iff.mp hr
      rw [← hget]
      exact List.prefix_iff_getElem?.mp (memory_prefix_scanned count) k hbound
    exact h.emits_iff hlast hreserved ha
  · intro hnone i j a b hij ha hb hemits
    obtain ⟨r, hr, _⟩ := h.memory_at ha
    rcases Nat.eq_zero_or_pos r.length with hreserved | hreserved
    · have hshaped := (h.emits_iff hr hreserved ha).mp hemits
      exact absurd hshaped (hnone r (List.mem_of_getElem? hr) hreserved)
    · exact h.apart hij hr hreserved ha hb
  · intro hplain r _ hshaped
    have hnamed : (run origin cancelAt lines).program.symbols.Named := by
      rw [h.symbols]
      exact named_stateAfter _
    cases r with
    | instruction i => exact Instruction.not_reshaped_of_plain hnamed hplain i hshaped
    | checksum c => exact hshaped

/-- A name in parentheses reshapes the operand that it stands for; a plain name reshapes none. -/
theorem unreserved_emits_iff_reshaped_name :
    let reshaping := [Text.ascii "        LDA  (T)", Text.ascii "(T)     EQU  $20"]
    let plain := [Text.ascii "        LDA  LATER", Text.ascii "LATER   NOP"]
    let source : SourceLine :=
      ⟨1, Text.ascii "        LDA  (T)", [], Text.ascii "LDA", Text.ascii "(T)"⟩
    (run 0x8000 none reshaping).failure = none ∧
      Memory.Reshaped (.instruction ⟨source, 0x8000, Text.ascii "(T)", false, .pending⟩)
        (run 0x8000 none reshaping).program.symbols ∧
      (run 0x8000 none plain).failure = none ∧
      ∀ r ∈ (scanned 0x8000 none plain).program.memory,
        ¬ r.Reshaped (run 0x8000 none plain).program.symbols := by
  refine ⟨by decide +kernel, ?_, by decide +kernel, ?_⟩
  · have h := (unreserved_emits_iff_reshaped 0x8000 none
      [Text.ascii "        LDA  (T)", Text.ascii "(T)     EQU  $20"] (by decide +kernel)).1 1 0
      (.instruction ⟨⟨1, Text.ascii "        LDA  (T)", [], Text.ascii "LDA", Text.ascii "(T)"⟩,
        0x8000, Text.ascii "(T)", false, .pending⟩)
      (.instruction ⟨⟨1, Text.ascii "        LDA  (T)", [], Text.ascii "LDA", Text.ascii "(T)"⟩,
        0x8000, Text.ascii "$20", false, .complete .zeroPage 0xA5 [0x20]⟩)
      (by decide +kernel) (by decide +kernel) (by decide +kernel)
    exact h.mp (List.cons_ne_nil _ _)
  · exact (unreserved_emits_iff_reshaped 0x8000 none
      [Text.ascii "        LDA  LATER", Text.ascii "LATER   NOP"] (by decide +kernel)).2.2
      (by decide +kernel)

/-- A label with the name of an index register reshapes an indexed operand. Nothing was reserved
for its instruction, whose bytes and those of the next one then lie at one address. -/
theorem register_label_overlaps :
    let lines := [Text.ascii "        STX  X,X", Text.ascii "X       NOP"]
    let before := (scanned 0x8000 none lines).program
    let after := (run 0x8000 none lines).program
    after.isEmittable = true ∧ before.memory.map Memory.length = [0, 1] ∧
      after.memory.map (fun m => (m.address, m.bytes after.contributions)) =
        [(0x8000, [0x8E, 0x00, 0x80]), (0x8000, [0xEA])] := by
  decide +kernel

end Assembly

end ColumnAssembler
