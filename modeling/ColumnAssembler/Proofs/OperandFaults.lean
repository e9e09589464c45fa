import ColumnAssembler.Proofs.AbortedRun
import ColumnAssembler.Proofs.InertLines
import ColumnAssembler.Proofs.Reservation

/-!
# Where operands are found to be at fault

The operand of an instruction is looked at twice when the instruction is created: once to see
whether it has a value yet, and once more to encode it. The two agree, so creating an instruction
fails for its mnemonic only, and what it gives is either pending or encoded. An operand at fault
therefore stops a run in three places only: at the start address, as long as no record takes a byte;
at a constant that has no name or a new one; and in the second pass, at the first pending
instruction whose operand has no value even with its longest name replaced.
-/

namespace ColumnAssembler

namespace Instruction

/-- Whether the operand has a value to evaluate, but none that is known. -/
def isOpen (i : Instruction) : Bool :=
  i.modes.hasValue i.operand && !(Expression.evaluate i.operand).isOk

/-- The instruction of a source line, created in two steps: an open operand leaves it pending, and
any other is evaluated again to encode it. Both steps can fail. -/
def createInSteps (source : SourceLine) (address : UInt16) (table : SymbolTable) :
    Except Fault Instruction :=
  if (EncodingTable.lookup source.mnemonic).isNone then .error (.unknownOpcode source.mnemonic)
  else
    let i := table.byLength.foldl substituteKnown (start source address)
    if i.isOpen then .ok { i with encoding := .pending }
    else
      match i.settle with
      | (next, none) => .ok next
      | (_, some e) => .error (.unresolved e)

/-- An operand is open exactly when its value is an error. -/
theorem isOpen_iff {i : Instruction} :
    i.isOpen = true ↔ ∃ cause, i.operandValue = .error cause := by
  unfold isOpen operandValue
  cases hvalue : i.modes.hasValue i.operand with
  | false => simp
  | true =>
    cases hresult : Expression.evaluate i.operand with
    | ok value => simp [Except.isOk, Except.toBool]
    | error cause => simp [Except.isOk, Except.toBool]

/-- An open operand leaves the instruction pending. -/
theorem encodeOrDefer_of_isOpen {i : Instruction} (h : i.isOpen = true) :
    i.encodeOrDefer = { i with encoding := .pending } := by
  obtain ⟨cause, hcause⟩ := isOpen_iff.mp h
  rw [encodeOrDefer, hcause]

/-- An operand that is not open is encoded without an error. -/
theorem settle_of_not_isOpen {i : Instruction} (h : i.isOpen = false) :
    i.settle = (i.encodeOrDefer, none) := by
  cases hvalue : i.operandValue with
  | ok value => rw [settle, encodeOrDefer, hvalue]
  | error cause =>
    rw [isOpen_iff.mpr ⟨cause, hvalue⟩] at h
    exact absurd h (by decide)

/-- There is no instruction exactly when the mnemonic is not in the encoding table. -/
theorem create?_eq_none_iff {source : SourceLine} {address : UInt16} {table : SymbolTable} :
    create? source address table = none ↔ EncodingTable.lookup source.mnemonic = none := by
  unfold create?
  cases EncodingTable.lookup source.mnemonic with
  | none => simp
  | some modes => simp

/-- The two looks at the operand agree: creating an instruction in steps fails for an unknown
mnemonic only. -/
theorem createInSteps_eq (source : SourceLine) (address : UInt16) (table : SymbolTable) :
    createInSteps source address table =
      (create? source address table).elim (.error (.unknownOpcode source.mnemonic)) .ok := by
  unfold createInSteps create?
  cases EncodingTable.lookup source.mnemonic with
  | none => rfl
  | some modes =>
    dsimp only [Option.isNone_some]
    rw [if_neg Bool.false_ne_true, if_neg Bool.false_ne_true, Option.elim_some]
    split
    · next hopen => rw [encodeOrDefer_of_isOpen hopen]
    · next hclosed => rw [settle_of_not_isOpen (eq_false_of_ne_true hclosed)]

/-- An instruction with the encoding for a value is encoded, and not pending. -/
theorem isEncoded_of_encodingOf {i : Instruction} {value : Option Int64}
    (h : i.encoding = i.encodingOf value) : i.isEncoded = true ∧ i.isPending = false := by
  rcases encodingOf_cases i value with ⟨_, hmarked⟩ | ⟨_, _, _, _, hcomplete, _⟩
  · rw [isEncoded, isPending, h, hmarked]
    exact ⟨rfl, rfl⟩
  · rw [isEncoded, isPending, h, hcomplete]
    exact ⟨rfl, rfl⟩

/-- A pending instruction is not encoded and has no marker. -/
theorem not_isEncoded_of_isPending {i : Instruction} (h : i.isPending = true) :
    i.isEncoded = false ∧ i.marker? = none := by
  rw [isPending, beq_iff_eq] at h
  rw [isEncoded, marker?, h]
  exact ⟨rfl, rfl⟩

/-- With the longest known name replaced, an operand with a value to evaluate still has one. -/
theorem hasValue_substituteLongest {i : Instruction} {table : SymbolTable} (hnamed : table.Named)
    (h : i.modes.hasValue i.operand = true) :
    (i.substituteLongest table).modes.hasValue (i.substituteLongest table).operand = true := by
  have hmodes : (i.substituteLongest table).modes = i.modes := by
    rw [modes, (samePlace_substituteLongest i table).source, modes]
  rw [hmodes, substituteLongest]
  cases hmatch : table.longestMatch? i.operand with
  | none => exact h
  | some s =>
    obtain ⟨hs, hoccurs⟩ := (SymbolTable.bestMatch_longestMatch? table i.operand).found s hmatch
    exact hasValue_substitute i (hnamed.nonempty s hs) hoccurs i.modes

/-- A pending instruction is resolved with an error exactly when its operand does not evaluate with
the longest known name replaced. -/
theorem resolve_eq_some_iff {i : Instruction} {table : SymbolTable} (hnamed : table.Named)
    (hp : i.isPending = true) (hvalue : i.modes.hasValue i.operand = true)
    {e : UnresolvedOperand} :
    (i.resolve table).2 = some e ↔ e.operand = (i.substituteLongest table).operand ∧
      Expression.evaluate (i.substituteLongest table).operand = .error e.cause := by
  rw [resolve_of_pending table hp, settle, operandValue,
    if_pos (hasValue_substituteLongest hnamed hvalue)]
  cases Expression.evaluate (i.substituteLongest table).operand with
  | ok value => simp
  | error cause =>
    obtain ⟨operand, reason⟩ := e
    simp only [Option.some.injEq, UnresolvedOperand.mk.injEq, Except.error.injEq]
    exact and_congr_left fun _ => eq_comm

end Instruction

namespace Memory

variable (table : SymbolTable)

/-- A pass that is stopped has resolved all records in front of the one that stops it. -/
theorem pass_of_failure {memory : List Memory} {e : FatalError}
    (h : (pass table memory).failure = some e) :
    ∃ front m behind cause, memory = front ++ m :: behind ∧
      (∀ earlier ∈ front, earlier.unresolved? table = none) ∧
      m.unresolved? table = some cause ∧ e = ⟨m.source.number, .unresolved cause⟩ ∧
      (pass table memory).memory = front.map (resolved table) ++ m.resolved table :: behind := by
  induction memory with
  | nil => simp [pass] at h
  | cons m rest ih =>
    rw [pass] at h ⊢
    cases hm : m.unresolved? table with
    | some cause =>
      rw [hm, Option.some.injEq] at h
      exact ⟨[], m, rest, cause, rfl, fun _ hnone => absurd hnone List.not_mem_nil, hm, h.symm, rfl⟩
    | none =>
      rw [hm] at h
      obtain ⟨front, stopping, behind, cause, hsplit, hfront, hcause, he, hmemory⟩ := ih h
      exact ⟨m :: front, stopping, behind, cause, congrArg (m :: ·) hsplit,
        List.forall_mem_cons.mpr ⟨hm, hfront⟩, hcause, he,
        congrArg (m.resolved table :: ·) hmemory⟩

end Memory

/-- No record of a program without bytes takes any. -/
theorem Program.length_eq_zero {p : Program} (h : p.size = 0) :
    ∀ r ∈ p.records.toList, r.length = 0 := by
  have htotal : ∀ memory : List Memory, Memory.total memory = 0 → ∀ m ∈ memory, m.length = 0 := by
    intro memory hnone
    induction memory with
    | nil => exact fun m hm => absurd hm List.not_mem_nil
    | cons first rest ih =>
      rw [Memory.total, Nat.add_eq_zero_iff] at hnone
      exact List.forall_mem_cons.mpr ⟨hnone.1, ih hnone.2⟩
  rw [p.size_eq] at h
  intro r hr
  cases r with
  | directive d => rfl
  | memory m => exact htotal p.memory h m (mem_memory.mpr hr)

namespace Scan

/-- An operand is at fault in a line for the start address, as long as no byte was taken, or in a
constant that has no name or a new one. -/
theorem scanSource_badOperand {s : Scan} {source : SourceLine} {fault : Fault}
    (hroom : s.limitFault? = none) (h : (s.scanSource source).2 = some fault)
    (hkind : fault.kind = .badOperand) :
    (source.classify = .origin ∧ s.emitted = false) ∨
      (source.classify = .constant ∧
        (source.label = [] ∨ s.program.symbols.has source.label = false)) := by
  cases scanSource_failed hroom h with
  | mnemonic kind _ =>
    rw [kind] at hkind
    exact absurd hkind (by decide)
  | room kind _ _ =>
    rw [kind] at hkind
    exact absurd hkind (by decide)
  | operand _ lineClass _ =>
    rcases lineClass with horigin | hconstant
    · refine .inl ⟨horigin, eq_false_of_ne_true fun hemitted => ?_⟩
      -- Behind the first byte the line is ignored, and there was room before it.
      have hignored : (s.scanSource source).2 = s.limitFault? := by
        have hafter : (s.addDirective source).emitted = true := hemitted
        rw [scanSource, horigin]
        dsimp only
        rw [setOrigin, if_pos hafter]
        rfl
      rw [hignored, hroom] at h
      exact absurd h (by simp)
    · refine .inr ⟨hconstant, ?_⟩
      by_cases hlabel : source.label = []
      · exact .inl hlabel
      · refine .inr (eq_false_of_ne_true fun hknown => ?_)
        have hreported : (s.scanSource source).2 = s.limitFault? := by
          have hafter : (s.addDirective source).program.symbols.has source.label = true := hknown
          rw [scanSource, hconstant]
          dsimp only
          rw [defineConstant, if_neg (by simpa using hlabel), if_pos hafter]
          rfl
        rw [hreported, hroom] at h
        exact absurd h (by simp)

/-- A pass that is stopped by a fault went through all lines in front of the one at fault. -/
theorem scanLines_fatal {cancelAt : Option Nat} {s : Scan} {count : Nat} {lines : List Text}
    {e : FatalError} (h : (scanLines cancelAt s count lines).2 = some (.fatal e)) :
    ∃ (k : Nat) (hk : k < lines.length), (scanLines cancelAt s count (lines.take k)).2 = none ∧
      ((scanLines cancelAt s count (lines.take k)).1.scanLine ((count + k : Nat) + 1)
        lines[k]).2 = some e := by
  induction lines generalizing s count with
  | nil => simp [scanLines] at h
  | cons line rest ih =>
    by_cases hcancel : cancelAt.any (· ≤ count) = true
    · rw [scanLines, if_pos hcancel] at h
      simp at h
    · rw [scanLines, if_neg hcancel] at h
      cases hline : s.scanLine (count + 1) line with
      | mk next error =>
        rw [hline] at h
        cases error with
        | some found =>
          rw [Option.some.injEq, Failure.fatal.injEq] at h
          refine ⟨0, Nat.zero_lt_succ _, rfl, ?_⟩
          rw [← h]
          exact congrArg Prod.snd hline
        | none =>
          obtain ⟨k, hk, hbefore, hat⟩ := ih h
          have htake : scanLines cancelAt s count ((line :: rest).take (k + 1)) =
              scanLines cancelAt next (count + 1) (rest.take k) := by
            rw [List.take_succ_cons, scanLines, if_neg hcancel, hline]
          refine ⟨k + 1, Nat.succ_lt_succ hk, ?_, ?_⟩
          · rw [htake, hbefore]
          · rw [htake, ← Nat.add_assoc, Nat.add_right_comm]
            exact hat

end Scan

namespace Assembly

variable (origin : UInt16) (cancelAt : Option Nat) (lines : List Text)

/-- The first pass is stopped by a line that it could read, behind lines that it went through. -/
structure StopsAt (e : FatalError) (k : Nat) (source : SourceLine) : Prop where
  /-- The run ends in the first pass. -/
  stage : (run origin cancelAt lines).stage = .scanning
  /-- No line in front stopped the pass. -/
  earlier : (Scan.scanLines cancelAt (opening origin lines) 0 (lines.take k)).2 = none
  /-- The error has the number of the line. -/
  number : e.line = k + 1
  /-- The line was read. -/
  read : ∃ text, lines[k]? = some text ∧ SourceLine.parse (k + 1) text = .ok source

/-- The second pass is stopped by a memory record, behind records that it resolved. -/
structure StopsAtReference (e : FatalError) (front : List Memory) (i : Instruction)
    (behind : List Memory) : Prop where
  /-- The run ends in the second pass. -/
  stage : (run origin cancelAt lines).stage = .resolving
  /-- No line stopped the first pass. -/
  scan : (Scan.scanLines cancelAt (opening origin lines) 0 lines).2 = none
  /-- The instruction is one of the memory records. -/
  memory : (scanned origin cancelAt lines).program.memory = front ++ .instruction i :: behind
  /-- It is pending. -/
  pending : i.isPending = true
  /-- Its operand does not evaluate with its longest name replaced, and the error says so. -/
  unvalued : ∃ cause, Expression.evaluate
      (i.substituteLongest (scanned origin cancelAt lines).program.symbols).operand =
        .error cause ∧
    e = ⟨i.source.number, .unresolved
      ⟨(i.substituteLongest (scanned origin cancelAt lines).program.symbols).operand, cause⟩⟩
  /-- The operands of all pending instructions in front evaluate so. -/
  earlier : ∀ j, .instruction j ∈ front → j.isPending = true →
    ∃ value, Expression.evaluate
      (j.substituteLongest (scanned origin cancelAt lines).program.symbols).operand = .ok value
  /-- All instructions in front are encoded in the program that is returned. -/
  encoded : ∀ j, .instruction j ∈ (run origin cancelAt lines).program.memory.take front.length →
    j.isEncoded = true

/-- The places at which an operand at fault stops a run. -/
inductive OperandFault (e : FatalError) : Prop where
  /-- A line sets the start address, and no record in front of it takes a byte. -/
  | startAddress (k : Nat) (source : SourceLine) (stops : StopsAt origin cancelAt lines e k source)
      (lineClass : source.classify = .origin)
      (unused : ∀ r ∈ (stateAfter origin cancelAt lines k).program.records.toList, r.length = 0)
  /-- A constant has no name, or one that is not defined yet. -/
  | constant (k : Nat) (source : SourceLine) (stops : StopsAt origin cancelAt lines e k source)
      (lineClass : source.classify = .constant)
      (fresh : source.label = [] ∨
        (stateAfter origin cancelAt lines k).program.symbols.has source.label = false)
  /-- A reference is the first one that stays without a value. -/
  | reference (front : List Memory) (i : Instruction) (behind : List Memory)
      (stops : StopsAtReference origin cancelAt lines e front i behind)

variable {origin : UInt16} {cancelAt : Option Nat} {lines : List Text}

/-- No record takes a byte before one was emitted. -/
theorem length_eq_zero_of_not_emitted {k : Nat} (hk : k ≤ lines.length)
    (h : (Scan.scanLines cancelAt (opening origin lines) 0 (lines.take k)).2 = none)
    (hemitted : (stateAfter origin cancelAt lines k).emitted = false) :
    ∀ r ∈ (stateAfter origin cancelAt lines k).program.records.toList, r.length = 0 := by
  have hsize : ¬ 0 < (stateAfter origin cancelAt lines k).program.size := by
    rw [← (sound_stateAfter hk h).emitted, hemitted]
    decide
  exact Program.length_eq_zero (Nat.eq_zero_of_not_pos hsize)

/-- An operand that stops the first pass belongs to a directive. -/
theorem operandFault_of_scanning {e : FatalError}
    (h : (Scan.scanLines cancelAt (opening origin lines) 0 lines).2 = some (.fatal e))
    (hkind : e.fault.kind = .badOperand) : OperandFault origin cancelAt lines e := by
  have hstage : (run origin cancelAt lines).stage = .scanning := by rw [run_of_stopped h, stopped]
  obtain ⟨k, hk, hearlier, hline⟩ := Scan.scanLines_fatal h
  rw [Nat.zero_add] at hline
  cases hparse : SourceLine.parse (k + 1) lines[k] with
  | error cause =>
    rw [Scan.scanLine_of_error hparse, Option.some.injEq] at hline
    rw [← hline] at hkind
    exact absurd hkind (by simp [Fault.kind])
  | ok source =>
    rw [Scan.scanLine_of_parse hparse, Option.map_eq_some_iff] at hline
    obtain ⟨fault, hfault, rfl⟩ := hline
    have hstops : StopsAt origin cancelAt lines ⟨k + 1, fault⟩ k source :=
      ⟨hstage, hearlier, rfl, lines[k], List.getElem?_eq_getElem hk, hparse⟩
    rcases Scan.scanSource_badOperand (room_stateAfter hearlier) hfault hkind with
      ⟨horigin, hemitted⟩ | ⟨hconstant, hfresh⟩
    · exact .startAddress k source hstops horigin
        (length_eq_zero_of_not_emitted (Nat.le_of_lt hk) hearlier hemitted)
    · exact .constant k source hstops hconstant hfresh

/-- A pending instruction of the first pass has an operand to evaluate. -/
theorem hasValue_of_pending {i : Instruction}
    (hi : .instruction i ∈ (scanned origin cancelAt lines).program.memory)
    (hp : i.isPending = true) : i.modes.hasValue i.operand = true := by
  obtain ⟨s, source, become⟩ := becomes_of_mem_memory hi
  cases become with
  | instruction hcreate =>
    obtain ⟨cause, hcause⟩ := Instruction.create?_pending hcreate hp
    exact Instruction.hasValue_of_operandValue_error hcause

/-- An instruction of the first pass can be resolved exactly when it is not pending or its operand
evaluates with its longest name replaced. -/
theorem resolve_eq_none_iff {i : Instruction}
    (hi : .instruction i ∈ (scanned origin cancelAt lines).program.memory) :
    (i.resolve (scanned origin cancelAt lines).program.symbols).2 = none ↔
      (i.isPending = true → ∃ value, Expression.evaluate
        (i.substituteLongest (scanned origin cancelAt lines).program.symbols).operand =
          .ok value) := by
  cases hp : i.isPending with
  | false => simp [Instruction.resolve_of_not_pending _ hp]
  | true =>
    have hnamed : (scanned origin cancelAt lines).program.symbols.Named := named_stateAfter _
    have hvalue := hasValue_of_pending hi hp
    cases hresult : Expression.evaluate
        (i.substituteLongest (scanned origin cancelAt lines).program.symbols).operand with
    | ok value =>
      refine ⟨fun _ _ => ⟨value, rfl⟩, fun _ => Option.eq_none_iff_forall_ne_some.mpr ?_⟩
      intro e he
      have hfails := (Instruction.resolve_eq_some_iff hnamed hp hvalue).mp he
      exact absurd (hresult.symm.trans hfails.2) (by simp)
    | error cause =>
      have hfails : (i.resolve (scanned origin cancelAt lines).program.symbols).2 = some
          ⟨(i.substituteLongest (scanned origin cancelAt lines).program.symbols).operand, cause⟩ :=
        (Instruction.resolve_eq_some_iff hnamed hp hvalue).mpr ⟨rfl, hresult⟩
      simp [hfails]

/-- An operand that stops the second pass belongs to the first reference without a value. -/
theorem operandFault_of_resolving {e : FatalError}
    (hscan : (Scan.scanLines cancelAt (opening origin lines) 0 lines).2 = none)
    (h : (run origin cancelAt lines).failure = some (.fatal e)) :
    OperandFault origin cancelAt lines e := by
  have hresolves := resolves_resolve (scanned origin cancelAt lines)
  rw [← run_of_scanned hscan] at hresolves
  have hfailure := hresolves.failure
  rw [h, eq_comm, Option.map_eq_some_iff] at hfailure
  obtain ⟨e', hpass, hsame⟩ := hfailure
  obtain rfl := Failure.fatal.inj hsame
  obtain ⟨front, m, behind, cause, hsplit, hfront, hcause, he, hmemory⟩ :=
    Memory.pass_of_failure _ hpass
  have hmem : ∀ earlier ∈ front, earlier ∈ (scanned origin cancelAt lines).program.memory := by
    intro earlier hearlier
    rw [hsplit]
    exact List.mem_append_left _ hearlier
  cases m with
  | checksum c => simp [Memory.unresolved?] at hcause
  | instruction i =>
    have hi : .instruction i ∈ (scanned origin cancelAt lines).program.memory := by
      rw [hsplit]
      exact List.mem_append_right _ List.mem_cons_self
    have hp : i.isPending = true := by
      cases hp : i.isPending with
      | true => rfl
      | false =>
        rw [Memory.unresolved?, Instruction.resolve_of_not_pending _ hp] at hcause
        simp at hcause
    have hnamed : (scanned origin cancelAt lines).program.symbols.Named := named_stateAfter _
    obtain ⟨hoperand, hvalue⟩ :=
      (Instruction.resolve_eq_some_iff hnamed hp (hasValue_of_pending hi hp)).mp hcause
    refine .reference front i behind ⟨?_, hscan, hsplit, hp, ⟨cause.cause, hvalue, ?_⟩, ?_, ?_⟩
    · rw [hresolves.stage, hpass]
      rfl
    · rw [he, ← hoperand]
      rfl
    · intro j hj
      exact (resolve_eq_none_iff (hmem _ hj)).mp (hfront _ hj)
    · intro j hj
      rw [hresolves.memory, hmemory] at hj
      rw [List.take_left' (List.length_map _), List.mem_map] at hj
      obtain ⟨earlier, hearlier, hresolved⟩ := hj
      obtain ⟨value, hencoding⟩ :=
        encoded_of_resolved (hmem _ hearlier) (hfront _ hearlier) hresolved
      exact (Instruction.isEncoded_of_encodingOf hencoding).1

/-- A run that went through all lines completes exactly when the operand of every pending
instruction evaluates with its longest name replaced. -/
theorem complete_iff_of_scanned
    (hscan : (Scan.scanLines cancelAt (opening origin lines) 0 lines).2 = none) :
    (run origin cancelAt lines).program.complete = true ↔
      ∀ i, .instruction i ∈ (scanned origin cancelAt lines).program.memory → i.isPending = true →
        ∃ value, Expression.evaluate
          (i.substituteLongest (scanned origin cancelAt lines).program.symbols).operand =
            .ok value := by
  constructor
  · intro hcomplete i hi
    exact (resolve_eq_none_iff hi).mp ((completed_of_complete hcomplete).resolves_memory hi)
  · intro hall
    have hresolves := resolves_resolve (scanned origin cancelAt lines)
    rw [← run_of_scanned hscan] at hresolves
    cases hpass : (Memory.pass (scanned origin cancelAt lines).program.symbols
        (scanned origin cancelAt lines).program.memory).failure with
    | none => rw [hresolves.complete, hpass, Option.isNone_none, Bool.or_true]
    | some e =>
      obtain ⟨front, m, behind, cause, hsplit, _, hcause, _⟩ := Memory.pass_of_failure _ hpass
      cases m with
      | checksum c => simp [Memory.unresolved?] at hcause
      | instruction i =>
        have hi : .instruction i ∈ (scanned origin cancelAt lines).program.memory := by
          rw [hsplit]
          exact List.mem_append_right _ List.mem_cons_self
        rw [Memory.unresolved?, (resolve_eq_none_iff hi).mpr (hall i hi)] at hcause
        exact absurd hcause (by simp)

/-- Where operands are found to be at fault. Creating an instruction, with one look at its operand
or with two, fails exactly for a mnemonic that is not in the encoding table, and gives an
instruction that is either pending, without encoding and marker, or encoded. So an operand stops a
run only at a line for the start address with no byte in front of it, at a constant without a name
or with a new one, or in the second pass at the first reference that stays without a value. A run
that went through all lines and has no such reference completes with every instruction encoded. -/
theorem operand_fault_cases :
    (∀ (source : SourceLine) (address : UInt16) (table : SymbolTable),
      (Instruction.create? source address table = none ↔
        EncodingTable.lookup source.mnemonic = none) ∧
      (∀ fault, Instruction.createInSteps source address table = .error fault ↔
        EncodingTable.lookup source.mnemonic = none ∧ fault = .unknownOpcode source.mnemonic) ∧
      (∀ i, Instruction.createInSteps source address table = .ok i ↔
        Instruction.create? source address table = some i) ∧
      ∀ i, Instruction.create? source address table = some i →
        (i.isPending = true ∧ i.isEncoded = false ∧ i.marker? = none) ∨
          (i.isEncoded = true ∧ i.isPending = false)) ∧
    (∀ (origin : UInt16) (cancelAt : Option Nat) (lines : List Text) (e : FatalError),
      (run origin cancelAt lines).failure = some (.fatal e) → e.fault.kind = .badOperand →
      OperandFault origin cancelAt lines e) ∧
    (∀ (origin : UInt16) (cancelAt : Option Nat) (lines : List Text),
      (Scan.scanLines cancelAt (opening origin lines) 0 lines).2 = none →
      (∀ i, .instruction i ∈ (scanned origin cancelAt lines).program.memory → i.isPending = true →
        ∃ value, Expression.evaluate
          (i.substituteLongest (scanned origin cancelAt lines).program.symbols).operand =
            .ok value) →
      (run origin cancelAt lines).failure = none ∧
        (run origin cancelAt lines).program.complete = true ∧
        ∀ i, .instruction i ∈ (run origin cancelAt lines).program.memory →
          i.isPending = false ∧ i.isEncoded = true) := by
  refine ⟨?_, ?_, ?_⟩
  · intro source address table
    have hsteps := Instruction.createInSteps_eq source address table
    have hnone := @Instruction.create?_eq_none_iff source address table
    refine ⟨hnone, ?_, ?_, ?_⟩
    · intro fault
      rw [hsteps, ← hnone]
      cases Instruction.create? source address table <;> simp [eq_comm]
    · intro i
      rw [hsteps]
      cases Instruction.create? source address table <;> simp
    · intro i hi
      cases hp : i.isPending with
      | true => exact .inl ⟨rfl, Instruction.not_isEncoded_of_isPending hp⟩
      | false =>
        obtain ⟨value, _, hencoding⟩ := Instruction.create?_settled hi hp
        exact .inr ⟨(Instruction.isEncoded_of_encodingOf hencoding).1, rfl⟩
  · intro origin cancelAt lines e hfailure hkind
    cases hscan : (Scan.scanLines cancelAt (opening origin lines) 0 lines).2 with
    | none => exact operandFault_of_resolving hscan hfailure
    | some failure =>
      rw [run_of_stopped hscan, stopped, Option.some.injEq] at hfailure
      rw [hfailure] at hscan
      exact operandFault_of_scanning hscan hkind
  · intro origin cancelAt lines hscan hall
    have hcomplete := (complete_iff_of_scanned hscan).mpr hall
    refine ⟨?_, hcomplete, ?_⟩
    · by_contra hfailure
      rw [complete_of_failure hfailure] at hcomplete
      exact absurd hcomplete (by decide)
    · intro i hi
      obtain ⟨value, hencoding⟩ := (completed_of_complete hcomplete).encoded hi
      exact (Instruction.isEncoded_of_encodingOf hencoding).symm

/-- An unknown name in each of the three places, the last time behind a reference that is resolved,
and a run without it. -/
theorem operand_fault_cases_unknown_name :
    let name := Text.ascii "NOWHERE"
    let cause := ExpressionError.operand name (.notNumber name 10)
    let source : SourceLine := ⟨1, Text.ascii "        JMP  NOWHERE", [], Text.ascii "JMP", name⟩
    let moved := [Text.ascii "* START", Text.ascii "        ORG  NOWHERE"]
    let defined := [Text.ascii "        NOP", Text.ascii "HERE    EQU  NOWHERE"]
    let referring := [Text.ascii "        JMP  LATER", Text.ascii "        LDA  NOWHERE",
      Text.ascii "LATER   NOP"]
    let closed := [Text.ascii "        JMP  LATER", Text.ascii "LATER   NOP"]
    (∃ i, Instruction.create? source 0x8000 ⟨[]⟩ = some i ∧
      ((i.isPending = true ∧ i.isEncoded = false ∧ i.marker? = none) ∨
        (i.isEncoded = true ∧ i.isPending = false))) ∧
      OperandFault 0x8000 none moved ⟨2, .argument name cause⟩ ∧
      OperandFault 0x8000 none defined ⟨2, .argument name cause⟩ ∧
      OperandFault 0x8000 none referring ⟨2, .unresolved ⟨name, cause⟩⟩ ∧
      (run 0x8000 none closed).failure = none ∧
      (run 0x8000 none closed).program.complete = true ∧
      ∀ i, .instruction i ∈ (run 0x8000 none closed).program.memory →
        i.isPending = false ∧ i.isEncoded = true := by
  intro name cause source moved defined referring closed
  obtain ⟨hcreates, hfaults, hcompletes⟩ := operand_fault_cases
  have hsome : (Instruction.create? source 0x8000 ⟨[]⟩).isSome = true := by decide +kernel
  obtain ⟨i, hi⟩ := Option.isSome_iff_exists.mp hsome
  have hscan : (Scan.scanLines none (opening 0x8000 closed) 0 closed).2 = none := by decide +kernel
  have hvalued := (complete_iff_of_scanned hscan).mp (by decide +kernel)
  exact ⟨⟨i, hi, (hcreates source 0x8000 ⟨[]⟩).2.2.2 i hi⟩,
    hfaults 0x8000 none moved _ (by decide +kernel) rfl,
    hfaults 0x8000 none defined _ (by decide +kernel) rfl,
    hfaults 0x8000 none referring _ (by decide +kernel) rfl,
    hcompletes 0x8000 none closed hscan hvalued⟩

end Assembly

end ColumnAssembler
