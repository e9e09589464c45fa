import ColumnAssembler.Proofs.OperandFaults

/-!
# Instructions by their flags

An instruction as a flat record. One flag says that its operand is waited for, another one that it
has been encoded, and the mode, the opcode, the operand bytes and the marker are filled in as they
are found. Such a record can hold both flags at once, or a marker without an encoding. Creating and
resolving never leave it so: a created instruction waits for its operand or is encoded, and
resolving takes a waiting one to an encoded one, or clears its flags when it fails. The flat record
of an instruction tells all about it, and creating, resolving and reading off bytes give the same
either way.
-/

namespace ColumnAssembler

/-- An instruction at its address, with a field for each thing that may be known about it. -/
structure FlatInstruction where
  /-- The line it stands on. -/
  source : SourceLine
  /-- The address of its opcode. -/
  address : UInt16
  /-- The operand with the names known so far replaced. -/
  operand : Text
  /-- The opcodes of the mnemonic. -/
  modes : Encodings
  /-- Whether the mnemonic is a branch. -/
  relative : Bool
  /-- The operand has no value yet. -/
  unresolved : Bool
  /-- A name in the operand of a branch stood for a target out of reach. -/
  outOfRange : Bool
  /-- The mode and the operand bytes have been looked for. -/
  encoded : Bool
  /-- The mode, once it is found. -/
  mode : Option Mode
  /-- The opcode, zero until it is found. -/
  opcode : UInt8
  /-- The operand bytes, none until they are found. -/
  params : List UInt8
  /-- The error marker. -/
  marker : Option Marker
  deriving DecidableEq, Repr

namespace FlatInstruction

/-- The instruction of a source line before its operand is looked at. -/
def start (source : SourceLine) (address : UInt16) (modes : Encodings) (relative : Bool) :
    FlatInstruction :=
  ⟨source, address, source.operand, modes, relative, false, false, false, none, 0, [], none⟩

/-- Whether the operand has a value to evaluate. -/
def hasValue (f : FlatInstruction) : Bool := f.modes.hasValue f.operand

/-- The instruction with every occurrence of a name in its operand replaced by the literal of the
value, for a branch by the literal of the displacement. -/
def substitute (f : FlatInstruction) (s : Symbol) : FlatInstruction :=
  let d := Instruction.displacement f.address s.value
  let value := if f.relative then Instruction.displacementValue d else (s.value.toNat : Int)
  { f with
    operand := f.operand.replaceAll s.name (Literal.format (Int64.ofInt value) .hexadecimal)
    outOfRange := f.outOfRange || (f.relative && !Instruction.isReachable d) }

/-- Replace a name if it occurs in the operand. -/
def substituteKnown (f : FlatInstruction) (s : Symbol) : FlatInstruction :=
  if s.name.occursIn f.operand then f.substitute s else f

/-- Look for the mode and the operand bytes of a value. The instruction counts as encoded also if it
gets a marker. -/
def encodeValue (f : FlatInstruction) (value : Option Int64) : FlatInstruction :=
  let width := Instruction.widthOf value
  if f.relative && (f.outOfRange || width == .word) then
    { f with encoded := true, marker := some .badBranch }
  else
    match f.modes.infer f.operand width with
    | none => { f with encoded := true, marker := some .badAddressMode }
    | some mode =>
      { f with
        encoded := true
        mode := some mode
        opcode := (f.modes.opcode? mode).getD 0
        params := Instruction.params value }

/-- Evaluate the operand and encode it. An operand without a value is an error and changes
nothing. -/
def encode (f : FlatInstruction) : FlatInstruction × Option UnresolvedOperand :=
  if f.hasValue then
    match Expression.evaluate f.operand with
    | .ok value => (f.encodeValue (some value), none)
    | .error cause => (f, some ⟨f.operand, cause⟩)
  else (f.encodeValue none, none)

/-- The instruction of a source line at an address, with all names known so far replaced. An operand
that cannot be evaluated is waited for. Any other one is evaluated again to encode it. -/
def create (source : SourceLine) (address : UInt16) (table : SymbolTable) :
    Except Fault FlatInstruction :=
  match EncodingTable.lookup source.mnemonic with
  | none => .error (.unknownOpcode source.mnemonic)
  | some modes =>
    let f := table.byLength.foldl substituteKnown
      (start source address modes (EncodingTable.isRelative source.mnemonic))
    if f.hasValue && !(Expression.evaluate f.operand).isOk then .ok { f with unresolved := true }
    else
      match f.encode with
      | (next, none) => .ok next
      | (_, some e) => .error (.unresolved e)

/-- The instruction with the longest known name in its operand replaced. -/
def substituteLongest (f : FlatInstruction) (table : SymbolTable) : FlatInstruction :=
  match table.longestMatch? f.operand with
  | some s => f.substitute s
  | none => f

/-- Encode an instruction that is waiting for its operand. It does not wait any longer, whether this
fails or not. -/
def resolve (f : FlatInstruction) (table : SymbolTable) :
    FlatInstruction × Option UnresolvedOperand :=
  if f.unresolved then ({ f with unresolved := false }.substituteLongest table).encode
  else (f, none)

/-- The number of bytes that the instruction takes. -/
def length (f : FlatInstruction) : Nat :=
  if f.unresolved then
    match f.modes.infer f.operand .unresolved with
    | none => 0
    | some .relative => 2
    | some _ => Instruction.maxSize
  else if !f.encoded || f.marker.isSome then 0
  else 1 + f.params.length

/-- The bytes that the instruction emits. -/
def bytes (f : FlatInstruction) : List UInt8 :=
  if !f.encoded || f.marker.isSome then [] else f.opcode :: f.params

/-- How far the encoding has come, read off the flags. -/
def encoding (f : FlatInstruction) : Encoding :=
  if f.unresolved then .pending
  else if f.encoded then
    match f.marker, f.mode with
    | some marker, _ => .marked marker
    | none, some mode => .complete mode f.opcode f.params
    | none, none => .abandoned
  else .abandoned

/-- The instruction of a flat record. -/
def toInstruction (f : FlatInstruction) : Instruction :=
  ⟨f.source, f.address, f.operand, f.outOfRange, f.encoding⟩

/-! ### The states of the flags -/

/-- The operand is waited for. -/
def Waiting (f : FlatInstruction) : Prop :=
  f.unresolved = true ∧ f.encoded = false ∧ f.marker = none

/-- The instruction is encoded, with or without a marker. -/
def Settled (f : FlatInstruction) : Prop := f.encoded = true ∧ f.unresolved = false

/-- Nothing is known, and nothing is waited for. -/
def Unset (f : FlatInstruction) : Prop :=
  f.unresolved = false ∧ f.encoded = false ∧ f.marker = none

theorem Unset.substituteKnown {f : FlatInstruction} (h : f.Unset) (s : Symbol) :
    (f.substituteKnown s).Unset := by
  unfold FlatInstruction.substituteKnown
  split <;> exact h

theorem Unset.foldl {f : FlatInstruction} (h : f.Unset) (symbols : List Symbol) :
    (symbols.foldl FlatInstruction.substituteKnown f).Unset := by
  induction symbols generalizing f with
  | nil => exact h
  | cons s rest ih => exact ih (h.substituteKnown s)

theorem Unset.substituteLongest {f : FlatInstruction} (h : f.Unset) (table : SymbolTable) :
    (f.substituteLongest table).Unset := by
  unfold FlatInstruction.substituteLongest
  split <;> exact h

theorem Unset.settled_encodeValue {f : FlatInstruction} (h : f.Unset) (value : Option Int64) :
    (f.encodeValue value).Settled := by
  unfold encodeValue
  dsimp only
  split
  · exact ⟨rfl, h.1⟩
  · split <;> exact ⟨rfl, h.1⟩

/-- Encoding sets the flag, or changes nothing and fails. -/
theorem Unset.encode_cases {f : FlatInstruction} (h : f.Unset) :
    (f.encode.1.Settled ∧ f.encode.2 = none) ∨
      (f.encode.1.Unset ∧ ∃ cause, f.encode.2 = some ⟨f.operand, cause⟩) := by
  unfold encode
  split
  · split
    · exact .inl ⟨h.settled_encodeValue _, rfl⟩
    · exact .inr ⟨h, _, rfl⟩
  · exact .inl ⟨h.settled_encodeValue _, rfl⟩

/-- A created instruction waits for its operand or is encoded. -/
theorem states_of_create {source : SourceLine} {address : UInt16} {table : SymbolTable}
    {f : FlatInstruction} (h : create source address table = .ok f) : f.Waiting ∨ f.Settled := by
  unfold create at h
  split at h
  · exact absurd h (by simp)
  · next modes _ =>
    have hstart : (start source address modes
        (EncodingTable.isRelative source.mnemonic)).Unset := ⟨rfl, rfl, rfl⟩
    have hunset := hstart.foldl table.byLength
    dsimp only at h
    split at h
    · obtain rfl := Except.ok.inj h
      exact .inl ⟨rfl, hunset.2⟩
    · split at h
      · next last hlast =>
        obtain rfl := Except.ok.inj h
        have hcases := hunset.encode_cases
        rw [hlast] at hcases
        rcases hcases with ⟨hsettled, _⟩ | ⟨_, cause, hfailed⟩
        · exact .inr hsettled
        · exact absurd hfailed.symm (Option.some_ne_none _)
      · exact absurd h (by simp)

/-- Resolving encodes a waiting instruction, or fails and leaves no flag. -/
theorem Waiting.resolve_cases {f : FlatInstruction} (h : f.Waiting) (table : SymbolTable) :
    ((f.resolve table).1.Settled ∧ (f.resolve table).2 = none) ∨
      ((f.resolve table).1.Unset ∧ ((f.resolve table).2).isSome = true) := by
  have hcleared : ({ f with unresolved := false } : FlatInstruction).Unset := ⟨rfl, h.2⟩
  rw [resolve, if_pos h.1]
  rcases (hcleared.substituteLongest table).encode_cases with hsettled | ⟨hunset, cause, hsome⟩
  · exact .inl hsettled
  · exact .inr ⟨hunset, by rw [hsome, Option.isSome_some]⟩

theorem resolve_of_not_unresolved {f : FlatInstruction} (h : f.unresolved = false)
    (table : SymbolTable) : f.resolve table = (f, none) := by
  rw [resolve, h, if_neg Bool.false_ne_true]

/-- However often a created instruction is resolved, it waits for its operand and was never
resolved, or it is encoded, or it has no flag at all. -/
theorem states_of_resolutions {source : SourceLine} {address : UInt16} {table : SymbolTable}
    {f : FlatInstruction} (h : create source address table = .ok f) (tables : List SymbolTable) :
    let last := tables.foldl (fun f table => (f.resolve table).1) f
    (last.Waiting ∧ tables = []) ∨ last.Settled ∨ last.Unset := by
  intro last
  -- The last resolution finds the instruction in one of the three states.
  induction tables using List.reverseRecOn with
  | nil => exact (states_of_create h).imp (fun hwaiting => ⟨hwaiting, rfl⟩) .inl
  | append_singleton earlier final ih =>
    have hlast : last = ((earlier.foldl (fun f table => (f.resolve table).1) f).resolve final).1 :=
      List.foldl_append ..
    rw [hlast]
    rcases ih with ⟨hwaiting, _⟩ | hsettled | hunset
    · rcases hwaiting.resolve_cases final with ⟨hnext, _⟩ | ⟨hnext, _⟩
      · exact .inr (.inl hnext)
      · exact .inr (.inr hnext)
    · rw [resolve_of_not_unresolved hsettled.2]
      exact .inr (.inl hsettled)
    · rw [resolve_of_not_unresolved hunset.1]
      exact .inr (.inr hunset)

end FlatInstruction

namespace Instruction

/-! ### The flat record of an instruction -/

/-- The flat record of an instruction. -/
def flat (i : Instruction) : FlatInstruction where
  source := i.source
  address := i.address
  operand := i.operand
  modes := i.modes
  relative := i.isRelative
  unresolved := i.isPending
  outOfRange := i.outOfReach
  encoded := i.isEncoded
  mode := i.mode?
  opcode := i.opcode
  params := i.bytes.tail
  marker := i.marker?

/-- An instruction is read back from its flat record. -/
theorem toInstruction_flat (i : Instruction) : i.flat.toInstruction = i := by
  obtain ⟨source, address, operand, reach, encoding⟩ := i
  cases encoding <;> rfl

/-- An instruction is known from its flat record. -/
theorem flat_injective : Function.Injective flat :=
  Function.LeftInverse.injective toInstruction_flat

/-- The instruction without flags. -/
def cleared (i : Instruction) : Instruction := { i with encoding := .abandoned }

/-- Without flags nothing is filled in. -/
theorem flat_cleared (i : Instruction) : i.cleared.flat = ⟨i.source, i.address, i.operand, i.modes,
    i.isRelative, false, i.outOfReach, false, none, 0, [], none⟩ := rfl

/-- Replacing a name does the same to both. -/
theorem flat_substitute (i : Instruction) (s : Symbol) :
    (i.substitute s).cleared.flat = i.cleared.flat.substitute s := by
  have haddress : Literal.ofAddress s.value.toNat =
      Literal.format (Int64.ofInt s.value.toNat) .hexadecimal := by
    rw [Int64.ofInt_eq_ofNat, Literal.ofAddress]
  rw [flat_cleared, flat_cleared, substitute, FlatInstruction.substitute, haddress]
  cases hbranch : EncodingTable.isRelative i.source.mnemonic <;>
    simp [isRelative, modes, hbranch]

theorem flat_substituteKnown (i : Instruction) (s : Symbol) :
    (i.substituteKnown s).cleared.flat = i.cleared.flat.substituteKnown s := by
  have hoperand : i.cleared.flat.operand = i.operand := rfl
  unfold substituteKnown FlatInstruction.substituteKnown
  rw [hoperand]
  split
  · exact flat_substitute i s
  · rfl

theorem flat_foldl_substituteKnown (i : Instruction) (symbols : List Symbol) :
    (symbols.foldl substituteKnown i).cleared.flat =
      symbols.foldl FlatInstruction.substituteKnown i.cleared.flat :=
  (List.foldl_hom (fun i => i.cleared.flat) fun i s => (flat_substituteKnown i s).symm).symm

theorem flat_substituteLongest (i : Instruction) (table : SymbolTable) :
    (i.substituteLongest table).cleared.flat = i.cleared.flat.substituteLongest table := by
  have hoperand : i.cleared.flat.operand = i.operand := rfl
  unfold substituteLongest FlatInstruction.substituteLongest
  rw [hoperand]
  cases table.longestMatch? i.operand with
  | none => rfl
  | some s => exact flat_substitute i s

/-- Looking for the mode and the operand bytes of a value comes to the encoding for the value. -/
theorem flat_encodingOf (i : Instruction) (value : Option Int64) :
    ({ i with encoding := i.encodingOf value } : Instruction).flat =
      i.cleared.flat.encodeValue value := by
  have hreach : (i.cleared.flat.relative &&
        (i.cleared.flat.outOfRange || widthOf value == .word)) =
      (i.isRelative && (i.outOfReach || widthOf value == .word)) := rfl
  have hinfer : i.cleared.flat.modes.infer i.cleared.flat.operand (widthOf value) =
      i.modes.infer i.operand (widthOf value) := rfl
  unfold FlatInstruction.encodeValue encodingOf
  dsimp only
  rw [hreach, hinfer]
  cases i.isRelative && (i.outOfReach || widthOf value == .word) with
  | true => rfl
  | false => cases i.modes.infer i.operand (widthOf value) <;> rfl

/-- Settling an instruction is evaluating and encoding its operand. -/
theorem flat_settle (i : Instruction) :
    i.cleared.flat.encode = (i.settle.1.flat, i.settle.2) := by
  have hhas : i.cleared.flat.hasValue = i.modes.hasValue i.operand := rfl
  have hoperand : i.cleared.flat.operand = i.operand := rfl
  unfold FlatInstruction.encode settle operandValue
  rw [hhas, hoperand]
  cases i.modes.hasValue i.operand with
  | false => exact congrArg (fun f => (f, none)) (flat_encodingOf i none).symm
  | true =>
    cases Expression.evaluate i.operand with
    | ok value => exact congrArg (fun f => (f, none)) (flat_encodingOf i (some value)).symm
    | error cause => rfl

/-- Creating gives the flat record of the created instruction, and the same fault. -/
theorem flat_createInSteps (source : SourceLine) (address : UInt16) (table : SymbolTable) :
    FlatInstruction.create source address table =
      (createInSteps source address table).map flat := by
  unfold FlatInstruction.create createInSteps
  cases hlookup : EncodingTable.lookup source.mnemonic with
  | none => rfl
  | some modes =>
    have hstart : (Instruction.start source address).cleared.flat =
        FlatInstruction.start source address modes
          (EncodingTable.isRelative source.mnemonic) := by
      have hmodes : (Instruction.start source address).modes = modes := by
        rw [Instruction.modes, Instruction.start, EncodingTable.encodings, hlookup,
          Option.getD_some]
      rw [flat_cleared, hmodes]
      rfl
    dsimp only [Option.isNone_some]
    rw [if_neg Bool.false_ne_true, ← hstart, ← flat_foldl_substituteKnown]
    have hopen : ∀ i : Instruction, (i.cleared.flat.hasValue &&
        !(Expression.evaluate i.cleared.flat.operand).isOk) = i.isOpen := fun _ => rfl
    rw [hopen, flat_settle]
    split
    · rfl
    · cases hsettle : (table.byLength.foldl substituteKnown
        (Instruction.start source address)).settle with
      | mk next failure => cases failure <;> rfl

/-- Creating gives the flat record of the created instruction, or fails for the mnemonic. -/
theorem flat_create? (source : SourceLine) (address : UInt16) (table : SymbolTable) :
    FlatInstruction.create source address table =
      (create? source address table).elim (.error (.unknownOpcode source.mnemonic))
        fun i => .ok i.flat := by
  rw [flat_createInSteps, createInSteps_eq]
  cases create? source address table <;> rfl

/-- Resolving gives the flat record of the resolved instruction, and the same failure. -/
theorem flat_resolve (i : Instruction) (table : SymbolTable) :
    i.flat.resolve table = ((i.resolve table).1.flat, (i.resolve table).2) := by
  cases hp : i.isPending with
  | false =>
    rw [resolve_of_not_pending table hp, FlatInstruction.resolve_of_not_unresolved hp]
  | true =>
    have hwaiting : i.encoding = .pending := beq_iff_eq.mp hp
    have hcleared : ({ i.flat with unresolved := false } : FlatInstruction) = i.cleared.flat := by
      obtain ⟨source, address, operand, reach, encoding⟩ := i
      cases hwaiting
      rfl
    have hflag : i.flat.unresolved = true := hp
    rw [resolve_of_pending table hp, FlatInstruction.resolve, if_pos hflag, hcleared,
      ← flat_substituteLongest, flat_settle]

/-- Both take the same number of bytes. -/
theorem flat_length (i : Instruction) : i.flat.length = i.length := by
  obtain ⟨source, address, operand, reach, encoding⟩ := i
  cases encoding <;> rfl

/-- Both emit the same bytes. -/
theorem flat_bytes (i : Instruction) : i.flat.bytes = i.bytes := by
  obtain ⟨source, address, operand, reach, encoding⟩ := i
  cases encoding <;> rfl

end Instruction

end ColumnAssembler
