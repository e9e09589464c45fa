import ColumnAssembler.Instruction
import ColumnAssembler.Proofs.OpcodeTable

/-!
# From a pending instruction to its bytes

An instruction stays on its line and at its address whatever is replaced in its operand. It is
pending exactly when its operand has no value, and then it is encoded at most once, with one more
name replaced. The bytes it is given then are never more than were reserved for it, provided some
were: a branch with a two-byte value is marked and has none.
-/

namespace ColumnAssembler

/-- The mode that an operand selects has an opcode. -/
theorem Encodings.supports_of_infer {modes : Encodings} {operand : Text} {width : Width}
    {mode : Mode} (h : modes.infer operand width = some mode) : modes.supports mode = true :=
  List.find?_some h

namespace Instruction

/-- The instruction of the same line at the same address. -/
structure SamePlace (i j : Instruction) : Prop where
  /-- The line is the same. -/
  source : j.source = i.source
  /-- The address is the same. -/
  address : j.address = i.address

theorem SamePlace.refl (i : Instruction) : SamePlace i i := ⟨rfl, rfl⟩

theorem SamePlace.trans {i j k : Instruction} (h : SamePlace i j) (g : SamePlace j k) :
    SamePlace i k := ⟨g.source.trans h.source, g.address.trans h.address⟩

/-- Replacing a name moves nothing. -/
theorem samePlace_substitute (i : Instruction) (s : Symbol) : SamePlace i (i.substitute s) := by
  unfold substitute
  split <;> exact ⟨rfl, rfl⟩

/-- Replacing names that occur moves nothing. -/
theorem samePlace_foldl (symbols : List Symbol) (i : Instruction) :
    SamePlace i (symbols.foldl substituteKnown i) := by
  induction symbols generalizing i with
  | nil => exact SamePlace.refl i
  | cons s rest ih =>
    refine SamePlace.trans ?_ (ih (i.substituteKnown s))
    unfold substituteKnown
    split
    · exact samePlace_substitute i s
    · exact SamePlace.refl i

/-- Replacing the longest name moves nothing. -/
theorem samePlace_substituteLongest (i : Instruction) (table : SymbolTable) :
    SamePlace i (i.substituteLongest table) := by
  unfold substituteLongest
  split
  · exact samePlace_substitute i _
  · exact SamePlace.refl i

/-- All that encoding can do: the instruction is marked, or it has the opcode of the mode that its
operand selects and the bytes of its value. A branch is encoded only when it is in reach. -/
theorem encodingOf_cases (i : Instruction) (value : Option Int64) :
    (∃ marker, i.encodingOf value = .marked marker) ∨
      ∃ mode opcode, i.modes.infer i.operand (widthOf value) = some mode ∧
        i.modes.opcode? mode = some opcode ∧
        i.encodingOf value = .complete mode opcode (params value) ∧
        (i.isRelative = true → i.outOfReach = false ∧ widthOf value ≠ .word) := by
  unfold encodingOf
  split
  · exact Or.inl ⟨_, rfl⟩
  · next hreach =>
    split
    · exact Or.inl ⟨_, rfl⟩
    · next mode hmode =>
      obtain ⟨opcode, hopcode⟩ := Option.isSome_iff_exists.mp (Encodings.supports_of_infer hmode)
      refine Or.inr ⟨mode, opcode, hmode, hopcode, by rw [hopcode, Option.getD_some], ?_⟩
      intro hrelative
      simpa [hrelative] using hreach

/-- An encoding is never the pending one. -/
theorem encodingOf_ne_pending (i : Instruction) (value : Option Int64) :
    i.encodingOf value ≠ .pending := by
  rcases encodingOf_cases i value with ⟨_, h⟩ | ⟨_, _, _, _, h, _⟩ <;> rw [h] <;> simp

/-- Deferring leaves an instruction pending exactly because its operand has no value. -/
theorem encodeOrDefer_pending {i : Instruction} (hp : i.encodeOrDefer.isPending = true) :
    ∃ cause, i.encodeOrDefer.operandValue = .error cause := by
  cases hv : i.operandValue with
  | ok value =>
    simp only [encodeOrDefer, hv, isPending, beq_iff_eq] at hp
    exact absurd hp (encodingOf_ne_pending i value)
  | error cause =>
    simp only [encodeOrDefer, hv]
    exact ⟨cause, hv⟩

/-- An instruction that is not deferred is encoded with the value of its operand. -/
theorem encodeOrDefer_settled {i : Instruction} (hp : i.encodeOrDefer.isPending = false) :
    ∃ value, i.encodeOrDefer.operandValue = .ok value ∧
      i.encodeOrDefer.encoding = i.encodeOrDefer.encodingOf value := by
  cases hv : i.operandValue with
  | ok value =>
    simp only [encodeOrDefer, hv]
    exact ⟨value, hv, rfl⟩
  | error cause => simp [encodeOrDefer, hv, isPending] at hp

/-- A created instruction has all known names replaced, and is encoded unless its operand has no
value. -/
theorem create?_eq_some {source : SourceLine} {address : UInt16} {table : SymbolTable}
    {i : Instruction} (h : create? source address table = some i) :
    i = (table.byLength.foldl substituteKnown (start source address)).encodeOrDefer := by
  unfold create? at h
  split at h
  · simp at h
  · exact (Option.some.inj h).symm

/-- A created instruction stands on its line and at its address. -/
theorem samePlace_create? {source : SourceLine} {address : UInt16} {table : SymbolTable}
    {i : Instruction} (h : create? source address table = some i) :
    i.source = source ∧ i.address = address := by
  have hfold := samePlace_foldl table.byLength (start source address)
  rw [create?_eq_some h]
  unfold encodeOrDefer
  split <;> exact ⟨hfold.source, hfold.address⟩

/-- A created instruction is pending exactly because its operand has no value. -/
theorem create?_pending {source : SourceLine} {address : UInt16} {table : SymbolTable}
    {i : Instruction} (h : create? source address table = some i) (hp : i.isPending = true) :
    ∃ cause, i.operandValue = .error cause := by
  rw [create?_eq_some h] at hp ⊢
  exact encodeOrDefer_pending hp

/-- A created instruction that is not pending is encoded with the value of its operand. -/
theorem create?_settled {source : SourceLine} {address : UInt16} {table : SymbolTable}
    {i : Instruction} (h : create? source address table = some i) (hp : i.isPending = false) :
    ∃ value, i.operandValue = .ok value ∧ i.encoding = i.encodingOf value := by
  rw [create?_eq_some h] at hp ⊢
  exact encodeOrDefer_settled hp

/-- All that resolving can do: nothing to an instruction that is not pending, else it is encoded or
abandoned with the longest known name replaced. -/
theorem resolve_cases (i : Instruction) (table : SymbolTable) :
    (i.isPending = false ∧ i.resolve table = (i, none)) ∨
      (i.isPending = true ∧ ∃ value, (i.substituteLongest table).operandValue = .ok value ∧
        i.resolve table = ({ i.substituteLongest table with
          encoding := (i.substituteLongest table).encodingOf value }, none)) ∨
      (i.isPending = true ∧ ∃ cause, (i.substituteLongest table).operandValue = .error cause ∧
        i.resolve table = ({ i.substituteLongest table with encoding := .abandoned },
          some ⟨(i.substituteLongest table).operand, cause⟩)) := by
  cases hp : i.isPending with
  | false => exact Or.inl ⟨rfl, by simp [resolve, hp]⟩
  | true =>
    cases hv : (i.substituteLongest table).operandValue with
    | ok value => exact Or.inr (Or.inl ⟨rfl, value, rfl, by simp [resolve, hp, hv]⟩)
    | error cause => exact Or.inr (Or.inr ⟨rfl, cause, rfl, by simp [resolve, hp, hv]⟩)

/-- Only pending instructions are resolved. -/
theorem resolve_of_not_pending {i : Instruction} (table : SymbolTable)
    (hp : i.isPending = false) : i.resolve table = (i, none) := by
  simp [resolve, hp]

/-- The instruction with its operand taken as it is: encoded, or abandoned when it has no value. -/
def settle (i : Instruction) : Instruction × Option UnresolvedOperand :=
  match i.operandValue with
  | .ok value => ({ i with encoding := i.encodingOf value }, none)
  | .error cause => ({ i with encoding := .abandoned }, some ⟨i.operand, cause⟩)

/-- A pending instruction is settled with the longest known name replaced. -/
theorem resolve_of_pending {i : Instruction} (table : SymbolTable) (hp : i.isPending = true) :
    i.resolve table = (i.substituteLongest table).settle := by
  rw [resolve, if_pos hp]
  rfl

/-- Resolving moves nothing. -/
theorem samePlace_resolve (i : Instruction) (table : SymbolTable) :
    SamePlace i (i.resolve table).1 := by
  have hlongest := samePlace_substituteLongest i table
  rcases resolve_cases i table with ⟨_, h⟩ | ⟨_, _, _, h⟩ | ⟨_, _, _, h⟩ <;> rw [h]
  · exact SamePlace.refl i
  · exact ⟨hlongest.source, hlongest.address⟩
  · exact ⟨hlongest.source, hlongest.address⟩

/-- A pending instruction that is resolved without an error is encoded with the value of its
operand, the longest known name in it replaced. -/
theorem resolve_ok {i : Instruction} {table : SymbolTable} (hp : i.isPending = true)
    (hok : (i.resolve table).2 = none) :
    ∃ value, (i.substituteLongest table).operandValue = .ok value ∧
      (i.resolve table).1 = { i.substituteLongest table with
        encoding := (i.substituteLongest table).encodingOf value } := by
  rcases resolve_cases i table with ⟨hn, _⟩ | ⟨_, value, hv, h⟩ | ⟨_, _, _, h⟩
  · rw [hp] at hn
    exact absurd hn (by decide)
  · exact ⟨value, hv, by rw [h]⟩
  · rw [h] at hok
    exact absurd hok (by simp)

/-- No instruction is pending after it was resolved. -/
theorem isPending_resolve (i : Instruction) (table : SymbolTable) :
    (i.resolve table).1.isPending = false := by
  rcases resolve_cases i table with ⟨hp, h⟩ | ⟨_, value, _, h⟩ | ⟨_, _, _, h⟩ <;> rw [h]
  · exact hp
  · exact beq_eq_false_iff_ne.mpr (encodingOf_ne_pending _ value)
  · rfl

/-- The bytes of an instruction that is not pending are as many as it takes. -/
theorem length_bytes {i : Instruction} (hp : i.isPending = false) :
    i.bytes.length = i.length := by
  unfold bytes length
  split
  · next h =>
    rw [h]
    exact Nat.add_comm _ 1
  · next h =>
    split
    · next hpending => simp [isPending, hpending] at hp
    · rfl
    · rfl
    · next hcomplete => exact absurd hcomplete (h _ _ _)

/-- An operand has two bytes only when its value is wide. -/
theorem length_params (value : Option Int64) :
    (params value).length ≤ 2 ∧ (widthOf value ≠ .word → (params value).length ≤ 1) := by
  cases value with
  | none => exact ⟨Nat.zero_le 2, fun _ => Nat.zero_le 1⟩
  | some v =>
    by_cases hword : Width.of v = .word
    · rw [params, if_pos hword]
      exact ⟨Nat.le_refl 2, fun hnarrow => absurd hword hnarrow⟩
    · rw [params, if_neg hword]
      exact ⟨Nat.le_succ 1, fun _ => Nat.le_refl 1⟩

/-- An encoded instruction takes at most three bytes, a branch at most two. -/
theorem length_le_of_encodingOf {i : Instruction} {value : Option Int64}
    (h : i.encoding = i.encodingOf value) :
    i.length ≤ maxSize ∧ (i.isRelative = true → i.length ≤ 2) := by
  have hparams := length_params value
  rcases encodingOf_cases i value with ⟨marker, hmarked⟩ | ⟨mode, opcode, _, _, hcomplete, hreach⟩
  · have hlength : i.length = 0 := by rw [length, h, hmarked]
    rw [hlength]
    exact ⟨Nat.zero_le _, fun _ => Nat.zero_le _⟩
  · have hlength : i.length = 1 + (params value).length := by rw [length, h, hcomplete]
    have hmax : maxSize = 3 := rfl
    refine ⟨by omega, fun hrelative => ?_⟩
    have hnarrow := hparams.2 (hreach hrelative).2
    omega

/-- An instruction is a branch exactly when it has the relative mode. -/
theorem isRelative_eq_supports (i : Instruction) : i.isRelative = i.modes.supports .relative :=
  EncodingTable.isRelative_eq_supports i.source.mnemonic

/-- A mode that is relative belongs to a branch. -/
theorem isRelative_of_infer {i : Instruction} {operand : Text} {width : Width}
    (h : i.modes.infer operand width = some .relative) : i.isRelative = true := by
  rw [isRelative_eq_supports]
  exact Encodings.supports_of_infer h

/-- A pending instruction takes the bytes reserved for it. -/
theorem length_of_pending {i : Instruction} (hp : i.isPending = true) :
    i.length = i.reservedLength := by
  rw [isPending, beq_iff_eq] at hp
  rw [length, hp]

/-- A pending instruction without a reservation fits no mode. -/
theorem infer_eq_none_of_length {i : Instruction} (hp : i.isPending = true) (h : i.length = 0) :
    i.modes.infer i.operand .unresolved = none := by
  rw [length_of_pending hp, reservedLength] at h
  split at h
  · assumption
  · simp at h
  · exact absurd h (by decide)

/-- A resolved instruction takes no more bytes than were reserved for it, if any were. -/
theorem length_resolve_le {i : Instruction} {table : SymbolTable} (hp : i.isPending = true)
    (h : (i.resolve table).2 = none) (hreserved : 1 ≤ i.length) :
    (i.resolve table).1.length ≤ i.length := by
  obtain ⟨value, _, hresolved⟩ := resolve_ok hp h
  have hplace := samePlace_resolve i table
  have hbound : (i.resolve table).1.length ≤ maxSize ∧
      ((i.resolve table).1.isRelative = true → (i.resolve table).1.length ≤ 2) := by
    rw [hresolved]
    exact length_le_of_encodingOf rfl
  rw [length_of_pending hp] at hreserved ⊢
  unfold reservedLength at hreserved ⊢
  split
  · next hnone => simp [hnone] at hreserved
  · next hrelative =>
    -- Only branches have the relative mode, and a branch is encoded in two bytes.
    apply hbound.2
    rw [isRelative, hplace.source]
    exact isRelative_of_infer hrelative
  · exact hbound.1

end Instruction

end ColumnAssembler
