import ColumnAssembler.Proofs.InstructionStages

/-!
# Encoded instructions

The mode of an instruction is chosen from the syntax of its operand, the number of operand bytes
from the width of its value. The two agree in the modes that the width helps to choose: an address
in the first page or a displacement has one byte, a full address two. The immediate and the
indirect modes are chosen by syntax alone and are given as many bytes as the value takes, so these
are the only modes in which an instruction can have another length than the processor reads.
-/

namespace ColumnAssembler

/-- The number that operand bytes denote, low byte first. -/
def operandNumber : List UInt8 → Nat
  | [] => 0
  | b :: rest => b.toNat + 0x100 * operandNumber rest

namespace Mode

/-- The modes without an operand value. -/
def bare : List Mode := [implied, accumulator]

/-- The modes of a value that fits in one byte. -/
def narrow : List Mode := [relative, zeroPage, zeroPageX, zeroPageY]

/-- The modes of a value that takes two bytes. -/
def wide : List Mode := [absolute, absoluteX, absoluteY]

/-- The modes of a value of either width. -/
def free : List Mode := [immediate, indirect, indirectX, indirectY]

/-- The number of bytes that the processor reads for an opcode of the mode. -/
def size : Mode → Nat
  | implied | accumulator => 1
  | immediate | relative | zeroPage | zeroPageX | zeroPageY | indirectX | indirectY => 2
  | absolute | absoluteX | absoluteY | indirect => 3

end Mode

/-- Whether a value fits in one byte. -/
def FitsByte (value : Int64) : Prop := 0 ≤ value.toInt ∧ value.toInt ≤ 0xFF

instance (value : Int64) : Decidable (FitsByte value) := inferInstanceAs (Decidable (_ ∧ _))

/-- The bytes are the low part of a value, low byte first. -/
structure IsLowPart (count : Nat) (value : Int64) (bytes : List UInt8) : Prop where
  /-- There are as many bytes as said. -/
  length : bytes.length = count
  /-- They denote the value up to multiples of the numbers they can denote. -/
  number : (operandNumber bytes : Int) = value.toInt % (Nat.pow 0x100 count : Nat)

/-- The operand bytes that an operand text is given in each mode. -/
inductive OperandBytes (operand : Text) : Mode → List UInt8 → Prop where
  /-- Without a value there are none. -/
  | none {mode : Mode} (hmode : mode ∈ Mode.bare) : OperandBytes operand mode []
  /-- A value that fits in one byte has one. -/
  | one {mode : Mode} {value : Int64} {bytes : List UInt8}
      (hmode : mode ∈ Mode.narrow ∨ mode ∈ Mode.free)
      (hvalue : Expression.evaluate operand = .ok value) (hfits : FitsByte value)
      (hbytes : IsLowPart 1 value bytes) : OperandBytes operand mode bytes
  /-- A value that does not fit in one byte has two. -/
  | two {mode : Mode} {value : Int64} {bytes : List UInt8}
      (hmode : mode ∈ Mode.wide ∨ mode ∈ Mode.free)
      (hvalue : Expression.evaluate operand = .ok value) (hfits : ¬ FitsByte value)
      (hbytes : IsLowPart 2 value bytes) : OperandBytes operand mode bytes

/-- Only a free mode can have another number of operand bytes than the processor reads. -/
theorem OperandBytes.length_eq {operand : Text} {mode : Mode} {bytes : List UInt8}
    (h : OperandBytes operand mode bytes) (hmode : mode ∉ Mode.free) :
    1 + bytes.length = mode.size := by
  have hbare : ∀ m ∈ Mode.bare, m.size = 1 := by decide
  have hnarrow : ∀ m ∈ Mode.narrow, m.size = 2 := by decide
  have hwide : ∀ m ∈ Mode.wide, m.size = 3 := by decide
  cases h with
  | none hb => rw [hbare mode hb, List.length_nil]
  | one hn _ _ hbytes => rw [hnarrow mode (hn.resolve_right hmode), hbytes.length]
  | two hw _ _ hbytes => rw [hwide mode (hw.resolve_right hmode), hbytes.length]

namespace Width

/-- A value has the width of a byte exactly when it fits in one. -/
theorem of_eq_byte_iff (value : Int64) : Width.of value = .byte ↔ FitsByte value := by
  have hzero : value < 0 ↔ value.toInt < 0 := Int64.lt_iff_toInt_lt
  have hlimit : 0xFF < value ↔ 0xFF < value.toInt := Int64.lt_iff_toInt_lt
  unfold Width.of FitsByte
  by_cases hwide : value.toInt < 0 ∨ 0xFF < value.toInt
  · rw [if_pos (by simpa [hzero, hlimit] using hwide)]
    constructor
    · intro h
      exact absurd h (by decide)
    · omega
  · rw [if_neg (by simpa [hzero, hlimit] using hwide)]
    constructor
    · omega
    · intro _
      rfl

/-- Every value has the width of a byte or of a word. -/
theorem of_eq_word_iff (value : Int64) : Width.of value = .word ↔ ¬ FitsByte value := by
  rw [← of_eq_byte_iff]
  unfold Width.of
  split <;> simp

end Width

namespace Encodings

/-- A mode that is chosen by width is one of those of the width. -/
theorem mem_byWidth {width : Width} {narrow wide : List Mode} {mode : Mode}
    (h : mode ∈ byWidth width narrow wide) :
    (mode ∈ narrow ∧ width.isNarrow = true) ∨ (mode ∈ wide ∧ width.isWide = true) := by
  unfold byWidth at h
  rcases List.mem_append.mp h with hnarrow | hwide
  · split at hnarrow
    · next hwidth => exact Or.inl ⟨hnarrow, hwidth⟩
    · simp at hnarrow
  · split at hwide
    · next hwidth => exact Or.inr ⟨hwide, hwidth⟩
    · simp at hwide

/-- A candidate of an operand with a value fits the width, or its mode is free. -/
theorem mem_candidates {modes : Encodings} {operand : Text} {width : Width} {mode : Mode}
    (hvalue : modes.hasValue operand = true) (h : mode ∈ modes.candidates operand width) :
    mode ∈ Mode.free ∨ (mode ∈ Mode.narrow ∧ width.isNarrow = true) ∨
      (mode ∈ Mode.wide ∧ width.isWide = true) := by
  have hindexed : ∀ {narrow wide : List Mode}, mode ∈ byWidth width narrow wide →
      (∀ m ∈ narrow, m ∈ Mode.narrow) → (∀ m ∈ wide, m ∈ Mode.wide) →
      mode ∈ Mode.free ∨ (mode ∈ Mode.narrow ∧ width.isNarrow = true) ∨
        (mode ∈ Mode.wide ∧ width.isWide = true) := by
    intro narrow wide hmem hnarrow hwide
    rcases mem_byWidth hmem with ⟨hmode, hwidth⟩ | ⟨hmode, hwidth⟩
    · exact Or.inr (Or.inl ⟨hnarrow mode hmode, hwidth⟩)
    · exact Or.inr (Or.inr ⟨hwide mode hmode, hwidth⟩)
  have hfree : ∀ {candidates : List Mode}, mode ∈ candidates →
      (∀ m ∈ candidates, m ∈ Mode.free) → mode ∈ Mode.free := fun hmem hall => hall mode hmem
  unfold candidates at h
  rw [hvalue, Bool.not_true, if_neg Bool.false_ne_true] at h
  split at h
  · exact Or.inl (hfree h (by decide))
  · split at h
    · refine Or.inl ?_
      split at h
      · exact hfree h (by decide)
      · split at h
        · exact hfree h (by decide)
        · exact hfree h (by decide)
    · split at h
      · exact hindexed h (by decide) (by decide)
      · split at h
        · exact hindexed h (by decide) (by decide)
        · exact hindexed h (by decide) (by decide)

/-- A candidate of an operand without a value is a bare mode. -/
theorem mem_candidates_of_no_value {modes : Encodings} {operand : Text} {width : Width}
    {mode : Mode} (hvalue : modes.hasValue operand = false)
    (h : mode ∈ modes.candidates operand width) : mode ∈ Mode.bare := by
  rw [candidates, hvalue] at h
  exact h

end Encodings

namespace Instruction

/-- The instructions that come of reading a line at any address with any symbols known, and of
resolving what was read with any symbols, any number of times. -/
inductive Attained : Instruction → Prop where
  /-- A line was read. -/
  | create {source : SourceLine} {address : UInt16} {known : SymbolTable} {i : Instruction}
      (h : create? source address known = some i) : Attained i
  /-- The instruction was resolved. -/
  | resolve {i : Instruction} (h : Attained i) (table : SymbolTable) : Attained (i.resolve table).1

/-- A byte made of an integer is the integer up to multiples of the numbers of a byte. -/
theorem toNat_ofInt (z : Int) : ((UInt8.ofInt z).toNat : Int) = z % 0x100 := by
  rw [UInt8.ofInt, UInt8.toNat_ofNat']
  omega

/-- The operand bytes of a value are its low part, one byte if it fits there and two otherwise. -/
theorem isLowPart_params (value : Int64) :
    (FitsByte value → IsLowPart 1 value (params (some value))) ∧
      (¬ FitsByte value → IsLowPart 2 value (params (some value))) := by
  have hlow := toNat_ofInt value.toInt
  have hhigh := toNat_ofInt (value.toInt / 0x100)
  have hone : (Nat.pow 0x100 1 : Nat) = 0x100 := rfl
  have htwo : (Nat.pow 0x100 2 : Nat) = 0x10000 := rfl
  constructor
  · intro hfits
    have hwidth : ¬ Width.of value = .word := by
      rw [Width.of_eq_word_iff]
      exact not_not_intro hfits
    rw [params, if_neg hwidth]
    refine ⟨rfl, ?_⟩
    rw [hone]
    simp only [operandNumber]
    omega
  · intro hfits
    rw [params, if_pos ((Width.of_eq_word_iff value).mpr hfits)]
    refine ⟨rfl, ?_⟩
    rw [htwo]
    simp only [operandNumber]
    omega

/-- The operand has a value exactly when there is one to evaluate. -/
theorem operandValue_ok {i : Instruction} {value : Option Int64}
    (h : i.operandValue = .ok value) :
    (i.modes.hasValue i.operand = false ∧ value = none) ∨
      (i.modes.hasValue i.operand = true ∧
        ∃ v, value = some v ∧ Expression.evaluate i.operand = .ok v) := by
  unfold operandValue at h
  split at h
  · next hhas =>
    split at h
    · next v heval => exact Or.inr ⟨hhas, v, (Except.ok.inj h).symm, heval⟩
    · simp at h
  · next hhas => exact Or.inl ⟨eq_false_of_ne_true hhas, (Except.ok.inj h).symm⟩

/-- The mode that an operand selects goes with the bytes of its value. -/
theorem operandBytes_of_infer {i : Instruction} {value : Option Int64} {mode : Mode}
    (hvalue : i.operandValue = .ok value)
    (hmode : i.modes.infer i.operand (widthOf value) = some mode) :
    OperandBytes i.operand mode (params value) := by
  have hmem := List.mem_of_find?_eq_some hmode
  rcases operandValue_ok hvalue with ⟨hhas, rfl⟩ | ⟨hhas, v, rfl, heval⟩
  · exact .none (Encodings.mem_candidates_of_no_value hhas hmem)
  · have hcases := Encodings.mem_candidates hhas hmem
    by_cases hfits : FitsByte v
    · -- A narrow value rules the wide modes out.
      have hwidth : widthOf (some v) = .byte := (Width.of_eq_byte_iff v).mpr hfits
      rw [hwidth] at hcases
      refine .one ?_ heval hfits ((isLowPart_params v).1 hfits)
      rcases hcases with hfree | ⟨hnarrow, _⟩ | ⟨_, hwide⟩
      · exact Or.inr hfree
      · exact Or.inl hnarrow
      · exact absurd hwide (by decide)
    · have hwidth : widthOf (some v) = .word := (Width.of_eq_word_iff v).mpr hfits
      rw [hwidth] at hcases
      refine .two ?_ heval hfits ((isLowPart_params v).2 hfits)
      rcases hcases with hfree | ⟨_, hnarrow⟩ | ⟨hwide, _⟩
      · exact Or.inr hfree
      · exact absurd hnarrow (by decide)
      · exact Or.inl hwide

/-- An instruction that is encoded is so with the value of its operand. -/
def Settled (i : Instruction) : Prop :=
  i.isEncoded = true → ∃ value, i.operandValue = .ok value ∧ i.encoding = i.encodingOf value

/-- A created instruction is settled if it is encoded. -/
theorem settled_create? {source : SourceLine} {address : UInt16} {known : SymbolTable}
    {i : Instruction} (h : create? source address known = some i) : i.Settled := by
  intro hencoded
  apply create?_settled h
  cases hp : i.isPending with
  | false => rfl
  | true =>
    rw [isPending, beq_iff_eq] at hp
    rw [isEncoded, hp] at hencoded
    exact absurd hencoded Bool.false_ne_true

/-- Resolving settles an instruction that it encodes and leaves the settled ones. -/
theorem Settled.resolve {i : Instruction} (h : i.Settled) (table : SymbolTable) :
    (i.resolve table).1.Settled := by
  rcases resolve_cases i table with ⟨_, hsame⟩ | ⟨_, value, hvalue, hnext⟩ | ⟨_, _, _, hnext⟩
  · rwa [hsame]
  · rw [hnext]
    exact fun _ => ⟨value, hvalue, rfl⟩
  · rw [hnext]
    intro hencoded
    exact absurd hencoded Bool.false_ne_true

/-- All instructions that are attained are settled. -/
theorem Attained.settled {i : Instruction} (h : Attained i) : i.Settled := by
  induction h with
  | create hcreate => exact settled_create? hcreate
  | resolve _ table ih => exact ih.resolve table

/-- The opcodes of a mnemonic are those that the encoding table lists for it. -/
theorem lookup_of_opcode? {i : Instruction} {mode : Mode} {opcode : UInt8}
    (h : i.modes.opcode? mode = some opcode) :
    EncodingTable.lookup i.source.mnemonic = some i.modes := by
  unfold modes EncodingTable.encodings at h ⊢
  cases hlookup : EncodingTable.lookup i.source.mnemonic with
  | none =>
    rw [hlookup] at h
    exact absurd h (by simp [Encodings.opcode?])
  | some modes => rfl

/-- An instruction that is encoded without a marker has a mode of its mnemonic, the opcode for it
and the operand bytes that go with it. -/
theorem Attained.complete {i : Instruction} (h : Attained i) (hencoded : i.isEncoded = true)
    (hmarker : i.marker? = none) :
    ∃ mode opcode params, i.encoding = .complete mode opcode params ∧
      i.modes.opcode? mode = some opcode ∧ OperandBytes i.operand mode params := by
  obtain ⟨value, hvalue, hencoding⟩ := h.settled hencoded
  rcases encodingOf_cases i value with
    ⟨marker, hmarked⟩ | ⟨mode, opcode, hmode, hopcode, hcomplete, _⟩
  · rw [marker?, hencoding, hmarked] at hmarker
    exact absurd hmarker (by simp)
  · exact ⟨mode, opcode, params value, hencoding.trans hcomplete, hopcode,
      operandBytes_of_infer hvalue hmode⟩

/-- An instruction with a mode is encoded and has no marker. -/
theorem encoded_of_mode? {i : Instruction} {mode : Mode} (h : i.mode? = some mode) :
    i.isEncoded = true ∧ i.marker? = none := by
  unfold mode? at h
  split at h
  · next hcomplete => exact ⟨by rw [isEncoded, hcomplete], by rw [marker?, hcomplete]⟩
  · simp at h

/-- Outside the free modes an instruction has the length that the processor reads. -/
theorem Attained.length_bytes {i : Instruction} {mode : Mode} (h : Attained i)
    (hmode : i.mode? = some mode) (hfree : mode ∉ Mode.free) : i.bytes.length = mode.size := by
  obtain ⟨hencoded, hmarker⟩ := encoded_of_mode? hmode
  obtain ⟨found, opcode, params, hcomplete, _, hbytes⟩ := h.complete hencoded hmarker
  rw [mode?, hcomplete, Option.some.injEq] at hmode
  rw [← hmode] at hfree ⊢
  rw [bytes, hcomplete, List.length_cons, Nat.add_comm]
  exact hbytes.length_eq hfree

/-- A line with a known mnemonic and no symbols known is read as it stands. -/
theorem attained_encodeOrDefer {source : SourceLine}
    (h : (EncodingTable.lookup source.mnemonic).isNone = false) (address : UInt16) :
    Attained (start source address).encodeOrDefer := by
  have hcreate : create? source address .empty = some (start source address).encodeOrDefer := by
    rw [create?, h]
    rfl
  exact .create hcreate

/-- In each free mode some instruction has another length than the processor reads. -/
theorem exists_length_ne_size {mode : Mode} (h : mode ∈ Mode.free) :
    ∃ i : Instruction, Attained i ∧ i.mode? = some mode ∧ i.bytes.length ≠ mode.size := by
  have hread : ∀ mnemonic operand : Text, (EncodingTable.lookup mnemonic).isNone = false →
      Attained (start ⟨1, [], [], mnemonic, operand⟩ 0).encodeOrDefer :=
    fun _ _ hknown => attained_encodeOrDefer hknown 0
  have hload := fun operand => hread (Text.ascii "LDA") operand (by decide)
  have hjump := fun operand => hread (Text.ascii "JMP") operand (by decide)
  simp only [Mode.free, List.mem_cons, List.not_mem_nil, or_false] at h
  rcases h with rfl | rfl | rfl | rfl
  · exact ⟨_, hload (Text.ascii "#$1234"), by decide +kernel, by decide +kernel⟩
  · exact ⟨_, hjump (Text.ascii "($12)"), by decide +kernel, by decide +kernel⟩
  · exact ⟨_, hload (Text.ascii "($1234,X)"), by decide +kernel, by decide +kernel⟩
  · exact ⟨_, hload (Text.ascii "($1234),Y"), by decide +kernel, by decide +kernel⟩

/-- An instruction that is encoded without a marker has a mode of its mnemonic, the opcode that the
encoding table lists for the mode, and behind it the operand bytes that go with the mode and the
value of its operand text. The number of its bytes is the one that the processor reads, in all modes
but the free ones, and in each of these it can be another. -/
theorem encoded_bytes_fit_mode :
    (∀ i : Instruction, Attained i → i.isEncoded = true → i.marker? = none →
      ∃ modes mode opcode params, EncodingTable.lookup i.source.mnemonic = some modes ∧
        i.mode? = some mode ∧ modes.opcode? mode = some opcode ∧
        i.bytes = opcode :: params ∧ OperandBytes i.operand mode params) ∧
      ∀ mode : Mode, (∃ i : Instruction, Attained i ∧ i.mode? = some mode ∧
        i.bytes.length ≠ mode.size) ↔ mode ∈ Mode.free := by
  refine ⟨fun i hi hencoded hmarker => ?_, fun mode => ⟨?_, exists_length_ne_size⟩⟩
  · obtain ⟨mode, opcode, params, hcomplete, hopcode, hbytes⟩ := hi.complete hencoded hmarker
    exact ⟨i.modes, mode, opcode, params, lookup_of_opcode? hopcode, by rw [mode?, hcomplete],
      hopcode, by rw [bytes, hcomplete], hbytes⟩
  · rintro ⟨i, hi, hmode, hlength⟩
    by_cases hfree : mode ∈ Mode.free
    · exact hfree
    · exact absurd (hi.length_bytes hmode hfree) hlength

/-- A forward reference that is resolved to a negative value has a full address of two bytes. -/
theorem encoded_bytes_fit_mode_negative :
    let source : SourceLine := ⟨1, Text.ascii "        LDA  N-1", [], Text.ascii "LDA",
      Text.ascii "N-1"⟩
    let pending := start source 0x8000
    let i := (pending.resolve ⟨[⟨Text.ascii "N", 0⟩]⟩).1
    Attained i ∧ i.isEncoded = true ∧ i.marker? = none ∧ i.bytes = [0xAD, 0xFF, 0xFF] ∧
      ∃ modes mode opcode params, EncodingTable.lookup i.source.mnemonic = some modes ∧
        i.mode? = some mode ∧ modes.opcode? mode = some opcode ∧
        i.bytes = opcode :: params ∧ OperandBytes i.operand mode params := by
  intro source pending i
  have hcreate : create? source 0x8000 .empty = some pending := by decide +kernel
  have hi : Attained i := .resolve (.create hcreate) _
  have hencoded : i.isEncoded = true := by decide +kernel
  have hmarker : i.marker? = none := by decide +kernel
  exact ⟨hi, hencoded, hmarker, by decide +kernel,
    encoded_bytes_fit_mode.1 i hi hencoded hmarker⟩

end Instruction

end ColumnAssembler
