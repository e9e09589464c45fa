import ColumnAssembler.Proofs.DefinitionOrder
import ColumnAssembler.Proofs.EncodingSoundness
import ColumnAssembler.Proofs.Reservation

/-!
# Branches to symbols

The displacement of a branch is written into its operand as a literal, raised by 256 when it is
negative, and read back from there. A target that is too far away may be written as a literal of one
byte all the same, so whether it is in reach is noted when the name is replaced and not read off the
literal. The main statement says that a branch whose operand is the name of a symbol is encoded
exactly when the target is in reach, and that the processor then arrives at it. An instruction that
was read before the symbol was known is rejected as well when another name in its operand had stood
for a target out of reach.
-/

namespace ColumnAssembler

namespace Literal

/-- The number that a hexadecimal literal of a value denotes: a negative value wraps around. -/
def wrapped (value : Int64) : Nat :=
  if value.toInt < 0 then (value.toInt % 0x10000).toNat else value.toInt.toNat

/-- The hexadecimal literal of a value is that of the number it wraps around to. -/
theorem format_eq_ofAddress {value : Int64} (h : wrapped value ≤ maxValue) :
    format value .hexadecimal = ofAddress (wrapped value) := by
  have hsign : value < 0 ↔ value.toInt < 0 := Int64.lt_iff_toInt_lt
  rw [ofAddress_eq h, format, hex, wrapped]
  by_cases hnegative : value.toInt < 0
  · rw [if_pos (hsign.mpr hnegative), if_pos hnegative]
  · rw [if_neg (fun hless => hnegative (hsign.mp hless)), if_neg hnegative]

end Literal

namespace Instruction

/-- The displacement to a target lies between those of the ends of the address space. -/
theorem displacement_bounds (address target : UInt16) :
    -0x10001 ≤ displacement address target ∧ displacement address target ≤ 0xFFFD := by
  have haddress := address.toNat_lt
  have htarget := target.toNat_lt
  unfold displacement
  omega

/-- A displacement is in reach when it is that of a signed byte. -/
theorem isReachable_iff (d : Int) : isReachable d = true ↔ -128 ≤ d ∧ d ≤ 127 := by
  simp [isReachable]

end Instruction

/-- The literal for a symbol in a branch denotes its displacement as an operand value if the symbol
is in reach, and some other number if not. -/
theorem Symbol.literalAt_of_branch {source : SourceLine}
    (hbranch : EncodingTable.isRelative source.mnemonic = true) (address : UInt16) (s : Symbol) :
    ∃ n, n ≤ 0xFFFF ∧ s.literalAt source address = Literal.ofAddress n ∧
      (Instruction.isReachable (Instruction.displacement address s.value) = true →
        (n : Int) = Instruction.displacementValue (Instruction.displacement address s.value)) := by
  have hbounds := Instruction.displacement_bounds address s.value
  generalize hd : Instruction.displacement address s.value = d at hbounds
  have hraised : -0x10001 ≤ Instruction.displacementValue d ∧
      Instruction.displacementValue d ≤ 0xFFFD := by
    unfold Instruction.displacementValue
    split <;> omega
  have hvalue : (Int64.ofInt (Instruction.displacementValue d)).toInt =
      Instruction.displacementValue d := by
    apply Int64.toInt_ofInt_of_le <;> omega
  have hwrapped : Literal.wrapped (Int64.ofInt (Instruction.displacementValue d)) ≤ 0xFFFF := by
    unfold Literal.wrapped
    rw [hvalue]
    split <;> omega
  refine ⟨_, hwrapped, ?_, ?_⟩
  · rw [Symbol.literalAt, if_pos hbranch, hd, Literal.format_eq_ofAddress]
    exact Nat.le_trans hwrapped (by decide)
  · intro hreach
    rw [Instruction.isReachable_iff] at hreach
    have hsign : ¬ Instruction.displacementValue d < 0 := by
      unfold Instruction.displacementValue
      split <;> omega
    rw [Literal.wrapped, hvalue, if_neg hsign]
    omega

namespace Encodings

/-- A branch operand that begins with a dollar sign and has no comma selects the relative mode if
its value is narrow. -/
theorem infer_relative {modes : Encodings} {operand : Text}
    (hrelative : modes.supports .relative = true) (hstart : operand.head? = some Byte.dollar)
    (hcomma : Byte.comma ∉ operand) : modes.infer operand .byte = some .relative := by
  obtain ⟨rest, rfl⟩ := List.head?_eq_some_iff.mp hstart
  have hvalue : modes.hasValue (Byte.dollar :: rest) = true := by
    rw [hasValue, isAccumulatorOperand]
    rfl
  have hregister : ∀ register, [Byte.comma, register].isSuffixOf (Byte.dollar :: rest) = false := by
    intro register
    apply eq_false_of_ne_true
    intro hsuffix
    exact hcomma ((List.isSuffixOf_iff_suffix.mp hsuffix).mem List.mem_cons_self)
  have hx : (Text.ascii ",X").isSuffixOf (Byte.dollar :: rest) = false := hregister 0x58
  have hy : (Text.ascii ",Y").isSuffixOf (Byte.dollar :: rest) = false := hregister 0x59
  have hform : OperandForm.of (Byte.dollar :: rest) = .direct := by
    rw [OperandForm.of, hx, hy]
    rfl
  rw [infer, candidates_eq hvalue rfl, hform]
  dsimp only [byWidth]
  exact List.find?_cons_of_pos hrelative

end Encodings

namespace Instruction

/-- What a branch with a value in its operand is encoded as: it has the relative opcode and the
value as its byte if that is one byte and no target was out of reach, and is rejected otherwise. -/
theorem encodingOf_branch {i : Instruction} (hbranch : i.isRelative = true)
    (hstart : i.operand.head? = some Byte.dollar) (hcomma : Byte.comma ∉ i.operand)
    {value : Int64} (hvalue : Expression.evaluate i.operand = .ok value) :
    ∃ opcode, i.modes.opcode? .relative = some opcode ∧ i.operandValue = .ok (some value) ∧
      i.encodingOf (some value) = if i.outOfReach = false ∧ FitsByte value then
        .complete .relative opcode [UInt8.ofInt value.toInt] else .marked .badBranch := by
  have hsupports : i.modes.supports .relative = true := by rw [← isRelative_eq_supports, hbranch]
  obtain ⟨opcode, hopcode⟩ : ∃ opcode, i.modes.opcode? .relative = some opcode :=
    Option.isSome_iff_exists.mp hsupports
  have hhas : i.modes.hasValue i.operand = true := by
    obtain ⟨rest, hrest⟩ := List.head?_eq_some_iff.mp hstart
    rw [hrest, Encodings.hasValue, Encodings.isAccumulatorOperand]
    rfl
  refine ⟨opcode, hopcode, by rw [operandValue, if_pos hhas, hvalue], ?_⟩
  rw [encodingOf, hbranch, Bool.true_and]
  by_cases hfits : FitsByte value
  · have hwidth : widthOf (some value) = .byte := (Width.of_eq_byte_iff value).mpr hfits
    have hmode : i.modes.infer i.operand .byte = some .relative :=
      Encodings.infer_relative hsupports hstart hcomma
    have hparams : params (some value) = [UInt8.ofInt value.toInt] := by
      have hnarrow : ¬ Width.of value = .word := by
        rw [Width.of_eq_word_iff]
        exact not_not_intro hfits
      rw [params, if_neg hnarrow]
    rw [hwidth, hmode, hparams]
    cases hreach : i.outOfReach with
    | true => simp
    | false => simp [hfits, hopcode]
  · have hwidth : widthOf (some value) = .word := (Width.of_eq_word_iff value).mpr hfits
    rw [hwidth]
    simp [hfits]

/-- Where a branch with an operand byte leads: the byte is signed and counts from the next
instruction. -/
def destination (address : UInt16) (b : UInt8) : Int := address.toNat + 2 + b.toInt8.toInt

/-- A byte made of an integer within its signed range stands for the integer. -/
theorem toInt_toInt8_ofInt {z : Int} (hlow : -128 ≤ z) (hhigh : z ≤ 127) :
    (UInt8.ofInt z).toInt8.toInt = z := by
  have hbyte : (UInt8.ofInt z).toInt8 = Int8.ofNat (z % 2 ^ 8).toNat := by
    rw [UInt8.ofInt, UInt8.toInt8_ofNat']
  rw [hbyte, ← Int8.ofInt_eq_ofNat, Int8.toInt_ofInt]
  have hsize : Int8.size = 256 := rfl
  rw [hsize, Int.bmod_def]
  split <;> omega

/-- A displacement in reach leads to its target. -/
theorem destination_displacement {address target : UInt16}
    (h : isReachable (displacement address target) = true) :
    destination address (UInt8.ofInt (displacement address target)) = target.toNat := by
  rw [isReachable_iff] at h
  rw [destination, toInt_toInt8_ofInt h.1 h.2, displacement]
  omega

/-- A branch that is marked because its target is out of reach: it takes no room and emits
nothing. -/
structure Rejected (i : Instruction) : Prop where
  /-- The record carries the marker for branches. -/
  marker : i.marker? = some .badBranch
  /-- It takes no bytes. -/
  length : i.length = 0
  /-- It emits none. -/
  bytes : i.bytes = []

/-- A branch that is encoded with an operand byte. -/
structure Branches (i : Instruction) (b : UInt8) : Prop where
  /-- The record carries no marker. -/
  marker : i.marker? = none
  /-- The bytes are the relative opcode of the mnemonic and the operand byte. -/
  bytes : ∃ opcode, i.modes.opcode? .relative = some opcode ∧ i.bytes = [opcode, b]

/-- A branch is encoded with the displacement of a target, and arrives there, exactly when the
displacement is that of a signed byte, and is rejected otherwise. -/
structure BranchesExactly (i : Instruction) (target : UInt16) : Prop where
  /-- It is encoded exactly when the target is in reach. -/
  encoded_iff : i.Branches (UInt8.ofInt (target.toNat - (i.address.toNat + 2))) ↔
    -128 ≤ (target.toNat : Int) - (i.address.toNat + 2) ∧
      (target.toNat : Int) - (i.address.toNat + 2) ≤ 127
  /-- The operand byte it is encoded with leads to the target. -/
  arrives : ∀ b, i.Branches b → destination i.address b = target.toNat
  /-- It is rejected when the target is out of reach. -/
  rejected : ¬ (-128 ≤ (target.toNat : Int) - (i.address.toNat + 2) ∧
    (target.toNat : Int) - (i.address.toNat + 2) ≤ 127) → i.Rejected

/-- A marked branch is rejected. -/
theorem rejected_of_marked {i : Instruction} (h : i.encoding = .marked .badBranch) :
    i.Rejected :=
  ⟨by rw [marker?, h], by rw [length, h], by rw [bytes, h]⟩

/-- A rejected branch is not encoded. -/
theorem Rejected.not_branches {i : Instruction} (h : i.Rejected) (b : UInt8) :
    ¬ i.Branches b := by
  intro hencoded
  have hmarker := hencoded.marker
  rw [h.marker] at hmarker
  exact absurd hmarker (by simp)

/-- An encoded branch has its relative opcode and its byte. -/
theorem branches_of_complete {i : Instruction} {opcode b : UInt8}
    (hopcode : i.modes.opcode? .relative = some opcode)
    (h : i.encoding = .complete .relative opcode [b]) : i.Branches b :=
  ⟨by rw [marker?, h], opcode, hopcode, by rw [bytes, h]⟩

/-- An encoded branch has one byte. -/
theorem Branches.unique {i : Instruction} {b c : UInt8} (h : i.Branches b) (k : i.Branches c) :
    b = c := by
  obtain ⟨_, _, hb⟩ := h.bytes
  obtain ⟨_, _, hc⟩ := k.bytes
  rw [hb] at hc
  simp only [List.cons.injEq, and_true] at hc
  exact hc.2

/-- A branch that is encoded with a displacement in reach and marked otherwise branches exactly. -/
theorem branchesExactly_of_encoding {i : Instruction} {target : UInt16}
    (hnear : isReachable (displacement i.address target) = true →
      i.Branches (UInt8.ofInt (displacement i.address target)))
    (hfar : ¬ isReachable (displacement i.address target) = true → i.Rejected) :
    i.BranchesExactly target := by
  have hencoded : i.Branches (UInt8.ofInt (displacement i.address target)) ↔
      isReachable (displacement i.address target) = true := by
    refine ⟨fun h => ?_, hnear⟩
    by_cases hreach : isReachable (displacement i.address target) = true
    · exact hreach
    · exact absurd h ((hfar hreach).not_branches _)
  have hiff := isReachable_iff (displacement i.address target)
  refine ⟨hencoded.trans hiff, fun b hb => ?_, fun h => hfar (fun hreach => h (hiff.mp hreach))⟩
  by_cases hreach : isReachable (displacement i.address target) = true
  · rw [hb.unique (hnear hreach)]
    exact destination_displacement hreach
  · exact absurd hb ((hfar hreach).not_branches b)

/-- Settling moves nothing. -/
theorem samePlace_settle (i : Instruction) : SamePlace i i.settle.1 := by
  unfold settle
  split <;> exact ⟨rfl, rfl⟩

/-- An instruction that is settled without an error is not deferred. -/
theorem encodeOrDefer_eq_settle {i : Instruction} (h : i.settle.2 = none) :
    i.encodeOrDefer = i.settle.1 := by
  cases hvalue : i.operandValue with
  | ok value => rw [encodeOrDefer, settle, hvalue]
  | error cause =>
    rw [settle, hvalue] at h
    exact absurd h (by simp)

/-- A branch with a value in its operand is settled: encoded with the value as its byte if that is
one byte and no target was out of reach, and rejected otherwise. -/
theorem settle_branch {i : Instruction} (hbranch : i.isRelative = true)
    (hstart : i.operand.head? = some Byte.dollar) (hcomma : Byte.comma ∉ i.operand)
    {value : Int64} (hvalue : Expression.evaluate i.operand = .ok value) :
    i.settle.2 = none ∧
      (i.outOfReach = false ∧ FitsByte value → i.settle.1.Branches (UInt8.ofInt value.toInt)) ∧
      (¬ (i.outOfReach = false ∧ FitsByte value) → i.settle.1.Rejected) := by
  obtain ⟨opcode, hopcode, hok, hencoding⟩ := encodingOf_branch hbranch hstart hcomma hvalue
  have hsettle : i.settle = ({ i with encoding := i.encodingOf (some value) }, none) := by
    rw [settle, hok]
  rw [hsettle]
  refine ⟨rfl, fun hnear => ?_, fun hfar => ?_⟩
  · rw [if_pos hnear] at hencoding
    exact branches_of_complete hopcode hencoding
  · rw [if_neg hfar] at hencoding
    exact rejected_of_marked hencoding

/-- A name in a branch is replaced by the literal of the displacement, and whether the target is in
reach is noted. -/
theorem substitute_of_branch {i : Instruction} (hbranch : i.isRelative = true) (s : Symbol) :
    i.substitute s = { i with
      operand := i.operand.replaceAll s.name (s.literalAt i.source i.address)
      outOfReach := i.outOfReach || !isReachable (displacement i.address s.value) } := by
  have hsource : EncodingTable.isRelative i.source.mnemonic = true := hbranch
  rw [substitute, if_pos hbranch, Symbol.literalAt, if_pos hsource]

/-- Integers with the same low byte make the same byte. -/
theorem ofInt_congr {a b : Int} (h : a % 0x100 = b % 0x100) : UInt8.ofInt a = UInt8.ofInt b := by
  have hsame : a % 2 ^ 8 = b % 2 ^ 8 := h
  rw [UInt8.ofInt, UInt8.ofInt, hsame]

/-- An offset can be added to a displacement: the displacement is in reach, and the sum has its sign
and no more than eight bits besides. -/
def SumFits (d offset : Int) : Prop :=
  (0 ≤ d ∧ d ≤ 127 ∧ 0 ≤ d + offset ∧ d + offset ≤ 255) ∨
    (-128 ≤ d ∧ d < 0 ∧ -256 ≤ d + offset ∧ d + offset < 0)

/-- Without an offset a displacement need only be in reach. -/
theorem sumFits_zero (d : Int) : SumFits d 0 ↔ isReachable d = true := by
  rw [isReachable_iff]
  unfold SumFits
  omega

/-- An offset can be added to a displacement in reach if the sum with its operand value is a byte.
-/
theorem sumFits_iff {d : Int} (hreach : isReachable d = true) (offset : Int) :
    SumFits d offset ↔ 0 ≤ displacementValue d + offset ∧ displacementValue d + offset ≤ 0xFF := by
  rw [isReachable_iff] at hreach
  unfold SumFits displacementValue
  split <;> omega

/-- Only to a displacement in reach an offset can be added. -/
theorem SumFits.isReachable {d offset : Int} (h : SumFits d offset) : isReachable d = true := by
  rw [isReachable_iff]
  unfold SumFits at h
  omega

/-- The operand of a branch after the name at its start is replaced. -/
theorem operand_substitute_front {i : Instruction} {s : Symbol} {t : Text}
    (hbranch : i.isRelative = true) (hname : s.name ≠ []) (hoperand : i.operand = s.name ++ t)
    (habsent : ¬ s.name <:+: t) :
    (i.substitute s).operand = s.literalAt i.source i.address ++ t := by
  rw [substitute_of_branch hbranch]
  exact hoperand ▸ Text.replaceAll_append_of_absent hname _ habsent

/-- A branch whose operand is the name of a symbol and an offset is settled once the name is
replaced. It is encoded with the sum of the displacement and the offset if the offset can be added
and no target was out of reach before, and rejected otherwise. -/
theorem settle_substitute_sum {i : Instruction} {s : Symbol} {t : Text} {offset : Int}
    (hbranch : i.isRelative = true) (hname : s.name ≠ []) (hoperand : i.operand = s.name ++ t)
    (habsent : ¬ s.name <:+: t) (hcomma : Byte.comma ∉ t)
    (hoffset : -Literal.maxValue ≤ offset ∧ offset ≤ Literal.maxValue)
    (hsum : ∀ n, n ≤ 0xFFFF →
      Expression.evaluate (Literal.ofAddress n ++ t) = .ok (Int64.ofInt (n + offset))) :
    (i.substitute s).settle.2 = none ∧
      (i.outOfReach = false ∧ SumFits (displacement i.address s.value) offset →
        (i.substitute s).settle.1.Branches
          (UInt8.ofInt (displacement i.address s.value + offset))) ∧
      (¬ (i.outOfReach = false ∧ SumFits (displacement i.address s.value) offset) →
        (i.substitute s).settle.1.Rejected) := by
  have hsource : EncodingTable.isRelative i.source.mnemonic = true := hbranch
  have hrelative : (i.substitute s).isRelative = true := by
    rwa [isRelative, (samePlace_substitute i s).source]
  have hflag : (i.substitute s).outOfReach =
      (i.outOfReach || !isReachable (displacement i.address s.value)) := by
    rw [substitute_of_branch hbranch]
  obtain ⟨n, hn, hliteral, hnumber⟩ := Symbol.literalAt_of_branch hsource i.address s
  have hreplaced := operand_substitute_front hbranch hname hoperand habsent
  rw [hliteral] at hreplaced
  have hstart : (i.substitute s).operand.head? = some Byte.dollar := by
    rw [hreplaced, Literal.ofAddress_eq (Nat.le_trans hn (by decide))]
    rfl
  have hplain : Byte.comma ∉ (i.substitute s).operand := by
    rw [hreplaced, List.mem_append, not_or]
    exact ⟨Literal.not_mem_of_isForeign (t := [Byte.comma]) rfl List.mem_cons_self _, hcomma⟩
  have hevaluate : Expression.evaluate (i.substitute s).operand =
      .ok (Int64.ofInt (n + offset)) := by
    rw [hreplaced]
    exact hsum n hn
  have hvalue : (Int64.ofInt (n + offset)).toInt = n + offset := by
    unfold Literal.maxValue at hoffset
    apply Int64.toInt_ofInt_of_le <;> omega
  generalize displacement i.address s.value = d at hflag hnumber ⊢
  -- The literal of a target out of reach may be a byte too, and then the flag alone tells.
  have hiff : (i.substitute s).outOfReach = false ∧ FitsByte (Int64.ofInt (n + offset)) ↔
      i.outOfReach = false ∧ SumFits d offset := by
    rw [hflag, FitsByte, hvalue]
    by_cases hreach : isReachable d = true
    · rw [hnumber hreach, sumFits_iff hreach, hreach, Bool.not_true, Bool.or_false]
    · have hnot : ¬ SumFits d offset := fun h => hreach h.isReachable
      simp [hreach, hnot]
  obtain ⟨hok, hnear, hfar⟩ := settle_branch hrelative hstart hplain hevaluate
  rw [hiff] at hnear hfar
  refine ⟨hok, fun hkept => ?_, hfar⟩
  have hbyte : UInt8.ofInt (Int64.ofInt (n + offset)).toInt = UInt8.ofInt (d + offset) := by
    rw [hvalue, hnumber hkept.2.isReachable]
    apply ofInt_congr
    unfold displacementValue
    split <;> omega
  rw [← hbyte]
  exact hnear hkept

/-- A branch whose operand is the name of a symbol branches exactly once the name is replaced,
unless a target was out of reach before: then it is rejected whatever the symbol is. -/
theorem settle_substitute_name {i : Instruction} {s : Symbol} (hbranch : i.isRelative = true)
    (hname : s.name ≠ []) (hoperand : i.operand = s.name) :
    (i.substitute s).settle.2 = none ∧
      (i.outOfReach = false → (i.substitute s).settle.1.BranchesExactly s.value) ∧
      (i.outOfReach = true → (i.substitute s).settle.1.Rejected) := by
  have haddress : (i.substitute s).settle.1.address = i.address :=
    ((samePlace_substitute i s).trans (samePlace_settle _)).address
  have habsent : ¬ s.name <:+: [] := fun h => hname (List.infix_nil.mp h)
  have hsum : ∀ n, n ≤ 0xFFFF →
      Expression.evaluate (Literal.ofAddress n ++ []) = .ok (Int64.ofInt (n + 0)) := by
    intro n hn
    rw [List.append_nil, Int.add_zero, Int64.ofInt_eq_ofNat]
    exact Expression.evaluate_ofAddress (Nat.le_trans hn (by decide))
  obtain ⟨hok, hnear, hfar⟩ := settle_substitute_sum hbranch hname
    (hoperand.trans (List.append_nil _).symm) habsent List.not_mem_nil (by decide) hsum
  rw [sumFits_zero] at hnear hfar
  rw [Int.add_zero] at hnear
  refine ⟨hok, fun hclear => ?_, fun hset => hfar (by simp [hset])⟩
  refine branchesExactly_of_encoding ?_ ?_ <;> rw [haddress]
  · exact fun hreach => hnear ⟨hclear, hreach⟩
  · exact fun hreach => hfar fun h => hreach h.2

/-- A branch mnemonic is in the encoding table, so there is an instruction. -/
theorem create?_of_branch {source : SourceLine}
    (hbranch : EncodingTable.isRelative source.mnemonic = true) (address : UInt16)
    (table : SymbolTable) :
    create? source address table =
      some (table.byLength.foldl substituteKnown (start source address)).encodeOrDefer := by
  have hknown : ¬ (EncodingTable.lookup source.mnemonic).isNone = true := by
    intro hnone
    rw [EncodingTable.isRelative_eq_supports, EncodingTable.encodings,
      Option.isNone_iff_eq_none.mp hnone] at hbranch
    exact absurd hbranch (by decide)
  rw [create?, if_neg hknown]

/-- A branch whose operand is the name of a known symbol, of which nothing is taken for another name
once it is replaced, branches exactly. -/
theorem create?_branch_to_name {source : SourceLine} {address : UInt16} {table : SymbolTable}
    {s : Symbol} (hbranch : EncodingTable.isRelative source.mnemonic = true)
    (hoperand : source.operand = s.name) (hnamed : table.Named) (hs : s ∈ table.symbols)
    (hgone : ∀ t ∈ table.symbols, ¬ t.name <:+: s.literalAt source address) :
    ∃ i, create? source address table = some i ∧ SamePlace (start source address) i ∧
      i.BranchesExactly s.value := by
  have hname := hnamed.nonempty s hs
  have hliteral : ((start source address).substitute s).operand = s.literalAt source address := by
    rw [operand_substitute_start, Symbol.replacedIn, hoperand, Text.replaceAll_self hname]
  have hfold : table.byLength.foldl substituteKnown (start source address) =
      (start source address).substitute s := by
    apply foldl_substituteKnown_of_name hnamed hs hoperand
    rw [hliteral]
    intro t ht
    refine hgone t (SymbolTable.mem_byLength.mp ?_)
    exact (List.dropWhile_sublist _).mem (List.mem_of_mem_tail ht)
  obtain ⟨hok, hexact, _⟩ := settle_substitute_name (i := start source address) hbranch hname
    hoperand
  refine ⟨_, create?_of_branch hbranch address table, ?_, ?_⟩
  · rw [hfold, encodeOrDefer_eq_settle hok]
    exact (samePlace_substitute _ s).trans (samePlace_settle _)
  · rw [hfold, encodeOrDefer_eq_settle hok]
    exact hexact rfl

/-- A pending branch whose operand is the name of the longest match branches exactly in the end,
unless a target was out of reach when it was read. -/
theorem resolve_branch_to_name {i : Instruction} {table : SymbolTable} {s : Symbol}
    (hbranch : i.isRelative = true) (hp : i.isPending = true) (hname : s.name ≠ [])
    (hoperand : i.operand = s.name) (hmatch : table.longestMatch? i.operand = some s) :
    (i.resolve table).2 = none ∧
      (i.outOfReach = false → (i.resolve table).1.BranchesExactly s.value) ∧
      (i.outOfReach = true → (i.resolve table).1.Rejected) := by
  rw [resolve_of_pending table hp, substituteLongest, hmatch]
  exact settle_substitute_name hbranch hname hoperand

/-- A branch whose operand is the name of a symbol is encoded exactly when the symbol is in reach,
and then arrives at it. This holds of a known symbol if no name occurs in the literal that takes its
place, and of the longest match in the operand of a branch that was left pending as it stands on its
line, if no target was found out of reach when it was read; otherwise that branch is rejected. None
is found where no name known then occurs in the operand. -/
theorem branch_to_symbol_is_exact (source : SourceLine) (s : Symbol)
    (hbranch : EncodingTable.isRelative source.mnemonic = true)
    (hoperand : source.operand = s.name) (address : UInt16) (table : SymbolTable) :
    (table.Named → s ∈ table.symbols →
        (∀ t ∈ table.symbols, ¬ t.name <:+: s.literalAt source address) →
        ∃ i, create? source address table = some i ∧ SamePlace (start source address) i ∧
          i.BranchesExactly s.value) ∧
      ∀ (known : SymbolTable) (i : Instruction), create? source address known = some i →
        i.isPending = true → i.operand = source.operand →
        table.longestMatch? i.operand = some s →
        (i.resolve table).2 = none ∧
          SamePlace (start source address) (i.resolve table).1 ∧
          (i.outOfReach = false → (i.resolve table).1.BranchesExactly s.value) ∧
          (i.outOfReach = true → (i.resolve table).1.Rejected) ∧
          ((∀ t ∈ known.symbols, ¬ t.name <:+: source.operand) → i.outOfReach = false) := by
  refine ⟨create?_branch_to_name hbranch hoperand, ?_⟩
  intro known i hcreate hp hsame hmatch
  obtain ⟨hsource, haddress⟩ := samePlace_create? hcreate
  have hrelative : i.isRelative = true := by rwa [isRelative, hsource]
  have hname : s.name ≠ [] := by
    -- A pending instruction has an operand.
    obtain ⟨cause, herror⟩ := create?_pending hcreate hp
    have hvalue := hasValue_of_operandValue_error herror
    rw [hsame, hoperand] at hvalue
    intro hempty
    rw [hempty] at hvalue
    exact absurd hvalue (by simp [Encodings.hasValue])
  obtain ⟨hok, hexact, hrejected⟩ := resolve_branch_to_name hrelative hp hname
    (hsame.trans hoperand) hmatch
  have hplace : SamePlace (start source address) i := ⟨hsource, haddress⟩
  refine ⟨hok, hplace.trans (samePlace_resolve i table), hexact, hrejected, fun habsent => ?_⟩
  rw [create?_eq_start hcreate hp habsent]
  rfl

/-- A branch as far back as one can go, to a symbol whose name has another in it, is encoded whether
the symbol is defined before the branch or after it. -/
theorem branch_to_symbol_is_exact_farthest_back :
    let source : SourceLine := ⟨1, Text.ascii "        BNE  TARGET", [], Text.ascii "BNE",
      Text.ascii "TARGET"⟩
    let s : Symbol := ⟨Text.ascii "TARGET", 0x8082⟩
    let table : SymbolTable := ⟨[⟨Text.ascii "TAR", 5⟩, s]⟩
    let pending := start source 0x8100
    (∃ i, create? source 0x8100 table = some i ∧ SamePlace pending i ∧
        i.BranchesExactly s.value) ∧
      create? source 0x8100 .empty = some pending ∧
      (pending.resolve table).1.BranchesExactly s.value ∧
      (pending.resolve table).1.bytes = [0xD0, 0x80] := by
  intro source s table pending
  have hexact := branch_to_symbol_is_exact source s (by decide) rfl 0x8100 table
  have hnamed : table.Named := ⟨by decide, by decide⟩
  have hcreate : create? source 0x8100 .empty = some pending := by decide +kernel
  obtain ⟨_, _, hresolved, _⟩ := hexact.2 .empty pending hcreate rfl rfl (by decide +kernel)
  exact ⟨hexact.1 hnamed (List.mem_cons_of_mem _ List.mem_cons_self) (by decide +kernel), hcreate,
    hresolved rfl, by decide +kernel⟩

/-- A name that is the literal of its own displacement, out of reach, leaves the text of a pending
branch as it is, and the branch is rejected although its symbol follows it at once. -/
theorem unchanged_branch_rejected :
    let source : SourceLine := ⟨2, Text.ascii "        BNE  X$FF", [], Text.ascii "BNE",
      Text.ascii "X$FF"⟩
    let far : Symbol := ⟨Text.ascii "$FF", 0x8101⟩
    let near : Symbol := ⟨Text.ascii "X$FF", 0x8002⟩
    let pending : Instruction := ⟨source, 0x8000, source.operand, true, .pending⟩
    create? source 0x8000 ⟨[far]⟩ = some pending ∧
      (SymbolTable.mk [far, near]).longestMatch? source.operand = some near ∧
      ¬ far.name <:+: near.literalAt source 0x8000 ∧
      ¬ near.name <:+: near.literalAt source 0x8000 ∧
      displacement 0x8000 near.value = 0 ∧
      (pending.resolve ⟨[far, near]⟩).1.marker? = some .badBranch := by
  decide +kernel

end Instruction

end ColumnAssembler
