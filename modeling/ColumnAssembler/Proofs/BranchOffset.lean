import ColumnAssembler.Proofs.AddressSum
import ColumnAssembler.Proofs.BranchTarget

/-!
# Branches to a symbol with an offset

In the operand of a branch a symbol stands for its displacement as a byte, and an offset behind it
is added to that byte. Only the symbol is tested for reach; of the sum no more is asked than that it
is a byte again. The main statement says when this is right. A sum that leaves the signed byte on
the side of its own sign passes the test: such a branch carries no marker and leads 256 bytes away
from its target. In all other cases the branch arrives at its target or is rejected.
-/

namespace ColumnAssembler

namespace Instruction

/-- A branch is never silently wrong about a target: if it is encoded it arrives there, and if the
target is out of reach it is rejected. -/
structure KeepsTo (i : Instruction) (target : Int) : Prop where
  /-- The operand byte it is encoded with leads to the target. -/
  arrives : ∀ b, i.Branches b → destination i.address b = target
  /-- It is rejected when the target is out of reach. -/
  rejected : ¬ (-128 ≤ target - (i.address.toNat + 2) ∧ target - (i.address.toNat + 2) ≤ 127) →
    i.Rejected

/-- The sum of a displacement and an offset can be formed, but is out of reach. -/
structure SumWraps (d offset : Int) : Prop where
  /-- The sum is taken for a byte. -/
  fits : SumFits d offset
  /-- It is no signed byte. -/
  far : ¬ (-128 ≤ d + offset ∧ d + offset ≤ 127)

/-- A byte made of a sum stands for the sum, or for the integer 256 below or above it. -/
theorem toInt_toInt8_sum {d offset : Int} (h : SumFits d offset) :
    (UInt8.ofInt (d + offset)).toInt8.toInt =
      if 127 < d + offset then d + offset - 256
      else if d + offset < -128 then d + offset + 256 else d + offset := by
  unfold SumFits at h
  split
  · have hbyte : UInt8.ofInt (d + offset) = UInt8.ofInt (d + offset - 256) := by
      apply ofInt_congr
      omega
    rw [hbyte]
    apply toInt_toInt8_ofInt <;> omega
  · split
    · have hbyte : UInt8.ofInt (d + offset) = UInt8.ofInt (d + offset + 256) := by
        apply ofInt_congr
        omega
      rw [hbyte]
      apply toInt_toInt8_ofInt <;> omega
    · apply toInt_toInt8_ofInt <;> omega

/-- A branch that is encoded with the sum of the displacement of a target and an offset arrives 256
bytes away from the target with the offset if the sum is out of reach, and there if it is not. -/
theorem destination_sum {address target : UInt16} {offset : Int}
    (h : SumFits (displacement address target) offset) :
    (SumWraps (displacement address target) offset →
      (destination address (UInt8.ofInt (displacement address target + offset)) -
        (target.toNat + offset)).natAbs = 256) ∧
    (¬ SumWraps (displacement address target) offset →
      destination address (UInt8.ofInt (displacement address target + offset)) =
        target.toNat + offset) := by
  rw [destination, toInt_toInt8_sum h]
  refine ⟨fun hwraps => ?_, fun hkept => ?_⟩
  · have hfar := hwraps.far
    unfold displacement at hfar ⊢
    split
    · omega
    · split <;> omega
  · have hnear : -128 ≤ displacement address target + offset ∧
        displacement address target + offset ≤ 127 :=
      Decidable.of_not_not fun hfar => hkept ⟨h, hfar⟩
    unfold displacement at hnear ⊢
    rw [if_neg (by omega), if_neg (by omega)]
    omega

/-- A branch that is encoded with the sum if it can be formed, and rejected otherwise, is silently
wrong exactly when the sum wraps around. -/
theorem keepsTo_iff {i : Instruction} {address target : UInt16} {offset : Int}
    (haddress : i.address = address)
    (hnear : SumFits (displacement address target) offset →
      i.Branches (UInt8.ofInt (displacement address target + offset)))
    (hfar : ¬ SumFits (displacement address target) offset → i.Rejected) :
    i.KeepsTo (target.toNat + offset) ↔ ¬ SumWraps (displacement address target) offset := by
  subst haddress
  constructor
  · intro hkeeps hwraps
    have hmissed := (destination_sum hwraps.fits).1 hwraps
    rw [hkeeps.arrives _ (hnear hwraps.fits)] at hmissed
    omega
  · intro hnot
    refine ⟨fun b hb => ?_, fun hout => hfar fun hfits => hnot ⟨hfits, ?_⟩⟩
    · by_cases hfits : SumFits (displacement i.address target) offset
      · rw [hb.unique (hnear hfits)]
        exact (destination_sum hfits).2 hnot
      · exact absurd hb ((hfar hfits).not_branches b)
    · unfold displacement
      omega

/-- The offset of a sum with a literal has at most 32 bits. -/
theorem signed_bounds {t : Text} {value : Int64} (h : Literal.parse t = .ok value)
    (op : Operator) :
    -Literal.maxValue ≤ op.signed value.toInt ∧ op.signed value.toInt ≤ Literal.maxValue := by
  have hbounds := Literal.toInt_of_parse h
  unfold Operator.signed
  split <;> omega

/-- Creating a branch with one name in its operand settles it with the name replaced, if it can be
settled then. -/
theorem create?_branch_of_sole {source : SourceLine} {address : UInt16} {table : SymbolTable}
    {s : Symbol} (hbranch : EncodingTable.isRelative source.mnemonic = true)
    (hsole : table.Sole source address s)
    (hok : ((start source address).substitute s).settle.2 = none) :
    create? source address table = some ((start source address).substitute s).settle.1 := by
  have hfold : table.byLength.foldl substituteKnown (start source address) =
      (start source address).substitute s := by
    refine foldl_substituteKnown_of_sole (SymbolTable.mem_byLength.mpr hsole.defined) hsole.occurs
      (fun t ht => hsole.only t (SymbolTable.mem_byLength.mp ht)) fun t ht => ?_
    rw [operand_substitute_start]
    exact hsole.gone t (SymbolTable.mem_byLength.mp ht)
  rw [create?_of_branch hbranch, hfold, encodeOrDefer_eq_settle hok]

/-- A branch to a symbol with an offset added or taken away is encoded with the sum if the symbol is
in reach and the sum has the sign of its displacement and eight bits, and rejected otherwise. So it
keeps to its target unless the sum is one of these and no signed byte, and then it misses the target
by 256 bytes without a marker. -/
theorem branch_offset_wraps (source : SourceLine) (address : UInt16) (table : SymbolTable)
    (s : Symbol) (op : Operator) (t : Text) (value : Int64)
    (hbranch : EncodingTable.isRelative source.mnemonic = true)
    (hop : op = .add ∨ op = .subtract) (hoperand : source.operand = s.name ++ op.byte :: t)
    (hparse : Literal.parse t = .ok value) (hone : Chain.split t = ⟨t, []⟩)
    (hcomma : Byte.comma ∉ t) (habsent : ¬ s.name <:+: op.byte :: t)
    (hsole : table.Sole source address s) :
    let d := displacement address s.value
    let offset := op.signed value.toInt
    ∃ i, create? source address table = some i ∧ SamePlace (start source address) i ∧
      (SumFits d offset → i.Branches (UInt8.ofInt (d + offset))) ∧
      (¬ SumFits d offset → i.Rejected) ∧
      (i.KeepsTo (s.value.toNat + offset) ↔ ¬ SumWraps d offset) ∧
      (SumWraps d offset → ∃ b, i.Branches b ∧
        (destination address b - (s.value.toNat + offset)).natAbs = 256) := by
  intro d offset
  have hbehind : Byte.comma ∉ op.byte :: t := by
    have hoperator : Byte.comma ≠ op.byte := by cases op <;> decide
    exact List.not_mem_cons_of_ne_of_not_mem hoperator hcomma
  obtain ⟨hok, hnear, hfar⟩ := settle_substitute_sum (i := start source address) hbranch
    hsole.named hoperand habsent hbehind (signed_bounds hparse op) fun n hn =>
      Expression.evaluate_sum (Nat.le_trans hn (by decide)) hop hparse hone hcomma
  have hplace : SamePlace (start source address) ((start source address).substitute s).settle.1 :=
    (samePlace_substitute _ s).trans (samePlace_settle _)
  have hencoded : SumFits d offset → ((start source address).substitute s).settle.1.Branches
      (UInt8.ofInt (d + offset)) := fun hfits => hnear ⟨rfl, hfits⟩
  have hrejected : ¬ SumFits d offset → ((start source address).substitute s).settle.1.Rejected :=
    fun hnot => hfar fun h => hnot h.2
  refine ⟨_, create?_branch_of_sole hbranch hsole hok, hplace, hencoded, hrejected,
    keepsTo_iff hplace.address hencoded hrejected, fun hwraps => ?_⟩
  exact ⟨_, hencoded hwraps.fits, (destination_sum hwraps.fits).1 hwraps⟩

/-- A symbol one byte short of the farthest target, and one byte added: the branch arrives. -/
theorem branch_offset_wraps_farthest :
    let source : SourceLine := ⟨1, Text.ascii "        BNE  TARGET+1", [], Text.ascii "BNE",
      Text.ascii "TARGET+1"⟩
    let s : Symbol := ⟨Text.ascii "TARGET", 0x8080⟩
    let table : SymbolTable := ⟨[s]⟩
    table.Sole source 0x8000 s ∧
      ∃ i, create? source 0x8000 table = some i ∧ i.Branches 0x7F ∧ i.KeepsTo 0x8081 := by
  intro source s table
  have hsole : table.Sole source 0x8000 s :=
    ⟨List.mem_cons_self, by decide, by decide, fun t ht _ => List.mem_singleton.mp ht,
      by decide +kernel⟩
  obtain ⟨i, hcreate, _, hencoded, _, hkeeps, _⟩ := branch_offset_wraps source 0x8000 table s .add
    (Text.ascii "1") 1 (by decide) (.inl rfl) rfl (by decide +kernel) (by decide) (by decide)
    (by decide) hsole
  have hbyte : UInt8.ofInt (displacement 0x8000 s.value + Operator.add.signed (1 : Int64).toInt) =
      0x7F := by decide +kernel
  rw [hbyte] at hencoded
  refine ⟨hsole, i, hcreate, hencoded (.inl (by decide +kernel)), hkeeps.mpr fun hwraps => ?_⟩
  exact hwraps.far (by decide +kernel)

/-- The symbol is the farthest target that can be reached, and a byte is added: the branch carries
no marker and leads back instead of forward. -/
theorem branch_offset_astray :
    let source : SourceLine := ⟨1, Text.ascii "        BNE  TARGET+1", [], Text.ascii "BNE",
      Text.ascii "TARGET+1"⟩
    let i : Instruction := ⟨source, 0x8000, Text.ascii "$7F+1", false,
      .complete .relative 0xD0 [0x80]⟩
    create? source 0x8000 ⟨[⟨Text.ascii "TARGET", 0x8081⟩]⟩ = some i ∧ i.Branches 0x80 ∧
      destination 0x8000 0x80 = 0x7F82 ∧ ¬ i.KeepsTo (0x8081 + 1) := by
  intro source i
  have hbranches : i.Branches 0x80 := ⟨rfl, 0xD0, by decide, rfl⟩
  have hdestination : destination 0x8000 0x80 = 0x7F82 := by decide
  refine ⟨by decide +kernel, hbranches, hdestination, fun hkeeps => ?_⟩
  have harrives : destination 0x8000 0x80 = 0x8081 + 1 := hkeeps.arrives 0x80 hbranches
  rw [hdestination] at harrives
  exact absurd harrives (by decide)

end Instruction

end ColumnAssembler
