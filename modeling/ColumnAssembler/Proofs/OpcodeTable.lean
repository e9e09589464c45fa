import ColumnAssembler.EncodingTable

/-!
# The encoding table of a list of opcodes

A table is filled from a list of opcodes by one pass over the bytes. Whatever the list is, the
opcode of a mnemonic in a mode is the byte of the first official opcode with this name and mode, and
the branches are the mnemonics with the relative mode. That a branch has no other mode is not a fact
about the pass. It is a property of the list, which the list of the processor has.
-/

namespace ColumnAssembler

namespace Opcode

/-- Whether a byte of a list of opcodes is an official encoding of a mnemonic in a mode. -/
def encodes (mnemonic : Text) (mode : Mode) (slot : Option Opcode) : Bool :=
  slot.any fun op => !op.unofficial && op.name.upper == mnemonic && op.mode == mode

/-- The official opcodes of a list. -/
def official (opcodes : List (Option Opcode)) : List Opcode :=
  (opcodes.filterMap id).filter fun op => !op.unofficial

/-- A mnemonic that is official in the relative mode is official in no other. -/
def RelativeAlone (opcodes : List (Option Opcode)) : Prop :=
  ∀ branch ∈ official opcodes, branch.mode = .relative →
    ∀ op ∈ official opcodes, op.name.upper = branch.name.upper → op.mode = .relative

/-- Some byte encodes a mnemonic in a mode exactly when an official opcode has this name and
mode. -/
theorem any_encodes_iff {opcodes : List (Option Opcode)} {mnemonic : Text} {mode : Mode} :
    opcodes.any (encodes mnemonic mode) = true ↔
      ∃ op ∈ official opcodes, op.name.upper = mnemonic ∧ op.mode = mode := by
  simp only [List.any_eq_true, official, encodes, Option.any_eq_true, Bool.and_eq_true,
    beq_iff_eq, List.mem_filter, List.mem_filterMap, id]
  constructor
  · rintro ⟨slot, hslot, op, hop, ⟨hofficial, hname⟩, hmode⟩
    exact ⟨op, ⟨⟨slot, hslot, hop⟩, hofficial⟩, hname, hmode⟩
  · rintro ⟨op, ⟨⟨slot, hslot, hop⟩, hofficial⟩, hname, hmode⟩
    exact ⟨slot, hslot, op, hop, ⟨hofficial, hname⟩, hmode⟩

end Opcode

namespace EncodingTable

/-! ### One opcode -/

theorem lookup_cons_of_ne {α β : Type} [BEq α] [LawfulBEq α] {key other : α} (h : other ≠ key)
    (value : β) (rest : List (α × β)) :
    ((key, value) :: rest).lookup other = rest.lookup other := by
  rw [List.lookup_cons, beq_eq_false_iff_ne.mpr h]

/-- An opcode is added at the end of the modes of its mnemonic. The other mnemonics keep theirs. -/
theorem getD_lookup_addCode (mnemonic other : Text) (code : Mode × UInt8)
    (entries : List (Text × Encodings)) :
    ((addCode mnemonic code entries).lookup other).getD [] =
      if other = mnemonic then (entries.lookup other).getD [] ++ [code]
      else (entries.lookup other).getD [] := by
  induction entries with
  | nil =>
    rw [addCode, List.lookup_nil]
    by_cases h : other = mnemonic
    · rw [if_pos h, h, List.lookup_cons_self]
      rfl
    · rw [if_neg h, lookup_cons_of_ne h, List.lookup_nil]
  | cons entry rest ih =>
    obtain ⟨name, codes⟩ := entry
    rw [addCode]
    by_cases hname : mnemonic = name
    · subst hname
      rw [if_pos (beq_self_eq_true _)]
      dsimp only
      by_cases h : other = mnemonic
      · rw [if_pos h, h, List.lookup_cons_self, List.lookup_cons_self]
        rfl
      · rw [if_neg h, lookup_cons_of_ne h, lookup_cons_of_ne h]
    · rw [if_neg (fun hsame => hname (beq_iff_eq.mp hsame))]
      by_cases h : other = name
      · have hother : other ≠ mnemonic := fun hsame => hname (hsame.symm.trans h)
        rw [if_neg hother, h, List.lookup_cons_self, List.lookup_cons_self]
      · rw [lookup_cons_of_ne h, lookup_cons_of_ne h, ih]

/-- An opcode is entered for its mnemonic and mode only, and only if there is none yet. -/
theorem opcode?_add (t : EncodingTable) (mnemonic other : Text) (mode otherMode : Mode)
    (opcode : UInt8) :
    ((t.add mnemonic mode opcode).modesOf other).opcode? otherMode =
      ((t.modesOf other).opcode? otherMode).or
        (if other = mnemonic ∧ otherMode = mode then some opcode else none) := by
  by_cases hsupports : (t.modesOf mnemonic).supports mode = true
  · rw [add, if_pos hsupports]
    split
    · next hsame =>
      obtain ⟨old, hold⟩ := Option.isSome_iff_exists.mp hsupports
      rw [hsame.1, hsame.2, hold, Option.some_or]
    · rw [Option.or_none]
  · rw [add, if_neg hsupports, modesOf, getD_lookup_addCode]
    by_cases hother : other = mnemonic
    · rw [if_pos hother, Encodings.opcode?, List.lookup_append, Encodings.opcode?]
      congr 1
      by_cases hmode : otherMode = mode
      · rw [if_pos ⟨hother, hmode⟩, hmode, List.lookup_cons_self]
      · rw [if_neg fun h => hmode h.2, lookup_cons_of_ne hmode, List.lookup_nil]
    · rw [if_neg hother, if_neg fun h => hother h.1, Option.or_none]
      rfl

/-- The branches of a table are the mnemonics with the relative mode. -/
def Consistent (t : EncodingTable) : Prop :=
  ∀ mnemonic, mnemonic ∈ t.relative ↔ (t.modesOf mnemonic).supports .relative = true

theorem Consistent.add {t : EncodingTable} (h : t.Consistent) (mnemonic : Text) (mode : Mode)
    (opcode : UInt8) : (t.add mnemonic mode opcode).Consistent := by
  intro other
  have hold := h other
  rw [Encodings.supports] at hold ⊢
  rw [opcode?_add, Option.isSome_or, Bool.or_eq_true, Option.isSome_ite, ← hold]
  by_cases hsupports : (t.modesOf mnemonic).supports mode = true
  · rw [EncodingTable.add, if_pos hsupports]
    refine ⟨Or.inl, ?_⟩
    rintro (hmem | ⟨hname, hmode⟩)
    · exact hmem
    · -- The mode was there, so the mnemonic was a branch before.
      rw [hname]
      exact (h mnemonic).mpr (hmode ▸ hsupports)
  · rw [EncodingTable.add, if_neg hsupports]
    by_cases hmode : mode = .relative
    · simp [hmode, List.mem_insert_iff, or_comm]
    · simp [hmode, Ne.symm hmode]

/-! ### One byte -/

/-- A byte is entered exactly where it encodes a mnemonic in a mode that has no opcode yet. -/
theorem opcode?_enter (t : EncodingTable) (slot : Option Opcode) (byte : Nat) (mnemonic : Text)
    (mode : Mode) :
    ((t.enter (slot, byte)).modesOf mnemonic).opcode? mode =
      ((t.modesOf mnemonic).opcode? mode).or
        (if Opcode.encodes mnemonic mode slot then some (UInt8.ofNat byte) else none) := by
  cases slot with
  | none => simp [enter, Opcode.encodes]
  | some op =>
    cases hofficial : op.unofficial with
    | true => simp [enter, Opcode.encodes, hofficial]
    | false =>
      simp only [enter, hofficial, Bool.false_eq_true, if_false, opcode?_add, Opcode.encodes,
        Option.any_some, Bool.not_false, Bool.true_and, Bool.and_eq_true, beq_iff_eq,
        eq_comm (a := mnemonic), eq_comm (a := mode)]

theorem Consistent.enter {t : EncodingTable} (h : t.Consistent) (slot : Option Opcode × Nat) :
    (t.enter slot).Consistent := by
  obtain ⟨slot, byte⟩ := slot
  cases slot with
  | none => exact h
  | some op =>
    simp only [EncodingTable.enter]
    split
    · exact h
    · exact h.add _ _ _

/-! ### The whole list -/

/-- From any table on, a mnemonic keeps the opcode it has in a mode, or is given the first byte that
encodes it. -/
theorem opcode?_foldl_enter (opcodes : List (Option Opcode)) (mnemonic : Text) (mode : Mode)
    (t : EncodingTable) (start : Nat) :
    (((opcodes.zipIdx start).foldl enter t).modesOf mnemonic).opcode? mode =
      ((t.modesOf mnemonic).opcode? mode).or
        ((opcodes.findIdx? (Opcode.encodes mnemonic mode)).map
          fun k => UInt8.ofNat (start + k)) := by
  induction opcodes generalizing t start with
  | nil => simp
  | cons slot rest ih =>
    rw [List.zipIdx_cons, List.foldl_cons, ih, opcode?_enter, Option.or_assoc, List.findIdx?_cons]
    congr 1
    cases Opcode.encodes mnemonic mode slot with
    | true => simp
    | false =>
      simp only [Bool.false_eq_true, if_false, Option.none_or, Option.map_map]
      congr 1
      funext k
      simp only [Function.comp_apply, Nat.add_assoc, Nat.add_comm 1]

/-- The opcode of a mnemonic in a mode is the byte of the first official opcode with this name and
mode. -/
theorem opcode?_ofOpcodes (opcodes : List (Option Opcode)) (mnemonic : Text) (mode : Mode) :
    ((ofOpcodes opcodes).modesOf mnemonic).opcode? mode =
      (opcodes.findIdx? (Opcode.encodes mnemonic mode)).map UInt8.ofNat := by
  have h := opcode?_foldl_enter opcodes mnemonic mode empty 0
  simpa [empty, modesOf, Encodings.opcode?, ofOpcodes] using h

/-- A mnemonic has a mode exactly when an official opcode has this name and mode. -/
theorem supports_ofOpcodes_iff {opcodes : List (Option Opcode)} {mnemonic : Text} {mode : Mode} :
    ((ofOpcodes opcodes).modesOf mnemonic).supports mode = true ↔
      ∃ op ∈ Opcode.official opcodes, op.name.upper = mnemonic ∧ op.mode = mode := by
  rw [Encodings.supports, opcode?_ofOpcodes, Option.isSome_map, List.findIdx?_isSome,
    Opcode.any_encodes_iff]

/-- The branches of the table are the mnemonics with the relative mode, whatever the opcodes are. -/
theorem consistent_ofOpcodes (opcodes : List (Option Opcode)) : (ofOpcodes opcodes).Consistent := by
  have hrun : ∀ (slots : List (Option Opcode × Nat)) (t : EncodingTable), t.Consistent →
      (slots.foldl enter t).Consistent := by
    intro slots
    induction slots with
    | nil => exact fun t h => h
    | cons slot rest ih => exact fun t h => ih _ (h.enter slot)
  refine hrun _ _ fun mnemonic => ?_
  simp [empty, modesOf, Encodings.supports, Encodings.opcode?]

/-- Where the opcodes leave a branch no other mode, so does the table. -/
theorem eq_relative_of_relativeAlone {opcodes : List (Option Opcode)}
    (h : Opcode.RelativeAlone opcodes) {mnemonic : Text} {mode : Mode}
    (hrelative : ((ofOpcodes opcodes).modesOf mnemonic).supports .relative = true)
    (hmode : ((ofOpcodes opcodes).modesOf mnemonic).supports mode = true) : mode = .relative := by
  obtain ⟨branch, hbranch, hname, hbranchMode⟩ := supports_ofOpcodes_iff.mp hrelative
  obtain ⟨op, hop, hopName, rfl⟩ := supports_ofOpcodes_iff.mp hmode
  exact h branch hbranch hbranchMode op hop (hopName.trans hname.symm)

/-! ### The processor -/

/-- The written-out table is the one that the opcodes of the processor give. -/
theorem ofOpcodes_all : ofOpcodes Opcode.all = ⟨entries, branches⟩ := by
  decide +kernel

/-- The branches of the processor have no other mode. -/
theorem relativeAlone_all : Opcode.RelativeAlone Opcode.all := by
  unfold Opcode.RelativeAlone
  decide +kernel

theorem encodings_eq (mnemonic : Text) :
    encodings mnemonic = (ofOpcodes Opcode.all).modesOf mnemonic := by
  rw [ofOpcodes_all]
  rfl

/-- A mnemonic is a branch exactly when it has the relative mode. -/
theorem isRelative_eq_supports (mnemonic : Text) :
    isRelative mnemonic = (encodings mnemonic).supports .relative := by
  have h := consistent_ofOpcodes Opcode.all mnemonic
  rw [← encodings_eq, ofOpcodes_all] at h
  rw [Bool.eq_iff_iff, ← h, isRelative, List.contains_iff_mem]

/-- A mnemonic with the relative mode has no other. -/
theorem eq_relative_of_supports {mnemonic : Text} {modes : Encodings}
    (hlookup : lookup mnemonic = some modes) (hrelative : modes.supports .relative = true)
    {mode : Mode} (hmode : modes.supports mode = true) : mode = .relative := by
  have hmodes : modes = (ofOpcodes Opcode.all).modesOf mnemonic := by
    rw [← encodings_eq, encodings, hlookup, Option.getD_some]
  rw [hmodes] at hrelative hmode
  exact eq_relative_of_relativeAlone relativeAlone_all hrelative hmode

end EncodingTable

end ColumnAssembler
