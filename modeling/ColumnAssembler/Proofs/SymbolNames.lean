import ColumnAssembler.Proofs.FirstPass
import Mathlib.Data.List.Nodup

/-!
# Names of symbols

All through the first pass the names of the table are different from each other and not empty, so a
name stands for one symbol. Both ways in which an operand is searched for names prefer longer ones:
the view by length lists no name before a longer one, and the longest match is a name in the text
that no other name in it exceeds. The text of a name is matched by its own symbol.
-/

namespace ColumnAssembler

namespace SymbolTable

/-- A table in which every name stands for one symbol and can be seen in a text. -/
structure Named (table : SymbolTable) : Prop where
  /-- No two symbols have the same name. -/
  distinct : (table.symbols.map Symbol.name).Nodup
  /-- No name is empty. -/
  nonempty : ∀ s ∈ table.symbols, s.name ≠ []

/-- A name is defined when some symbol has it. -/
theorem has_iff {table : SymbolTable} {name : Text} :
    table.has name = true ↔ name ∈ table.symbols.map Symbol.name := by
  rw [has, get?, List.find?_isSome, List.mem_map]
  simp only [beq_iff_eq]

/-- A definition adds its symbol behind all others, under a name that none of them has. -/
theorem define?_eq_some {table next : SymbolTable} {name : Text} {value : UInt16}
    (h : table.define? name value = some next) :
    next.symbols = table.symbols ++ [⟨name, value⟩] ∧ name ∉ table.symbols.map Symbol.name := by
  unfold define? at h
  split at h
  · simp at h
  · next hfree =>
    exact ⟨by rw [← Option.some.inj h], fun hmem => hfree (has_iff.mpr hmem)⟩

/-- A table with one more symbol is as well named. -/
theorem Named.growsBy {name : Text} {table next : SymbolTable} (htable : Named table)
    (h : GrowsBy name table next) : Named next := by
  rcases h with rfl | ⟨hname, value, hdefine⟩
  · exact htable
  · obtain ⟨hsymbols, hfree⟩ := define?_eq_some hdefine
    constructor
    · rw [hsymbols, List.map_append]
      refine List.nodup_append.mpr ⟨htable.distinct, List.nodup_singleton _, ?_⟩
      intro a ha b hb hab
      rw [List.map_singleton, List.mem_singleton] at hb
      rw [hab, hb] at ha
      exact hfree ha
    · intro s hs
      rw [hsymbols, List.mem_append, List.mem_singleton] at hs
      rcases hs with hs | rfl
      · exact htable.nonempty s hs
      · exact hname

/-- Symbols with the same name are the same. -/
theorem Named.eq_of_name_eq {table : SymbolTable} (h : Named table) {s t : Symbol}
    (hs : s ∈ table.symbols) (ht : t ∈ table.symbols) (hname : s.name = t.name) : s = t :=
  List.inj_on_of_nodup_map h.distinct hs ht hname

/-- If no two names are the same, every symbol is found by its name. -/
theorem get?_name_of_nodup {table : SymbolTable} (h : (table.symbols.map Symbol.name).Nodup)
    {s : Symbol} (hs : s ∈ table.symbols) : table.get? s.name = some s := by
  have hfound : table.has s.name = true := has_iff.mpr (List.mem_map_of_mem hs)
  obtain ⟨other, hother⟩ := Option.isSome_iff_exists.mp hfound
  have hname : other.name = s.name := by
    simpa using List.find?_some hother
  rw [hother, List.inj_on_of_nodup_map h (List.mem_of_find?_eq_some hother) hs hname]

/-- Every symbol is found by its name. -/
theorem Named.get?_name {table : SymbolTable} (h : Named table) {s : Symbol}
    (hs : s ∈ table.symbols) : table.get? s.name = some s :=
  get?_name_of_nodup h.distinct hs

/-- The view by length has the symbols of the table. -/
theorem mem_byLength {table : SymbolTable} {s : Symbol} :
    s ∈ table.byLength ↔ s ∈ table.symbols :=
  (StableSort.sort_perm _ table.symbols).mem_iff

/-- Of three names, one that is no shorter than the next is no shorter than the last. -/
theorem notShorter_trans (a b c : Symbol) (hab : decide (b.name.length ≤ a.name.length) = true)
    (hbc : decide (c.name.length ≤ b.name.length) = true) :
    decide (c.name.length ≤ a.name.length) = true := by
  rw [decide_eq_true_eq] at hab hbc ⊢
  exact Nat.le_trans hbc hab

/-- Of two names one is no shorter than the other. -/
theorem notShorter_total (a b : Symbol) : (decide (b.name.length ≤ a.name.length) ||
    decide (a.name.length ≤ b.name.length)) = true := by
  rw [Bool.or_eq_true, decide_eq_true_eq, decide_eq_true_eq]
  exact Nat.le_total _ _

/-- The view by length lists no name before a longer one. -/
theorem pairwise_byLength (table : SymbolTable) :
    table.byLength.Pairwise fun s t => t.name.length ≤ s.name.length := by
  have hsorted := List.pairwise_mergeSort notShorter_trans notShorter_total table.symbols
  rw [byLength, StableSort.sort_eq_mergeSort]
  exact hsorted.imp fun h => of_decide_eq_true h

/-- The best match among the symbols seen so far. -/
structure BestMatch (t : Text) (seen : List Symbol) (best : Option Symbol) : Prop where
  /-- It is one of them and occurs in the text. -/
  found : ∀ s, best = some s → s ∈ seen ∧ s.name <:+: t
  /-- No name that occurs in the text is longer. -/
  longest : ∀ s ∈ seen, s.name <:+: t → s.name.length ≤ matchLength best

/-- Looking at one more symbol keeps the best match. -/
theorem BestMatch.step {t : Text} {seen : List Symbol} {best : Option Symbol}
    (h : BestMatch t seen best) (s : Symbol) :
    BestMatch t (seen ++ [s]) (betterMatch t best s) := by
  by_cases hbetter : matchLength best < s.name.length ∧ s.name <:+: t
  · have htake : betterMatch t best s = some s := by
      rw [betterMatch, if_pos]
      rw [Bool.and_eq_true, decide_eq_true_eq, Text.occursIn_iff]
      exact hbetter
    rw [htake]
    constructor
    · intro u hu
      rw [← Option.some.inj hu]
      exact ⟨List.mem_append_right _ List.mem_cons_self, hbetter.2⟩
    · intro u hu hoccurs
      rw [matchLength]
      rcases List.mem_append.mp hu with hseen | hlast
      · have hle := h.longest u hseen hoccurs
        omega
      · exact (List.mem_singleton.mp hlast) ▸ Nat.le_refl _
  · have hkeep : betterMatch t best s = best := by
      rw [betterMatch, if_neg]
      rw [Bool.and_eq_true, decide_eq_true_eq, Text.occursIn_iff]
      exact hbetter
    rw [hkeep]
    constructor
    · intro u hu
      obtain ⟨hseen, hoccurs⟩ := h.found u hu
      exact ⟨List.mem_append_left _ hseen, hoccurs⟩
    · intro u hu hoccurs
      rcases List.mem_append.mp hu with hseen | hlast
      · exact h.longest u hseen hoccurs
      · rw [List.mem_singleton.mp hlast] at hoccurs ⊢
        exact Nat.le_of_not_lt fun hlonger => hbetter ⟨hlonger, hoccurs⟩

/-- Looking at more symbols keeps the best match. -/
theorem BestMatch.foldl {t : Text} {seen : List Symbol} {best : Option Symbol}
    (h : BestMatch t seen best) (rest : List Symbol) :
    BestMatch t (seen ++ rest) (rest.foldl (betterMatch t) best) := by
  induction rest generalizing seen best with
  | nil => rwa [List.append_nil]
  | cons s rest ih =>
    have hnext := ih (h.step s)
    rwa [List.append_assoc] at hnext

/-- The longest match is the best one among all symbols. -/
theorem bestMatch_longestMatch? (table : SymbolTable) (t : Text) :
    BestMatch t table.symbols (table.longestMatch? t) := by
  have hnone : BestMatch t [] none := ⟨fun s hs => by simp at hs, fun s hs => by simp at hs⟩
  exact hnone.foldl table.symbols

/-- The text of a name is matched by the symbol of that name. -/
theorem Named.longestMatch?_name {table : SymbolTable} (h : Named table) {s : Symbol}
    (hs : s ∈ table.symbols) : table.longestMatch? s.name = some s := by
  have hbest := bestMatch_longestMatch? table s.name
  have hlong := hbest.longest s hs (List.infix_refl s.name)
  have hpos := List.length_pos_iff.mpr (h.nonempty s hs)
  cases hfound : table.longestMatch? s.name with
  | none =>
    rw [hfound, matchLength] at hlong
    omega
  | some u =>
    obtain ⟨hu, hoccurs⟩ := hbest.found u hfound
    rw [hfound, matchLength] at hlong
    -- A part of the name that is no shorter is the whole name.
    have hname : u.name = s.name := hoccurs.eq_of_length_le hlong
    rw [h.eq_of_name_eq hu hs hname]

end SymbolTable

namespace Assembly

variable {origin : UInt16} {cancelAt : Option Nat} {lines : List Text}

/-- The table is well named all through the first pass. -/
theorem named_stateAfter (count : Nat) :
    (stateAfter origin cancelAt lines count).program.symbols.Named :=
  stateAfter_invariant (P := fun s => s.program.symbols.Named)
    ⟨List.nodup_nil, fun _ hs => absurd hs List.not_mem_nil⟩
    (fun hs hstep => hs.growsBy hstep.symbols) count

end Assembly

end ColumnAssembler
