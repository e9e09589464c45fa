import ColumnAssembler.Proofs.FirstDefinition
import Mathlib.Data.Finset.Card

/-!
# Definitions and views of symbols

What a sequence of definitions leaves in a table, and how the views list it. The table holds the
first definition of every name in the order in which the names came up. The views by length and by
value are stable: symbols that the order leaves open stay as they were defined. The view by name
leaves nothing open. Longest first, the first name in the view that occurs in a text is the one that
a single walk through the table finds, ties included, so both ways of searching mean one symbol.
-/

namespace ColumnAssembler

namespace StableSort

/-- A list in the order of a key, in which items of one key stand as they do in another list. -/
structure Sorted {α κ : Type} [DecidableEq κ] (key : α → κ) (mayPrecede : κ → κ → Prop)
    (xs sorted : List α) : Prop where
  /-- The items are the same, each as often. -/
  perm : sorted.Perm xs
  /-- Every item may precede the ones behind it. -/
  ordered : sorted.Pairwise fun a b => mayPrecede (key a) (key b)
  /-- Items of one key keep their order. -/
  ties : ∀ k, (sorted.filter fun a => key a = k) = xs.filter fun a => key a = k

section

variable {α : Type} {mayPrecede : α → α → Bool}
  (htrans : ∀ a b c, mayPrecede a b = true → mayPrecede b c = true → mayPrecede a c = true)
  (htotal : ∀ a b, (mayPrecede a b || mayPrecede b a) = true)

include htrans htotal

/-- In a sorted list every item may precede the ones behind it. -/
theorem pairwise_sort (xs : List α) :
    (sort mayPrecede xs).Pairwise fun a b => mayPrecede a b = true := by
  rw [sort_eq_mergeSort]
  exact List.pairwise_mergeSort htrans htotal xs

/-- Items that may all precede each other keep their order. -/
theorem filter_sort {xs : List α} {p : α → Bool}
    (hp : ∀ a ∈ xs, ∀ b ∈ xs, p a = true → p b = true → mayPrecede a b = true) :
    (sort mayPrecede xs).filter p = xs.filter p := by
  have hties : (xs.filter p).Pairwise fun a b => mayPrecede a b = true := by
    refine List.pairwise_of_forall_mem_list fun a ha b hb => ?_
    rw [List.mem_filter] at ha hb
    exact hp a ha.1 b hb.1 ha.2 hb.2
  have hkept : (xs.filter p).Sublist (sort mayPrecede xs) := by
    rw [sort_eq_mergeSort]
    exact List.sublist_mergeSort htrans htotal hties List.filter_sublist
  have hagain : (xs.filter p).filter p = xs.filter p := by
    rw [List.filter_eq_self]
    exact fun a ha => (List.mem_filter.mp ha).2
  have hparts : (xs.filter p).Sublist ((sort mayPrecede xs).filter p) := hagain ▸ hkept.filter p
  exact (hparts.eq_of_length ((sort_perm mayPrecede xs).filter p).length_eq.symm).symm

/-- The first item of a kind in a sorted list, when it may precede all of its kind and comes first
among those of its kind that may precede it. -/
theorem find?_sort {xs : List α} {p : α → Bool} {first : α}
    (hleast : ∀ a ∈ xs, p a = true → mayPrecede first a = true)
    (hfirst : (xs.find? fun a => p a && mayPrecede a first) = some first) :
    (sort mayPrecede xs).find? p = some first := by
  have hkind : p first = true := by
    have hboth := List.find?_some hfirst
    exact (Bool.and_eq_true_iff.mp hboth).1
  have hsorted : first ∈ sort mayPrecede xs :=
    (sort_perm mayPrecede xs).mem_iff.mpr (List.mem_of_find?_eq_some hfirst)
  -- The items that may precede the first one are all alike, so sorting leaves them in place.
  have hties : ((sort mayPrecede xs).find? fun a => p a && mayPrecede a first) = some first := by
    rw [← hfirst, ← List.head?_filter, ← List.head?_filter, filter_sort htrans htotal]
    intro a _ b hb ha hkindb
    rw [Bool.and_eq_true] at ha hkindb
    exact htrans a first b ha.2 (hleast b hb hkindb.1)
  obtain ⟨found, hfound⟩ :=
    Option.isSome_iff_exists.mp (List.find?_isSome.mpr ⟨first, hsorted, hkind⟩)
  obtain ⟨hp, front, behind, hsplit, hfront⟩ := List.find?_eq_some_iff_append.mp hfound
  -- What is found in front of the first one may precede it, and so is the first one.
  have hprecedes : mayPrecede found first = true := by
    have hordered := pairwise_sort htrans htotal xs
    rw [hsplit, List.mem_append, List.mem_cons] at hsorted
    rw [hsplit, List.pairwise_append, List.pairwise_cons] at hordered
    rcases hsorted with hin | rfl | hin
    · exact absurd hkind (by simpa using hfront first hin)
    · simpa using htotal first first
    · exact hordered.2.1.1 first hin
  have hsame : ((sort mayPrecede xs).find? fun a => p a && mayPrecede a first) = some found := by
    refine List.find?_eq_some_iff_append.mpr ⟨?_, front, behind, hsplit, fun a ha => ?_⟩
    · rw [hp, hprecedes, Bool.and_self]
    · have hnot := hfront a ha
      rw [Bool.not_eq_true'] at hnot ⊢
      rw [hnot, Bool.false_and]
  rw [hfound, ← hsame, hties]

/-- Sorting by a key. -/
theorem sorted_sort {κ : Type} [DecidableEq κ] {key : α → κ} {order : κ → κ → Prop}
    (horder : ∀ a b, mayPrecede a b = true ↔ order (key a) (key b)) (xs : List α) :
    Sorted key order xs (sort mayPrecede xs) where
  perm := sort_perm mayPrecede xs
  ordered := (pairwise_sort htrans htotal xs).imp fun h => (horder _ _).mp h
  ties := by
    intro k
    refine filter_sort htrans htotal fun a _ b _ ha hb => ?_
    rw [decide_eq_true_eq] at ha hb
    have hsame : order (key a) (key a) := (horder a a).mp (by simpa using htotal a a)
    rw [horder, hb, ← ha]
    exact hsame

end

end StableSort

namespace Text

/-- A text does not come after another one when it is the same or comes first at the first byte in
which they differ. -/
theorem notAfter_iff {s t : Text} : s.notAfter t = true ↔ s = t ∨ List.Lex (· < ·) s t := by
  induction s generalizing t with
  | nil => cases t <;> simp [notAfter]
  | cons a s ih =>
    cases t with
    | nil => simp [notAfter]
    | cons b t =>
      rw [notAfter, Bool.or_eq_true, Bool.and_eq_true, decide_eq_true_eq, beq_iff_eq, ih,
        List.cons.injEq, List.cons_lex_cons_iff]
      constructor
      · rintro (hlt | ⟨rfl, rfl | hrest⟩)
        · exact .inr (.inl hlt)
        · exact .inl ⟨rfl, rfl⟩
        · exact .inr (.inr ⟨rfl, hrest⟩)
      · rintro (⟨rfl, rfl⟩ | hlt | ⟨rfl, hrest⟩)
        · exact .inr ⟨rfl, .inl rfl⟩
        · exact .inl hlt
        · exact .inr ⟨rfl, .inr hrest⟩

/-- The bytewise order is transitive. -/
theorem notAfter_trans {s t u : Text} (hst : s.notAfter t = true) (htu : t.notAfter u = true) :
    s.notAfter u = true := by
  induction s generalizing t u with
  | nil => simp [notAfter]
  | cons a s ih =>
    cases t with
    | nil => simp [notAfter] at hst
    | cons b t =>
      cases u with
      | nil => simp [notAfter] at htu
      | cons c u =>
        rw [notAfter, Bool.or_eq_true, Bool.and_eq_true, decide_eq_true_eq, beq_iff_eq]
          at hst htu ⊢
        rcases hst with hab | ⟨rfl, hrest⟩
        · rcases htu with hbc | ⟨rfl, _⟩
          · exact .inl (UInt8.lt_trans hab hbc)
          · exact .inl hab
        · rcases htu with hbc | ⟨rfl, hmore⟩
          · exact .inl hbc
          · exact .inr ⟨rfl, ih hrest hmore⟩

/-- Of two texts one does not come after the other. -/
theorem notAfter_total (s t : Text) : (s.notAfter t || t.notAfter s) = true := by
  induction s generalizing t with
  | nil => simp [notAfter]
  | cons a s ih =>
    cases t with
    | nil => simp [notAfter]
    | cons b t =>
      have hrest := ih t
      rw [Bool.or_eq_true] at hrest ⊢
      rw [notAfter, notAfter, Bool.or_eq_true, Bool.and_eq_true, decide_eq_true_eq, beq_iff_eq,
        Bool.or_eq_true, Bool.and_eq_true, decide_eq_true_eq, beq_iff_eq]
      rcases Std.lt_trichotomy a b with hab | rfl | hba
      · exact .inl (.inl hab)
      · exact hrest.imp (fun h => .inr ⟨rfl, h⟩) fun h => .inr ⟨rfl, h⟩
      · exact .inr (.inl hba)

end Text

namespace SymbolTable

/-- The table after a definition: the same one if the name is taken. -/
def define (table : SymbolTable) (d : Symbol) : SymbolTable :=
  (table.define? d.name d.value).getD table

/-- The table after a sequence of definitions, starting without symbols. -/
def ofDefinitions (definitions : List Symbol) : SymbolTable := definitions.foldl define empty

/-- The last definition of a sequence comes after the others. -/
theorem ofDefinitions_concat (definitions : List Symbol) (d : Symbol) :
    ofDefinitions (definitions ++ [d]) = (ofDefinitions definitions).define d := by
  rw [ofDefinitions, List.foldl_append]
  rfl

/-- A definition adds its symbol behind the others, or nothing. -/
theorem symbols_define (table : SymbolTable) (d : Symbol) :
    (table.define d).symbols = table.symbols ++ table.added d.name d.value := by
  rw [define, define?, added]
  cases table.has d.name with
  | true => exact (List.append_nil _).symm
  | false => rfl

/-- The names of a table are the defined ones in the order of their first definitions. -/
theorem map_name_ofDefinitions (definitions : List Symbol) :
    (ofDefinitions definitions).symbols.map Symbol.name =
      (definitions.map Symbol.name).eraseDups := by
  induction definitions using List.reverseRecOn with
  | nil => rfl
  | append_singleton earlier d ih =>
    rw [ofDefinitions_concat, symbols_define, map_name_added ih, List.map_append]
    rfl

/-- No two symbols of a table have the same name. -/
theorem nodup_ofDefinitions (definitions : List Symbol) :
    ((ofDefinitions definitions).symbols.map Symbol.name).Nodup := by
  induction definitions using List.reverseRecOn with
  | nil => exact List.nodup_nil
  | append_singleton earlier d ih =>
    rw [ofDefinitions_concat, symbols_define, added]
    cases htaken : (ofDefinitions earlier).has d.name with
    | true => rwa [if_pos rfl, List.append_nil]
    | false =>
      have hnew : d.name ∉ (ofDefinitions earlier).symbols.map Symbol.name := by
        rw [← has_iff, htaken]
        exact Bool.false_ne_true
      have hmore := ih.concat hnew
      rw [List.concat_eq_append] at hmore
      rw [if_neg Bool.false_ne_true, List.map_append]
      exact hmore

/-- A name is found with its first definition. -/
theorem get?_ofDefinitions (definitions : List Symbol) (name : Text) :
    (ofDefinitions definitions).get? name = definitions.find? fun d => d.name = name := by
  induction definitions using List.reverseRecOn with
  | nil => rfl
  | append_singleton earlier d ih =>
    have hget : (ofDefinitions (earlier ++ [d])).get? name =
        ((ofDefinitions earlier).get? name).or
          (((ofDefinitions earlier).added d.name d.value).find? fun s => s.name == name) := by
      rw [get?, ofDefinitions_concat, symbols_define, List.find?_append]
      rfl
    obtain ⟨own, value⟩ := d
    rw [hget, ih, List.find?_append, added]
    by_cases hname : own = name
    · -- The name is taken exactly when an earlier definition is found.
      rw [has, hname, ih]
      cases earlier.find? fun d => d.name = name with
      | some first => rfl
      | none => simp
    · cases (ofDefinitions earlier).has own <;> simp [hname]

/-- A table holds a sequence of definitions: the first one of every name, in order. -/
structure Holds (definitions : List Symbol) (table : SymbolTable) : Prop where
  /-- No name is listed twice. -/
  distinct : (table.symbols.map Symbol.name).Nodup
  /-- The names that are listed are the defined ones. -/
  listed : ∀ name, name ∈ table.symbols.map Symbol.name ↔ name ∈ definitions.map Symbol.name
  /-- They are listed in the order of their first definitions. -/
  order : table.symbols.map Symbol.name = (definitions.map Symbol.name).eraseDups
  /-- A further definition is taken exactly when its name is a new one. -/
  fresh : ∀ name value, (table.define? name value).isSome = true ↔
    name ∉ definitions.map Symbol.name
  /-- A name is found with its first definition. -/
  found : ∀ name, table.get? name = definitions.find? fun d => d.name = name
  /-- There are as many symbols as different names. -/
  size : table.size = (definitions.map Symbol.name).toFinset.card

/-- The table of a sequence of definitions holds it. -/
theorem holds_ofDefinitions (definitions : List Symbol) :
    Holds definitions (ofDefinitions definitions) := by
  have hdistinct := nodup_ofDefinitions definitions
  have horder := map_name_ofDefinitions definitions
  have hlisted : ∀ name, name ∈ (ofDefinitions definitions).symbols.map Symbol.name ↔
      name ∈ definitions.map Symbol.name := by
    intro name
    rw [horder, List.mem_eraseDups]
  refine ⟨hdistinct, hlisted, horder, fun name value => ?_, get?_ofDefinitions definitions, ?_⟩
  · rw [← hlisted, ← has_iff, define?]
    cases (ofDefinitions definitions).has name <;> simp
  · rw [size, ← List.length_map Symbol.name, ← List.toFinset_card_of_nodup hdistinct]
    congr 1
    ext name
    rw [List.mem_toFinset, List.mem_toFinset, hlisted]

/-- The view by length lists longer names first, names of one length as they were defined. -/
theorem sorted_byLength (table : SymbolTable) :
    StableSort.Sorted (fun s : Symbol => s.name.length) (· ≥ ·) table.symbols table.byLength :=
  StableSort.sorted_sort notShorter_trans notShorter_total (fun _ _ => decide_eq_true_iff)
    table.symbols

/-- The view by value lists smaller values first, symbols of one value as they were defined. -/
theorem sorted_byValue (table : SymbolTable) :
    StableSort.Sorted Symbol.value (· ≤ ·) table.symbols table.byValue := by
  refine StableSort.sorted_sort ?_ ?_ ?_ table.symbols
  · simp only [decide_eq_true_eq]
    exact fun a b c => UInt16.le_trans
  · simp only [Bool.or_eq_true, decide_eq_true_eq]
    exact fun a b => UInt16.le_total _ _
  · exact fun a b => decide_eq_true_iff

/-- If no two names are the same, the view by name lists them in strictly ascending order. -/
theorem pairwise_byName {table : SymbolTable} (h : (table.symbols.map Symbol.name).Nodup) :
    table.byName.Pairwise fun s u => List.Lex (· < ·) s.name u.name := by
  have hordered : table.byName.Pairwise fun s u => s.name.notAfter u.name = true := by
    refine StableSort.pairwise_sort ?_ ?_ table.symbols
    · exact fun _ _ _ => Text.notAfter_trans
    · exact fun s u => Text.notAfter_total s.name u.name
  have hnodup : (table.byName.map Symbol.name).Nodup :=
    ((StableSort.sort_perm _ table.symbols).map Symbol.name).nodup_iff.mpr h
  refine hordered.imp₂ (fun s u hle hne => ?_) (List.pairwise_map.mp hnodup)
  exact (Text.notAfter_iff.mp hle).resolve_left hne

/-- A better match is no shorter, and no shorter than the symbol it was compared with if the name of
that one occurs. -/
theorem le_matchLength_betterMatch (t : Text) (best : Option Symbol) (s : Symbol) :
    matchLength best ≤ matchLength (betterMatch t best s) ∧
      (s.name.occursIn t = true → s.name.length ≤ matchLength (betterMatch t best s)) := by
  unfold betterMatch
  split
  · next hbetter =>
    rw [Bool.and_eq_true, decide_eq_true_eq] at hbetter
    exact ⟨Nat.le_of_lt hbetter.1, fun _ => Nat.le_refl _⟩
  · next hkept =>
    rw [Bool.and_eq_true, decide_eq_true_eq] at hkept
    exact ⟨Nat.le_refl _, fun hoccurs => Nat.le_of_not_lt fun hlonger => hkept ⟨hlonger, hoccurs⟩⟩

/-- The match that a walk ends with was there before, or is longer than that one and the first of
its length or more to occur. -/
theorem find?_of_foldl_betterMatch {t : Text} {rest : List Symbol} {best : Option Symbol}
    {s : Symbol} (h : rest.foldl (betterMatch t) best = some s) :
    best = some s ∨ matchLength best < s.name.length ∧
      (rest.find? fun u => u.name.occursIn t && s.name.length ≤ u.name.length) = some s := by
  induction rest generalizing best with
  | nil => exact .inl h
  | cons u rest ih =>
    rcases ih h with htaken | ⟨hshorter, hfirst⟩
    · unfold betterMatch at htaken
      split at htaken
      · next hbetter =>
        rw [Bool.and_eq_true, decide_eq_true_eq] at hbetter
        obtain rfl := Option.some.inj htaken
        refine .inr ⟨hbetter.1, List.find?_cons_of_pos ?_⟩
        rw [hbetter.2, Bool.true_and, decide_eq_true_eq]
      · exact .inl htaken
    · -- A longer match that comes later rules out that this symbol is one of its length.
      obtain ⟨hbest, hlong⟩ := le_matchLength_betterMatch t best u
      refine .inr ⟨Nat.lt_of_le_of_lt hbest hshorter, ?_⟩
      rw [List.find?_cons_of_neg, hfirst]
      rw [Bool.and_eq_true, decide_eq_true_eq]
      rintro ⟨hoccurs, hle⟩
      have := hlong hoccurs
      omega

/-- If no name is empty, the longest match is the first symbol of the view by length whose name
occurs in the text. -/
theorem longestMatch?_eq_find? {table : SymbolTable} (hnames : ∀ s ∈ table.symbols, s.name ≠ [])
    (t : Text) : table.longestMatch? t = table.byLength.find? fun s => s.name <:+: t := by
  have hoccurs : (fun s : Symbol => decide (s.name <:+: t)) = fun s => s.name.occursIn t := by
    funext s
    rw [Bool.eq_iff_iff, decide_eq_true_eq, Text.occursIn_iff]
  have hbest := bestMatch_longestMatch? table t
  rw [hoccurs]
  cases hmatch : table.longestMatch? t with
  | none =>
    rw [eq_comm, List.find?_eq_none]
    intro s hs hin
    have hmem := mem_byLength.mp hs
    have hlength := hbest.longest s hmem ((Text.occursIn_iff _ _).mp hin)
    rw [hmatch, matchLength, Nat.le_zero, List.length_eq_zero_iff] at hlength
    exact hnames s hmem hlength
  | some s =>
    have hfirst := (find?_of_foldl_betterMatch hmatch).resolve_left (by simp)
    refine (StableSort.find?_sort notShorter_trans notShorter_total ?_ hfirst.2).symm
    intro u hu hin
    have hlength := hbest.longest u hu ((Text.occursIn_iff _ _).mp hin)
    rw [hmatch] at hlength
    exact decide_eq_true hlength

/-- After any sequence of definitions a table holds the first one of every name, in order, and its
views list the same symbols: longer names first, names in strictly ascending order of their bytes,
and smaller values first, where names of one length and symbols of one value stay as they were
defined. If no name is empty, the longest match in a text is the first symbol of the view by length
whose name occurs there, and there is none if no name does. -/
theorem views_of_definitions (definitions : List Symbol) :
    let table := ofDefinitions definitions
    Holds definitions table ∧
      StableSort.Sorted (fun s : Symbol => s.name.length) (· ≥ ·) table.symbols table.byLength ∧
      (table.byName.Perm table.symbols ∧
        table.byName.Pairwise fun s u => List.Lex (· < ·) s.name u.name) ∧
      StableSort.Sorted Symbol.value (· ≤ ·) table.symbols table.byValue ∧
      ((∀ d ∈ definitions, d.name ≠ []) → ∀ t : Text,
        table.longestMatch? t = table.byLength.find? fun s => s.name <:+: t) := by
  intro table
  have hholds := holds_ofDefinitions definitions
  refine ⟨hholds, sorted_byLength table, ⟨StableSort.sort_perm _ table.symbols,
    pairwise_byName hholds.distinct⟩, sorted_byValue table, fun hnames => ?_⟩
  refine longestMatch?_eq_find? fun s hs => ?_
  obtain ⟨d, hd, hname⟩ := List.mem_map.mp ((hholds.listed s.name).mp (List.mem_map_of_mem hs))
  rw [← hname]
  exact hnames d hd

/-- Three names of two bytes and one that is defined twice. The text has two of the long names, and
the one that was defined first is found, though it stands behind the other one. -/
theorem views_of_definitions_tied :
    let definitions : List Symbol := [⟨Text.ascii "B", 7⟩, ⟨Text.ascii "UP", 7⟩,
      ⟨Text.ascii "AT", 2⟩, ⟨Text.ascii "B", 1⟩, ⟨Text.ascii "TO", 9⟩]
    let table := ofDefinitions definitions
    (∀ d ∈ definitions, d.name ≠ []) ∧ table.symbols.map (·.value) = [7, 7, 2, 9] ∧
      table.byLength.map (·.value) = [7, 2, 9, 7] ∧
      table.longestMatch? (Text.ascii "TO+AT+B") = some ⟨Text.ascii "AT", 2⟩ := by
  intro definitions table
  have hnames : ∀ d ∈ definitions, d.name ≠ [] := by decide
  refine ⟨hnames, by decide, by decide, ?_⟩
  rw [(views_of_definitions definitions).2.2.2.2 hnames]
  decide

end SymbolTable

end ColumnAssembler
