import ColumnAssembler.Proofs.SymbolViews
import Mathlib.Data.Finmap

/-!
# Symbols by name and by order

A symbol table in two parts: a map that finds a symbol by its name, and the names in the order of
their definition. A definition writes to both, and everything that depends on the order goes through
the names and looks each one up. Listing the symbols turns such an index into a symbol table, and
every operation on the index gives what the same operation gives on that table. Nothing is lost on
the way: an index is known from its table, and every table without a repeated name comes from one,
which the tables of the first pass are. The views are made from the listed symbols alone.
-/

namespace ColumnAssembler

/-- Symbols by their names, with the names in the order of their definition. -/
structure SymbolIndex where
  /-- The symbols by name. -/
  items : Finmap fun _ : Text => Symbol
  /-- The names in the order of their definition. -/
  order : List Text
  /-- No name is listed twice. -/
  nodup : order.Nodup
  /-- The names that are listed are the ones that have a symbol. -/
  mem_items : ∀ {name : Text}, name ∈ items ↔ name ∈ order
  /-- A symbol stands under its own name. -/
  name_of_lookup : ∀ {name : Text} {s : Symbol}, items.lookup name = some s → s.name = name

namespace SymbolIndex

/-- The index without symbols. -/
def empty : SymbolIndex where
  items := ∅
  order := []
  nodup := List.nodup_nil
  mem_items := by
    intro name
    simp only [Finmap.notMem_empty, List.not_mem_nil]
  name_of_lookup := by simp

/-- The symbol with the given name. -/
def get? (x : SymbolIndex) (name : Text) : Option Symbol := x.items.lookup name

/-- Whether the name is defined. -/
def has (x : SymbolIndex) (name : Text) : Bool := (x.get? name).isSome

theorem has_iff {x : SymbolIndex} {name : Text} : x.has name = true ↔ name ∈ x.order := by
  rw [has, get?, Finmap.lookup_isSome, x.mem_items]

/-- The index with a symbol of a new name. -/
def extend (x : SymbolIndex) (s : Symbol) (hnew : s.name ∉ x.order) : SymbolIndex where
  items := x.items.insert s.name s
  order := x.order ++ [s.name]
  nodup := by simpa using x.nodup.concat hnew
  mem_items := by
    intro name
    rw [Finmap.mem_insert, x.mem_items, List.mem_append, List.mem_singleton, or_comm]
  name_of_lookup := by
    intro name found h
    by_cases hname : name = s.name
    · subst hname
      rw [Finmap.lookup_insert, Option.some.injEq] at h
      rw [h]
    · rw [Finmap.lookup_insert_of_ne _ hname] at h
      exact x.name_of_lookup h

/-- Define a name, and tell whether it was a new one. The first definition stands. -/
def define (x : SymbolIndex) (d : Symbol) : Bool × SymbolIndex :=
  if h : x.has d.name = true then (false, x)
  else (true, x.extend d fun hmem => h (has_iff.mpr hmem))

/-- The index after a sequence of definitions, starting without symbols. -/
def ofDefinitions (definitions : List Symbol) : SymbolIndex :=
  definitions.foldl (fun x d => (x.define d).2) empty

/-- The number of symbols. -/
def size (x : SymbolIndex) : Nat := x.items.keys.card

/-- What the map holds under a name, and a symbol without name and value if it holds nothing. -/
def item (x : SymbolIndex) (name : Text) : Symbol := (x.get? name).getD ⟨[], 0⟩

/-- The symbols in the order of their definition. -/
def symbols (x : SymbolIndex) : List Symbol := x.order.map x.item

/-- Take a name over the best match so far if it occurs in the text and is longer. The best match
comes with a mark that there is one. -/
def betterMatch (x : SymbolIndex) (t : Text) (best : Symbol × Bool) (name : Text) : Symbol × Bool :=
  if best.1.name.length < name.length && name.occursIn t then (x.item name, true) else best

/-- The match of a walk, if it is marked as one. -/
def matched (best : Symbol × Bool) : Option Symbol := if best.2 then some best.1 else none

/-- The symbol with the longest name that occurs in the text, of equally long ones the first. -/
def longestMatch? (x : SymbolIndex) (t : Text) : Option Symbol :=
  matched (x.order.foldl (x.betterMatch t) (⟨[], 0⟩, false))

/-- The index as a list of symbols. -/
def toTable (x : SymbolIndex) : SymbolTable := ⟨x.symbols⟩

/-! ### Listed symbols -/

theorem get?_of_mem {x : SymbolIndex} {name : Text} (h : name ∈ x.order) :
    x.get? name = some (x.item name) := by
  obtain ⟨s, hs⟩ := Option.isSome_iff_exists.mp (has_iff.mpr h)
  rw [item, hs, Option.getD_some]

theorem name_item {x : SymbolIndex} {name : Text} (h : name ∈ x.order) :
    (x.item name).name = name :=
  x.name_of_lookup (get?_of_mem h)

/-- The names of the listed symbols are the names in their order. -/
theorem map_name_symbols (x : SymbolIndex) : x.symbols.map Symbol.name = x.order := by
  have hown : ∀ name ∈ x.order, (Symbol.name ∘ x.item) name = id name := fun _ h => name_item h
  rw [symbols, List.map_map, List.map_congr_left hown, List.map_id]

theorem nodup_toTable (x : SymbolIndex) : (x.toTable.symbols.map Symbol.name).Nodup := by
  rw [toTable, map_name_symbols]
  exact x.nodup

/-! ### Operations -/

/-- A name is defined in the list exactly when it is in the map. -/
theorem has_toTable (x : SymbolIndex) (name : Text) : x.toTable.has name = x.has name := by
  rw [Bool.eq_iff_iff, SymbolTable.has_iff, has_iff, toTable, map_name_symbols]

/-- A name has the same symbol in the list as in the map. -/
theorem get?_toTable (x : SymbolIndex) (name : Text) : x.toTable.get? name = x.get? name := by
  by_cases h : name ∈ x.order
  · have hfound := SymbolTable.get?_name_of_nodup x.nodup_toTable (List.mem_map_of_mem h)
    rw [name_item h] at hfound
    rw [hfound, get?_of_mem h]
  · have hmap : ¬ (x.get? name).isSome = true := fun hsome => h (has_iff.mp hsome)
    have hlist : ¬ (x.toTable.get? name).isSome = true := by
      rw [← SymbolTable.has, has_toTable]
      exact hmap
    rw [Option.not_isSome_iff_eq_none.mp hlist, Option.not_isSome_iff_eq_none.mp hmap]

/-- A new name comes last in the list. The symbols in front of it stay. -/
theorem symbols_extend (x : SymbolIndex) (d : Symbol) (hnew : d.name ∉ x.order) :
    (x.extend d hnew).symbols = x.symbols ++ [d] := by
  have hlast : (x.extend d hnew).item d.name = d := by
    rw [item, get?, extend, Finmap.lookup_insert, Option.getD_some]
  have hkept : ∀ name ∈ x.order, (x.extend d hnew).item name = x.item name := by
    intro name h
    have hother : name ≠ d.name := fun hsame => hnew (hsame ▸ h)
    rw [item, get?, extend, Finmap.lookup_insert_of_ne _ hother]
    rfl
  rw [symbols, extend, List.map_append, List.map_singleton]
  exact congrArg₂ (· ++ ·) (List.map_congr_left hkept) (congrArg (fun s => [s]) hlast)

/-- A definition is taken by the index exactly when the list takes it. -/
theorem define_fst (x : SymbolIndex) (d : Symbol) :
    (x.define d).1 = (x.toTable.define? d.name d.value).isSome := by
  rw [define, SymbolTable.define?, has_toTable]
  by_cases htaken : x.has d.name = true
  · rw [dif_pos htaken, if_pos htaken, Option.isSome_none]
  · rw [dif_neg htaken, if_neg htaken, Option.isSome_some]

/-- A definition leads to the same table as on the list. -/
theorem toTable_define (x : SymbolIndex) (d : Symbol) :
    (x.define d).2.toTable = x.toTable.define d := by
  rw [SymbolTable.define, SymbolTable.define?, has_toTable, define]
  by_cases htaken : x.has d.name = true
  · rw [dif_pos htaken, if_pos htaken, Option.getD_none]
  · rw [dif_neg htaken, if_neg htaken, Option.getD_some, toTable, symbols_extend]
    rfl

/-- There are as many symbols in the list as names in the map. -/
theorem size_toTable (x : SymbolIndex) : x.toTable.size = x.size := by
  have hkeys : x.items.keys = x.order.toFinset := by
    ext name
    rw [Finmap.mem_keys, x.mem_items, List.mem_toFinset]
  rw [size, hkeys, List.toFinset_card_of_nodup x.nodup, SymbolTable.size, toTable, symbols,
    List.length_map]

/-- One step of the walk for the longest match: with no match the best name so far is empty, so both
walks compare the same lengths. -/
theorem matched_betterMatch {x : SymbolIndex} {name : Text} (h : name ∈ x.order) (t : Text)
    {best : Symbol × Bool} (hblank : best.2 = false → best.1.name = []) :
    matched (x.betterMatch t best name) =
        SymbolTable.betterMatch t (matched best) (x.item name) ∧
      ((x.betterMatch t best name).2 = false → (x.betterMatch t best name).1.name = []) := by
  have hlength : SymbolTable.matchLength (matched best) = best.1.name.length := by
    cases hmark : best.2 with
    | true => rw [matched, hmark, if_pos rfl, SymbolTable.matchLength]
    | false =>
      rw [matched, hmark, if_neg Bool.false_ne_true, SymbolTable.matchLength, hblank hmark,
        List.length_nil]
  rw [betterMatch, SymbolTable.betterMatch, hlength, name_item h]
  split
  · exact ⟨rfl, fun hmark => absurd hmark (by simp)⟩
  · exact ⟨rfl, hblank⟩

/-- The walk over the names finds what the walk over the list finds. -/
theorem longestMatch?_toTable (x : SymbolIndex) (t : Text) :
    x.toTable.longestMatch? t = x.longestMatch? t := by
  have hwalk : ∀ names : List Text, names ⊆ x.order → ∀ best : Symbol × Bool,
      (best.2 = false → best.1.name = []) →
      (names.map x.item).foldl (SymbolTable.betterMatch t) (matched best) =
        matched (names.foldl (x.betterMatch t) best) := by
    intro names
    induction names with
    | nil => exact fun _ _ _ => rfl
    | cons name rest ih =>
      intro hnames best hblank
      obtain ⟨hname, hrest⟩ := List.cons_subset.mp hnames
      obtain ⟨hstep, hnext⟩ := matched_betterMatch hname t hblank
      rw [List.map_cons, List.foldl_cons, List.foldl_cons, ← hstep]
      exact ih hrest _ hnext
  exact hwalk x.order (List.Subset.refl _) (⟨[], 0⟩, false) fun _ => rfl

/-! ### Whole tables -/

/-- Any sequence of definitions leads to the same table. -/
theorem toTable_ofDefinitions (definitions : List Symbol) :
    (ofDefinitions definitions).toTable = SymbolTable.ofDefinitions definitions :=
  (List.foldl_hom toTable fun x d => (toTable_define x d).symm).symm

/-- An index is known from its table. -/
theorem toTable_injective : Function.Injective toTable := by
  intro x y h
  have horder : x.order = y.order := by
    rw [← map_name_symbols, ← map_name_symbols]
    exact congrArg (fun table => table.symbols.map Symbol.name) h
  have hitems : x.items = y.items := by
    refine Finmap.ext_lookup fun name => ?_
    have hname := x.get?_toTable name
    rw [h, get?_toTable] at hname
    exact hname.symm
  cases x
  cases y
  simp only [mk.injEq]
  exact ⟨hitems, horder⟩

/-- The tables that come from an index are those without a repeated name. -/
theorem exists_toTable_iff {table : SymbolTable} :
    (∃ x : SymbolIndex, x.toTable = table) ↔ (table.symbols.map Symbol.name).Nodup := by
  constructor
  · rintro ⟨x, rfl⟩
    exact x.nodup_toTable
  · obtain ⟨symbols⟩ := table
    -- Defining the symbols one after the other takes them all, as every name is new.
    induction symbols using List.reverseRecOn with
    | nil => exact fun _ => ⟨empty, rfl⟩
    | append_singleton earlier d ih =>
      intro hnodup
      rw [List.map_append, List.nodup_append] at hnodup
      obtain ⟨x, hx⟩ := ih hnodup.1
      have hsymbols : x.symbols = earlier := congrArg SymbolTable.symbols hx
      have hnew : d.name ∉ x.order := by
        rw [← map_name_symbols, hsymbols]
        exact fun hmem => hnodup.2.2 _ hmem _ (by simp) rfl
      exact ⟨x.extend d hnew, by rw [toTable, symbols_extend, hsymbols]⟩

/-- All through the first pass the symbols of the program are those of an index. -/
theorem exists_toTable_stateAfter (origin : UInt16) (cancelAt : Option Nat) (lines : List Text)
    (count : Nat) : ∃ x : SymbolIndex,
      x.toTable = (Assembly.stateAfter origin cancelAt lines count).program.symbols :=
  exists_toTable_iff.mpr (Assembly.named_stateAfter count).distinct

end SymbolIndex

end ColumnAssembler
