/-!
# Stable sorting

Merge sort by a relation that says which items may stand in front of which. Items that may stand
either way keep their order. All recursion is structural, so that closed instances can be evaluated;
`sort_eq_mergeSort` gives the laws of sorting from those of the standard merge sort.
-/

namespace ColumnAssembler.StableSort

/-- Merge a list that starts with the given item into another one. The function merges what follows
the item. -/
def mergeFrom {α : Type} (mayPrecede : α → α → Bool) (x : α) (mergeRest : List α → List α) :
    List α → List α
  | [] => x :: mergeRest []
  | y :: ys =>
    if mayPrecede x y then x :: mergeRest (y :: ys)
    else y :: mergeFrom mayPrecede x mergeRest ys

/-- Merge two lists in order. Where the items may stand either way, the first list comes first. -/
def merge {α : Type} (mayPrecede : α → α → Bool) : List α → List α → List α
  | [] => fun ys => ys
  | x :: xs => mergeFrom mayPrecede x (merge mayPrecede xs)

/-- Merging agrees with the standard merge. -/
theorem merge_eq {α : Type} (mayPrecede : α → α → Bool) (xs ys : List α) :
    merge mayPrecede xs ys = xs.merge ys mayPrecede := by
  induction xs generalizing ys with
  | nil => simp [merge]
  | cons x xs ih =>
    rw [merge]
    induction ys with
    | nil => simp [mergeFrom, ih]
    | cons y ys ihy =>
      rw [mergeFrom, List.cons_merge_cons]
      split
      · rw [ih]
      · rw [ihy]

/-- Sort by halves. The first argument bounds the depth. -/
def sortFrom {α : Type} (mayPrecede : α → α → Bool) : Nat → List α → List α
  | 0, xs => xs
  | _ + 1, [] => []
  | _ + 1, [x] => [x]
  | room + 1, x :: y :: rest =>
    let half := (rest.length + 3) / 2
    merge mayPrecede (sortFrom mayPrecede room ((x :: y :: rest).take half))
      (sortFrom mayPrecede room ((x :: y :: rest).drop half))

/-- The items in order, with ties as they were. -/
def sort {α : Type} (mayPrecede : α → α → Bool) (xs : List α) : List α :=
  sortFrom mayPrecede xs.length xs

/-- With room for all items, sorting by halves agrees with the standard merge sort. -/
theorem sortFrom_eq {α : Type} (mayPrecede : α → α → Bool) (room : Nat) (xs : List α)
    (h : xs.length ≤ room) : sortFrom mayPrecede room xs = xs.mergeSort mayPrecede := by
  induction room generalizing xs with
  | zero =>
    have hnil : xs = [] := List.length_eq_zero_iff.mp (by omega)
    rw [hnil]
    simp [sortFrom]
  | succ room ih =>
    match xs, h with
    | [], _ => simp [sortFrom]
    | [x], _ => simp [sortFrom]
    | x :: y :: rest, h =>
      have hlen : (x :: y :: rest).length = rest.length + 2 := rfl
      rw [sortFrom, List.mergeSort, merge_eq]
      simp only [List.MergeSort.Internal.splitInTwo_fst, List.MergeSort.Internal.splitInTwo_snd]
      rw [ih _ (by simp only [List.length_take]; omega),
        ih _ (by simp only [List.length_drop]; omega)]
      rfl

/-- The order is that of the standard merge sort. -/
theorem sort_eq_mergeSort {α : Type} (mayPrecede : α → α → Bool) (xs : List α) :
    sort mayPrecede xs = xs.mergeSort mayPrecede :=
  sortFrom_eq mayPrecede xs.length xs (Nat.le_refl _)

/-- Sorting only reorders. -/
theorem sort_perm {α : Type} (mayPrecede : α → α → Bool) (xs : List α) :
    (sort mayPrecede xs).Perm xs := by
  rw [sort_eq_mergeSort]
  exact List.mergeSort_perm xs mayPrecede

end ColumnAssembler.StableSort
