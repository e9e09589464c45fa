import ColumnAssembler.Text

/-!
# Names in a text

The search for a name in a text. A window as long as the name slides over the text, and the weighted
sum of its bytes is kept up to date with every step. Only where the sum is that of the name are the
bytes themselves compared, so that long names with long repetitions are found in one pass. The main
statement, `occursIn_iff`, says that the sums never hide an occurrence.
-/

namespace ColumnAssembler.Text

/-- The weight of a byte over that of the byte after it. -/
def weightStep : UInt64 := 0x100000001B3

/-- Add a byte at the end of a weighted sum. -/
def addWeight (sum : UInt64) (b : UInt8) : UInt64 := sum * weightStep + b.toUInt64

/-- The weighted sum of the bytes of a text. -/
def weight (t : Text) : UInt64 := t.foldl addWeight 0

/-- The weight of a byte that stands in front of a text. -/
def frontWeight (t : Text) : UInt64 := t.foldl (fun factor _ => factor * weightStep) 1

/-- Search with a window: its weighted sum, the text from its first byte on, and the text behind it.
The first three arguments are the name, its weighted sum and the weight of a byte that leaves. -/
def searchFrom (name : Text) (target front : UInt64) : UInt64 → Text → Text → Bool
  | sum, t, [] => sum == target && name.isPrefixOf t
  | sum, t, next :: behind =>
    (sum == target && name.isPrefixOf t) ||
      searchFrom name target front (addWeight sum next - (t.headD 0).toUInt64 * front) t.tail
        behind

/-- Whether the name stands somewhere in the text. The empty name stands in every text. -/
def occursIn (name t : Text) : Bool :=
  name.length ≤ t.length &&
    searchFrom name name.weight name.frontWeight (weight (t.take name.length)) t
      (t.drop name.length)

private theorem foldl_addWeight (sum : UInt64) (t : Text) :
    t.foldl addWeight sum = sum * t.frontWeight + t.weight := by
  have factor : ∀ (t : Text) (p : UInt64),
      t.foldl (fun factor _ => factor * weightStep) p = p * t.frontWeight := by
    intro t
    induction t with
    | nil => intro p; simp [frontWeight]
    | cons b rest ih =>
      intro p
      have h := ih (1 * weightStep)
      simp only [frontWeight, List.foldl_cons] at h ⊢
      rw [ih (p * weightStep), h]
      simp only [frontWeight]
      grind
  induction t generalizing sum with
  | nil => simp [frontWeight, weight]
  | cons b rest ih =>
    have hw : weight (b :: rest) = addWeight 0 b * frontWeight rest + weight rest := ih _
    have hf : frontWeight (b :: rest) = 1 * weightStep * frontWeight rest := factor rest _
    rw [List.foldl_cons, ih, hw, hf]
    simp only [addWeight]
    grind

/-- A byte in front adds its weight. -/
theorem weight_cons (b : UInt8) (t : Text) :
    weight (b :: t) = b.toUInt64 * t.frontWeight + t.weight := by
  have h : weight (b :: t) = t.foldl addWeight (addWeight 0 b) := rfl
  rw [h, foldl_addWeight]
  simp only [addWeight]
  grind

/-- A byte at the end is added to the sum. -/
theorem weight_concat (t : Text) (b : UInt8) : weight (t ++ [b]) = addWeight t.weight b := by
  simp [weight, List.foldl_append]

/-- The weight of a byte in front depends on the length of the text only. -/
theorem frontWeight_eq_of_length_eq {s t : Text} (h : s.length = t.length) :
    s.frontWeight = t.frontWeight := by
  have general : ∀ (s t : Text) (p : UInt64), s.length = t.length →
      s.foldl (fun factor _ => factor * weightStep) p =
        t.foldl (fun factor _ => factor * weightStep) p := by
    intro s
    induction s with
    | nil =>
      intro t p h
      rw [List.length_nil] at h
      rw [List.length_eq_zero_iff.mp h.symm]
    | cons b rest ih =>
      intro t p h
      cases t with
      | nil => simp at h
      | cons c others => exact ih others _ (by simpa using h)
  exact general s t 1 h

/-- The bytes are compared exactly where the sums agree, and no occurrence is missed by that. -/
theorem weight_eq_and_isPrefixOf (name t : Text) :
    (weight (t.take name.length) == name.weight && name.isPrefixOf t) = name.isPrefixOf t := by
  cases h : name.isPrefixOf t with
  | false => simp
  | true =>
    have hp : name = t.take name.length :=
      List.prefix_iff_eq_take.mp (List.isPrefixOf_iff_prefix.mp h)
    simp [← hp]

/-- The sum of the window one byte on. -/
theorem weight_take_tail (n : Nat) (a next : UInt8) (t behind : Text)
    (h : (a :: t).drop n = next :: behind) :
    addWeight (weight ((a :: t).take n)) next - a.toUInt64 * frontWeight (t.take n) =
      weight (t.take n) := by
  have hlong : n < (a :: t).length := by
    have hl := congrArg List.length h
    simp only [List.length_drop, List.length_cons] at hl ⊢
    omega
  have hnext : (a :: t)[n] = next := by
    have hd := List.drop_eq_getElem_cons hlong
    rw [h] at hd
    exact (List.cons.inj hd).1.symm
  have hwindow : (a :: t).take n ++ [next] = a :: t.take n := by
    rw [← hnext, ← List.take_succ_eq_append_getElem hlong, List.take_succ_cons]
  rw [← weight_concat, hwindow, weight_cons]
  grind

/-- The search finds the name in the text from the window on. -/
theorem searchFrom_iff (name t behind : Text) (hlong : name.length ≤ t.length)
    (hbehind : t.drop name.length = behind) :
    searchFrom name name.weight name.frontWeight (weight (t.take name.length)) t behind = true ↔
      name <:+: t := by
  induction behind generalizing t with
  | nil =>
    rw [searchFrom, weight_eq_and_isPrefixOf, List.isPrefixOf_iff_prefix]
    have hlen : name.length = t.length := by
      have := List.drop_eq_nil_iff.mp hbehind
      omega
    constructor
    · exact List.IsPrefix.isInfix
    · intro h
      obtain rfl := h.eq_of_length hlen
      exact List.prefix_rfl
  | cons next behind ih =>
    cases t with
    | nil => simp at hbehind
    | cons a t =>
      have hrest : t.drop name.length = behind := by
        have := congrArg List.tail hbehind
        simpa using this
      have hlen : name.length ≤ t.length := by
        have hl := congrArg List.length hbehind
        simp only [List.length_drop, List.length_cons] at hl
        omega
      have hfront : name.frontWeight = frontWeight (t.take name.length) :=
        frontWeight_eq_of_length_eq (by simp [hlen])
      rw [searchFrom, weight_eq_and_isPrefixOf, List.headD_cons, List.tail_cons, hfront,
        weight_take_tail _ _ _ _ _ hbehind, ← hfront, Bool.or_eq_true, ih t hlen hrest,
        List.isPrefixOf_iff_prefix, List.infix_cons_iff]

/-- The search finds exactly the names that are contiguous parts of the text. -/
theorem occursIn_iff (name t : Text) : name.occursIn t = true ↔ name <:+: t := by
  rw [occursIn, Bool.and_eq_true, decide_eq_true_eq]
  constructor
  · rintro ⟨hlong, h⟩
    exact (searchFrom_iff name t _ hlong rfl).mp h
  · intro h
    exact ⟨h.length_le, (searchFrom_iff name t _ h.length_le rfl).mpr h⟩

end ColumnAssembler.Text
