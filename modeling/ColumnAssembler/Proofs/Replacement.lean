import ColumnAssembler.Text.Glyph
import ColumnAssembler.Text.Search

/-!
# Replacing a name in a text

What `Text.replaceFrom` leaves of a text. A name that does not occur leaves all of it, the text as a
name leaves nothing, and in between a byte at either end that the value does not have was there
before: replacing can take a start or an ending away from a text but never give it one. It takes
them away only where the name itself reaches into them.
-/

namespace ColumnAssembler.Text

/-- Replacing a name that does not occur changes nothing. -/
theorem replaceFrom_of_absent {name t : Text} (value : Text) (h : ¬ name <:+: t) :
    replaceFrom name value 0 t = t := by
  induction t with
  | nil => rfl
  | cons c rest ih =>
    have hhere : name.isPrefixOf (c :: rest) = false := by
      apply eq_false_of_ne_true
      intro hprefix
      exact h (List.isPrefixOf_iff_prefix.mp hprefix).isInfix
    have hrest : ¬ name <:+: rest := fun hpart => h (List.infix_cons hpart)
    rw [replaceFrom, hhere, if_neg Bool.false_ne_true, ih hrest]

/-- The bytes that an occurrence covers are dropped. -/
theorem replaceFrom_append_covered (name value front t : Text) :
    replaceFrom name value front.length (front ++ t) = replaceFrom name value 0 t := by
  induction front with
  | nil => rfl
  | cons c front ih => exact ih

/-- A non-empty name is replaced from left to right. -/
theorem replaceAll_of_ne_nil {name : Text} (hname : name ≠ []) (t value : Text) :
    t.replaceAll name value = replaceFrom name value 0 t := by
  rw [replaceAll, if_neg (by simpa using hname)]

/-- Replacing a name in front of a text in which it does not occur. -/
theorem replaceAll_append_of_absent {name : Text} (hname : name ≠ []) (value : Text) {t : Text}
    (h : ¬ name <:+: t) : (name ++ t).replaceAll name value = value ++ t := by
  rw [replaceAll_of_ne_nil hname]
  cases name with
  | nil => exact absurd rfl hname
  | cons c rest =>
    have hhere : (c :: rest).isPrefixOf (c :: (rest ++ t)) = true :=
      List.isPrefixOf_iff_prefix.mpr (List.prefix_append (c :: rest) t)
    rw [List.cons_append, replaceFrom, if_pos hhere, List.length_cons, Nat.add_sub_cancel,
      replaceFrom_append_covered, replaceFrom_of_absent value h]

/-- Replacing the whole text leaves the value. -/
theorem replaceAll_self {name : Text} (hname : name ≠ []) (value : Text) :
    name.replaceAll name value = value := by
  have habsent : ¬ name <:+: [] := fun h => hname (List.infix_nil.mp h)
  have hwhole := replaceAll_append_of_absent hname value habsent
  rwa [List.append_nil, List.append_nil] at hwhole

variable {name value : Text}

/-- A text without bytes of the value has had nothing replaced. -/
theorem replaceFrom_eq_self (hvalue : value ≠ []) {t : Text}
    (h : ∀ b ∈ replaceFrom name value 0 t, b ∉ value) : replaceFrom name value 0 t = t := by
  induction t with
  | nil => rfl
  | cons c rest ih =>
    rw [replaceFrom] at h ⊢
    split
    · next hhere =>
      rw [if_pos hhere] at h
      obtain ⟨b, hb⟩ := List.exists_mem_of_ne_nil value hvalue
      exact absurd hb (h b (List.mem_append_left _ hb))
    · next hhere =>
      rw [if_neg hhere] at h
      rw [ih fun b hb => h b (List.mem_cons_of_mem c hb)]

/-- A start byte that the value does not have was there before. -/
theorem head?_of_replaceFrom (hvalue : value ≠ []) {t : Text} {b : UInt8} (hb : b ∉ value)
    (h : (replaceFrom name value 0 t).head? = some b) : t.head? = some b := by
  cases t with
  | nil => exact h
  | cons c rest =>
    rw [replaceFrom] at h
    split at h
    · obtain ⟨first, others, rfl⟩ := List.exists_cons_of_ne_nil hvalue
      rw [List.cons_append, List.head?_cons, Option.some.injEq] at h
      exact absurd (h ▸ List.mem_cons_self) hb
    · exact h

/-- An ending that shares no byte with the front of a text lies behind it. -/
theorem suffix_of_suffix_append {front rest ending : Text} (hending : ∀ b ∈ ending, b ∉ front)
    (h : ending <:+ front ++ rest) : ending <:+ rest := by
  induction front with
  | nil => exact h
  | cons c front ih =>
    rcases List.suffix_cons_iff.mp h with hwhole | hbehind
    · exact absurd List.mem_cons_self (hending c (hwhole ▸ List.mem_cons_self))
    · exact ih (fun b hb hmem => hending b hb (List.mem_cons_of_mem c hmem)) hbehind

/-- An ending that shares no byte with the value was there before. -/
theorem suffix_of_replaceFrom (hvalue : value ≠ []) {t ending : Text} {covered : Nat}
    (hending : ∀ b ∈ ending, b ∉ value) (h : ending <:+ replaceFrom name value covered t) :
    ending <:+ t := by
  induction t generalizing covered with
  | nil =>
    cases covered <;> exact h
  | cons c rest ih =>
    cases covered with
    | succ covered => exact (ih h).trans (List.suffix_cons c rest)
    | zero =>
      rw [replaceFrom] at h
      split at h
      · -- The ending lies behind the value, so behind the occurrence.
        have hbehind := suffix_of_suffix_append hending h
        exact (ih hbehind).trans (List.suffix_cons c rest)
      · rcases List.suffix_cons_iff.mp h with hwhole | hbehind
        · have hrest : replaceFrom name value 0 rest = rest := by
            apply replaceFrom_eq_self hvalue
            intro b hb
            exact hending b (hwhole ▸ List.mem_cons_of_mem c hb)
          have hsame : ending = c :: rest := hwhole.trans (congrArg (c :: ·) hrest)
          exact hsame ▸ List.suffix_rfl
        · exact (ih hbehind).trans (List.suffix_cons c rest)

/-- Where a name occurs, its value gets into the text. -/
theorem mem_replaceFrom (hname : name ≠ []) {t : Text} (h : name <:+: t) {b : UInt8}
    (hb : b ∈ value) : b ∈ replaceFrom name value 0 t := by
  induction t with
  | nil => exact absurd (List.infix_nil.mp h) hname
  | cons c rest ih =>
    rw [replaceFrom]
    split
    · exact List.mem_append_left _ hb
    · next hhere =>
      rcases List.infix_cons_iff.mp h with hprefix | hrest
      · exact absurd (List.isPrefixOf_iff_prefix.mpr hprefix) hhere
      · exact List.mem_cons_of_mem c (ih hrest)

/-- The bytes of the new text come from the value or were there before. -/
theorem mem_of_mem_replaceFrom {t : Text} {covered : Nat} {b : UInt8}
    (h : b ∈ replaceFrom name value covered t) : b ∈ value ∨ b ∈ t := by
  induction t generalizing covered with
  | nil => cases covered <;> exact absurd h List.not_mem_nil
  | cons c rest ih =>
    cases covered with
    | succ covered => exact (ih h).imp_right (List.mem_cons_of_mem c)
    | zero =>
      rw [replaceFrom] at h
      split at h
      · rcases List.mem_append.mp h with hvalue | hrest
        · exact .inl hvalue
        · exact (ih hrest).imp_right (List.mem_cons_of_mem c)
      · rcases List.mem_cons.mp h with rfl | hrest
        · exact .inr List.mem_cons_self
        · exact (ih hrest).imp_right (List.mem_cons_of_mem c)

/-- A byte that the name does not have stays, if it is not covered already. -/
theorem mem_replaceFrom_of_not_mem (hname : name ≠ []) {b : UInt8} (hb : b ∉ name) {t : Text}
    {covered : Nat} (hcovered : b ∉ t.take covered) (h : b ∈ t) :
    b ∈ replaceFrom name value covered t := by
  induction t generalizing covered with
  | nil => exact absurd h List.not_mem_nil
  | cons c rest ih =>
    cases covered with
    | succ covered =>
      rw [List.take_succ_cons, List.mem_cons, not_or] at hcovered
      exact ih hcovered.2 ((List.mem_cons.mp h).resolve_left hcovered.1)
    | zero =>
      rw [replaceFrom]
      split
      · next hhere =>
        -- The bytes that the occurrence covers are those of the name.
        obtain ⟨first, others, rfl⟩ := List.exists_cons_of_ne_nil hname
        obtain ⟨rfl, hprefix⟩ := List.cons_prefix_cons.mp (List.isPrefixOf_iff_prefix.mp hhere)
        rw [List.mem_cons, not_or] at hb
        have hlater : b ∉ rest.take others.length := by
          rw [← List.prefix_iff_eq_take.mp hprefix]
          exact hb.2
        exact List.mem_append_right _ (ih hlater ((List.mem_cons.mp h).resolve_left hb.1))
      · rcases List.mem_cons.mp h with rfl | hrest
        · exact List.mem_cons_self
        · exact List.mem_cons_of_mem c (ih List.not_mem_nil hrest)

/-- A start byte that the name does not have is passed over. -/
theorem replaceFrom_cons_of_not_mem (hname : name ≠ []) {b : UInt8} (hb : b ∉ name) (t : Text) :
    replaceFrom name value 0 (b :: t) = b :: replaceFrom name value 0 t := by
  have hhere : ¬ name.isPrefixOf (b :: t) = true := by
    intro hprefix
    obtain ⟨c, others, rfl⟩ := List.exists_cons_of_ne_nil hname
    have hsame := (List.cons_prefix_cons.mp (List.isPrefixOf_iff_prefix.mp hprefix)).1
    exact hb (hsame ▸ List.mem_cons_self)
  rw [replaceFrom, if_neg hhere]

/-- A start byte stays when the name does not have it. -/
theorem head?_replaceFrom (hname : name ≠ []) {t : Text} {b : UInt8} (hb : b ∉ name)
    (h : t.head? = some b) : (replaceFrom name value 0 t).head? = some b := by
  obtain ⟨rest, rfl⟩ := List.head?_eq_some_iff.mp h
  rw [replaceFrom_cons_of_not_mem hname hb, List.head?_cons]

/-- A start byte stays when the value begins with it as well. -/
theorem head?_replaceFrom_of_value {t : Text} {b : UInt8} (hvalue : value.head? = some b)
    (h : t.head? = some b) : (replaceFrom name value 0 t).head? = some b := by
  obtain ⟨rest, rfl⟩ := List.head?_eq_some_iff.mp h
  obtain ⟨others, rfl⟩ := List.head?_eq_some_iff.mp hvalue
  rw [replaceFrom]
  split <;> rfl

/-- A name without the byte that separates the last one does not reach over it. -/
theorem length_le_of_prefix_of_separated {front : Text} {separator last : UInt8}
    (hseparator : separator ∉ name) (h : name <+: front ++ [separator, last]) :
    name.length ≤ front.length := by
  rcases Nat.lt_or_ge front.length name.length with hlong | hle
  · have hat : name[front.length] = separator := by
      rw [h.getElem hlong]
      simp
    exact absurd (hat ▸ List.getElem_mem hlong) hseparator
  · exact hle

/-- A separated last byte stays when the name is neither this byte nor has the separator. -/
theorem separated_suffix_replaceFrom (hname : name ≠ []) {separator last : UInt8}
    (hseparator : separator ∉ name) (hlast : name ≠ [last]) {t : Text} {covered : Nat}
    (hcovered : covered + 2 ≤ t.length) (h : [separator, last] <:+ t) :
    [separator, last] <:+ replaceFrom name value covered t := by
  induction t generalizing covered with
  | nil => simp at hcovered
  | cons c rest ih =>
    rw [List.length_cons] at hcovered
    cases covered with
    | succ covered =>
      rcases List.suffix_cons_iff.mp h with hwhole | hbehind
      · have hlength := congrArg List.length hwhole
        simp only [List.length_cons, List.length_nil] at hlength
        omega
      · exact ih (by omega) hbehind
    | zero =>
      rw [replaceFrom]
      split
      · next hhere =>
        have hprefix := List.isPrefixOf_iff_prefix.mp hhere
        obtain ⟨front, hfront⟩ := h
        rw [← hfront] at hprefix
        -- The occurrence lies in front of the separator.
        have hbefore := length_le_of_prefix_of_separated hseparator hprefix
        have hpos := List.length_pos_iff.mpr hname
        have hlength := congrArg List.length hfront
        simp only [List.length_append, List.length_cons, List.length_nil] at hlength
        have hbehind : [separator, last] <:+ rest := by
          rcases List.suffix_cons_iff.mp ⟨front, hfront⟩ with hwhole | hbehind
          · have hshort := congrArg List.length hwhole
            simp only [List.length_cons, List.length_nil] at hshort
            omega
          · exact hbehind
        exact (ih (by omega) hbehind).trans (List.suffix_append _ _)
      · rcases List.suffix_cons_iff.mp h with hwhole | hbehind
        · obtain ⟨rfl, rfl⟩ := List.cons.inj hwhole
          have habsent : ¬ name <:+: [last] := by
            intro hpart
            have hle := hpart.length_le
            have hpos := List.length_pos_iff.mpr hname
            rw [List.length_singleton] at hle
            exact hlast (hpart.eq_of_length (by rw [List.length_singleton]; omega))
          have hkept := replaceFrom_of_absent value habsent
          exact hkept.symm ▸ List.suffix_rfl
        · have hlength := hbehind.length_le
          simp only [List.length_cons, List.length_nil] at hlength
          exact (ih (by omega) hbehind).trans (List.suffix_cons c _)

end ColumnAssembler.Text
