import ColumnAssembler.Text.Blank
import ColumnAssembler.Text.Glyph

/-!
# White space and the fields between it

The white space characters of Unicode are listed by their code points, and the test on bytes finds
exactly their encodings at the start of a text, whatever bytes follow. So a text falls into a first
field and the rest: the field is followed by white space or by nothing, and the fields of the rest
are the later fields.
-/

namespace ColumnAssembler

/-- The bytes of a range are counted from the first one on. -/
theorem Byte.exists_offset {low b : UInt8} {count : Nat} (hlow : low ≤ b)
    (hhigh : b.toNat < low.toNat + count) :
    ∃ offset : Fin count, b = UInt8.ofNat (low.toNat + offset) := by
  have hle : low.toNat ≤ b.toNat := UInt8.le_iff_toNat_le.mp hlow
  refine ⟨⟨b.toNat - low.toNat, by omega⟩, ?_⟩
  rw [Nat.add_sub_cancel' hle, UInt8.ofNat_toNat]

namespace Text

/-- The code points of the white space characters: the controls from the tab to the carriage return
and the space, next line, the no-break space, the ogham space, the spaces of typesetting, the line
and paragraph separators, the narrow no-break space, the mathematical and the ideographic space. -/
def whiteSpace : List Nat :=
  [0x09, 0x0A, 0x0B, 0x0C, 0x0D, 0x20, 0x85, 0xA0, 0x1680, 0x2000, 0x2001, 0x2002, 0x2003, 0x2004,
    0x2005, 0x2006, 0x2007, 0x2008, 0x2009, 0x200A, 0x2028, 0x2029, 0x202F, 0x205F, 0x3000]

/-- The text is one white space character in its encoding. -/
def IsBlank (c : Text) : Prop := c ∈ whiteSpace.map Glyph.encodeCode

instance : DecidablePred IsBlank :=
  fun c => inferInstanceAs (Decidable (c ∈ whiteSpace.map Glyph.encodeCode))

/-- White space characters one after the other. -/
inductive Gap : Text → Prop where
  /-- No character. -/
  | nil : Gap []
  /-- A character, then more. -/
  | cons {c rest : Text} (hc : IsBlank c) (hrest : Gap rest) : Gap (c ++ rest)

/-- Blanks are white space. -/
theorem gap_replicate_space (count : Nat) : Gap (List.replicate count Byte.space) := by
  induction count with
  | zero => exact .nil
  | succ count ih =>
    rw [List.replicate_succ]
    exact .cons (c := [Byte.space]) (by decide) ih

/-- White space may follow white space. -/
theorem Gap.append {gap rest : Text} (h : Gap gap) (hrest : Gap rest) : Gap (gap ++ rest) := by
  induction h with
  | nil => exact hrest
  | cons hc _ ih =>
    rw [List.append_assoc]
    exact .cons hc ih

/-- A text that is one white space character by itself is one in front of any other text. -/
theorem blankWidth_append_of_whole {c : Text} (hsome : c ≠ []) (h : blankWidth c = c.length)
    (rest : Text) : blankWidth (c ++ rest) = c.length := by
  match c with
  | [b] =>
    have hbyte : isBlankByte b = true := by simpa [blankWidth] using h
    match rest with
    | [] => exact h
    | [_] => simp [blankWidth, hbyte]
    | _ :: _ :: _ => simp [blankWidth, hbyte]
  | [b, d] =>
    match rest with
    | [] => exact h
    | e :: rest =>
      have hbyte : isBlankByte b = false := by
        apply eq_false_of_ne_true
        intro hone
        simp [blankWidth, hone] at h
      have hpair : isBlankPair b d = true := by simpa [blankWidth, hbyte] using h
      simp [blankWidth, hbyte, hpair]
  | [b, d, e] => exact h
  | b :: d :: e :: g :: more =>
    -- No white space character has four bytes.
    have hbound : blankWidth (b :: d :: e :: g :: more) ≤ 3 := by
      rw [blankWidth]
      split
      · decide
      · split
        · decide
        · split <;> decide
    rw [h] at hbound
    simp only [List.length_cons] at hbound
    omega

/-- The encoding of a white space character is found in front of any text. -/
theorem IsBlank.blankWidth_append {c : Text} (h : IsBlank c) (rest : Text) :
    blankWidth (c ++ rest) = c.length := by
  have hwhole : ∀ c ∈ whiteSpace.map Glyph.encodeCode, c ≠ [] ∧ blankWidth c = c.length := by
    decide
  exact blankWidth_append_of_whole (hwhole c h).1 (hwhole c h).2 rest

/-- The encoding of a character has bytes. -/
theorem IsBlank.length_pos {c : Text} (h : IsBlank c) : 0 < c.length := by
  have hsome : ∀ c ∈ whiteSpace.map Glyph.encodeCode, 0 < c.length := by decide
  exact hsome c h

/-- The bytes taken for white space are its characters of one byte. -/
theorem isBlank_of_isBlankByte {b : UInt8} (h : isBlankByte b = true) : IsBlank [b] := by
  simp only [isBlankByte, Bool.or_eq_true, Bool.and_eq_true, decide_eq_true_eq, beq_iff_eq] at h
  rcases h with ⟨hlow, hhigh⟩ | rfl
  · have hbound : b.toNat < (0x09 : UInt8).toNat + 5 :=
      Nat.lt_succ_of_le (UInt8.le_iff_toNat_le.mp hhigh)
    obtain ⟨offset, rfl⟩ := Byte.exists_offset hlow hbound
    have hcontrols : ∀ k : Fin 5, IsBlank [UInt8.ofNat ((0x09 : UInt8).toNat + k)] := by decide
    exact hcontrols offset
  · decide

/-- The pairs taken for white space are its characters of two bytes. -/
theorem isBlank_of_isBlankPair {b c : UInt8} (h : isBlankPair b c = true) : IsBlank [b, c] := by
  simp only [isBlankPair, Bool.or_eq_true, Bool.and_eq_true, beq_iff_eq] at h
  obtain ⟨rfl, rfl | rfl⟩ := h
  · decide
  · decide

/-- The triples taken for white space are its characters of three bytes. -/
theorem isBlank_of_isBlankTriple {b c d : UInt8} (h : isBlankTriple b c d = true) :
    IsBlank [b, c, d] := by
  simp only [isBlankTriple, Bool.or_eq_true, Bool.and_eq_true, decide_eq_true_eq, beq_iff_eq] at h
  rcases h with ((⟨⟨rfl, rfl⟩, rfl⟩ | ⟨⟨rfl, rfl⟩, htypeset⟩) | ⟨⟨rfl, rfl⟩, rfl⟩) |
    ⟨⟨rfl, rfl⟩, rfl⟩
  · decide
  · rcases htypeset with ((⟨hlow, hhigh⟩ | rfl) | rfl) | rfl
    · have hbound : d.toNat < (0x80 : UInt8).toNat + 11 :=
        Nat.lt_succ_of_le (UInt8.le_iff_toNat_le.mp hhigh)
      obtain ⟨offset, rfl⟩ := Byte.exists_offset hlow hbound
      have hspaces : ∀ k : Fin 11,
          IsBlank [0xE2, 0x80, UInt8.ofNat ((0x80 : UInt8).toNat + k)] := by decide
      exact hspaces offset
    · decide
    · decide
    · decide
  · decide
  · decide

/-- Where white space is found, the text starts with the encoding of one of its characters. -/
theorem exists_isBlank_of_blankWidth {t : Text} (h : blankWidth t ≠ 0) :
    ∃ c rest, IsBlank c ∧ t = c ++ rest := by
  match t with
  | [] => exact absurd rfl h
  | [b] =>
    rw [blankWidth] at h
    split at h
    · next hbyte => exact ⟨[b], [], isBlank_of_isBlankByte hbyte, rfl⟩
    · exact absurd rfl h
  | [b, c] =>
    rw [blankWidth] at h
    split at h
    · next hbyte => exact ⟨[b], [c], isBlank_of_isBlankByte hbyte, rfl⟩
    · split at h
      · next hpair => exact ⟨[b, c], [], isBlank_of_isBlankPair hpair, rfl⟩
      · exact absurd rfl h
  | b :: c :: d :: rest =>
    rw [blankWidth] at h
    split at h
    · next hbyte => exact ⟨[b], c :: d :: rest, isBlank_of_isBlankByte hbyte, rfl⟩
    · split at h
      · next hpair => exact ⟨[b, c], d :: rest, isBlank_of_isBlankPair hpair, rfl⟩
      · split at h
        · next htriple => exact ⟨[b, c, d], rest, isBlank_of_isBlankTriple htriple, rfl⟩
        · exact absurd rfl h

/-- No white space begins with a visible byte. -/
theorem blankWidth_visible {b : UInt8} (hlow : 0x20 < b) (hhigh : b < 0x80) (rest : Text) :
    blankWidth (b :: rest) = 0 := by
  apply Classical.byContradiction
  intro hfound
  obtain ⟨c, behind, hc, htext⟩ := exists_isBlank_of_blankWidth hfound
  have hheads : ∀ c ∈ whiteSpace.map Glyph.encodeCode,
      ¬ (0x20 < c.headD 0 ∧ c.headD 0 < 0x80) := by decide
  have hhead := hheads c hc
  have hpos := hc.length_pos
  cases c with
  | nil => exact absurd hpos (Nat.lt_irrefl 0)
  | cons head tail =>
    rw [List.cons_append, List.cons.injEq] at htext
    rw [List.headD_cons, ← htext.1] at hhead
    exact hhead ⟨hlow, hhigh⟩

/-- The bytes of a white space character are passed over. -/
theorem fieldsFrom_covered (covered collected rest : Text) :
    fieldsFrom covered.length collected (covered ++ rest) = fieldsFrom 0 collected rest := by
  induction covered with
  | nil => rfl
  | cons b covered ih => rw [List.length_cons, List.cons_append, fieldsFrom, ih]

/-- White space closes the field under way. -/
theorem IsBlank.fieldsFrom_append {c : Text} (h : IsBlank c) (collected rest : Text) :
    fieldsFrom 0 collected (c ++ rest) = closeField collected (fields rest) := by
  have hwidth := h.blankWidth_append rest
  have hpos := h.length_pos
  cases c with
  | nil => exact absurd hpos (Nat.lt_irrefl 0)
  | cons b c =>
    rw [List.cons_append, List.length_cons] at hwidth
    rw [List.cons_append, fieldsFrom, hwidth]
    dsimp only
    rw [fieldsFrom_covered, fields]

/-- White space in front of a text does not change its fields. -/
theorem IsBlank.fields_append {c : Text} (h : IsBlank c) (rest : Text) :
    fields (c ++ rest) = fields rest := h.fieldsFrom_append [] rest

/-- Behind the field under way there is none in white space. -/
theorem Gap.fieldsFrom {gap : Text} (h : Gap gap) (collected : Text) :
    fieldsFrom 0 collected gap = closeField collected [] := by
  induction h generalizing collected with
  | nil => rfl
  | cons hc _ ih =>
    have hnone : fields _ = [] := ih []
    rw [hc.fieldsFrom_append, hnone]

/-- Visible bytes go to the field under way. -/
theorem fieldsFrom_visible {word : Text} (h : ∀ b ∈ word, 0x20 < b ∧ b < 0x80)
    (collected rest : Text) :
    Text.fieldsFrom 0 collected (word ++ rest) =
      Text.fieldsFrom 0 (word.reverse ++ collected) rest := by
  induction word generalizing collected with
  | nil => rfl
  | cons b word ih =>
    obtain ⟨hlow, hhigh⟩ := h b List.mem_cons_self
    rw [List.cons_append, Text.fieldsFrom, blankWidth_visible hlow hhigh]
    dsimp only
    rw [ih fun c hc => h c (List.mem_cons_of_mem _ hc), List.reverse_cons, List.append_assoc]
    rfl

/-- The field under way ends at the first white space or with the text, and the later fields are
those of the rest. -/
theorem fieldsFrom_cases (collected t : Text) :
    ∃ word rest, t = word ++ rest ∧ (rest = [] ∨ ∃ c behind, IsBlank c ∧ rest = c ++ behind) ∧
      fieldsFrom 0 collected t = closeField (word.reverse ++ collected) (fields rest) := by
  induction t generalizing collected with
  | nil => exact ⟨[], [], rfl, .inl rfl, rfl⟩
  | cons b t ih =>
    by_cases hwidth : blankWidth (b :: t) = 0
    · obtain ⟨word, rest, rfl, hrest, hfields⟩ := ih (b :: collected)
      refine ⟨b :: word, rest, rfl, hrest, ?_⟩
      rw [Text.fieldsFrom, hwidth]
      dsimp only
      rw [hfields, List.reverse_cons, List.append_assoc]
      rfl
    · obtain ⟨c, behind, hc, htext⟩ := exists_isBlank_of_blankWidth hwidth
      refine ⟨[], b :: t, rfl, .inr ⟨c, behind, hc, htext⟩, ?_⟩
      rw [htext, hc.fieldsFrom_append, hc.fields_append]
      rfl

end Text

end ColumnAssembler
