import ColumnAssembler.Proofs.ObjectText
import ColumnAssembler.Proofs.SecondPass
import ColumnAssembler.Proofs.SourceText
import ColumnAssembler.Proofs.WhiteSpace

/-!
# Fixed columns of ASCII lines

In a line of ASCII a byte is a character, so padding, upper case and cutting count alike: a line
that is made of three columns and a comment is cut at the same places. The text that is kept of a
line is its normal form. It is read as the same line again, though it may have lost the blanks at
its end, and so the texts kept of a program assemble to the program.
-/

namespace ColumnAssembler

namespace Byte

/-- The capital of a small letter of ASCII; every other byte is its own. -/
def capital (b : UInt8) : UInt8 := if 0x61 ≤ b ∧ b ≤ 0x7A then b - 0x20 else b

/-- A byte is its own capital, unless it is a small letter. -/
theorem capital_cases (b : UInt8) :
    (capital b = b ∧ ¬ (0x61 ≤ b.toNat ∧ b.toNat ≤ 0x7A)) ∨
      (0x61 ≤ b.toNat ∧ b.toNat ≤ 0x7A ∧ (capital b).toNat + 0x20 = b.toNat) := by
  have hbounds : (0x61 ≤ b ∧ b ≤ 0x7A) ↔ (0x61 ≤ b.toNat ∧ b.toNat ≤ 0x7A) :=
    and_congr UInt8.le_iff_toNat_le UInt8.le_iff_toNat_le
  by_cases hsmall : 0x61 ≤ b ∧ b ≤ 0x7A
  · right
    obtain ⟨hlow, hhigh⟩ := hbounds.mp hsmall
    have hle : (0x20 : UInt8) ≤ b := UInt8.le_iff_toNat_le.mpr (Nat.le_trans (by decide) hlow)
    have hvalue : (b - 0x20).toNat = b.toNat - 0x20 := UInt8.toNat_sub_of_le b 0x20 hle
    refine ⟨hlow, hhigh, ?_⟩
    rw [capital, if_pos hsmall, hvalue]
    omega
  · left
    exact ⟨if_neg hsmall, fun h => hsmall (hbounds.mpr h)⟩

/-- A byte that is no capital letter is the capital of nothing else. -/
theorem eq_of_capital_eq {b c : UInt8} (h : capital b = c) (hc : c.toNat < 0x41 ∨ 0x5A < c.toNat) :
    b = c := by
  rcases capital_cases b with ⟨hsame, _⟩ | ⟨hlow, hhigh, hvalue⟩
  · exact hsame.symm.trans h
  · rw [h] at hvalue
    omega

/-- A capital is its own capital. -/
theorem capital_capital (b : UInt8) : capital (capital b) = capital b := by
  rcases capital_cases b with ⟨hsame, _⟩ | ⟨hlow, hhigh, hvalue⟩
  · rw [hsame, hsame]
  · rcases capital_cases (capital b) with ⟨hsame, _⟩ | ⟨hlow', hhigh', _⟩
    · exact hsame
    · omega

/-- The capital of a byte of ASCII is in ASCII. -/
theorem capital_lt {b : UInt8} (h : b < 0x80) : capital b < 0x80 := by
  have hb : b.toNat < 0x80 := UInt8.lt_iff_toNat_lt.mp h
  rw [UInt8.lt_iff_toNat_lt]
  rcases capital_cases b with ⟨hsame, _⟩ | ⟨_, _, hvalue⟩
  · rw [hsame]
    exact hb
  · exact Nat.lt_of_le_of_lt (Nat.le_of_add_right_le (Nat.le_of_eq hvalue)) hb

/-- A byte of ASCII is none outside it. -/
theorem beq_eq_false_of_ascii {b c : UInt8} (hb : b < 0x80) (hc : 0x80 ≤ c) : (b == c) = false := by
  rw [beq_eq_false_iff_ne]
  rintro rfl
  exact absurd hb (UInt8.not_lt.mpr hc)

/-- A byte with white space for its capital is white space. -/
theorem isBlankByte_of_capital {b : UInt8} (h : Text.isBlankByte (capital b) = true) :
    Text.isBlankByte b = true := by
  have hlow : (capital b).toNat < 0x41 := by
    simp only [Text.isBlankByte, Bool.or_eq_true, Bool.and_eq_true, decide_eq_true_eq,
      beq_iff_eq] at h
    rcases h with ⟨_, hhigh⟩ | hspace
    · exact Nat.lt_of_le_of_lt (UInt8.le_iff_toNat_le.mp hhigh) (by decide)
    · rw [hspace]
      decide
  rw [eq_of_capital_eq rfl (.inl hlow)]
  exact h

end Byte

namespace Text

/-- The text is one line of ASCII: no carriage return or line feed stands in it. -/
def isLine (t : Text) : Bool :=
  t.all fun b => b < 0x80 && b != Byte.carriageReturn && b != Byte.lineFeed

/-- The bytes of a line of ASCII. -/
theorem isLine_iff {t : Text} : t.isLine = true ↔
    ∀ b ∈ t, b < 0x80 ∧ b ≠ Byte.carriageReturn ∧ b ≠ Byte.lineFeed := by
  simp only [isLine, List.all_eq_true, Bool.and_eq_true, decide_eq_true_eq, bne_iff_ne, and_assoc]

/-- A line of ASCII has bytes of ASCII only. -/
theorem ascii_of_isLine {t : Text} (h : t.isLine = true) : ∀ b ∈ t, b < 0x80 :=
  fun b hb => (isLine_iff.mp h b hb).1

/-- The upper case of ASCII is the capital of each byte. -/
theorem upper_of_ascii {t : Text} (h : ∀ b ∈ t, b < 0x80) : upper t = t.map Byte.capital := by
  have hbyte : ∀ b ∈ t, upperGlyph (.scalar b.toNat) = [Byte.capital b] := by
    intro b hb
    have hascii : b.toNat < 0x80 := UInt8.lt_iff_toNat_lt.mp (h b hb)
    have hcapital : upperCode b.toNat = (Byte.capital b).toNat := by
      rw [upperCode, if_pos hascii]
      rcases Byte.capital_cases b with ⟨hsame, hother⟩ | ⟨hlow, hhigh, hvalue⟩
      · rw [if_neg (by simpa using hother), hsame]
      · rw [if_pos (by simp [hlow, hhigh])]
        omega
    have hless : (Byte.capital b).toNat < 0x80 :=
      UInt8.lt_iff_toNat_lt.mp (Byte.capital_lt (h b hb))
    rw [upperGlyph, hcapital, Glyph.encodeCode, if_pos hless, Nat.toUInt8_eq, UInt8.ofNat_toNat]
  rw [upper, glyphs_of_ascii h, List.flatMap_map, List.map_eq_flatMap]
  exact List.flatMap_congr hbyte

/-- Nothing is cut off a line that ends otherwise. -/
theorem withoutEnd_of_not_mem {d : UInt8} {t : Text} (h : d ∉ t) : withoutEnd [d] t = t := by
  rw [withoutEnd, if_neg]
  intro hend
  exact h ((List.isSuffixOf_iff_suffix.mp hend).mem List.mem_cons_self)

/-- No white space begins with a byte of ASCII but the white space of one byte. -/
theorem blankWidth_of_ascii {b : UInt8} (hascii : b < 0x80) (hblank : isBlankByte b = false)
    (rest : Text) : blankWidth (b :: rest) = 0 := by
  have hlead : ∀ c : UInt8, 0x80 ≤ c → (b == c) = false :=
    fun _ => Byte.beq_eq_false_of_ascii hascii
  have hpair : ∀ c, isBlankPair b c = false := by
    intro c
    rw [isBlankPair, hlead 0xC2 (by decide), Bool.false_and]
  have htriple : ∀ c d, isBlankTriple b c d = false := by
    intro c d
    simp only [isBlankTriple, hlead 0xE1 (by decide), hlead 0xE2 (by decide),
      hlead 0xE3 (by decide), Bool.false_and, Bool.or_self]
  rcases rest with _ | ⟨c, _ | ⟨d, others⟩⟩
  · simp [blankWidth, hblank]
  · simp [blankWidth, hblank, hpair]
  · simp [blankWidth, hblank, hpair, htriple]

/-- No white space ends with a byte of ASCII but the white space of one byte. -/
theorem blankWidthBack_of_ascii {b : UInt8} (hascii : b < 0x80) (hblank : isBlankByte b = false)
    (rest : Text) : blankWidthBack (b :: rest) = 0 := by
  have hlast : ∀ c : UInt8, 0x80 ≤ c → (b == c) = false :=
    fun _ => Byte.beq_eq_false_of_ascii hascii
  have hrange : decide ((0x80 : UInt8) ≤ b) = false := by
    rw [decide_eq_false_iff_not]
    exact UInt8.not_le.mpr hascii
  have hpair : ∀ c, isBlankPair c b = false := by
    intro c
    rw [isBlankPair, hlast 0x85 (by decide), hlast 0xA0 (by decide), Bool.or_self, Bool.and_false]
  have htriple : ∀ c d, isBlankTriple c d b = false := by
    intro c d
    simp only [isBlankTriple, hlast 0x80 (by decide), hlast 0xA8 (by decide),
      hlast 0xA9 (by decide), hlast 0xAF (by decide), hlast 0x9F (by decide), hrange,
      Bool.false_and, Bool.and_false, Bool.or_self]
  rcases rest with _ | ⟨c, _ | ⟨d, others⟩⟩
  · simp [blankWidthBack, hblank]
  · simp [blankWidthBack, hblank, hpair]
  · simp [blankWidthBack, hblank, hpair, htriple]

/-- The byte is in ASCII and no white space. -/
def IsInk (b : UInt8) : Prop := b < 0x80 ∧ isBlankByte b = false

/-- A blank at the end is white space of one byte. -/
theorem blankWidthBack_space (rest : Text) : blankWidthBack (Byte.space :: rest) = 1 := by
  rcases rest with _ | ⟨c, _ | ⟨d, others⟩⟩ <;> rfl

/-- Blanks in front are dropped as white space. -/
theorem dropMeasured_blanks {measure : Text → Nat}
    (h : ∀ rest, measure (Byte.space :: rest) = 1) (count : Nat) (t : Text) :
    dropMeasured measure 0 (List.replicate count Byte.space ++ t) = dropMeasured measure 0 t := by
  induction count with
  | zero => rfl
  | succ count ih =>
    rw [List.replicate_succ, List.cons_append, dropMeasured, h]
    exact ih

/-- A text that starts with no white space stays as it is. -/
theorem dropMeasured_of_ink {measure : Text → Nat} {t : Text}
    (h : ∀ b rest, t = b :: rest → measure (b :: rest) = 0) : dropMeasured measure 0 t = t := by
  cases t with
  | nil => rfl
  | cons b rest => rw [dropMeasured, h b rest rfl]

/-- Of a text with blanks behind it the text is left, if it has no white space at its ends. -/
theorem trim_append_blanks {t : Text} (hfirst : ∀ b ∈ t.head?, IsInk b)
    (hlast : ∀ b ∈ t.getLast?, IsInk b) (count : Nat) :
    trim (t ++ List.replicate count Byte.space) = t := by
  cases t with
  | nil =>
    have hstart : trimStart (List.replicate count Byte.space) = [] := by
      have hdropped := dropMeasured_blanks blankWidth_space count []
      rwa [List.append_nil] at hdropped
    rw [List.nil_append, trim, hstart]
    rfl
  | cons b rest =>
    have hink := hfirst b rfl
    have hstart : trimStart (b :: rest ++ List.replicate count Byte.space) =
        b :: rest ++ List.replicate count Byte.space := by
      apply dropMeasured_of_ink
      intro c others hcons
      obtain ⟨rfl, _⟩ := List.cons.inj hcons
      exact blankWidth_of_ascii hink.1 hink.2 others
    have hback : dropMeasured blankWidthBack 0 (b :: rest).reverse = (b :: rest).reverse := by
      apply dropMeasured_of_ink
      intro c others hcons
      have hend : (b :: rest).getLast? = some c := by
        rw [← List.head?_reverse, hcons, List.head?_cons]
      have hink := hlast c hend
      exact blankWidthBack_of_ascii hink.1 hink.2 others
    rw [trim, hstart, trimEnd, List.reverse_append, List.reverse_replicate,
      dropMeasured_blanks blankWidthBack_space, hback, List.reverse_reverse]

/-- The text is a line of ASCII, has no more bytes than the width, and neither starts nor ends with
white space. -/
def isColumn (width : Nat) (t : Text) : Bool :=
  t.isLine && t.length ≤ width && whiteSpace.all fun code =>
    !(Glyph.encodeCode code).isPrefixOf t && !(Glyph.encodeCode code).isSuffixOf t

/-- The text with blanks behind it up to the given number of bytes. -/
def column (width : Nat) (t : Text) : Text := t ++ List.replicate (width - t.length) Byte.space

/-- A text is only made longer by its blanks. -/
theorem length_column_eq (width : Nat) (t : Text) :
    (t.column width).length = max width t.length := by
  rw [column, List.length_append, List.length_replicate]
  omega

/-- The text of a column is a line. -/
theorem isLine_of_isColumn {width : Nat} {t : Text} (h : t.isColumn width = true) :
    t.isLine = true := by
  rw [isColumn, Bool.and_eq_true, Bool.and_eq_true] at h
  exact h.1.1

/-- The ends of a column are no white space. -/
theorem ink_of_isColumn {width : Nat} {t : Text} (h : t.isColumn width = true) :
    (∀ b ∈ t.head?, IsInk b) ∧ ∀ b ∈ t.getLast?, IsInk b := by
  rw [isColumn, Bool.and_eq_true, Bool.and_eq_true, List.all_eq_true] at h
  obtain ⟨⟨hline, _⟩, hends⟩ := h
  have hvisible : ∀ b ∈ t, ([b] <+: t ∨ [b] <:+ t) → IsInk b := by
    intro b hb hend
    refine ⟨ascii_of_isLine hline b hb, eq_false_of_ne_true fun hblank => ?_⟩
    obtain ⟨code, hcode, hencode⟩ := List.mem_map.mp (isBlank_of_isBlankByte hblank)
    have hneither := hends code hcode
    rw [hencode, Bool.and_eq_true, Bool.not_eq_true', Bool.not_eq_true'] at hneither
    rcases hend with hprefix | hsuffix
    · rw [List.isPrefixOf_iff_prefix.mpr hprefix] at hneither
      exact absurd hneither.1 (by decide)
    · rw [List.isSuffixOf_iff_suffix.mpr hsuffix] at hneither
      exact absurd hneither.2 (by decide)
  constructor
  · intro b hb
    obtain ⟨rest, rfl⟩ := List.head?_eq_some_iff.mp hb
    exact hvisible b List.mem_cons_self (.inl ⟨rest, rfl⟩)
  · intro b hb
    obtain ⟨front, rfl⟩ := List.getLast?_eq_some_iff.mp hb
    exact hvisible b (List.mem_append_right _ List.mem_cons_self) (.inr ⟨front, rfl⟩)

/-- A column has its width. -/
theorem length_column {width : Nat} {t : Text} (h : t.isColumn width = true) :
    (t.column width).length = width := by
  rw [isColumn, Bool.and_eq_true, Bool.and_eq_true, decide_eq_true_eq] at h
  rw [length_column_eq]
  exact Nat.max_eq_left h.1.2

/-- A column in upper case is trimmed to its text in upper case. -/
theorem trim_column {width : Nat} {t : Text} (h : t.isColumn width = true) :
    trim ((t.column width).map Byte.capital) = t.map Byte.capital := by
  have hcapital : ∀ b, IsInk b → IsInk (Byte.capital b) := by
    intro b hb
    refine ⟨Byte.capital_lt hb.1, eq_false_of_ne_true fun hblank => ?_⟩
    exact absurd (Byte.isBlankByte_of_capital hblank) (by simp [hb.2])
  obtain ⟨hfirst, hlast⟩ := ink_of_isColumn h
  rw [column, List.map_append, List.map_replicate]
  refine trim_append_blanks ?_ ?_ _
  · intro c hc
    rw [List.head?_map] at hc
    obtain ⟨b, hb, rfl⟩ := Option.map_eq_some_iff.mp hc
    exact hcapital b (hfirst b hb)
  · intro c hc
    rw [List.getLast?_map] at hc
    obtain ⟨b, hb, rfl⟩ := Option.map_eq_some_iff.mp hc
    exact hcapital b (hlast b hb)

/-- A text of ASCII is padded to a number of bytes. -/
theorem padRight_of_ascii {t : Text} (h : ∀ b ∈ t, b < 0x80) (width : Nat) :
    t.padRight width = t.column width := by
  rw [padRight, length_glyphs_of_ascii h, column]

/-- A text is what is left of it and the blanks at its end. -/
theorem eq_withoutTrailingSpaces_append (t : Text) :
    ∃ count, t = t.withoutTrailingSpaces ++ List.replicate count Byte.space := by
  have hblank : ∀ b ∈ t.rtakeWhile fun c => decide (c = Byte.space), b = Byte.space := by
    intro b hb
    have hspace := List.mem_rtakeWhile_imp hb
    exact of_decide_eq_true hspace
  have hsplit : t.rdropWhile (fun c => decide (c = Byte.space)) ++
      t.rtakeWhile (fun c => decide (c = Byte.space)) = t := List.rdropWhile_append_rtakeWhile
  rw [List.eq_replicate_of_mem hblank] at hsplit
  exact ⟨_, hsplit.symm⟩

/-- Two texts are lines if they are one. -/
theorem isLine_append (s t : Text) : isLine (s ++ t) = (s.isLine && t.isLine) := List.all_append

/-- A line without the blanks at its end is a line. -/
theorem isLine_withoutTrailingSpaces {t : Text} (h : t.isLine = true) :
    t.withoutTrailingSpaces.isLine = true := by
  obtain ⟨count, hblanks⟩ := eq_withoutTrailingSpaces_append t
  rw [hblanks, isLine_append, Bool.and_eq_true] at h
  exact h.1

/-- Blanks behind a line are part of the line. -/
theorem isLine_column {t : Text} (h : t.isLine = true) (width : Nat) :
    (t.column width).isLine = true := by
  have hblanks : isLine (List.replicate (width - t.length) Byte.space) = true := by
    rw [isLine_iff]
    intro b hb
    rw [List.eq_of_mem_replicate hb]
    decide
  rw [column, isLine_append, h, hblanks, Bool.and_self]

end Text

namespace SourceLine

/-- The line of three columns and a comment. -/
def compose (label mnemonic operand comment : Text) : Text :=
  label.column 8 ++ mnemonic.column 5 ++ operand.column 11 ++ comment

/-- Nothing is cut off the end of a line of ASCII. -/
theorem withoutLineEnd_of_isLine {line : Text} (h : line.isLine = true) :
    withoutLineEnd line = line := by
  have hbytes := Text.isLine_iff.mp h
  rw [withoutLineEnd, Text.withoutEnd_of_not_mem fun hmem => (hbytes _ hmem).2.2 rfl,
    Text.withoutEnd_of_not_mem fun hmem => (hbytes _ hmem).2.1 rfl]

/-- A line of ASCII has its first bytes in capitals in its normal form. -/
theorem normalize_of_isLine {line : Text} (h : line.isLine = true) :
    normalize line = ((line.column 63).take 24).map Byte.capital ++ (line.column 63).drop 24 := by
  have hascii : ∀ b ∈ (line.column 63).take 24, b < 0x80 := fun b hb =>
    Text.ascii_of_isLine (Text.isLine_column h 63) b (List.mem_of_mem_take hb)
  rw [normalize, Text.padRight_of_ascii (Text.ascii_of_isLine h)]
  exact congrArg (· ++ _) (Text.upper_of_ascii hascii)

/-- A line of ASCII that is short enough is read. -/
theorem parse_of_isLine (number : Int) {line : Text} (h : line.isLine = true)
    (hlength : line.length ≤ 64) :
    parse number line = .ok (ofNormalized number (normalize line)) := by
  rw [parse, withoutLineEnd_of_isLine h]
  exact if_neg (Nat.not_lt.mpr hlength)

/-- A line is cut where its columns end. -/
theorem ofNormalized_columns (number : Int) {label mnemonic operand : Text}
    (hlabel : label.length = 8) (hmnemonic : mnemonic.length = 5) (hoperand : operand.length = 11)
    (rest : Text) :
    ofNormalized number (label ++ mnemonic ++ operand ++ rest) =
      ⟨number, Text.withoutTrailingSpaces (label ++ mnemonic ++ operand ++ rest),
        label.trim, mnemonic.trim, operand.trim⟩ := by
  have hfirst : (label ++ mnemonic ++ operand ++ rest).take 8 = label := by
    rw [List.append_assoc, List.append_assoc, ← hlabel, List.take_left]
  have hfront : (label ++ mnemonic ++ operand ++ rest).take 13 = label ++ mnemonic := by
    have hlength : 13 = (label ++ mnemonic).length := by simp [hlabel, hmnemonic]
    rw [List.append_assoc, hlength, List.take_left]
  have hcolumns : (label ++ mnemonic ++ operand ++ rest).take 24 =
      label ++ mnemonic ++ operand := by
    have hlength : 24 = (label ++ mnemonic ++ operand).length := by
      simp [hlabel, hmnemonic, hoperand]
    rw [hlength, List.take_left]
  have hsecond : (label ++ mnemonic).drop 8 = mnemonic := by rw [← hlabel, List.drop_left]
  have hthird : (label ++ mnemonic ++ operand).drop 13 = operand := by
    have hlength : 13 = (label ++ mnemonic).length := by simp [hlabel, hmnemonic]
    rw [hlength, List.drop_left]
  simp only [ofNormalized, labelEnd, mnemonicEnd, operandEnd, hfirst, hfront, hcolumns, hsecond,
    hthird]

/-- A line that is made of columns is a line. -/
theorem isLine_compose {label mnemonic operand comment : Text}
    (hlabel : label.isColumn 8 = true) (hmnemonic : mnemonic.isColumn 5 = true)
    (hoperand : operand.isColumn 11 = true) (hcomment : comment.isLine = true) :
    (compose label mnemonic operand comment).isLine = true := by
  rw [compose, Text.isLine_append, Text.isLine_append, Text.isLine_append,
    Text.isLine_column (Text.isLine_of_isColumn hlabel),
    Text.isLine_column (Text.isLine_of_isColumn hmnemonic),
    Text.isLine_column (Text.isLine_of_isColumn hoperand), hcomment]
  rfl

/-- A line that is made of columns is read as these columns in upper case, whatever the comment. -/
theorem parse_compose (number : Int) {label mnemonic operand comment : Text}
    (hlabel : label.isColumn 8 = true) (hmnemonic : mnemonic.isColumn 5 = true)
    (hoperand : operand.isColumn 11 = true) (hcomment : comment.isLine = true)
    (hlength : (compose label mnemonic operand comment).length ≤ 64) :
    parse number (compose label mnemonic operand comment) =
      .ok ⟨number, Text.withoutTrailingSpaces
          (((compose label mnemonic operand comment).take 24).map Byte.capital ++ comment),
        label.map Byte.capital, mnemonic.map Byte.capital, operand.map Byte.capital⟩ := by
  have hwidth : (label.column 8 ++ mnemonic.column 5 ++ operand.column 11).length = 24 := by
    simp [Text.length_column hlabel, Text.length_column hmnemonic, Text.length_column hoperand]
  have hline := isLine_compose hlabel hmnemonic hoperand hcomment
  -- The comment and the blanks behind it start at the byte where the columns end.
  have hpadded : ∃ count, (compose label mnemonic operand comment).column 63 =
      label.column 8 ++ mnemonic.column 5 ++ operand.column 11 ++
        (comment ++ List.replicate count Byte.space) :=
    ⟨_, by rw [Text.column, compose, List.append_assoc]⟩
  obtain ⟨count, hpadded⟩ := hpadded
  have hfirst : (compose label mnemonic operand comment).take 24 =
      label.column 8 ++ mnemonic.column 5 ++ operand.column 11 := by
    rw [compose, ← hwidth, List.take_left]
  rw [parse_of_isLine number hline hlength, normalize_of_isLine hline, hpadded, hfirst, ← hwidth,
    List.take_left, List.drop_left, List.map_append, List.map_append,
    ofNormalized_columns number (by rw [List.length_map, Text.length_column hlabel])
      (by rw [List.length_map, Text.length_column hmnemonic])
      (by rw [List.length_map, Text.length_column hoperand]),
    Text.trim_column hlabel, Text.trim_column hmnemonic, Text.trim_column hoperand,
    ← List.append_assoc, Text.withoutTrailingSpaces_append_blanks]

/-- Blanks behind a normalized line are not seen. -/
theorem ofNormalized_append_blanks (number : Int) {line : Text} (h : 24 ≤ line.length)
    (count : Nat) :
    ofNormalized number (line ++ List.replicate count Byte.space) = ofNormalized number line := by
  have htake : ∀ n ≤ 24, (line ++ List.replicate count Byte.space).take n = line.take n :=
    fun n hn => List.take_append_of_le_length (Nat.le_trans hn h)
  simp only [ofNormalized, Text.withoutTrailingSpaces_append_blanks, labelEnd, mnemonicEnd,
    operandEnd, htake 8 (by decide), htake 13 (by decide), htake 24 (by decide)]

/-- The normal form of a line of ASCII is one. -/
theorem isLine_normalize {line : Text} (h : line.isLine = true) :
    (normalize line).isLine = true := by
  have hpadded := Text.isLine_iff.mp (Text.isLine_column h 63)
  rw [normalize_of_isLine h, Text.isLine_iff]
  intro b hb
  rcases List.mem_append.mp hb with hcolumns | hcomment
  · obtain ⟨c, hc, rfl⟩ := List.mem_map.mp hcolumns
    obtain ⟨hascii, hreturn, hfeed⟩ := hpadded c (List.mem_of_mem_take hc)
    exact ⟨Byte.capital_lt hascii,
      fun hsame => hreturn (Byte.eq_of_capital_eq hsame (.inl (by decide))),
      fun hsame => hfeed (Byte.eq_of_capital_eq hsame (.inl (by decide)))⟩
  · exact hpadded b (List.mem_of_mem_drop hcomment)

/-- The normal form of a line of ASCII has the length of the padded line. -/
theorem length_normalize {line : Text} (h : line.isLine = true) :
    (normalize line).length = max 63 line.length := by
  rw [normalize_of_isLine h, List.length_append, List.length_map, List.length_take,
    List.length_drop, Text.length_column_eq]
  omega

/-- The columns of a normal form are in capitals. -/
theorem map_capital_take_normalize {line : Text} (h : line.isLine = true) :
    ((normalize line).take 24).map Byte.capital = (normalize line).take 24 := by
  have hwidth : (((line.column 63).take 24).map Byte.capital).length = 24 := by
    rw [List.length_map, List.length_take, Text.length_column_eq]
    omega
  have htake : (normalize line).take 24 = ((line.column 63).take 24).map Byte.capital := by
    rw [normalize_of_isLine h]
    exact List.take_left' hwidth
  rw [htake, List.map_map]
  exact congrArg (List.map · _) (funext Byte.capital_capital)

/-- A normal form is what is kept of it, padded again, and blanks. -/
theorem normalize_eq_column_append {line : Text} (h : line.isLine = true) :
    ∃ count, normalize line =
      (normalize line).withoutTrailingSpaces.column 63 ++ List.replicate count Byte.space := by
  obtain ⟨dropped, hdropped⟩ := Text.eq_withoutTrailingSpaces_append (normalize line)
  have hlong := length_normalize h
  have hlength := congrArg List.length hdropped
  rw [List.length_append, List.length_replicate] at hlength
  -- The padding takes its blanks from those that were dropped.
  refine ⟨dropped - (63 - (normalize line).withoutTrailingSpaces.length), ?_⟩
  rw [Text.column, List.append_assoc, List.replicate_append_replicate, Nat.add_sub_cancel']
  · exact hdropped
  · omega

/-- The normal form of what is kept of a line is the normal form of the line, less a blank at the
end of a line that is longer than the padding. -/
theorem normalize_raw {line : Text} (h : line.isLine = true) :
    ∃ count, normalize line =
        normalize (normalize line).withoutTrailingSpaces ++ List.replicate count Byte.space ∧
      24 ≤ (normalize (normalize line).withoutTrailingSpaces).length := by
  obtain ⟨count, hwhole⟩ := normalize_eq_column_append h
  have hwidth : 24 ≤ ((normalize line).withoutTrailingSpaces.column 63).length := by
    rw [Text.length_column_eq]
    omega
  have hfront : ((normalize line).withoutTrailingSpaces.column 63).take 24 =
      (normalize line).take 24 := by
    nth_rewrite 2 [hwhole]
    exact (List.take_append_of_le_length hwidth).symm
  have hnormal : normalize (normalize line).withoutTrailingSpaces =
      (normalize line).withoutTrailingSpaces.column 63 := by
    rw [normalize_of_isLine (Text.isLine_withoutTrailingSpaces (isLine_normalize h)), hfront,
      map_capital_take_normalize h, ← hfront, List.take_append_drop]
  rw [hnormal]
  exact ⟨count, hwhole, hwidth⟩

/-- What is kept of a line of ASCII is read as the same line again. -/
theorem parse_raw (number : Int) {line : Text} (h : line.isLine = true)
    (hlength : line.length ≤ 64) :
    parse number (normalize line).withoutTrailingSpaces = parse number line := by
  obtain ⟨dropped, hdropped⟩ := Text.eq_withoutTrailingSpaces_append (normalize line)
  have hkept := Text.isLine_withoutTrailingSpaces (isLine_normalize h)
  have hshort : (normalize line).withoutTrailingSpaces.length ≤ 64 := by
    have hsum := congrArg List.length hdropped
    rw [List.length_append, length_normalize h] at hsum
    omega
  obtain ⟨count, hnormal, hlong⟩ := normalize_raw h
  rw [parse_of_isLine number hkept hshort, parse_of_isLine number h hlength]
  nth_rewrite 2 [hnormal]
  rw [ofNormalized_append_blanks number hlong]

end SourceLine

namespace Scan

/-- A line matters only for what is read of it. -/
theorem scanLine_congr {number : Int} {line other : Text}
    (h : SourceLine.parse number other = SourceLine.parse number line) (s : Scan) :
    s.scanLine number other = s.scanLine number line := by
  rw [scanLine, scanLine, h]

/-- Lines that are read alike, each under its number, have the same effect. -/
theorem scanLines_congr (cancelAt : Option Nat) {lines others : List Text} (s : Scan) (count : Nat)
    (hlength : others.length = lines.length)
    (h : ∀ (k : Nat) (hk : k < lines.length) (hk' : k < others.length),
      SourceLine.parse ((count + k : Nat) + 1) others[k] =
        SourceLine.parse ((count + k : Nat) + 1) lines[k]) :
    scanLines cancelAt s count others = scanLines cancelAt s count lines := by
  induction lines generalizing s count others with
  | nil => rw [List.length_eq_zero_iff.mp hlength]
  | cons line rest ih =>
    cases others with
    | nil => simp at hlength
    | cons other behind =>
      have hfirst : s.scanLine (count + 1) other = s.scanLine (count + 1) line :=
        scanLine_congr (h 0 (Nat.zero_lt_succ _) (Nat.zero_lt_succ _)) s
      have hrest : ∀ next, scanLines cancelAt next (count + 1) behind =
          scanLines cancelAt next (count + 1) rest := by
        intro next
        apply ih next (count + 1) (Nat.succ.inj hlength)
        intro k hk hk'
        have hlater := h (k + 1) (Nat.succ_lt_succ hk) (Nat.succ_lt_succ hk')
        rw [Nat.add_right_comm]
        exact hlater
      rw [scanLines, scanLines, hfirst]
      split
      · rfl
      · split
        · rfl
        · exact hrest _

end Scan

namespace Assembly

variable {origin : UInt16} {cancelAt : Option Nat} {lines : List Text}

/-- The lines as they are kept in the records of a program. -/
def keptLines (p : Program) : List Text := p.records.toList.map fun r => r.source.raw

/-- A run depends on its lines through what is read of them. -/
theorem run_congr {others : List Text} (hlength : others.length = lines.length)
    (h : ∀ (k : Nat) (hk : k < lines.length) (hk' : k < others.length),
      SourceLine.parse (k + 1) others[k] = SourceLine.parse (k + 1) lines[k]) :
    run origin cancelAt others = run origin cancelAt lines := by
  have hopening : opening origin others = opening origin lines := by
    rw [opening, opening, hlength]
  have hscan : Scan.scanLines cancelAt (opening origin lines) 0 others =
      Scan.scanLines cancelAt (opening origin lines) 0 lines := by
    apply Scan.scanLines_congr cancelAt _ 0 hlength
    intro k hk hk'
    rw [Nat.zero_add]
    exact h k hk hk'
  rw [run_eq, run_eq, hopening, hscan]

/-- The lines that a complete program kept of lines of ASCII are assembled like these. -/
theorem Completed.run_keptLines (h : Completed origin cancelAt lines)
    (hlines : ∀ line ∈ lines, line.isLine = true ∧ line.length ≤ 64) :
    run origin cancelAt (keptLines (run origin cancelAt lines).program) =
      run origin cancelAt lines := by
  have hlength : (keptLines (run origin cancelAt lines).program).length = lines.length := by
    rw [keptLines, List.length_map, h.length_records]
  refine run_congr hlength fun k hk hk' => ?_
  have hat := List.getElem?_eq_getElem hk'
  generalize (keptLines (run origin cancelAt lines).program)[k] = kept at hat ⊢
  rw [keptLines, List.getElem?_map, Option.map_eq_some_iff] at hat
  obtain ⟨r, hr, hkept⟩ := hat
  obtain ⟨_, hparse⟩ := h.parse_record hr
  obtain ⟨hline, hshort⟩ := hlines _ (List.getElem_mem hk)
  have hraw : r.source.raw = (SourceLine.normalize lines[k]).withoutTrailingSpaces := by
    rw [SourceLine.parse_of_isLine _ hline hshort] at hparse
    rw [← Except.ok.inj hparse, SourceLine.ofNormalized]
  rw [← hkept, hraw, SourceLine.parse_raw _ hline hshort]

/-- A line of ASCII that is made of columns and a comment is read as these columns in upper case,
independent of the comment, and kept with its first 24 bytes in upper case and the comment as it is,
less the blanks at the end. What is kept of any line of ASCII that is short enough is read as the
same line again, and so the lines that a complete program kept are assembled to the same outcome. -/
theorem fixed_columns_normal_form :
    (∀ (number : Int) (label mnemonic operand comment : Text), label.isColumn 8 = true →
      mnemonic.isColumn 5 = true → operand.isColumn 11 = true → comment.isLine = true →
      (SourceLine.compose label mnemonic operand comment).length ≤ 64 →
      SourceLine.parse number (SourceLine.compose label mnemonic operand comment) =
        .ok ⟨number, Text.withoutTrailingSpaces (Text.upper
              ((SourceLine.compose label mnemonic operand comment).take 24) ++ comment),
          label.upper, mnemonic.upper, operand.upper⟩) ∧
    (∀ (number : Int) (line : Text), line.isLine = true → line.length ≤ 64 →
      ∃ source, SourceLine.parse number line = .ok source ∧
        SourceLine.parse number source.raw = .ok source) ∧
    (∀ (origin : UInt16) (cancelAt : Option Nat) (lines : List Text),
      (∀ line ∈ lines, line.isLine = true ∧ line.length ≤ 64) →
      (run origin cancelAt lines).program.complete = true →
      run origin cancelAt (keptLines (run origin cancelAt lines).program) =
        run origin cancelAt lines) := by
  refine ⟨?_, ?_, ?_⟩
  · intro number label mnemonic operand comment hlabel hmnemonic hoperand hcomment hlength
    have hline := SourceLine.isLine_compose hlabel hmnemonic hoperand hcomment
    have hupper : ∀ {width : Nat} {t : Text}, t.isColumn width = true →
        t.upper = t.map Byte.capital :=
      fun ht => Text.upper_of_ascii (Text.ascii_of_isLine (Text.isLine_of_isColumn ht))
    rw [hupper hlabel, hupper hmnemonic, hupper hoperand,
      Text.upper_of_ascii fun b hb => Text.ascii_of_isLine hline b (List.mem_of_mem_take hb)]
    exact SourceLine.parse_compose number hlabel hmnemonic hoperand hcomment hlength
  · intro number line hline hlength
    have hparse := SourceLine.parse_of_isLine number hline hlength
    exact ⟨_, hparse, (SourceLine.parse_raw number hline hlength).trans hparse⟩
  · intro origin cancelAt lines hlines hcomplete
    exact (completed_of_complete hcomplete).run_keptLines hlines

/-- A line of 64 bytes with two full columns, a comment right behind them and a blank at the end,
and a program of two lines, the second of which refers to the first. -/
theorem fixed_columns_normal_form_full :
    let line := SourceLine.compose (Text.ascii "waitloop") (Text.ascii "bne")
      (Text.ascii "waitloop+10") (Text.ascii "Back until the counter has come to Zero ")
    let lines := [Text.ascii "loop    dex             ; One less ", Text.ascii "        bne  loop"]
    line = Text.ascii "waitloopbne  waitloop+10Back until the counter has come to Zero " ∧
      SourceLine.parse 3 line =
        .ok ⟨3, Text.ascii "WAITLOOPBNE  WAITLOOP+10Back until the counter has come to Zero",
          Text.ascii "WAITLOOP", Text.ascii "BNE", Text.ascii "WAITLOOP+10"⟩ ∧
      (∃ source, SourceLine.parse 3 line = .ok source ∧
        SourceLine.parse 3 source.raw = .ok source) ∧
      keptLines (run 0x8000 none lines).program =
        [Text.ascii "LOOP    DEX             ; One less", Text.ascii "        BNE  LOOP"] ∧
      run 0x8000 none (keptLines (run 0x8000 none lines).program) = run 0x8000 none lines := by
  intro line lines
  have hread := fixed_columns_normal_form.1 3 (Text.ascii "waitloop") (Text.ascii "bne")
    (Text.ascii "waitloop+10") (Text.ascii "Back until the counter has come to Zero ") (by decide)
    (by decide) (by decide) (by decide) (by decide)
  have hagain := fixed_columns_normal_form.2.1 3 line (by decide) (by decide)
  have hsame := fixed_columns_normal_form.2.2 0x8000 none lines
    (by simp only [lines, List.forall_mem_cons]; decide) (by decide +kernel)
  refine ⟨by decide, hread.trans (congrArg Except.ok ?_), hagain, by decide +kernel, hsame⟩
  decide +kernel

end Assembly

end ColumnAssembler
