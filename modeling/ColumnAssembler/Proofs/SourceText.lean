import ColumnAssembler.SourceLine

/-!
# The text of a source line

A line in normal form has its columns in upper case, and is read character by character for this.
A byte of ASCII is a character of its own, and no other character has such a byte in its encoding;
so a byte below the capitals stands in the upper case of a text only if it stands in the text. In
particular a line without line feeds has none in its normal form.
-/

namespace ColumnAssembler

namespace Glyph

/-- A byte that continues a character carries six bits. -/
theorem continuation?_lt {b : UInt8} {payload : Nat} (h : continuation? b = some payload) :
    payload < 0x40 := by
  unfold continuation? at h
  split at h
  · next hrange =>
    rw [Bool.and_eq_true, decide_eq_true_iff, decide_eq_true_iff, UInt8.le_iff_toNat_le,
      UInt8.lt_iff_toNat_lt] at hrange
    have hlow : (0x80 : UInt8).toNat = 0x80 := rfl
    have hhigh : (0xC0 : UInt8).toNat = 0xC0 := rfl
    rw [← Option.some.inj h]
    omega
  · simp at h

/-- A code point of a character is below the end of the last plane. -/
theorem lt_of_isScalar {code : Nat} (h : isScalar code = true) : code < 0x110000 := by
  unfold isScalar at h
  rw [Bool.or_eq_true, Bool.and_eq_true, decide_eq_true_iff, decide_eq_true_iff,
    decide_eq_true_iff] at h
  omega

/-- A character of two bytes is outside ASCII. -/
theorem pair?_bounds {lead second : UInt8} {code : Nat} (h : pair? lead second = some code) :
    0x80 ≤ code ∧ code < 0x110000 := by
  unfold pair? at h
  obtain ⟨low, hlow, h⟩ := Option.bind_eq_some_iff.mp h
  have hsix := continuation?_lt hlow
  have hlead := lead.toNat_lt
  dsimp only at h
  split at h
  · next hrange =>
    rw [Bool.and_eq_true, decide_eq_true_iff] at hrange
    rw [← Option.some.inj h]
    omega
  · simp at h

/-- A code point that is tested for its least value and for being a character is outside ASCII. -/
theorem bounds_of_tested {start : Bool} {least code found : Nat} (hleast : 0x80 ≤ least)
    (h : (if start && decide (least ≤ code) && isScalar code then some code else none) =
      some found) : 0x80 ≤ found ∧ found < 0x110000 := by
  split at h
  · next htested =>
    rw [Bool.and_eq_true, Bool.and_eq_true, decide_eq_true_iff] at htested
    rw [← Option.some.inj h]
    exact ⟨Nat.le_trans hleast htested.1.2, lt_of_isScalar htested.2⟩
  · simp at h

/-- A character of three bytes is outside ASCII. -/
theorem triple?_bounds {lead second third : UInt8} {code : Nat}
    (h : triple? lead second third = some code) : 0x80 ≤ code ∧ code < 0x110000 := by
  unfold triple? at h
  obtain ⟨middle, _, h⟩ := Option.bind_eq_some_iff.mp h
  obtain ⟨low, _, h⟩ := Option.bind_eq_some_iff.mp h
  exact bounds_of_tested (by decide) h

/-- A character of four bytes is outside ASCII. -/
theorem quadruple?_bounds {lead second third fourth : UInt8} {code : Nat}
    (h : quadruple? lead second third fourth = some code) : 0x80 ≤ code ∧ code < 0x110000 := by
  unfold quadruple? at h
  obtain ⟨high, _, h⟩ := Option.bind_eq_some_iff.mp h
  obtain ⟨middle, _, h⟩ := Option.bind_eq_some_iff.mp h
  obtain ⟨low, _, h⟩ := Option.bind_eq_some_iff.mp h
  exact bounds_of_tested (by decide) h

/-- A character that starts with a byte of ASCII is that byte, and every other one is outside
ASCII. -/
theorem code?_cases {lead : UInt8} {rest : Text} {code : Nat} (h : code? lead rest = some code) :
    (lead < 0x80 ∧ code = lead.toNat) ∨ (0x80 ≤ code ∧ code < 0x110000) := by
  unfold code? at h
  split at h
  · next hascii => exact .inl ⟨hascii, (Option.some.inj h).symm⟩
  · right
    rcases Option.or_eq_some_iff.mp h with hpair | ⟨_, h⟩
    · obtain ⟨second, _, hpair⟩ := Option.bind_eq_some_iff.mp hpair
      exact pair?_bounds hpair
    · split at h
      · rcases Option.or_eq_some_iff.mp h with htriple | ⟨_, h⟩
        · exact triple?_bounds htriple
        · obtain ⟨fourth, _, hquadruple⟩ := Option.bind_eq_some_iff.mp h
          exact quadruple?_bounds hquadruple
      · simp at h

/-- A byte of ASCII is encoded as itself, and everything else without bytes of ASCII. -/
theorem mem_encodeCode {code : Nat} (hcode : code < 0x110000) {b : UInt8}
    (hb : b ∈ encodeCode code) : (code < 0x80 ∧ b = code.toUInt8) ∨ 0x80 ≤ b.toNat := by
  unfold encodeCode at hb
  split at hb
  · next hascii => exact .inl ⟨hascii, List.mem_singleton.mp hb⟩
  · right
    have hbyte : ∀ n, 0x80 ≤ n → n < 0x100 → 0x80 ≤ n.toUInt8.toNat := by
      intro n hlow hhigh
      rw [Nat.toUInt8_eq, UInt8.toNat_ofNat_of_lt' hhigh]
      exact hlow
    split at hb
    · simp only [List.mem_cons, List.not_mem_nil, or_false] at hb
      rcases hb with rfl | rfl <;> apply hbyte <;> omega
    · split at hb
      · simp only [List.mem_cons, List.not_mem_nil, or_false] at hb
        rcases hb with rfl | rfl | rfl <;> apply hbyte <;> omega
      · simp only [List.mem_cons, List.not_mem_nil, or_false] at hb
        rcases hb with rfl | rfl | rfl | rfl <;> apply hbyte <;> omega

end Glyph

namespace Text

/-- A character of a text is one of its bytes, or outside ASCII. -/
theorem scalar_mem_glyphsFrom {covered code : Nat} {t : Text}
    (h : Glyph.scalar code ∈ glyphsFrom covered t) :
    (∃ b ∈ t, code = b.toNat) ∨ (0x80 ≤ code ∧ code < 0x110000) := by
  induction t generalizing covered with
  | nil =>
    rw [glyphsFrom] at h
    exact absurd h List.not_mem_nil
  | cons b rest ih =>
    have hrest : ∀ {count}, Glyph.scalar code ∈ glyphsFrom count rest →
        (∃ c ∈ b :: rest, code = c.toNat) ∨ (0x80 ≤ code ∧ code < 0x110000) := by
      intro count hmem
      rcases ih hmem with ⟨c, hc, hcode⟩ | hbounds
      · exact .inl ⟨c, List.mem_cons_of_mem b hc, hcode⟩
      · exact .inr hbounds
    cases covered with
    | succ covered =>
      rw [glyphsFrom] at h
      exact hrest h
    | zero =>
      rw [glyphsFrom] at h
      rcases List.mem_cons.mp h with hfirst | hmem
      · unfold Glyph.first at hfirst
        split at hfirst
        · next found hcode =>
          rw [Glyph.scalar.injEq] at hfirst
          subst hfirst
          rcases Glyph.code?_cases hcode with ⟨_, hlead⟩ | hbounds
          · exact .inl ⟨b, List.mem_cons_self, hlead⟩
          · exact .inr hbounds
        · simp at hfirst
      · exact hrest hmem

/-- The glyphs of a text of ASCII are its bytes. -/
theorem glyphs_of_ascii {t : Text} (h : ∀ b ∈ t, b < 0x80) :
    t.glyphs = t.map fun b => Glyph.scalar b.toNat := by
  unfold glyphs
  induction t with
  | nil => rfl
  | cons b rest ih =>
    have hascii := h b List.mem_cons_self
    have hfirst : Glyph.first b rest = .scalar b.toNat := by
      have hcode : Glyph.code? b rest = some b.toNat := if_pos hascii
      rw [Glyph.first, hcode]
    have hwidth : (Glyph.scalar b.toNat).width = 1 := by
      have hless : b.toNat < 0x80 := UInt8.lt_iff_toNat_lt.mp hascii
      rw [Glyph.width, Glyph.bytes, Glyph.encodeCode, if_pos hless]
      rfl
    rw [glyphsFrom, hfirst, hwidth, List.map_cons, ih fun c hc => h c (List.mem_cons_of_mem b hc)]

/-- A text of ASCII has a glyph for each byte. -/
theorem length_glyphs_of_ascii {t : Text} (h : ∀ b ∈ t, b < 0x80) : t.glyphs.length = t.length := by
  rw [glyphs_of_ascii h, List.length_map]

/-- The capitals of all letters outside ASCII are capitals of ASCII or outside it. -/
theorem letterRuns_bounds : letterRuns.all (fun run =>
    decide (0x41 ≤ run.capital) && decide (run.capital + (run.last - run.first) < 0x110000)) =
      true := by
  decide +kernel

/-- A code point changes to upper case only if that is a capital of ASCII or outside it. -/
theorem upperCode_cases {code : Nat} (hcode : code < 0x110000) :
    (upperCode code = code ∨ 0x41 ≤ upperCode code) ∧ upperCode code < 0x110000 := by
  unfold upperCode
  split
  · split
    · next hsmall =>
      rw [Bool.and_eq_true, decide_eq_true_iff, decide_eq_true_iff] at hsmall
      omega
    · exact ⟨.inl rfl, hcode⟩
  · split
    · next run hrun =>
      have hbounds := List.all_eq_true.mp letterRuns_bounds run (List.mem_of_find?_eq_some hrun)
      rw [Bool.and_eq_true, decide_eq_true_iff, decide_eq_true_iff] at hbounds
      have hholds := List.find?_some hrun
      unfold LetterRun.holds at hholds
      rw [Bool.and_eq_true, Bool.and_eq_true, decide_eq_true_iff, decide_eq_true_iff] at hholds
      unfold LetterRun.upper
      omega
    · exact ⟨.inl rfl, hcode⟩

/-- A byte below the capitals stands in the upper case of a text only if it stands in the text. -/
theorem mem_of_mem_upper {b : UInt8} {t : Text} (hlow : b.toNat < 0x41) (h : b ∈ upper t) :
    b ∈ t := by
  obtain ⟨g, hg, hb⟩ := List.mem_flatMap.mp h
  cases g with
  | stray byte =>
    rcases Glyph.mem_encodeCode (by decide) hb with ⟨hascii, _⟩ | hhigh
    · exact absurd hascii (by decide)
    · omega
  | scalar code =>
    have horigin := scalar_mem_glyphsFrom hg
    have hcode : code < 0x110000 := by
      rcases horigin with ⟨c, _, rfl⟩ | hbounds
      · exact Nat.lt_trans c.toNat_lt (by decide)
      · exact hbounds.2
    -- A capital is not as low as the byte, so the character is its own upper case.
    obtain ⟨hupper, hbound⟩ := upperCode_cases hcode
    rcases Glyph.mem_encodeCode hbound hb with ⟨hascii, hbyte⟩ | hhigh
    · have hvalue : b.toNat = upperCode code := by
        rw [hbyte, Nat.toUInt8_eq, UInt8.toNat_ofNat_of_lt' (Nat.lt_trans hascii (by decide))]
      have hsame : b.toNat = code := by omega
      rcases horigin with ⟨c, hc, hown⟩ | hbounds
      · exact UInt8.toNat_inj.mp (hsame.trans hown) ▸ hc
      · omega
    · omega

/-- A text without some trailing blanks has no other bytes. -/
theorem mem_of_mem_withoutTrailingSpaces {b : UInt8} {t : Text}
    (h : b ∈ t.withoutTrailingSpaces) : b ∈ t := by
  have hmem := (List.dropWhile_sublist _).mem (List.mem_reverse.mp h)
  exact List.mem_reverse.mp hmem

/-- A text without an ending has no other bytes. -/
theorem mem_of_mem_withoutEnd {b : UInt8} {ending t : Text} (h : b ∈ withoutEnd ending t) :
    b ∈ t := by
  unfold withoutEnd at h
  split at h
  · exact List.mem_of_mem_take h
  · exact h

end Text

namespace SourceLine

/-- A byte below the capitals stands in the normal form of a line only if it is a blank or stands in
the line. -/
theorem mem_of_mem_raw {number : Int} {line : Text} {source : SourceLine}
    (hparse : parse number line = .ok source) {b : UInt8} (hlow : b.toNat < 0x41)
    (hspace : b ≠ Byte.space) (h : b ∈ source.raw) : b ∈ line := by
  unfold parse at hparse
  dsimp only at hparse
  split at hparse
  · simp at hparse
  · rw [← Except.ok.inj hparse] at h
    have hnormal := Text.mem_of_mem_withoutTrailingSpaces h
    have hpadded : b ∈ (withoutLineEnd line).padRight paddedWidth := by
      unfold normalize at hnormal
      rcases List.mem_append.mp hnormal with hcolumns | hcomment
      · exact List.mem_of_mem_take (Text.mem_of_mem_upper hlow hcolumns)
      · exact List.mem_of_mem_drop hcomment
    rcases List.mem_append.mp hpadded with hcontent | hblank
    · exact Text.mem_of_mem_withoutEnd (Text.mem_of_mem_withoutEnd hcontent)
    · exact absurd (List.eq_of_mem_replicate hblank) hspace

end SourceLine

end ColumnAssembler
