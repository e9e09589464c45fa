import ColumnAssembler.Proofs.SourceText

/-!
# Cutting a line of arbitrary bytes

A line is padded by characters but cut by bytes, and between the two its columns change to upper
case, which may make them shorter or longer and may meet a character that was cut in two. Every cut
is nevertheless inside the text: a text has at least as many bytes as glyphs, and a case mapping
leaves at least half of the bytes. The main statement is about all mappings of that kind, so it does
not depend on the letters that are listed.
-/

namespace ColumnAssembler

namespace Glyph

/-- A code point is encoded in one to four bytes: in at most two up to a bound, and in at least two
outside ASCII. -/
theorem length_encodeCode (code : Nat) :
    1 ≤ (encodeCode code).length ∧ (encodeCode code).length ≤ 4 ∧
      (code < 0x800 → (encodeCode code).length ≤ 2) ∧
      (0x80 ≤ code → 2 ≤ (encodeCode code).length) := by
  unfold encodeCode
  split
  · simp only [List.length_singleton]
    omega
  · split
    · simp only [List.length_cons, List.length_nil]
      omega
    · split
      · simp only [List.length_cons, List.length_nil]
        omega
      · simp only [List.length_cons, List.length_nil]
        omega

/-- Every glyph has a byte. -/
theorem width_pos (g : Glyph) : 0 < g.width := by
  cases g with
  | stray byte => exact Nat.one_pos
  | scalar code => exact (length_encodeCode code).1

end Glyph

namespace Text

/-- A text has no more glyphs than bytes. -/
theorem length_glyphsFrom_le (covered : Nat) (t : Text) :
    (glyphsFrom covered t).length ≤ t.length := by
  induction t generalizing covered with
  | nil => exact Nat.le_refl 0
  | cons b rest ih =>
    cases covered with
    | succ covered =>
      rw [glyphsFrom]
      exact Nat.le_succ_of_le (ih covered)
    | zero =>
      rw [glyphsFrom, List.length_cons, List.length_cons]
      exact Nat.succ_le_succ (ih _)

/-- A text is padded to at least as many bytes as characters. -/
theorem le_length_padRight (width : Nat) (t : Text) : width ≤ (t.padRight width).length := by
  have hglyphs : t.glyphs.length ≤ t.length := length_glyphsFrom_le 0 t
  rw [padRight, List.length_append, List.length_replicate]
  omega

/-- If every glyph is written with at least half of its bytes, so is a text; the bytes that are
covered already do not count. -/
theorem length_le_two_mul_flatMap {write : Glyph → Text} (covered : Nat) (t : Text)
    (h : ∀ g ∈ glyphsFrom covered t, g.width ≤ 2 * (write g).length) :
    t.length ≤ covered + 2 * ((glyphsFrom covered t).flatMap write).length := by
  induction t generalizing covered with
  | nil => exact Nat.zero_le _
  | cons b rest ih =>
    cases covered with
    | succ covered =>
      rw [glyphsFrom] at h ⊢
      have hrest := ih covered h
      rw [List.length_cons]
      omega
    | zero =>
      rw [glyphsFrom] at h ⊢
      have hfirst := h _ List.mem_cons_self
      have hpos := (Glyph.first b rest).width_pos
      have hrest := ih _ fun g hg => h g (List.mem_cons_of_mem _ hg)
      rw [List.flatMap_cons, List.length_append, List.length_cons]
      omega

/-- A mapping of characters to characters, each written with at least half of the bytes. -/
structure CaseMapping where
  /-- The code point that takes the place of a code point. -/
  code : Nat → Nat
  /-- At least half of the bytes are left. -/
  half : ∀ c < 0x110000,
    (Glyph.encodeCode c).length ≤ 2 * (Glyph.encodeCode (code c)).length

namespace CaseMapping

/-- The bytes that take the place of a glyph. A stray byte gives the replacement character. -/
def write (m : CaseMapping) : Glyph → Text
  | .scalar c => Glyph.encodeCode (m.code c)
  | .stray _ => Glyph.encodeCode Glyph.replacementCode

/-- The text with every glyph mapped. -/
def apply (m : CaseMapping) (t : Text) : Text := t.glyphs.flatMap m.write

/-- A mapping leaves at least half of the bytes of a text. -/
theorem length_le_two_mul_apply (m : CaseMapping) (t : Text) :
    t.length ≤ 2 * (m.apply t).length := by
  have hall : ∀ g ∈ glyphsFrom 0 t, g.width ≤ 2 * (m.write g).length := by
    intro g hg
    cases g with
    | stray byte => exact Nat.le_of_ble_eq_true rfl
    | scalar c =>
      apply m.half
      rcases scalar_mem_glyphsFrom hg with ⟨b, _, rfl⟩ | hbounds
      · exact Nat.lt_trans b.toNat_lt (by decide)
      · exact hbounds.2
  have hlength := length_le_two_mul_flatMap 0 t hall
  rwa [Nat.zero_add] at hlength

end CaseMapping

/-- No letter of three or four bytes has a capital of one. -/
theorem letterRuns_wide : letterRuns.all (fun run =>
    decide (run.last < 0x800) || decide (0x80 ≤ run.capital)) = true := by
  decide +kernel

/-- The capital of a character of three or four bytes is outside ASCII. -/
theorem le_upperCode {code : Nat} (hcode : 0x800 ≤ code) : 0x80 ≤ upperCode code := by
  unfold upperCode
  rw [if_neg (by omega)]
  split
  · next run hrun =>
    have hwide := List.all_eq_true.mp letterRuns_wide run (List.mem_of_find?_eq_some hrun)
    rw [Bool.or_eq_true, decide_eq_true_iff, decide_eq_true_iff] at hwide
    have hholds := List.find?_some hrun
    unfold LetterRun.holds at hholds
    rw [Bool.and_eq_true, Bool.and_eq_true, decide_eq_true_iff, decide_eq_true_iff] at hholds
    unfold LetterRun.upper
    omega
  · omega

/-- The mapping to upper case. -/
def upperMapping : CaseMapping where
  code := upperCode
  half := by
    intro c _
    have hletter := Glyph.length_encodeCode c
    have hcapital := Glyph.length_encodeCode (upperCode c)
    rcases Nat.lt_or_ge c 0x800 with hnarrow | hwide
    · have hshort := hletter.2.2.1 hnarrow
      omega
    · have hlong := hcapital.2.2.2 (le_upperCode hwide)
      omega

/-- Upper case is a mapping of characters. -/
theorem upper_eq_apply (t : Text) : upper t = upperMapping.apply t := by
  have hwrite : upperGlyph = upperMapping.write := by
    funext g
    cases g <;> rfl
  rw [upper, CaseMapping.apply, hwrite]

/-- The part of a text between two positions; there is none when they are out of range. -/
def slice? (start stop : Nat) (t : Text) : Option Text :=
  if start ≤ stop ∧ stop ≤ t.length then some ((t.take stop).drop start) else none

/-- There is a part between positions in range. -/
theorem slice?_of_le {start stop : Nat} {t : Text} (hstart : start ≤ stop)
    (hstop : stop ≤ t.length) : t.slice? start stop = some ((t.take stop).drop start) :=
  if_pos ⟨hstart, hstop⟩

/-- Dropping white space adds nothing. -/
theorem length_dropMeasured_le (measure : Text → Nat) (covered : Nat) (t : Text) :
    (dropMeasured measure covered t).length ≤ t.length := by
  induction t generalizing covered with
  | nil => exact Nat.le_refl 0
  | cons b rest ih =>
    cases covered with
    | succ covered =>
      rw [dropMeasured]
      exact Nat.le_succ_of_le (ih covered)
    | zero =>
      rw [dropMeasured]
      split
      · exact Nat.le_refl _
      · exact Nat.le_succ_of_le (ih _)

/-- A trimmed text is no longer. -/
theorem length_trim_le (t : Text) : t.trim.length ≤ t.length := by
  have hstart : t.trimStart.length ≤ t.length := length_dropMeasured_le blankWidth 0 t
  have hend := length_dropMeasured_le blankWidthBack 0 t.trimStart.reverse
  rw [List.length_reverse] at hend
  rw [trim, trimEnd, List.length_reverse]
  exact Nat.le_trans hend hstart

/-- A text is its front and the ending taken away, or has no such ending. -/
theorem withoutEnd_cases (b : UInt8) (t : Text) :
    t = withoutEnd [b] t ++ [b] ∨ (withoutEnd [b] t = t ∧ ¬ [b] <:+ t) := by
  unfold withoutEnd
  split
  · next hend =>
    left
    obtain ⟨front, rfl⟩ := List.isSuffixOf_iff_suffix.mp hend
    rw [List.length_append, Nat.add_sub_cancel, List.take_left]
  · next hend =>
    exact .inr ⟨rfl, fun hsuffix => hend (List.isSuffixOf_iff_suffix.mpr hsuffix)⟩

end Text

namespace SourceLine

/-- The content of a line and the ending behind it: a line feed, a carriage return, both in the
order in which they end a line, or nothing. -/
inductive Ends (content : Text) : Text → Prop where
  /-- Neither ends the content. -/
  | bare (feed : ¬ [Byte.lineFeed] <:+ content) (back : ¬ [Byte.carriageReturn] <:+ content) :
      Ends content content
  /-- A line feed behind content without a carriage return. -/
  | lineFeed (back : ¬ [Byte.carriageReturn] <:+ content) :
      Ends content (content ++ [Byte.lineFeed])
  /-- A carriage return at the very end. -/
  | carriageReturn : Ends content (content ++ [Byte.carriageReturn])
  /-- A carriage return and a line feed. -/
  | both : Ends content (content ++ [Byte.carriageReturn, Byte.lineFeed])

/-- What is left of a line is its content. -/
theorem ends_withoutLineEnd (line : Text) : Ends (withoutLineEnd line) line := by
  have hfeed := Text.withoutEnd_cases Byte.lineFeed line
  have hback := Text.withoutEnd_cases Byte.carriageReturn (Text.withoutEnd [Byte.lineFeed] line)
  rw [withoutLineEnd]
  generalize Text.withoutEnd [Byte.lineFeed] line = rest at hfeed hback ⊢
  generalize Text.withoutEnd [Byte.carriageReturn] rest = content at hback ⊢
  rcases hfeed with rfl | ⟨rfl, hfeed⟩
  · rcases hback with rfl | ⟨rfl, hback⟩
    · rw [List.append_assoc]
      exact .both
    · exact .lineFeed hback
  · rcases hback with rfl | ⟨rfl, hback⟩
    · exact .carriageReturn
    · exact .bare hfeed hback

/-- The padded line with its three columns mapped; there is none when a cut is out of range. -/
def normalize? (m : Text.CaseMapping) (content : Text) : Option Text := do
  let padded := content.padRight paddedWidth
  let columns ← padded.slice? 0 operandEnd
  let comment ← padded.slice? operandEnd padded.length
  return m.apply columns ++ comment

/-- The columns of a normalized line; there are none when a cut is out of range. -/
def cut? (number : Int) (line : Text) : Option SourceLine := do
  let label ← line.slice? 0 labelEnd
  let mnemonic ← line.slice? labelEnd mnemonicEnd
  let operand ← line.slice? mnemonicEnd operandEnd
  return ⟨number, line.withoutTrailingSpaces, label.trim, mnemonic.trim, operand.trim⟩

/-- The line in normal form under a mapping. -/
def mapped (m : Text.CaseMapping) (content : Text) : Text :=
  m.apply ((content.padRight paddedWidth).take operandEnd) ++
    (content.padRight paddedWidth).drop operandEnd

/-- The padded line is long enough to be cut behind the columns. -/
theorem normalize?_eq (m : Text.CaseMapping) (content : Text) :
    normalize? m content = some (mapped m content) := by
  have hpadded : operandEnd ≤ (content.padRight paddedWidth).length :=
    Nat.le_trans (by decide) (Text.le_length_padRight paddedWidth content)
  have hfront := Text.slice?_of_le (Nat.zero_le operandEnd) hpadded
  have hbehind := Text.slice?_of_le hpadded (Nat.le_refl _)
  rw [List.take_length] at hbehind
  simp [normalize?, hfront, hbehind, mapped]

/-- A line in normal form is long enough for its columns, whatever becomes of their case. -/
theorem le_length_mapped (m : Text.CaseMapping) (content : Text) :
    operandEnd ≤ (mapped m content).length := by
  have hpadded := Text.le_length_padRight paddedWidth content
  have hhalf := m.length_le_two_mul_apply ((content.padRight paddedWidth).take operandEnd)
  have hwidth : paddedWidth = 63 := rfl
  have hend : operandEnd = 24 := rfl
  rw [List.length_take] at hhalf
  rw [mapped, List.length_append, List.length_drop]
  omega

/-- A line that is long enough can be cut into its columns. -/
theorem cut?_eq (number : Int) {line : Text} (h : operandEnd ≤ line.length) :
    cut? number line = some (ofNormalized number line) := by
  have hlabel : line.slice? 0 labelEnd = some (line.take labelEnd) :=
    Text.slice?_of_le (Nat.zero_le labelEnd) (Nat.le_trans (by decide) h)
  have hmnemonic : line.slice? labelEnd mnemonicEnd =
      some ((line.take mnemonicEnd).drop labelEnd) :=
    Text.slice?_of_le (by decide) (Nat.le_trans (by decide) h)
  have hoperand : line.slice? mnemonicEnd operandEnd =
      some ((line.take operandEnd).drop mnemonicEnd) := Text.slice?_of_le (by decide) h
  simp [cut?, hlabel, hmnemonic, hoperand, ofNormalized]

/-- The columns of a line are no wider than their places. -/
theorem length_columns_le (number : Int) (line : Text) :
    (ofNormalized number line).label.length ≤ 8 ∧
      (ofNormalized number line).mnemonic.length ≤ 5 ∧
      (ofNormalized number line).operand.length ≤ 11 := by
  have hlabel := Text.length_trim_le (line.take labelEnd)
  have hmnemonic := Text.length_trim_le ((line.take mnemonicEnd).drop labelEnd)
  have hoperand := Text.length_trim_le ((line.take operandEnd).drop mnemonicEnd)
  simp only [List.length_drop, List.length_take] at hlabel hmnemonic hoperand
  simp only [labelEnd, mnemonicEnd, operandEnd] at hlabel hmnemonic hoperand
  refine ⟨?_, ?_, ?_⟩
  · exact Nat.le_trans hlabel (by omega)
  · exact Nat.le_trans hmnemonic (by omega)
  · exact Nat.le_trans hoperand (by omega)

/-- A line is cut in range: it is padded and mapped to a text that is long enough for every cut, and
its columns fit in their places. -/
structure CutsInRange (m : Text.CaseMapping) (number : Int) (content : Text) (source : SourceLine) :
    Prop where
  /-- The padded text has the width of a line. -/
  padded : 63 ≤ (content.padRight paddedWidth).length
  /-- The cuts of the padded text are in range, and what they give is long enough for the next. -/
  mapped : ∃ line, normalize? m content = some line ∧ 24 ≤ line.length ∧
    cut? number line = some source
  /-- The label is at most eight bytes. -/
  label : source.label.length ≤ 8
  /-- The mnemonic is at most five bytes. -/
  mnemonic : source.mnemonic.length ≤ 5
  /-- The operand is at most eleven bytes. -/
  operand : source.operand.length ≤ 11

/-- Under every mapping a content of any bytes is cut in range. -/
theorem cutsInRange (m : Text.CaseMapping) (number : Int) (content : Text) :
    CutsInRange m number content (ofNormalized number (mapped m content)) := by
  have hlong := le_length_mapped m content
  obtain ⟨hlabel, hmnemonic, hoperand⟩ := length_columns_le number (mapped m content)
  exact ⟨Text.le_length_padRight paddedWidth content,
    ⟨mapped m content, normalize?_eq m content, hlong, cut?_eq number hlong⟩,
    hlabel, hmnemonic, hoperand⟩

/-- Reading a line of any bytes fails exactly when its content, the line without one line feed and
then one carriage return at its end, has more than 64 bytes, and the error tells how many. Otherwise
the line is cut in range into what is read, and would be under every other case mapping. -/
theorem parse_cuts_in_range (number : Int) (line : Text) :
    Ends (withoutLineEnd line) line ∧
      (∀ e, parse number line = .error e ↔
        64 < (withoutLineEnd line).length ∧ e = ⟨(withoutLineEnd line).length⟩) ∧
      (∀ source, parse number line = .ok source →
        CutsInRange Text.upperMapping number (withoutLineEnd line) source) ∧
      ∀ m : Text.CaseMapping, ∃ source, CutsInRange m number (withoutLineEnd line) source := by
  have hnormal : normalize (withoutLineEnd line) =
      mapped Text.upperMapping (withoutLineEnd line) := by
    rw [normalize, Text.upper_eq_apply, mapped]
  have hmax : maxLength = 64 := rfl
  refine ⟨ends_withoutLineEnd line, ?_, ?_, fun m => ⟨_, cutsInRange m number _⟩⟩
  · intro e
    rw [parse]
    split
    · next hlong =>
      rw [Except.error.injEq, eq_comm]
      exact ⟨fun he => ⟨hlong, he⟩, fun h => h.2⟩
    · next hshort => exact ⟨fun he => by simp at he, fun h => absurd h.1 hshort⟩
  · intro source hparse
    rw [parse] at hparse
    split at hparse
    · simp at hparse
    · rw [← Except.ok.inj hparse, hnormal]
      exact cutsInRange Text.upperMapping number _

/-- Letters of two bytes with capitals of one leave room for the replacement of a character that is
cut in two behind them. The columns then cut that one in two as well. -/
theorem parse_cuts_in_range_shrunk :
    let line : Text := 0x61 :: (List.replicate 11 [0xC4, 0xB1]).flatten ++
      [0xC3, 0xA9, Byte.carriageReturn, Byte.lineFeed]
    let source : SourceLine := ⟨7, Text.ascii "AIIIIIIIIIII" ++ [0xEF, 0xBF, 0xBD, 0xA9],
      Text.ascii "AIIIIIII", Text.ascii "IIII" ++ [0xEF], [0xBF, 0xBD, 0xA9]⟩
    parse 7 line = .ok source ∧
      CutsInRange Text.upperMapping 7 (withoutLineEnd line) source := by
  intro line source
  have hparse : parse 7 line = .ok source := by
    rw [parse, if_neg (by decide +kernel)]
    exact congrArg Except.ok (by decide +kernel)
  exact ⟨hparse, (parse_cuts_in_range 7 line).2.2.1 source hparse⟩

end SourceLine

end ColumnAssembler
