import ColumnAssembler.Proofs.AddressSum
import ColumnAssembler.Proofs.ObjectRoundTrip
import ColumnAssembler.Proofs.WhiteSpace
import Mathlib.Data.List.Forall2

/-!
# The grammar of object files

The lines of an object file that can be read are given by a grammar with the object line that each
of them denotes: four hexadecimal digits in either case, a colon, and bytes of two digits with white
space between and optionally around them. The reader cuts a line at its first colon, checks lengths
and numbers and splits the rest into fields. The main statement says that it accepts the lines of
the grammar and no others, and names the first line outside the grammar, as long as every line with
the carriage return at its end fits into the reader.
-/

namespace ColumnAssembler

namespace LineReading

/-- The lines of a text up to their line feeds. Behind the last line feed there is no line unless
there are bytes. -/
def rawLines (t : Text) : List Text :=
  let pieces := List.splitOn Byte.lineFeed t
  if pieces.getLast? = some [] then pieces.dropLast else pieces

/-- The lines of a text, each without one carriage return at its end. -/
def linesOf (t : Text) : List Text := (rawLines t).map (Text.withoutEnd [Byte.carriageReturn])

/-- The part before the first line feed is the first line. -/
theorem rawLines_append_lineFeed {line : Text} (h : Byte.lineFeed ∉ line) (rest : Text) :
    rawLines (line ++ Byte.lineFeed :: rest) = line :: rawLines rest := by
  obtain ⟨piece, pieces, hpieces⟩ :=
    List.exists_cons_of_ne_nil (List.splitOn_ne_nil Byte.lineFeed rest)
  simp only [rawLines, List.splitOn_append_cons_self_of_not_mem h, hpieces,
    List.getLast?_cons_cons, List.dropLast_cons_cons]
  split <;> rfl

/-- A text without line feeds is one line if there are bytes. -/
theorem rawLines_of_not_mem {t : Text} (h : Byte.lineFeed ∉ t) :
    rawLines t = if t.isEmpty then [] else [t] := by
  cases t with
  | nil => rfl
  | cons b t => simp [rawLines, List.splitOn_eq_singleton h]

/-- A line is closed without one carriage return at its end. -/
theorem close_reverse (line : Text) :
    close line.reverse = Text.withoutEnd [Byte.carriageReturn] line := by
  have hends : [Byte.carriageReturn].isSuffixOf line =
      [Byte.carriageReturn].isPrefixOf line.reverse := rfl
  rw [close, Text.withoutStart, Text.withoutEnd, hends]
  split
  · rw [List.drop_reverse, List.reverse_reverse]
  · exact List.reverse_reverse line

/-- A text whose lines fit into the reader is read line by line to its end. -/
theorem readFrom_eq (t : Text) (h : ∀ line ∈ rawLines t, line.length ≤ maxLength)
    (done : Array Text) : readFrom done [] 0 t = ⟨done ++ (linesOf t).toArray, none⟩ := by
  -- Each line feed takes the text before it away, so the rest of the text is shorter.
  induction hlength : t.length using Nat.strongRecOn generalizing t done with
  | _ length ih =>
    by_cases hfeed : Byte.lineFeed ∈ t
    · obtain ⟨line, rest, rfl, hline⟩ := List.eq_append_cons_of_mem hfeed
      rw [rawLines_append_lineFeed hline, List.forall_mem_cons] at h
      have hshorter : rest.length < length := by
        rw [← hlength, List.length_append, List.length_cons]
        omega
      rw [readFrom_append hline done [] (by omega), List.append_nil, readFrom, if_pos rfl,
        close_reverse, ih rest.length hshorter rest h.2 _ rfl, linesOf, linesOf,
        rawLines_append_lineFeed hline]
      simp
    · rw [rawLines_of_not_mem hfeed] at h
      cases t with
      | nil => simp [readFrom, linesOf, rawLines]
      | cons b t =>
        have hroom : 0 + (b :: t).length ≤ maxLength := by
          have := h (b :: t) (by simp)
          omega
        have hread := readFrom_append hfeed done [] hroom []
        have hsome : ((b :: t).reverse ++ []).isEmpty = false := by simp
        rw [List.append_nil] at hread
        rw [hread, readFrom, hsome, if_neg Bool.false_ne_true, List.append_nil, close_reverse,
          linesOf, rawLines_of_not_mem hfeed]
        simp

/-- Reading stops at a first line that does not fit. -/
theorem ofText_of_long {line : Text} (hwhole : Byte.lineFeed ∉ line)
    (hlong : maxLength < line.length) (rest : Text) :
    ofText (line ++ rest) = ⟨#[], some .longLine⟩ := by
  obtain ⟨front, b, back, rfl, hfront⟩ :
      ∃ front b back, line = front ++ b :: back ∧ front.length = maxLength := by
    have hsome : line.drop maxLength ≠ [] := by
      rw [← List.length_pos_iff, List.length_drop]
      omega
    obtain ⟨b, back, hback⟩ := List.exists_cons_of_ne_nil hsome
    refine ⟨line.take maxLength, b, back, ?_, ?_⟩
    · rw [← hback, List.take_append_drop]
    · rw [List.length_take]
      omega
  simp only [List.mem_append, List.mem_cons, not_or] at hwhole
  rw [ofText, List.append_assoc, readFrom_append hwhole.1 #[] [] (by omega), List.cons_append,
    readFrom, if_neg (Ne.symm hwhole.2.1), if_pos (by omega)]

end LineReading

namespace Numeral

/-- A hexadecimal digit, in either case, with its value. -/
inductive HexDigit : UInt8 → Nat → Prop where
  /-- From `0` to `9`. -/
  | decimal {k : Nat} (h : k < 10) : HexDigit (UInt8.ofNat (0x30 + k)) k
  /-- From `A` to `F`. -/
  | capital {k : Nat} (h : k < 6) : HexDigit (UInt8.ofNat (0x41 + k)) (10 + k)
  /-- From `a` to `f`. -/
  | small {k : Nat} (h : k < 6) : HexDigit (UInt8.ofNat (0x61 + k)) (10 + k)

/-- Hexadecimal digits with the number they denote, highest place first. -/
inductive Hexadecimal : Text → Nat → Prop where
  /-- No digit. -/
  | nil : Hexadecimal [] 0
  /-- Digits and one more. -/
  | concat {digits : Text} {n : Nat} {b : UInt8} {value : Nat} (hdigits : Hexadecimal digits n)
      (hb : HexDigit b value) : Hexadecimal (digits ++ [b]) (n * 16 + value)

/-- What holds of all digits with their values holds of a digit. -/
theorem HexDigit.of_forall {P : UInt8 → Nat → Prop}
    (hdecimal : ∀ k : Fin 10, P (UInt8.ofNat (0x30 + k)) k)
    (hcapital : ∀ k : Fin 6, P (UInt8.ofNat (0x41 + k)) (10 + k))
    (hsmall : ∀ k : Fin 6, P (UInt8.ofNat (0x61 + k)) (10 + k)) {b : UInt8} {value : Nat}
    (h : HexDigit b value) : P b value := by
  cases h with
  | decimal hk => exact hdecimal ⟨_, hk⟩
  | capital hk => exact hcapital ⟨_, hk⟩
  | small hk => exact hsmall ⟨_, hk⟩

/-- A digit has a value below sixteen. -/
theorem HexDigit.lt {b : UInt8} {value : Nat} (h : HexDigit b value) : value < 16 :=
  h.of_forall (P := fun _ value => value < 16) (by decide) (by decide) (by decide)

/-- A digit is a visible byte and no colon. -/
theorem HexDigit.visible {b : UInt8} {value : Nat} (h : HexDigit b value) :
    (0x20 < b ∧ b < 0x80) ∧ b ≠ Byte.colon :=
  h.of_forall (P := fun b _ => (0x20 < b ∧ b < 0x80) ∧ b ≠ Byte.colon) (by decide) (by decide)
    (by decide)

/-- A digit has one value, and the reader knows it. -/
theorem HexDigit.digitValue?_eq {b : UInt8} {value : Nat} (h : HexDigit b value) :
    digitValue? b = some value :=
  h.of_forall (P := fun b value => digitValue? b = some value) (by decide) (by decide) (by decide)

/-- A byte to which the reader gives a value below sixteen is a digit. -/
theorem hexDigit_of_digitValue? {b : UInt8} {value : Nat} (h : digitValue? b = some value)
    (hvalue : value < 16) : HexDigit b value := by
  have hbyte : ∀ n, n = b.toNat → b = UInt8.ofNat n := by
    rintro n rfl
    exact UInt8.ofNat_toNat.symm
  simp only [digitValue?, Bool.and_eq_true, decide_eq_true_eq, UInt8.le_iff_toNat_le,
    UInt8.reduceToNat] at h
  split at h
  · next hrange =>
    have hcode := Option.some.inj h
    rw [hbyte (0x30 + value) (by omega)]
    exact .decimal (by omega)
  · split at h
    · next hrange =>
      have hcode := Option.some.inj h
      obtain ⟨k, rfl⟩ : ∃ k, value = 10 + k := ⟨value - 10, by omega⟩
      rw [hbyte (0x41 + k) (by omega)]
      exact .capital (by omega)
    · split at h
      · next hrange =>
        have hcode := Option.some.inj h
        obtain ⟨k, rfl⟩ : ∃ k, value = 10 + k := ⟨value - 10, by omega⟩
        rw [hbyte (0x61 + k) (by omega)]
        exact .small (by omega)
      · exact absurd h (by simp)

/-- A digit is read as the last place of a number within the limit. -/
theorem HexDigit.readFrom_cons {b : UInt8} {value : Nat} (h : HexDigit b value) {limit n : Nat}
    (hlimit : n * 16 + value ≤ limit) (rest : Text) :
    readFrom 16 limit n (b :: rest) = readFrom 16 limit (n * 16 + value) rest := by
  have hlt := h.lt
  rw [readFrom, h.digitValue?_eq]
  dsimp only
  rw [if_neg (by omega), if_neg (by omega)]

/-- What is read on from a number begins with a digit. -/
theorem hexDigit_of_readFrom_cons {limit n result : Nat} {b : UInt8} {rest : Text}
    (h : readFrom 16 limit n (b :: rest) = .ok result) :
    ∃ value, HexDigit b value ∧ readFrom 16 limit (n * 16 + value) rest = .ok result := by
  rw [readFrom] at h
  split at h
  · simp at h
  · next value hvalue =>
    split at h
    · simp at h
    · next hdigit =>
      split at h
      · simp at h
      · exact ⟨value, hexDigit_of_digitValue? hvalue (by omega), h⟩

namespace Hexadecimal

/-- A number is below the power of sixteen that its digits allow. -/
theorem lt {digits : Text} {n : Nat} (h : Hexadecimal digits n) :
    n < Nat.pow 16 digits.length := by
  induction h with
  | nil => decide
  | @concat digits n b value _ hb ih =>
    have hmore : Nat.pow 16 (digits ++ [b]).length = Nat.pow 16 digits.length * 16 := by
      rw [List.length_append]
      rfl
    have hvalue := hb.lt
    omega

/-- The digits are visible bytes and no colons. -/
theorem visible {digits : Text} {n : Nat} (h : Hexadecimal digits n) :
    ∀ b ∈ digits, (0x20 < b ∧ b < 0x80) ∧ b ≠ Byte.colon := by
  induction h with
  | nil => exact fun b hb => absurd hb List.not_mem_nil
  | concat _ hb ih =>
    intro c hc
    rcases List.mem_append.mp hc with hfront | hlast
    · exact ih c hfront
    · exact List.mem_singleton.mp hlast ▸ hb.visible

/-- The digits are read as their number, if it is within the limit, before what follows. -/
theorem readFrom_append {digits : Text} {n limit : Nat} (h : Hexadecimal digits n)
    (hlimit : n ≤ limit) (rest : Text) :
    readFrom 16 limit 0 (digits ++ rest) = readFrom 16 limit n rest := by
  induction h generalizing rest with
  | nil => rfl
  | concat _ hb ih =>
    rw [List.append_assoc, List.singleton_append, ih (by omega), hb.readFrom_cons hlimit]

/-- What is read on from the number of digits are digits as well. -/
theorem of_readFrom {front : Text} {n limit result : Nat} (h : Hexadecimal front n) {rest : Text}
    (hread : readFrom 16 limit n rest = .ok result) : Hexadecimal (front ++ rest) result := by
  induction rest generalizing front n with
  | nil =>
    rw [readFrom, Except.ok.injEq] at hread
    rwa [List.append_nil, ← hread]
  | cons b rest ih =>
    obtain ⟨value, hb, hmore⟩ := hexDigit_of_readFrom_cons hread
    have hfound := ih (h.concat hb) hmore
    rwa [List.append_assoc] at hfound

end Hexadecimal

/-- Texts of a fixed width are read as numbers up to the largest of the width exactly if they have
digits only. -/
theorem read_ok_iff {digits : Text} {width limit n : Nat} (hlength : digits.length = width + 1)
    (hlimit : limit + 1 = Nat.pow 16 (width + 1)) :
    read 16 limit digits = .ok n ↔ Hexadecimal digits n := by
  have hsome : digits.isEmpty = false := by
    rw [List.isEmpty_eq_false_iff, ← List.length_pos_iff]
    omega
  rw [read, hsome, if_neg Bool.false_ne_true]
  constructor
  · intro hread
    exact Hexadecimal.nil.of_readFrom hread
  · intro h
    have hbound : n ≤ limit := by
      have hlt := h.lt
      rw [hlength] at hlt
      omega
    have hread := h.readFrom_append hbound []
    rwa [List.append_nil, readFrom] at hread

end Numeral

namespace Text

/-- The part after the first occurrence of a byte is what follows it. -/
theorem after?_append {c : UInt8} {t : Text} (h : c ∉ t) (rest : Text) :
    (t ++ c :: rest).after? c = some rest := by
  have hplain : ∀ b ∈ t, decide (b ≠ c) = true :=
    fun b hb => decide_eq_true (ne_of_mem_of_not_mem hb h)
  rw [after?, List.dropWhile_append_of_pos hplain, List.dropWhile_cons_of_neg (by simp)]

/-- A text is cut at the first occurrence of a byte and nothing is lost. -/
theorem eq_of_after? {c : UInt8} {t rest : Text} (h : t.after? c = some rest) :
    t = t.before c ++ c :: rest := by
  have hoccurs : c ∈ t := by
    apply Classical.byContradiction
    intro hnone
    have hplain : ∀ b ∈ t, decide (b ≠ c) = true :=
      fun b hb => decide_eq_true (ne_of_mem_of_not_mem hb hnone)
    rw [after?, List.dropWhile_eq_nil_iff.mpr hplain] at h
    simp at h
  obtain ⟨front, behind, rfl, hfront⟩ := List.eq_append_cons_of_mem hoccurs
  rw [after?_append hfront, Option.some.injEq] at h
  rw [before_append hfront (.inr rfl), h]

end Text

/-- White space and bytes of two digits each, at least one, with white space between them. -/
inductive ObjectLine.Data : Text → List UInt8 → Prop where
  /-- The last byte, with or without white space behind it. -/
  | last {field gap : Text} {n : Nat} (hfield : Numeral.Hexadecimal field n)
      (hlength : field.length = 2) (hgap : Text.Gap gap) : Data (field ++ gap) [UInt8.ofNat n]
  /-- A byte, white space, and more bytes. -/
  | next {field c rest : Text} {n : Nat} {bytes : List UInt8} (hfield : Numeral.Hexadecimal field n)
      (hlength : field.length = 2) (hc : Text.IsBlank c) (hrest : Data rest bytes) :
      Data (field ++ (c ++ rest)) (UInt8.ofNat n :: bytes)
  /-- White space in front. -/
  | blank {c rest : Text} {bytes : List UInt8} (hc : Text.IsBlank c) (hrest : Data rest bytes) :
      Data (c ++ rest) bytes

/-- The lines of an object file, each with the object line it denotes: an address of four digits, a
colon and bytes. -/
inductive ObjectLine.Denotes : Text → ObjectLine → Prop where
  /-- Four digits, a colon and bytes. -/
  | mk {digits data : Text} {n : Nat} {bytes : List UInt8}
      (hdigits : Numeral.Hexadecimal digits n) (hlength : digits.length = 4)
      (hdata : Data data bytes) :
      Denotes (digits ++ Byte.colon :: data) ⟨UInt16.ofNat n, bytes⟩

/-- White space may follow the last byte. -/
theorem ObjectLine.Data.append_gap {data gap : Text} {bytes : List UInt8} (h : Data data bytes)
    (hgap : Text.Gap gap) : Data (data ++ gap) bytes := by
  induction h with
  | last hfield hlength hbehind =>
    rw [List.append_assoc]
    exact .last hfield hlength (hbehind.append hgap)
  | next hfield hlength hc _ ih =>
    rw [List.append_assoc, List.append_assoc]
    exact .next hfield hlength hc ih
  | blank hc _ ih =>
    rw [List.append_assoc]
    exact .blank hc ih

/-- White space may follow a line. -/
theorem ObjectLine.Denotes.append_gap {line gap : Text} {object : ObjectLine}
    (h : Denotes line object) (hgap : Text.Gap gap) : Denotes (line ++ gap) object := by
  obtain ⟨hdigits, hlength, hdata⟩ := h
  rw [List.append_assoc, List.cons_append]
  exact .mk hdigits hlength (hdata.append_gap hgap)

namespace ObjectFile

open ObjectLine

/-- The fields that are read as bytes are those of two digits. -/
theorem parseByte_ok_iff {field : Text} {b : UInt8} : parseByte field = .ok b ↔
    ∃ n, Numeral.Hexadecimal field n ∧ field.length = 2 ∧ b = UInt8.ofNat n := by
  constructor
  · intro h
    rw [parseByte] at h
    split at h
    · next n hn =>
      split at h
      · next hlength =>
        exact ⟨n, (Numeral.read_ok_iff hlength rfl).mp hn, hlength, (Except.ok.inj h).symm⟩
      · simp at h
    · simp at h
  · rintro ⟨n, hn, hlength, rfl⟩
    rw [parseByte, (Numeral.read_ok_iff hlength rfl).mpr hn]
    exact if_pos hlength

/-- A first field of two digits is read before the others. -/
theorem parseBytes_closeField {field : Text} {n : Nat} (hfield : Numeral.Hexadecimal field n)
    (hlength : field.length = 2) {fields : List Text} {bytes : List UInt8}
    (hrest : parseBytes fields = .ok bytes) :
    parseBytes (Text.closeField (field.reverse ++ []) fields) = .ok (UInt8.ofNat n :: bytes) := by
  have hsome : (field.reverse ++ []).isEmpty = false := by
    rw [List.append_nil, List.isEmpty_eq_false_iff, ← List.length_pos_iff, List.length_reverse]
    omega
  have hbyte : parseByte field = .ok (UInt8.ofNat n) :=
    parseByte_ok_iff.mpr ⟨n, hfield, hlength, rfl⟩
  rw [Text.closeField, hsome, if_neg Bool.false_ne_true, List.append_nil, List.reverse_reverse,
    parseBytes, hbyte, hrest]

/-- The fields of data are read as its bytes. -/
theorem parseBytes_of_data {data : Text} {bytes : List UInt8} (h : Data data bytes) :
    parseBytes data.fields = .ok bytes := by
  induction h with
  | last hfield hlength hgap =>
    rw [Text.fields, Text.fieldsFrom_visible fun b hb => (hfield.visible b hb).1, hgap.fieldsFrom]
    exact parseBytes_closeField hfield hlength rfl
  | next hfield hlength hc _ ih =>
    rw [Text.fields, Text.fieldsFrom_visible fun b hb => (hfield.visible b hb).1,
      hc.fieldsFrom_append]
    exact parseBytes_closeField hfield hlength ih
  | blank hc _ ih => rw [hc.fields_append, ih]

/-- Data has at least one byte. -/
theorem bytes_ne_nil_of_data {data : Text} {bytes : List UInt8} (h : Data data bytes) :
    bytes ≠ [] := by
  induction h with
  | last => exact List.cons_ne_nil _ _
  | next => exact List.cons_ne_nil _ _
  | blank _ _ ih => exact ih

/-- Fields are read as bytes one after the other. -/
theorem parseBytes_cons_ok {field : Text} {fields : List Text} {bytes : List UInt8}
    (h : parseBytes (field :: fields) = .ok bytes) :
    ∃ b more, parseByte field = .ok b ∧ parseBytes fields = .ok more ∧ bytes = b :: more := by
  rw [parseBytes] at h
  split at h
  · simp at h
  · next b hb =>
    split at h
    · simp at h
    · next more hmore => exact ⟨b, more, hb, hmore, (Except.ok.inj h).symm⟩

/-- A text whose fields are read as bytes is white space if there are none, and data otherwise. -/
theorem data_of_parseBytes (data : Text) {bytes : List UInt8}
    (h : parseBytes data.fields = .ok bytes) :
    Text.Gap data ∧ bytes = [] ∨ Data data bytes := by
  -- A field or white space is taken off the front, so what is left is shorter.
  induction hsize : data.length using Nat.strongRecOn generalizing data bytes with
  | _ size ih =>
    obtain ⟨word, rest, hdata, hrest, hfields⟩ := Text.fieldsFrom_cases [] data
    have hbehind : ∀ c behind, Text.IsBlank c → rest = c ++ behind → behind.length < size := by
      intro c behind hc hsplit
      have hpos := hc.length_pos
      rw [← hsize, hdata, hsplit, List.length_append, List.length_append]
      omega
    rw [Text.fields, hfields] at h
    cases word with
    | nil =>
      have hsame : data = rest := hdata
      have hread : parseBytes rest.fields = .ok bytes := h
      subst hsame
      rcases hrest with rfl | ⟨c, behind, hc, rfl⟩
      · exact .inl ⟨.nil, (Except.ok.inj hread).symm⟩
      · rw [hc.fields_append] at hread
        rcases ih _ (hbehind c behind hc rfl) behind hread rfl with ⟨hgap, hnone⟩ | hmore
        · exact .inl ⟨.cons hc hgap, hnone⟩
        · exact .inr (.blank hc hmore)
    | cons b word =>
      have hclose : Text.closeField ((b :: word).reverse ++ []) rest.fields =
          (b :: word) :: rest.fields := by
        simp [Text.closeField]
      rw [hclose] at h
      obtain ⟨first, more, hfirst, hread, rfl⟩ := parseBytes_cons_ok h
      obtain ⟨n, hfield, hlength, rfl⟩ := parseByte_ok_iff.mp hfirst
      right
      rw [hdata]
      rcases hrest with rfl | ⟨c, behind, hc, rfl⟩
      · have hnone : more = [] := (Except.ok.inj hread).symm
        rw [hnone]
        exact .last hfield hlength .nil
      · rw [hc.fields_append] at hread
        rcases ih _ (hbehind c behind hc rfl) behind hread rfl with ⟨hgap, rfl⟩ | hmore
        · exact .last hfield hlength (.cons hc hgap)
        · exact .next hfield hlength hc hmore

/-- The lines that are read as object lines are those of the grammar. -/
theorem parseLine_ok_iff {line : Text} {object : ObjectLine} :
    parseLine line = .ok object ↔ Denotes line object := by
  constructor
  · intro h
    simp only [parseLine] at h
    split at h
    · simp at h
    · next data hdata =>
      split at h
      · simp at h
      · next hlength =>
        have hfour : (line.before Byte.colon).length = 4 := Classical.not_not.mp hlength
        split at h
        · simp at h
        · next n hn =>
          have hdigits := (Numeral.read_ok_iff hfour rfl).mp hn
          split at h
          · simp at h
          · simp at h
          · next bytes hsome hbytes =>
            rw [← Except.ok.inj h, Text.eq_of_after? hdata]
            rcases data_of_parseBytes data hbytes with ⟨_, hnone⟩ | hread
            · exact absurd hnone hsome
            · exact .mk hdigits hfour hread
  · rintro ⟨hdigits, hlength, hdata⟩
    next digits data n bytes =>
    have hcolon : Byte.colon ∉ digits := fun hmem => (hdigits.visible _ hmem).2 rfl
    have hbefore : Text.before Byte.colon (digits ++ Byte.colon :: data) = digits :=
      Text.before_append hcolon (.inr rfl)
    have hbytes := parseBytes_of_data hdata
    obtain ⟨b, more, rfl⟩ := List.exists_cons_of_ne_nil (bytes_ne_nil_of_data hdata)
    simp only [parseLine, Text.after?_append hcolon, hbefore, hlength, hbytes,
      (Numeral.read_ok_iff hlength rfl).mpr hdigits, ne_eq, not_true_eq_false, reduceIte]

/-- Lines of the grammar are read one after the other, up to the first other line. -/
theorem parseLines_cases (lines : List Text) (done : Array ObjectLine) :
    (∃ objects, List.Forall₂ Denotes lines objects ∧
      parseLines done lines = .ok (done ++ objects.toArray)) ∨
    ∃ front line rest cause, lines = front ++ line :: rest ∧
      (∀ other ∈ front, ∃ object, Denotes other object) ∧ parseLine line = .error cause ∧
      parseLines done lines = .error (.line (done.size + front.length + 1) cause) := by
  induction lines generalizing done with
  | nil => exact .inl ⟨[], .nil, by simp [parseLines]⟩
  | cons line lines ih =>
    rw [parseLines]
    cases hline : parseLine line with
    | error cause =>
      exact .inr ⟨[], line, lines, cause, rfl, fun other hother => absurd hother List.not_mem_nil,
        hline, rfl⟩
    | ok object =>
      have hdenotes := parseLine_ok_iff.mp hline
      dsimp only
      rcases ih (done.push object) with ⟨objects, hobjects, hread⟩ |
        ⟨front, other, rest, cause, hsplit, hfront, hother, hread⟩
      · exact .inl ⟨object :: objects, .cons hdenotes hobjects, by rw [hread]; simp⟩
      · refine .inr ⟨line :: front, other, rest, cause, by rw [hsplit]; rfl, ?_, hother, ?_⟩
        · exact List.forall_mem_cons.mpr ⟨⟨object, hdenotes⟩, hfront⟩
        · rw [hread, Array.size_push, List.length_cons, Nat.add_right_comm done.size,
            Nat.add_assoc done.size]

/-- Lines that denote object lines one by one denote one each. -/
theorem exists_of_forall₂ {lines : List Text} {objects : List ObjectLine}
    (h : List.Forall₂ Denotes lines objects) : ∀ line ∈ lines, ∃ object, Denotes line object := by
  induction h with
  | nil => exact fun line hline => absurd hline List.not_mem_nil
  | cons hfirst _ ih => exact List.forall_mem_cons.mpr ⟨⟨_, hfirst⟩, ih⟩

/-- A line denotes at most one object line. -/
theorem rightUnique_denotes : Relator.RightUnique Denotes := by
  intro line object other hobject hother
  have hsame := (parseLine_ok_iff.mpr hobject).symm.trans (parseLine_ok_iff.mpr hother)
  exact Except.ok.inj hsame

/-- A text whose lines fit into the reader is read as the object lines that its lines denote, or up
to the first line that denotes none. -/
theorem parse_cases {t : Text}
    (hroom : ∀ line ∈ LineReading.rawLines t, line.length ≤ LineReading.maxLength) :
    (∃ objects, List.Forall₂ Denotes (LineReading.linesOf t) objects ∧ parse t = .ok objects) ∨
    ∃ front line rest cause, LineReading.linesOf t = front ++ line :: rest ∧
      (∀ other ∈ front, ∃ object, Denotes other object) ∧ parseLine line = .error cause ∧
      parse t = .error (.line (front.length + 1) cause) := by
  have hreading : LineReading.ofText t = ⟨(LineReading.linesOf t).toArray, none⟩ := by
    rw [LineReading.ofText, LineReading.readFrom_eq t hroom, Array.empty_append]
  rcases parseLines_cases (LineReading.linesOf t) #[] with ⟨objects, hobjects, hread⟩ |
    ⟨front, line, rest, cause, hsplit, hfront, hline, hread⟩
  · refine .inl ⟨objects, hobjects, ?_⟩
    rw [parse, hreading, parseReading, hread, Array.empty_append]
  · refine .inr ⟨front, line, rest, cause, hsplit, hfront, hline, ?_⟩
    rw [parse, hreading, parseReading, hread, Array.size_empty, Nat.zero_add]

/-- A text whose lines, with the carriage returns at their ends, have at most 65535 bytes is read
exactly if every line is in the grammar of object files, and then as the object lines that its lines
denote. Otherwise nothing is read, and the error names the first line outside the grammar. -/
theorem parse_accepts_grammar (t : Text)
    (hroom : ∀ line ∈ LineReading.rawLines t, line.length ≤ 65535) :
    ((∃ objects, parse t = .ok objects) ↔
      ∀ line ∈ LineReading.linesOf t, ∃ object, Denotes line object) ∧
    (∀ objects, parse t = .ok objects ↔
      List.Forall₂ Denotes (LineReading.linesOf t) objects) ∧
    ((¬ ∃ objects, parse t = .ok objects) → ∃ front line rest cause,
      LineReading.linesOf t = front ++ line :: rest ∧
      (∀ other ∈ front, ∃ object, Denotes other object) ∧ (¬ ∃ object, Denotes line object) ∧
      parse t = .error (.line (front.length + 1) cause) ∧ parseLine line = .error cause ∧
      (ObjectError.line (front.length + 1) cause).message =
        Text.ascii "parsing line " ++ Numeral.decimal (front.length + 1) ++ Text.ascii ": " ++
          cause.message) := by
  have hnone : ∀ {line cause}, parseLine line = .error cause → ¬ ∃ object, Denotes line object := by
    rintro line cause hline ⟨object, hobject⟩
    rw [parseLine_ok_iff.mpr hobject] at hline
    simp at hline
  rcases parse_cases hroom with ⟨objects, hobjects, hparse⟩ |
    ⟨front, line, rest, cause, hsplit, hfront, hline, hparse⟩
  · have hexists : ∃ objects, parse t = .ok objects := ⟨objects, hparse⟩
    refine ⟨⟨fun _ => exists_of_forall₂ hobjects, fun _ => hexists⟩, fun others => ?_,
      fun hfails => absurd hexists hfails⟩
    rw [hparse, Except.ok.injEq]
    constructor
    · rintro rfl
      exact hobjects
    · exact List.right_unique_forall₂' rightUnique_denotes hobjects
  · have hfails : ∀ objects, parse t ≠ .ok objects := by
      intro objects
      rw [hparse]
      simp
    have hmem : line ∈ LineReading.linesOf t := by
      rw [hsplit]
      simp
    refine ⟨⟨fun ⟨objects, hok⟩ => absurd hok (hfails objects), fun hall => ?_⟩, fun objects => ?_,
      fun _ => ⟨front, line, rest, cause, hsplit, hfront, hnone hline, hparse, hline, rfl⟩⟩
    · exact absurd (hall line hmem) (hnone hline)
    · exact ⟨fun hok => absurd hok (hfails objects),
        fun hobjects => absurd (exists_of_forall₂ hobjects line hmem) (hnone hline)⟩

/-- Digits in either case, a tab and a no-break space, a carriage return, and no white space at all
are in the grammar. A sign in front of the address is not, and the line with it is named though the
one after it has no bytes. -/
theorem parse_accepts_grammar_no_break :
    let good := Text.ascii "80fF:\ta9" ++ [0xC2, 0xA0] ++ Text.ascii " 0D \r\nC000:EA\n"
    let bad := Text.ascii "8000: 12\n+800: 34\n8000:"
    let objects : List ObjectLine := [⟨0x80FF, [0xA9, 0x0D]⟩, ⟨0xC000, [0xEA]⟩]
    (∀ line ∈ LineReading.rawLines good, line.length ≤ 65535) ∧ parse good = .ok objects ∧
      List.Forall₂ Denotes (LineReading.linesOf good) objects ∧
      (∀ line ∈ LineReading.rawLines bad, line.length ≤ 65535) ∧
      (¬ ∃ object, Denotes (Text.ascii "+800: 34") object) ∧
      ∃ cause, parse bad = .error (.line 2 cause) := by
  intro good bad objects
  have hgood : ∀ line ∈ LineReading.rawLines good, line.length ≤ 65535 := by decide
  have hbad : ∀ line ∈ LineReading.rawLines bad, line.length ≤ 65535 := by decide
  have hread : parse good = .ok objects := by decide
  have herror : parse bad = .error (.line 2 (.address (Text.ascii "+800") .malformed)) := by decide
  have hlines : LineReading.linesOf bad =
      [Text.ascii "8000: 12", Text.ascii "+800: 34", Text.ascii "8000:"] := by decide
  have hfails : ¬ ∃ objects, parse bad = .ok objects := by
    rw [herror]
    simp
  obtain ⟨front, line, rest, cause, hsplit, _, hnone, hparse, _⟩ :=
    (parse_accepts_grammar bad hbad).2.2 hfails
  rw [herror, Except.error.injEq, ObjectError.line.injEq] at hparse
  obtain ⟨first, rfl⟩ := List.length_eq_one_iff.mp (Nat.succ.inj hparse.1.symm)
  rw [hlines, List.singleton_append, List.cons.injEq, List.cons.injEq] at hsplit
  rw [← hsplit.2.1] at hnone
  exact ⟨hgood, hread, ((parse_accepts_grammar good hgood).2.1 objects).mp hread, hbad, hnone, _,
    herror⟩

/-- A line of the grammar with 65535 bytes is not read if a carriage return is at its end: the
reader has no room for it. -/
theorem denoted_line_too_long :
    let line := Text.ascii "8000: 12" ++ List.replicate 65527 Byte.space
    let t := line ++ [Byte.carriageReturn, Byte.lineFeed]
    LineReading.linesOf t = [line] ∧ line.length = 65535 ∧ Denotes line ⟨0x8000, [0x12]⟩ ∧
      parse t = .error (.reading .longLine) := by
  intro line t
  have hlength : line.length = 65535 := by
    rw [List.length_append, List.length_replicate]
    rfl
  have hplain : Byte.lineFeed ∉ line ++ [Byte.carriageReturn] := by
    rw [List.append_assoc, List.mem_append, List.mem_append, List.mem_replicate]
    decide
  have htext : t = line ++ [Byte.carriageReturn] ++ [Byte.lineFeed] := by
    rw [List.append_assoc]
    rfl
  refine ⟨?_, hlength, ?_, ?_⟩
  · rw [htext, LineReading.linesOf, LineReading.rawLines_append_lineFeed hplain, List.map_cons,
      Text.withoutEnd_concat]
    rfl
  · have hshort : Denotes (Text.ascii "8000: 12") ⟨0x8000, [0x12]⟩ :=
      parseLine_ok_iff.mp (by decide)
    exact hshort.append_gap (Text.gap_replicate_space 65527)
  · have hlong : LineReading.maxLength < (line ++ [Byte.carriageReturn]).length := by
      rw [List.length_append, hlength]
      decide
    rw [htext, parse, LineReading.ofText_of_long hplain hlong]
    rfl

end ObjectFile

end ColumnAssembler
