import ColumnAssembler.ObjectFile
import ColumnAssembler.Proofs.AddressLiteral
import Mathlib.Data.List.DropRight

/-!
# The text of an object line

An object line is written as four digits, a colon and two digits for each byte with a blank before
them. The assembly field of a memory record is this text with blanks behind it, and the reader of
object lines takes the text back to the line it was written for. The address and every byte have
digits of a fixed number, so no field runs into the next one.
-/

namespace ColumnAssembler

namespace Numeral

/-- A number below a power of sixteen has no more digits than the exponent says. -/
theorem length_lowDigits_le {room n width : Nat} (h : n < Nat.pow 16 (width + 1)) :
    (lowDigits 16 room n).length ≤ width + 1 := by
  induction room generalizing n width with
  | zero => exact Nat.zero_le _
  | succ room ih =>
    rw [lowDigits]
    split
    · exact Nat.succ_le_succ (Nat.zero_le width)
    · next hlarge =>
      cases width with
      | zero =>
        have hone : Nat.pow 16 (0 + 1) = 16 := rfl
        omega
      | succ width =>
        have hmore : Nat.pow 16 (width + 1 + 1) = Nat.pow 16 (width + 1) * 16 := rfl
        have hrest : n / 16 < Nat.pow 16 (width + 1) := by omega
        exact Nat.succ_le_succ (ih hrest)

/-- A padded numeral is written with zeros in front of the digits of the number. -/
theorem hexPadded_eq (width n : Nat) : hexPadded width n =
    (List.replicate (width - (hex n).length) 0 ++ digits 16 n).map digitByte := by
  rw [hexPadded, Text.padLeft, List.map_append, List.map_replicate]
  rfl

/-- A padded numeral has the given width when the number fits. -/
theorem length_hexPadded {n width : Nat} (h : n < Nat.pow 16 (width + 1)) :
    (hexPadded (width + 1) n).length = width + 1 := by
  have hdigits : (hex n).length ≤ width + 1 := by
    rw [hex, render, digits, List.length_map, List.length_reverse]
    exact length_lowDigits_le h
  rw [hexPadded, Text.padLeft, List.length_append, List.length_replicate]
  omega

/-- The bytes of a padded numeral are capital hexadecimal digits. -/
theorem mem_hexPadded {b : UInt8} {width n : Nat} (h : b ∈ hexPadded width n) :
    ∃ digit : Fin 16, b = digitByte digit := by
  rw [hexPadded, Text.padLeft, List.mem_append, List.mem_replicate] at h
  rcases h with ⟨_, rfl⟩ | h
  · exact ⟨0, rfl⟩
  · exact mem_hex h

/-- Zeros in front of digits do not count. -/
theorem foldl_replicate_zero (count : Nat) :
    (List.replicate count 0).foldl (fun value digit => value * 16 + digit) 0 = 0 := by
  induction count with
  | zero => rfl
  | succ count ih => rw [List.replicate_succ, List.foldl_cons, Nat.zero_mul, ih]

/-- A padded numeral reads back as the number it was written for, within the limit. -/
theorem read_hexPadded {limit n : Nat} (width : Nat) (h : n ≤ limit) :
    read 16 limit (hexPadded width n) = .ok n := by
  have hsome : (hexPadded width n).isEmpty = false := by
    rw [hexPadded, Text.padLeft, List.isEmpty_eq_false_iff]
    exact List.append_ne_nil_of_right_ne_nil _ (render_ne_nil 16 n)
  have hvalue : (List.replicate (width - (hex n).length) 0 ++ digits 16 n).foldl
      (fun value digit => value * 16 + digit) 0 = n := by
    rw [List.foldl_append, foldl_replicate_zero, foldl_digits (by decide)]
  have hdigits : ∀ digit ∈ List.replicate (width - (hex n).length) 0 ++ digits 16 n,
      digit < 16 := by
    intro digit hdigit
    rcases List.mem_append.mp hdigit with hzero | hrest
    · rw [(List.mem_replicate.mp hzero).2]
      decide
    · exact lowDigits_lt (by decide) _ _ digit (List.mem_reverse.mp hrest)
  rw [read, hsome, if_neg Bool.false_ne_true, hexPadded_eq,
    readFrom_map_digitByte (by decide) (by decide) _ _ hdigits (by omega), hvalue]

/-- A byte has two digits. -/
@[simp] theorem length_hexByte (b : UInt8) : (hexByte b).length = 2 := by
  have hfits : b.toNat < Nat.pow 16 (1 + 1) := b.toNat_lt
  exact length_hexPadded hfits

/-- An address has four digits. -/
@[simp] theorem length_hexWord (w : UInt16) : (hexWord w).length = 4 := by
  have hfits : w.toNat < Nat.pow 16 (3 + 1) := w.toNat_lt
  exact length_hexPadded hfits

end Numeral

namespace Text

/-- No white space begins with a hexadecimal digit. -/
theorem blankWidth_digit (digit : Fin 16) (rest : Text) :
    blankWidth (Numeral.digitByte digit :: rest) = 0 := by
  have hbyte : ∀ d : Fin 16, isBlankByte (Numeral.digitByte d) = false := by decide
  have hlead : ∀ d : Fin 16, (Numeral.digitByte d == 0xC2) = false ∧
      (Numeral.digitByte d == 0xE1) = false ∧ (Numeral.digitByte d == 0xE2) = false ∧
      (Numeral.digitByte d == 0xE3) = false := by decide
  obtain ⟨hnext, hogham, htypeset, hideographic⟩ := hlead digit
  match rest with
  | [] => simp [blankWidth, hbyte]
  | [c] => simp [blankWidth, hbyte, isBlankPair, hnext]
  | c :: d :: rest =>
    simp [blankWidth, hbyte, isBlankPair, isBlankTriple, hnext, hogham, htypeset, hideographic]

/-- A blank is white space of one byte. -/
theorem blankWidth_space (rest : Text) : blankWidth (Byte.space :: rest) = 1 := by
  match rest with
  | [] => rfl
  | [_] => rfl
  | _ :: _ :: _ => rfl

/-- Digits go to the field under way. -/
theorem fieldsFrom_digits {digits : Text}
    (h : ∀ b ∈ digits, ∃ digit : Fin 16, b = Numeral.digitByte digit) (collected rest : Text) :
    fieldsFrom 0 collected (digits ++ rest) = fieldsFrom 0 (digits.reverse ++ collected) rest := by
  induction digits generalizing collected with
  | nil => rfl
  | cons b digits ih =>
    obtain ⟨digit, rfl⟩ := h b List.mem_cons_self
    rw [List.cons_append, fieldsFrom, blankWidth_digit]
    dsimp only
    rw [ih fun c hc => h c (List.mem_cons_of_mem _ hc), List.reverse_cons, List.append_assoc]
    rfl

/-- A blank closes the field under way. -/
theorem fieldsFrom_space (collected rest : Text) :
    fieldsFrom 0 collected (Byte.space :: rest) = closeField collected (fieldsFrom 0 [] rest) := by
  rw [fieldsFrom, blankWidth_space]

/-- Bytes with a blank before each are the fields, behind the field under way. -/
theorem fieldsFrom_bytes (data : List UInt8) (collected : Text) :
    fieldsFrom 0 collected (data.flatMap fun b => Byte.space :: Numeral.hexByte b) =
      closeField collected (data.map Numeral.hexByte) := by
  induction data generalizing collected with
  | nil => rfl
  | cons b data ih =>
    have hfield : closeField (Numeral.hexByte b).reverse (data.map Numeral.hexByte) =
        Numeral.hexByte b :: data.map Numeral.hexByte := by
      have hsome : (Numeral.hexByte b).reverse.isEmpty = false := by
        rw [List.isEmpty_eq_false_iff, ← List.length_pos_iff, List.length_reverse,
          Numeral.length_hexByte]
        decide
      rw [closeField, hsome, if_neg Bool.false_ne_true, List.reverse_reverse]
    have hdigits : ∀ c ∈ Numeral.hexByte b, ∃ digit : Fin 16, c = Numeral.digitByte digit :=
      fun c hc => Numeral.mem_hexPadded hc
    rw [List.flatMap_cons, List.cons_append, fieldsFrom_space, fieldsFrom_digits hdigits,
      List.append_nil, ih, hfield, List.map_cons]

end Text

namespace ObjectLine

/-- The text of an object line. -/
def text (line : ObjectLine) : Text :=
  Numeral.hexWord line.address ++
    Byte.colon :: line.data.flatMap fun b => Byte.space :: Numeral.hexByte b

/-- What holds of all digits, of the colon and of the blank holds of every byte of the text. -/
theorem forall_mem_text {P : UInt8 → Prop} (line : ObjectLine)
    (hdigits : ∀ digit : Fin 16, P (Numeral.digitByte digit)) (hcolon : P Byte.colon)
    (hspace : P Byte.space) : ∀ b ∈ line.text, P b := by
  intro b hb
  rw [text, List.mem_append, List.mem_cons, List.mem_flatMap] at hb
  rcases hb with haddress | rfl | ⟨c, _, hc⟩
  · obtain ⟨digit, rfl⟩ := Numeral.mem_hexPadded haddress
    exact hdigits digit
  · exact hcolon
  · rcases List.mem_cons.mp hc with rfl | hbyte
    · exact hspace
    · obtain ⟨digit, rfl⟩ := Numeral.mem_hexPadded hbyte
      exact hdigits digit

/-- Five bytes for the address and three for each byte of data. -/
theorem length_text (line : ObjectLine) : line.text.length = 5 + 3 * line.data.length := by
  have hdata : ∀ data : List UInt8,
      (data.flatMap fun b => Byte.space :: Numeral.hexByte b).length = 3 * data.length := by
    intro data
    induction data with
    | nil => rfl
    | cons b data ih =>
      rw [List.flatMap_cons, List.length_append, ih, List.length_cons, Numeral.length_hexByte,
        List.length_cons]
      omega
  rw [text, List.length_append, List.length_cons, hdata, Numeral.length_hexWord]
  omega

/-- The text of a line with data ends with a digit. -/
theorem text_eq_concat {line : ObjectLine} (h : line.data ≠ []) :
    ∃ (front : Text) (digit : Fin 16), line.text = front ++ [Numeral.digitByte digit] := by
  obtain ⟨data, b, hdata⟩ : ∃ data b, line.data = data ++ [b] :=
    ⟨_, _, (List.dropLast_append_getLast h).symm⟩
  have hsome : Numeral.hexByte b ≠ [] := by
    rw [← List.length_pos_iff, Numeral.length_hexByte]
    decide
  obtain ⟨digit, hdigit⟩ := Numeral.mem_hexPadded (List.getLast_mem hsome)
  refine ⟨Numeral.hexWord line.address ++
    Byte.colon :: (data.flatMap (fun c => Byte.space :: Numeral.hexByte c) ++
      Byte.space :: (Numeral.hexByte b).dropLast), digit, ?_⟩
  have hlast := List.dropLast_append_getLast hsome
  rw [hdigit] at hlast
  rw [text, hdata, List.flatMap_append, List.flatMap_singleton, ← hlast]
  simp

end ObjectLine

/-- Blanks behind a text are dropped with those at its end. -/
theorem Text.withoutTrailingSpaces_append_blanks (t : Text) (count : Nat) :
    (t ++ List.replicate count Byte.space).withoutTrailingSpaces = t.withoutTrailingSpaces := by
  -- Trailing blanks are dropped at the front of the reversed text.
  change List.rdropWhile (fun c => decide (c = Byte.space)) _ = List.rdropWhile _ t
  induction count with
  | zero => rw [List.replicate_zero, List.append_nil]
  | succ count ih =>
    rw [List.replicate_succ', ← List.append_assoc]
    exact (List.rdropWhile_concat_pos _ _ _ (by simp)).trans ih

/-- Blanks behind a text that ends otherwise are dropped. -/
theorem Text.withoutTrailingSpaces_append {front : Text} {b : UInt8} (hb : b ≠ Byte.space)
    (count : Nat) :
    (front ++ [b] ++ List.replicate count Byte.space).withoutTrailingSpaces = front ++ [b] := by
  rw [withoutTrailingSpaces_append_blanks]
  exact List.rdropWhile_concat_neg _ _ _ (by simpa using hb)

/-- The assembly field of a record without bytes is empty. -/
theorem Memory.assembly_of_bytes_eq_nil {m : Memory} {contributions : Array UInt8}
    (h : m.bytes contributions = []) : m.assembly contributions = [] := by
  rw [assembly, h]

/-- The assembly field of a record with bytes is the text of its object line, with blanks for the
bytes that an instruction may have besides. -/
theorem Memory.assembly_eq {m : Memory} {contributions : Array UInt8}
    (h : m.bytes contributions ≠ []) :
    ∃ count, count ≤ 3 * (Instruction.maxSize - (m.bytes contributions).length) ∧
      m.assembly contributions = ObjectLine.text ⟨m.address, m.bytes contributions⟩ ++
        List.replicate count Byte.space := by
  obtain ⟨count, hbound, hcount⟩ : ∃ count,
      count ≤ 3 * (Instruction.maxSize - (m.bytes contributions).length) ∧
      m.filler (m.bytes contributions).length = List.replicate count Byte.space := by
    cases m with
    | instruction i => exact ⟨_, Nat.le_refl _, rfl⟩
    | checksum c => exact ⟨0, Nat.zero_le _, rfl⟩
  refine ⟨count, hbound, ?_⟩
  rw [← hcount]
  unfold assembly
  split
  · next hempty => exact absurd hempty h
  · simp [ObjectLine.text]

/-- The assembly field of a record with bytes is the text of its object line and blanks. -/
theorem Memory.withoutTrailingSpaces_assembly {m : Memory} {contributions : Array UInt8}
    (h : m.bytes contributions ≠ []) :
    (m.assembly contributions).withoutTrailingSpaces =
      ObjectLine.text ⟨m.address, m.bytes contributions⟩ := by
  obtain ⟨count, _, hassembly⟩ := assembly_eq h
  have hdata : (ObjectLine.mk m.address (m.bytes contributions)).data ≠ [] := h
  obtain ⟨front, digit, htext⟩ := ObjectLine.text_eq_concat hdata
  have hdigit : ∀ d : Fin 16, Numeral.digitByte d ≠ Byte.space := by decide
  rw [hassembly, htext, Text.withoutTrailingSpaces_append (hdigit digit)]

namespace ObjectFile

/-- The digits of a byte read back as the byte. -/
theorem parseByte_hexByte (b : UInt8) : parseByte (Numeral.hexByte b) = .ok b := by
  have hread : Numeral.read 16 0xFF (Numeral.hexByte b) = .ok b.toNat :=
    Numeral.read_hexPadded 2 (Nat.le_of_lt_succ b.toNat_lt)
  rw [parseByte, hread]
  dsimp only
  rw [if_pos (Numeral.length_hexByte b), UInt8.ofNat_toNat]

/-- Fields with the digits of bytes read back as the bytes. -/
theorem parseBytes_hexByte (data : List UInt8) :
    parseBytes (data.map Numeral.hexByte) = .ok data := by
  induction data with
  | nil => rfl
  | cons b data ih => rw [List.map_cons, parseBytes, parseByte_hexByte, ih]

/-- The text of an object line with data reads back as the line. -/
theorem parseLine_text {line : ObjectLine} (h : line.data ≠ []) :
    parseLine line.text = .ok line := by
  have hplain : ∀ b ∈ Numeral.hexWord line.address, decide (b ≠ Byte.colon) = true := by
    intro b hb
    obtain ⟨digit, rfl⟩ := Numeral.mem_hexPadded hb
    have hdigit : ∀ d : Fin 16, decide (Numeral.digitByte d ≠ Byte.colon) = true := by decide
    exact hdigit digit
  have hbefore : line.text.before Byte.colon = Numeral.hexWord line.address := by
    rw [Text.before, ObjectLine.text, List.takeWhile_append_of_pos hplain,
      List.takeWhile_cons_of_neg (by simp), List.append_nil]
  have hafter : line.text.after? Byte.colon =
      some (line.data.flatMap fun b => Byte.space :: Numeral.hexByte b) := by
    rw [Text.after?, ObjectLine.text, List.dropWhile_append_of_pos hplain,
      List.dropWhile_cons_of_neg (by simp)]
  have haddress : Numeral.read 16 0xFFFF (Numeral.hexWord line.address) =
      .ok line.address.toNat :=
    Numeral.read_hexPadded 4 (Nat.le_of_lt_succ line.address.toNat_lt)
  have hfields : Text.fields (line.data.flatMap fun b => Byte.space :: Numeral.hexByte b) =
      line.data.map Numeral.hexByte := Text.fieldsFrom_bytes line.data []
  obtain ⟨address, data⟩ := line
  obtain ⟨b, rest, rfl⟩ := List.exists_cons_of_ne_nil h
  simp only [parseLine, hbefore, hafter, haddress, hfields, parseBytes_hexByte,
    Numeral.length_hexWord, ne_eq, not_true_eq_false, reduceIte, UInt16.ofNat_toNat]

end ObjectFile

end ColumnAssembler
