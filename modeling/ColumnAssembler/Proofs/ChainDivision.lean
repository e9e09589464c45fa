import ColumnAssembler.Proofs.ColumnCuts
import ColumnAssembler.Proofs.OperatorChain

/-!
# Where an expression is divided

An expression is read from left to right. A quote that is closed further on takes everything up to
the next equal quote with it, any other byte is looked at on its own, and an expression is divided
at the operators that are looked at. The positions that this reading looks at are described here
apart from the division itself, and so are the spans it steps over. The main statement says that the
division loses nothing, that an operator stays in an operand exactly where a span protects it, and
that the reading by positions, with every cut checked, never leaves the text.
-/

namespace ColumnAssembler

namespace Text

/-- Behind the front of what follows a position comes its rest. -/
theorem drop_add_of_drop {t rest : Text} {i : Nat} (front : Text) (h : t.drop i = front ++ rest) :
    t.drop (i + front.length) = rest := by
  rw [← List.drop_drop, h, List.drop_left]

/-- Behind a span of quotes comes the rest of the text. -/
theorem drop_of_span {t inner rest : Text} {i : Nat} {quote : UInt8}
    (h : t.drop i = quote :: (inner ++ quote :: rest)) :
    t.drop (i + (inner.length + 1) + 1) = rest := by
  have hspan : t.drop i = (quote :: (inner ++ [quote])) ++ rest := by
    rw [h, List.cons_append, List.append_assoc, List.singleton_append]
  have hrest := drop_add_of_drop _ hspan
  rwa [List.length_cons, List.length_append] at hrest

/-- Behind a byte comes the rest of the text. -/
theorem drop_succ_of_drop {t rest : Text} {i : Nat} {b : UInt8} (h : t.drop i = b :: rest) :
    t.drop (i + 1) = rest := drop_add_of_drop [b] h

/-- A position that is followed by a byte is inside the text and has this byte. -/
theorem getElem_of_drop {t rest : Text} {i : Nat} {b : UInt8} (h : t.drop i = b :: rest) :
    ∃ hin : i < t.length, t[i] = b := by
  rw [← List.getElem?_eq_some_iff, ← List.head?_drop, h, List.head?_cons]

/-- The part behind a byte is in range. -/
theorem slice?_of_drop {t rest : Text} {i : Nat} {b : UInt8} (h : t.drop i = b :: rest) :
    t.slice? (i + 1) t.length = some rest := by
  rw [slice?_of_le (getElem_of_drop h).1 (Nat.le_refl _), List.take_length, drop_succ_of_drop h]

/-- What follows a position has the bytes of the text from there on. -/
theorem getElem?_of_drop {t s : Text} {i : Nat} (h : t.drop i = s) (k : Nat) :
    t[i + k]? = s[k]? := by
  rw [← h, List.getElem?_drop]

end Text

namespace Operator

/-- The bytes of the operators. -/
def bytes : Text := Text.ascii "+-*/&.!"

/-- The bytes of the operators are those that are read as one. -/
theorem contains_bytes (b : UInt8) : bytes.contains b = (ofByte? b).isSome := by
  have hbytes : bytes = all.map byte := by decide
  rw [Bool.eq_iff_iff, List.contains_iff_mem, hbytes, List.mem_map, ofByte?, List.find?_isSome]
  simp only [beq_iff_eq]

/-- An operator is no quote. -/
theorem isQuote_byte (op : Operator) : Text.isQuote op.byte = false := by cases op <;> rfl

/-- A quote is no operator. -/
theorem ofByte?_of_isQuote {b : UInt8} (h : Text.isQuote b = true) : ofByte? b = none := by
  cases hop : ofByte? b with
  | none => rfl
  | some op =>
    rw [← byte_of_ofByte? hop, op.isQuote_byte] at h
    exact absurd h Bool.false_ne_true

end Operator

namespace Chain

/-- The operators of a chain in order. -/
def operatorBytes (chain : Chain) : List UInt8 := chain.rest.map fun link => link.1.byte

/-- Operands put together with operators between them. Every byte is marked with whether it is one
of these operators. -/
def interleave : List Text → List UInt8 → List (UInt8 × Bool)
  | operands, [] => operands.flatten.map fun b => (b, false)
  | [], ops => ops.map fun b => (b, true)
  | operand :: operands, op :: ops =>
    (operand.map fun b => (b, false)) ++ (op, true) :: interleave operands ops

/-- The text of a chain, with its operators marked. -/
def marked (chain : Chain) : List (UInt8 × Bool) := interleave chain.operands chain.operatorBytes

/-- A text in front of the first operand. -/
def prepend (front : Text) (chain : Chain) : Chain := { chain with head := front ++ chain.head }

@[simp] theorem marked_prepend (front : Text) (chain : Chain) :
    (chain.prepend front).marked = (front.map fun b => (b, false)) ++ chain.marked := by
  obtain ⟨head, rest⟩ := chain
  cases rest with
  | nil => simp [marked, prepend, operands, operatorBytes, interleave]
  | cons link links => simp [marked, prepend, operands, operatorBytes, interleave]

@[simp] theorem marked_divide (op : Operator) (chain : Chain) :
    (chain.divide op).marked = (op.byte, true) :: chain.marked := rfl

/-- The reading of a text from left to right, with the chain that it is divided into. -/
inductive Reads : Text → Chain → Prop where
  /-- The end of the text ends the last operand. -/
  | finish : Reads [] ⟨[], []⟩
  /-- All from a quote to the next equal one belongs to an operand. -/
  | span {quote : UInt8} {inner rest : Text} {chain : Chain} (hquote : Text.isQuote quote = true)
      (hinner : quote ∉ inner) (h : Reads rest chain) :
      Reads (quote :: (inner ++ quote :: rest)) (chain.prepend (quote :: (inner ++ [quote])))
  /-- An operator ends an operand. -/
  | operator {op : Operator} {rest : Text} {chain : Chain} (h : Reads rest chain) :
      Reads (op.byte :: rest) (chain.divide op)
  /-- Any other byte belongs to an operand, a quote that is not closed among them. -/
  | plain {b : UInt8} {rest : Text} {chain : Chain} (hbyte : Operator.ofByte? b = none)
      (hopen : Text.isQuote b = true → b ∉ rest) (h : Reads rest chain) :
      Reads (b :: rest) (chain.prepend [b])

/-- A text is divided as it is read. -/
theorem reads_split (t : Text) : Reads t (split t) := by
  -- A span is stepped over as a whole, so the induction is on the length.
  induction hlength : t.length using Nat.strongRecOn generalizing t with
  | ind n ih =>
    cases t with
    | nil => exact .finish
    | cons b rest =>
      by_cases hspan : Text.isQuote b = true ∧ b ∈ rest
      · obtain ⟨inner, behind, rfl, hinner⟩ := List.eq_append_cons_of_mem hspan.2
        rw [split_span hspan.1 hinner]
        have hbehind := ih behind.length (by simp at hlength; omega) behind rfl
        have hread := Reads.span hspan.1 hinner hbehind
        rwa [prepend, List.cons_append, List.append_assoc] at hread
      · have hrest := ih rest.length (by simp at hlength; omega) rest rfl
        cases hbyte : Operator.ofByte? b with
        | some op =>
          rw [← Operator.byte_of_ofByte? hbyte, split_operator]
          exact .operator hrest
        | none =>
          have hsplit : split (b :: rest) = (split rest).prepend [b] := by
            rw [split, splitFrom, if_neg, hbyte]
            · rfl
            · rw [Bool.and_eq_true, List.contains_iff_mem]
              exact hspan
          rw [hsplit]
          exact .plain hbyte (fun hquote hmem => hspan ⟨hquote, hmem⟩) hrest

/-- The quote at a position is closed at another one: that is where the same byte comes next. -/
structure Closes (t : Text) (i j : Nat) : Prop where
  /-- There is a quote at the first position. -/
  quote : ∃ b, t[i]? = some b ∧ Text.isQuote b = true
  /-- The second one comes later. -/
  later : i < j
  /-- It has the same byte. -/
  same : t[j]? = t[i]?
  /-- No position between them has it. -/
  next : ∀ k, i < k → k < j → t[k]? ≠ t[i]?

/-- The positions that a reading from left to right looks at. -/
inductive Visits (t : Text) : Nat → Prop where
  /-- It starts in front. -/
  | start : Visits t 0
  /-- From a quote that is closed it goes on behind the closing one. -/
  | behind {i j : Nat} (h : Visits t i) (hclosed : Closes t i j) : Visits t (j + 1)
  /-- From any other position in the text it goes on to the next one. -/
  | step {i : Nat} (h : Visits t i) (hin : i < t.length) (hopen : ∀ j, ¬ Closes t i j) :
      Visits t (i + 1)

/-- A position between a quote that the reading looks at and the next equal one. -/
def Protected (t : Text) (p : Nat) : Prop :=
  ∃ i j, Visits t i ∧ Closes t i j ∧ i < p ∧ p < j

/-- A span of quotes is closed where it ends. -/
theorem closes_of_drop {t : Text} {i : Nat} {quote : UInt8} {inner rest : Text}
    (ht : t.drop i = quote :: (inner ++ quote :: rest)) (hquote : Text.isQuote quote = true)
    (hinner : quote ∉ inner) : Closes t i (i + (inner.length + 1)) := by
  have hat := Text.getElem?_of_drop ht
  have hfirst : t[i]? = some quote := hat 0
  refine ⟨⟨quote, hfirst, hquote⟩, by omega, ?_, fun k hik hkj => ?_⟩
  · rw [hat, hfirst, List.getElem?_cons_succ, List.getElem?_append_right (Nat.le_refl _),
      Nat.sub_self, List.getElem?_cons_zero]
  · obtain ⟨k, rfl⟩ : ∃ d, k = i + (d + 1) := ⟨k - i - 1, by omega⟩
    rw [hat, hfirst, List.getElem?_cons_succ, List.getElem?_append_left (by omega)]
    exact fun hk => hinner (List.mem_of_getElem? hk)

/-- A byte that does not come again, or is no quote, is closed nowhere. -/
theorem not_closes_of_drop {t : Text} {i : Nat} {b : UInt8} {rest : Text}
    (ht : t.drop i = b :: rest) (hopen : Text.isQuote b = true → b ∉ rest) (j : Nat) :
    ¬ Closes t i j := by
  have hat := Text.getElem?_of_drop ht
  have hfirst : t[i]? = some b := hat 0
  intro h
  obtain ⟨c, hc, hquote⟩ := h.quote
  obtain rfl : b = c := Option.some.inj (hfirst.symm.trans hc)
  obtain ⟨d, rfl⟩ : ∃ d, j = i + (d + 1) := ⟨j - i - 1, by have := h.later; omega⟩
  have hagain := h.same
  rw [hat, hfirst, List.getElem?_cons_succ] at hagain
  exact hopen hquote (List.mem_of_getElem? hagain)

/-- A quote is closed at one position only. -/
theorem Closes.unique {t : Text} {i j k : Nat} (hj : Closes t i j) (hk : Closes t i k) : j = k := by
  rcases Nat.lt_trichotomy j k with hlt | heq | hgt
  · exact absurd hj.same (hk.next j hj.later hlt)
  · exact heq
  · exact absurd hk.same (hj.next k hk.later hgt)

/-- A reading that looks at a position behind a quote has left the span of that quote. -/
theorem Visits.lt_of_closes {t : Text} {i j p : Nat} (hp : Visits t p) (hi : Visits t i)
    (hclosed : Closes t i j) (hlt : i < p) : j < p := by
  -- Both positions may be reached by a step over a span, so the later one bounds the induction.
  induction p using Nat.strongRecOn generalizing i j with
  | ind p ih =>
    cases hp with
    | start => omega
    | @step k hk _ hopen =>
      rcases Nat.lt_or_eq_of_le (Nat.le_of_lt_succ hlt) with hik | rfl
      · exact Nat.lt_succ_of_lt (ih k (Nat.lt_succ_self k) hk hi hclosed hik)
      · exact absurd hclosed (hopen j)
    | @behind k l hk hspan =>
      have hkl := hspan.later
      rcases Nat.lt_trichotomy i k with hik | rfl | hki
      · have := ih k (by omega) hk hi hclosed hik
        omega
      · have := hclosed.unique hspan
        omega
      · -- The span that was stepped over would have to be left before its end.
        have := ih i hlt hi hk hspan hki
        omega

/-- A position that the reading looks at is not protected. -/
theorem Visits.not_protected {t : Text} {p : Nat} (h : Visits t p) : ¬ Protected t p := by
  rintro ⟨i, j, hi, hclosed, hip, hpj⟩
  have := h.lt_of_closes hi hclosed hip
  omega

/-- What a mark says about a byte at a position: the reading looks at an operator between operands,
and steps over an operator inside of one. -/
def MarkHolds (t : Text) (p : Nat) : UInt8 × Bool → Prop
  | (_, true) => Visits t p
  | (b, false) => (Operator.ofByte? b).isSome = true → Protected t p

/-- The marks of a part of a text, from a position on, are right. -/
def MarksHold (t : Text) (i : Nat) (part : List (UInt8 × Bool)) : Prop :=
  ∀ p byte, part[p]? = some byte → MarkHolds t (i + p) byte

/-- One part behind another one. -/
theorem MarksHold.append {t : Text} {i : Nat} {front behind : List (UInt8 × Bool)}
    (hfront : MarksHold t i front) (hbehind : MarksHold t (i + front.length) behind) :
    MarksHold t i (front ++ behind) := by
  intro p byte hp
  rcases Nat.lt_or_ge p front.length with hlt | hge
  · rw [List.getElem?_append_left hlt] at hp
    exact hfront p byte hp
  · rw [List.getElem?_append_right hge] at hp
    have hmark := hbehind _ byte hp
    rwa [Nat.add_assoc, Nat.add_sub_cancel' hge] at hmark

/-- A text that belongs to an operand, if its operators are protected. -/
theorem marksHold_map {t : Text} {i : Nat} {front : Text}
    (h : ∀ p b, front[p]? = some b → (Operator.ofByte? b).isSome = true → Protected t (i + p)) :
    MarksHold t i (front.map fun b => (b, false)) := by
  intro p byte hp
  rw [List.getElem?_map, Option.map_eq_some_iff] at hp
  obtain ⟨b, hb, rfl⟩ := hp
  exact h p b hb

/-- The operators inside a span are protected; the quotes at its ends are none. -/
theorem marksHold_span {t : Text} {i : Nat} {quote : UInt8} {inner rest : Text}
    (ht : t.drop i = quote :: (inner ++ quote :: rest)) (hquote : Text.isQuote quote = true)
    (hinner : quote ∉ inner) (hi : Visits t i) :
    MarksHold t i ((quote :: (inner ++ [quote])).map fun b => (b, false)) := by
  refine marksHold_map fun p b hp hop => ?_
  have hother : b ≠ quote := by
    rintro rfl
    rw [Operator.ofByte?_of_isQuote hquote] at hop
    exact absurd hop Bool.false_ne_true
  refine ⟨i, _, hi, closes_of_drop ht hquote hinner, ?_, ?_⟩
  · cases p with
    | zero => exact absurd (Option.some.inj hp).symm hother
    | succ p => omega
  · rcases Nat.lt_or_ge p (inner.length + 1) with hlt | hge
    · omega
    · -- From here on the span has its closing quote only.
      obtain ⟨k, rfl⟩ : ∃ k, p = inner.length + k + 1 := ⟨p - inner.length - 1, by omega⟩
      rw [List.getElem?_cons_succ, List.getElem?_append_right (Nat.le_add_right _ _)] at hp
      exact absurd (List.mem_singleton.mp (List.mem_of_getElem? hp)) hother

/-- The marks of what is read from a position on are right, if the reading looks there. -/
theorem Reads.marksHold {s : Text} {chain : Chain} (h : Reads s chain) {t : Text} {i : Nat}
    (ht : t.drop i = s) (hi : Visits t i) : MarksHold t i chain.marked := by
  induction h generalizing i with
  | finish =>
    intro p byte hp
    simp [marked, operands, operatorBytes, interleave] at hp
  | @span quote inner rest chain hquote hinner _ ih =>
    have hbehind := hi.behind (closes_of_drop ht hquote hinner)
    have hmarks := ih (Text.drop_of_span ht) hbehind
    rw [marked_prepend]
    refine (marksHold_span ht hquote hinner hi).append ?_
    rwa [List.length_map, List.length_cons, List.length_append]
  | @operator op rest chain _ ih =>
    have hopen := not_closes_of_drop ht fun hquote =>
      absurd (op.isQuote_byte.symm.trans hquote) Bool.false_ne_true
    have hmarks := ih (Text.drop_succ_of_drop ht) (hi.step (Text.getElem_of_drop ht).1 hopen)
    have hhere : MarksHold t i [(op.byte, true)] := by
      intro p byte hp
      obtain ⟨rfl, rfl⟩ : p = 0 ∧ byte = (op.byte, true) := by
        cases p with
        | zero => exact ⟨rfl, (Option.some.inj hp).symm⟩
        | succ p => simp at hp
      exact hi
    exact hhere.append hmarks
  | @plain b rest chain hbyte hopen _ ih =>
    have hnext := hi.step (Text.getElem_of_drop ht).1 (not_closes_of_drop ht hopen)
    have hmarks := ih (Text.drop_succ_of_drop ht) hnext
    rw [marked_prepend]
    refine (marksHold_map fun p c hp hop => ?_).append hmarks
    obtain rfl := List.mem_singleton.mp (List.mem_of_getElem? hp)
    rw [hbyte] at hop
    exact absurd hop Bool.false_ne_true

/-- The reading by positions: the last operand starts at one position, the reading stands at another
one. There is no result when a cut is out of range. -/
def readFrom? (t : Text) (start i : Nat) : Option (List Text × List UInt8) :=
  if h : i < t.length then
    if Text.isQuote t[i] then
      match t.slice? (i + 1) t.length with
      | none => none
      | some behind =>
        match behind.idxOf? t[i] with
        | some distance => readFrom? t start (i + (distance + 1) + 1)
        | none => readFrom? t start (i + 1)
    else if Operator.bytes.contains t[i] then
      match t.slice? start i with
      | none => none
      | some operand =>
        (readFrom? t (i + 1) (i + 1)).map fun rest => (operand :: rest.1, t[i] :: rest.2)
    else readFrom? t start (i + 1)
  else (t.slice? start t.length).map fun operand => ([operand], [])
termination_by t.length - i

/-- The reading by positions from the start of a text. -/
def read? (t : Text) : Option (List Text × List UInt8) := readFrom? t 0 0

/-- A span is stepped over. -/
theorem readFrom?_span {t inner rest : Text} {i : Nat} {quote : UInt8}
    (ht : t.drop i = quote :: (inner ++ quote :: rest)) (hquote : Text.isQuote quote = true)
    (hinner : quote ∉ inner) (start : Nat) :
    readFrom? t start i = readFrom? t start (i + (inner.length + 1) + 1) := by
  obtain ⟨hin, hhere⟩ := Text.getElem_of_drop ht
  have hfound : (inner ++ quote :: rest).idxOf? quote = some inner.length := by
    rw [List.idxOf?_eq_some_iff]
    refine ⟨by simp, by simp, fun j hj hat => hinner ?_⟩
    rw [List.getElem_append_left hj] at hat
    exact hat ▸ List.getElem_mem hj
  rw [readFrom?, dif_pos hin]
  simp only [hhere, hquote, if_true, Text.slice?_of_drop ht, hfound]

/-- A byte that is no operator and opens no span is passed by. -/
theorem readFrom?_plain {t rest : Text} {i : Nat} {b : UInt8} (ht : t.drop i = b :: rest)
    (hbyte : Operator.ofByte? b = none) (hopen : Text.isQuote b = true → b ∉ rest) (start : Nat) :
    readFrom? t start i = readFrom? t start (i + 1) := by
  obtain ⟨hin, hhere⟩ := Text.getElem_of_drop ht
  have hoperator : Operator.bytes.contains b = false := by
    rw [Operator.contains_bytes, hbyte, Option.isSome_none]
  rw [readFrom?, dif_pos hin]
  cases hquote : Text.isQuote b with
  | false => simp only [hhere, hquote, hoperator, Bool.false_eq_true, if_false]
  | true =>
    have hnone : rest.idxOf? b = none := List.idxOf?_eq_none_iff.mpr (hopen hquote)
    simp only [hhere, hquote, if_true, Text.slice?_of_drop ht, hnone]

/-- An operator ends the operand, and the next one starts behind it. -/
theorem readFrom?_operator {t rest : Text} {i start : Nat} {op : Operator}
    (ht : t.drop i = op.byte :: rest) (hstart : start ≤ i) :
    readFrom? t start i = (readFrom? t (i + 1) (i + 1)).map fun later =>
      ((t.take i).drop start :: later.1, op.byte :: later.2) := by
  obtain ⟨hin, hhere⟩ := Text.getElem_of_drop ht
  have hoperator : Operator.bytes.contains op.byte = true := by
    rw [Operator.contains_bytes, Operator.ofByte?_byte, Option.isSome_some]
  have hslice := Text.slice?_of_le hstart (Nat.le_of_lt hin)
  rw [readFrom?, dif_pos hin]
  simp only [hhere, op.isQuote_byte, hoperator, hslice, Bool.false_eq_true, if_false, if_true]

/-- The part of the last operand that was read grows with what is read. -/
theorem prepend_part {t rest : Text} {start i : Nat} (front : Text)
    (ht : t.drop i = front ++ rest) (hstart : start ≤ i) (hi : i ≤ t.length) (chain : Chain) :
    chain.prepend ((t.take (i + front.length)).drop start) =
      (chain.prepend front).prepend ((t.take i).drop start) := by
  have hpart : (t.take (i + front.length)).drop start = (t.take i).drop start ++ front := by
    rw [List.take_add, ht, List.take_left, List.drop_append_of_le_length]
    rwa [List.length_take, Nat.min_eq_left hi]
  rw [hpart, prepend, prepend, prepend, List.append_assoc]

/-- No cut of the reading is out of range, and it divides the text as it is read. -/
theorem Reads.readFrom?_eq {s : Text} {chain : Chain} (h : Reads s chain) {t : Text}
    {start i : Nat} (ht : t.drop i = s) (hstart : start ≤ i) (hi : i ≤ t.length) :
    readFrom? t start i = some ((chain.prepend ((t.take i).drop start)).operands,
      chain.operatorBytes) := by
  induction h generalizing start i with
  | finish =>
    obtain rfl : i = t.length := Nat.le_antisymm hi (List.drop_eq_nil_iff.mp ht)
    rw [readFrom?, dif_neg (Nat.lt_irrefl _), Text.slice?_of_le hstart (Nat.le_refl _)]
    simp [prepend, operands, operatorBytes]
  | @span quote inner rest chain hquote hinner _ ih =>
    have hspan : t.drop i = (quote :: (inner ++ [quote])) ++ rest := by
      rw [ht, List.cons_append, List.append_assoc, List.singleton_append]
    have hlength := congrArg List.length hspan
    have hpart := prepend_part _ hspan hstart hi chain
    rw [List.length_cons, List.length_append, List.length_singleton] at hpart
    rw [List.length_drop, List.length_append, List.length_cons, List.length_append,
      List.length_singleton] at hlength
    rw [readFrom?_span ht hquote hinner, ih (Text.drop_of_span ht) (by omega) (by omega),
      Nat.add_assoc, hpart]
    rfl
  | @operator op rest chain _ ih =>
    have hin := (Text.getElem_of_drop ht).1
    rw [readFrom?_operator ht hstart, ih (Text.drop_succ_of_drop ht) (Nat.le_refl _) hin]
    simp [prepend, divide, operands, operatorBytes]
  | @plain b rest chain hbyte hopen _ ih =>
    have hin := (Text.getElem_of_drop ht).1
    have hpart := prepend_part [b] ht hstart hi chain
    rw [List.length_singleton] at hpart
    rw [readFrom?_plain ht hbyte hopen,
      ih (Text.drop_succ_of_drop ht) (Nat.le_succ_of_le hstart) hin, hpart]
    rfl

/-- A text is divided into the operands and operators of a chain. -/
structure DividesInto (t : Text) (operands : List Text) (ops : List UInt8) : Prop where
  /-- There is one operand more than operators. -/
  count : operands.length = ops.length + 1
  /-- Put together they are the text. -/
  rebuilt : (interleave operands ops).map Prod.fst = t
  /-- The operators are of the seven kinds. -/
  operators : ∀ op ∈ ops, op ∈ Text.ascii "+-*/&.!"
  /-- An operator byte stays inside an operand only between a quote and the next equal one. -/
  kept : ∀ p b, (interleave operands ops)[p]? = some (b, false) → b ∈ Text.ascii "+-*/&.!" →
    Protected t p
  /-- No operator is taken from there. -/
  taken : ∀ p b, (interleave operands ops)[p]? = some (b, true) → ¬ Protected t p

/-- The text of a chain, with its operators marked, is its text. -/
theorem map_marked (chain : Chain) : chain.marked.map Prod.fst = chain.text := by
  obtain ⟨head, rest⟩ := chain
  induction rest generalizing head with
  | nil => simp [marked, operands, operatorBytes, interleave, text, Function.comp_def]
  | cons link links ih =>
    rw [text_link, ← ih link.2]
    simp [marked, operands, operatorBytes, interleave, Function.comp_def]

/-- A text is divided into the operands and operators of its chain. -/
theorem dividesInto_split (t : Text) :
    DividesInto t (split t).operands (split t).operatorBytes := by
  have hmarks : MarksHold t 0 (split t).marked := (reads_split t).marksHold rfl .start
  refine ⟨?_, ?_, ?_, fun p b hp hb => ?_, fun p b hp => ?_⟩
  · simp [operands, operatorBytes]
  · exact (map_marked (split t)).trans (text_splitFrom none t)
  · intro op hop
    obtain ⟨link, _, rfl⟩ := List.mem_map.mp hop
    cases link.1 <;> decide
  · have hmark := hmarks p _ hp
    rw [Nat.zero_add] at hmark
    refine hmark ?_
    rw [← Operator.contains_bytes]
    exact List.contains_iff_mem.mpr hb
  · have hmark := hmarks p _ hp
    rw [Nat.zero_add] at hmark
    exact hmark.not_protected

/-- A text is divided without loss, whatever its bytes are. The reading by positions never cuts out
of range and gives the operands and operators of the chain, with one operand more than operators.
Put together they are the text again, the operators are of the seven kinds, and an operator byte
stays in an operand exactly where it lies between a quote and the next equal one. A quote that is
not closed protects nothing: behind it only a span that starts later does. So every operator has an
operand at the next index, and that is the one it is applied to. -/
theorem split_loses_nothing (t : Text) :
    let chain := split t
    let operands := chain.operands
    let ops := chain.operatorBytes
    read? t = some (operands, ops) ∧ DividesInto t operands ops ∧
      (∀ i quote, Visits t i → t[i]? = some quote → Text.isQuote quote = true →
        (∀ j, i < j → t[j]? ≠ some quote) →
        ∀ p b, i < p → (interleave operands ops)[p]? = some (b, false) →
          b ∈ Text.ascii "+-*/&.!" →
          ∃ k j, i < k ∧ Visits t k ∧ Closes t k j ∧ k < p ∧ p < j) ∧
      ∀ i < ops.length, ∃ link, chain.rest[i]? = some link ∧ ops[i]? = some link.1.byte ∧
        operands[i + 1]? = some link.2 := by
  intro chain operands ops
  have hdivides := dividesInto_split t
  refine ⟨?_, hdivides, ?_, ?_⟩
  · exact (reads_split t).readFrom?_eq rfl (Nat.le_refl 0) (Nat.zero_le _)
  · intro i quote hi hquote _ hopen p b hip hp hb
    obtain ⟨k, j, hk, hclosed, hkp, hpj⟩ := hdivides.kept p b hp hb
    refine ⟨k, j, ?_, hk, hclosed, hkp, hpj⟩
    rcases Nat.lt_trichotomy i k with hik | rfl | hki
    · exact hik
    · exact absurd (hclosed.same.trans hquote) (hopen j hclosed.later)
    · -- A span that starts earlier ends before the reading comes to the quote.
      have hend := hi.lt_of_closes hk hclosed hki
      omega
  · intro i hi
    have hlink : i < chain.rest.length := by simpa [ops, operatorBytes] using hi
    refine ⟨chain.rest[i], List.getElem?_eq_getElem hlink, ?_, ?_⟩
    · simp [ops, operatorBytes, hlink]
    · simp [operands, Chain.operands, hlink]

/-- The apostrophe in front is not closed. Of the two sums behind it one is between other quotes and
stays in its operand, and the other one divides the text. -/
theorem split_loses_nothing_unclosed :
    let t := Text.ascii "'1\"+\"+2"
    read? t = some ([Text.ascii "'1\"+\"", Text.ascii "2"], [0x2B]) ∧
      Visits t 0 ∧ t[0]? = some Byte.apostrophe ∧ (∀ j, 0 < j → t[j]? ≠ some Byte.apostrophe) ∧
      ∃ k j, 0 < k ∧ Visits t k ∧ Closes t k j ∧ k < 3 ∧ 3 < j := by
  intro t
  have hopen : ∀ j, 0 < j → t[j]? ≠ some Byte.apostrophe := by
    intro j hj hat
    obtain ⟨j, rfl⟩ := Nat.exists_eq_add_of_lt hj
    have hmem : Byte.apostrophe ∈ t.tail := by
      rw [Nat.zero_add, ← List.getElem?_tail] at hat
      exact List.mem_of_getElem? hat
    exact absurd hmem (by decide)
  obtain ⟨hread, _, hunclosed, _⟩ := split_loses_nothing t
  refine ⟨hread.trans (by decide), .start, rfl, hopen, ?_⟩
  exact hunclosed 0 Byte.apostrophe .start rfl rfl hopen 3 0x2B (by decide) (by decide) (by decide)

end Chain

end ColumnAssembler
