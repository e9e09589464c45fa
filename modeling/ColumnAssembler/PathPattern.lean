import ColumnAssembler.FileTree
import ColumnAssembler.StableSort
import ColumnAssembler.Text.Glyph

/-!
# Path patterns

Patterns for file names: a star matches any bytes, a question mark any glyph, brackets a glyph of
the given ranges, and a backslash takes the meaning of the next byte away; none of them matches a
slash. A pattern is divided at its stars. Each piece after a star takes its earliest match, and the
last one takes the earliest that uses up the name. A malformed piece is noticed when its turn comes,
that is when all pieces before it have matched. The names of a directory are tried in bytewise
order.
-/

namespace ColumnAssembler

/-- A part of a pattern that matches one glyph or one byte. -/
inductive PatternItem where
  /-- A byte that stands for itself. -/
  | literal (b : UInt8)
  /-- Any glyph but a slash. -/
  | anyGlyph
  /-- A glyph in one of the ranges, or in none of them. -/
  | range (negated : Bool) (ranges : List (Nat × Nat))
  deriving DecidableEq, Repr

/-- The items of a pattern between two stars; nothing when they are malformed. -/
abbrev PatternPiece := Option (List PatternItem)

/-- A pattern divided at its stars. It is read up to the first malformed piece. -/
structure PathPattern where
  /-- The items before the first star. -/
  head : PatternPiece
  /-- The items after each star, up to the next. -/
  pieces : List PatternPiece
  deriving DecidableEq, Repr

namespace PathPattern

/-- The empty pattern. -/
def empty : PathPattern := ⟨some [], []⟩

/-- The pattern of one malformed piece. -/
def malformed : PathPattern := ⟨none, []⟩

/-- Put an item in front. -/
def cons (item : PatternItem) (pattern : PathPattern) : PathPattern :=
  { pattern with head := pattern.head.map (item :: ·) }

/-- Put a star in front. Stars in a row count once. -/
def star (pattern : PathPattern) : PathPattern :=
  match pattern.head, pattern.pieces with
  | some [], _ :: _ => pattern
  | head, pieces => ⟨some [], head :: pieces⟩

/-- Read one end of a range. It may be escaped, it may not be a bare hyphen or closing bracket, and
the pattern may not end after it. -/
def rangeEnd? (t : Text) : Option (Nat × Text) := do
  let body ← match t with
    | [] => none
    | b :: rest =>
      if b = Byte.minus ∨ b = 0x5D then none
      else if b = Byte.backslash then some rest
      else some t
  match body with
  | [] => none
  | b :: rest =>
    match Glyph.first b rest with
    | .stray _ => none
    | .scalar code =>
      let remaining := body.drop (Glyph.scalar code).width
      if remaining.isEmpty then none else some (code, remaining)

/-- Read a range: one end, or two with a hyphen between them. -/
def range? (t : Text) : Option ((Nat × Nat) × Text) := do
  let (low, rest) ← rangeEnd? t
  match rest with
  | b :: more =>
    if b = Byte.minus then
      let (high, remaining) ← rangeEnd? more
      some ((low, high), remaining)
    else some ((low, low), rest)
  | [] => some ((low, low), rest)

/-- Read ranges up to the closing bracket; there has to be at least one. The first argument bounds
their number, and the ranges found so far stand backwards. -/
def ranges? : Nat → List (Nat × Nat) → Text → Option (List (Nat × Nat) × Text)
  | 0, _, _ => none
  | room + 1, found, t =>
    if [0x5D].isPrefixOf t && !found.isEmpty then some (found.reverse, t.drop 1)
    else
      match range? t with
      | none => none
      | some (range, rest) => ranges? room (range :: found) rest

/-- Read the item that starts with a byte other than a star. The first argument bounds the number of
ranges. -/
def item? (room : Nat) (b : UInt8) (rest : Text) : Option (PatternItem × Text) :=
  if b = 0x3F then some (.anyGlyph, rest)
  else if b = Byte.backslash then
    match rest with
    | [] => none
    | c :: more => some (.literal c, more)
  else if b = 0x5B then
    let negated := [0x5E].isPrefixOf rest
    match ranges? room [] (if negated then rest.drop 1 else rest) with
    | none => none
    | some (ranges, more) => some (.range negated ranges, more)
  else some (.literal b, rest)

/-- Read a pattern. The first argument is at least its length and bounds the number of items. -/
def parseFrom : Nat → Text → PathPattern
  | _, [] => empty
  | 0, _ :: _ => malformed
  | room + 1, b :: rest =>
    if b = Byte.star then star (parseFrom room rest)
    else
      match item? room b rest with
      | none => malformed
      | some (item, more) => cons item (parseFrom room more)

/-- Read a pattern. -/
def parse (t : Text) : PathPattern := parseFrom t.length t

/-- Whether the first piece of a pattern that has items is well formed, which is all that trying
the pattern on the empty name can tell. The second argument says whether an item has been read. -/
def startsWellFrom : Nat → Bool → Text → Bool
  | _, _, [] => true
  | 0, _, _ :: _ => false
  | room + 1, started, b :: rest =>
    if b = Byte.star then started || startsWellFrom room false rest
    else
      match item? room b rest with
      | none => false
      | some (_, more) => startsWellFrom room true more

/-- Whether the first piece of a pattern that has items is well formed. -/
def startsWell (t : Text) : Bool := startsWellFrom t.length false t

/-- The rest of a name after one item. -/
def matchItem (item : PatternItem) (name : Text) : Option Text :=
  match name with
  | [] => none
  | b :: rest =>
    let glyph := Glyph.first b rest
    match item with
    | .literal c => if b = c then some rest else none
    | .anyGlyph => if b = Byte.slash then none else some (name.drop glyph.width)
    | .range negated ranges =>
      let inside := ranges.any fun range => range.1 ≤ glyph.code && glyph.code ≤ range.2
      if inside == negated then none else some (name.drop glyph.width)

/-- The rest of a name after some items. -/
def matchItems : List PatternItem → Text → Option Text
  | [], name => some name
  | item :: items, name => (matchItem item name).bind (matchItems items)

/-- The rest of a name after the earliest place where a piece matches; the last piece has to use up
the name. -/
def matchPiece (items : List PatternItem) (last : Bool) : Text → Option Text
  | [] => matchItems items []
  | b :: rest =>
    match (matchItems items (b :: rest)).filter fun remaining => !last || remaining.isEmpty with
    | some remaining => some remaining
    | none => if b = Byte.slash then none else matchPiece items last rest

/-- Whether a name matches the pieces after stars; nothing when a malformed piece is reached. A star
at the end matches all but slashes. -/
def matchPieces? : List PatternPiece → Text → Option Bool
  | [], name => some name.isEmpty
  | none :: _, _ => none
  | [some []], name => some (!name.contains Byte.slash)
  | some items :: pieces, name =>
    match matchPiece items pieces.isEmpty name with
    | some remaining => matchPieces? pieces remaining
    | none => some false

/-- Whether a name matches a pattern; nothing when a malformed piece is reached. -/
def matches? (pattern : PathPattern) (name : Text) : Option Bool :=
  match pattern.head with
  | none => none
  | some items =>
    match matchItems items name with
    | some remaining => matchPieces? pattern.pieces remaining
    | none => some false

/-- A star in front changes nothing for the empty name. -/
theorem matches?_star_nil (pattern : PathPattern) :
    pattern.star.matches? [] = none ↔ pattern.matches? [] = none := by
  obtain ⟨head, pieces⟩ := pattern
  match head, pieces with
  | some [], [] => simp [star, matches?, matchItems, matchPieces?]
  | some [], _ :: _ => simp [star]
  | none, _ => simp [star, matches?, matchItems, matchPieces?]
  | some (_ :: _), _ =>
    simp [star, matches?, matchItems, matchPieces?, matchPiece, matchItem]

/-- With an item in front, the empty name tells only whether the first piece is malformed. -/
theorem matches?_cons_nil (item : PatternItem) (pattern : PathPattern) :
    (cons item pattern).matches? [] = none ↔ pattern.head = none := by
  obtain ⟨head, pieces⟩ := pattern
  cases head <;> simp [cons, matches?, matchItems, matchItem]

/-- A pattern with a star in front has an empty head. -/
theorem head_star (pattern : PathPattern) : pattern.star.head = some [] := by
  obtain ⟨head, pieces⟩ := pattern
  match head, pieces with
  | some [], [] => simp [star]
  | some [], _ :: _ => simp [star]
  | none, _ => simp [star]
  | some (_ :: _), _ => simp [star]

/-- After an item, the start of a text is well formed unless it goes on with a malformed piece. -/
theorem startsWellFrom_true (room : Nat) (t : Text) :
    startsWellFrom room true t = false ↔ (parseFrom room t).head = none := by
  induction room generalizing t with
  | zero => cases t <;> simp [startsWellFrom, parseFrom, empty, malformed]
  | succ room ih =>
    cases t with
    | nil => simp [startsWellFrom, parseFrom, empty]
    | cons b rest =>
      rw [startsWellFrom, parseFrom]
      split
      · simp [head_star]
      · split
        · simp [malformed]
        · rw [ih]
          simp [cons]

/-- The start of a pattern is malformed exactly when trying the empty name reaches a malformed
piece. -/
theorem startsWell_eq_false_iff (t : Text) :
    startsWell t = false ↔ (parse t).matches? [] = none := by
  have general : ∀ (room : Nat) (t : Text),
      startsWellFrom room false t = false ↔ (parseFrom room t).matches? [] = none := by
    intro room
    induction room with
    | zero =>
      intro t
      cases t <;> simp [startsWellFrom, parseFrom, empty, malformed, matches?, matchItems,
        matchPieces?]
    | succ room ih =>
      intro t
      cases t with
      | nil => simp [startsWellFrom, parseFrom, empty, matches?, matchItems, matchPieces?]
      | cons b rest =>
        rw [startsWellFrom, parseFrom]
        split
        · rw [matches?_star_nil, ← ih]
          simp
        · split
          · simp [malformed, matches?]
          · rw [startsWellFrom_true, matches?_cons_nil]
  exact general t.length t

/-- The names that match a pattern; nothing when one of them reaches a malformed piece. -/
def select? (pattern : PathPattern) : List Text → Option (List Text)
  | [] => some []
  | name :: names => do
    let isMatch ← pattern.matches? name
    let others ← select? pattern names
    some (if isMatch then name :: others else others)

/-- Whether a byte has a meaning in patterns. -/
def isSpecial (b : UInt8) : Bool :=
  b == Byte.star || b == 0x3F || b == 0x5B || b == Byte.backslash

/-- The directory of a pattern: here when it has none, and without its last slash otherwise. -/
def directoryOf (t : Text) : Text :=
  match PathName.directory t with
  | [] => PathName.here
  | [b] => [b]
  | directory => directory.dropLast

/-- The paths of the names in a directory that match a pattern, in bytewise order. What is no
directory has no names. -/
def expandIn? (tree : FileTree) (pattern : PathPattern) (directory : Text) : Option (List Text) :=
  match tree.locate directory with
  | .error _ => some []
  | .ok place =>
    match tree.node? place with
    | some .directory => do
      let names ← pattern.select? (StableSort.sort Text.notAfter (tree.names place))
      some (names.map fun name => PathName.clean (directory ++ [Byte.slash] ++ name))
    | _ => some []

/-- How many patterns there may be: the pattern itself, its directory, the directory of that one,
and so on as long as they have special bytes. -/
def maxDepth : Nat := 10000

/-- The paths that match a pattern; nothing when a malformed piece is reached or when there are too
many parts, which the first argument bounds. The start of the whole pattern is looked at first. A
pattern without special bytes matches the path itself if there is something. -/
def expandFrom? (tree : FileTree) : Nat → Text → Option (List Text)
  | 0, _ => none
  | room + 1, t =>
    if !startsWell t then none
    else if !t.any isSpecial then some (if (tree.find? t).isSome then [t] else [])
    else
      let directory := directoryOf t
      let pattern := parse (PathName.base t)
      if !directory.any isSpecial then expandIn? tree pattern directory
      else do
        let directories ← expandFrom? tree room directory
        let found ← directories.mapM (expandIn? tree pattern)
        some found.flatten

/-- The paths that match a pattern; nothing when a malformed piece is reached. -/
def expand? (tree : FileTree) (t : Text) : Option (List Text) := expandFrom? tree maxDepth t

end PathPattern

end ColumnAssembler
