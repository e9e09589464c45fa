import ColumnAssembler.Text

/-!
# Path names

Path names as text: parts between slashes, the shortest equal name, and the extension of the last
part.
-/

namespace ColumnAssembler.PathName

/-- The part that means the directory itself. -/
def here : Text := [Byte.dot]

/-- The part that means the directory above. -/
def above : Text := [Byte.dot, Byte.dot]

/-- The name of the directory that has none above it. -/
def root : Text := [Byte.slash]

/-- The parts of a path between slashes; there is always at least one. -/
def parts : Text → List Text
  | [] => [[]]
  | b :: rest =>
    if b = Byte.slash then [] :: parts rest
    else
      match parts rest with
      | [] => [[b]]
      | part :: others => (b :: part) :: others

/-- The place above a place given by its names. A place above the start has a name of its own, and
the root is above itself. -/
def up (place : List Text) : List Text :=
  match place.getLast? with
  | none => [above]
  | some last =>
    if last == root then place else if last == above then place ++ [above] else place.dropLast

/-- The place that is reached from a place by one part of a path. -/
def step (place : List Text) (part : Text) : List Text :=
  if part.isEmpty || part == here then place
  else if part == above then up place
  else place ++ [part]

/-- Where a path starts: at the root, or at the place of the reader. -/
def start (path : Text) : List Text := if root.isPrefixOf path then [root] else []

/-- The names on the way to the place that a path names. -/
def place (path : Text) : List Text := (parts path).foldl step (start path)

/-- The path of a place. -/
def ofPlace (place : List Text) : Text :=
  match place with
  | [] => here
  | name :: names =>
    if name == root then root ++ List.intercalate root names else List.intercalate root place

/-- The shortest path of the same place. -/
def clean (path : Text) : Text := ofPlace (place path)

/-- The path without the slashes at its end. -/
def withoutLastSlashes (path : Text) : Text :=
  (path.reverse.dropWhile (· = Byte.slash)).reverse

/-- The part of a path up to and including its last slash. -/
def directory (path : Text) : Text := (path.reverse.dropWhile (· ≠ Byte.slash)).reverse

/-- The part of a path after its last slash. -/
def base (path : Text) : Text := (path.reverse.takeWhile (· ≠ Byte.slash)).reverse

/-- The last part of a path without its extension: what stands before its last dot. -/
def stem (path : Text) : Text :=
  match (base path).reverse.dropWhile (· ≠ Byte.dot) with
  | [] => base path
  | _ :: rest => rest.reverse

/-- The path with its extension, if there is one, replaced. -/
def replaceExtension (path extension : Text) : Text := directory path ++ stem path ++ extension

end ColumnAssembler.PathName
