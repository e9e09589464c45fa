import ColumnAssembler.PathName

/-!
# File trees

The files and directories that a run can see, as a value. Places are lists of names, from the
working directory or from the root. Opening a directory for reading succeeds, and reading from it
fails; creating a file replaces one that is there and fails on a directory and below a place that is
none. A path that ends with a slash can only name a directory.
-/

namespace ColumnAssembler

/-- Why a place cannot be used. -/
inductive FileError where
  /-- There is nothing. -/
  | missing
  /-- There is a directory. -/
  | isDirectory
  /-- Something on the way is a file. -/
  | notDirectory
  /-- The path or one of its parts has too many bytes. -/
  | nameTooLong
  /-- The path has a zero byte. -/
  | invalidPath
  deriving DecidableEq, Repr

/-- The wording of a file error. -/
def FileError.message : FileError → Text
  | missing => Text.ascii "no such file or directory"
  | isDirectory => Text.ascii "is a directory"
  | notDirectory => Text.ascii "not a directory"
  | nameTooLong => Text.ascii "file name too long"
  | invalidPath => Text.ascii "invalid argument"

/-- What was tried at a place. -/
inductive FileAction where
  /-- A file was opened or created. -/
  | opening
  /-- An open file was read. -/
  | reading
  deriving DecidableEq, Repr

/-- The wording of a file action. -/
def FileAction.name : FileAction → Text
  | opening => Text.ascii "open"
  | reading => Text.ascii "read"

/-- A file error with the path it arose at. -/
structure PathError where
  /-- What was tried. -/
  action : FileAction
  /-- The path as it was given. -/
  path : Text
  /-- What went wrong. -/
  cause : FileError
  deriving DecidableEq, Repr

/-- The wording of a path error. -/
def PathError.message (e : PathError) : Text :=
  e.action.name ++ [Byte.space] ++ e.path ++ Text.ascii ": " ++ e.cause.message

/-- A place: the names on the way to it from the working directory or from the root. -/
abbrev Place := List Text

/-- What stands at a place. -/
inductive Node where
  /-- A file with its content. -/
  | file (content : Text)
  /-- A directory. -/
  | directory
  deriving DecidableEq, Repr

/-- The files and directories below the working directory. -/
structure FileTree where
  /-- The files with their contents. -/
  files : List (Place × Text)
  /-- The directories besides the working directory. -/
  directories : List Place
  deriving DecidableEq, Repr

namespace FileTree

/-- The empty working directory. -/
def empty : FileTree := ⟨[], []⟩

/-- What stands at a place. The working directory, those above it and the root are directories. -/
def node? (tree : FileTree) (place : Place) : Option Node :=
  match tree.files.lookup place with
  | some content => some (.file content)
  | none =>
    if place.all (· == PathName.above) || place == [PathName.root]
        || tree.directories.contains place then some .directory
    else none

/-- The largest number of bytes of a path. -/
def maxPathLength : Nat := 4095

/-- The largest number of bytes of a part of a path. -/
def maxPartLength : Nat := 255

/-- Follow the parts of a path from a place. Every place that is left has to be a directory. -/
def walk (tree : FileTree) : Place → List Text → Except FileError Place
  | place, [] => .ok place
  | place, part :: rest =>
    match tree.node? place with
    | some .directory =>
      if maxPartLength < part.length then .error .nameTooLong
      else walk tree (PathName.step place part) rest
    | some (.file _) => .error .notDirectory
    | none => .error .missing

/-- Follow the parts that are taken from a path. The path has to be one that can be used at all: no
zero byte, at least one byte and not too many. -/
def follow (tree : FileTree) (path : Text) (parts : List Text) : Except FileError Place :=
  if path.contains 0 then .error .invalidPath
  else if path.isEmpty then .error .missing
  else if maxPathLength < path.length then .error .nameTooLong
  else tree.walk (PathName.start path) parts

/-- The place that a path names. -/
def locate (tree : FileTree) (path : Text) : Except FileError Place :=
  tree.follow path (PathName.parts path)

/-- The place where a file can be created. The directory around it is looked at first; then a path
that ends with a slash is refused. -/
def locateNew (tree : FileTree) (path : Text) : Except FileError Place :=
  if [Byte.slash].isSuffixOf path then
    let parts := PathName.parts (PathName.withoutLastSlashes path)
    match tree.follow path (parts.dropLast ++ [[]]) with
    | .error cause => .error cause
    | .ok _ => .error .isDirectory
  else tree.locate path

/-- What stands at a path. -/
def find? (tree : FileTree) (path : Text) : Option Node :=
  match tree.locate path with
  | .ok place => tree.node? place
  | .error _ => none

/-- Open what stands at a path. -/
def openNode (tree : FileTree) (path : Text) : Except PathError Node :=
  match tree.locate path with
  | .error cause => .error ⟨.opening, path, cause⟩
  | .ok place =>
    match tree.node? place with
    | some node => .ok node
    | none => .error ⟨.opening, path, .missing⟩

/-- Set the content of the file at a place. -/
def put (tree : FileTree) (place : Place) (content : Text) : FileTree :=
  { tree with files := (place, content) :: tree.files.filter fun file => file.1 != place }

/-- Create a file with the given content, replacing one that is there. -/
def create (tree : FileTree) (path content : Text) : Except PathError FileTree :=
  match tree.locateNew path with
  | .error cause => .error ⟨.opening, path, cause⟩
  | .ok place =>
    match tree.node? place with
    | some .directory => .error ⟨.opening, path, .isDirectory⟩
    | _ => .ok (tree.put place content)

/-- Add the directory at a place and those on the way to it. -/
def addDirectory (tree : FileTree) (place : Place) : FileTree :=
  let ways := (List.range place.length).map fun k => place.take (k + 1)
  { tree with directories := tree.directories ++ ways.filter fun way =>
      !tree.directories.contains way }

/-- Add a file at a place and the directories on the way to it. -/
def addFile (tree : FileTree) (place : Place) (content : Text) : FileTree :=
  (tree.addDirectory place.dropLast).put place content

/-- The names in a directory, files and directories alike. -/
def names (tree : FileTree) (place : Place) : List Text :=
  (tree.files.map Prod.fst ++ tree.directories).filterMap fun other =>
    if !other.isEmpty && other.dropLast == place then other.getLast? else none

end FileTree

end ColumnAssembler
