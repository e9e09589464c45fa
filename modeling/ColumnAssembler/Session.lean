import ColumnAssembler.CommandLine
import ColumnAssembler.Job
import ColumnAssembler.PathPattern

/-!
# Sessions

The whole program as a function from arguments and files to what is printed, the exit code and the
files afterwards. The files to assemble are taken one after the other; a failure of one does not
keep the others from being assembled. The listing file is created before its source is read.
-/

namespace ColumnAssembler

/-- What a program version says about itself. -/
structure BuildInfo where
  /-- The version. -/
  version : Text
  /-- The state of the sources, if known. -/
  commit : Text
  /-- When it was built, if known. -/
  date : Text
  /-- What it was built with. -/
  toolchain : Text
  deriving DecidableEq, Repr

namespace BuildInfo

/-- A named part of the version text, left out when it is empty. -/
def part (name : String) (value : Text) : Text :=
  if value.isEmpty then [] else Text.ascii name ++ value

/-- The version text. -/
def text (b : BuildInfo) : Text :=
  b.version ++ part " commit: " b.commit ++ part " built at: " b.date
    ++ Text.ascii " built with: " ++ b.toolchain

/-- The log entry that introduces the program, left out when it should be quiet. -/
def banner (b : BuildInfo) (quiet : Bool) : List LogEntry :=
  if quiet then []
  else [⟨.info, Text.ascii "fixasm", [(Text.ascii "version", .text b.text)]⟩]

end BuildInfo

/-- Why a file was not assembled. -/
inductive FileFailure where
  /-- The listing file cannot be created. -/
  | listing (path : Text) (cause : PathError)
  /-- The job failed. -/
  | processing (input : Text) (cause : JobError)
  deriving DecidableEq, Repr

/-- The wording of a file failure. -/
def FileFailure.message : FileFailure → Text
  | listing path cause =>
    Text.ascii "creating listing writer: creating listing file " ++ path ++ Text.ascii ": "
      ++ cause.message
  | processing input cause =>
    Text.ascii "processing " ++ input.cited ++ Text.ascii ": " ++ cause.message

/-- What came of a whole run. -/
structure SessionResult where
  /-- The exit code. -/
  exit : Nat
  /-- What was printed. -/
  stdout : Text
  /-- What was printed as an error. -/
  stderr : Text
  /-- The files afterwards. -/
  tree : FileTree
  deriving DecidableEq, Repr

/-- The state between two files. -/
structure Session where
  /-- The files so far. -/
  tree : FileTree
  /-- What was printed so far. -/
  output : Text
  /-- Some file was not assembled. -/
  failed : Bool
  deriving DecidableEq, Repr

namespace Session

/-- The least important level that is shown. -/
def threshold (o : Options) : LogLevel :=
  if o.debug then .debug else if o.quiet then .error else .info

/-- The line of a log entry, left out when it is not important enough. -/
def entryText (o : Options) (e : LogEntry) : Text :=
  if (threshold o).rank ≤ e.level.rank then e.line else []

/-- What the console shows of an event; diagnostics are shown as warnings. -/
def eventText (o : Options) : Event → Text
  | .log e => entryText o e
  | .diagnostic d => entryText o (.ofDiagnostic d)
  | .listing t => t

/-- The path of the object file for a source. -/
def objectPath (input : Text) : Text := PathName.replaceExtension input ObjectFile.extension

/-- The path of the listing file for a source. -/
def listingPath (input : Text) : Text := PathName.replaceExtension input Listing.extension

/-- The options for one file of a run. In a batch the names of the other files follow from it. -/
def optionsFor (o : Options) (input : Text) : Options :=
  let batch := !o.batch.isEmpty
  { o with
    input := input
    output := if batch || o.output.isEmpty then objectPath input else o.output
    listing := if batch && !o.listing.isEmpty then listingPath input else o.listing }

/-- The job for one file. -/
def jobFor (o : Options) (origin : UInt16) (listing : ListingTarget) : Job :=
  ⟨o.input, o.output, listing, o.quiet, o.verify, origin, none⟩

/-- Where the listing goes, and the files with an empty listing file. -/
def openListing (o : Options) (tree : FileTree) : Except FileFailure (ListingTarget × FileTree) :=
  if o.listing.isEmpty then .ok (.console none, tree)
  else
    match tree.create o.listing [] with
    | .ok next => .ok (.file o.listing, next)
    | .error cause => .error (.listing o.listing cause)

/-- Show why a file was not assembled. -/
def fail (s : Session) (o : Options) (e : FileFailure) : Session :=
  let entry : LogEntry :=
    ⟨.error, Text.ascii "Assembling failed", [(Text.ascii "error", .text e.message)]⟩
  { s with output := s.output ++ entryText o entry, failed := true }

/-- Assemble one file with the options for it. -/
def processFile (s : Session) (o : Options) (origin : UInt16) : Session :=
  match openListing o s.tree with
  | .error e => s.fail o e
  | .ok (listing, tree) =>
    let result := (jobFor o origin listing).run tree
    let next := { s with
      tree := result.tree
      output := s.output ++ result.events.toList.flatMap (eventText o) }
    match result.failure with
    | some e => next.fail o (.processing o.input e)
    | none => next

/-- The files to assemble; nothing when the pattern is malformed. -/
def inputs (o : Options) (tree : FileTree) : Option (List Text) :=
  if o.batch.isEmpty then some [o.input] else PathPattern.expand? tree o.batch

/-- The end of a run that gives up with a message. -/
def giveUp (o : Options) (tree : FileTree) (output message : Text) : SessionResult :=
  ⟨1, output ++ entryText o ⟨.fatal, message, []⟩, [], tree⟩

/-- Assemble the files that the options name. -/
def assemble (build : BuildInfo) (o : Options) (origin : UInt16) (tree : FileTree) :
    SessionResult :=
  let banner := (build.banner o.quiet).flatMap (entryText o)
  match inputs o tree with
  | none =>
    giveUp o tree banner (Text.ascii "globbing batch pattern: syntax error in pattern")
  | some paths =>
    let first : Session := ⟨tree, banner, false⟩
    let last := paths.foldl (fun s path => s.processFile (optionsFor o path) origin) first
    ⟨if last.failed then 1 else 0, last.output, [], last.tree⟩

/-- The end of a run whose command line was refused. -/
def refuse (o : Options) (tree : FileTree) (e : CommandError) : SessionResult :=
  match e with
  | .flag cause =>
    let usage := Text.ascii "Usage of fixasm:" ++ [Byte.lineFeed] ++ CommandLine.flagDefaults
    match cause.message? with
    | some message => ⟨2, [], message ++ [Byte.lineFeed] ++ usage, tree⟩
    | none => ⟨0, [], usage, tree⟩
  | .missingFile => ⟨0, CommandLine.usageOutput e, CommandLine.usageErrors e, tree⟩
  | .misplaced _ =>
    ⟨1, CommandLine.usageOutput e ++ entryText o ⟨.error, e.message, []⟩,
      CommandLine.usageErrors e, tree⟩
  | .emptyArgument => ⟨2, [], Text.ascii "panic: " ++ e.message, tree⟩
  | .badOrigin .. => giveUp o tree [] e.message

/-- Run the program with its arguments on some files. -/
def run (build : BuildInfo) (arguments : List Text) (tree : FileTree) : SessionResult :=
  match CommandLine.parse arguments with
  | (o, .error e) => refuse o tree e
  | (o, .ok origin) => assemble build o origin tree

end Session

end ColumnAssembler
