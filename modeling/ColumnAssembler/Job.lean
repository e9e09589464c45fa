import ColumnAssembler.Assembly
import ColumnAssembler.Listing
import ColumnAssembler.SourceFile
import ColumnAssembler.Verification

/-!
# Jobs

A job takes one source through all its steps: the source is loaded and assembled, the listing is
written, also for a program that was not completed, and then the object file is written and read
back if that is wanted. The object file is touched only when everything before it succeeded and
the program has no errors.
-/

namespace ColumnAssembler

/-- Where a listing goes. -/
inductive ListingTarget where
  /-- To the console, with a writer that may fail. -/
  | console (fault : Option WriteFault)
  /-- To the file at a path, which exists already. -/
  | file (path : Text)
  deriving DecidableEq, Repr

/-- What a job has to do. -/
structure Job where
  /-- The path of the source. -/
  input : Text
  /-- The path of the object file; none is written when it is empty. -/
  output : Text
  /-- Where the listing goes. -/
  listing : ListingTarget
  /-- Do not tell about progress. -/
  quiet : Bool
  /-- Read the object file back. -/
  verify : Bool
  /-- The start address. -/
  origin : UInt16
  /-- The number of lines after which the run is called off. -/
  cancelAt : Option Nat
  deriving DecidableEq, Repr

/-- Why a job failed. -/
inductive JobError where
  /-- The source cannot be loaded. -/
  | loading (cause : LoadError)
  /-- The listing cannot be written. -/
  | listing (cause : ListingError)
  /-- The listing file cannot be written. -/
  | listingFile (cause : PathError)
  /-- The source cannot be assembled. -/
  | assembling (cause : Failure)
  /-- The object file cannot be written. -/
  | writing (cause : ObjectWriteError)
  /-- The object file differs from the program. -/
  | verifying (cause : VerifyError)
  deriving DecidableEq, Repr

/-- The wording of a job error. -/
def JobError.message : JobError → Text
  | loading cause => Text.ascii "loading source: " ++ cause.message
  | listing cause => Text.ascii "writing listing: " ++ cause.message
  | listingFile cause => Text.ascii "writing listing: " ++ cause.message
  | assembling cause => Text.ascii "assembling: " ++ cause.message
  | writing cause => Text.ascii "writing object file: " ++ cause.message
  | verifying cause => Text.ascii "verification failed: " ++ cause.message

/-- What came of a job. -/
structure JobResult where
  /-- The program, unless the source could not be loaded. -/
  program : Option Program
  /-- The files afterwards. -/
  tree : FileTree
  /-- What the job told. -/
  events : Array Event
  /-- Why the job failed. -/
  failure : Option JobError
  deriving DecidableEq, Repr

namespace JobResult

/-- The result with one more log entry. -/
def log (r : JobResult) (level : LogLevel) (message : String)
    (fields : List (String × LogValue)) : JobResult :=
  let entry : LogEntry :=
    ⟨level, Text.ascii message, fields.map fun field => (Text.ascii field.1, field.2)⟩
  { r with events := r.events.push (.log entry) }

/-- The result of a job that failed. -/
def fail (r : JobResult) (e : JobError) : JobResult := { r with failure := some e }

end JobResult

namespace Job

/-- Read the written object file back. -/
def verifyObject (job : Job) (p : Program) (r : JobResult) : JobResult :=
  if job.verify then
    let (entries, failure) := Verification.verify r.tree job.output p
    let told := { r with events := r.events ++ (entries.map Event.log).toArray }
    match failure with
    | some e => told.fail (.verifying e)
    | none => told.log .info "Verification successful" []
  else r

/-- Write the object file, if one is wanted and the program has no errors. -/
def writeObject (job : Job) (p : Program) (r : JobResult) : JobResult :=
  if job.output.isEmpty then r
  else
    match ObjectFile.write r.tree job.output p with
    | .error e => r.fail (.writing e)
    | .ok none =>
      r.log .warn "Object file not written because of assembly errors"
        [("file", .text job.output), ("errors", .number p.errorCount)]
    | .ok (some tree) =>
      job.verifyObject p <| { r with tree := tree }.log .info "Object file written"
        [("file", .text job.output), ("bytes", .number p.size)]

/-- Write the listing of a program. -/
def writeListing (job : Job) (p : Program) (r : JobResult) : JobResult :=
  match job.listing with
  | .console fault =>
    let (text, failure) := Listing.write fault (Listing.parts p)
    let told := { r with events := r.events.push (.listing text) }
    match failure with
    | some e => told.fail (.listing e)
    | none => told
  | .file path =>
    match r.tree.create path (Listing.render p) with
    | .ok tree => { r with tree := tree }
    | .error e => r.fail (.listingFile e)

/-- Tell which source is assembled. -/
def announce (job : Job) (count : Nat) (r : JobResult) : JobResult :=
  if job.quiet then r
  else r.log .info "Assembling" [("file", .text job.input), ("lines", .number count)]

/-- The steps after the assembly. -/
def conclude (job : Job) (outcome : Outcome) (r : JobResult) : JobResult :=
  let listed := job.writeListing outcome.program r
  if listed.failure.isSome then listed
  else
    match outcome.failure with
    | some e => listed.fail (.assembling e)
    | none => job.writeObject outcome.program listed

/-- Do the job for source lines. -/
def runLines (job : Job) (tree : FileTree) (lines : List Text) : JobResult :=
  let outcome := Assembly.run job.origin job.cancelAt lines
  let announced := job.announce lines.length ⟨some outcome.program, tree, #[], none⟩
  job.conclude outcome { announced with events := announced.events ++ outcome.events }

/-- Do the job for the source file. -/
def run (job : Job) (tree : FileTree) : JobResult :=
  match SourceFile.load tree job.input with
  | .error e => ⟨none, tree, #[], some (.loading e)⟩
  | .ok lines => job.runLines tree lines

end Job

end ColumnAssembler
