import ColumnAssembler.Job
import ColumnAssembler.Proofs.ObjectRoundTrip

/-!
# When an object file is written

A job writes its object file when the listing could be written, the assembly succeeded, the program
can be emitted and a path is given. In every other case the files are those that the listing left.
Creating a file changes the place that its path names and no other one; the path then opens the
file, since no place on the way to it was changed. What is read there is what was written, so
verification finds nothing.
-/

namespace ColumnAssembler

namespace FileTree

variable {tree next : FileTree} {place other : Place} {path content : Text}

/-- What was put at a place stands there. -/
theorem node?_put_self (tree : FileTree) (place : Place) (content : Text) :
    (tree.put place content).node? place = some (.file content) := by
  rw [node?, put, List.lookup_cons_self]

/-- Dropping the file of another place does not change what is found. -/
theorem lookup_filter_of_ne (files : List (Place × Text)) (h : other ≠ place) :
    (files.filter fun file => file.1 != place).lookup other = files.lookup other := by
  induction files with
  | nil => rfl
  | cons file rest ih =>
    by_cases hfile : file.1 = place
    · have hother : (other == file.1) = false := by simpa [hfile] using h
      rw [List.filter_cons_of_neg (by simp [hfile]), ih, List.lookup_cons, hother]
    · rw [List.filter_cons_of_pos (by simpa using hfile), List.lookup_cons, List.lookup_cons, ih]

/-- Every other place holds what it did. -/
theorem node?_put_of_ne (h : other ≠ place) :
    (tree.put place content).node? other = tree.node? other := by
  have hother : (other == place) = false := by simpa using h
  have hfiles : (tree.put place content).files.lookup other = tree.files.lookup other := by
    rw [put, List.lookup_cons, hother]
    exact lookup_filter_of_ne tree.files h
  rw [node?, node?, hfiles]
  rfl

/-- A way stays open when something is put where no directory was: what is left on a way is a
directory. -/
theorem walk_put (h : tree.node? place ≠ some .directory) {start target : Place}
    {parts : List Text} (hwalk : tree.walk start parts = .ok target) :
    (tree.put place content).walk start parts = .ok target := by
  induction parts generalizing start with
  | nil => exact hwalk
  | cons part rest ih =>
    rw [walk] at hwalk ⊢
    cases hnode : tree.node? start with
    | none => simp [hnode] at hwalk
    | some node =>
      cases node with
      | file text => simp [hnode] at hwalk
      | directory =>
        have hne : start ≠ place := fun heq => h (heq ▸ hnode)
        rw [hnode] at hwalk
        rw [node?_put_of_ne hne, hnode]
        dsimp only at hwalk ⊢
        split at hwalk
        · simp at hwalk
        · next hlength =>
          rw [if_neg hlength]
          exact ih hwalk

/-- A path names the same place when something is put where no directory was. -/
theorem locate_put (h : tree.node? place ≠ some .directory) {target : Place}
    (hlocate : tree.locate path = .ok target) :
    (tree.put place content).locate path = .ok target := by
  rw [locate, follow] at hlocate ⊢
  split at hlocate
  · simp at hlocate
  · next hzero =>
    split at hlocate
    · simp at hlocate
    · next hempty =>
      split at hlocate
      · simp at hlocate
      · next hlength =>
        rw [if_neg hzero, if_neg hempty, if_neg hlength]
        exact walk_put h hlocate

/-- The second tree is the first one with the file at a path set to a content: the path opens that
file, and every other place holds what it did. -/
def Replaces (tree : FileTree) (path content : Text) (next : FileTree) : Prop :=
  ∃ place, tree.locate path = .ok place ∧ next.locate path = .ok place ∧
    next.openNode path = .ok (.file content) ∧
    ∀ other, other ≠ place → next.node? other = tree.node? other

/-- A file that can be created is put where no directory was, at the place that the path names. -/
theorem put_of_create (h : tree.create path content = .ok next) :
    ∃ place, tree.locate path = .ok place ∧ tree.node? place ≠ some .directory ∧
      next = tree.put place content := by
  rw [create] at h
  cases hnew : tree.locateNew path with
  | error cause => simp [hnew] at h
  | ok place =>
    have hlocate : tree.locate path = .ok place := by
      rw [locateNew] at hnew
      split at hnew
      · dsimp only at hnew
        split at hnew <;> simp at hnew
      · exact hnew
    rw [hnew] at h
    dsimp only at h
    split at h
    · simp at h
    · next hnode => exact ⟨place, hlocate, hnode, (Except.ok.inj h).symm⟩

/-- Creating a file changes nothing but that file. -/
theorem replaces_of_create (h : tree.create path content = .ok next) :
    tree.Replaces path content next := by
  obtain ⟨place, hlocate, hnode, rfl⟩ := put_of_create h
  have hstill : (tree.put place content).locate path = .ok place := locate_put hnode hlocate
  refine ⟨place, hlocate, hstill, ?_, fun other hother => node?_put_of_ne hother⟩
  rw [openNode, hstill]
  dsimp only
  rw [node?_put_self]

end FileTree

/-- A program that can be emitted reads back from its object file. -/
theorem Assembly.parse_encode_run {origin : UInt16} {cancelAt : Option Nat} {lines : List Text}
    (h : (run origin cancelAt lines).program.isEmittable = true) :
    ObjectFile.parse (ObjectFile.encode (run origin cancelAt lines).program) =
      .ok (ObjectFile.lines (run origin cancelAt lines).program) := by
  apply ObjectFile.parse_encode
  intro line hline
  obtain ⟨m, hm, rfl⟩ := List.mem_map.mp hline
  exact length_bytes_of_isEmittable h hm _

/-- What writing a listing does to the files: nothing on the console, and else the file at the path
is set to the listing. -/
def ListingTarget.Leaves (p : Program) (tree listed : FileTree) : ListingTarget → Prop
  | .console _ => listed = tree
  | .file path => tree.Replaces path (Listing.render p) listed

namespace Job

/-- The files once the listing of a program is written, or why it cannot be. -/
def listed (job : Job) (tree : FileTree) (p : Program) : Except JobError FileTree :=
  match job.listing with
  | .console fault =>
    match (Listing.write fault (Listing.parts p)).2 with
    | some e => .error (.listing e)
    | none => .ok tree
  | .file path =>
    match tree.create path (Listing.render p) with
    | .ok next => .ok next
    | .error e => .error (.listingFile e)

/-- Whether a job comes to write its object file: the assembly succeeded, the program can be emitted
and there is a path. -/
def Emits (job : Job) (outcome : Outcome) : Prop :=
  outcome.failure = none ∧ outcome.program.isEmittable = true ∧ job.output ≠ []

variable (job : Job) (p : Program) (r : JobResult)

/-- A listing that can be written changes its own file only. -/
theorem leaves_of_listed {tree listed : FileTree} (h : job.listed tree p = .ok listed) :
    job.listing.Leaves p tree listed := by
  rw [Job.listed] at h
  cases hlisting : job.listing with
  | console fault =>
    rw [hlisting] at h
    dsimp only at h
    split at h
    · simp at h
    · exact (Except.ok.inj h).symm
  | file path =>
    rw [hlisting] at h
    dsimp only at h
    split at h
    · next hcreate =>
      obtain rfl := Except.ok.inj h
      exact FileTree.replaces_of_create hcreate
    · simp at h

/-- The step for the listing leaves the listed files, or fails and leaves the files as they were. -/
theorem writeListing_listed (hr : r.failure = none) :
    (∀ e, job.listed r.tree p = .error e →
      (job.writeListing p r).tree = r.tree ∧ (job.writeListing p r).failure = some e) ∧
      ∀ listed, job.listed r.tree p = .ok listed →
        (job.writeListing p r).tree = listed ∧ (job.writeListing p r).failure = none := by
  rw [listed, writeListing]
  cases job.listing with
  | console fault =>
    cases hwrite : Listing.write fault (Listing.parts p) with
    | mk text failure => cases failure <;> simp [hwrite, JobResult.fail, hr]
  | file path =>
    cases hcreate : r.tree.create path (Listing.render p) <;> simp [hcreate, JobResult.fail, hr]

/-- Reading the object file back changes no file. -/
theorem tree_verifyObject : (job.verifyObject p r).tree = r.tree := by
  rw [verifyObject]
  split
  · cases (Verification.verify r.tree job.output p) with
    | mk entries failure => cases failure <;> rfl
  · rfl

/-- Reading the object file back fails for a difference only. -/
theorem failure_verifyObject (h : (Verification.verify r.tree job.output p).2 = none) :
    (job.verifyObject p r).failure = r.failure := by
  rw [verifyObject]
  split
  · cases hverify : Verification.verify r.tree job.output p with
    | mk entries failure =>
      rw [hverify] at h
      obtain rfl : failure = none := h
      rfl
  · rfl

/-- Without a path, or for a program that cannot be emitted, the step for the object file changes no
file and does not fail. -/
theorem writeObject_closed (h : p.isEmittable = false ∨ job.output = []) :
    (job.writeObject p r).tree = r.tree ∧ (job.writeObject p r).failure = r.failure := by
  rw [writeObject]
  split
  · exact ⟨rfl, rfl⟩
  · next hpath =>
    have hprogram : p.isEmittable = false :=
      h.resolve_right fun hempty => hpath (List.isEmpty_iff.mpr hempty)
    rw [ObjectFile.write, hprogram, if_neg Bool.false_ne_true]
    exact ⟨rfl, rfl⟩

/-- The object file of a program that can be emitted is created, or the step fails and changes no
file. Where the file reads as the program it is written and verified. -/
theorem writeObject_open (hprogram : p.isEmittable = true) (hpath : job.output ≠ [])
    (hread : ObjectFile.parse (ObjectFile.encode p) = .ok (ObjectFile.lines p)) :
    (∀ next, r.tree.create job.output (ObjectFile.encode p) = .ok next →
      (job.writeObject p r).tree = next ∧ (job.writeObject p r).failure = r.failure) ∧
      ∀ e, r.tree.create job.output (ObjectFile.encode p) = .error e →
        (job.writeObject p r).tree = r.tree ∧
          (job.writeObject p r).failure = some (.writing ⟨job.output, e⟩) := by
  have hnonempty : ¬ job.output.isEmpty = true := fun h => hpath (List.isEmpty_iff.mp h)
  rw [writeObject, if_neg hnonempty, ObjectFile.write, if_pos hprogram]
  constructor
  · intro next hcreate
    obtain ⟨_, _, _, hopen, _⟩ := FileTree.replaces_of_create hcreate
    have hverify : (Verification.verify next job.output p).2 = none :=
      (Verification.verify_eq_none_iff hopen p).mpr hread
    rw [hcreate]
    exact ⟨tree_verifyObject job p _, failure_verifyObject job p _ hverify⟩
  · intro e hcreate
    rw [hcreate]
    exact ⟨rfl, rfl⟩

section Conclude

variable {job : Job} {outcome : Outcome} {r : JobResult} {listed : FileTree}

/-- A job ends with a listing that fails. -/
theorem conclude_unlisted (hr : r.failure = none) {e : JobError}
    (h : job.listed r.tree outcome.program = .error e) :
    (job.conclude outcome r).tree = r.tree ∧ (job.conclude outcome r).failure = some e := by
  obtain ⟨htree, hfailure⟩ := (writeListing_listed job outcome.program r hr).1 e h
  have hstop : job.conclude outcome r = job.writeListing outcome.program r := by
    rw [conclude, hfailure]
    rfl
  rw [hstop]
  exact ⟨htree, hfailure⟩

/-- A job ends with the listing when the assembly failed. -/
theorem conclude_failed (hr : r.failure = none)
    (h : job.listed r.tree outcome.program = .ok listed) {e : Failure}
    (hrun : outcome.failure = some e) :
    (job.conclude outcome r).tree = listed ∧
      (job.conclude outcome r).failure = some (.assembling e) := by
  obtain ⟨htree, hfailure⟩ := (writeListing_listed job outcome.program r hr).2 listed h
  rw [conclude, hfailure, hrun]
  exact ⟨htree, rfl⟩

/-- A job goes on from the listing to the object file when the assembly succeeded. -/
theorem conclude_completed (hr : r.failure = none)
    (h : job.listed r.tree outcome.program = .ok listed) (hrun : outcome.failure = none) :
    ∃ s : JobResult, s.tree = listed ∧ s.failure = none ∧
      job.conclude outcome r = job.writeObject outcome.program s := by
  obtain ⟨htree, hfailure⟩ := (writeListing_listed job outcome.program r hr).2 listed h
  refine ⟨job.writeListing outcome.program r, htree, hfailure, ?_⟩
  rw [conclude, hfailure, hrun]
  rfl

end Conclude

/-- A job for source lines concludes the assembly of these from the files as they are. -/
theorem runLines_eq (tree : FileTree) (lines : List Text) :
    ∃ r : JobResult, r.tree = tree ∧ r.failure = none ∧
      job.runLines tree lines = job.conclude (Assembly.run job.origin job.cancelAt lines) r := by
  refine ⟨_, ?_, ?_, rfl⟩
  · rw [announce]
    split <;> rfl
  · rw [announce]
    split <;> rfl

/-- The object file is written only behind all the checks. A listing that fails leaves all files as
they were. When the assembly fails, the program cannot be emitted or there is no path, the files are
those that the listing left. Otherwise, if the path can be created, the job succeeds, with or
without verification, the file at the path is the object file of the program and no other file is
changed; and if it cannot, no file is changed. -/
theorem object_file_is_gated (job : Job) (tree : FileTree) (lines : List Text) :
    let outcome := Assembly.run job.origin job.cancelAt lines
    let result := job.runLines tree lines
    let text := ObjectFile.encode outcome.program
    (∀ e, job.listed tree outcome.program = .error e →
      result.tree = tree ∧ result.failure = some e) ∧
      ∀ listed, job.listed tree outcome.program = .ok listed →
        job.listing.Leaves outcome.program tree listed ∧
        (¬ job.Emits outcome →
          result.tree = listed ∧ result.failure = outcome.failure.map .assembling) ∧
        (job.Emits outcome →
          (∀ next, listed.create job.output text = .ok next →
            result.tree = next ∧ result.failure = none ∧
              listed.Replaces job.output text next) ∧
          ∀ e, listed.create job.output text = .error e →
            result.tree = listed ∧ result.failure = some (.writing ⟨job.output, e⟩)) := by
  intro outcome result text
  obtain ⟨r, rfl, hr, hresult⟩ := runLines_eq job tree lines
  have hconclude : result = job.conclude outcome r := hresult
  rw [hconclude]
  refine ⟨fun e herror => conclude_unlisted hr herror, fun listed hlisted =>
    ⟨leaves_of_listed job outcome.program hlisted, fun hclosed => ?_, ?_⟩⟩
  · cases hrun : outcome.failure with
    | some e => exact conclude_failed hr hlisted hrun
    | none =>
      have hgate : outcome.program.isEmittable = false ∨ job.output = [] := by
        by_cases hpath : job.output = []
        · exact .inr hpath
        · exact .inl (eq_false_of_ne_true fun hprogram => hclosed ⟨hrun, hprogram, hpath⟩)
      obtain ⟨s, rfl, hs, hobject⟩ := conclude_completed hr hlisted hrun
      obtain ⟨htree, hfailure⟩ := writeObject_closed job outcome.program s hgate
      rw [hobject]
      exact ⟨htree, hfailure.trans hs⟩
  · rintro ⟨hrun, hprogram, hpath⟩
    obtain ⟨s, rfl, hs, hobject⟩ := conclude_completed hr hlisted hrun
    obtain ⟨hcreated, hrefused⟩ :=
      writeObject_open job outcome.program s hprogram hpath (Assembly.parse_encode_run hprogram)
    rw [hobject]
    refine ⟨fun next hcreate => ?_, hrefused⟩
    obtain ⟨htree, hfailure⟩ := hcreated next hcreate
    exact ⟨htree, hfailure.trans hs, FileTree.replaces_of_create hcreate⟩

/-- An old object file is replaced and verified when the program has no errors, and kept when it
has one. -/
theorem object_file_is_gated_replaced_and_kept :
    let path := Text.ascii "t.o"
    let tree : FileTree := ⟨[([path], Text.ascii "old"), ([Text.ascii "a"], Text.ascii "kept")], []⟩
    let job : Job := ⟨Text.ascii "t.a", path, .console none, false, true, 0x8000, none⟩
    let right := [Text.ascii "        JMP  LATER", Text.ascii "LATER   CHK"]
    let wrong := [Text.ascii "        JMP  #$12"]
    let assembled := Assembly.run job.origin job.cancelAt right
    let marked := Assembly.run job.origin job.cancelAt wrong
    job.Emits assembled ∧ ¬ job.Emits marked ∧ marked.failure = none ∧
      (job.runLines tree right).failure = none ∧
      tree.Replaces job.output (ObjectFile.encode assembled.program)
        (job.runLines tree right).tree ∧
      ObjectFile.encode assembled.program = Text.ascii "8000: 4C 03 80\n8003: CF" ∧
      (job.runLines tree wrong).failure = none ∧ (job.runLines tree wrong).tree = tree := by
  intro path tree job right wrong assembled marked
  have hemits : job.Emits assembled := ⟨by decide +kernel, by decide +kernel, by decide⟩
  have hmarked : marked.program.isEmittable = false := by decide +kernel
  have hcloses : ¬ job.Emits marked := fun h => Bool.false_ne_true (hmarked.symm.trans h.2.1)
  have hrun : marked.failure = none := by decide +kernel
  have hcreate : tree.create job.output (ObjectFile.encode assembled.program) =
      .ok (tree.put [path] (ObjectFile.encode assembled.program)) := by decide +kernel
  have hlisted : ∀ p : Program, job.listed tree p = .ok tree := fun _ => rfl
  obtain ⟨_, _, hopen⟩ := (object_file_is_gated job tree right).2 tree (hlisted _)
  obtain ⟨hwritten, hsucceeds, hreplaces⟩ := (hopen hemits).1 _ hcreate
  obtain ⟨_, hclosed, _⟩ := (object_file_is_gated job tree wrong).2 tree (hlisted _)
  obtain ⟨hkept, hfailure⟩ := hclosed hcloses
  rw [hrun, Option.map_none] at hfailure
  refine ⟨hemits, hcloses, hrun, hsucceeds, ?_, by decide +kernel, hfailure, hkept⟩
  rw [hwritten]
  exact hreplaces

end Job

end ColumnAssembler
