import DocShell.Proofs.CommandLine.Arguments
import DocShell.Proofs.CommandLine.Run

namespace DocShell.CommandLine

/-! # Confined runs

A run touches nothing before it has its whole text, and then nothing but the place where
the text goes. It does not matter whether what it reads comes from a file or from the
standard input. -/

/-! ## What an ending leaves behind -/

namespace Ending

variable {fate : Except RunFault Unit} {printed : ByteArray} {disk : Disk} {system : System}

structure SameEffect (left right : Ending) : Prop where
  code : left.code = right.code
  stdout : left.stdout = right.stdout
  disk : left.disk = right.disk

theorem code_after : (after fate printed disk).code = succeeded ↔ fate = .ok () := by
  cases fate with
  | ok => exact iff_of_true rfl rfl
  | error fault => cases fault <;> simp [after, RunFault.code, succeeded, failed, crashed]

theorem code_after_mapError {taken : Except FileFault Unit} {named : FileFault → RunFault} :
    (after (taken.mapError named) printed disk).code = succeeded ↔ taken = .ok () := by
  rw [code_after]
  cases taken <;> simp [Except.mapError]

theorem stdout_after : (after fate printed disk).stdout = printed := by
  cases fate <;> rfl

theorem disk_after : (after fate printed disk).disk = disk := by
  cases fate <;> rfl

/-- A text that is printed comes through as far as the standard output takes it. -/
theorem ofText_none (system : System) (text : String) :
    (ofText system text none).disk = system.disk ∧
      (ofText system text none).stdout = Limit.cut system.stdout? text.toUTF8 ∧
        ((ofText system text none).code ≠ succeeded →
          Limit.CutsOff system.stdout? text.toUTF8 (ofText system text none).stdout) := by
  rw [ofText, disk_after, stdout_after]
  refine ⟨rfl, rfl, fun fails => ?_⟩
  rw [Ne, code_after_mapError] at fails
  cases taken : Limit.check system.stdout? (sendable text).1.toUTF8.size with
  | ok => exact absurd taken fails
  | error cause =>
      have cuts := (Limit.cutsOff_of_check taken).append (sendable text).2.toUTF8
      rw [toUTF8_sendable] at cuts
      exact cuts.eq_cut ▸ cuts

/-- A text for a file is not written at all, or a front of it is, or all of it. -/
theorem ofText_some (system : System) (text path : String) :
    (ofText system text (some path)).stdout = .empty ∧
      ((ofText system text (some path)).code ≠ succeeded ∧
          (ofText system text (some path)).disk = system.disk ∨
        ∃ location content,
          system.disk.Wrote path location content (ofText system text (some path)).disk ∧
            ((ofText system text (some path)).code ≠ succeeded ∧
                Limit.CutsOff (system.disk.limit? location) text.toUTF8 content ∨
              (ofText system text (some path)).code = succeeded ∧ content = text.toUTF8)) := by
  rw [ofText]
  cases created : system.disk.create path with
  | error cause =>
      dsimp only
      rw [stdout_after, disk_after, Ne, code_after]
      exact ⟨rfl, .inl ⟨nofun, rfl⟩⟩
  | ok place =>
      obtain ⟨location, opened⟩ := place
      have wrote := Disk.Wrote.of_create created
      dsimp only
      rw [stdout_after, disk_after, Ne, code_after_mapError, Disk.append_of_empty wrote]
      refine ⟨rfl, .inr ⟨location, _, wrote.store _, ?_⟩⟩
      cases taken : Limit.check (system.disk.limit? location) text.toUTF8.size with
      | ok => exact .inr ⟨rfl, Limit.cut_of_check taken⟩
      | error cause => exact .inl ⟨nofun, Limit.cutsOff_of_check taken⟩

end Ending

/-! ## Texts from files and from the standard input -/

namespace Job

variable {job : Job} {system : System} {path : String} {content : ByteArray}

theorem source_of_read (named : job.input = some path)
    (kept : system.disk.read path = .ok content) :
    job.source system = (textOf content).mapError (.inputFile path) := by
  rw [source, named]
  dsimp only
  rw [kept]
  rfl

/-- A text makes the same, wherever it comes from. -/
theorem result_eq_of_text {text : String} (named : job.input = some path)
    (kept : system.disk.read path = .ok content) (isText : textOf content = .ok text) :
    job.result system =
      { job with input := none }.result { system with stdin := .ok content } := by
  have here : job.source system = .ok text := by
    rw [source_of_read named kept, isText]
    rfl
  have there :
      { job with input := none }.source { system with stdin := .ok content } = .ok text :=
    congrArg (Except.mapError RunFault.input) isText
  rw [result, result, here, there]
  rfl

/-- What is no text is refused by the name of where it comes from. -/
theorem result_of_no_text {cause : FileFault} (named : job.input = some path)
    (kept : system.disk.read path = .ok content) (noText : textOf content = .error cause) :
    job.result system = .error (.inputFile path cause) ∧
      { job with input := none }.result { system with stdin := .ok content } =
        .error (.input cause) := by
  constructor
  · rw [result, source_of_read named kept, noText]
    rfl
  · have there : { job with input := none }.source { system with stdin := .ok content } =
        .error (.input cause) :=
      congrArg (Except.mapError RunFault.input) noText
    rw [result, there]
    rfl

end Job

/-! ## Whole runs -/

namespace System

variable {system : System} {arguments : List String} {job : Job} {path : String}
  {content : ByteArray}

/-- The text that a job prints if it has no output file and the standard output takes
everything. -/
def Prints (system : System) (job : Job) (text : ByteArray) : Prop :=
  ∃ plain, request? false plain = some (.job { job with output := none }) ∧
    ({ system with stdout? := none }.run plain).code = succeeded ∧
      ({ system with stdout? := none }.run plain).stdout = text

theorem prints_of_result {text : String} (asked : request? false arguments = some (.job job))
    (made : job.result system = .ok text) : system.Prints job text.toUTF8 := by
  have sound := Job.sound_of_request? asked
  have plain : { job with output := none }.Sound := ⟨sound.indent, sound.shell⟩
  have madePlain : { job with output := none }.result { system with stdout? := none } = .ok text :=
    made
  refine ⟨_, Job.request?_spelled plain, ?_⟩
  rw [run_of_job (Job.request?_spelled plain), madePlain]
  exact ⟨rfl, rfl⟩

/-! ### Failures and successes -/

/-- Without a job no file changes, and what makes no sense prints nothing. -/
theorem run_of_no_job (system : System)
    (idle : ∀ job, request? false arguments ≠ some (.job job)) :
    (system.run arguments).disk = system.disk ∧
      ((system.run arguments).code ≠ succeeded → (system.run arguments).stdout = .empty) := by
  have announced : ∀ text, (modelled.announce text).run system.begin =
      (succeeded, system.begin.withPrinted (Limit.cut system.stdout? text.toUTF8)) := by
    intro text
    rw [Host.announce, StateT.run_bind, Host.run_print rfl]
    rfl
  rw [run, Host.run]
  cases asked : request? false arguments with
  | none => exact ⟨rfl, fun _ => rfl⟩
  | some request =>
      cases request with
      | version | help =>
          dsimp only
          rw [announced]
          exact ⟨rfl, fun fails => absurd rfl fails⟩
      | job job => exact absurd asked (idle job)

/-- What is left of the text of a job whose writing breaks off: a front of it, in the
output file or on the standard output. -/
inductive BreaksOff (system : System) (job : Job) (text : ByteArray) (ending : Ending) : Prop
  | printing (plain : job.output = none) (disk : ending.disk = system.disk)
      (stdout : Limit.CutsOff system.stdout? text ending.stdout)
  | writing (path : String) (location : Location) (front : ByteArray)
      (named : job.output = some path) (stdout : ending.stdout = .empty)
      (file : Limit.CutsOff (system.disk.limit? location) text front)
      (wrote : system.disk.Wrote path location front ending.disk)

theorem run_of_failed (fails : (system.run arguments).code ≠ succeeded) :
    ((system.run arguments).disk = system.disk ∧ (system.run arguments).stdout = .empty) ∨
      ∃ job text, request? false arguments = some (.job job) ∧ system.Prints job text ∧
        system.BreaksOff job text (system.run arguments) := by
  by_cases asked : ∃ job, request? false arguments = some (.job job)
  · obtain ⟨job, asked⟩ := asked
    cases made : job.result system with
    | error fault =>
        rw [run_of_job asked, made]
        exact .inl ⟨rfl, rfl⟩
    | ok text =>
        have prints := prints_of_result asked made
        have ends : system.run arguments = .ofText system text job.output := by
          rw [run_of_job asked, made]
          rfl
        rw [ends] at fails ⊢
        cases output : job.output with
        | none =>
            rw [output] at fails
            obtain ⟨kept, _, cuts⟩ := Ending.ofText_none system text
            exact .inr ⟨job, _, asked, prints, .printing output kept (cuts fails)⟩
        | some path =>
            rw [output] at fails
            obtain ⟨silent, ⟨_, kept⟩ | ⟨location, front, wrote, ends⟩⟩ :=
              Ending.ofText_some system text path
            · exact .inl ⟨kept, silent⟩
            · rcases ends with ⟨_, cuts⟩ | ⟨succeeds, _⟩
              · exact .inr ⟨job, _, asked, prints,
                  .writing path location front output silent cuts wrote⟩
              · exact absurd succeeds fails
  · obtain ⟨kept, silent⟩ := run_of_no_job system (not_exists.mp asked)
    exact .inl ⟨kept, silent fails⟩

/-- A run that succeeds has made its text. -/
theorem result_of_succeeded (asked : request? false arguments = some (.job job))
    (succeeds : (system.run arguments).code = succeeded) :
    ∃ text, job.result system = .ok text ∧
      system.run arguments = .ofText system text job.output := by
  rw [run_of_job asked] at succeeds ⊢
  cases made : job.result system with
  | error fault =>
      rw [made, Ending.ofResult, Ending.code_after] at succeeds
      cases succeeds
  | ok text => exact ⟨text, rfl, rfl⟩

theorem run_of_output (asked : request? false arguments = some (.job job))
    (named : job.output = some path) (succeeds : (system.run arguments).code = succeeded) :
    (system.run arguments).stdout = .empty ∧ ∃ text location, system.Prints job text ∧
      system.disk.Wrote path location text (system.run arguments).disk := by
  obtain ⟨text, made, ends⟩ := result_of_succeeded asked succeeds
  rw [ends, named] at succeeds ⊢
  obtain ⟨silent, ⟨fails, _⟩ | ⟨location, content, wrote, ⟨fails, _⟩ | ⟨_, rfl⟩⟩⟩ :=
    Ending.ofText_some system text path
  · exact absurd succeeds fails
  · exact absurd succeeds fails
  · exact ⟨silent, _, location, prints_of_result asked made, wrote⟩

theorem run_of_no_output (asked : request? false arguments = some (.job job))
    (plain : job.output = none) :
    (system.run arguments).disk = system.disk ∧
      ((system.run arguments).code = succeeded → ∃ text, system.Prints job text ∧
        (system.run arguments).stdout = Limit.cut system.stdout? text) := by
  constructor
  · rw [run_of_job asked, plain]
    cases job.result system with
    | error fault => rfl
    | ok text => exact (Ending.ofText_none system text).1
  · intro succeeds
    obtain ⟨text, made, ends⟩ := result_of_succeeded asked succeeds
    rw [ends, plain]
    exact ⟨_, prints_of_result asked made, (Ending.ofText_none system text).2.1⟩

theorem run_of_input {piped : List String}
    (asked : request? false arguments = some (.job job)) (named : job.input = some path)
    (kept : system.disk.read path = .ok content)
    (askedPiped : request? false piped = some (.job { job with input := none })) :
    (system.run arguments).SameEffect ({ system with stdin := .ok content }.run piped) ∧
      (∀ text, textOf content = .ok text →
        system.run arguments = { system with stdin := .ok content }.run piped) ∧
      ∀ cause, textOf content = .error cause →
        (system.run arguments).stderr = (RunFault.inputFile path cause).report ∧
          ({ system with stdin := .ok content }.run piped).stderr =
            (RunFault.input cause).report := by
  rw [run_of_job asked, run_of_job askedPiped]
  cases read : textOf content with
  | ok text =>
      rw [Job.result_eq_of_text named kept read]
      refine ⟨⟨rfl, rfl, rfl⟩, fun _ _ => rfl, fun cause equal => ?_⟩
      cases equal
  | error cause =>
      obtain ⟨here, there⟩ := Job.result_of_no_text named kept read
      rw [here, there]
      refine ⟨⟨rfl, rfl, rfl⟩, fun text equal => ?_, fun other equal => ?_⟩
      · cases equal
      · cases equal
        exact ⟨rfl, rfl⟩

/-! ### What every run leaves behind -/

/-- What can be said of the files and texts around a run, whatever the command line asks
for and whatever the system refuses. -/
structure Confined (system : System) (arguments : List String) : Prop where
  /-- Help, the version and a line that makes no sense change no file, whatever output they
  name. -/
  idle : (∀ job, request? false arguments ≠ some (.job job)) →
    (system.run arguments).disk = system.disk
  /-- A failed run leaves everything as it was, unless it is the writing of its text that
  breaks off. -/
  failed : (system.run arguments).code ≠ succeeded →
    ((system.run arguments).disk = system.disk ∧ (system.run arguments).stdout = .empty) ∨
      ∃ job text, request? false arguments = some (.job job) ∧ system.Prints job text ∧
        system.BreaksOff job text (system.run arguments)
  /-- Without an output file no file changes. -/
  printed : ∀ job, request? false arguments = some (.job job) → job.output = none →
    (system.run arguments).disk = system.disk ∧
      ((system.run arguments).code = succeeded → ∃ text, system.Prints job text ∧
        (system.run arguments).stdout = Limit.cut system.stdout? text)
  /-- With an output file, success means that this file alone has changed, and holds exactly
  what would be printed without it. -/
  written : ∀ job path, request? false arguments = some (.job job) → job.output = some path →
    (system.run arguments).code = succeeded →
      (system.run arguments).stdout = .empty ∧ ∃ text location, system.Prints job text ∧
        system.disk.Wrote path location text (system.run arguments).disk
  /-- The command line without its input file does with the standard input what this
  one does with the file. Only a refusal of what is no text tells where it comes from. -/
  read : ∀ job path content, request? false arguments = some (.job job) →
    job.input = some path → system.disk.read path = .ok content →
    ∃ piped, request? false piped = some (.job { job with input := none }) ∧
      (system.run arguments).SameEffect ({ system with stdin := .ok content }.run piped) ∧
      (∀ text, textOf content = .ok text →
        system.run arguments = { system with stdin := .ok content }.run piped) ∧
      ∀ cause, textOf content = .error cause →
        (system.run arguments).stderr = (RunFault.inputFile path cause).report ∧
          ({ system with stdin := .ok content }.run piped).stderr =
            (RunFault.input cause).report

/-- Every run is confined to its one output, and indifferent to where its text comes from. -/
theorem run_confined (system : System) (arguments : List String) :
    system.Confined arguments where
  idle idle := (run_of_no_job system idle).1
  failed := run_of_failed
  printed _ := run_of_no_output
  written _ _ := run_of_output
  read := by
    intro job path content asked named kept
    have sound := Job.sound_of_request? asked
    have piped : { job with input := none }.Sound := ⟨sound.indent, sound.shell⟩
    have askedPiped := Job.request?_spelled piped
    exact ⟨_, askedPiped, run_of_input asked named kept askedPiped⟩

/-- One file may be both what a run reads and what it writes. -/
theorem run_confined_in_place :
    ((World.system ⟨.empty, [("a", "[null]")]⟩).run
        ["encode", "-i", "a", "-o", "a"]).disk.read "a" = .ok "[\n  null\n]".toUTF8 := by
  let system := World.system ⟨.empty, [("a", "[null]")]⟩
  have confined := run_confined system ["encode", "-i", "a", "-o", "a"]
  obtain ⟨_, text, location, ⟨plain, asked, _, printed⟩, wrote⟩ := confined.written
    ⟨.encode, some "a", some "a", none, false, false⟩ "a" (by decide +kernel) rfl
    (by decide +kernel)
  have made : text = "[\n  null\n]".toUTF8 := by
    rw [← printed, run_of_job asked]
    decide +kernel
  rw [wrote.read_eq rfl, made]

/-! ### Runs are not all or nothing

Nothing is put back when the writing of a text breaks off, a flag may keep a command
line from being a job although it names an output, and a report says where a text was
read. -/

/-- What a run would have to leave behind to be all or nothing, and to be the same wherever
its text comes from. -/
structure Atomic (system : System) : Prop where
  failed : ∀ arguments, (system.run arguments).code ≠ succeeded →
    (system.run arguments).disk = system.disk ∧ (system.run arguments).stdout = .empty
  written : ∀ arguments path, (system.run (arguments ++ ["-o", path])).code = succeeded →
    (system.run (arguments ++ ["-o", path])).stdout = .empty ∧
      (system.run (arguments ++ ["-o", path])).disk.read path =
        .ok (system.run arguments).stdout
  read : ∀ arguments job path content, request? false arguments = some (.job job) →
    job.input = none → system.disk.read path = .ok content →
    system.run (arguments ++ ["-i", path]) = { system with stdin := .ok content }.run arguments

end System

namespace World

/-- The system of a world where files can be emptied but not filled. -/
def full (world : World) : System :=
  { world.system with disk := { world.disk with limit? := fun _ => some ⟨0, .noSpace⟩ } }

def withFile (world : World) (name : String) (content : ByteArray) : System :=
  { world.system with disk := world.disk.store (name :: home) content }

end World

/-- An old file is lost where there is no space for the new one, a version line is not
written to the file that is named behind it, and a file that holds no text is refused by
its name. -/
theorem run_not_atomic :
    ¬ (World.full ⟨"null".toUTF8, [("x", "old")]⟩).Atomic ∧
      ¬ (World.system ⟨"null".toUTF8, []⟩).Atomic ∧
      ¬ (World.withFile ⟨.empty, []⟩ "x" ⟨#[0xFF]⟩).Atomic := by
  refine ⟨fun atomic => ?_, fun atomic => ?_, fun atomic => ?_⟩
  · have kept := (atomic.failed ["encode", "-o", "x"] (by decide +kernel)).1
    have same := congrArg (fun disk : Disk => (disk.content ["x", "/"]).size) kept
    revert same
    decide +kernel
  · have silent := (atomic.written ["--version", "encode"] "x" (by decide +kernel)).1
    have same := congrArg ByteArray.size silent
    revert same
    decide +kernel
  · have indifferent := atomic.read ["encode"] (.ofTask .encode) "x" ⟨#[0xFF]⟩
      (by decide +kernel) rfl rfl
    have same := congrArg Ending.stderr indifferent
    revert same
    decide +kernel

end DocShell.CommandLine
