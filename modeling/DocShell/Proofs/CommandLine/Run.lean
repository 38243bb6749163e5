import DocShell.CommandLine.Run
import DocShell.Proofs.CommandLine.Disk

namespace DocShell.CommandLine

/-! # What a run does to files and texts

A job makes its result, or fails, before it writes or prints anything. What comes of the
run depends on nothing but that result, the place it goes to, and what is taken there. -/

variable {progress later : Progress} {cause : FileFault}

/-! ## Runs of actions -/

namespace Action

variable {ε α β : Type} {action : ExceptT ε Action α} {next : α → ExceptT ε Action β}
  {item : α} {failure : ε} {path : String} {location : Location} {disk : Disk}

theorem run_bind_of_ok (ran : action.run.run progress = (.ok item, later)) :
    (action >>= next).run.run progress = (next item).run.run later := by
  rw [ExceptT.run_bind, StateT.run_bind, ran]
  rfl

theorem run_bind_of_error (ran : action.run.run progress = (.error failure, later)) :
    (action >>= next).run.run progress = (.error failure, later) := by
  rw [ExceptT.run_bind, StateT.run_bind, ran]
  rfl

theorem run_adapt {ε' : Type} (named : ε → ε') {result : Except ε α}
    (ran : action.run.run progress = (result, later)) :
    (action.adapt named).run.run progress = (result.mapError named, later) := by
  rw [ExceptT.run_adapt, StateT.run_map, ran]
  rfl

theorem run_ofExcept (result : Except ε α) :
    (ofExcept result : ExceptT ε Action α).run.run progress = (result, progress) := by
  cases result <;> rfl

theorem run_lift {steps : Action α} (ran : steps.run progress = (item, later)) :
    (ExceptT.lift steps : ExceptT ε Action α).run.run progress = (.ok item, later) := by
  rw [ExceptT.run_lift, StateT.run_map, ran]
  rfl

theorem run_getThe :
    (getThe Progress : ExceptT ε Action Progress).run.run progress = (.ok progress, progress) :=
  rfl

theorem run_create_of_ok (opened : progress.system.disk.create path = .ok (location, disk)) :
    (create path).run.run progress = (.ok location, progress.withDisk disk) := by
  refine (run_bind_of_ok run_getThe).trans ?_
  rw [opened]
  rfl

theorem run_create_of_error (refused : progress.system.disk.create path = .error cause) :
    (create path).run.run progress = (.error cause, progress) := by
  refine (run_bind_of_ok run_getThe).trans ?_
  rw [refused]
  rfl

theorem run_write (progress : Progress) (location : Location) (bytes : ByteArray) :
    (write location bytes).run.run progress =
      ((progress.system.disk.append location bytes).1,
        progress.withDisk (progress.system.disk.append location bytes).2) := rfl

theorem run_send (progress : Progress) (bytes : ByteArray) :
    (send bytes).run.run progress =
      (Limit.check progress.system.stdout? (progress.printed ++ bytes).size,
        progress.withPrinted (Limit.cut progress.system.stdout? (progress.printed ++ bytes))) := rfl

theorem run_readFile (path : String) :
    (readFile path).run.run progress = (progress.system.disk.read path, progress) := rfl

theorem run_readStdin :
    readStdin.run.run progress = (progress.system.stdin, progress.withoutStdin) := rfl

end Action

open DocShell.CommandLine.Action

/-! ## What is printed and written -/

theorem sendable_append (text : String) : (sendable text).1 ++ (sendable text).2 = text := by
  unfold sendable
  dsimp only
  split
  · rw [← String.ofList_append, ← List.reverse_append, List.takeWhile_append_dropWhile,
      List.reverse_reverse, String.ofList_toList]
  · exact String.append_empty

theorem toUTF8_sendable (text : String) :
    (sendable text).1.toUTF8 ++ (sendable text).2.toUTF8 = text.toUTF8 :=
  String.toByteArray_append.symm.trans (congrArg String.toUTF8 (sendable_append text))

namespace Host

variable {text path : String}

theorem run_sendUnasked (progress : Progress) (bytes : ByteArray) :
    (modelled.sendUnasked bytes).run progress =
      ((), progress.withPrinted
        (Limit.cut progress.system.stdout? (progress.printed ++ bytes))) := rfl

/-- The first text that is printed is printed as far as it is taken. Whether it was matters
only for what is sent at once. -/
theorem run_print (fresh : progress.printed = .empty) (text : String) :
    (modelled.print text).run.run progress =
      (Limit.check progress.system.stdout? (sendable text).1.toUTF8.size,
        progress.withPrinted (Limit.cut progress.system.stdout? text.toUTF8)) := by
  have sent := run_send progress (sendable text).1.toUTF8
  rw [fresh, ByteArray.empty_append] at sent
  cases taken : Limit.check progress.system.stdout? (sendable text).1.toUTF8.size with
  | error cause =>
      have cuts := (Limit.cutsOff_of_check taken).append (sendable text).2.toUTF8
      rw [toUTF8_sendable] at cuts
      rw [taken, cuts.eq_cut] at sent
      exact run_bind_of_error sent
  | ok =>
      rw [taken, Limit.cut_of_check taken] at sent
      have held := run_sendUnasked (progress.withPrinted (sendable text).1.toUTF8)
        (sendable text).2.toUTF8
      rw [Progress.withPrinted_printed, Progress.withPrinted_system, toUTF8_sendable] at held
      exact (run_bind_of_ok sent).trans (run_lift held)

theorem run_writeFile_of_error (refused : progress.system.disk.create path = .error cause) :
    (modelled.writeFile path text).run.run progress = (.error cause, progress) :=
  run_bind_of_error (run_create_of_error refused)

theorem run_writeFile_of_ok {location : Location} {opened : Disk}
    (created : progress.system.disk.create path = .ok (location, opened)) :
    (modelled.writeFile path text).run.run progress =
      ((opened.append location text.toUTF8).1,
        progress.withDisk (opened.append location text.toUTF8).2) :=
  (run_bind_of_ok (run_create_of_ok created)).trans (run_write _ _ _)

end Host

/-! ## What a job makes -/

namespace Job

variable {job : Job} {system : System} {fault : RunFault} {text : String}

def source (job : Job) (system : System) : Except RunFault String :=
  match job.input with
  | some path => (system.disk.read path >>= textOf).mapError (.inputFile path)
  | none => (system.stdin >>= textOf).mapError .input

def result (job : Job) (system : System) : Except RunFault String := do
  let text ← job.source system
  (job.convert text).mapError (.conversion job.task)

theorem run_readText {read : ExceptT FileFault Action ByteArray}
    {content : Except FileFault ByteArray} (ran : read.run.run progress = (content, later)) :
    (readText read).run.run progress = (content >>= textOf, later) := by
  cases content with
  | error cause => exact run_bind_of_error ran
  | ok content => exact run_bind_of_ok ran

/-- Reading uses up the standard input, if anything. -/
theorem run_readInput (job : Job) (system : System) :
    ∃ stdin, (job.readInput modelled).run.run system.begin =
      (job.source system, { system with stdin := stdin }.begin) := by
  unfold readInput source
  cases job.input with
  | none => exact ⟨.ok .empty, run_adapt _ (run_readText run_readStdin)⟩
  | some path => exact ⟨system.stdin, run_adapt _ (run_readText (run_readFile path))⟩

/-- Up to the point where a job puts its result somewhere, nothing is written or printed. -/
theorem run_perform_of_ok (made : job.result system = .ok text) :
    ∃ stdin, (job.perform modelled).run.run system.begin =
      (job.writeOutput modelled text).run.run { system with stdin := stdin }.begin := by
  obtain ⟨read, source, converted⟩ := bind_eq_ok.mp made
  obtain ⟨stdin, reads⟩ := job.run_readInput system
  refine ⟨stdin, ?_⟩
  rw [source] at reads
  rw [perform, run_bind_of_ok reads]
  refine run_bind_of_ok ((run_ofExcept _).trans ?_)
  rw [converted]

theorem run_perform_of_error (refused : job.result system = .error fault) :
    ∃ stdin, (job.perform modelled).run.run system.begin =
      (.error fault, { system with stdin := stdin }.begin) := by
  obtain ⟨stdin, reads⟩ := job.run_readInput system
  refine ⟨stdin, ?_⟩
  rcases bind_eq_error.mp refused with source | ⟨read, source, converted⟩
  · rw [source] at reads
    rw [perform, run_bind_of_error reads]
  · rw [source] at reads
    rw [perform, run_bind_of_ok reads]
    refine run_bind_of_error ((run_ofExcept _).trans ?_)
    rw [converted]

end Job

/-! ## Endings -/

namespace Ending

def after (fate : Except RunFault Unit) (printed : ByteArray) (disk : Disk) : Ending :=
  match fate with
  | .ok () => ⟨succeeded, printed, "", disk⟩
  | .error fault => ⟨fault.code, printed, fault.report, disk⟩

def ofText (system : System) (text : String) : Option String → Ending
  | none =>
      after ((Limit.check system.stdout? (sendable text).1.toUTF8.size).mapError .output)
        (Limit.cut system.stdout? text.toUTF8) system.disk
  | some path =>
      match system.disk.create path with
      | .error cause => after (.error (.outputFile path cause)) .empty system.disk
      | .ok (location, opened) =>
          let written := opened.append location text.toUTF8
          after (written.1.mapError (.outputFile path)) .empty written.2

def ofResult (system : System) (result : Except RunFault String) (output : Option String) :
    Ending :=
  match result with
  | .error fault => after (.error fault) .empty system.disk
  | .ok text => ofText system text output

end Ending

namespace System

variable {system : System} {job : Job} {arguments : List String} {fate : Except RunFault Unit}

theorem run_of_perform (asked : request? false arguments = some (.job job))
    (ran : (job.perform modelled).run.run system.begin = (fate, later))
    (silent : later.reported = "") :
    system.run arguments = .after fate later.printed later.system.disk := by
  rw [run, Host.run, asked]
  dsimp only
  rw [Host.execute, StateT.run_bind, ran]
  cases fate with
  | ok => exact congrArg (Ending.mk _ _ · _) silent
  | error fault =>
      have reported : later.reported ++ fault.report = fault.report := by
        rw [silent, String.empty_append]
      exact congrArg (Ending.mk _ _ · _) reported

/-- The end of the run of a job is a matter of its result alone. -/
theorem run_of_job (asked : request? false arguments = some (.job job)) :
    system.run arguments = .ofResult system (job.result system) job.output := by
  cases made : job.result system with
  | error fault =>
      obtain ⟨stdin, ran⟩ := Job.run_perform_of_error made
      exact run_of_perform asked ran rfl
  | ok text =>
      obtain ⟨stdin, ran⟩ := Job.run_perform_of_ok made
      rw [Job.writeOutput] at ran
      rw [Ending.ofResult]
      cases output : job.output with
      | none =>
          rw [output] at ran
          exact run_of_perform asked (ran.trans (run_adapt _ (Host.run_print rfl text))) rfl
      | some path =>
          rw [output] at ran
          dsimp only [Ending.ofText]
          cases created : system.disk.create path with
          | error cause =>
              exact run_of_perform asked
                (ran.trans (run_adapt _ (Host.run_writeFile_of_error created))) rfl
          | ok opened =>
              exact run_of_perform asked
                (ran.trans (run_adapt _ (Host.run_writeFile_of_ok created))) rfl

end System

end DocShell.CommandLine
