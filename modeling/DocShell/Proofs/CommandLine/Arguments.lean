import DocShell.CommandLine.Arguments
import DocShell.Proofs.Text.Digits

namespace DocShell.CommandLine

/-! # Command lines of jobs

Every job that options can describe has a command line, with each value attached to the
long form of its option. So a job can be asked for again with an option more or less. -/

namespace Task

theorem ofName?_name (task : Task) : ofName? task.name = some task := by
  cases task <;> decide

end Task

/-- The name of a task is no flag, and help is not asked for by it. -/
theorem request?_name (task : Task) (arguments : List String) :
    request? false (task.name :: arguments) = do
      return (← options (.ofTask task) arguments).withVerbose false := by
  have plain : task.name ≠ "--verbose" ∧ asksVersion task.name = false ∧
      asksHelp task.name = false ∧ task.name ≠ "help" := by
    cases task <;> decide
  obtain ⟨notVerbose, notVersion, notHelp, notWord⟩ := plain
  rw [request?, if_neg notVerbose, notVersion, notHelp, if_neg notWord, Task.ofName?_name]
  rfl

namespace Setting

def attached (setting : Setting) (value : String) : String := setting.long ++ "=" ++ value

theorem ofArgument?_attached (setting : Setting) (value : String) :
    ofArgument? (setting.attached value) = some (setting, some value) := by
  cases setting <;> simp [ofArgument?, attached, long, all]

/-- Such an argument is none of those that stand for themselves. -/
theorem attached_ne (setting : Setting) (value : String) {argument : String}
    (plain : ofArgument? argument = none) : setting.attached value ≠ argument := by
  intro equal
  rw [← equal, ofArgument?_attached] at plain
  cases plain

theorem asksHelp_attached (setting : Setting) (value : String) :
    asksHelp (setting.attached value) = false := by
  have other : setting.attached value ≠ "--help" := setting.attached_ne value (by decide)
  rw [asksHelp, isFlag, decide_eq_false other]
  cases setting <;> simp [attached, long]

end Setting

theorem options_attached (job : Job) (setting : Setting) (value : String) (rest : List String) :
    options job (setting.attached value :: rest) =
      (setting.apply value job).bind fun changed => options changed rest := by
  rw [options, if_neg (setting.attached_ne value (by decide)),
    if_neg (setting.attached_ne value (by decide)),
    if_neg (setting.attached_ne value (by decide)), setting.asksHelp_attached,
    setting.ofArgument?_attached]
  rfl

namespace Job

/-- A job that options can describe. An indent makes no sense for every task, and it
has to fit a machine word; one task alone has a choice of output. -/
structure Sound (job : Job) : Prop where
  indent : ∀ spaces, job.indent = some spaces → job.task.takesIndent = true ∧ spaces < UInt64.size
  shell : job.shell = true → job.task = .command

variable {job changed : Job} {arguments : List String} {verbose : Bool}

/-! ## Whatever is asked for can be described -/

theorem sound_ofTask (task : Task) : (Job.ofTask task).Sound where
  indent := by
    intro spaces given
    cases given
  shell := by
    intro given
    cases given

theorem Sound.apply (sound : job.Sound) {setting : Setting} {value : String}
    (applied : setting.apply value job = some changed) : changed.Sound := by
  cases setting with
  | input =>
      simp only [Setting.apply, Option.ite_none_right_eq_some, Option.some.injEq] at applied
      obtain ⟨_, rfl⟩ := applied
      exact ⟨sound.indent, sound.shell⟩
  | output =>
      simp only [Setting.apply, Option.ite_none_right_eq_some, Option.some.injEq] at applied
      obtain ⟨_, rfl⟩ := applied
      exact ⟨sound.indent, sound.shell⟩
  | indent =>
      simp only [Setting.apply, Option.ite_none_right_eq_some] at applied
      obtain ⟨⟨_, takes⟩, applied⟩ := applied
      split at applied
      · rename_i spaces _
        simp only [Option.ite_none_right_eq_some, Option.some.injEq] at applied
        obtain ⟨fits, rfl⟩ := applied
        refine ⟨?_, sound.shell⟩
        intro other given
        cases given
        exact ⟨takes, fits⟩
      · cases applied

theorem Sound.options (sound : job.Sound)
    (described : options job arguments = some (.job changed)) : changed.Sound := by
  fun_induction CommandLine.options job arguments with
  | case1 | case2 =>
      cases described
      exact sound
  | case5 _ _ _ _ induction => exact induction ⟨sound.indent, sound.shell⟩ described
  | case7 job _ allowed _ _ induction =>
      have isCommand : job.task = .command :=
        Classical.not_not.mp fun other => allowed (.inr other)
      exact induction ⟨sound.indent, fun _ => isCommand⟩ described
  -- An option with its value, attached or in the next argument.
  | case10 _ _ _ _ _ _ _ _ _ _ induction | case12 _ _ _ _ _ _ _ _ _ _ _ induction =>
      obtain ⟨next, applied, described⟩ := Option.bind_eq_some_iff.mp described
      exact induction next (sound.apply applied) described
  -- Help, and refused command lines.
  | case3 | case4 | case6 | case8 | case9 | case11 | case13 => cases described

theorem sound_of_request? (asked : request? verbose arguments = some (.job job)) : job.Sound := by
  fun_induction request? verbose arguments with
  | case3 _ _ _ induction => exact induction asked
  | case6 =>
      obtain ⟨topic, _, asked⟩ := Option.map_eq_some_iff.mp asked
      cases asked
  | case7 =>
      obtain ⟨task, _, asked⟩ := Option.bind_eq_some_iff.mp asked
      obtain ⟨request, described, asked⟩ := Option.bind_eq_some_iff.mp asked
      cases request with
      | version | help => cases asked
      | job first =>
          cases asked
          have sound := (sound_ofTask task).options described
          exact ⟨sound.indent, sound.shell⟩
  | case1 | case2 | case4 | case5 => cases asked

/-! ## Whatever can be described can be asked for -/

def settings (job : Job) : List (Setting × String) :=
  (job.input.map (.input, ·)).toList ++ (job.output.map (.output, ·)).toList ++
    (job.indent.map fun spaces => (.indent, String.ofList (Text.ofNat spaces))).toList

def spelled (job : Job) : List String :=
  job.task.name :: (job.settings.map fun (setting, value) => setting.attached value) ++
    (if job.shell then ["--shell"] else []) ++ (if job.verbose then ["--verbose"] else [])

def withSettings (job : Job) (settings : List (Setting × String)) : Option Job :=
  settings.foldlM (fun job (setting : Setting × String) => setting.1.apply setting.2 job) job

theorem options_settings (settings : List (Setting × String)) (rest : List String) :
    CommandLine.options job
        ((settings.map fun (setting, value) => setting.attached value) ++ rest) =
      (job.withSettings settings).bind fun changed => CommandLine.options changed rest := by
  induction settings generalizing job with
  | nil => rfl
  | cons first others induction =>
      rw [List.map_cons, List.cons_append, options_attached, withSettings, List.foldlM_cons]
      cases first.1.apply first.2 job with
      | none => rfl
      | some changed => exact induction

/-- The options with values make the job but for its flags. -/
theorem withSettings_settings (sound : job.Sound) :
    (ofTask job.task).withSettings job.settings =
      some { job with shell := false, verbose := false } := by
  obtain ⟨task, input, output, indent, shell, verbose⟩ := job
  cases indent with
  | none => cases input <;> cases output <;> rfl
  | some spaces =>
      obtain ⟨takes, fits⟩ := sound.indent spaces rfl
      cases input <;> cases output <;>
        simpa [withSettings, settings, Setting.apply, ofTask, takes] using fits

theorem options_spelled (sound : job.Sound) :
    CommandLine.options (.ofTask job.task) job.spelled.tail = some (.job job) := by
  rw [spelled, List.cons_append, List.cons_append, List.tail_cons, List.append_assoc,
    options_settings, withSettings_settings sound, Option.bind_some]
  obtain ⟨task, input, output, indent, shell, verbose⟩ := job
  cases shell with
  | false => cases verbose <;> simp [options]
  | true =>
      have isCommand : task = .command := sound.shell rfl
      cases verbose <;> simp [options, isCommand]

theorem request?_spelled (sound : job.Sound) : request? false job.spelled = some (.job job) := by
  have options := options_spelled sound
  rw [spelled, List.cons_append, List.cons_append, List.tail_cons] at options
  rw [spelled, List.cons_append, List.cons_append, request?_name, options]
  rfl

end Job

end DocShell.CommandLine
