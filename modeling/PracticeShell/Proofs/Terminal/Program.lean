import PracticeShell.Proofs.Terminal.Stream
import PracticeShell.Terminal.Program

/-! The settings of the program, and how it ends. Options come before the environment and the config
file. Without valid settings nothing is shown or written; a list of lines ends as its last line
does. -/
namespace PracticeShell

/-- The value is the first one given. -/
inductive FirstGiven {α : Type} : List (Option α) → α → Prop
  | here {a : α} {rest : List (Option α)} : FirstGiven (some a :: rest) a
  | later {a : α} {rest : List (Option α)} (h : FirstGiven rest a) : FirstGiven (none :: rest) a

namespace FirstGiven
variable {α : Type} {a : α} {given : Option α} {rest : List (Option α)}

theorem cons_iff : FirstGiven (given :: rest) a ↔ given = some a ∨ given = none ∧ FirstGiven rest a := by
  constructor
  · intro h
    cases h with
    | here => exact .inl rfl
    | later h => exact .inr ⟨rfl, h⟩
  · rintro (rfl | ⟨rfl, h⟩)
    · exact .here
    · exact .later h

theorem not_nil : ¬ FirstGiven [] a := nofun

end FirstGiven

namespace Settings
variable {o : Options} {c : ConfigFile}

theorem stateFile_merge_iff {name : String} :
    (merge o c).stateFile = some name ↔ FirstGiven [o.stateFile, c.stateFile] name := by
  simp [merge, Option.or_eq_some_iff, FirstGiven.cons_iff, FirstGiven.not_nil]

theorem logLevel_merge_iff {level : String} :
    (merge o c).logLevel = some level ↔ FirstGiven [o.logLevel, c.logLevel] level := by
  simp [merge, Option.or_eq_some_iff, FirstGiven.cons_iff, FirstGiven.not_nil]

end Settings

namespace Program
variable {environment : Option String} {o : Options} {c : ConfigFile} {settings : Settings}
  {failure : Failure} {s : Setting} {level : String}

/-! ### Settings -/

/-- The filter text of the options, else of the environment, else of the config file, else the
default. -/
def Chosen (environment : Option String) (o : Options) (c : ConfigFile) : String → Prop :=
  FirstGiven [o.logLevel, environment, c.logLevel, some LogFilter.defaultText]

theorem chosen_iff : Chosen environment o c level ↔
    LogFilter.chosen o.logLevel environment (Settings.merge o c).logLevel = level := by
  cases ho : o.logLevel <;> cases environment <;> cases hc : c.logLevel <;>
    simp [Chosen, LogFilter.chosen, Settings.merge, FirstGiven.cons_iff, FirstGiven.not_nil, ho, hc]

theorem settle_eq (environment : Option String) (o : Options) (c : ConfigFile) :
    settle environment o c =
      let level := LogFilter.chosen o.logLevel environment (Settings.merge o c).logLevel
      if (LogFilter.ofText? level).isSome then .ok (Settings.merge o c)
      else .error (.logLevel level) := by
  simp only [settle, LogFilter.inForce?]
  cases LogFilter.ofText? (LogFilter.chosen o.logLevel environment (Settings.merge o c).logLevel) <;> rfl

theorem settle_eq_ok_iff : settle environment o c = .ok settings ↔
    settings = Settings.merge o c ∧
      ∃ level ds, Chosen environment o c level ∧ LogFilter.ofText? level = some ds := by
  simp only [settle_eq, chosen_iff]
  cases h : LogFilter.ofText? _ with
  | some ds => simp [h, eq_comm]
  | none => simp [h]

theorem settle_eq_error_iff : settle environment o c = .error failure ↔
    ∃ level, Chosen environment o c level ∧ LogFilter.ofText? level = none ∧
      failure = .logLevel level := by
  simp only [settle_eq, chosen_iff]
  cases h : LogFilter.ofText? _ with
  | some ds => simp [h]
  | none => simp [h, eq_comm]

/-! ### The config file -/

inductive Configured (disk : Disk) (o : Options) : ConfigFile → Prop
  | unnamed (h : o.configFile = none) : Configured disk o {}
  | named {name text : String} {c : ConfigFile} (h : o.configFile = some name)
    (hread : disk.read name = .ok text) (hconfig : ConfigFile.read? text = some c) : Configured disk o c

inductive Misconfigured (disk : Disk) (o : Options) : Failure → Prop
  | unread {name : String} {cause : DiskError} (h : o.configFile = some name)
    (hread : disk.read name = .error cause) : Misconfigured disk o (.read name cause)
  | invalid {name text : String} (h : o.configFile = some name) (hread : disk.read name = .ok text)
    (hconfig : ConfigFile.read? text = none) : Misconfigured disk o (.config name)

def settingsOf (s : Setting) (o : Options) : Except Failure Settings :=
  ((prepare s.environment o : ExceptT Failure OnDisk Settings).run.play s.disk).value

def configFrom (disk : Disk) (o : Options) : Except Failure ConfigFile :=
  match o.configFile with
  | some name => configOf name (disk.read name)
  | none => .ok {}

theorem configOf_eq_ok_iff {name : String} {content : Except DiskError String} :
    configOf name content = .ok c ↔ ∃ text, content = .ok text ∧ ConfigFile.read? text = some c := by
  cases content with
  | error cause => simp [configOf]
  | ok text => cases h : ConfigFile.read? text <;> simp [configOf, h]

theorem configOf_eq_error_iff {name : String} {content : Except DiskError String} :
    configOf name content = .error failure ↔
      (∃ cause, content = .error cause ∧ failure = .read name cause) ∨
        ∃ text, content = .ok text ∧ ConfigFile.read? text = none ∧ failure = .config name := by
  cases content with
  | error cause => simp [configOf, eq_comm]
  | ok text => cases h : ConfigFile.read? text <;> simp [configOf, h, eq_comm]

theorem configFrom_eq_ok_iff {disk : Disk} : configFrom disk o = .ok c ↔ Configured disk o c := by
  constructor
  · intro h
    cases hname : o.configFile with
    | none =>
      obtain rfl : {} = c := by simpa [configFrom, hname] using h
      exact .unnamed hname
    | some name =>
      rw [configFrom, hname] at h
      obtain ⟨text, hread, hconfig⟩ := configOf_eq_ok_iff.1 h
      exact .named hname hread hconfig
  · intro h
    cases h with
    | unnamed hname => rw [configFrom, hname]
    | named hname hread hconfig =>
      rw [configFrom, hname]
      exact configOf_eq_ok_iff.2 ⟨_, hread, hconfig⟩

theorem configFrom_eq_error_iff {disk : Disk} :
    configFrom disk o = .error failure ↔ Misconfigured disk o failure := by
  constructor
  · intro h
    cases hname : o.configFile with
    | none => simp [configFrom, hname] at h
    | some name =>
      rw [configFrom, hname] at h
      obtain ⟨cause, hread, rfl⟩ | ⟨text, hread, hconfig, rfl⟩ := configOf_eq_error_iff.1 h
      · exact .unread hname hread
      · exact .invalid hname hread hconfig
  · intro h
    cases h with
    | unread hname hread =>
      rw [configFrom, hname]
      exact configOf_eq_error_iff.2 (.inl ⟨_, hread, rfl⟩)
    | invalid hname hread hconfig =>
      rw [configFrom, hname]
      exact configOf_eq_error_iff.2 (.inr ⟨_, hread, hconfig, rfl⟩)

theorem run_given {α : Type} (e : Except Failure α) : (liftM e : ExceptT Failure OnDisk α).run = pure e :=
  rfl

/-- Preparing shows nothing and leaves the disk as it is. -/
theorem prepare_played (environment : Option String) (o : Options) (disk : Disk) :
    (prepare environment o : ExceptT Failure OnDisk Settings).run.play disk =
      ⟨(configFrom disk o).bind (settle environment o), disk, .blank⟩ := by
  rw [prepare, configFrom]
  cases o.configFile with
  | none => simp [run_given, Except.bind]
  | some name =>
    cases h : configOf name (disk.read name) <;> simp [ExceptT.run_bind, run_given, h, Except.bind]

/-- A run has settings exactly if a config can be read and the chosen filter is valid; the options
then come before the config. -/
theorem settingsOf_eq_ok_iff : settingsOf s o = .ok settings ↔
    ∃ c, Configured s.disk o c ∧ settings = Settings.merge o c ∧
      ∃ level ds, Chosen s.environment o c level ∧ LogFilter.ofText? level = some ds := by
  simp only [← settle_eq_ok_iff, ← configFrom_eq_ok_iff]
  rw [settingsOf, prepare_played]
  cases configFrom s.disk o <;> simp [Except.bind]

theorem settingsOf_eq_error_iff : settingsOf s o = .error failure ↔
    Misconfigured s.disk o failure ∨
      ∃ c level, Configured s.disk o c ∧ Chosen s.environment o c level ∧
        LogFilter.ofText? level = none ∧ failure = .logLevel level := by
  simp only [exists_and_left, ← settle_eq_error_iff, ← configFrom_eq_ok_iff, ← configFrom_eq_error_iff]
  rw [settingsOf, prepare_played]
  cases configFrom s.disk o <;> simp [Except.bind]

/-! ### Runs -/

def workspaceOf (s : Setting) (settings : Settings) : Workspace :=
  Workspace.start s.now settings.stateFile s.disk

def reportOf (s : Setting) (o : Options) (settings : Settings) : Report :=
  let style : Screen.Style := ⟨settings.json, settings.showHints⟩
  let w := workspaceOf s settings
  if o.lines.isEmpty then w.converse style (s.timed (Workspace.rawLines [] s.input))
  else w.runLines style true (s.timed o.lines)

theorem report_talk (s : Setting) (o : Options) (settings : Settings) :
    (workspaceOf s settings).report
      (talk settings o s.timed (s.timed (Workspace.rawLines [] s.input))) = reportOf s o settings := by
  simp only [reportOf, talk]
  split <;> rfl

theorem run_of_error (h : settingsOf s o = .error failure) : run s o = ⟨.blank, s.disk, .error failure⟩ := by
  rw [settingsOf, prepare_played] at h
  simp [run, perform, ExceptT.run_bind, prepare_played, h]

theorem run_of_ok (h : settingsOf s o = .ok settings) : run s o =
    let report := reportOf s o settings
    ⟨report.screen, report.workspace.disk, report.ending⟩ := by
  have hplay := (workspaceOf s settings).play_run'
    (talk settings o s.timed (s.timed (Workspace.rawLines [] s.input)))
  rw [report_talk] at hplay
  have hstart : (Shell.start s.now settings.stateFile : OnDisk Session).play s.disk =
      ⟨(workspaceOf s settings).session, (workspaceOf s settings).disk, .blank⟩ :=
    Workspace.play_start s.now settings.stateFile s.disk
  rw [settingsOf, prepare_played] at h
  simp only [run, perform, ExceptT.run_bind, OnDisk.play_bind, prepare_played, h]
  simp [hstart, hplay, -StateT.run'_eq]

/-! ### Endings -/

theorem ending_runLines_iff {w : Workspace} {style : Screen.Style} {success last : Bool}
    {lines : List (Instant × String)} :
    (w.runLines style success lines).ending = .ok last ↔
      (w.outcomes lines).length = lines.length ∧
        last = (((w.outcomes lines).getLast?).map Outcome.success).getD success := by
  induction lines generalizing w success with
  | nil => simp [Workspace.runLines_nil, Workspace.outcomes, eq_comm]
  | cons line rest ih =>
    rw [Workspace.runLines_cons, Workspace.outcomes]
    cases hran : w.runLine line.1 line.2 with
    | mk result w' =>
      cases result with
      | error failure => simp
      | ok outcome =>
        simp only [ih, List.getLast?_cons, List.length_cons, Nat.add_right_cancel_iff]
        cases (w'.outcomes rest).getLast? <;> rfl

theorem ending_converse {w : Workspace} {style : Screen.Style} {input : List (Instant × List UInt8)}
    {last : Bool} (h : (w.converse style input).ending = .ok last) : last = true := by
  induction input generalizing w with
  | nil =>
    rw [Workspace.converse_nil] at h
    exact (Except.ok.inj h).symm
  | cons line rest ih =>
    rw [Workspace.converse_cons] at h
    cases hline : Workspace.lineOf? line.2 with
    | none =>
      rw [hline] at h
      exact (Except.ok.inj h).symm
    | some typed =>
      simp only [hline] at h
      cases hran : w.runLine line.1 typed with
      | mk result w' =>
        rw [hran] at h
        cases result with
        | error failure => simp at h
        | ok outcome => exact ih h

theorem codeOf_eq_one_iff {ending : Except Failure Bool} : codeOf ending = 1 ↔ ending = .ok false := by
  cases ending with
  | error failure => simp [codeOf]
  | ok last => cases last <;> simp [codeOf]

/-- The status is 1 exactly if every line could be saved and the last one failed; a conversation
never ends so. -/
theorem codeOf_run_eq_one_iff (s : Setting) (o : Options) : codeOf (run s o).ending = 1 ↔
    ∃ settings outcome, settingsOf s o = .ok settings ∧
      let outcomes := (workspaceOf s settings).outcomes (s.timed o.lines)
      outcomes.length = o.lines.length ∧ outcomes.getLast? = some outcome ∧ outcome.success = false := by
  rw [codeOf_eq_one_iff]
  cases h : settingsOf s o with
  | error failure => simp [run_of_error h]
  | ok settings =>
    have htimed : (s.timed o.lines).length = o.lines.length := List.length_map _
    rw [run_of_ok h]
    simp only [Except.ok.injEq, exists_and_left, exists_eq_left', reportOf]
    split
    · -- Without lines there is a conversation.
      next hlines =>
      rw [List.isEmpty_iff.1 hlines]
      constructor
      · exact fun hending => absurd (ending_converse hending) (by decide)
      · rintro ⟨-, outcome, hlast, -⟩
        simp [Setting.timed, Workspace.outcomes] at hlast
    · rw [ending_runLines_iff, htimed]
      cases ((workspaceOf s settings).outcomes (s.timed o.lines)).getLast? with
      | none => simp
      | some outcome => cases h : outcome.success <;> simp [h]

end Program

end PracticeShell
