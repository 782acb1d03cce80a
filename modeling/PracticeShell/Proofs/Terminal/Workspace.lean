import PracticeShell.Terminal.Workspace

/-! The program in a workspace, whose world is a disk in memory. There each loop takes its lines one
after the other: what it does is what the first line does and then, from what that leaves, the rest. -/
namespace PracticeShell

namespace Shell
variable {m : Type → Type} [World m] [LawfulMonad m] {style : Screen.Style} {stateFile : Option String}

theorem runLines_cons (success : Bool) (line : Instant × String) (rest : List (Instant × String)) :
    (runLines style stateFile success (line :: rest) : Shell m Bool) = (do
      let outcome ← runLine stateFile line.1 line.2
      put (outcome.render style)
      runLines style stateFile outcome.success rest) := by
  simp [runLines]

theorem converse_nil : (converse style stateFile ([] : List (Instant × List UInt8)) : Shell m Bool) =
    (do
      put (Workspace.promptScreen style (← get))
      put (Workspace.endScreen style)
      return true) := by
  simp [converse]

theorem converse_cons (line : Instant × List UInt8) (rest : List (Instant × List UInt8)) :
    (converse style stateFile (line :: rest) : Shell m Bool) = (do
      put (Workspace.promptScreen style (← get))
      match Workspace.lineOf? line.2 with
      | none => return true
      | some typed => do
        let outcome ← runLine stateFile line.1 typed
        put (outcome.render style)
        converse style stateFile rest) := by
  cases h : Workspace.lineOf? line.2 <;> simp [converse, h]

end Shell

namespace Workspace
variable {α β : Type} {w : Workspace} {s : Session} {disk : Disk} {name typed : String}
  {now : Instant} {outcome : Outcome}

/-! ### One thing after another -/

theorem play_bind (w : Workspace) (x : Shell OnDisk α) (f : α → Shell OnDisk β) :
    w.play (x >>= f) = match w.play x with
      | ⟨(.ok a, session), disk, shown⟩ =>
        let rest := ({ w with session, disk } : Workspace).play (f a)
        { rest with screen := shown ++ rest.screen }
      | ⟨(.error failure, session), disk, shown⟩ => ⟨(.error failure, session), disk, shown⟩ := by
  simp only [play, ExceptT.run_bind, StateT.run_bind, OnDisk.play_bind]
  obtain ⟨⟨ending, s⟩, d, shown⟩ := (x.run.run w.session).play w.disk
  cases ending <;> simp

theorem play_pure (w : Workspace) (a : α) :
    w.play (pure a) = ⟨(.ok a, w.session), w.disk, .blank⟩ := rfl

theorem play_get (w : Workspace) :
    w.play (get : Shell OnDisk Session) = ⟨(.ok w.session, w.session), w.disk, .blank⟩ := rfl

theorem play_set (w : Workspace) (s : Session) :
    w.play (set s : Shell OnDisk PUnit) = ⟨(.ok ⟨⟩, s), w.disk, .blank⟩ := rfl

theorem play_lift (w : Workspace) (x : OnDisk α) : w.play (liftM x) =
    let played := x.play w.disk
    { played with value := (.ok played.value, w.session) } := by
  have hshown : (x.play w.disk).screen ++ .blank ++ .blank = (x.play w.disk).screen := by simp
  exact congrArg (Played.mk _ _) hshown

theorem play_put (w : Workspace) (screen : Screen) :
    w.play (Shell.put screen) = ⟨(.ok (), w.session), w.disk, screen⟩ :=
  play_lift w _

/-! ### Opening, a line, and saving -/

theorem start_some (now : Instant) (name : String) (disk : Disk) :
    start now (some name) disk = ⟨savedSession now (disk.read name), some name, disk⟩ := rfl

theorem play_save_none (w : Workspace) :
    w.play (Shell.save none) = ⟨(.ok (), w.session), w.disk, .blank⟩ := rfl

theorem play_save_some (w : Workspace) (name : String) : w.play (Shell.save (some name)) =
    match w.disk.write name w.session.encode with
    | .ok disk => ⟨(.ok (), w.session), disk, .blank⟩
    | .error cause => ⟨(.error (.write name cause), w.session), w.disk, .blank⟩ := by
  have hwrite := play_lift w (World.write name w.session.encode)
  change w.play (get >>= fun s => liftM (World.write name s.encode) >>= _) = _
  rw [play_bind, play_get]
  simp only
  rw [play_bind, hwrite]
  simp only [World.write]
  cases w.disk.write name w.session.encode <;> rfl

theorem screen_save (w : Workspace) (stateFile : Option String) :
    (w.play (Shell.save stateFile)).screen = .blank := by
  cases stateFile with
  | none => rfl
  | some name =>
    rw [play_save_some]
    cases w.disk.write name w.session.encode <;> rfl

theorem play_runLine (w : Workspace) (stateFile : Option String) (now : Instant) (typed : String) :
    w.play (Shell.runLine stateFile now typed) =
      let ran := (Session.runLine now typed).run w.session
      let saved := ({ w with session := ran.2 } : Workspace).play (Shell.save stateFile)
      ⟨(saved.value.1.map fun _ => ran.1, saved.value.2), saved.disk, .blank⟩ := by
  simp only [Shell.runLine, play_bind, play_get]
  obtain ⟨outcome, s⟩ := (Session.runLine now typed).run w.session
  have hshown := screen_save { w with session := s } stateFile
  simp only [play_bind, play_set]
  generalize Workspace.play _ (Shell.save stateFile) = saved at hshown ⊢
  obtain ⟨⟨ending, s⟩, d, shown⟩ := saved
  obtain rfl : shown = .blank := hshown
  cases ending <;> simp [play_pure, Except.map]

theorem play_start (now : Instant) (stateFile : Option String) (disk : Disk) :
    (Shell.start now stateFile : OnDisk Session).play disk =
      ⟨(start now stateFile disk).session, disk, .blank⟩ := by
  cases stateFile <;> rfl

theorem runLine_of_write (hfile : w.stateFile = some name)
    (hran : (Session.runLine now typed).run w.session = (outcome, s))
    (hwrite : w.disk.write name s.encode = .ok disk) :
    w.runLine now typed = (.ok outcome, { w with session := s, disk }) := by
  obtain ⟨session, stateFile, old⟩ := w
  obtain rfl : stateFile = some name := hfile
  rw [Workspace.runLine, play_runLine]
  simp only [hran, play_save_some, hwrite]
  rfl

theorem runLine_of_no_file (hfile : w.stateFile = none)
    (hran : (Session.runLine now typed).run w.session = (outcome, s)) :
    w.runLine now typed = (.ok outcome, { w with session := s }) := by
  obtain ⟨session, stateFile, old⟩ := w
  obtain rfl : stateFile = none := hfile
  rw [Workspace.runLine, play_runLine]
  simp only [hran, play_save_none]
  rfl

/-! ### Lines in turn -/

theorem play_run' (w : Workspace) (x : Shell OnDisk Bool) : (x.run.run' w.session).play w.disk =
    ⟨(w.report x).ending, (w.report x).workspace.disk, (w.report x).screen⟩ := by
  simp [report, play, after]

theorem report_prompt (w : Workspace) (style : Screen.Style) (x : Shell OnDisk Bool) :
    (w.report do
      Shell.put (promptScreen style (← get))
      x) = { w.report x with screen := promptScreen style w.session ++ (w.report x).screen } := by
  simp [report, play_bind, play_get, play_put, after]

theorem report_line (w : Workspace) (now : Instant) (typed : String) (shown : Outcome → Screen)
    (rest : Outcome → Shell OnDisk Bool) :
    (w.report do
      let outcome ← Shell.runLine w.stateFile now typed
      Shell.put (shown outcome)
      rest outcome) = match w.runLine now typed with
      | (.error failure, w') => ⟨.blank, w', .error failure⟩
      | (.ok outcome, w') =>
        let report := w'.report (rest outcome)
        { report with screen := shown outcome ++ report.screen } := by
  have hplay : w.play (Shell.runLine w.stateFile now typed) =
      ⟨((w.runLine now typed).1, (w.runLine now typed).2.session), (w.runLine now typed).2.disk,
        .blank⟩ := by
    rw [Workspace.runLine, play_runLine]
    rfl
  have hfile : (w.runLine now typed).2.stateFile = w.stateFile := rfl
  rw [report, play_bind, hplay]
  generalize w.runLine now typed = ran at hfile ⊢
  obtain ⟨ending, w'⟩ := ran
  simp only at hfile
  cases ending with
  | error failure => simp [after, ← hfile]
  | ok outcome => simp [report, play_bind, play_put, after, ← hfile]

theorem runLines_nil (style : Screen.Style) (success : Bool) (w : Workspace) :
    w.runLines style success [] = ⟨.blank, w, .ok success⟩ := rfl

theorem runLines_cons (style : Screen.Style) (success : Bool) (line : Instant × String)
    (rest : List (Instant × String)) (w : Workspace) :
    w.runLines style success (line :: rest) = match w.runLine line.1 line.2 with
      | (.error failure, w') => ⟨.blank, w', .error failure⟩
      | (.ok outcome, w') =>
        let report := w'.runLines style outcome.success rest
        { report with screen := outcome.render style ++ report.screen } := by
  have hfile : (w.runLine line.1 line.2).2.stateFile = w.stateFile := rfl
  rw [Workspace.runLines, Shell.runLines_cons, report_line]
  generalize w.runLine line.1 line.2 = ran at hfile ⊢
  obtain ⟨ending, w'⟩ := ran
  cases ending with
  | error failure => rfl
  | ok outcome => rw [← hfile]; rfl

theorem converse_nil (style : Screen.Style) (w : Workspace) :
    w.converse style [] = ⟨promptScreen style w.session ++ endScreen style, w, .ok true⟩ := by
  rw [Workspace.converse, Shell.converse_nil, report_prompt, report, play_bind, play_put]
  simp [play_pure, after]

theorem converse_cons (style : Screen.Style) (line : Instant × List UInt8)
    (rest : List (Instant × List UInt8)) (w : Workspace) :
    w.converse style (line :: rest) = match lineOf? line.2 with
      | none => ⟨promptScreen style w.session, w, .ok true⟩
      | some typed =>
        match w.runLine line.1 typed with
        | (.error failure, w') => ⟨promptScreen style w.session, w', .error failure⟩
        | (.ok outcome, w') =>
          let report := w'.converse style rest
          { report with
            screen := promptScreen style w.session ++ outcome.render style ++ report.screen } := by
  rw [Workspace.converse, Shell.converse_cons, report_prompt]
  cases lineOf? line.2 with
  | none => simp [report, play_pure, after]
  | some typed =>
    have hfile : (w.runLine line.1 typed).2.stateFile = w.stateFile := rfl
    simp only [report_line]
    generalize w.runLine line.1 typed = ran at hfile ⊢
    obtain ⟨ending, w'⟩ := ran
    cases ending with
    | error failure => simp
    | ok outcome =>
      rw [← hfile]
      simp only [Screen.append_assoc]
      rfl

end Workspace

end PracticeShell
