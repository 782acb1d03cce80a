import PracticeShell.Proofs.Durable.Acceptance
import PracticeShell.Proofs.Durable.RoundTrip
import PracticeShell.Proofs.Terminal.Disk
import PracticeShell.Proofs.Terminal.Workspace

/-! Work taken up again from the state file goes on as if it had never stopped. After every line the
file holds the session, and a sound session is read back as it was. -/
namespace PracticeShell

theorem Session.Sound.runLine {s : Session} (h : s.Sound) (now : Instant) (typed : String) :
    ((Session.runLine now typed).run s).2.Sound :=
  keeps_runLine (Sound.keptByEdits now) (fun _ line h => h.record line) typed s h

namespace Workspace
variable {w : Workspace} {name : String} {style : Screen.Style}

structure Savable (name : String) (w : Workspace) : Prop where
  stateFile : w.stateFile = some name
  keeps : w.disk.Keeps name
  sound : w.session.Sound

structure Saved (name : String) (w : Workspace) : Prop extends Savable name w where
  read : w.disk.read name = .ok w.session.encode

theorem Savable.runLine (h : w.Savable name) (now : Instant) (typed : String) :
    ∃ outcome w', w.runLine now typed = (.ok outcome, w') ∧ w'.Saved name := by
  cases hran : (Session.runLine now typed).run w.session with
  | mk outcome s' =>
    have hsound : s'.Sound := by
      have hs := h.sound.runLine now typed
      rwa [hran] at hs
    obtain ⟨disk, hwrite, -⟩ := h.keeps s'.encode
    obtain ⟨hkeeps, hread⟩ := h.keeps.write hwrite
    exact ⟨outcome, { w with session := s', disk }, runLine_of_write h.stateFile hran hwrite,
      ⟨h.stateFile, hkeeps, hsound⟩, hread⟩

theorem Saved.start_eq (h : w.Saved name) (now : Instant) : start now (some name) w.disk = w := by
  have hsession : savedSession now (w.disk.read name) = w.session := by
    rw [h.read, savedSession, Session.restore, Session.decode_of_sound h.sound]
  rw [start_some, hsession, ← h.stateFile]

theorem savable_start {disk : Disk} (h : disk.Keeps name) (now : Instant) :
    (start now (some name) disk).Savable name := by
  rw [start_some]
  refine ⟨rfl, h, ?_⟩
  simp only
  cases disk.read name with
  | ok text => exact Session.restore_sound now text
  | error cause => exact Session.Sound.seeded now

theorem Saved.runLines (h : w.Saved name) (success : Bool) (lines : List (Instant × String)) :
    (w.runLines style success lines).workspace.Saved name := by
  induction lines generalizing w success with
  | nil => exact h
  | cons line rest ih =>
    obtain ⟨now, typed⟩ := line
    obtain ⟨outcome, w', hrun, hsaved⟩ := h.toSavable.runLine now typed
    simp only [runLines_cons, hrun]
    exact ih hsaved outcome.success

theorem Savable.saved_runLines (h : w.Savable name) (success : Bool)
    {lines : List (Instant × String)} (hne : lines ≠ []) :
    (w.runLines style success lines).workspace.Saved name := by
  cases lines with
  | nil => exact absurd rfl hne
  | cons line rest =>
    obtain ⟨now, typed⟩ := line
    obtain ⟨outcome, w', hrun, hsaved⟩ := h.runLine now typed
    simp only [runLines_cons, hrun]
    exact hsaved.runLines outcome.success rest

theorem Savable.runLines_append (h : w.Savable name) (style : Screen.Style) (success : Bool)
    (lines more : List (Instant × String)) :
    ∃ last, (w.runLines style success lines).ending = .ok last ∧
      w.runLines style success (lines ++ more) =
        let first := w.runLines style success lines
        let second := first.workspace.runLines style last more
        { second with screen := first.screen ++ second.screen } := by
  induction lines generalizing w success with
  | nil => exact ⟨success, rfl, by simp [runLines_nil]⟩
  | cons line rest ih =>
    obtain ⟨now, typed⟩ := line
    obtain ⟨outcome, w', hrun, hsaved⟩ := h.runLine now typed
    obtain ⟨last, hending, happend⟩ := ih hsaved.toSavable outcome.success
    refine ⟨last, ?_, ?_⟩
    · simpa only [runLines_cons, hrun] using hending
    · simp only [List.cons_append, runLines_cons, hrun, happend, Screen.append_assoc]

theorem runLines_success (w : Workspace) (style : Screen.Style) (before before' : Bool)
    (lines : List (Instant × String)) :
    (w.runLines style before lines).screen = (w.runLines style before' lines).screen ∧
      (w.runLines style before lines).workspace = (w.runLines style before' lines).workspace ∧
      (lines ≠ [] → (w.runLines style before lines).ending =
        (w.runLines style before' lines).ending) := by
  cases lines <;> simp [runLines_nil, runLines_cons]

/-- Saving and reopening between two lists of lines changes neither the output nor the session nor
the file. -/
theorem reopened_run (style : Screen.Style) (now later : Instant) (disk : Disk) (name : String)
    (lines more : List (Instant × String)) (hkeeps : disk.Keeps name) (hne : lines ≠ []) :
    let whole := (start now (some name) disk).runLines style true (lines ++ more)
    let first := (start now (some name) disk).runLines style true lines
    let second := (start later (some name) first.workspace.disk).runLines style true more
    whole.screen = first.screen ++ second.screen ∧ whole.workspace = second.workspace ∧
      whole.ending = if more = [] then first.ending else second.ending := by
  intro whole first second
  have hstart := savable_start hkeeps now
  obtain ⟨last, hending, happend⟩ := hstart.runLines_append style true lines more
  have hreopened : start later (some name) first.workspace.disk = first.workspace :=
    (hstart.saved_runLines true hne).start_eq later
  obtain ⟨hscreen, hworkspace, hend⟩ := runLines_success first.workspace style last true more
  simp only [whole, second, hreopened, happend]
  refine ⟨congrArg _ hscreen, hworkspace, ?_⟩
  split
  · next hnil =>
    subst hnil
    exact hending.symm
  · next hmore => exact hend hmore

theorem reopened_run_over_corrupt_file :
    let disk := Disk.ofNames [("state.json", "\x7b not json")] []
    let start := start Instant.epoch (some "state.json")
    let first := (start disk).runLines {} true [(Instant.epoch, "cd documents")]
    let second := (start first.workspace.disk).runLines {} true [(Instant.epoch, "pwd")]
    disk.Keeps "state.json" ∧ (first.screen ++ second.screen).output = "/home/user/documents\n" ∧
      second.workspace.session.history = ["cd documents", "pwd"] := by
  intro disk start first second
  have hkeeps : disk.Keeps "state.json" :=
    Disk.keeps_iff.2 ⟨.inside ["state.json"], by decide +kernel, by decide⟩
  obtain ⟨hscreen, hworkspace, -⟩ := reopened_run {} Instant.epoch Instant.epoch disk "state.json"
    [(Instant.epoch, "cd documents")] [(Instant.epoch, "pwd")] hkeeps (by simp)
  refine ⟨hkeeps, ?_, ?_⟩
  · rw [← hscreen]
    decide +kernel
  · rw [← hworkspace]
    decide +kernel

end Workspace

end PracticeShell
