import PracticeShell.Proofs.Command.Invariant
import PracticeShell.Proofs.Edit.Operation
import PracticeShell.Proofs.Path.Resolution

/-! The cursor of a session and the directories that it is sent to, one behind the other. -/
namespace PracticeShell

namespace Session
variable {s : Session} {now : Instant} {typed : String}

theorem run_cd (now : Instant) (typed : String) (s : Session) :
    ((Command.cd (some typed)).run now).run s =
      match (Edit.enter (s.resolve typed)).result s with
      | (.ok _, s') => (.empty, s')
      | (.error x, s') => (.ofFailures "" [.file "cd" typed x], s') := by
  have hrun : ((Command.cd (some typed)).run now).run s =
      let (failure, s') := (Command.attempt "cd" typed (Edit.enter (s.resolve typed))).run s
      (.ofFailures "" (failure.toList ++ []), s') := rfl
  rw [hrun, Command.run_attempt]
  obtain ⟨_ | _, _⟩ := (Edit.enter (s.resolve typed)).result s <;> rfl

theorem entered_of_cd (h : (((Command.cd (some typed)).run now).run s).1.success = true) :
    s.isDirectory (s.resolve typed) = true ∧
      (((Command.cd (some typed)).run now).run s).2 = { s with cursor := s.resolve typed } := by
  rw [run_cd] at h ⊢
  cases Edit.enter_cases (s.resolve typed) s with
  | inl hentered => exact ⟨isDirectory_iff.2 hentered.1, by rw [hentered.2]⟩
  | inr hfailed =>
    obtain ⟨x, hx⟩ := hfailed
    rw [hx] at h
    exact absurd h Bool.false_ne_true

/-- A relative path after another and a slash resolves from where the other leads, and one `cd`
there goes where two would. -/
theorem cd_joined (first : String) {next : String} (hnext : Path.IsRelative next) :
    (∀ cursor : Path, cursor.resolve (first ++ "/" ++ next) = (cursor.resolve first).resolve next) ∧
      ∀ (now later : Instant) (s : Session),
        let entered := ((Command.cd (some first)).run now).run s
        let ended := ((Command.cd (some next)).run later).run entered.2
        entered.1.success = true → ended.1.success = true →
          (Edit.enter (s.resolve (first ++ "/" ++ next))).result s = (.ok (), ended.2) := by
  have hread (cursor : Path) : cursor.resolve (first ++ "/" ++ next) =
      (cursor.resolve first).resolve next := Path.resolve_join cursor first hnext
  refine ⟨hread, ?_⟩
  intro now later s entered ended hentered hended
  have hfirst : entered.2 = { s with cursor := s.resolve first } := (entered_of_cd hentered).2
  obtain ⟨hdirectory, hlast⟩ := entered_of_cd hended
  have hpath : entered.2.resolve next = s.resolve (first ++ "/" ++ next) := by
    rw [hfirst]
    exact (hread s.cursor).symm
  have hthere : s.isDirectory (s.resolve (first ++ "/" ++ next)) = true := by
    rwa [hpath, hfirst] at hdirectory
  have hended : ended.2 = { s with cursor := s.resolve (first ++ "/" ++ next) } := by
    have hcursor : ended.2 = { entered.2 with cursor := entered.2.resolve next } := hlast
    rw [hcursor, hpath, hfirst]
  rw [hended]
  exact Edit.result_enter hthere

theorem cd_joined_up_and_from_root :
    let s := seeded Instant.epoch
    let there := { s with cursor := Path.home.child "documents" }
    Path.IsRelative "../documents" ∧ Path.IsRelative "home/./user//documents/" ∧
      (Edit.enter (s.resolve ("projects" ++ "/" ++ "../documents"))).result s = (.ok (), there) ∧
      (Edit.enter (s.resolve ("" ++ "/" ++ "home/./user//documents/"))).result s =
        (.ok (), there) := by
  intro s there
  have hup : Path.IsRelative "../documents" := by decide
  have hroot : Path.IsRelative "home/./user//documents/" := by decide
  refine ⟨hup, hroot, ?_, ?_⟩
  · rw [(cd_joined "projects" hup).2 Instant.epoch Instant.epoch s (by decide +kernel)
      (by decide +kernel)]
    decide +kernel
  · rw [(cd_joined "" hroot).2 Instant.epoch Instant.epoch s (by decide +kernel)
      (by decide +kernel)]
    decide +kernel

end Session

end PracticeShell
