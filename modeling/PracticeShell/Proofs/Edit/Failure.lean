import PracticeShell.Proofs.Edit.Operation

/-! An operation that fails changes nothing: not the tree, nor the cursor, nor the history. Making
directories on the way down and putting a node in the place of another change the tree in several
steps, none of which can fail after the first has been taken. -/
namespace PracticeShell.Edit

section outcome
variable {α : Type} {e : Edit α} {a : α} {s s' s₁ : Session} {x : FileError}

theorem eq_of_ok (h : e.result s = (.ok a, s₁)) (hx : e.result s = (.error x, s')) : s' = s := by
  rw [h] at hx
  simp at hx

theorem eq_of_error (h : ∃ y, e.result s = (.error y, s)) (hx : e.result s = (.error x, s')) :
    s' = s := by
  obtain ⟨y, h⟩ := h
  rw [h] at hx
  exact (Prod.mk.inj hx).2.symm

end outcome

theorem failure_changes_nothing (now : Instant) (s s' : Session) (x : FileError) :
    (∀ p, (enter p).result s = (.error x, s') → s' = s) ∧
    (∀ p parents, (createDirectory now p parents).result s = (.error x, s') → s' = s) ∧
    (∀ p, (touch now p).result s = (.error x, s') → s' = s) ∧
    (∀ p text mode, (write now p text mode).result s = (.error x, s') → s' = s) ∧
    (∀ p recursive, (remove now p recursive).result s = (.error x, s') → s' = s) ∧
    (∀ source destination, (copy now source destination).result s = (.error x, s') → s' = s) ∧
    (∀ source destination, (move now source destination).result s = (.error x, s') → s' = s) := by
  refine ⟨?enter, ?createDirectory, ?touch, ?write, ?remove, ?copy, ?move⟩
  case enter =>
    intro p
    obtain ⟨-, hr⟩ | hr := enter_cases p s
    · exact eq_of_ok hr
    · exact eq_of_error hr
  case createDirectory =>
    intro p parents
    obtain ⟨above, name, rest, -, -, -, -, -, hr⟩ | hr := createDirectory_cases now p parents s
    · exact eq_of_ok hr
    · exact eq_of_error hr
  case touch =>
    intro p
    obtain ⟨-, hr⟩ | ⟨above, name, -, -, -, hr⟩ | hr := touch_cases now p s
    · exact eq_of_ok hr
    · exact eq_of_ok hr
    · exact eq_of_error hr
  case write =>
    intro p text mode
    obtain ⟨-, hr⟩ | ⟨above, name, -, -, -, hr⟩ | hr := write_cases now p text mode s
    · exact eq_of_ok hr
    · exact eq_of_ok hr
    · exact eq_of_error hr
  case remove =>
    intro p recursive
    obtain ⟨above, name, -, -, hr⟩ | hr := remove_cases now p recursive s
    · exact eq_of_ok hr
    · exact eq_of_error hr
  case copy =>
    intro source destination
    obtain ⟨t, above, name, -, -, -, -, hr⟩ | hr := copy_cases now source destination s
    · exact eq_of_ok hr
    · exact eq_of_error hr
  case move =>
    intro source destination
    obtain ⟨t, home, own, above, name, -, -, -, -, -, -, hr⟩ | hr :=
      move_cases now source destination s
    · exact eq_of_ok hr
    · exact eq_of_error hr

theorem createDirectory_below_file :
    let s := Session.seeded Instant.epoch
    (createDirectory Instant.epoch ["home", "user", "welcome.txt", "old", "notes"] true).result s =
      (.error (.notADirectory ["home", "user", "welcome.txt"]), s) := by
  intro s
  have hx : ((createDirectory Instant.epoch ["home", "user", "welcome.txt", "old", "notes"]
      true).result s).1 = .error (.notADirectory ["home", "user", "welcome.txt"]) := by
    decide
  have hs := (failure_changes_nothing Instant.epoch s _ _).2.1 _ true (Prod.ext hx rfl)
  exact Prod.ext hx hs

end PracticeShell.Edit
