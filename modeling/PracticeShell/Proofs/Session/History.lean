import PracticeShell.Proofs.Command.Invariant
import PracticeShell.Proofs.Edit.Operation
import PracticeShell.Proofs.Session.Request

/-! The history of a session. A line that is run adds one entry, and commands add or remove none. A
line that consists of redirections only is not run. -/
namespace PracticeShell

namespace Session
variable {s : Session} {now : Instant} {typed : String}

/-- The entry of a line: the line trimmed, or its canonical text if it was expanded. -/
def recorded (s : Session) (typed : String) : String :=
  let line := CommandLine.read s.history typed
  if line.expanded then line.text else Text.trim typed

theorem history_withDirectories (now : Instant) (above : Path) (names : List String) (s : Session) :
    (s.withDirectories now above names).history = s.history := by
  induction names generalizing above s with
  | nil => rfl
  | cons name rest ih =>
    rw [withDirectories, ih]
    rfl

theorem history_keptByEdits (now : Instant) (history : List String) :
    KeptByEdits now (fun _ => True) fun s => s.history = history where
  resolve := fun _ _ _ => trivial
  enter := by
    intro s p _ h
    obtain ⟨-, hr⟩ | ⟨x, hr⟩ := Edit.enter_cases p s <;> simpa [hr] using h
  createDirectory := by
    intro s p parents _ h
    obtain ⟨above, name, rest, -, -, -, -, -, hr⟩ | ⟨x, hr⟩ :=
      Edit.createDirectory_cases now p parents s
    · simpa [hr, history_withDirectories] using h
    · simpa [hr] using h
  touch := by
    intro s p _ h
    obtain ⟨-, hr⟩ | ⟨above, name, -, -, -, hr⟩ | ⟨x, hr⟩ := Edit.touch_cases now p s <;>
      simpa [hr, withEntry] using h
  write := by
    intro s p text mode _ h
    obtain ⟨-, hr⟩ | ⟨above, name, -, -, -, hr⟩ | ⟨x, hr⟩ := Edit.write_cases now p text mode s <;>
      simpa [hr, withEntry] using h
  remove := by
    intro s p recursive _ h
    obtain ⟨above, name, -, -, hr⟩ | ⟨x, hr⟩ := Edit.remove_cases now p recursive s <;>
      simpa [hr, withoutEntry] using h
  copy := by
    intro s p q _ _ h
    obtain ⟨t, above, name, -, -, -, -, hr⟩ | ⟨x, hr⟩ := Edit.copy_cases now p q s <;>
      simpa [hr, withEntry] using h
  move := by
    intro s p q _ _ h
    obtain ⟨t, home, own, above, name, -, -, -, -, -, -, hr⟩ | ⟨x, hr⟩ :=
      Edit.move_cases now p q s <;> simpa [hr, withEntry, withoutEntry] using h

theorem history_run (now : Instant) (c : Command) (s : Session) :
    ((c.run now).run s).2.history = s.history :=
  Command.keeps_run (history_keptByEdits now s.history) c s rfl

theorem history_answer (now : Instant) (r : Request) (s : Session) :
    ((r.answer now).run s).2.history = s.history ++ r.newLine?.toList := by
  cases r with
  | nothing => exact (List.append_nil _).symm
  | refused entry cause => rfl
  | command entry c => exact history_run now c (s.record entry)

theorem history_runLine (hfault : (CommandLine.read s.history typed).fault = none)
    (hname : (CommandLine.read s.history typed).name ≠ "") :
    ((runLine now typed).run s).2.history = s.history ++ [s.recorded typed] := by
  have hempty : (CommandLine.read s.history typed).isEmpty = false := by
    simp [CommandLine.isEmpty, hname]
  have hentry : (Request.ofLine s.history typed).newLine? = some (s.recorded typed) := by
    simp only [Request.ofLine, hfault, hempty, Bool.false_eq_true, if_false]
    split <;> rfl
  rw [run_runLine, history_answer, hentry]
  rfl

/-! ### Lines that are not recorded -/

/-- The line consists of complete redirections only. -/
def NamesNothing (history : List String) (typed : String) : Prop :=
  ∃ rs : List Redirect,
    Token.expand history (Token.ofLine typed) = .ok (rs.flatMap Token.ofRedirect)

theorem request_eq_nothing_iff {history : List String} :
    Request.ofLine history typed = .nothing ↔ NamesNothing history typed :=
  Request.ofLine_eq_nothing_iff.trans CommandLine.isEmpty_read_iff

theorem namesNothing_of_separators (history : List String)
    (h : ∀ c ∈ typed.toList, Text.isSeparator c = true) : NamesNothing history typed := by
  refine ⟨[], ?_⟩
  rw [Token.ofLine, Token.scan_separators h]
  rfl

theorem not_namesNothing_of_plain (history : List String) (hmark : '>' ∉ typed.toList)
    (hmark' : '!' ∉ typed.toList) (h : ∃ c ∈ typed.toList, Text.isSeparator c = false) :
    ¬ NamesNothing history typed := by
  rintro ⟨rs, hrs⟩
  obtain ⟨ws, hws⟩ := Token.exists_words_of_plain hmark hmark'
  have href : ∀ t ∈ ws.map Token.word, t.isReference = false := by simp [Token.isReference]
  rw [Token.ofLine, hws, Token.expand, Token.expandFrom_of_no_reference href] at hrs
  obtain rfl : ws = [] := by
    have hwords := (CommandLine.sortOut_redirects rs).1
    rwa [← Except.ok.inj hrs, CommandLine.sortOut_words] at hwords
  have hletters : Token.letters typed.toList = 0 := by
    rw [← Token.wordLengths_scan (hws ▸ href), hws]
    rfl
  obtain ⟨c, hc, hsep⟩ := h
  have hends : Token.endsWord c = true := by simpa using List.countP_eq_zero.1 hletters c hc
  have hne : c ≠ '>' := fun he => hmark (he ▸ hc)
  simp [Token.endsWord, hsep, hne] at hends

/-- A line is recorded, once, exactly if it does not consist of redirections only. If it does,
nothing happens. -/
theorem recorded_iff_names (now : Instant) (s : Session) (typed : String) :
    let ran := (runLine now typed).run s
    ((∃ entry, ran.2.history = s.history ++ [entry]) ↔ ¬ NamesNothing s.history typed) ∧
      (NamesNothing s.history typed → ran = (.empty, s)) ∧
      ((∀ c ∈ typed.toList, Text.isSeparator c = true) → NamesNothing s.history typed) ∧
      ('>' ∉ typed.toList → '!' ∉ typed.toList →
        (∃ c ∈ typed.toList, Text.isSeparator c = false) → ¬ NamesNothing s.history typed) := by
  intro ran
  have hnothing (h : NamesNothing s.history typed) : ran = (.empty, s) := by
    have hran : ran = _ := run_runLine now typed s
    rw [hran, request_eq_nothing_iff.2 h]
    rfl
  refine ⟨⟨?_, fun h => ?_⟩, hnothing, namesNothing_of_separators _, not_namesNothing_of_plain _⟩
  · rintro ⟨entry, hentry⟩ h
    simp [hnothing h] at hentry
  · have hhistory : ran.2.history = s.history ++ (Request.ofLine s.history typed).newLine?.toList := by
      rw [← history_answer now, ← run_runLine]
    cases hr : Request.ofLine s.history typed with
    | nothing => exact absurd (request_eq_nothing_iff.1 hr) h
    | refused entry cause => exact ⟨entry, by simpa [hr, Request.newLine?] using hhistory⟩
    | command entry c => exact ⟨entry, by simpa [hr, Request.newLine?] using hhistory⟩

/-- A vertical tab is a word, but trimming takes it off. -/
theorem recorded_vertical_tab :
    let ran := (runLine Instant.epoch "\x0b").run (seeded Instant.epoch)
    ∃ entry, ran.2.history = (seeded Instant.epoch).history ++ [entry] := by
  obtain ⟨hrecorded, -, -, hplain⟩ := recorded_iff_names Instant.epoch (seeded Instant.epoch) "\x0b"
  exact hrecorded.2 (hplain (by decide) (by decide) ⟨'\x0b', by simp, rfl⟩)

/-- A redirection alone is not blank, but it is not recorded. -/
theorem redirection_unrecorded :
    let ran := (runLine Instant.epoch "> draft").run (seeded Instant.epoch)
    (∃ c ∈ "> draft".toList, Text.isSeparator c = false) ∧
      ¬ ∃ entry, ran.2.history = (seeded Instant.epoch).history ++ [entry] := by
  intro ran
  refine ⟨⟨'>', by simp, rfl⟩, ?_⟩
  rintro ⟨entry, hentry⟩
  have hhistory : ran.2.history = [] := by decide +kernel
  simp [hhistory] at hentry

end Session

end PracticeShell
