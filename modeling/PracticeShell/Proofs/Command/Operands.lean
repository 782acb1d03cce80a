import PracticeShell.Proofs.Command.Fault
import PracticeShell.Proofs.Command.Removal

/-! Several operands of one command against one command for each of them. Directories made, files
touched and sources copied into a directory end in the same session either way, with the same
errors. -/
namespace PracticeShell

/-! ### Outcomes put together -/

namespace Outcome
variable {e : Diagnostic} {errors : List Diagnostic} {answers : List (Option Diagnostic)}

def text (o : Outcome) : String :=
  match o.display with
  | .print text => text
  | .clearScreen => ""

theorem success_ofFailures_iff : (ofFailures "" errors).success = true ↔ errors = [] := by
  cases errors <;> simp [ofFailures, output, failure]

theorem text_ofFailures (h : errors ≠ []) :
    (ofFailures "" errors).text = "\n".intercalate (errors.map Diagnostic.message) := by
  cases errors with
  | nil => exact absurd rfl h
  | cons e rest => rfl

theorem hint_ofFailures (h : errors ≠ []) :
    (ofFailures "" errors).hint = errors.head?.bind Diagnostic.hint? := by
  cases errors with
  | nil => exact absurd rfl h
  | cons e rest => rfl

theorem failed_answers (answers : List (Option Diagnostic)) :
    (answers.map fun answer => ofFailures "" answer.toList).filter (fun o => !o.success) =
      (answers.flatMap Option.toList).map ofError := by
  induction answers with
  | nil => rfl
  | cons answer rest ih =>
    rw [List.map_cons, List.flatMap_cons, List.map_append, ← ih]
    cases answer with
    | none => rfl
    | some e => rw [Option.toList_some, ofFailures_one]; rfl

end Outcome

namespace Command
variable {now : Instant} {s : Session} {act : String → StateM Session (Option Diagnostic)}

/-- A command of several operands and the commands of one operand each. The destination of a copy or
move is an existing directory. -/
inductive Severs (s : Session) : Command → List Command → Prop
  | mkdir (paths : List String) (parents : Bool) :
    Severs s (.mkdir paths parents) (paths.map fun path => .mkdir [path] parents)
  | touch (paths : List String) : Severs s (.touch paths) (paths.map fun path => .touch [path])
  | cp (sources : List String) (destination : String)
      (h : s.isDirectory (s.resolve destination) = true) :
    Severs s (.cp sources destination) (sources.map fun source => .cp [source] destination)

theorem run_failures_cons (typed : String) (rest : List String) (s : Session) :
    (failures act (typed :: rest)).run s =
      (((act typed).run s).1.toList ++ ((failures act rest).run ((act typed).run s).2).1,
        ((failures act rest).run ((act typed).run s).2).2) := rfl

theorem run_runEach (operands : List String) (s : Session) : (runEach operands act).run s =
    (.ofFailures "" ((failures act operands).run s).1, ((failures act operands).run s).2) := rfl

theorem run_runEach_one (typed : String) (s : Session) : (runEach [typed] act).run s =
    (.ofFailures "" ((act typed).run s).1.toList, ((act typed).run s).2) := by
  rw [run_runEach, run_failures_cons]
  exact congrArg (fun errors => (Outcome.ofFailures "" errors, ((act typed).run s).2))
    (List.append_nil _)

/-- `c` reports the errors of the commands `cs` run in turn, and leaves the same session. -/
def ComesTo (now : Instant) (s : Session) (c : Command) (cs : List Command) : Prop :=
  ∃ answers : List (Option Diagnostic),
    (c.run now).run s =
      (.ofFailures "" (answers.flatMap Option.toList), ((cs.mapM (run now)).run s).2) ∧
    ((cs.mapM (run now)).run s).1 = answers.map fun answer => .ofFailures "" answer.toList

theorem exists_answers {I : Session → Prop} {one : String → Command}
    (hone : ∀ s typed, I s → ((one typed).run now).run s = (runEach [typed] act).run s)
    (hkeeps : ∀ typed, Keeps I (act typed)) (operands : List String) (hs : I s) :
    ∃ answers : List (Option Diagnostic),
      (failures act operands).run s =
        (answers.flatMap Option.toList, (((operands.map one).mapM (run now)).run s).2) ∧
      (((operands.map one).mapM (run now)).run s).1 =
        answers.map fun answer => .ofFailures "" answer.toList := by
  induction operands generalizing s with
  | nil => exact ⟨[], rfl, rfl⟩
  | cons typed rest ih =>
    have hfirst := (hone s typed hs).trans (run_runEach_one typed s)
    obtain ⟨answers, hfailures, houtcomes⟩ := ih (hkeeps typed s hs)
    refine ⟨((act typed).run s).1 :: answers, ?_, ?_⟩
    · rw [List.map_cons, Session.run_mapM_cons, hfirst, run_failures_cons, hfailures]
      rfl
    · rw [List.map_cons, Session.run_mapM_cons, hfirst, houtcomes]
      rfl

theorem comesTo_of_each {I : Session → Prop} {one : String → Command} {c : Command}
    {operands : List String} (hc : (c.run now).run s = (runEach operands act).run s)
    (hone : ∀ s typed, I s → ((one typed).run now).run s = (runEach [typed] act).run s)
    (hkeeps : ∀ typed, Keeps I (act typed)) (hs : I s) : ComesTo now s c (operands.map one) := by
  obtain ⟨answers, hfailures, houtcomes⟩ := exists_answers hone hkeeps operands hs
  refine ⟨answers, ?_, houtcomes⟩
  rw [hc, run_runEach, hfailures]

theorem cursor_copy (now : Instant) (source destination : Path) (s : Session) :
    ((Edit.copy now source destination).result s).2.cursor = s.cursor := by
  obtain ⟨t, above, name, -, -, -, -, hr⟩ | ⟨x, hr⟩ := Edit.copy_cases now source destination s <;>
    rw [hr]
  rfl

theorem run_copyOrMove_into (name : String) (edit : Path → Path → Edit Path) (sources : List String)
    {destination : String} (h : s.isDirectory (s.resolve destination) = true) :
    (copyOrMove name edit sources destination).run s =
      (runEach sources (transfer name edit (s.resolve destination) destination)).run s := by
  have hnone : destinationError? s (s.resolve destination) = none :=
    destinationError?_eq_none_iff.2 (Session.isDirectory_iff.1 h)
  simp only [copyOrMove, StateT.run_bind, StateT.run_get, pure_bind, hnone, ite_self]

theorem Severs.comesTo {c : Command} {cs : List Command} (h : Severs s c cs) (now : Instant) :
    ComesTo now s c cs := by
  cases h with
  | mkdir paths parents =>
    exact comesTo_of_each (I := fun _ => True) rfl (fun _ _ _ => rfl) (fun _ _ _ => trivial) trivial
  | touch paths =>
    exact comesTo_of_each (I := fun _ => True) rfl (fun _ _ _ => rfl) (fun _ _ _ => trivial) trivial
  | cp sources destination hdirectory =>
    -- No copy moves the cursor, so the destination is read as the same path each time.
    refine comesTo_of_each (I := fun s' => s'.cursor = s.cursor)
      (run_copyOrMove_into "cp" (Edit.copy now) sources hdirectory) ?_ ?_ rfl
    · intro s' typed hcursor
      rw [← Session.resolve_congr hcursor destination]
      rfl
    · intro typed s' hcursor
      rw [session_transfer, cursor_copy, hcursor]

/-- A command of several operands leaves the session that its single commands leave in turn. It
succeeds if all of them do; otherwise it shows the texts of those that fail and the first hint. -/
theorem several_operands_in_turn {c : Command} {cs : List Command} (h : Severs s c cs)
    (now : Instant) :
    let whole := (c.run now).run s
    let parts := (cs.mapM (run now)).run s
    let failed := parts.1.filter fun o => !o.success
    whole.2 = parts.2 ∧
      (whole.1.success = true ↔ ∀ o ∈ parts.1, o.success = true) ∧
      (whole.1.success = false →
        whole.1.text = "\n".intercalate (failed.map Outcome.text) ∧
          whole.1.hint = failed.head?.bind Outcome.hint) := by
  intro whole parts failed
  obtain ⟨answers, hwhole, hparts⟩ := h.comesTo now
  have hfailed : failed = (answers.flatMap Option.toList).map Outcome.ofError := by
    rw [← Outcome.failed_answers, ← hparts]
  have houtcome : whole.1 = .ofFailures "" (answers.flatMap Option.toList) :=
    congrArg Prod.fst hwhole
  have hsuccess : whole.1.success = true ↔ answers.flatMap Option.toList = [] := by
    rw [houtcome, Outcome.success_ofFailures_iff]
  refine ⟨congrArg Prod.snd hwhole, ?_, fun hfault => ?_⟩
  · have hall : (∀ o ∈ parts.1, o.success = true) ↔ failed = [] := by simp [failed]
    rw [hsuccess, hall, hfailed, List.map_eq_nil_iff]
  · have herrors : answers.flatMap Option.toList ≠ [] := by
      rw [Ne, ← hsuccess, hfault]
      exact Bool.false_ne_true
    rw [houtcome, hfailed, Outcome.text_ofFailures herrors, Outcome.hint_ofFailures herrors,
      List.map_map, List.head?_map, Option.bind_map]
    exact ⟨rfl, rfl⟩

theorem several_operands_in_turn_copied :
    let s := Session.seeded Instant.epoch
    let whole := ((Command.cp ["documents", "ghost", "projects/documents", "welcome.txt"]
      "projects").run Instant.epoch).run s
    let parts := (([.cp ["documents"] "projects", .cp ["ghost"] "projects",
      .cp ["projects/documents"] "projects", .cp ["welcome.txt"] "projects"] : List Command).mapM
        (run Instant.epoch)).run s
    s.isDirectory (s.resolve "projects") = true ∧ whole.2 = parts.2 ∧
      parts.1.map Outcome.success = [true, false, false, true] ∧
      whole.1.text = "\n".intercalate ((parts.1.drop 1).take 2 |>.map Outcome.text) := by
  intro s whole parts
  have hdirectory : s.isDirectory (s.resolve "projects") = true := by decide +kernel
  obtain ⟨hsession, -, hfailure⟩ := several_operands_in_turn
    (.cp ["documents", "ghost", "projects/documents", "welcome.txt"] "projects" hdirectory)
    Instant.epoch
  obtain ⟨htext, -⟩ := hfailure (by decide +kernel)
  exact ⟨hdirectory, hsession, by decide +kernel, htext.trans (by decide +kernel)⟩

end Command

end PracticeShell
