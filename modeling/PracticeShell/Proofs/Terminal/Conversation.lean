import PracticeShell.Proofs.Line.Token
import PracticeShell.Proofs.Terminal.Reopening
import PracticeShell.Proofs.Text.Ends
import PracticeShell.Proofs.Text.Utf8

/-! A conversation against a list of lines. Given the same lines, a conversation does what the list
does, and shows its prompts besides. -/
namespace PracticeShell

/-! ### Line ends -/

namespace Session

/-- Running a line depends only on its tokens and on the trimmed line. -/
theorem runLine_congr {typed other : String} (htokens : Token.ofLine typed = Token.ofLine other)
    (htrim : Text.trim typed = Text.trim other) (now : Instant) :
    runLine now typed = runLine now other := by
  have hread (history : List String) :
      CommandLine.read history typed = CommandLine.read history other := by
    rw [CommandLine.read, CommandLine.read, htokens]
  simp only [runLine, hread, htrim]

theorem runLine_of_append {typed other : String} {y : List Char}
    (hy : ∀ c ∈ y, Text.isSeparator c = true) (h : typed.toList = other.toList ++ y) (now : Instant) :
    runLine now typed = runLine now other := by
  refine runLine_congr ?_ ?_ now
  · rw [Token.ofLine, h]
    exact Token.scan_between_separators (x := []) (by simp) hy
  · exact Text.trim_of_append (fun c hc => Text.isBlank_of_isSeparator (hy c hc)) h

end Session

namespace Workspace
open Text.Utf8 (encode)
variable {w : Workspace} {style : Screen.Style} {line : String}

def isLineEnd (c : Char) : Bool := c == '\n' || c == '\r'

def bare (line : String) : String := Text.trimEndWhile isLineEnd line

theorem isSeparator_of_isLineEnd {c : Char} (h : isLineEnd c = true) : Text.isSeparator c = true := by
  simp only [isLineEnd, Bool.or_eq_true, beq_iff_eq] at h
  obtain rfl | rfl := h <;> rfl

theorem bare_line : bare (line ++ "\n") = bare line := by
  have hend : ∀ c ∈ ['\n'], isLineEnd c = true := by simp [isLineEnd]
  rw [bare, Text.trimEndWhile, String.toList_append]
  exact congrArg String.ofList (Text.dropEndWhile_append hend line.toList)

theorem trim_line : Text.trim (line ++ "\n") = Text.trim line :=
  Text.trim_of_append (y := ['\n']) (fun _ hc => List.mem_singleton.1 hc ▸ rfl) String.toList_append

theorem runLine_bare (now : Instant) (line : String) (w : Workspace) :
    w.runLine now (bare line) = w.runLine now line := by
  obtain ⟨y, hy, hline⟩ := Text.exists_end isLineEnd line
  have hrun : Session.runLine now line = Session.runLine now (bare line) :=
    Session.runLine_of_append (fun c hc => isSeparator_of_isLineEnd (hy c hc)) hline now
  rw [Workspace.runLine, Workspace.runLine, Shell.runLine, Shell.runLine, hrun]

theorem lineOf?_encode (line : String) :
    (lineOf? (encode line) = if Text.trim line = exitLine then none else some (bare line)) ∧
      lineOf? (encode (line ++ "\n")) = lineOf? (encode line) := by
  have hlineOf (line : String) :
      lineOf? (encode line) = if Text.trim line = exitLine then none else some (bare line) := by
    rw [lineOf?, Text.Utf8.decode_encoded]
    rfl
  refine ⟨hlineOf line, ?_⟩
  rw [hlineOf, hlineOf, trim_line, bare_line]

theorem lineOf?_line (hline : Text.trim line ≠ exitLine) :
    lineOf? (encode (line ++ "\n")) = some (bare line) := by
  rw [(lineOf?_encode line).2, (lineOf?_encode line).1, if_neg hline]

/-! ### Lines of an input -/

theorem rawLines_append {bytes : List UInt8} (h : 10 ∉ bytes) (current rest : List UInt8) :
    rawLines current (bytes ++ rest) = rawLines (bytes.reverse ++ current) rest := by
  induction bytes generalizing current with
  | nil => rfl
  | cons b bytes ih =>
    obtain ⟨hb, hbytes⟩ := not_or.1 (mt List.mem_cons.2 h)
    rw [List.cons_append, rawLines, if_neg (Ne.symm hb), ih hbytes]
    simp

def typing (lines : List String) : List UInt8 := lines.flatMap fun line => encode (line ++ "\n")

theorem rawLines_line (hline : '\n' ∉ line.toList) (rest : List UInt8) :
    rawLines [] (encode (line ++ "\n") ++ rest) = encode (line ++ "\n") :: rawLines [] rest := by
  have hencode : encode (line ++ "\n") = encode line ++ [10] := Text.Utf8.encode_append line "\n"
  rw [hencode, List.append_assoc, rawLines_append (Text.Utf8.ten_not_mem_encode hline)]
  simp [rawLines]

theorem exists_rawLines_head (hline : '\n' ∉ line.toList) (hne : line ≠ "") {rest : List UInt8}
    (hrest : rest.head? ∈ [none, some 10]) :
    ∃ bytes more, rawLines [] (encode line ++ rest) = bytes :: more ∧
      lineOf? bytes = lineOf? (encode line) := by
  cases rest with
  | nil =>
    have hbytes : encode line ≠ [] := fun hnil => hne <| by
      rw [← Text.Utf8.decode_encoded line, hnil]
      rfl
    refine ⟨encode line, [], ?_, rfl⟩
    rw [rawLines_append (Text.Utf8.ten_not_mem_encode hline)]
    simp [rawLines, hbytes]
  | cons b rest =>
    obtain rfl : b = 10 := by simpa using hrest
    refine ⟨encode (line ++ "\n"), rawLines [] rest, ?_, (lineOf?_encode line).2⟩
    rw [← rawLines_line hline, Text.Utf8.encode_append, List.append_assoc]
    rfl

theorem rawLines_typing {lines : List String} (hlines : ∀ line ∈ lines, '\n' ∉ line.toList)
    (rest : List UInt8) :
    rawLines [] (typing lines ++ rest) =
      (lines.map fun line => encode (line ++ "\n")) ++ rawLines [] rest := by
  induction lines with
  | nil => rfl
  | cons line lines ih =>
    obtain ⟨hline, hlines⟩ := List.forall_mem_cons.1 hlines
    rw [typing, List.flatMap_cons, List.append_assoc, rawLines_line hline, List.map_cons,
      List.cons_append]
    exact congrArg _ (ih hlines)

/-! ### Lines in turn -/

structure Turn where
  prompt : String
  screen : Screen

def turns (style : Screen.Style) : List (Instant × String) → Workspace → List Turn
  | [], _ => []
  | line :: rest, w =>
    let report := w.runLines style true [line]
    ⟨w.session.prompt, report.screen⟩ :: turns style rest report.workspace

theorem runLine_without_file (hfile : w.stateFile = none) (now : Instant) (typed : String) :
    ∃ outcome w', w.runLine now typed = (.ok outcome, w') ∧ w'.stateFile = none := by
  cases hran : (Session.runLine now typed).run w.session with
  | mk outcome s' =>
    exact ⟨outcome, { w with session := s' }, runLine_of_no_file hfile hran, hfile⟩

theorem exists_ending_runLines (hfile : w.stateFile = none) (success : Bool)
    (lines : List (Instant × String)) :
    ∃ last, (w.runLines style success lines).ending = .ok last := by
  induction lines generalizing w success with
  | nil => exact ⟨success, rfl⟩
  | cons line rest ih =>
    obtain ⟨outcome, w', hrun, hfile'⟩ := runLine_without_file hfile line.1 line.2
    simp only [runLines_cons, hrun]
    exact ih hfile' outcome.success

theorem output_turns (hfile : w.stateFile = none) (success : Bool) (lines : List (Instant × String)) :
    (w.runLines style success lines).screen.output =
      String.join ((turns style lines w).map fun t => t.screen.output) := by
  induction lines generalizing w success with
  | nil => rfl
  | cons line rest ih =>
    obtain ⟨outcome, w', hrun, hfile'⟩ := runLine_without_file hfile line.1 line.2
    simp only [runLines_cons, runLines_nil, turns, hrun, List.map_cons, String.join_cons, Screen.output_append,
      ih hfile']
    simp [Screen.blank]

theorem converse_append (hfile : w.stateFile = none) (success : Bool) {lines : List (Instant × String)}
    (hlines : ∀ line ∈ lines, Text.trim line.2 ≠ exitLine) (more : List (Instant × List UInt8)) :
    w.converse style ((lines.map fun line => (line.1, encode (line.2 ++ "\n"))) ++ more) =
      let batch := w.runLines style success lines
      let rest := batch.workspace.converse style more
      let shown := (turns style lines w).map fun t =>
        (if style.json then "" else t.prompt) ++ t.screen.output
      { rest with screen := ⟨String.join shown, batch.screen.errors⟩ ++ rest.screen } := by
  induction lines generalizing w success with
  | nil =>
    have hnone (screen : Screen) : ⟨"", ""⟩ ++ screen = screen := screen.blank_append
    simp [runLines_nil, turns, Screen.blank, hnone]
  | cons line rest ih =>
    obtain ⟨hline, hlines⟩ := List.forall_mem_cons.1 hlines
    obtain ⟨outcome, w', hrun, hfile'⟩ := runLine_without_file hfile line.1 line.2
    simp only [List.map_cons, List.cons_append, converse_cons, lineOf?_line hline, runLine_bare, hrun,
      runLines_cons, runLines_nil, turns, ih hfile' outcome.success hlines]
    congr 1
    ext1 <;> simp [promptScreen, Screen.blank, String.append_assoc]

/-- The conversation ends as the list of lines does, and shows the same with a prompt before each
line and one at the end, followed by `last`. -/
structure Follows (style : Screen.Style) (talk batch : Report) (turns : List Turn) (last : String) :
    Prop where
  ending : talk.ending = .ok true
  workspace : talk.workspace = batch.workspace
  errors : talk.screen.errors = batch.screen.errors
  json : style.json = true → talk.screen.output = batch.screen.output
  plain : style.json = false → talk.screen.output =
    String.join (turns.map fun t => t.prompt ++ t.screen.output) ++
      (batch.workspace.session.prompt ++ last)

theorem follows_converse (hfile : w.stateFile = none) {lines : List (Instant × String)}
    (hlines : ∀ line ∈ lines, Text.trim line.2 ≠ exitLine) {more : List (Instant × List UInt8)}
    {last : String} (hmore : ∀ w : Workspace, w.converse style more =
      ⟨promptScreen style w.session ++ ⟨if style.json then "" else last, ""⟩, w, .ok true⟩) :
    Follows style
      (w.converse style ((lines.map fun line => (line.1, encode (line.2 ++ "\n"))) ++ more))
      (w.runLines style true lines) (turns style lines w) last := by
  simp only [converse_append hfile true hlines, hmore]
  constructor
  case ending => rfl
  case workspace => rfl
  case errors => simp [promptScreen]
  case json =>
    intro hjson
    simp [promptScreen, hjson, output_turns hfile]
  case plain =>
    intro hplain
    simp [promptScreen, hplain]

/-! ### What is typed, all of it -/

def timed {α : Type} (clock : Nat → Instant) (xs : List α) : List (Instant × α) :=
  xs.mapIdx fun i x => (clock i, x)

theorem timed_append {α : Type} (clock : Nat → Instant) (xs ys : List α) :
    timed clock (xs ++ ys) = timed clock xs ++ timed (fun i => clock (i + xs.length)) ys :=
  List.mapIdx_append

theorem timed_map {α β : Type} (clock : Nat → Instant) (f : α → β) (xs : List α) :
    timed clock (xs.map f) = (timed clock xs).map fun x => (x.1, f x.2) := by
  apply List.ext_getElem <;> simp [timed]

theorem mem_timed {α : Type} {clock : Nat → Instant} {xs : List α} {x : Instant × α}
    (h : x ∈ timed clock xs) : x.2 ∈ xs := by
  obtain ⟨i, hi, rfl⟩ := List.mem_mapIdx.1 h
  exact List.getElem_mem hi

def talk (style : Screen.Style) (clock : Nat → Instant) (input : List UInt8) (w : Workspace) : Report :=
  w.converse style (timed clock (rawLines [] input))

theorem talk_exit {exit : String} (hexit : '\n' ∉ exit.toList) (htrim : Text.trim exit = exitLine)
    {rest : List UInt8} (hrest : rest.head? ∈ [none, some 10]) (clock : Nat → Instant)
    (w : Workspace) :
    w.talk style clock (encode exit ++ rest) = ⟨promptScreen style w.session, w, .ok true⟩ := by
  have hne : exit ≠ "" := by
    rintro rfl
    exact absurd htrim (by decide)
  obtain ⟨bytes, more, hraw, hline⟩ := exists_rawLines_head hexit hne hrest
  have hstop : lineOf? bytes = none := by rw [hline, (lineOf?_encode exit).1, if_pos htrim]
  rw [talk, hraw, timed, List.mapIdx_cons, converse_cons]
  simp only [hstop]

/-- Typing lines does the same as giving them as a list, whether the input then ends or an exit line
follows. -/
theorem talk_follows_runLines (w : Workspace) (hfile : w.stateFile = none) (style : Screen.Style)
    (clock : Nat → Instant) (lines : List String)
    (hlines : ∀ line ∈ lines, '\n' ∉ line.toList ∧ Text.trim line ≠ exitLine) :
    let batch := w.runLines style true (timed clock lines)
    let turns := turns style (timed clock lines) w
    (∃ last, batch.ending = .ok last) ∧
      batch.screen.output = String.join (turns.map fun t => t.screen.output) ∧
      Follows style (w.talk style clock (typing lines)) batch turns "\n" ∧
      ∀ exit rest, '\n' ∉ exit.toList → Text.trim exit = exitLine →
        rest.head? ∈ [none, some 10] →
        Follows style (w.talk style clock (typing lines ++ (encode exit ++ rest))) batch turns "" := by
  intro batch turns
  have hends : ∀ line ∈ lines, '\n' ∉ line.toList := fun line hline => (hlines line hline).1
  have hstays : ∀ line ∈ timed clock lines, Text.trim line.2 ≠ exitLine :=
    fun line hline => (hlines line.2 (mem_timed hline)).2
  have htalk (more : List UInt8) : w.talk style clock (typing lines ++ more) =
      w.converse style (((timed clock lines).map fun line => (line.1, encode (line.2 ++ "\n"))) ++
        timed (fun i => clock (i + lines.length)) (rawLines [] more)) := by
    rw [talk, rawLines_typing hends, timed_append, timed_map, List.length_map]
  refine ⟨exists_ending_runLines hfile true _, output_turns hfile true _, ?ended, ?exited⟩
  case ended =>
    have hinput := htalk []
    rw [List.append_nil] at hinput
    rw [hinput]
    exact follows_converse hfile hstays fun w => converse_nil style w
  case exited =>
    intro exit rest hexit htrim hrest
    rw [htalk]
    -- The prompt that the exit answers is the last one, and no line end follows it.
    refine follows_converse hfile hstays fun w => (talk_exit hexit htrim hrest _ w).trans ?_
    congr 1
    ext1 <;> simp

theorem talk_follows_runLines_to_exit :
    let w := start Instant.epoch none (Disk.ofNames [] [])
    let lines := timed (fun _ => Instant.epoch) ["cd documents\r", " ", "cat nothing"]
    let batch := w.runLines {} true lines
    let input := typing ["cd documents\r", " ", "cat nothing"] ++
      (encode " exit\r" ++ 10 :: encode "rm -r /home")
    Follows {} (w.talk {} (fun _ => Instant.epoch) input) batch (turns {} lines w) "" ∧
      batch.screen.output = "cat: nothing: No such file or directory\n" ∧
      (turns {} lines w).map Turn.prompt =
        ["user@termlab:~$ ", "user@termlab:~/documents$ ", "user@termlab:~/documents$ "] := by
  intro w lines batch input
  obtain ⟨-, -, -, hexited⟩ := talk_follows_runLines w rfl {} (fun _ => Instant.epoch)
    ["cd documents\r", " ", "cat nothing"] (by decide +kernel)
  have hfollows := hexited " exit\r" (10 :: encode "rm -r /home") (by decide +kernel)
    (by decide +kernel) (.tail _ (.head _))
  exact ⟨hfollows, by decide +kernel, by decide +kernel⟩

end Workspace

end PracticeShell
