import PracticeShell.Proofs.Command.Concatenation
import PracticeShell.Proofs.Command.Fault
import PracticeShell.Proofs.Command.Flags
import PracticeShell.Proofs.Command.Timeless
import PracticeShell.Proofs.Line.Grammar
import PracticeShell.Proofs.Session.Cursor
import PracticeShell.Proofs.Session.Request

/-! What a session is asked without a command, and what commands show of the same. `cat`, `cd` and
`ls` look a path up as the queries do. -/
namespace PracticeShell

/-! ### Queries -/

namespace Session
variable {s : Session} {typed text : String} {names : List String}

theorem isSome_names?_iff :
    (s.names? typed).isSome = true ↔ s.isDirectory (s.resolve typed) = true := by
  rw [names?, isDirectory]
  cases s.get? (s.resolve typed) with
  | none => simp
  | some t => cases h : t.node <;> simp [Tree.isDirectory, h, Node.isDirectory, Node.entries?]

theorem query_cases (s : Session) (typed : String) :
    (∃ text, s.read? typed = some text ∧ s.names? typed = none ∧ s.contains typed = true) ∨
      (∃ names, s.read? typed = none ∧ s.names? typed = some names ∧ s.contains typed = true) ∨
      s.read? typed = none ∧ s.names? typed = none ∧ s.contains typed = false := by
  rw [read?, names?, contains]
  cases s.get? (s.resolve typed) with
  | none => exact .inr (.inr ⟨rfl, rfl, rfl⟩)
  | some t =>
    cases h : t.node with
    | file text stamps =>
      exact .inl ⟨text, by simp [h, Node.content?], by simp [h, Node.entries?], rfl⟩
    | directory entries stamps =>
      exact .inr (.inl ⟨entries.map Prod.fst, by simp [h, Node.content?],
        by simp [h, Node.entries?], rfl⟩)

end Session

/-! ### The commands for one operand -/

namespace Command
variable {s : Session} {typed text : String} {names : List String}

theorem cat_agrees (now : Instant) (s : Session) (typed : String) :
    let answer := (((Command.cat [typed]).run now).run s).1
    (answer.success = true ↔ (s.read? typed).isSome = true) ∧
      ∀ text, s.read? typed = some text → answer = .output text := by
  intro answer
  have hanswer : answer = concatenate s [typed] := congrArg Prod.fst (run_cat now [typed] s)
  cases hread : s.read? typed with
  | none =>
    obtain ⟨cause, -, hcontents⟩ := contents_of_unreadable hread
    rw [hanswer, concatenate, hcontents]
    simp [Outcome.ofError, Outcome.failure]
  | some text =>
    have hcontents : contents s [typed] = .ok [text] := contents_of_read? hread []
    rw [hanswer, concatenate, hcontents]
    simp [appendContent, Outcome.output]

theorem cd_agrees (now : Instant) (s : Session) (typed : String) :
    let ran := ((Command.cd (some typed)).run now).run s
    (ran.1.success = true ↔ (s.names? typed).isSome = true) ∧
      ((s.names? typed).isSome = true → ran.2.cursor = s.resolve typed) := by
  intro ran
  have hsuccess : ran.1.success = true ↔ s.isDirectory (s.resolve typed) = true := by
    constructor
    · exact fun h => (Session.entered_of_cd h).1
    · intro h
      have hentered := Session.run_cd now typed s
      rw [Edit.result_enter h] at hentered
      exact congrArg (fun r => r.1.success) hentered
  rw [Session.isSome_names?_iff]
  refine ⟨hsuccess, fun h => ?_⟩
  rw [(Session.entered_of_cd (hsuccess.2 h)).2]

structure Lists (s : Session) (typed : String) (shown : List String → List String)
    (answer : Outcome) : Prop where
  success_iff : answer.success = true ↔ s.contains typed = true
  names : ∀ names, s.names? typed = some names → answer = .output ("  ".intercalate (shown names))
  file : (s.read? typed).isSome = true → answer = .output typed

theorem Lists.of_record {shown : List String → List String} {answer : Outcome} {entry : String}
    (h : Lists (s.record entry) typed shown answer) : Lists s typed shown answer :=
  ⟨h.success_iff, h.names, h.file⟩

theorem list_one (s : Session) (typed : String) (all : Bool) :
    (∀ text, section? s false all false typed = .ok text →
        list s [typed] false all = .output text) ∧
      ∀ e, section? s false all false typed = .error e → list s [typed] false all = .ofError e := by
  have hlist : list s [typed] false all =
      .ofFailures ("\n".intercalate (sections s false all false [typed]).1)
        (sections s false all false [typed]).2 := rfl
  rw [hlist, sections]
  constructor
  · intro text htext
    rw [htext]
    rfl
  · intro e he
    rw [he]
    exact Outcome.ofFailures_one e

theorem section?_of_names? (all : Bool) (h : s.names? typed = some names) : section? s false all
    false typed = .ok ("  ".intercalate
      (names.filter fun name => all || !Text.startsWith name ".")) := by
  obtain ⟨t, ht, hnames⟩ := Option.bind_eq_some_iff.1 h
  obtain ⟨entries, hentries, hmap⟩ := Option.bind_eq_some_iff.1 hnames
  obtain rfl : entries.map Prod.fst = names := Option.some_inj.1 hmap
  have hfind : s.find (s.resolve typed) = .ok t := Tree.find_eq_ok_iff.2 ht
  rw [section?, hfind]
  simp [Except.mapError, bind, Except.bind, hentries, names_shown, pure, Except.pure]

theorem section?_of_read? (all : Bool) (h : s.read? typed = some text) : section? s false all false
    typed = .ok typed := by
  obtain ⟨t, hfind, hcontent⟩ := Session.exists_find_of_read? h
  have hentries : t.node.entries? = none := by
    cases hn : t.node with
    | file => rfl
    | directory => simp [hn, Node.content?] at hcontent
  rw [section?, hfind]
  simp [Except.mapError, bind, Except.bind, hentries, Listing.Item.ofNode, pure, Except.pure]

theorem section?_of_absent (all : Bool) (h : s.contains typed = false) :
    ∃ e, section? s false all false typed = .error e := by
  cases hfind : s.find (s.resolve typed) with
  | ok t =>
    have hthere : s.get? (s.resolve typed) = some t := Tree.find_eq_ok_iff.1 hfind
    simp [Session.contains, hthere] at h
  | error x =>
    refine ⟨.file "ls" typed x, ?_⟩
    rw [section?, hfind]
    rfl

theorem ls_agrees (now : Instant) (s : Session) (typed : String) (all : Bool) :
    Lists s typed (fun names => names.filter fun name => all || !Text.startsWith name ".")
      (((Command.ls [typed] false all).run now).run s).1 := by
  have hanswer : (((Command.ls [typed] false all).run now).run s).1 = list s [typed] false all := rfl
  obtain ⟨hshown, hfailed⟩ := list_one s typed all
  rw [hanswer]
  obtain ⟨text, hread, hnames, hthere⟩ | ⟨names, hread, hnames, hthere⟩ | ⟨hread, hnames, hthere⟩ :=
    s.query_cases typed
  · rw [hshown _ (section?_of_read? all hread)]
    exact ⟨by simp [hthere, Outcome.output], by simp [hnames], fun _ => rfl⟩
  · rw [hshown _ (section?_of_names? all hnames)]
    exact ⟨by simp [hthere, Outcome.output], by simp [hnames], by simp [hread]⟩
  · obtain ⟨e, he⟩ := section?_of_absent all hthere
    rw [hfailed e he]
    exact ⟨by simp [hthere, Outcome.ofError, Outcome.failure], by simp [hnames], by simp [hread]⟩

/-! ### Operands of a line -/

theorem read_of_operands {name : String} (hname : name ≠ "echo") (args : List String) :
    read name args none =
      ofOperands name (flagsAndOperands args).1 (flagsAndOperands args).2 := by
  rw [read, if_neg hname]
  cases h : ofOperands name (flagsAndOperands args).1 (flagsAndOperands args).2 <;>
    simp [h, bind, Except.bind, pure, Except.pure]

end Command

namespace Session
open Command

variable {p : String}

theorem run_line_of_words {line : String} (name : String) (args : List String) {c : Command}
    (hline : line = " ".intercalate (name :: args)) (hwords : ∀ w ∈ name :: args, Token.IsPlain w)
    (hread : Command.read name args none = .ok c) (now : Instant) (s : Session) :
    ∃ entry, (runLine now line).run s = (c.run now).run (s.record entry) := by
  rw [hline]
  exact ⟨_, run_runLine_typed (l := { name, args })
    (fun w hw => Token.isWord_iff_isPlain.2 (hwords w hw)) (by simp) rfl rfl hread now s⟩

theorem run_operand_line (line name : String) {c : Command} (hline : line = name ++ " " ++ p)
    (hname : Token.IsPlain name ∧ name ≠ "echo") (hc : ofOperands name [] [p] = .ok c)
    (hp : Token.IsPlain p) (hdash : p.toList.head? ≠ some '-') (now : Instant) (s : Session) :
    ∃ entry, (runLine now line).run s = (c.run now).run (s.record entry) := by
  refine run_line_of_words name [p] hline (by simpa using ⟨hname.1, hp⟩) ?_ now s
  rw [read_of_operands hname.2, flagsAndOperands_isOperand (.inl hdash) []]
  exact hc

theorem run_ls_all_line (hp : Token.IsPlain p) (hdash : p.toList.head? ≠ some '-') (now : Instant)
    (s : Session) : ∃ entry, (runLine now ("ls -a " ++ p)).run s =
      ((Command.ls [p] false true).run now).run (s.record entry) := by
  have hls : Token.IsPlain "ls" := by decide
  have hflag : Token.IsPlain "-a" := by decide
  refine run_line_of_words "ls" ["-a", p] rfl
    (by simpa using ⟨hls, hflag, hp⟩) ?_ now s
  rw [read_of_operands (by decide), flagsAndOperands_cluster (by decide) rfl,
    flagsAndOperands_isOperand (.inl hdash) []]
  rfl

/-- What the commands show of a path, typed as one word, agrees with the queries. -/
theorem commands_agree_with_queries (now : Instant) (s : Session) {p : String}
    (hp : Token.IsPlain p) (hdash : p.toList.head? ≠ some '-') :
    let ran (line : String) := (runLine now line).run s
    ((ran ("cat " ++ p)).1.success = true ↔ (s.read? p).isSome = true) ∧
      (∀ text, s.read? p = some text → (ran ("cat " ++ p)).1 = .output text) ∧
      ((ran ("cd " ++ p)).1.success = true ↔ (s.names? p).isSome = true) ∧
      ((s.names? p).isSome = true → (ran ("cd " ++ p)).2.cursor = s.resolve p) ∧
      Lists s p (fun names => names) (ran ("ls -a " ++ p)).1 ∧
      Lists s p (fun names => names.filter fun name => !Text.startsWith name ".")
        (ran ("ls " ++ p)).1 := by
  intro ran
  obtain ⟨catEntry, hcat⟩ :=
    run_operand_line (c := .cat [p]) ("cat " ++ p) "cat" rfl (by decide) rfl hp hdash now s
  obtain ⟨cdEntry, hcd⟩ :=
    run_operand_line (c := .cd (some p)) ("cd " ++ p) "cd" rfl (by decide) rfl hp hdash now s
  obtain ⟨lsEntry, hls⟩ :=
    run_operand_line (c := .ls [p] false false) ("ls " ++ p) "ls" rfl (by decide) rfl hp hdash now s
  obtain ⟨allEntry, hall⟩ := run_ls_all_line hp hdash now s
  have hshown := cat_agrees now (s.record catEntry) p
  have hentered := cd_agrees now (s.record cdEntry) p
  have hlisted := ls_agrees now (s.record lsEntry) p false
  have hlistedAll := ls_agrees now (s.record allEntry) p true
  rw [← hcat] at hshown
  rw [← hcd] at hentered
  rw [← hls] at hlisted
  rw [← hall] at hlistedAll
  simp only [Bool.true_or, List.filter_true] at hlistedAll
  exact ⟨hshown.1, hshown.2, hentered.1, hentered.2, hlistedAll.of_record, hlisted.of_record⟩

theorem commands_agree_with_queries_from_root :
    let s := { seeded Instant.epoch with cursor := Path.root }
    ((runLine Instant.epoch ("cd " ++ "~/../user")).run s).2.cursor = Path.home ∧
      ((runLine Instant.epoch ("ls " ++ "~/../user")).run s).1 =
        .output "documents  projects  welcome.txt" ∧
      ((runLine Instant.epoch ("ls -a " ++ "~/../user")).run s).1 =
        .output ".bashrc  documents  projects  welcome.txt" ∧
      ¬ ((runLine Instant.epoch ("cat " ++ "~/ghost")).run s).1.success = true := by
  intro s
  obtain ⟨-, -, -, hcd, hall, hls⟩ := commands_agree_with_queries Instant.epoch s
    (p := "~/../user") (by decide) (by decide)
  obtain ⟨hcat, -⟩ := commands_agree_with_queries Instant.epoch s
    (p := "~/ghost") (by decide) (by decide)
  beta_reduce at hcd hall hls hcat
  have hnames : s.names? "~/../user" = some [".bashrc", "documents", "projects", "welcome.txt"] := by
    decide +kernel
  have hcursor := hcd (by rw [hnames]; rfl)
  have hghost : ¬ (s.read? "~/ghost").isSome = true := by decide +kernel
  exact ⟨hcursor.trans (by decide +kernel), (hls.names _ hnames).trans (by decide +kernel),
    (hall.names _ hnames).trans (by decide +kernel), fun hsuccess => hghost (hcat.1 hsuccess)⟩

end Session

end PracticeShell
