import PracticeShell.Proofs.Command.Operands
import PracticeShell.Proofs.Edit.Operation
import PracticeShell.Proofs.Session.Queries
import PracticeShell.Proofs.Text.Ends

/-! Lines that `echo` writes to a file, and the file that `cat` then shows. A line changes no other
content, so the file holds what was written last and what was added since. -/
namespace PracticeShell

/-! ### A file written -/

/-- In `s'` the file at `p` holds `text`; every other path holds what it did in `s`. -/
structure Session.Wrote (s : Session) (p : Path) (text : String) (s' : Session) : Prop where
  cursor : s'.cursor = s.cursor
  content : s'.root.content? p = some (some text)
  others : ∀ q, q ≠ p → s'.root.content? q = s.root.content? q

namespace Session.Wrote
variable {s s' s'' : Session} {p : Path} {text text' : String}

theorem refl (h : s.root.content? p = some (some text)) : s.Wrote p text s := ⟨rfl, h, fun _ _ => rfl⟩

theorem trans (h : s.Wrote p text s') (h' : s'.Wrote p text' s'') : s.Wrote p text' s'' :=
  ⟨h'.cursor.trans h.cursor, h'.content, fun q hq => (h'.others q hq).trans (h.others q hq)⟩

theorem of_record {entry : String} (h : (s.record entry).Wrote p text s') : s.Wrote p text s' :=
  ⟨h.cursor, h.content, h.others⟩

theorem resolve (h : s.Wrote p text s') (typed : String) : s'.resolve typed = s.resolve typed :=
  resolve_congr h.cursor typed

end Session.Wrote

namespace Edit
variable {now : Instant} {s s' : Session} {p : Path} {old text : String} {mode : OpenMode}

def contentAfter (mode : OpenMode) (old text : String) : String :=
  match mode with
  | .truncate => text
  | .append => old ++ text

theorem content?_write {t : Tree} (h : t.node.content? = some old) :
    ((t.write mode text).touch now).node.content? = some (contentAfter mode old text) := by
  obtain ⟨node, ordered⟩ := t
  cases node with
  | file content stamps =>
    obtain rfl : content = old := Option.some_inj.1 h
    cases mode <;> rfl
  | directory entries stamps => exact absurd h (by simp [Node.content?])

theorem wrote_update (now : Instant) (mode : OpenMode) (h : s.root.content? p = some (some old)) :
    s.Wrote p (contentAfter mode old text)
      { s with root := s.root.update (fun t => (t.write mode text).touch now) p } := by
  obtain ⟨t, ht, hold⟩ := Tree.content?_eq_some_some_iff.1 h
  refine ⟨rfl, ?_, fun q hq => ?_⟩
  · have hget : (s.root.update (fun t => (t.write mode text).touch now) p).get? p =
        some ((t.write mode text).touch now) := by rw [Tree.get?_update_self, ht]; rfl
    exact Tree.content?_eq_some_some_iff.2 ⟨_, hget, content?_write hold⟩
  · rw [Tree.content?_eq_label?, Tree.content?_eq_label?,
      Tree.label?_update_of_ne (by simp) hq]

theorem wrote_withEntry {above : Path} {name : String}
    (ha : s.Admits above name (Tree.file text (Stamps.fresh now)))
    (hnone : s.root.get? (above.child name) = none) :
    s.Wrote (above.child name) text
      (s.withEntry now above name (Tree.file text (Stamps.fresh now))) := by
  have hfile : (s.withEntry now above name (Tree.file text (Stamps.fresh now))).root.content?
      (above.child name) = some (some text) :=
    Tree.content?_eq_some_some_iff.2 ⟨_, ha.get?_withEntry, rfl⟩
  refine ⟨rfl, hfile, fun q hq => ?_⟩
  by_cases hbelow : above.child name <+: q
  · -- Below a file there is as little as below nothing.
    have hafter := get?_below_file hbelow hq.symm (Session.isFile_iff.2 ⟨text, hfile⟩)
    have hbefore := Tree.get?_eq_none_of_prefix hnone hbelow
    rw [Tree.content?_eq_none_iff.2 hafter, Tree.content?_eq_none_iff.2 hbefore]
  · exact Tree.content?_withEntry hbelow

theorem exists_wrote_of_append (now : Instant) (text : String)
    (h : s.root.content? p = some (some old)) :
    ∃ s', (write now p text .append).result s = (.ok (), s') ∧ s.Wrote p (old ++ text) s' := by
  obtain ⟨t, ht, hold⟩ := Tree.content?_eq_some_some_iff.1 h
  have hget : s.get? p = some t := ht
  have hfile : t.isDirectory = false := by simp [Tree.isDirectory_eq, hold]
  refine ⟨_, ?_, wrote_update now .append h⟩
  rw [write, result_bind_ok (result_get s), hget]
  simp [hfile]
  rfl

theorem wrote_of_truncate (h : (write now p text .truncate).result s = (.ok (), s')) :
    s.Wrote p text s' := by
  obtain ⟨⟨old, hold⟩, hr⟩ | ⟨above, name, rfl, ha, hnone, hr⟩ | ⟨x, hr⟩ :=
    write_cases now p text .truncate s
  · obtain ⟨-, rfl⟩ := Prod.mk.inj (hr.symm.trans h)
    exact wrote_update now .truncate hold
  · obtain ⟨-, rfl⟩ := Prod.mk.inj (hr.symm.trans h)
    exact wrote_withEntry ha hnone
  · simp [hr] at h

end Edit

/-! ### Lines of echo -/

namespace Session
open Command
variable {now : Instant} {s s' : Session} {f old : String} {words : List String} {mode : OpenMode}

def echoLine (mode : OpenMode) (words : List String) (f : String) : String :=
  " ".intercalate ("echo" :: words) ++ " " ++ mode.symbol ++ " " ++ f

theorem run_echo (now : Instant) (s : Session) (text : String) (mode : OpenMode)
    (hf : ∀ inner, ¬ Text.Encloses f inner) :
    ((Command.echo text (some ⟨mode, f⟩)).run now).run s =
      match (Edit.write now (s.resolve f) (text ++ "\n") mode).result s with
      | (.ok _, s') => (.empty, s')
      | (.error x, s') => (.ofError (.file "echo" f x), s') := by
  have htarget : targetName f = f := by rw [targetName, Text.unquoted?_eq_none_iff.2 hf]
  have hrun : ((Command.echo text (some ⟨mode, f⟩)).run now).run s =
      (runEach [targetName f] fun typed => attempt "echo" typed
        (Edit.write now (s.resolve (targetName f)) (text ++ "\n") mode)).run s := rfl
  rw [hrun, htarget, run_runEach_one, run_attempt]
  obtain ⟨x | _, s'⟩ := (Edit.write now (s.resolve f) (text ++ "\n") mode).result s
  · exact congrArg (·, s') (Outcome.ofFailures_one (.file "echo" f x))
  · rfl

theorem run_echo_line (hf : Token.IsPlain f) (hwords : ∀ w ∈ words, Token.IsPlain w)
    (mode : OpenMode) (now : Instant) (s : Session) :
    ∃ entry text, Text.Unquotes (" ".intercalate words) text ∧
      (runLine now (echoLine mode words f)).run s =
        ((Command.echo text (some ⟨mode, f⟩)).run now).run (s.record entry) := by
  let l : CommandLine := { name := "echo", args := words, redirect := some ⟨mode, f⟩ }
  have hname : Token.IsWord "echo" := by decide
  have hline : ∀ w ∈ l.name :: l.args, Token.IsWord w := by
    intro w hw
    obtain rfl | hw := List.mem_cons.1 hw
    · exact hname
    · exact Token.isWord_iff_isPlain.2 (hwords w hw)
  have htarget : ∀ r ∈ l.redirect, Token.IsWord r.target := by
    intro r hr
    obtain rfl : ⟨mode, f⟩ = r := Option.some_inj.1 hr
    exact Token.isWord_iff_isPlain.2 hf
  exact ⟨_, _, Text.unquotes_iff.2 rfl, run_runLine_typed hline htarget rfl rfl rfl now s⟩

section
variable (hf : Token.IsPlain f) (hquotes : ∀ inner, ¬ Text.Encloses f inner)
include hf hquotes

theorem wrote_of_echo_line (hwords : ∀ w ∈ words, Token.IsPlain w)
    (hsuccess : ((runLine now (echoLine .truncate words f)).run s).1.success = true) :
    ∃ text, Text.Unquotes (" ".intercalate words) text ∧
      s.Wrote (s.resolve f) (text ++ "\n") ((runLine now (echoLine .truncate words f)).run s).2 := by
  obtain ⟨entry, text, htext, hran⟩ := run_echo_line hf hwords .truncate now s
  rw [hran, run_echo now _ text _ hquotes] at hsuccess ⊢
  refine ⟨text, htext, ?_⟩
  cases hwrite : (Edit.write now ((s.record entry).resolve f) (text ++ "\n") .truncate).result
      (s.record entry) with
  | mk result s' =>
    cases result with
    | ok => exact (Edit.wrote_of_truncate hwrite).of_record
    | error x =>
      rw [hwrite] at hsuccess
      exact absurd hsuccess Bool.false_ne_true

theorem wrote_of_echo_line_append (hwords : ∀ w ∈ words, Token.IsPlain w)
    (hold : s.root.content? (s.resolve f) = some (some old)) (now : Instant) :
    ((runLine now (echoLine .append words f)).run s).1.success = true ∧
      ∃ text, Text.Unquotes (" ".intercalate words) text ∧
        s.Wrote (s.resolve f) (old ++ (text ++ "\n"))
          ((runLine now (echoLine .append words f)).run s).2 := by
  obtain ⟨entry, text, htext, hran⟩ := run_echo_line hf hwords .append now s
  have hthere : (s.record entry).root.content? ((s.record entry).resolve f) = some (some old) := hold
  obtain ⟨s', hwrite, hwrote⟩ := Edit.exists_wrote_of_append now (text ++ "\n") hthere
  rw [hran, run_echo now _ text _ hquotes, hwrite]
  exact ⟨rfl, text, htext, hwrote.of_record⟩

theorem wrote_of_echo_lines {lines : List (Instant × List String)}
    (hlines : ∀ line ∈ lines, ∀ w ∈ line.2, Token.IsPlain w)
    (hold : s.root.content? (s.resolve f) = some (some old)) :
    let appended := (lines.mapM fun line => runLine line.1 (echoLine .append line.2 f)).run s
    (∀ o ∈ appended.1, o.success = true) ∧
      ∃ texts, List.Forall₂ (fun line text => Text.Unquotes (" ".intercalate line.2) text)
          lines texts ∧
        s.Wrote (s.resolve f) (old ++ String.join (texts.map (· ++ "\n"))) appended.2 := by
  induction lines generalizing s old with
  | nil =>
    have hjoin : old ++ String.join (([] : List String).map (· ++ "\n")) = old := String.append_empty
    refine ⟨fun o ho => absurd ho List.not_mem_nil, [], .nil, ?_⟩
    rw [hjoin]
    exact Wrote.refl hold
  | cons line rest ih =>
    obtain ⟨hline, hrest⟩ := List.forall_mem_cons.1 hlines
    obtain ⟨hsuccess, text, htext, hwrote⟩ :=
      wrote_of_echo_line_append hf hquotes hline hold line.1
    have hnext := hwrote.content
    rw [← hwrote.resolve f] at hnext
    obtain ⟨hall, texts, htexts, hlast⟩ := ih hrest hnext
    rw [hwrote.resolve f] at hlast
    intro appended
    have happended : appended = _ := run_mapM_cons _ line rest s
    rw [happended]
    refine ⟨List.forall_mem_cons.2 ⟨hsuccess, hall⟩, text :: texts, .cons htext htexts, ?_⟩
    have hjoin : old ++ String.join ((text :: texts).map (· ++ "\n")) =
        old ++ (text ++ "\n") ++ String.join (texts.map (· ++ "\n")) := by
      rw [List.map_cons, String.join_cons, ← String.append_assoc]
    rw [hjoin]
    exact hwrote.trans hlast

/-- After a line that overwrites a file and lines that append to it, `cat` prints what they echoed,
in order. -/
theorem cat_prints_what_echo_wrote (hdash : f.toList.head? ≠ some '-') {first : List String}
    {rest : List (Instant × List String)} (hfirst : ∀ w ∈ first, Token.IsPlain w)
    (hrest : ∀ line ∈ rest, ∀ w ∈ line.2, Token.IsPlain w) (now later : Instant) (s : Session) :
    let wrote := (runLine now (echoLine .truncate first f)).run s
    let appended := (rest.mapM fun line => runLine line.1 (echoLine .append line.2 f)).run wrote.2
    wrote.1.success = true →
      (∀ o ∈ appended.1, o.success = true) ∧
        (∃ texts, List.Forall₂ (fun words text => Text.Unquotes (" ".intercalate words) text)
            (first :: rest.map Prod.snd) texts ∧
          ((runLine later ("cat " ++ f)).run appended.2).1 =
            .output (String.join (texts.map (· ++ "\n")))) ∧
        ∀ q, q ≠ s.resolve f → appended.2.root.content? q = s.root.content? q := by
  intro wrote appended hsuccess
  obtain ⟨text, htext, hwrote⟩ := wrote_of_echo_line hf hquotes hfirst hsuccess
  have hthere : wrote.2.root.content? (wrote.2.resolve f) = some (some (text ++ "\n")) := by
    rw [hwrote.resolve f]
    exact hwrote.content
  obtain ⟨hall, texts, htexts, hlast⟩ := wrote_of_echo_lines hf hquotes hrest hthere
  rw [hwrote.resolve f] at hlast
  have hwhole := hwrote.trans hlast
  refine ⟨hall, ⟨text :: texts, .cons htext (List.forall₂_map_left_iff.2 htexts), ?_⟩,
    hwhole.others⟩
  have hread : appended.2.read? f = some (String.join ((text :: texts).map (· ++ "\n"))) := by
    rw [read?_eq_some_iff, hwhole.resolve f, List.map_cons, String.join_cons]
    exact hwhole.content
  obtain ⟨entry, hcat⟩ :=
    run_operand_line (c := .cat [f]) ("cat " ++ f) "cat" rfl (by decide) rfl hf hdash later appended.2
  rw [hcat]
  exact (cat_agrees later (appended.2.record entry) f).2 _ hread

end

theorem cat_prints_what_echo_wrote_with_quotes :
    let s := seeded Instant.epoch
    let lines : List (Instant × List String) := [(Instant.epoch, []), (Instant.epoch, ["'", "-n"])]
    let wrote := (runLine Instant.epoch
      (echoLine .truncate ["\"it's", "here\""] "welcome.txt")).run s
    let appended := (lines.mapM fun line =>
      runLine line.1 (echoLine .append line.2 "welcome.txt")).run wrote.2
    wrote.1.success = true ∧ ((runLine Instant.epoch ("cat " ++ "welcome.txt")).run appended.2).1 =
      .output "it's here\n\n' -n\n" := by
  intro s lines
  have hquotes := Text.unquoted?_eq_none_iff.1 (by decide : Text.unquoted? "welcome.txt" = none)
  have hfirst : ∀ w ∈ ["\"it's", "here\""], Token.IsPlain w := by decide
  have hlines : ∀ line ∈ lines, ∀ w ∈ line.2, Token.IsPlain w := by decide
  have hprinted := cat_prints_what_echo_wrote (by decide) hquotes (by decide) hfirst hlines
    Instant.epoch Instant.epoch s
  -- The runs that both statements name are compared as they stand, not by what they come to.
  dsimp only at hprinted ⊢
  have hsuccess : ((runLine Instant.epoch
      (echoLine .truncate ["\"it's", "here\""] "welcome.txt")).run s).1.success = true := by
    decide +kernel
  obtain ⟨-, ⟨texts, htexts, hcat⟩, -⟩ := hprinted hsuccess
  simp only [Text.unquotes_iff] at htexts
  obtain _ | ⟨rfl, _ | ⟨rfl, _ | ⟨rfl, _ | _⟩⟩⟩ := htexts
  exact ⟨hsuccess, hcat.trans (by decide +kernel)⟩

end Session

end PracticeShell
