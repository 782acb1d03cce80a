import PracticeShell.Command.Run
import PracticeShell.Proofs.Edit.Refusal

/-! Files shown one behind the other. If all operands can be read, the lines shown are the lines of
each in turn. If one cannot, the first of those is named and no file is shown. -/
namespace PracticeShell

/-! ### Lines -/

namespace Text

/-- The pieces of a text between its line feeds, without an empty piece at the end. -/
def lines (cs : List Char) : List (List Char) :=
  let pieces := cs.splitOn '\n'
  if pieces.getLast? = some [] then pieces.dropLast else pieces

@[simp] theorem lines_nil : lines [] = [] := rfl

theorem lines_append_lineFeed (x y : List Char) :
    lines (x ++ '\n' :: y) = x.splitOn '\n' ++ lines y := by
  have hsplit : (x ++ '\n' :: y).splitOn '\n' = x.splitOn '\n' ++ y.splitOn '\n' :=
    List.splitOn_append_cons_self x y
  have hne : y.splitOn '\n' ≠ [] := List.splitOn_ne_nil _ y
  rw [lines, lines, hsplit, List.getLast?_append_of_ne_nil _ hne]
  split
  · rw [List.dropLast_append_of_ne_nil hne]
  · rfl

theorem nil_or_ended (x : List Char) (h : (x.splitOn '\n').getLast? = some []) :
    x = [] ∨ x.getLast? = some '\n' := by
  induction x with
  | nil => exact .inl rfl
  | cons c x ih =>
    right
    rw [List.splitOn_cons_eq_if_modifyHead] at h
    cases hpieces : x.splitOn '\n' with
    | nil => exact absurd hpieces (List.splitOn_ne_nil _ x)
    | cons piece pieces =>
      rw [hpieces] at h ih
      split at h
      · next hc =>
        obtain rfl | hend := ih (by simpa using h)
        · simpa using hc
        · rw [List.getLast?_cons, hend]
          rfl
      · cases pieces with
        | nil => simp at h
        | cons next pieces =>
          obtain rfl | hend := ih (by simpa using h)
          · simp at hpieces
          · rw [List.getLast?_cons, hend]
            rfl

theorem lines_of_unended {x : List Char} (hne : x ≠ []) (h : x.getLast? ≠ some '\n') :
    lines x = x.splitOn '\n' := by
  rw [lines, if_neg]
  intro hlast
  obtain hnil | hend := nil_or_ended x hlast
  · exact hne hnil
  · exact h hend

end Text

namespace Command
variable {s : Session} {texts : List String} {typed text : String}

/-- Appending joins no line of the added text to the last line before it. -/
theorem lines_appendContent (before text : String) :
    Text.lines (appendContent before text).toList =
      Text.lines before.toList ++ Text.lines text.toList := by
  by_cases hend : before.toList.getLast? = some '\n'
  · -- What stands before is ended already.
    obtain ⟨x, hx⟩ := List.getLast?_eq_some_iff.1 hend
    have happend : appendContent before text = before ++ text := by
      simp [appendContent, Text.endsWith, hend]
    rw [happend, String.toList_append, hx, List.append_assoc, List.singleton_append,
      Text.lines_append_lineFeed, Text.lines_append_lineFeed, Text.lines_nil, List.append_nil]
  · by_cases hempty : before = ""
    · subst hempty
      simp [appendContent]
    · have hne : before.toList ≠ [] := fun hnil => hempty (String.toList_eq_nil_iff.1 hnil)
      have happend : (appendContent before text).toList = before.toList ++ '\n' :: text.toList := by
        simp [appendContent, Text.endsWith, hend, hempty]
      rw [happend, Text.lines_append_lineFeed, Text.lines_of_unended hne hend]

theorem lines_foldl_appendContent (texts : List String) (before : String) :
    Text.lines (texts.foldl appendContent before).toList =
      Text.lines before.toList ++ texts.flatMap fun text => Text.lines text.toList := by
  induction texts generalizing before with
  | nil => simp
  | cons text rest ih =>
    rw [List.foldl_cons, ih, lines_appendContent, List.flatMap_cons, List.append_assoc]

end Command

/-! ### Files and what is none -/

namespace Session
variable {s s' : Session} {p : Path} {x y : FileError} {typed text : String}

theorem isDirectory?_eq_none_iff : s.isDirectory? p = none ↔ s.get? p = none := by
  simp [isDirectory?]

theorem isDirectory?_eq_true_iff : s.isDirectory? p = some true ↔ s.isDirectory p = true := by
  rw [isDirectory?, isDirectory]
  cases s.get? p <;> simp

theorem isDirectory?_eq_false_iff : s.isDirectory? p = some false ↔ s.isFile p = true := by
  rw [isDirectory?, isFile]
  cases s.get? p <;> simp

theorem read?_eq_some_iff :
    s.read? typed = some text ↔ s.root.content? (s.resolve typed) = some (some text) := by
  rw [Tree.content?_eq_some_some_iff]
  exact Option.bind_eq_some_iff

theorem exists_find_of_read? (h : s.read? typed = some text) :
    ∃ t, s.find (s.resolve typed) = .ok t ∧ t.node.content? = some text := by
  obtain ⟨t, ht, hcontent⟩ := Option.bind_eq_some_iff.1 h
  exact ⟨t, Tree.find_eq_ok_iff.2 ht, hcontent⟩

theorem isSome_read?_iff : (s.read? typed).isSome = true ↔ s.isFile (s.resolve typed) = true := by
  simp only [Option.isSome_iff_exists, isFile_iff, read?_eq_some_iff]

inductive Unreadable (s : Session) (p : Path) : FileError → Prop
  | missing {q : Path} (hq : s.root.Obstacle p q) (hn : s.get? q = none) :
    Unreadable s p (.notFound q)
  | throughFile {q : Path} (hq : s.root.Obstacle p q) (hne : q ≠ p) (hf : s.isFile q = true) :
    Unreadable s p (.notADirectory q)
  | directory (hd : s.isDirectory p = true) : Unreadable s p (.isADirectory p)

theorem Unreadable.of_find (h : s.find p = .error x) : s.Unreadable p x := by
  obtain ⟨q, hq, hstop⟩ := Tree.find_error h
  obtain ⟨hn, rfl⟩ | ⟨hne, hf, rfl⟩ := hstop
  · exact .missing hq hn
  · exact .throughFile hq hne (isFile_iff.2 hf)

theorem Unreadable.unique (hx : s.Unreadable p x) (hy : s.Unreadable p y) : x = y := by
  have hmissing {q r : Path} (hq : s.root.Obstacle p q) (hr : s.root.Obstacle p r)
      (hn : s.get? q = none) (hf : s.isFile r = true) : False := by
    rw [hq.unique hr] at hn
    simp [isFile, hn] at hf
  have hthere {q : Path} (hq : q <+: p) (hd : s.isDirectory p = true) (hn : s.get? q = none) :
      False := by
    have hnone : s.get? p = none := Tree.get?_eq_none_of_prefix hn hq
    simp [isDirectory, hnone] at hd
  have hbelow {q : Path} (hq : q <+: p) (hne : q ≠ p) (hf : s.isFile q = true)
      (hd : s.isDirectory p = true) : False := by
    have hnone := Edit.get?_below_file hq hne hf
    simp [isDirectory, hnone] at hd
  cases hx with
  | missing hq hn =>
    cases hy with
    | missing hr => rw [hq.unique hr]
    | throughFile hr _ hf => exact (hmissing hq hr hn hf).elim
    | directory hd => exact (hthere hq.onPath hd hn).elim
  | throughFile hq hne hf =>
    cases hy with
    | missing hr hn => exact (hmissing hr hq hn hf).elim
    | throughFile hr => rw [hq.unique hr]
    | directory hd => exact (hbelow hq.onPath hne hf hd).elim
  | directory hd =>
    cases hy with
    | missing hr hn => exact (hthere hr.onPath hd hn).elim
    | throughFile hr hne hf => exact (hbelow hr.onPath hne hf hd).elim
    | directory => rfl

structure SameOutline (s s' : Session) : Prop where
  cursor : s'.cursor = s.cursor
  kind : ∀ p, s'.isDirectory? p = s.isDirectory? p

theorem SameOutline.unreadable (h : s.SameOutline s') (hx : s'.Unreadable p x) :
    s.Unreadable p x := by
  have hdirectory (q : Path) : s'.isDirectory q = true ↔ s.isDirectory q = true := by
    rw [← isDirectory?_eq_true_iff, h.kind, isDirectory?_eq_true_iff]
  have hobstacle {q : Path} (hq : s'.root.Obstacle p q) : s.root.Obstacle p q := by
    refine ⟨hq.onPath, fun r hr hne => ?_, fun hclosed => hq.closed ?_⟩
    · exact isDirectory_iff.1 ((hdirectory r).1 (isDirectory_iff.2 (hq.way r hr hne)))
    · exact isDirectory_iff.1 ((hdirectory q).2 (isDirectory_iff.2 hclosed))
  cases hx with
  | missing hq hn =>
    rw [← isDirectory?_eq_none_iff, h.kind] at hn
    exact .missing (hobstacle hq) (isDirectory?_eq_none_iff.1 hn)
  | throughFile hq hne hf =>
    rw [← isDirectory?_eq_false_iff, h.kind] at hf
    exact .throughFile (hobstacle hq) hne (isDirectory?_eq_false_iff.1 hf)
  | directory hd => exact .directory ((hdirectory p).1 hd)

theorem SameOutline.resolve (h : s.SameOutline s') (typed : String) :
    s'.resolve typed = s.resolve typed :=
  resolve_congr h.cursor typed

theorem SameOutline.isSome_read? (h : s.SameOutline s') (typed : String) :
    (s'.read? typed).isSome = (s.read? typed).isSome := by
  rw [Bool.eq_iff_iff, isSome_read?_iff, isSome_read?_iff, ← isDirectory?_eq_false_iff, h.kind,
    h.resolve, isDirectory?_eq_false_iff]

end Session

namespace Command
variable {s s' : Session} {typed text : String} {paths texts : List String}

theorem contents_of_read? (h : s.read? typed = some text) (rest : List String) :
    contents s (typed :: rest) = (contents s rest).map (text :: ·) := by
  obtain ⟨t, hfind, hcontent⟩ := Session.exists_find_of_read? h
  rw [contents, hfind]
  simp only [Except.mapError, bind, Except.bind, hcontent]
  cases contents s rest <;> rfl

theorem contents_of_unreadable (h : s.read? typed = none) : ∃ cause,
    s.Unreadable (s.resolve typed) cause ∧
      ∀ rest, contents s (typed :: rest) = .error (.file "cat" typed cause) := by
  cases hfind : s.find (s.resolve typed) with
  | error x =>
    refine ⟨x, .of_find hfind, fun rest => ?_⟩
    rw [contents, hfind]
    rfl
  | ok t =>
    have ht : s.get? (s.resolve typed) = some t := Tree.find_eq_ok_iff.1 hfind
    have hcontent : t.node.content? = none := by simpa [Session.read?, ht] using h
    have hdir : s.isDirectory (s.resolve typed) = true := by
      simp [Session.isDirectory, ht, Tree.isDirectory_eq, hcontent]
    refine ⟨.isADirectory (s.resolve typed), .directory hdir, fun rest => ?_⟩
    rw [contents, hfind]
    simp only [Except.mapError, bind, Except.bind, hcontent]
    rfl

theorem contents_of_files (h : List.Forall₂ (fun typed text => s.read? typed = some text) paths texts) :
    contents s paths = .ok texts := by
  induction h with
  | nil => rfl
  | cons htyped hrest ih =>
    rw [contents_of_read? htyped, ih]
    rfl

theorem contents_of_first_unreadable {before : List String}
    (hbefore : ∀ other ∈ before, (s.read? other).isSome = true) (h : s.read? typed = none) :
    ∃ cause, s.Unreadable (s.resolve typed) cause ∧
      ∀ after, contents s (before ++ typed :: after) = .error (.file "cat" typed cause) := by
  obtain ⟨cause, hcause, hcontents⟩ := contents_of_unreadable h
  refine ⟨cause, hcause, fun after => ?_⟩
  induction before with
  | nil => exact hcontents after
  | cons other before ih =>
    obtain ⟨hother, hrest⟩ := List.forall_mem_cons.1 hbefore
    obtain ⟨text, htext⟩ := Option.isSome_iff_exists.1 hother
    rw [List.cons_append, contents_of_read? htext, ih hrest]
    rfl

theorem run_cat (now : Instant) (paths : List String) (s : Session) :
    ((Command.cat paths).run now).run s = (concatenate s paths, s) := rfl

/-- If all operands name files, their lines are shown in turn. Otherwise the first operand that does
not is reported, and the answer does not depend on what the files hold. -/
theorem cat_all_or_nothing (now : Instant) (s : Session) (paths : List String) :
    let ran (s : Session) := ((Command.cat paths).run now).run s
    (∀ texts, List.Forall₂ (fun typed text => s.read? typed = some text) paths texts →
      ∃ shown, ran s = (.output shown, s) ∧
        Text.lines shown.toList = texts.flatMap fun text => Text.lines text.toList) ∧
    ∀ before typed after, paths = before ++ typed :: after →
      (∀ other ∈ before, (s.read? other).isSome = true) → s.read? typed = none →
      (∃ cause, s.Unreadable (s.resolve typed) cause ∧
        ran s = (.ofError (.file "cat" typed cause), s)) ∧
      ∀ s', s.SameOutline s' → (ran s').1 = (ran s).1 := by
  intro ran
  have hran (s : Session) : ran s = (concatenate s paths, s) := run_cat now paths s
  constructor
  · intro texts htexts
    refine ⟨texts.foldl appendContent "", ?_, ?_⟩
    · rw [hran, concatenate, contents_of_files htexts]
    · simpa using lines_foldl_appendContent texts ""
  · intro before typed after hpaths hbefore htyped
    obtain ⟨cause, hcause, hcontents⟩ := contents_of_first_unreadable hbefore htyped
    have hrefused : ran s = (.ofError (.file "cat" typed cause), s) := by
      rw [hran, hpaths, concatenate, hcontents]
    refine ⟨⟨cause, hcause, hrefused⟩, fun s' houtline => ?_⟩
    have hbefore' : ∀ other ∈ before, (s'.read? other).isSome = true := by
      intro other hother
      rw [houtline.isSome_read?]
      exact hbefore other hother
    have htyped' : s'.read? typed = none := by
      rw [← Option.not_isSome_iff_eq_none, houtline.isSome_read?, htyped]
      simp
    obtain ⟨cause', hcause', hcontents'⟩ := contents_of_first_unreadable hbefore' htyped'
    rw [houtline.resolve] at hcause'
    have hsame : cause' = cause := (houtline.unreadable hcause').unique hcause
    rw [hrefused, hran, hpaths, concatenate, hcontents', hsame]

theorem cat_all_or_nothing_of_empty_files :
    let file (text : String) := Tree.file text (Stamps.fresh Instant.epoch)
    let s : Session :=
      ⟨Tree.directory [("empty", file ""), ("end", file "\n"), ("word", file "word")]
        (Stamps.fresh Instant.epoch), Path.root, []⟩
    let ran (paths : List String) := ((Command.cat paths).run Instant.epoch).run s
    (∃ shown, ran ["empty", "word", "empty", "end", "word"] = (.output shown, s) ∧
      Text.lines shown.toList = ["word".toList, [], "word".toList]) ∧
    ∃ cause, s.Unreadable (s.resolve "word/x") cause ∧
      ran ["word", "word/x", "ghost"] = (.ofError (.file "cat" "word/x" cause), s) := by
  intro file s ran
  have htexts : List.Forall₂ (fun typed text => s.read? typed = some text)
      ["empty", "word", "empty", "end", "word"] ["", "word", "", "\n", "word"] := by
    simp only [List.forall₂_cons, List.Forall₂.nil, and_true]
    decide +kernel
  constructor
  · obtain ⟨shown, hran, hlines⟩ := (cat_all_or_nothing Instant.epoch s _).1 _ htexts
    exact ⟨shown, hran, by rw [hlines]; decide +kernel⟩
  · exact ((cat_all_or_nothing Instant.epoch s _).2 ["word"] "word/x" ["ghost"] rfl
      (by decide +kernel) (by decide +kernel)).1

end Command

end PracticeShell
