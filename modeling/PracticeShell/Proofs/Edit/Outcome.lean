import PracticeShell.Proofs.Tree.Update
import PracticeShell.Session.Edit

/-! The outcome of each edit: when it succeeds, and what it then leaves. Later proofs cite these and
run no edit themselves. -/
namespace PracticeShell

namespace Session

def withEntry (now : Instant) (above : Path) (name : String) (t : Tree) (s : Session) : Session :=
  { s with root := s.root.update (Tree.withEntry now name t) above }

def withoutEntry (now : Instant) (above : Path) (name : String) (s : Session) : Session :=
  { s with root := s.root.update (Tree.withoutEntry now name) above }

/-- If the cursor is at or below `removed` it moves to the parent of that. -/
def left (removed : Path) (s : Session) : Session :=
  if s.cursor.isAtOrBelow removed then { s with cursor := removed.parent?.getD Path.root } else s

def landing? (s : Session) (source destination : Path) : Option Path :=
  if s.isDirectory destination then source.name?.map destination.child else some destination

/-- The entry `name` of `above` can take the node: it is free, or both are files, and nothing comes
to lie too deep. -/
structure Admits (s : Session) (above : Path) (name : String) (t : Tree) : Prop where
  directory : s.root.content? above = some none
  depth : above.length + 1 + t.node.height ≤ maxDepth
  free : s.root.get? (above.child name) = none ∨
    t.isDirectory = false ∧ ∃ text, s.root.content? (above.child name) = some (some text)

theorem Admits.not_prefix {s : Session} {above q : Path} {name : String} {t : Tree}
    (h : s.Admits above name t) (hq : (s.root.get? q).isSome) (hne : above.child name ≠ q) :
    ¬ above.child name <+: q := by
  rintro ⟨r, rfl⟩
  cases r with
  | nil => simp at hne
  | cons next r =>
    obtain ⟨d, hd, hdir⟩ := Tree.isDirectory_of_isSome_below hq
    obtain hfree | ⟨-, text, htext⟩ := h.free
    · simp [hfree] at hd
    · rw [Tree.content?_eq_some_none_iff.2 ⟨d, hd, hdir⟩] at htext
      simp at htext

theorem Admits.not_prefix_of_directory {s : Session} {above q : Path} {name : String} {t : Tree}
    (h : s.Admits above name t) (hq : s.root.content? q = some none) :
    ¬ above.child name <+: q := by
  have hs : (s.root.get? q).isSome := by
    rw [← Tree.isSome_content?, hq]
    rfl
  by_cases hne : above.child name = q
  · subst hne
    obtain hfree | ⟨-, text, htext⟩ := h.free
    · simp [hfree] at hs
    · simp [htext] at hq
  · exact h.not_prefix hs hne

theorem Admits.get?_withEntry {s : Session} {above : Path} {name : String} {t : Tree} {now : Instant}
    (h : s.Admits above name t) :
    (s.withEntry now above name t).root.get? (above.child name) = some t := by
  have hbelow : (s.withEntry now above name t).root.get? (above.child name ++ []) = t.get? [] :=
    Tree.get?_withEntry_below h.directory
  rwa [List.append_nil] at hbelow

theorem Admits.isSome_withEntry {s : Session} {above q : Path} {name : String} {t : Tree}
    {now : Instant}
    (h : s.Admits above name t) (hq : (s.root.get? q).isSome) :
    ((s.withEntry now above name t).root.get? q).isSome := by
  by_cases hne : above.child name = q
  · subst hne
    simp [h.get?_withEntry]
  · rwa [← Tree.isSome_content?, withEntry, Tree.content?_withEntry (h.not_prefix hq hne),
      Tree.isSome_content?]

/-- Empty directories one in the other, down from `above`. -/
def withDirectories (now : Instant) : Path → List String → Session → Session
  | _, [], s => s
  | above, name :: rest, s =>
    withDirectories now (above.child name) rest
      (s.withEntry now above name (Tree.emptyDirectory (Stamps.fresh now)))

theorem withEntry_withoutEntry (now : Instant) (above : Path) (name : String) (t : Tree)
    (s : Session) :
    (s.withoutEntry now above name).withEntry now above name t = s.withEntry now above name t := by
  simp only [withEntry, withoutEntry, Tree.update_update, Tree.withEntry_withoutEntry]

theorem left_eq (removed : Path) (s : Session) : s.left removed =
    { s with
      cursor := if s.cursor.isAtOrBelow removed then removed.parent?.getD Path.root
        else s.cursor } := by
  rw [left]
  split <;> rfl

@[simp] theorem root_left (removed : Path) (s : Session) : (s.left removed).root = s.root := by
  rw [left_eq]

@[simp] theorem cursor_left (removed : Path) (s : Session) : (s.left removed).cursor =
    if s.cursor.isAtOrBelow removed then removed.parent?.getD Path.root else s.cursor := by
  rw [left_eq]

@[simp] theorem history_left (removed : Path) (s : Session) :
    (s.left removed).history = s.history := by
  rw [left_eq]

theorem left_of_out {s : Session} {removed : Path} (h : s.cursor.isAtOrBelow removed = false) :
    s.left removed = s := by
  rw [left, h]
  rfl

theorem get?_left_withoutEntry_eq_none_iff {s : Session} {now : Instant} {above p q : Path}
    {name : String} : ((s.withoutEntry now above name).left p).get? q = none ↔
      above.child name <+: q ∨ s.get? q = none := by
  rw [get?, root_left, withoutEntry]
  exact Tree.get?_withoutEntry_eq_none_iff

theorem content?_cursor_left {s : Session} {now : Instant} {above : Path} {name : String}
    (hs : (s.root.get? (above.child name)).isSome) (hcur : s.root.content? s.cursor = some none) :
    ((s.withoutEntry now above name).left (above.child name)).root.content?
      ((s.withoutEntry now above name).left (above.child name)).cursor = some none := by
  have hkept (q : Path) (hq : ¬ above.child name <+: q) :
      (s.withoutEntry now above name).root.content? q = s.root.content? q :=
    Tree.content?_withoutEntry hq
  rw [root_left, cursor_left, Path.parent?_child, Option.getD_some]
  split
  · rw [hkept above (Path.not_child_prefix above name)]
    exact Tree.content?_above hs
  · next hout =>
    refine (hkept _ fun hp => hout (Path.isAtOrBelow_iff.2 hp)).trans ?_
    exact hcur

theorem resolve_congr {s s' : Session} (h : s'.cursor = s.cursor) (typed : String) :
    s'.resolve typed = s.resolve typed := by
  rw [resolve, h, resolve]

theorem isDirectory_iff {s : Session} {p : Path} :
    s.isDirectory p = true ↔ s.root.content? p = some none := by
  rw [Tree.content?_eq_some_none_iff, isDirectory, get?]
  cases s.root.get? p <;> simp

def isFile (s : Session) (p : Path) : Bool := (s.get? p).any fun t => !t.isDirectory

theorem isFile_iff {s : Session} {p : Path} :
    s.isFile p = true ↔ ∃ text, s.root.content? p = some (some text) := by
  rw [isFile, get?, Tree.content?]
  cases s.root.get? p with
  | none => simp
  | some t => simp [Tree.isDirectory_eq, Option.isSome_iff_exists]

def isDirectory? (s : Session) (p : Path) : Option Bool := (s.get? p).map Tree.isDirectory

theorem isDirectory?_of_isSome {s : Session} {p : Path} (h : (s.get? p).isSome) :
    s.isDirectory? p = some (s.isDirectory p) := by
  obtain ⟨t, ht⟩ := Option.isSome_iff_exists.1 h
  simp [isDirectory?, isDirectory, ht]

end Session

namespace Edit
variable {α β : Type} {s s' : Session} {p : Path} {now : Instant} {t : Tree}

def result (e : Edit α) (s : Session) : Except FileError α × Session := e.run.run s

@[simp] theorem result_pure (a : α) (s : Session) : (pure a : Edit α).result s = (.ok a, s) := rfl

@[simp] theorem result_throw (x : FileError) (s : Session) :
    (throw x : Edit α).result s = (.error x, s) := rfl

@[simp] theorem result_get (s : Session) : (get : Edit Session).result s = (.ok s, s) := rfl

@[simp] theorem result_modify (g : Session → Session) (s : Session) :
    (modify g : Edit Unit).result s = (.ok (), g s) := rfl

theorem result_bind (e : Edit α) (f : α → Edit β) (s : Session) :
    (e >>= f).result s = match e.result s with
      | (.ok a, s') => (f a).result s'
      | (.error x, s') => (.error x, s') := by
  simp only [result, ExceptT.run_bind, StateT.run_bind]
  change (match e.run.run s with | (r, s') => _) = _
  obtain ⟨_ | _, _⟩ := e.run.run s <;> rfl

theorem result_bind_ok {e : Edit α} {a : α} (h : e.result s = (.ok a, s')) (f : α → Edit β) :
    (e >>= f).result s = (f a).result s' := by
  rw [result_bind, h]

theorem result_bind_error {e : Edit α} {x : FileError} (h : e.result s = (.error x, s'))
    (f : α → Edit β) : (e >>= f).result s = (.error x, s') := by
  rw [result_bind, h]

/-! ### Looking -/

@[simp] theorem result_find (p : Path) (s : Session) : (find p).result s = (s.find p, s) := by
  simp only [find, result_bind, result_get]
  cases s.find p <;> rfl

theorem result_find_ok {p : Path} {t : Tree} (ht : s.get? p = some t) :
    (find p).result s = (.ok t, s) := by
  rw [result_find, Session.find, Tree.find_eq_ok_iff.2 ht]

@[simp] theorem result_directory (p : Path) (s : Session) : (directory p).result s =
    ((s.find p).bind fun t => if t.isDirectory then .ok t else .error (.notADirectory p), s) := by
  simp only [directory, result_bind, result_find]
  cases s.find p with
  | error e => rfl
  | ok t => cases h : t.isDirectory <;> simp [Except.bind, h]

@[simp] theorem result_guardDepth (p : Path) (height : Nat) (s : Session) :
    (guardDepth p height).result s =
      (if Session.maxDepth < p.length + height then .error (.tooDeep p) else .ok (), s) := by
  rw [guardDepth]
  split <;> rfl

theorem result_landing (source destination : Path) (s : Session) :
    (landing source destination).result s =
      ((s.landing? source destination).elim (.error (.rootDirectory source)) .ok, s) := by
  simp only [landing, result_bind, result_get, Session.landing?]
  cases s.isDirectory destination with
  | false => rfl
  | true => cases source.name? <;> rfl

/-! ### Entries -/

theorem result_directory_ok {d : Tree} (hd : s.root.get? p = some d) (hdir : d.isDirectory = true) :
    (directory p).result s = (.ok d, s) := by
  have hf : s.find p = .ok d := Tree.find_eq_ok_iff.2 hd
  simp [hf, Except.bind, hdir]

theorem directory_cases (p : Path) (s : Session) :
    (∃ d, s.root.get? p = some d ∧ d.isDirectory = true ∧ (directory p).result s = (.ok d, s)) ∨
      s.root.content? p ≠ some none ∧ ∃ x, (directory p).result s = (.error x, s) := by
  cases hf : s.root.get? p with
  | none =>
    have hc : s.root.content? p ≠ some none := by simp [Tree.content?, hf]
    refine .inr ⟨hc, ?_⟩
    cases he : s.find p with
    | error e => exact ⟨e, by simp [he, Except.bind]⟩
    | ok d => exact absurd (Tree.find_eq_ok_iff.1 he) (by simp [hf])
  | some d =>
    cases hdir : d.isDirectory with
    | true => exact .inl ⟨d, rfl, hdir, result_directory_ok hf hdir⟩
    | false =>
      have hc : s.root.content? p ≠ some none := by
        simpa [Tree.content?, hf, Tree.isDirectory_eq, Option.ne_none_iff_isSome] using hdir
      have he : s.find p = .ok d := Tree.find_eq_ok_iff.2 hf
      exact .inr ⟨hc, _, by simp [he, Except.bind, hdir]; rfl⟩

theorem result_link {above : Path} {name : String} (hd : s.root.content? above = some none)
    (hn : s.root.get? (above.child name) = none) :
    (link now (above.child name) t).result s = (.ok (), s.withEntry now above name t) := by
  obtain ⟨d, hd, hdir⟩ := Tree.content?_eq_some_none_iff.1 hd
  have hc : d.child? name = none := by simpa [Tree.get?_child, hd] using hn
  simp only [link, Path.parent?_child, Path.name?_child]
  rw [result_bind_ok (result_directory_ok hd hdir)]
  simp [hc, change, Session.withEntry]
  rfl

theorem link_cases (now : Instant) (p : Path) (t : Tree) (s : Session) :
    (∃ above name, p = above.child name ∧ s.root.content? above = some none ∧
        s.root.get? p = none ∧ (link now p t).result s = (.ok (), s.withEntry now above name t)) ∨
      ∃ x, (link now p t).result s = (.error x, s) := by
  obtain rfl | ⟨above, name, rfl⟩ := Path.eq_nil_or_child p
  · exact .inr ⟨_, rfl⟩
  obtain ⟨d, hd, hdir, hr⟩ | ⟨-, x, hr⟩ := directory_cases above s
  · cases hc : d.child? name with
    | none =>
      have hn : s.root.get? (above.child name) = none := by simp [Tree.get?_child, hd, hc]
      have ha : s.root.content? above = some none := Tree.content?_eq_some_none_iff.2 ⟨d, hd, hdir⟩
      exact .inl ⟨above, name, rfl, ha, hn, result_link ha hn⟩
    | some c =>
      refine .inr ⟨.alreadyExists (above.child name), ?_⟩
      simp only [link, Path.parent?_child, Path.name?_child]
      rw [result_bind_ok hr]
      simp [hc]
  · refine .inr ⟨x, ?_⟩
    simp only [link, Path.parent?_child, Path.name?_child]
    exact result_bind_error hr _

theorem result_unlink {above : Path} {name : String}
    (hs : (s.root.get? (above.child name)).isSome) :
    (unlink now (above.child name)).result s = (.ok (), s.withoutEntry now above name) := by
  obtain ⟨d, hd, hdir⟩ := Tree.isDirectory_of_isSome_below (q := []) hs
  have hc : (d.child? name).isSome := by simpa [Tree.get?_child, hd] using hs
  simp only [unlink, Path.parent?_child, Path.name?_child]
  rw [result_bind_ok (result_directory_ok hd hdir)]
  simp [Option.isNone_eq_false_iff.2 hc, change, Session.withoutEntry]
  rfl

theorem unlink_cases (now : Instant) (p : Path) (s : Session) :
    (∃ above name, p = above.child name ∧ (s.root.get? p).isSome ∧
        (unlink now p).result s = (.ok (), s.withoutEntry now above name)) ∨
      ∃ x, (unlink now p).result s = (.error x, s) := by
  obtain rfl | ⟨above, name, rfl⟩ := Path.eq_nil_or_child p
  · exact .inr ⟨_, rfl⟩
  cases hs : (s.root.get? (above.child name)).isSome with
  | true => exact .inl ⟨above, name, rfl, rfl, result_unlink hs⟩
  | false =>
    have hn : s.root.get? (above.child name) = none := by simpa using hs
    obtain ⟨d, hd, hdir, hr⟩ | ⟨-, x, hr⟩ := directory_cases above s
    · have hc : d.child? name = none := by simpa [Tree.get?_child, hd] using hn
      refine .inr ⟨.notFound (above.child name), ?_⟩
      simp only [unlink, Path.parent?_child, Path.name?_child]
      rw [result_bind_ok hr]
      simp [hc]
    · refine .inr ⟨x, ?_⟩
      simp only [unlink, Path.parent?_child, Path.name?_child]
      exact result_bind_error hr _

/-! ### Nodes put in place -/

theorem result_guardDepth_ok {height : Nat} (h : p.length + height ≤ Session.maxDepth) :
    (guardDepth p height).result s = (.ok (), s) := by
  rw [result_guardDepth, if_neg (by omega)]

theorem result_guardDepth_error {height : Nat} (h : ¬ p.length + height ≤ Session.maxDepth) :
    (guardDepth p height).result s = (.error (.tooDeep p), s) := by
  rw [result_guardDepth, if_pos (by omega)]

theorem create_cases (now : Instant) (p : Path) (t : Tree) (s : Session) :
    (∃ above name, p = above.child name ∧ s.Admits above name t ∧ s.root.get? p = none ∧
        (do guardDepth p t.node.height; link now p t : Edit Unit).result s =
          (.ok (), s.withEntry now above name t)) ∨
      ∃ x, (do guardDepth p t.node.height; link now p t : Edit Unit).result s = (.error x, s) := by
  by_cases hdepth : p.length + t.node.height ≤ Session.maxDepth
  · rw [result_bind_ok (result_guardDepth_ok hdepth)]
    obtain ⟨above, name, rfl, hd, hn, hr⟩ | ⟨x, hr⟩ := link_cases now p t s
    · exact .inl ⟨above, name, rfl, ⟨hd, by simpa using hdepth, .inl hn⟩, hn, hr⟩
    · exact .inr ⟨x, hr⟩
  · exact .inr ⟨_, result_bind_error (result_guardDepth_error hdepth) _⟩

theorem result_replace {above : Path} {name : String}
    (hs : (s.root.get? (above.child name)).isSome) :
    (do unlink now (above.child name); link now (above.child name) t : Edit Unit).result s =
      (.ok (), s.withEntry now above name t) := by
  have hd : (s.withoutEntry now above name).root.content? above = some none := by
    rw [Session.withoutEntry, Tree.content?_withoutEntry (Path.not_child_prefix above name)]
    exact Tree.content?_above hs
  have hn : (s.withoutEntry now above name).root.get? (above.child name) = none :=
    Tree.get?_withoutEntry_eq_none_iff.2 (.inl (List.prefix_refl _))
  rw [result_bind_ok (result_unlink hs), result_link hd hn, Session.withEntry_withoutEntry]

theorem install_cases (now : Instant) (p : Path) (t : Tree) (s : Session) :
    (∃ above name, p = above.child name ∧ s.Admits above name t ∧
        (install now p t).result s = (.ok (), s.withEntry now above name t)) ∨
      ∃ x, (install now p t).result s = (.error x, s) := by
  by_cases hdepth : p.length + t.node.height ≤ Session.maxDepth
  swap
  · exact .inr ⟨_, result_bind_error (result_guardDepth_error hdepth) _⟩
  rw [install, result_bind_ok (result_guardDepth_ok hdepth), result_bind_ok (result_get s)]
  cases hg : s.get? p with
  | none =>
    obtain ⟨above, name, rfl, hd, hn, hr⟩ | ⟨x, hr⟩ := link_cases now p t s
    · exact .inl ⟨above, name, rfl, ⟨hd, by simpa using hdepth, .inl hn⟩, hr⟩
    · exact .inr ⟨x, hr⟩
  | some old =>
    have hold : s.root.get? p = some old := hg
    cases ht : t.isDirectory with
    | true => exact .inr ⟨.alreadyExists p, by simp⟩
    | false =>
      cases ho : old.isDirectory with
      | true => exact .inr ⟨.isADirectory p, by simp [ho]⟩
      | false =>
        obtain rfl | ⟨above, name, rfl⟩ := Path.eq_nil_or_child p
        · exact .inr ⟨.rootDirectory [], by simp [ho, unlink, Path.parent?]⟩
        have hs : (s.root.get? (above.child name)).isSome := by simp [hold]
        have hfile := Tree.exists_content? hold ho
        refine .inl ⟨above, name, rfl,
          ⟨Tree.content?_above hs, by simpa using hdepth, .inr ⟨ht, hfile⟩⟩, ?_⟩
        simp only [ho]
        exact result_replace hs

end Edit

end PracticeShell
