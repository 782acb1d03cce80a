import PracticeShell.Proofs.Edit.Removal
import PracticeShell.Proofs.Tree.Alter

/-! Edits of one path. What they need and what they do is described by the node at that path and the
way to it, so two edits at incomparable paths commute. -/
namespace PracticeShell

theorem Session.withDirectories_eq (now : Instant) (above : Path) (name : String)
    (rest : List String) (s : Session) : s.withDirectories now above (name :: rest) =
      { s with root := s.root.update (Tree.withEntry now name (Tree.nested now rest)) above } := by
  induction rest generalizing above name s with
  | nil => rfl
  | cons next rest ih =>
    rw [withDirectories, ih, withEntry, Path.child, Tree.update_append, Tree.update_update]
    simp only [Tree.withEntry_nested]

theorem Edit.exists_result_createAll {now : Instant} {s : Session} (names : List String)
    {above : Path} (hd : s.root.content? above = some none)
    (hway : ∀ q, q <+: names → q ≠ names → s.root.content? (above ++ q) = some none ∨
      s.root.content? (above ++ q) = none) :
    ∃ s', (createAll now above names).result s = (.ok (), s') := by
  induction names generalizing above with
  | nil => exact ⟨s, rfl⟩
  | cons name rest ih =>
    cases hc : s.root.get? (above.child name) with
    | none => exact ⟨_, result_createAll_free rest hd hc⟩
    | some c =>
      rw [result_createAll_cons rest hd, hc]
      simp only [Option.isSome_some, if_true]
      cases rest with
      | nil => exact ⟨s, rfl⟩
      | cons next rest =>
        have hsome : s.root.content? (above.child name) ≠ none := by
          simp [Tree.content?_eq_none_iff, hc]
        have hcd : s.root.content? (above.child name) = some none :=
          (hway [name] (by simp) (by simp)).resolve_right hsome
        refine ih hcd fun q hq hne => ?_
        have h := hway (name :: q) (List.cons_prefix_cons.2 ⟨rfl, hq⟩) (by simpa using hne)
        rwa [Path.child, List.append_assoc]

theorem Edit.exists_result_create {s : Session} {p : Path} (now : Instant) (t : Tree)
    (hway : ∀ q, q <+: p → q ≠ p → s.root.content? q = some none) (hn : s.root.get? p = none)
    (hdepth : p.length ≤ Session.maxDepth) :
    ∃ s', (do guardDepth p 0; link now p t : Edit Unit).result s = (.ok (), s') := by
  rw [result_bind_ok (result_guardDepth_ok hdepth)]
  obtain rfl | ⟨above, name, rfl⟩ := Path.eq_nil_or_child p
  · simp at hn
  · have hne : above ≠ above.child name := fun he =>
      Path.not_child_prefix above name (he ▸ List.prefix_rfl)
    exact ⟨_, result_link (hway above (Path.prefix_child above name) hne) hn⟩

inductive Alteration where
  | createDirectory (p : Path) (parents : Bool)
  | touch (p : Path)
  | write (p : Path) (text : String) (mode : OpenMode)
  | remove (p : Path) (recursive : Bool)

namespace Alteration
variable {now : Instant} {s s' sa sb : Session} {a b : Alteration} {p q : Path}

def path : Alteration → Path
  | createDirectory p _ | touch p | write p _ _ | remove p _ => p

def edit (now : Instant) : Alteration → Edit Unit
  | createDirectory p parents => Edit.createDirectory now p parents
  | touch p => Edit.touch now p
  | write p text mode => Edit.write now p text mode
  | remove p recursive => Edit.remove now p recursive

/-! ### What an edit asks for, and what it leaves -/

def rule (now : Instant) : Alteration → Option Tree → Option Tree
  | createDirectory .., _ => some (Tree.emptyDirectory (Stamps.fresh now))
  | touch _, none => some (Tree.file "" (Stamps.fresh now))
  | touch _, some t => some (t.touch now)
  | write _ text _, none => some (Tree.file text (Stamps.fresh now))
  | write _ text mode, some t => some ((t.write mode text).touch now)
  | remove .., _ => none

def cursorAfter : Alteration → Path → Path
  | remove p _, cursor => if cursor.isAtOrBelow p then p.parent?.getD Path.root else cursor
  | _, cursor => cursor

def after (now : Instant) (a : Alteration) (s : Session) : Session :=
  { s with
    root := (Tree.alter now (a.rule now) a.path (some s.root)).getD s.root
    cursor := a.cursorAfter s.cursor }

def makesParents : Alteration → Bool
  | createDirectory _ parents => parents
  | _ => false

def Suits : Alteration → Option (Option String) → Prop
  | createDirectory .., content => content = none
  | touch _, _ => True
  | write .., content => content ≠ some none
  | remove _ recursive, content => content ≠ none ∧ (content = some none → recursive = true)

/-- The way to the path is made of directories, or of directories still to be made; what is at the
path suits the edit, and no new node lies too deep. -/
structure Allowed (a : Alteration) (s : Session) : Prop where
  way : ∀ q, q <+: a.path → q ≠ a.path →
    s.root.content? q = some none ∨ a.makesParents = true ∧ s.root.content? q = none
  there : a.Suits (s.root.content? a.path)
  depth : s.root.content? a.path = none → a.path.length ≤ Session.maxDepth

theorem after_eq {t : Tree} (h : Tree.alter now (a.rule now) a.path (some s.root) = some t) :
    a.after now s = { s with root := t, cursor := a.cursorAfter s.cursor } := by
  rw [after, h]
  rfl

theorem createDirectory_outcome (now : Instant) (p : Path) (parents : Bool) (s : Session) :
    ((createDirectory p parents).Allowed s ∧ (Edit.createDirectory now p parents).result s =
        (.ok (), (createDirectory p parents).after now s)) ∨
      ∃ x, (Edit.createDirectory now p parents).result s = (.error x, s) := by
  obtain ⟨above, name, rest, rfl, hparents, hd, hn, hdepth, hr⟩ | hr :=
    Edit.createDirectory_cases now p parents s
  swap
  · exact .inr hr
  have hp : above ++ name :: rest = above.child name ++ rest := by simp [Path.child]
  have hfree : ∀ q, above.child name <+: q → s.root.content? q = none := fun q hq =>
    Tree.content?_eq_none_iff.2 (Tree.get?_eq_none_of_prefix hn hq)
  refine .inl ⟨⟨fun q hq hne => ?_, hfree _ ⟨rest, hp.symm⟩, fun _ => hdepth⟩, ?_⟩
  · -- The way leads to the free name first, and from there on through nothing.
    replace hq : q <+: above.child name ++ rest := hp ▸ hq
    replace hne : q ≠ above.child name ++ rest := hp ▸ hne
    by_cases hin : above.child name <+: q
    · refine .inr ⟨?_, hfree q hin⟩
      cases parents with
      | true => rfl
      | false =>
        obtain rfl := hparents rfl
        rw [List.append_nil] at hq hne
        exact absurd (hq.eq_of_length_le hin.length_le) hne
    · have hway : q <+: above.child name :=
        (List.prefix_or_prefix_of_prefix hq (List.prefix_append _ _)).resolve_right hin
      exact .inl (Tree.content?_on_way_to_entry hd hway fun he => hin (he ▸ List.prefix_rfl))
  · have ha : Tree.alter now ((createDirectory (above ++ name :: rest) parents).rule now)
        (above ++ name :: rest) (some s.root) = _ :=
      Tree.alter_withEntry rest hd hn (Tree.alter_none_nested rest)
    rw [hr, Session.withDirectories_eq, after_eq ha]
    rfl

theorem Allowed.of_isSome (hs : (s.root.get? a.path).isSome)
    (hsuits : a.Suits (s.root.content? a.path)) : a.Allowed s where
  way _ hq hne := .inl (Tree.content?_on_way hs hq hne)
  there := hsuits
  depth h := by
    rw [Tree.content?_eq_none_iff] at h
    simp [h] at hs

theorem Allowed.of_admits {above : Path} {name : String} {t : Tree}
    (hpath : a.path = above.child name) (ha : s.Admits above name t)
    (hsuits : a.Suits (s.root.content? a.path)) : a.Allowed s where
  way _ hq hne := .inl (Tree.content?_on_way_to_entry ha.directory (hpath ▸ hq) (hpath ▸ hne))
  there := hsuits
  depth _ := by
    have h := ha.depth
    rw [hpath, Path.length_child]
    omega

theorem after_admits {above : Path} {name : String} {t : Tree} (hpath : a.path = above.child name)
    (hrule : a.rule now none = some t) (hcursor : a.cursorAfter s.cursor = s.cursor)
    (ha : s.Admits above name t) (hn : s.root.get? (above.child name) = none) :
    a.after now s = s.withEntry now above name t := by
  have halter : Tree.alter now (a.rule now) (above.child name) (some s.root) = _ :=
    Tree.alter_withEntry [] ha.directory hn hrule
  rw [after_eq (hpath ▸ halter), hcursor]
  rfl

theorem touch_outcome (now : Instant) (p : Path) (s : Session) :
    ((touch p).Allowed s ∧ (Edit.touch now p).result s = (.ok (), (touch p).after now s)) ∨
      ∃ x, (Edit.touch now p).result s = (.error x, s) := by
  obtain ⟨hs, hr⟩ | ⟨above, name, rfl, ha, hn, hr⟩ | hr := Edit.touch_cases now p s
  · obtain ⟨t, ht⟩ := Option.isSome_iff_exists.1 hs
    have halter : Tree.alter now ((touch p).rule now) p (some s.root) = _ :=
      Tree.alter_of_get? (F := (·.touch now)) ht rfl
    refine .inl ⟨.of_isSome hs trivial, ?_⟩
    rw [hr, after_eq halter]
    rfl
  · refine .inl ⟨.of_admits rfl ha trivial, ?_⟩
    rw [hr, after_admits rfl rfl rfl ha hn]
  · exact .inr hr

theorem write_outcome (now : Instant) (p : Path) (text : String) (mode : OpenMode) (s : Session) :
    ((write p text mode).Allowed s ∧ (Edit.write now p text mode).result s =
        (.ok (), (write p text mode).after now s)) ∨
      ∃ x, (Edit.write now p text mode).result s = (.error x, s) := by
  obtain ⟨⟨old, hold⟩, hr⟩ | ⟨above, name, rfl, ha, hn, hr⟩ | hr :=
    Edit.write_cases now p text mode s
  · obtain ⟨t, ht, -⟩ := Tree.content?_eq_some_some_iff.1 hold
    have halter : Tree.alter now ((write p text mode).rule now) p (some s.root) = _ :=
      Tree.alter_of_get? (F := fun t => (t.write mode text).touch now) ht rfl
    refine .inl ⟨.of_isSome (Option.isSome_iff_exists.2 ⟨t, ht⟩) ?_, ?_⟩
    · simp [Suits, path, hold]
    · rw [hr, after_eq halter]
      rfl
  · refine .inl ⟨.of_admits rfl ha ?_, ?_⟩
    · simp [Suits, path, Tree.content?_eq_none_iff.2 hn]
    · rw [hr, after_admits rfl rfl rfl ha hn]
  · exact .inr hr

theorem remove_outcome (now : Instant) (p : Path) (recursive : Bool) (s : Session) :
    ((remove p recursive).Allowed s ∧ (Edit.remove now p recursive).result s =
        (.ok (), (remove p recursive).after now s)) ∨
      ∃ x, (Edit.remove now p recursive).result s = (.error x, s) := by
  obtain ⟨above, name, rfl, hs, hr⟩ | hr := Edit.remove_cases now p recursive s
  swap
  · exact .inr hr
  obtain ⟨t, ht⟩ := Option.isSome_iff_exists.1 hs
  have hkind := Edit.isFile_or_recursive_of_remove ht hr
  have halter : Tree.alter now ((remove (above.child name) recursive).rule now)
      (above.child name) (some s.root) = _ := Tree.alter_withoutEntry hs fun _ => rfl
  refine .inl ⟨.of_isSome hs ⟨?_, fun hd => ?_⟩, ?_⟩
  · simp [path, Tree.content?_eq_none_iff, ht]
  · obtain ⟨d, hg, hdir⟩ := Tree.content?_eq_some_none_iff.1 hd
    obtain rfl : t = d := Option.some_inj.1 (ht ▸ hg)
    simpa [hdir] using hkind
  · rw [hr, after_eq halter, Session.left_eq]
    rfl

theorem edit_outcome (now : Instant) (a : Alteration) (s : Session) :
    (a.Allowed s ∧ (a.edit now).result s = (.ok (), a.after now s)) ∨
      ∃ x, (a.edit now).result s = (.error x, s) := by
  cases a with
  | createDirectory p parents => exact createDirectory_outcome now p parents s
  | touch p => exact touch_outcome now p s
  | write p text mode => exact write_outcome now p text mode s
  | remove p recursive => exact remove_outcome now p recursive s

theorem Allowed.way_of_not_makesParents (h : a.Allowed s) (hp : a.makesParents = false) :
    ∀ q, q <+: a.path → q ≠ a.path → s.root.content? q = some none := fun q hq hne =>
  (h.way q hq hne).resolve_right fun hmakes => by simp [hp] at hmakes

theorem Allowed.exists_result_createDirectory {parents : Bool} (now : Instant)
    (h : (createDirectory p parents).Allowed s) (hne : p ≠ []) :
    ∃ s', (Edit.createDirectory now p parents).result s = (.ok (), s') := by
  have hn : s.root.get? p = none := Tree.content?_eq_none_iff.1 h.there
  have hdepth : p.length ≤ Session.maxDepth := h.depth h.there
  have hguard : (Edit.guardDepth p 0).result s = (.ok (), s) := Edit.result_guardDepth_ok hdepth
  rw [Edit.createDirectory, Edit.result_bind_ok (Edit.result_get s), Session.get?, hn,
    if_neg (by simp), Edit.result_bind_ok hguard]
  cases parents with
  | true =>
    have hway (q : Path) (hq : q <+: p) (hqp : q ≠ p) :
        s.root.content? q = some none ∨ s.root.content? q = none :=
      (h.way q hq hqp).imp_right And.right
    have hroot : s.root.content? Path.root = some none :=
      (hway [] List.nil_prefix (Ne.symm hne)).resolve_right (by simp [Tree.content?])
    exact Edit.exists_result_createAll p hroot hway
  | false =>
    have hcreate := Edit.exists_result_create (p := p) now (Tree.emptyDirectory (Stamps.fresh now))
      (h.way_of_not_makesParents rfl) hn hdepth
    rwa [Edit.result_bind_ok hguard] at hcreate

theorem Allowed.exists_result (now : Instant) (h : a.Allowed s) (hne : a.path ≠ []) :
    ∃ s', (a.edit now).result s = (.ok (), s') := by
  cases a with
  | createDirectory p parents => exact h.exists_result_createDirectory now hne
  | touch p =>
    rw [edit, Edit.touch, Edit.result_bind_ok (Edit.result_get s), Session.get?]
    cases hp : s.root.get? p with
    | some t => exact ⟨_, rfl⟩
    | none =>
      exact Edit.exists_result_create now _ (h.way_of_not_makesParents rfl) hp
        (h.depth (Tree.content?_eq_none_iff.2 hp))
  | write p text mode =>
    rw [edit, Edit.write, Edit.result_bind_ok (Edit.result_get s), Session.get?]
    cases hp : s.root.get? p with
    | some t =>
      have hfile : t.isDirectory = false := by
        rw [← Bool.not_eq_true]
        exact fun hdir => h.there (Tree.content?_eq_some_none_iff.2 ⟨t, hp, hdir⟩)
      simp only [hfile]
      exact ⟨_, rfl⟩
    | none =>
      exact Edit.exists_result_create now _ (h.way_of_not_makesParents rfl) hp
        (h.depth (Tree.content?_eq_none_iff.2 hp))
  | remove p recursive =>
    obtain ⟨hsome, hkind⟩ := h.there
    obtain ⟨t, ht⟩ := Option.ne_none_iff_exists'.1 (mt Tree.content?_eq_none_iff.2 hsome)
    refine Edit.remove_succeeds_iff.2 ⟨hne, t, ht, ?_⟩
    cases hdir : t.isDirectory with
    | false => exact .inl rfl
    | true => exact .inr (hkind (Tree.content?_eq_some_none_iff.2 ⟨t, ht, hdir⟩))

theorem edit_ok_iff (hne : a.path ≠ []) :
    (a.edit now).result s = (.ok (), s') ↔ a.Allowed s ∧ s' = a.after now s := by
  constructor
  · intro h
    obtain ⟨ha, hr⟩ | ⟨x, hr⟩ := edit_outcome now a s
    · rw [hr] at h
      exact ⟨ha, (Prod.mk.inj h).2.symm⟩
    · simp [hr] at h
  · rintro ⟨ha, rfl⟩
    obtain ⟨s', h⟩ := ha.exists_result now hne
    obtain ⟨-, hr⟩ | ⟨x, hr⟩ := edit_outcome now a s
    · exact hr
    · simp [hr] at h

/-! ### Two edits -/

theorem content?_after (now : Instant) (s : Session) (hne : a.path ≠ []) (hq : ¬ a.path <+: q) :
    (a.after now s).root.content? q = s.root.content? q ∨
      q <+: a.path ∧ s.root.content? q = none ∧ (a.after now s).root.content? q = some none := by
  obtain ⟨t, ht⟩ := Tree.exists_alter now (a.rule now) hne (some s.root)
  have h := Tree.content?_alter now (a.rule now) hq (some s.root)
  rw [after_eq ht]
  simpa [ht] using h

/-- An edit at an incomparable path forbids nothing: above its path it only makes directories. -/
theorem Allowed.after (h : a.Allowed s) (hab : ¬ a.path <+: b.path) (hba : ¬ b.path <+: a.path) :
    a.Allowed (b.after now s) := by
  have hne : b.path ≠ [] := fun hnil => hba (hnil ▸ List.nil_prefix)
  have hpath : (b.after now s).root.content? a.path = s.root.content? a.path :=
    (content?_after now s hne hba).resolve_right fun hway => hab hway.1
  refine ⟨fun q hq hqa => ?_, hpath ▸ h.there, hpath ▸ h.depth⟩
  have hbq : ¬ b.path <+: q := fun hp => hba (hp.trans hq)
  obtain hkept | ⟨-, -, hmade⟩ := content?_after now s hne hbq
  · rw [hkept]
    exact h.way q hq hqa
  · exact .inl hmade

theorem cursorAfter_of_not_below (h : ¬ a.path <+: p) : a.cursorAfter p = p := by
  cases a with
  | remove q recursive => exact if_neg fun hp => h (Path.isAtOrBelow_iff.1 hp)
  | _ => rfl

theorem not_below_cursorAfter (hba : ¬ b.path <+: a.path) (hb : ¬ b.path <+: p) :
    ¬ b.path <+: a.cursorAfter p := by
  cases a with
  | remove q recursive =>
    rw [cursorAfter]
    split
    · exact fun h => hba (h.trans (Path.parent_prefix q))
    · exact hb
  | _ => exact hb

theorem cursorAfter_comm (hab : ¬ a.path <+: b.path) (hba : ¬ b.path <+: a.path) (p : Path) :
    a.cursorAfter (b.cursorAfter p) = b.cursorAfter (a.cursorAfter p) := by
  have hclear {a b : Alteration} (hba : ¬ b.path <+: a.path) (hb : ¬ b.path <+: p) :
      a.cursorAfter (b.cursorAfter p) = b.cursorAfter (a.cursorAfter p) := by
    rw [cursorAfter_of_not_below hb, cursorAfter_of_not_below (not_below_cursorAfter hba hb)]
  by_cases hb : b.path <+: p
  · have ha : ¬ a.path <+: p := fun ha =>
      (List.prefix_or_prefix_of_prefix ha hb).elim hab hba
    exact (hclear hab ha).symm
  · exact hclear hba hb

theorem after_comm (hab : ¬ a.path <+: b.path) (hba : ¬ b.path <+: a.path) :
    a.after now (b.after now s) = b.after now (a.after now s) := by
  have hane : a.path ≠ [] := fun hnil => hab (hnil ▸ List.nil_prefix)
  have hbne : b.path ≠ [] := fun hnil => hba (hnil ▸ List.nil_prefix)
  obtain ⟨t, ht⟩ := Tree.exists_alter now (b.rule now) hbne (some s.root)
  obtain ⟨u, hu⟩ := Tree.exists_alter now (a.rule now) hane (some s.root)
  obtain ⟨v, hv⟩ := Tree.exists_alter now (a.rule now) hane (some t)
  have hvu : Tree.alter now (b.rule now) b.path (some u) = some v := by
    rw [← hv, ← ht, ← hu, Tree.alter_comm hab hba]
  rw [after_eq ht, after_eq hu, after_eq hv, after_eq hvu, cursorAfter_comm hab hba]

/-- Edits at incomparable paths commute: if each can be made, either can be made after the other,
and both orders end in the same session. -/
theorem commute (hab : ¬ a.path <+: b.path) (hba : ¬ b.path <+: a.path)
    (ha : (a.edit now).result s = (.ok (), sa)) (hb : (b.edit now).result s = (.ok (), sb)) :
    ∃ s', (b.edit now).result sa = (.ok (), s') ∧ (a.edit now).result sb = (.ok (), s') := by
  have hane : a.path ≠ [] := fun hnil => hab (hnil ▸ List.nil_prefix)
  have hbne : b.path ≠ [] := fun hnil => hba (hnil ▸ List.nil_prefix)
  obtain ⟨hallowa, rfl⟩ := (edit_ok_iff hane).1 ha
  obtain ⟨hallowb, rfl⟩ := (edit_ok_iff hbne).1 hb
  refine ⟨b.after now (a.after now s), (edit_ok_iff hbne).2 ⟨hallowb.after hba hab, rfl⟩,
    (edit_ok_iff hane).2 ⟨hallowa.after hab hba, ?_⟩⟩
  exact (after_comm hab hba).symm

theorem commute_below_missing_directory :
    let a := createDirectory ["tmp", "new", "left"] true
    let b := createDirectory ["tmp", "new", "right"] true
    let s := Session.seeded Instant.epoch
    ((a.edit Instant.epoch).result s).1 = .ok () ∧ ((b.edit Instant.epoch).result s).1 = .ok () ∧
      ∃ s', (b.edit Instant.epoch).result ((a.edit Instant.epoch).result s).2 = (.ok (), s') ∧
        (a.edit Instant.epoch).result ((b.edit Instant.epoch).result s).2 = (.ok (), s') := by
  intro a b s
  have ha : ((a.edit Instant.epoch).result s).1 = .ok () := by decide +kernel
  have hb : ((b.edit Instant.epoch).result s).1 = .ok () := by decide +kernel
  exact ⟨ha, hb, commute (by decide) (by decide) (Prod.ext ha rfl) (Prod.ext hb rfl)⟩

end Alteration

end PracticeShell
