import PracticeShell.Proofs.Edit.Admission
import PracticeShell.Proofs.Edit.Commutation

/-! Moves back. A node that was moved to a free place can be moved back, and the tree is then as it
was, but for the times of the two directories. -/
namespace PracticeShell

namespace Tree
variable {t u : Tree} {p q r home above : Path} {own name : String} {now later : Instant}

def touchAt (now : Instant) (p : Path) (t : Tree) : Tree := t.update (·.touch now) p

theorem label?_touchAt : (t.touchAt now p).label? q =
    if q = p then (t.label? q).map (Label.touch now) else t.label? q := by
  rw [touchAt]
  split
  · next he =>
    subst he
    rw [label?, get?_update_self, label?, Option.map_map, Option.map_map]
    congr 1
    funext d
    exact label_touch
  · next hne => exact label?_update_of_ne (fun d name => child?_touch now) hne

/-- Puts `u` under `name` into the directory `above`, then takes its old entry `own` out of the
directory `home`. -/
def relocate (now : Instant) (home : Path) (own : String) (above : Path) (name : String)
    (t u : Tree) : Tree :=
  (t.update (withEntry now name u) above).update (withoutEntry now own) home

theorem get?_relocate_source :
    (t.relocate now home own above name u).get? (home.child own ++ r) = none :=
  get?_withoutEntry_below

theorem get?_relocate_target (hd : t.content? above = some none)
    (hsource : ¬ home.child own <+: above.child name ++ r) (hhome : ¬ above.child name <+: home) :
    (t.relocate now home own above name u).get? (above.child name ++ r) = u.get? r := by
  have hhome' : ¬ above.child name ++ r <+: home := fun h => hhome ((List.prefix_append _ _).trans h)
  rw [relocate, get?_update_entry (fun d _ ho => child?_withoutEntry_of_ne ho d) hsource hhome']
  exact get?_withEntry_below hd

theorem label?_relocate (hsource : ¬ home.child own <+: q) (htarget : ¬ above.child name <+: q) :
    (t.relocate now home own above name u).label? q =
      if q = home ∨ q = above then (t.label? q).map (Label.touch now) else t.label? q := by
  have hput : (t.update (withEntry now name u) above).label? q =
      if q = above then (t.label? q).map (Label.touch now) else t.label? q := by
    split
    · next he =>
      subst he
      exact label?_withEntry_above
    · next hne => exact label?_withEntry htarget hne
  rw [relocate]
  by_cases he : q = home
  · subst he
    rw [label?_withoutEntry_above, hput]
    simp only [true_or, if_true]
    split
    · rw [Option.map_map]
      rfl
    · rfl
  · rw [label?_withoutEntry hsource he, hput]
    simp only [he, false_or]

theorem content?_relocate_home (hu : t.get? (home.child own) = some u)
    (hhome : ¬ above.child name <+: home) :
    (t.relocate now home own above name u).content? home = some none := by
  rw [relocate, content?_withoutEntry (Path.not_child_prefix home own), content?_withEntry hhome]
  exact content?_above (Option.isSome_iff_exists.2 ⟨u, hu⟩)

/-- A node moved away and back leaves the tree as it was, but for the times of the two
directories. -/
theorem relocate_relocate (hu : t.get? (home.child own) = some u)
    (hfree : t.get? (above.child name) = none) (hinto : ¬ home.child own <+: above.child name) :
    (t.relocate now home own above name u).relocate later above name home own u =
      (t.touchAt later home).touchAt later above := by
  have hback : ¬ above.child name <+: home.child own := by
    intro h
    have hgone := get?_eq_none_of_prefix hfree h
    simp [hgone] at hu
  have hhome : ¬ above.child name <+: home := fun h => hback (h.trans (Path.prefix_child _ _))
  have habove : ¬ home.child own <+: above := fun h => hinto (h.trans (Path.prefix_child _ _))
  refine ext_label? fun q => ?_
  rw [label?_touchAt, label?_touchAt]
  by_cases htarget : above.child name <+: q
  · obtain ⟨r, rfl⟩ := htarget
    have hnone : t.label? (above.child name ++ r) = none := by
      simp [label?, get?_eq_none_of_prefix hfree (List.prefix_append _ r)]
    rw [label?, get?_relocate_source, hnone]
    simp
  by_cases hsource : home.child own <+: q
  · obtain ⟨r, rfl⟩ := hsource
    have hdir : (t.relocate now home own above name u).content? home = some none :=
      content?_relocate_home hu hhome
    have hne : home.child own ++ r ≠ home := fun h =>
      Path.not_child_prefix home own ⟨r, h⟩
    have hne' : home.child own ++ r ≠ above := fun h => habove ⟨r, h⟩
    rw [label?, get?_relocate_target hdir htarget habove, if_neg hne', if_neg hne, label?,
      get?_append, hu]
    rfl
  · have htwice : Label.touch later ∘ Label.touch now = Label.touch later := rfl
    have hlater : Label.touch later ∘ Label.touch later = Label.touch later := rfl
    rw [label?_relocate htarget hsource, label?_relocate hsource htarget]
    split_ifs <;> simp_all [Option.map_map]

end Tree

namespace Edit
variable {now later : Instant} {s s' : Session} {source destination target : Path}

theorem root_withEntry_withoutEntry_left (s : Session) (home : Path) (own : String) (above : Path)
    (name : String) (t : Tree) (p : Path) :
    (((s.withEntry now above name t).withoutEntry now home own).left p).root =
      s.root.relocate now home own above name t := by
  rw [Session.root_left]
  rfl

/-- A move to a free place is undone by the reverse move, but for the times of the two
directories. -/
theorem move_undone (later : Instant) (hdepth : s.root.node.height ≤ Session.maxDepth)
    (h : (move now source destination).result s = (.ok target, s'))
    (hfree : s.get? target = none) :
    ∃ home above s'', source.parent? = some home ∧ target.parent? = some above ∧
      (move later target source).result s' = (.ok source, s'') ∧
      s''.root = (s.root.touchAt later home).touchAt later above := by
  obtain ⟨t, home, own, above, name, rfl, ht, -, hne, hinto, ha, hr⟩ | ⟨x, hr⟩ :=
    move_cases now source destination s
  swap
  · simp [hr] at h
  obtain ⟨rfl, hs'⟩ : above.child name = target ∧
      ((s.withEntry now above name t).withoutEntry now home own).left (home.child own) = s' := by
    simpa [hr] using h
  have hroot : s'.root = s.root.relocate now home own above name t := by
    rw [← hs', root_withEntry_withoutEntry_left]
  have hback : ¬ above.child name <+: home.child own := ha.not_prefix (by simp [ht]) hne
  have hhome : ¬ above.child name <+: home := fun hp => hback (hp.trans (Path.prefix_child _ _))
  have hthere : s'.get? (above.child name) = some t := by
    have htarget : (s.root.relocate now home own above name t).get? (above.child name ++ []) =
        t.get? [] :=
      Tree.get?_relocate_target ha.directory (by rwa [List.append_nil]) hhome
    rwa [List.append_nil, ← hroot] at htarget
  have hgone : s'.get? (home.child own) = none := by
    have hsource : (s.root.relocate now home own above name t).get? (home.child own ++ []) = none :=
      Tree.get?_relocate_source
    rwa [List.append_nil, ← hroot] at hsource
  have hlands : s'.landing? (above.child name) (home.child own) = some (home.child own) := by
    rw [Session.landing?, Session.isDirectory, hgone]
    rfl
  have hplace : s'.Admits home own t := by
    have hheight := Tree.length_add_height_le ht
    rw [Path.length_child] at hheight
    refine ⟨?_, by omega, .inl hgone⟩
    rw [hroot]
    exact Tree.content?_relocate_home ht hhome
  refine ⟨home, above, _, Path.parent?_child home own, Path.parent?_child above name,
    result_move hthere hlands (Ne.symm hne)
      (fun hinto' => hback (Path.isAtOrBelow_iff.1 hinto'.2)) hplace, ?_⟩
  rw [root_withEntry_withoutEntry_left, hroot]
  exact Tree.relocate_relocate ht hfree hinto

theorem move_undone_documents :
    let now : Instant := ⟨1, 0, by decide, by decide⟩
    let later : Instant := ⟨2, 0, by decide, by decide⟩
    let s := Session.seeded Instant.epoch
    let documents := ["home", "user", "documents"]
    let r := (move now documents ["tmp"]).result s
    r.1 = .ok ["tmp", "documents"] ∧ ∃ s'',
      (move later ["tmp", "documents"] documents).result r.2 = (.ok documents, s'') ∧
        s''.root = (s.root.touchAt later ["home", "user"]).touchAt later ["tmp"] := by
  intro now later s documents r
  have hr : r.1 = .ok ["tmp", "documents"] := by decide +kernel
  obtain ⟨home, above, s'', hhome, habove, hback, hroot⟩ :=
    move_undone later (by decide +kernel) (Prod.ext hr rfl) (by decide +kernel)
  obtain rfl : ["home", "user"] = home := Option.some_inj.1 hhome
  obtain rfl : ["tmp"] = above := Option.some_inj.1 habove
  exact ⟨hr, s'', hback, hroot⟩

end Edit

end PracticeShell
