import PracticeShell.Proofs.Edit.Operation
import PracticeShell.Proofs.Tree.Timeless

/-! When a copy and a move succeed. Both need a source that is there and a landing place, other than
the source, that can take it. A move also needs a source that is not the root, nor a directory on
the way to the landing place. -/
namespace PracticeShell

namespace Session
variable {s : Session} {above p : Path} {name : String} {t : Tree} {stamps : Stamps}

/-- A place that can take a node: in a directory that is there, free or, for a file, held by a file,
and not too far down for what is below the node. -/
structure Receives (s : Session) (p : Path) (t : Tree) : Prop where
  parent : ∃ above, p.parent? = some above ∧ s.isDirectory above = true
  free : s.get? p = none ∨ t.isDirectory = false ∧ s.isFile p = true
  depth : p.length + t.node.height ≤ maxDepth

instance : Decidable (s.Receives p t) :=
  decidable_of_iff ((∃ above ∈ p.parent?, s.isDirectory above = true) ∧
      (s.get? p = none ∨ t.isDirectory = false ∧ s.isFile p = true) ∧
      p.length + t.node.height ≤ maxDepth)
    ⟨fun h => ⟨h.1, h.2.1, h.2.2⟩, fun h => ⟨h.parent, h.free, h.depth⟩⟩

theorem receives_child_iff : s.Receives (above.child name) t ↔ s.Admits above name t := by
  constructor
  · intro h
    obtain ⟨parent, hparent, hdir⟩ := h.parent
    obtain rfl : above = parent := by simpa using hparent
    exact ⟨isDirectory_iff.1 hdir, by simpa using h.depth,
      h.free.imp_right fun ⟨ht, hp⟩ => ⟨ht, isFile_iff.1 hp⟩⟩
  · intro h
    exact ⟨⟨above, Path.parent?_child above name, isDirectory_iff.2 h.directory⟩,
      h.free.imp_right fun ⟨ht, hp⟩ => ⟨ht, isFile_iff.2 hp⟩, by simpa using h.depth⟩

theorem Receives.exists_child (h : s.Receives p t) :
    ∃ above name, p = above.child name ∧ s.Admits above name t := by
  obtain rfl | ⟨above, name, rfl⟩ := Path.eq_nil_or_child p
  · obtain ⟨parent, hparent, -⟩ := h.parent
    simp [Path.parent?] at hparent
  · exact ⟨above, name, rfl, receives_child_iff.1 h⟩

/-- The place of a node taken from `source`: under its own name in a directory that is there, else the
destination itself. -/
def target (s : Session) (source destination : Path) : Path :=
  if s.isDirectory destination then destination ++ source.name?.toList else destination

theorem landing?_eq_some_iff {source destination : Path} :
    s.landing? source destination = some p ↔
      ¬ (source = Path.root ∧ s.isDirectory destination = true) ∧
        s.target source destination = p := by
  rw [landing?, target]
  cases s.isDirectory destination with
  | false => simp
  | true =>
    obtain rfl | ⟨home, own, rfl⟩ := Path.eq_nil_or_child source
    · simp [Path.name?, Path.root]
    · simp [Path.child, Path.name?, Path.root]

theorem receives_withStamps_iff : s.Receives p (t.withStamps stamps) ↔ s.Receives p t := by
  have hheight : (t.withStamps stamps).node.height = t.node.height := Node.height_withStamps t.node
  constructor
  · intro h
    exact ⟨h.parent, by simpa using h.free, hheight ▸ h.depth⟩
  · intro h
    exact ⟨h.parent, by simpa using h.free, hheight.symm ▸ h.depth⟩

end Session

namespace Edit
variable {now : Instant} {s s' : Session} {source destination target above home : Path}
  {name own : String} {t : Tree}

theorem result_install (ha : s.Admits above name t) :
    (install now (above.child name) t).result s = (.ok (), s.withEntry now above name t) := by
  have hdepth : (above.child name).length + t.node.height ≤ Session.maxDepth := by
    simpa using ha.depth
  rw [install, result_bind_ok (result_guardDepth_ok hdepth), result_bind_ok (result_get s)]
  obtain hn | ⟨ht, text, htext⟩ := ha.free
  · rw [Session.get?, hn]
    exact result_link ha.directory hn
  · obtain ⟨old, hold, hcontent⟩ := Tree.content?_eq_some_some_iff.1 htext
    have hs : (s.root.get? (above.child name)).isSome := by simp [hold]
    rw [Session.get?, hold]
    simp only [ht, Tree.isDirectory_eq, hcontent]
    exact result_replace hs

theorem install_succeeds_iff :
    (∃ s', (install now target t).result s = (.ok (), s')) ↔ s.Receives target t := by
  constructor
  · rintro ⟨s', h⟩
    obtain ⟨above, name, rfl, ha, -⟩ | ⟨x, hr⟩ := install_cases now target t s
    · exact Session.receives_child_iff.2 ha
    · simp [hr] at h
  · intro hreceives
    obtain ⟨above, name, rfl, ha⟩ := hreceives.exists_child
    exact ⟨_, result_install ha⟩

theorem result_landing_ok (hl : s.landing? source destination = some target) :
    (landing source destination).result s = (.ok target, s) := by
  rw [result_landing, hl]
  rfl

theorem result_copy (ht : s.get? source = some t)
    (hl : s.landing? source destination = some (above.child name))
    (hne : above.child name ≠ source) (ha : s.Admits above name (t.withStamps (Stamps.fresh now))) :
    (copy now source destination).result s = (.ok (above.child name),
      s.withEntry now above name (t.withStamps (Stamps.fresh now))) := by
  rw [copy, result_bind_ok (result_find_ok ht), result_bind_ok (result_landing_ok hl), if_neg hne]
  exact result_bind_ok (result_install ha) _

theorem result_move (ht : s.get? (home.child own) = some t)
    (hl : s.landing? (home.child own) destination = some (above.child name))
    (hne : above.child name ≠ home.child own)
    (hinto : ¬ (t.isDirectory = true ∧ (above.child name).isAtOrBelow (home.child own) = true))
    (ha : s.Admits above name t) :
    (move now (home.child own) destination).result s = (.ok (above.child name),
      ((s.withEntry now above name t).withoutEntry now home own).left (home.child own)) := by
  have hs : ((s.withEntry now above name t).root.get? (home.child own)).isSome :=
    ha.isSome_withEntry (Option.isSome_iff_exists.2 ⟨t, ht⟩)
  rw [move, if_neg (by simp [Path.child]), result_bind_ok (result_find_ok ht),
    result_bind_ok (result_landing_ok hl), if_neg hne, if_neg (by simpa using hinto)]
  exact (result_bind_ok (result_install ha) _).trans (result_bind_ok (result_unlink hs) _)

theorem copy_succeeds_iff (now : Instant) (s : Session) (source destination : Path) :
    (∃ p s', (copy now source destination).result s = (.ok p, s')) ↔
      ∃ t, s.get? source = some t ∧
        ¬ (source = Path.root ∧ s.isDirectory destination = true) ∧
        s.target source destination ≠ source ∧ s.Receives (s.target source destination) t := by
  constructor
  · rintro ⟨p, s', h⟩
    obtain ⟨t, above, name, ht, hl, hne, ha, -⟩ | ⟨x, hr⟩ := copy_cases now source destination s
    · obtain ⟨hlands, htarget⟩ := Session.landing?_eq_some_iff.1 hl
      rw [htarget]
      have hreceives := Session.receives_withStamps_iff.1 (Session.receives_child_iff.2 ha)
      exact ⟨t, ht, hlands, hne, hreceives⟩
    · simp [hr] at h
  · rintro ⟨t, ht, hlands, hne, hreceives⟩
    have hstamped : s.Receives (s.target source destination) (t.withStamps (Stamps.fresh now)) :=
      Session.receives_withStamps_iff.2 hreceives
    obtain ⟨above, name, htarget, ha⟩ := hstamped.exists_child
    have hl := Session.landing?_eq_some_iff.2 ⟨hlands, htarget⟩
    exact ⟨_, _, result_copy ht hl (htarget ▸ hne) ha⟩

theorem move_succeeds_iff (now : Instant) (s : Session) (source destination : Path) :
    (∃ p s', (move now source destination).result s = (.ok p, s')) ↔
      source ≠ Path.root ∧ ∃ t, s.get? source = some t ∧
        s.target source destination ≠ source ∧
        ¬ (t.isDirectory = true ∧ (s.target source destination).isAtOrBelow source = true) ∧
        s.Receives (s.target source destination) t := by
  constructor
  · rintro ⟨p, s', h⟩
    obtain ⟨t, home, own, above, name, rfl, ht, hl, hne, hnot, ha, -⟩ | ⟨x, hr⟩ :=
      move_cases now source destination s
    · obtain ⟨-, htarget⟩ := Session.landing?_eq_some_iff.1 hl
      rw [htarget]
      exact ⟨by simp [Path.child, Path.root], t, ht, hne,
        fun hinto => hnot (Path.isAtOrBelow_iff.1 hinto.2), Session.receives_child_iff.2 ha⟩
    · simp [hr] at h
  · rintro ⟨hroot, t, ht, hne, hinto, hreceives⟩
    obtain ⟨above, name, htarget, ha⟩ := hreceives.exists_child
    have hl := Session.landing?_eq_some_iff.2 ⟨fun h => hroot h.1, htarget⟩
    rw [htarget] at hne hinto
    obtain rfl | ⟨home, own, rfl⟩ := Path.eq_nil_or_child source
    · exact absurd rfl hroot
    · exact ⟨_, _, result_move ht hl hne hinto ha⟩

/-- Exactly when a move and a copy succeed. Only a copy may go below its own source, and only a copy
may take the root, though not into an existing directory. -/
theorem transfers_succeed_iff (now : Instant) (s : Session) (source destination : Path) :
    let target := s.target source destination
    ((∃ p s', (move now source destination).result s = (.ok p, s')) ↔
      source ≠ Path.root ∧ ∃ t, s.get? source = some t ∧ target ≠ source ∧
        ¬ (t.isDirectory = true ∧ target.isAtOrBelow source = true) ∧ s.Receives target t) ∧
    ((∃ p s', (copy now source destination).result s = (.ok p, s')) ↔
      ∃ t, s.get? source = some t ∧
        ¬ (source = Path.root ∧ s.isDirectory destination = true) ∧ target ≠ source ∧
        s.Receives target t) := by
  intro target
  constructor
  · exact move_succeeds_iff now s source destination
  · exact copy_succeeds_iff now s source destination

end Edit

end PracticeShell
