import PracticeShell.Proofs.Edit.Operation
import PracticeShell.Proofs.Tree.Shape

/-! Copies and moves that succeed. A copy is the subtree as it was before, with new times; a move is
the same subtree, which is then nowhere else. All other paths keep what they had. -/
namespace PracticeShell

namespace Tree
variable {t u : Tree} {p q : Path}

theorem label_withStamps (t : Tree) (s : Stamps) :
    (t.withStamps s).label = ⟨t.node.content?, s⟩ := by
  have hcontent : (t.node.withStamps s).content? = t.node.content? := node_content?_withStamps s
  have hstamps : (t.node.withStamps s).stamps = s := by
    cases t.node <;> simp [Node.withStamps, Node.stamps]
  rw [label, withStamps, hcontent, hstamps]

theorem label?_withStamps (s : Stamps) :
    (t.withStamps s).label? q = (t.content? q).map fun content => ⟨content, s⟩ := by
  rw [label?, get?_withStamps, content?, Option.map_map, Option.map_map]
  congr 1
  funext u
  exact label_withStamps u s

theorem label?_append (h : t.get? p = some u) : t.label? (p ++ q) = u.label? q := by
  rw [label?, get?_append, h]
  rfl

end Tree

namespace Edit
variable {now : Instant} {s s' : Session} {source destination target : Path}

/-- A copy is a snapshot of the whole subtree, even if it lands inside of it. Of the other nodes
only the directory that it lands in is touched. -/
theorem copy_snapshot (h : (copy now source destination).result s = (.ok target, s')) :
    (∃ t, s.get? source = some t ∧ ∀ q, s'.root.label? (target ++ q) =
      (t.content? q).map fun content => ⟨content, ⟨now, now⟩⟩) ∧
    (∀ q, q.isAtOrBelow target = false → s'.root.label? q =
      if target.parent? = some q then (s.root.label? q).map (Label.touch now)
      else s.root.label? q) ∧
    s'.cursor = s.cursor ∧ s'.history = s.history := by
  obtain ⟨t, above, name, ht, -, -, ha, hr⟩ | ⟨x, hr⟩ := copy_cases now source destination s
  swap
  · simp [hr] at h
  obtain ⟨rfl, rfl⟩ : above.child name = target ∧
      s.withEntry now above name (t.withStamps (Stamps.fresh now)) = s' := by
    simpa [hr] using h
  refine ⟨⟨t, ht, fun q => ?_⟩, fun q hq => ?_, rfl, rfl⟩
  · rw [Tree.label?_append ha.get?_withEntry, Tree.label?_withStamps]
    rfl
  · have hbelow := Path.isAtOrBelow_eq_false_iff.1 hq
    rw [Path.parent?_child]
    split
    · next hparent =>
      obtain rfl := Option.some_inj.1 hparent
      exact Tree.label?_withEntry_above
    · next hparent =>
      exact Tree.label?_withEntry hbelow fun he => hparent (he ▸ rfl)

theorem copy_snapshot_inside_source :
    let s := Session.seeded Instant.epoch
    let r := (copy Instant.epoch ["home", "user"] ["home", "user", "documents"]).result s
    let target := ["home", "user", "documents", "user"]
    r.1 = .ok target ∧ (∃ t, s.get? ["home", "user"] = some t ∧ ∀ q, r.2.root.label? (target ++ q) =
      (t.content? q).map fun content => ⟨content, ⟨Instant.epoch, Instant.epoch⟩⟩) := by
  intro s r target
  have hr : r.1 = .ok target := by decide +kernel
  exact ⟨hr, (copy_snapshot (Prod.ext hr rfl)).1⟩

/-- A move takes the whole subtree along, leaves nothing of it behind, and leaves the rest where it
was. -/
theorem move_relocates (h : (move now source destination).result s = (.ok target, s')) :
    (∃ t, s.get? source = some t ∧ s'.get? target = some t) ∧
    (∀ q, q.isAtOrBelow source = true → s'.get? q = none) ∧
    (∀ q, q.isAtOrBelow source = false → q.isAtOrBelow target = false →
      s'.root.content? q = s.root.content? q) ∧
    (∃ parent, source.parent? = some parent ∧
      s'.cursor = if s.cursor.isAtOrBelow source then parent else s.cursor) ∧
    s'.history = s.history := by
  obtain ⟨t, home, own, above, name, rfl, ht, -, hne, hnot, ha, hr⟩ | ⟨x, hr⟩ :=
    move_cases now source destination s
  swap
  · simp [hr] at h
  obtain ⟨rfl, rfl⟩ : above.child name = target ∧
      ((s.withEntry now above name t).withoutEntry now home own).left (home.child own) = s' := by
    simpa [hr] using h
  have hsource : ¬ above.child name <+: home.child own := ha.not_prefix (by simp [ht]) hne
  have hhome : ¬ above.child name <+: home := fun hp => hsource (hp.trans (Path.prefix_child _ _))
  simp only [Session.get?, Session.root_left, Session.withoutEntry]
  refine ⟨⟨t, ht, ?target⟩, fun q hq => ?source, fun q hq hq' => ?elsewhere,
    ⟨home, Path.parent?_child home own, ?cursor⟩, ?history⟩
  case target =>
    rw [Tree.get?_update_entry (fun d _ ho => Tree.child?_withoutEntry_of_ne ho d) hnot hhome]
    exact ha.get?_withEntry
  case source =>
    obtain ⟨r, rfl⟩ := Path.isAtOrBelow_iff.1 hq
    exact Tree.get?_withoutEntry_below
  case elsewhere =>
    rw [Tree.content?_withoutEntry (Path.isAtOrBelow_eq_false_iff.1 hq)]
    exact Tree.content?_withEntry (Path.isAtOrBelow_eq_false_iff.1 hq')
  case cursor =>
    rw [Session.cursor_left, Path.parent?_child]
    rfl
  case history =>
    rw [Session.history_left]
    rfl

theorem move_relocates_cursor :
    let documents := ["home", "user", "documents"]
    let s := { Session.seeded Instant.epoch with cursor := documents }
    let r := (move Instant.epoch documents ["tmp"]).result s
    r.1 = .ok ["tmp", "documents"] ∧
      (∃ t, s.get? documents = some t ∧ r.2.get? ["tmp", "documents"] = some t) ∧
      r.2.cursor = Path.home := by
  intro documents s r
  have hr : r.1 = .ok ["tmp", "documents"] := by decide +kernel
  obtain ⟨hmoved, -, -, ⟨parent, hparent, hcursor⟩, -⟩ := move_relocates (Prod.ext hr rfl)
  obtain rfl : Path.home = parent := Option.some_inj.1 hparent
  exact ⟨hr, hmoved, hcursor⟩

end Edit

end PracticeShell
