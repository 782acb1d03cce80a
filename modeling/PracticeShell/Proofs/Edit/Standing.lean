import PracticeShell.Proofs.Edit.Outcome
import PracticeShell.Proofs.Tree.Walk

/-! What a walk reports, compared with the nodes of the tree, which are described here entry by
entry, without a walk. An edit that makes a node passes on what the walk to its parent reports. -/
namespace PracticeShell

namespace Tree
variable {t u : Tree} {p q : Path}

/-- `u` is the node of `t` at a path. -/
inductive Stands (t : Tree) : Path → Tree → Prop
  | root : Stands t Path.root t
  | entry {p : Path} {d c : Tree} {name : String} (h : Stands t p d)
      (hc : d.child? name = some c) : Stands t (p.child name) c

def HasDirectory (t : Tree) (p : Path) : Prop := ∃ d, t.Stands p d ∧ d.isDirectory = true

def HasFile (t : Tree) (p : Path) : Prop := ∃ f, t.Stands p f ∧ f.isDirectory = false

def HasNothing (t : Tree) (p : Path) : Prop := ∀ u, ¬ t.Stands p u

theorem stands_iff : t.Stands p u ↔ t.get? p = some u := by
  constructor
  · intro h
    induction h with
    | root => rfl
    | entry _ hc ih => rw [get?_child, ih, Option.bind_some, hc]
  · intro h
    -- The relation adds names at the end of the path, where the walk takes them from the front.
    induction p using List.reverseRecOn generalizing u with
    | nil =>
      obtain rfl : t = u := by simpa using h
      exact .root
    | append_singleton above name ih =>
      have hchild : t.get? (Path.child above name) = some u := h
      rw [get?_child] at hchild
      obtain ⟨d, hd, hc⟩ := Option.bind_eq_some_iff.1 hchild
      exact .entry (ih hd) hc

theorem hasDirectory_iff : t.HasDirectory p ↔ t.content? p = some none := by
  simp only [HasDirectory, stands_iff, content?_eq_some_none_iff]

theorem hasFile_iff : t.HasFile p ↔ ∃ text, t.content? p = some (some text) := by
  simp only [HasFile, stands_iff, content?_eq_some_some_iff]
  constructor
  · rintro ⟨f, hf, hkind⟩
    obtain ⟨text, htext⟩ := exists_content? hf hkind
    exact ⟨text, content?_eq_some_some_iff.1 htext⟩
  · rintro ⟨text, f, hf, hcontent⟩
    exact ⟨f, hf, by simp [isDirectory_eq, hcontent]⟩

theorem hasNothing_iff : t.HasNothing p ↔ t.get? p = none := by
  simp only [HasNothing, stands_iff, Option.eq_none_iff_forall_ne_some, ne_eq]

/-! ### The walk -/

theorem find_eq_ok_iff_way : t.find p = .ok u ↔
    (∀ q, q <+: p → q ≠ p → t.HasDirectory q) ∧ t.Stands p u := by
  rw [find_eq_ok_iff, stands_iff]
  constructor
  · intro h
    have hs : (t.get? p).isSome := by simp [h]
    exact ⟨fun q hq hne => hasDirectory_iff.2 (content?_on_way hs hq hne), h⟩
  · exact And.right

theorem obstacle_iff_of_missing (hn : t.get? q = none) : t.Obstacle p q ↔
    q <+: p ∧ ∃ above, q.parent? = some above ∧ t.content? above = some none := by
  obtain rfl | ⟨above, name, rfl⟩ := Path.eq_nil_or_child q
  · simp at hn
  have hne : above ≠ above.child name := fun he =>
    Path.not_child_prefix above name (he ▸ List.prefix_rfl)
  rw [Path.parent?_child]
  constructor
  · intro h
    exact ⟨h.onPath, above, rfl, h.way above (Path.prefix_child above name) hne⟩
  · rintro ⟨hq, parent, hparent, hd⟩
    obtain rfl := Option.some.inj hparent
    exact ⟨hq, fun r hr hne => content?_on_way_to_entry hd hr hne, by simp [content?, hn]⟩

theorem find_eq_notFound_iff_parent : t.find p = .error (.notFound q) ↔
    q <+: p ∧ t.HasNothing q ∧ ∃ above, q.parent? = some above ∧ t.HasDirectory above := by
  simp only [find_eq_notFound_iff, hasNothing_iff, hasDirectory_iff]
  constructor
  · rintro ⟨hq, hn⟩
    obtain ⟨honPath, hparent⟩ := (obstacle_iff_of_missing hn).1 hq
    exact ⟨honPath, hn, hparent⟩
  · rintro ⟨honPath, hn, hparent⟩
    exact ⟨(obstacle_iff_of_missing hn).2 ⟨honPath, hparent⟩, hn⟩

end Tree

/-! ### Edits that make a node -/

namespace Edit
variable {now : Instant} {s : Session} {p above : Path} {name : String} {t : Tree} {x : FileError}

/-- `x` is the reason why `p` is no directory. -/
def Refuses (s : Session) (p : Path) (x : FileError) : Prop :=
  s.find p = .error x ∨ s.root.HasFile p ∧ x = .notADirectory p

theorem exists_refuses (h : ¬ s.root.HasDirectory p) :
    ∃ x, Refuses s p x ∧ (directory p).result s = (.error x, s) := by
  cases hf : s.find p with
  | error x => exact ⟨x, .inl hf, by simp [hf, Except.bind]⟩
  | ok t =>
    have ht : s.root.Stands p t := Tree.stands_iff.2 (Tree.find_eq_ok_iff.1 hf)
    have hfile : t.isDirectory = false := by
      rw [← Bool.not_eq_true]
      exact fun hdir => h ⟨t, ht, hdir⟩
    exact ⟨.notADirectory p, .inr ⟨⟨t, ht, hfile⟩, rfl⟩, by simp [hf, Except.bind, hfile]⟩

theorem result_create_error (hdepth : (above.child name).length ≤ Session.maxDepth)
    (h : (directory above).result s = (.error x, s)) :
    (do guardDepth (above.child name) 0; link now (above.child name) t : Edit Unit).result s =
      (.error x, s) := by
  have hguard : (guardDepth (above.child name) 0).result s = (.ok (), s) :=
    result_guardDepth_ok hdepth
  rw [result_bind_ok hguard]
  simp only [link, Path.parent?_child, Path.name?_child]
  exact result_bind_error h _

theorem exists_refuses_each (now : Instant) (hparent : p.parent? = some above)
    (hdepth : p.length ≤ Session.maxDepth) (h : ¬ s.root.HasDirectory above) :
    ∃ x, Refuses s above x ∧ (touch now p).result s = (.error x, s) ∧
      (∀ text mode, (write now p text mode).result s = (.error x, s)) ∧
      (createDirectory now p false).result s = (.error x, s) := by
  obtain rfl | ⟨parent, name, rfl⟩ := Path.eq_nil_or_child p
  · simp [Path.parent?] at hparent
  obtain rfl : parent = above := by simpa using hparent
  have hn : s.get? (parent.child name) = none := by
    rw [← Option.not_isSome_iff_eq_none]
    exact fun hs => h (Tree.hasDirectory_iff.2 (Tree.content?_above hs))
  obtain ⟨x, hx, hr⟩ := exists_refuses h
  refine ⟨x, hx, ?_, fun text mode => ?_, ?_⟩
  · rw [touch, result_bind_ok (result_get s), hn]
    exact result_create_error hdepth hr
  · rw [write, result_bind_ok (result_get s), hn]
    exact result_create_error hdepth hr
  · rw [createDirectory, result_bind_ok (result_get s), hn]
    exact result_create_error hdepth hr

end Edit

/-- A walk finds the node at its path, or it reports the first place on the path that is no
directory: missing, or a file. The edits that make a node report the same for the parent. -/
theorem Session.walk_reports (now : Instant) (s : Session) (p : Path) :
    (∀ t, s.find p = .ok t ↔
      (∀ q, q <+: p → q ≠ p → s.root.HasDirectory q) ∧ s.root.Stands p t) ∧
    (∀ q, s.find p = .error (.notFound q) ↔
      q <+: p ∧ s.root.HasNothing q ∧
        ∃ above, q.parent? = some above ∧ s.root.HasDirectory above) ∧
    (∀ q, s.find p = .error (.notADirectory q) ↔ q <+: p ∧ q ≠ p ∧ s.root.HasFile q) ∧
    ∀ above, p.parent? = some above → p.length ≤ maxDepth → ¬ s.root.HasDirectory above →
      ∃ x, Edit.Refuses s above x ∧ (Edit.touch now p).result s = (.error x, s) ∧
        (∀ text mode, (Edit.write now p text mode).result s = (.error x, s)) ∧
        (Edit.createDirectory now p false).result s = (.error x, s) := by
  refine ⟨fun t => Tree.find_eq_ok_iff_way, fun q => Tree.find_eq_notFound_iff_parent,
    fun q => ?_, fun above => Edit.exists_refuses_each now⟩
  rw [Tree.hasFile_iff]
  exact Tree.find_eq_notADirectory_iff

theorem Session.walk_reports_in_seeded :
    let s := seeded Instant.epoch
    let lost : Path := ["home", "user", "lost"]
    let file : Path := ["home", "user", "welcome.txt"]
    s.find (lost.child "old") = .error (.notFound lost) ∧
      (Edit.touch Instant.epoch ((lost.child "old").child "notes")).result s =
        (.error (.notFound lost), s) ∧
      (Edit.createDirectory Instant.epoch (file.child "old") false).result s =
        (.error (.notADirectory file), s) := by
  intro s lost file
  have hlost : s.root.HasNothing lost := Tree.hasNothing_iff.2 (by decide +kernel)
  have hhome : s.root.HasDirectory Path.home := Tree.hasDirectory_iff.2 (by decide +kernel)
  have hwalk := ((walk_reports Instant.epoch s (lost.child "old")).2.1 lost).2
    ⟨Path.prefix_child lost "old", hlost, Path.home, rfl, hhome⟩
  obtain ⟨x, -, htouch, -⟩ := (walk_reports Instant.epoch s ((lost.child "old").child "notes")).2.2.2
    (lost.child "old") rfl (by decide) (by rw [Tree.hasDirectory_iff]; decide +kernel)
  obtain ⟨y, -, -, -, hcreate⟩ := (walk_reports Instant.epoch s (file.child "old")).2.2.2
    file rfl (by decide) (by rw [Tree.hasDirectory_iff]; decide +kernel)
  have hx : ((Edit.touch Instant.epoch ((lost.child "old").child "notes")).result s).1 =
      .error (.notFound lost) := by decide +kernel
  have hy : ((Edit.createDirectory Instant.epoch (file.child "old") false).result s).1 =
      .error (.notADirectory file) := by decide +kernel
  have hsame := congrArg Prod.snd htouch
  have hsame' := congrArg Prod.snd hcreate
  exact ⟨hwalk, Prod.ext hx hsame, Prod.ext hy hsame'⟩

end PracticeShell
