import PracticeShell.Proofs.Edit.Commutation

/-! The times that an operation leaves. Nodes that are not new keep the time at which they were
made. Modified are only the node that is touched or written, and the directories with an entry that
came, went or was replaced. -/
namespace PracticeShell

namespace Tree
variable {t u : Tree} {p q : Path} {f : Tree → Tree} {now : Instant}

def stamps? (t : Tree) (p : Path) : Option Stamps := (t.get? p).map fun u => u.node.stamps

theorem stamps?_eq_label? (t : Tree) (p : Path) : t.stamps? p = (t.label? p).map Label.stamps := by
  rw [stamps?, label?, Option.map_map]
  rfl

theorem stamps?_congr (h : t.label? p = u.label? p) : t.stamps? p = u.stamps? p := by
  rw [stamps?_eq_label?, h, stamps?_eq_label?]

theorem stamps?_of_touch (h : t.label? p = (u.label? p).map (Label.touch now)) :
    t.stamps? p = (u.stamps? p).map (Stamps.touch now) := by
  rw [stamps?_eq_label?, h, stamps?_eq_label?, Option.map_map, Option.map_map]
  rfl

theorem stamps_touch (now : Instant) (t : Tree) :
    (t.touch now).node.stamps = t.node.stamps.touch now :=
  congrArg Label.stamps label_touch

theorem stamps_write (mode : OpenMode) (text : String) (t : Tree) :
    (t.write mode text).node.stamps = t.node.stamps := by
  change (t.node.write mode text).stamps = t.node.stamps
  cases t.node with
  | file => cases mode <;> rfl
  | directory => rfl

theorem stamps_touch_write (now : Instant) (mode : OpenMode) (text : String) (t : Tree) :
    ((t.write mode text).touch now).node.stamps = t.node.stamps.touch now := by
  rw [stamps_touch, stamps_write]

theorem stamps?_update_of_ne (hchild : ∀ d name, (f d).child? name = d.child? name) (hne : q ≠ p) :
    (t.update f p).stamps? q = t.stamps? q :=
  stamps?_congr (label?_update_of_ne hchild hne)

theorem stamps?_update_self (hf : ∀ u, (f u).node.stamps = u.node.stamps.touch now) :
    (t.update f p).stamps? p = (t.stamps? p).map (Stamps.touch now) := by
  rw [stamps?, get?_update_self, stamps?, Option.map_map, Option.map_map]
  congr 1
  funext u
  exact hf u

end Tree

namespace Session
variable {now : Instant} {s s' : Session} {placed marked : Option Path} {above p q : Path}
  {name : String} {t : Tree}

/-- The node at `p` appeared or disappeared, or a copy or a move placed it there. -/
def EntryChanged (s s' : Session) (placed : Option Path) (p : Path) : Prop :=
  (s.get? p).isSome ≠ (s'.get? p).isSome ∨ placed = some p

/-- The node at `p` is new, or a copy or a move placed it there. -/
def Came (s s' : Session) (placed : Option Path) (p : Path) : Prop :=
  s.get? p = none ∧ (s'.get? p).isSome ∨ placed = some p

/-- `q` was touched or written, or is a directory of which an entry changed. -/
def Modified (s s' : Session) (placed marked : Option Path) (q : Path) : Prop :=
  marked = some q ∨ ∃ name, s.EntryChanged s' placed (q.child name)

/-- Nodes that stay keep the time at which they were made. Those that are modified are so at `now`,
and the others keep that time too. -/
def KeepsTimes (now : Instant) (s s' : Session) (placed marked : Option Path) : Prop :=
  ∀ q t t', s.get? q = some t → s'.get? q = some t' → (∀ p, s.Came s' placed p → ¬ p <+: q) →
    t'.node.stamps.created = t.node.stamps.created ∧
      (s.Modified s' placed marked q → t'.node.stamps.modified = now) ∧
      (¬ s.Modified s' placed marked q → t'.node.stamps.modified = t.node.stamps.modified)

/-- Nothing changed but the subtrees at `changed`, their directories, which were touched, and the
touched node at `marked`. -/
structure Changes (now : Instant) (s s' : Session) (changed : List Path) (marked : Option Path) :
    Prop where
  isSome : ∀ q, (∀ p ∈ changed, ¬ p <+: q) → (s'.get? q).isSome = (s.get? q).isSome
  stamps : ∀ q, (∀ p ∈ changed, ¬ p <+: q) → s'.root.stamps? q =
    if marked = some q ∨ ∃ p ∈ changed, p.parent? = some q then
      (s.root.stamps? q).map (Stamps.touch now)
    else s.root.stamps? q

namespace Changes
variable {changed later : List Path}

theorem modified_iff (h : s.Changes now s' changed marked)
    (hentry : ∀ p ∈ changed, s.EntryChanged s' placed p) (hplaced : ∀ p ∈ placed, p ∈ changed)
    (hclear : ∀ p ∈ changed, ¬ p <+: q) :
    s.Modified s' placed marked q ↔ marked = some q ∨ ∃ p ∈ changed, p.parent? = some q := by
  refine or_congr_right ⟨?_, ?_⟩
  · rintro ⟨name, hname⟩
    have hbelow : ∃ p ∈ changed, p <+: q.child name := by
      by_contra hnone
      push Not at hnone
      obtain hne | hplace := hname
      · exact hne (h.isSome _ hnone).symm
      · exact hnone _ (hplaced _ hplace) List.prefix_rfl
    obtain ⟨p, hp, hpq⟩ := hbelow
    obtain rfl | hpq := List.prefix_concat_iff.1 hpq
    · exact ⟨_, hp, Path.parent?_child q name⟩
    · exact absurd hpq (hclear p hp)
  · rintro ⟨p, hp, hparent⟩
    obtain rfl | ⟨above, name, rfl⟩ := Path.eq_nil_or_child p
    · simp [Path.parent?] at hparent
    · rw [Path.parent?_child, Option.some_inj] at hparent
      exact ⟨name, hparent ▸ hentry _ hp⟩

theorem keepsTimes (h : s.Changes now s' changed marked)
    (hentry : ∀ p ∈ changed, s.EntryChanged s' placed p) (hplaced : ∀ p ∈ placed, p ∈ changed) :
    s.KeepsTimes now s' placed marked := by
  intro q t t' ht ht' hcame
  have hclear : ∀ p ∈ changed, ¬ p <+: q := by
    intro p hp hpq
    -- Above a node that stayed there is a node, before and after: no entry came or went there.
    have hs : (s.get? p).isSome := Tree.isSome_get?_of_prefix hpq (Option.isSome_iff_exists.2 ⟨t, ht⟩)
    have hs' : (s'.get? p).isSome :=
      Tree.isSome_get?_of_prefix hpq (Option.isSome_iff_exists.2 ⟨t', ht'⟩)
    obtain hne | hplace := hentry p hp
    · exact hne (hs.trans hs'.symm)
    · exact hcame p (.inr hplace) hpq
  have hstamps := h.stamps q hclear
  have hold : s.root.stamps? q = some t.node.stamps := congrArg (Option.map _) ht
  have hnew : s'.root.stamps? q = some t'.node.stamps := congrArg (Option.map _) ht'
  rw [hold, hnew] at hstamps
  rw [h.modified_iff hentry hplaced hclear]
  split at hstamps
  · next hmod =>
    rw [Option.map_some, Option.some_inj] at hstamps
    rw [hstamps]
    exact ⟨rfl, fun _ => rfl, fun hnot => absurd hmod hnot⟩
  · next hmod =>
    rw [Option.some_inj] at hstamps
    rw [hstamps]
    exact ⟨rfl, fun h => absurd h hmod, fun _ => rfl⟩

theorem mark (h : s.Changes now s' changed none) (hmarked : ∀ q ∈ marked, ∃ p ∈ changed, p <+: q) :
    s.Changes now s' changed marked where
  isSome := h.isSome
  stamps := by
    intro q hclear
    have hne : marked ≠ some q := by
      intro hq
      obtain ⟨p, hp, hpq⟩ := hmarked q hq
      exact hclear p hp hpq
    simpa [hne] using h.stamps q hclear

theorem trans {s₁ : Session} (h : s.Changes now s₁ changed none)
    (h' : s₁.Changes now s' later none) : s.Changes now s' (changed ++ later) none where
  isSome := by
    intro q hclear
    obtain ⟨hq, hq'⟩ := List.forall_mem_append.1 hclear
    exact (h'.isSome q hq').trans (h.isSome q hq)
  stamps := by
    intro q hclear
    obtain ⟨hq, hq'⟩ := List.forall_mem_append.1 hclear
    have htwice : Stamps.touch now ∘ Stamps.touch now = Stamps.touch now := rfl
    have hsplit : (∃ p ∈ changed ++ later, p.parent? = some q) ↔
        (∃ p ∈ changed, p.parent? = some q) ∨ ∃ p ∈ later, p.parent? = some q := by
      simp only [List.mem_append, or_and_right, exists_or]
    rw [h'.stamps q hq', h.stamps q hq]
    by_cases hc : ∃ p ∈ changed, p.parent? = some q <;>
      by_cases hl : ∃ p ∈ later, p.parent? = some q <;>
      simp only [hsplit, hc, hl, reduceCtorEq, or_self, or_true, or_false, if_true, if_false,
        Option.map_map, htwice]

theorem withEntry (now : Instant) (above : Path) (name : String) (t : Tree) (s : Session) :
    s.Changes now (s.withEntry now above name t) [above.child name] none where
  isSome := by
    intro q hclear
    have hq := List.forall_mem_singleton.1 hclear
    rw [get?, ← Tree.isSome_content?, Session.withEntry, Tree.content?_withEntry hq,
      Tree.isSome_content?]
    rfl
  stamps := by
    intro q hclear
    have hq := List.forall_mem_singleton.1 hclear
    rw [Session.withEntry]
    by_cases he : q = above
    · subst he
      simpa using Tree.stamps?_of_touch Tree.label?_withEntry_above
    · simpa [Ne.symm he] using Tree.stamps?_congr (Tree.label?_withEntry hq he)

theorem withoutEntry (now : Instant) (above : Path) (name : String) (s : Session) :
    s.Changes now ((s.withoutEntry now above name).left (above.child name)) [above.child name]
      none where
  isSome := by
    intro q hclear
    have hq := List.forall_mem_singleton.1 hclear
    rw [get?, root_left, ← Tree.isSome_content?, Session.withoutEntry, Tree.content?_withoutEntry hq,
      Tree.isSome_content?]
    rfl
  stamps := by
    intro q hclear
    have hq := List.forall_mem_singleton.1 hclear
    rw [root_left, Session.withoutEntry]
    by_cases he : q = above
    · subst he
      simpa using Tree.stamps?_of_touch Tree.label?_withoutEntry_above
    · simpa [Ne.symm he] using Tree.stamps?_congr (Tree.label?_withoutEntry hq he)

theorem update {f : Tree → Tree} (hchild : ∀ d name, (f d).child? name = d.child? name)
    (hdir : ∀ d, (f d).isDirectory = d.isDirectory)
    (hstamps : ∀ u, (f u).node.stamps = u.node.stamps.touch now) (p : Path) (s : Session) :
    s.Changes now { s with root := s.root.update f p } [] (some p) where
  isSome := by
    intro q _
    have hkept := congrArg Option.isSome
      (Tree.map_isDirectory_update (t := s.root) (p := p) (q := q) hchild hdir)
    rwa [Option.isSome_map, Option.isSome_map] at hkept
  stamps := by
    intro q _
    by_cases he : q = p
    · subst he
      simpa using Tree.stamps?_update_self hstamps
    · simpa [Ne.symm he] using Tree.stamps?_update_of_ne hchild he

end Changes

theorem keepsTimes_withEntry (now : Instant) (hd : s.root.content? above = some none)
    (hn : s.root.get? (above.child name) = none) (hmarked : ∀ q ∈ marked, above.child name <+: q) :
    s.KeepsTimes now (s.withEntry now above name t) none marked := by
  have hthere : (s.withEntry now above name t).get? (above.child name ++ []) = some t :=
    Tree.get?_withEntry_below hd
  have hfree : s.get? (above.child name) = none := hn
  rw [List.append_nil] at hthere
  have hchanges : s.Changes now (s.withEntry now above name t) [above.child name] marked :=
    (Changes.withEntry now above name t s).mark (by simpa using hmarked)
  exact hchanges.keepsTimes (by simp [EntryChanged, hthere, hfree]) (by simp)

end Session

namespace Edit
open Session
variable {now : Instant} {s s' : Session} {p : Path}

theorem keepsTimes_createDirectory {parents : Bool}
    (h : (createDirectory now p parents).result s = (.ok (), s')) : s.KeepsTimes now s' none none := by
  obtain ⟨above, name, rest, -, -, hd, hn, -, hr⟩ | ⟨x, hr⟩ := createDirectory_cases now p parents s
  · obtain rfl : s.withDirectories now above (name :: rest) = s' := by simpa [hr] using h
    rw [withDirectories_eq]
    exact keepsTimes_withEntry now hd hn (by simp)
  · simp [hr] at h

theorem keepsTimes_touch (h : (touch now p).result s = (.ok (), s')) :
    s.KeepsTimes now s' none (some p) := by
  obtain ⟨-, hr⟩ | ⟨above, name, rfl, ha, hn, hr⟩ | ⟨x, hr⟩ := touch_cases now p s
  · obtain rfl : { s with root := s.root.update (·.touch now) p } = s' := by simpa [hr] using h
    exact (Changes.update (by simp) (by simp) (Tree.stamps_touch now) p s).keepsTimes (by simp)
      (by simp)
  · obtain rfl : s.withEntry now above name _ = s' := by simpa [hr] using h
    exact keepsTimes_withEntry now ha.directory hn (by simp)
  · simp [hr] at h

theorem keepsTimes_write {text : String} {mode : OpenMode}
    (h : (write now p text mode).result s = (.ok (), s')) : s.KeepsTimes now s' none (some p) := by
  obtain ⟨-, hr⟩ | ⟨above, name, rfl, ha, hn, hr⟩ | ⟨x, hr⟩ := write_cases now p text mode s
  · obtain rfl : { s with root := s.root.update (fun t => (t.write mode text).touch now) p } = s' := by
      simpa [hr] using h
    exact (Changes.update (by simp) (by simp) (Tree.stamps_touch_write now mode text) p s).keepsTimes
      (by simp) (by simp)
  · obtain rfl : s.withEntry now above name _ = s' := by simpa [hr] using h
    exact keepsTimes_withEntry now ha.directory hn (by simp)
  · simp [hr] at h

theorem keepsTimes_remove {recursive : Bool}
    (h : (remove now p recursive).result s = (.ok (), s')) : s.KeepsTimes now s' none none := by
  obtain ⟨above, name, rfl, hs, hr⟩ | ⟨x, hr⟩ := remove_cases now p recursive s
  · obtain rfl : (s.withoutEntry now above name).left (above.child name) = s' := by
      simpa [hr] using h
    have hgone : ((s.withoutEntry now above name).left (above.child name)).get?
        (above.child name) = none := get?_left_withoutEntry_eq_none_iff.2 (.inl List.prefix_rfl)
    have hentry : (s.get? (above.child name)).isSome := hs
    exact (Changes.withoutEntry now above name s).keepsTimes
      (by simp [EntryChanged, hgone, hentry]) (by simp)
  · simp [hr] at h

theorem keepsTimes_copy {source destination target : Path}
    (h : (copy now source destination).result s = (.ok target, s')) :
    s.KeepsTimes now s' (some target) none := by
  obtain ⟨t, above, name, -, -, -, -, hr⟩ | ⟨x, hr⟩ := copy_cases now source destination s
  · obtain ⟨rfl, rfl⟩ : above.child name = target ∧ s.withEntry now above name _ = s' := by
      simpa [hr] using h
    exact (Changes.withEntry now above name _ s).keepsTimes (by simp [EntryChanged]) (by simp)
  · simp [hr] at h

/-- The node is put at its new place before it leaves the old one, so two changes follow each
other. -/
theorem keepsTimes_move {source destination target : Path}
    (h : (move now source destination).result s = (.ok target, s')) :
    s.KeepsTimes now s' (some target) none := by
  obtain ⟨t, home, own, above, name, rfl, ht, -, -, -, -, hr⟩ | ⟨x, hr⟩ :=
    move_cases now source destination s
  · obtain ⟨rfl, rfl⟩ : above.child name = target ∧
        ((s.withEntry now above name t).withoutEntry now home own).left (home.child own) = s' := by
      simpa [hr] using h
    have hgone : (((s.withEntry now above name t).withoutEntry now home own).left
        (home.child own)).get? (home.child own) = none :=
      get?_left_withoutEntry_eq_none_iff.2 (.inl List.prefix_rfl)
    have hentry : s.get? (home.child own) = some t := ht
    exact ((Changes.withEntry now above name t s).trans (.withoutEntry now home own _)).keepsTimes
      (by simp [EntryChanged, hgone, hentry]) (by simp)
  · simp [hr] at h

/-- An operation that succeeds changes the times of no nodes but those that it makes, touches or
writes, and the directories of which it changes an entry. -/
theorem keeps_times (now : Instant) (s s' : Session) :
    (∀ p parents, (createDirectory now p parents).result s = (.ok (), s') →
      s.KeepsTimes now s' none none) ∧
    (∀ p, (touch now p).result s = (.ok (), s') → s.KeepsTimes now s' none (some p)) ∧
    (∀ p text mode, (write now p text mode).result s = (.ok (), s') →
      s.KeepsTimes now s' none (some p)) ∧
    (∀ p recursive, (remove now p recursive).result s = (.ok (), s') →
      s.KeepsTimes now s' none none) ∧
    (∀ source destination target, (copy now source destination).result s = (.ok target, s') →
      s.KeepsTimes now s' (some target) none) ∧
    (∀ source destination target, (move now source destination).result s = (.ok target, s') →
      s.KeepsTimes now s' (some target) none) :=
  ⟨fun _ _ => keepsTimes_createDirectory, fun _ => keepsTimes_touch, fun _ _ _ => keepsTimes_write,
    fun _ _ => keepsTimes_remove, fun _ _ _ => keepsTimes_copy, fun _ _ _ => keepsTimes_move⟩

/-- The directory that the file leaves is modified, the one above it is not. -/
theorem keeps_times_around_source :
    let now : Instant := ⟨1, 0, by decide, by decide⟩
    let s := Session.seeded Instant.epoch
    let r := (move now ["home", "user", "documents", "notes.md"] ["tmp"]).result s
    r.1 = .ok ["tmp", "notes.md"] ∧
      r.2.root.stamps? ["home", "user", "documents"] = some ⟨Instant.epoch, now⟩ ∧
      r.2.root.stamps? ["home", "user"] = some ⟨Instant.epoch, Instant.epoch⟩ ∧
      r.2.root.stamps? ["tmp"] = some ⟨Instant.epoch, now⟩ ∧
      s.KeepsTimes now r.2 (some ["tmp", "notes.md"]) none := by
  intro now s r
  have hr : r.1 = .ok ["tmp", "notes.md"] := by decide +kernel
  have hdocuments : r.2.root.stamps? ["home", "user", "documents"] = some ⟨Instant.epoch, now⟩ := by
    decide +kernel
  have huser : r.2.root.stamps? ["home", "user"] = some ⟨Instant.epoch, Instant.epoch⟩ := by
    decide +kernel
  have htmp : r.2.root.stamps? ["tmp"] = some ⟨Instant.epoch, now⟩ := by decide +kernel
  obtain ⟨-, -, -, -, -, hmove⟩ := keeps_times now s r.2
  exact ⟨hr, hdocuments, huser, htmp, hmove _ _ _ (Prod.ext hr rfl)⟩

end Edit

end PracticeShell
