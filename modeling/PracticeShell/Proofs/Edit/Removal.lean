import PracticeShell.Proofs.Edit.Operation

/-! Removal succeeds below the root, and for directories only if asked to. It takes the node with
all below it, touches its directory, and leaves the cursor in a directory. -/
namespace PracticeShell.Edit
variable {now : Instant} {s s' : Session} {p above : Path} {name : String} {recursive : Bool}
  {t : Tree}

theorem result_remove (ht : s.get? (above.child name) = some t)
    (hr : t.isDirectory = false ∨ recursive = true) :
    (remove now (above.child name) recursive).result s =
      (.ok (), (s.withoutEntry now above name).left (above.child name)) := by
  have hkind : (t.isDirectory && !recursive) = false := by
    obtain hr | hr := hr <;> simp [hr]
  have hs : (s.root.get? (above.child name)).isSome := Option.isSome_iff_exists.2 ⟨t, ht⟩
  rw [remove, if_neg (by simp [Path.child]), result_bind_ok (result_find_ok ht), hkind,
    if_neg (by simp)]
  exact result_bind_ok (result_unlink hs) _

theorem isFile_or_recursive_of_remove (ht : s.get? p = some t)
    (h : (remove now p recursive).result s = (.ok (), s')) :
    t.isDirectory = false ∨ recursive = true := by
  by_contra hnot
  obtain ⟨hdir, hrec⟩ : t.isDirectory = true ∧ recursive = false := by simpa using hnot
  rw [remove] at h
  cases hnil : p.isEmpty with
  | true => simp [hnil] at h
  | false =>
    rw [hnil, if_neg (by simp), result_bind_ok (result_find_ok ht)] at h
    simp [hdir, hrec] at h

theorem remove_succeeds_iff : (∃ s', (remove now p recursive).result s = (.ok (), s')) ↔
    p ≠ Path.root ∧ ∃ t, s.get? p = some t ∧ (t.isDirectory = false ∨ recursive = true) := by
  constructor
  · rintro ⟨s', h⟩
    obtain ⟨above, name, rfl, hs, -⟩ | ⟨x, hr⟩ := remove_cases now p recursive s
    · obtain ⟨t, ht⟩ := Option.isSome_iff_exists.1 hs
      exact ⟨by simp [Path.child, Path.root], t, ht, isFile_or_recursive_of_remove ht h⟩
    · simp [hr] at h
  · rintro ⟨hroot, t, ht, hr⟩
    obtain rfl | ⟨above, name, rfl⟩ := Path.eq_nil_or_child p
    · exact absurd rfl hroot
    · exact ⟨_, result_remove ht hr⟩

/-- A removal takes away the node with all below it and touches its directory. No other path
changes, and the cursor is at a directory afterwards. -/
theorem remove_complete (now : Instant) (p : Path) (recursive : Bool) (s : Session)
    (hcur : s.isDirectory s.cursor = true) :
    ((∃ s', (remove now p recursive).result s = (.ok (), s')) ↔
      p ≠ Path.root ∧ ∃ t, s.get? p = some t ∧ (t.isDirectory = false ∨ recursive = true)) ∧
    ∀ s', (remove now p recursive).result s = (.ok (), s') →
      (∀ q, q.isAtOrBelow p = true → s'.get? q = none) ∧
      (∀ q, q.isAtOrBelow p = false → s'.root.label? q =
        if p.parent? = some q then (s.root.label? q).map (Label.touch now)
        else s.root.label? q) ∧
      (∃ parent, p.parent? = some parent ∧
        s'.cursor = if s.cursor.isAtOrBelow p then parent else s.cursor) ∧
      s'.isDirectory s'.cursor = true ∧ s'.history = s.history := by
  refine ⟨remove_succeeds_iff, fun s' h => ?_⟩
  obtain ⟨above, name, rfl, hs, hr⟩ | ⟨x, hr⟩ := remove_cases now p recursive s
  swap
  · simp [hr] at h
  obtain rfl : (s.withoutEntry now above name).left (above.child name) = s' := by
    simpa [hr] using h
  refine ⟨fun q hq => ?gone, fun q hq => ?elsewhere, ⟨above, Path.parent?_child above name, ?cursor⟩,
    ?directory, ?history⟩
  case gone => exact Session.get?_left_withoutEntry_eq_none_iff.2 (.inl (Path.isAtOrBelow_iff.1 hq))
  case elsewhere =>
    rw [Session.root_left, Session.withoutEntry, Path.parent?_child]
    split
    · next hparent =>
      obtain rfl := Option.some_inj.1 hparent
      exact Tree.label?_withoutEntry_above
    · next hparent =>
      exact Tree.label?_withoutEntry (Path.isAtOrBelow_eq_false_iff.1 hq) fun he =>
        hparent (he ▸ rfl)
  case cursor =>
    rw [Session.cursor_left, Path.parent?_child]
    rfl
  case directory =>
    exact Session.isDirectory_iff.2 (Session.content?_cursor_left hs (Session.isDirectory_iff.1 hcur))
  case history =>
    rw [Session.history_left]
    rfl

theorem remove_complete_above_cursor :
    let s := { Session.seeded Instant.epoch with cursor := ["home", "user", "documents"] }
    s.isDirectory s.cursor = true ∧
      ∃ s', (remove Instant.epoch ["home", "user"] true).result s = (.ok (), s') ∧
        s'.get? ["home", "user", "documents", "notes.md"] = none ∧ s'.cursor = ["home"] ∧
        s'.isDirectory ["home"] = true := by
  intro s
  have hcur : s.isDirectory s.cursor = true := by decide
  obtain ⟨hsucceeds, hleaves⟩ := remove_complete Instant.epoch ["home", "user"] true s hcur
  have hthere : (s.get? ["home", "user"]).isSome = true := by decide
  obtain ⟨t, ht⟩ := Option.isSome_iff_exists.1 hthere
  obtain ⟨s', h⟩ := hsucceeds.2 ⟨by decide, t, ht, .inr rfl⟩
  obtain ⟨hgone, -, ⟨parent, hparent, hcursor⟩, hdirectory, -⟩ := hleaves s' h
  obtain rfl : ["home"] = parent := Option.some_inj.1 hparent
  have hmoved : s'.cursor = ["home"] := hcursor
  exact ⟨hcur, s', h, hgone _ rfl, hmoved, hmoved ▸ hdirectory⟩

end PracticeShell.Edit
