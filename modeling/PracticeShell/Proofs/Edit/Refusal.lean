import PracticeShell.Proofs.Edit.Outcome
import PracticeShell.Proofs.Tree.Walk

/-! Why a node cannot be put at a path. The error names the path itself, or a place on the way to it
that is missing or a file. -/
namespace PracticeShell.Edit
variable {now : Instant} {s s' : Session} {p q : Path} {t : Tree} {x : FileError}

/-- At `q`, on the way along `p`, there is no directory. -/
structure Blocked (s : Session) (p q : Path) : Prop where
  onPath : q <+: p
  closed : s.get? q = none ∨ s.isFile q = true

theorem bind_error {α β : Type} {e : Edit α} {f : α → Edit β}
    (h : (e >>= f).result s = (.error x, s')) :
    e.result s = (.error x, s') ∨
      ∃ a s₁, e.result s = (.ok a, s₁) ∧ (f a).result s₁ = (.error x, s') := by
  rw [result_bind] at h
  cases he : e.result s with
  | mk r s₁ =>
    rw [he] at h
    cases r with
    | error y =>
      obtain ⟨rfl, rfl⟩ : y = x ∧ s₁ = s' := by simpa using h
      exact .inl rfl
    | ok a => exact .inr ⟨a, s₁, rfl, h⟩

theorem get?_below_file (hq : q <+: p) (hne : q ≠ p) (hf : s.isFile q = true) : s.get? p = none :=
  Tree.get?_eq_none_of_find (Tree.find_below_file hq hne (Session.isFile_iff.1 hf))

/-! ### Directories -/

theorem result_directory_through_file (hq : q <+: p) (hf : s.isFile q = true) :
    (directory p).result s = (.error (.notADirectory q), s) := by
  have hcontent := Session.isFile_iff.1 hf
  by_cases hne : q = p
  · subst hne
    obtain ⟨text, htext⟩ := hcontent
    obtain ⟨u, hu, hcontent⟩ := Tree.content?_eq_some_some_iff.1 htext
    have hfind : s.find q = .ok u := Tree.find_eq_ok_iff.2 hu
    simp [hfind, Except.bind, Tree.isDirectory_eq, hcontent]
  · have hfind : s.find p = .error (.notADirectory q) := Tree.find_below_file hq hne hcontent
    simp [hfind, Except.bind]

theorem directory_error (h : (directory p).result s = (.error x, s')) : Blocked s p x.path := by
  rw [result_directory] at h
  cases hf : s.find p with
  | error y =>
    obtain ⟨q, hq, hstop⟩ := Tree.find_error hf
    obtain rfl : y = x := by simpa [hf, Except.bind] using congrArg Prod.fst h
    obtain ⟨hn, rfl⟩ | ⟨-, hfile, rfl⟩ := hstop
    · exact ⟨hq.onPath, .inl hn⟩
    · exact ⟨hq.onPath, .inr (Session.isFile_iff.2 hfile)⟩
  | ok u =>
    cases hdir : u.isDirectory with
    | true => simp [hf, Except.bind, hdir] at h
    | false =>
      obtain rfl : FileError.notADirectory p = x := by
        simpa [hf, Except.bind, hdir] using congrArg Prod.fst h
      have hfile := Tree.exists_content? (Tree.find_eq_ok_iff.1 hf) hdir
      exact ⟨List.prefix_rfl, .inr (Session.isFile_iff.2 hfile)⟩

/-! ### Nodes -/

theorem link_error (h : (link now p t).result s = (.error x, s')) :
    x.path = p ∨ Blocked s p x.path := by
  obtain rfl | ⟨above, name, rfl⟩ := Path.eq_nil_or_child p
  · have hroot : (link now [] t).result s = (.error (.alreadyExists []), s) := rfl
    obtain rfl : FileError.alreadyExists [] = x := by
      simpa using congrArg Prod.fst (hroot.symm.trans h)
    exact .inl rfl
  simp only [link, Path.parent?_child, Path.name?_child] at h
  obtain hdirectory | ⟨d, s₁, -, h⟩ := bind_error h
  · have hblocked := directory_error hdirectory
    exact .inr ⟨hblocked.onPath.trans (Path.prefix_child above name), hblocked.closed⟩
  · cases hc : (d.child? name).isSome with
    | true =>
      obtain rfl : FileError.alreadyExists (above.child name) = x := by
        simpa [hc] using congrArg Prod.fst h
      exact .inl rfl
    | false => simp [hc, change] at h

theorem result_link_through_file (hq : q <+: p) (hne : q ≠ p) (hf : s.isFile q = true) :
    (link now p t).result s = (.error (.notADirectory q), s) := by
  obtain rfl | ⟨above, name, rfl⟩ := Path.eq_nil_or_child p
  · exact absurd (List.prefix_nil.1 hq) hne
  have habove : q <+: above := (List.prefix_concat_iff.1 hq).resolve_left hne
  simp only [link, Path.parent?_child, Path.name?_child]
  exact result_bind_error (result_directory_through_file habove hf) _

/-- The error names the place itself, or a place on the way to it that is no directory. -/
theorem install_error (h : (install now p t).result s = (.error x, s')) :
    x.path = p ∨ p.length + t.node.height ≤ Session.maxDepth ∧ Blocked s p x.path := by
  by_cases hdepth : p.length + t.node.height ≤ Session.maxDepth
  swap
  · have hdeep : (install now p t).result s = (.error (.tooDeep p), s) :=
      result_bind_error (result_guardDepth_error hdepth) _
    obtain rfl : FileError.tooDeep p = x := by
      simpa using congrArg Prod.fst (hdeep.symm.trans h)
    exact .inl rfl
  rw [install, result_bind_ok (result_guardDepth_ok hdepth), result_bind_ok (result_get s)] at h
  cases hold : s.get? p with
  | none =>
    rw [hold] at h
    exact (link_error h).imp_right fun hblocked => ⟨hdepth, hblocked⟩
  | some old =>
    rw [hold] at h
    cases hdir : t.isDirectory with
    | true =>
      obtain rfl : FileError.alreadyExists p = x := by
        simpa [hdir] using congrArg Prod.fst h
      exact .inl rfl
    | false =>
      cases hkind : old.isDirectory with
      | true =>
        obtain rfl : FileError.isADirectory p = x := by
          simpa [hdir, hkind] using congrArg Prod.fst h
        exact .inl rfl
      | false =>
        simp only [hdir, hkind] at h
        obtain rfl | ⟨above, name, rfl⟩ := Path.eq_nil_or_child p
        · obtain rfl : FileError.rootDirectory [] = x := by
            simpa [unlink, Path.parent?] using congrArg Prod.fst h
          exact .inl rfl
        · have hs : (s.root.get? (above.child name)).isSome := Option.isSome_iff_exists.2 ⟨old, hold⟩
          simpa using congrArg Prod.fst ((result_replace hs).symm.trans h)

theorem result_install_through_file (now : Instant) (hq : q <+: p) (hne : q ≠ p)
    (hf : s.isFile q = true) (hdepth : p.length + t.node.height ≤ Session.maxDepth) :
    (install now p t).result s = (.error (.notADirectory q), s) := by
  have hn := get?_below_file hq hne hf
  rw [install, result_bind_ok (result_guardDepth_ok hdepth), result_bind_ok (result_get s), hn]
  exact result_link_through_file hq hne hf

end PracticeShell.Edit
