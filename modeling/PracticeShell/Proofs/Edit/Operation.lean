import PracticeShell.Proofs.Edit.Outcome

/-! The operations on a session. Each succeeds in one of the ways listed for it, or fails and leaves
the session as it was. -/
namespace PracticeShell.Edit
variable {s : Session} {now : Instant}

theorem enter_eq (p : Path) :
    enter p = directory p >>= fun _ => modify fun s => { s with cursor := p } := by
  have hdiscard : discard (directory p) = directory p >>= fun _ => pure () := by
    rw [discard, LawfulFunctor.map_const, bind_pure_comp]
    rfl
  rw [enter, hdiscard, bind_assoc]
  rfl

theorem result_enter {p : Path} (h : s.isDirectory p = true) :
    (enter p).result s = (.ok (), { s with cursor := p }) := by
  obtain ⟨d, hd, hdir⟩ := Tree.content?_eq_some_none_iff.1 (Session.isDirectory_iff.1 h)
  rw [enter_eq]
  exact result_bind_ok (result_directory_ok hd hdir) _

theorem enter_cases (p : Path) (s : Session) :
    (s.root.content? p = some none ∧ (enter p).result s = (.ok (), { s with cursor := p })) ∨
      ∃ x, (enter p).result s = (.error x, s) := by
  obtain ⟨d, hd, hdir, -⟩ | ⟨-, x, hr⟩ := directory_cases p s
  · have hp := Tree.content?_eq_some_none_iff.2 ⟨d, hd, hdir⟩
    exact .inl ⟨hp, result_enter (Session.isDirectory_iff.2 hp)⟩
  · rw [enter_eq]
    exact .inr ⟨x, result_bind_error hr _⟩

/-! ### Making directories -/

theorem result_createAll_cons {above : Path} {name : String} (rest : List String)
    (hd : s.root.content? above = some none) :
    (createAll now above (name :: rest)).result s =
      (createAll now (above.child name) rest).result
        (if (s.root.get? (above.child name)).isSome then s
          else s.withEntry now above name (Tree.emptyDirectory (Stamps.fresh now))) := by
  obtain ⟨d, hg, hdir⟩ := Tree.content?_eq_some_none_iff.1 hd
  have hc : d.child? name = s.root.get? (above.child name) := by simp [Tree.get?_child, hg]
  rw [createAll, result_bind_ok (result_directory_ok hg hdir), hc]
  cases s.root.get? (above.child name) <;> rfl

theorem made_empty {above : Path} (now : Instant) (name : String)
    (hd : s.root.content? above = some none) :
    (s.withEntry now above name (Tree.emptyDirectory (Stamps.fresh now))).root.content?
        (above.child name) = some none ∧
      ∀ next, (s.withEntry now above name (Tree.emptyDirectory (Stamps.fresh now))).root.get?
        ((above.child name).child next) = none := by
  have hbelow (q : Path) :
      (s.withEntry now above name (Tree.emptyDirectory (Stamps.fresh now))).root.get?
        (above.child name ++ q) = (Tree.emptyDirectory (Stamps.fresh now)).get? q :=
    Tree.get?_withEntry_below hd
  refine ⟨?_, fun next => hbelow [next]⟩
  have h := hbelow []
  rw [List.append_nil] at h
  exact Tree.content?_eq_some_none_iff.2 ⟨_, h, rfl⟩

theorem result_createAll_free {above : Path} {name : String} (rest : List String)
    (hd : s.root.content? above = some none) (hn : s.root.get? (above.child name) = none) :
    (createAll now above (name :: rest)).result s =
      (.ok (), s.withDirectories now above (name :: rest)) := by
  induction rest generalizing above name s with
  | nil =>
    rw [result_createAll_cons [] hd, hn]
    rfl
  | cons next rest ih =>
    rw [result_createAll_cons (next :: rest) hd, hn, Session.withDirectories]
    simp only [Option.isSome_none, Bool.false_eq_true, if_false]
    obtain ⟨hmade, hempty⟩ := made_empty now name hd
    exact ih hmade (hempty next)

/-- Existing directories are passed; from the first missing one on all are made. -/
theorem createAll_cases (names : List String) {above : Path}
    (hd : s.root.content? above = some none)
    (hn : s.root.get? (above ++ names) = none) :
    (∃ there name rest, names = there ++ name :: rest ∧
        s.root.content? (above ++ there) = some none ∧
        s.root.get? (Path.child (above ++ there) name) = none ∧
        (createAll now above names).result s =
          (.ok (), s.withDirectories now (above ++ there) (name :: rest))) ∨
      ∃ x, (createAll now above names).result s = (.error x, s) := by
  induction names generalizing above with
  | nil =>
    obtain ⟨d, hd, -⟩ := Tree.content?_eq_some_none_iff.1 hd
    simp [hd] at hn
  | cons name rest ih =>
    cases hc : s.root.get? (above.child name) with
    | none =>
      have hr : (createAll now above (name :: rest)).result s = _ :=
        result_createAll_free rest hd hc
      exact .inl ⟨[], name, rest, rfl, by simpa using hd, by simpa using hc, by simpa using hr⟩
    | some c =>
      have hrest : s.root.get? (above.child name ++ rest) = none := by simpa [Path.child] using hn
      rw [result_createAll_cons rest hd, hc]
      simp only [Option.isSome_some, if_true]
      obtain ⟨d, hg, hdir, -⟩ | ⟨-, x, hr⟩ := directory_cases (above.child name) s
      · obtain ⟨there, next, rest, rfl, hd', hn', hr⟩ | hr :=
          ih (Tree.content?_eq_some_none_iff.2 ⟨d, hg, hdir⟩) hrest
        · have hassoc : above.child name ++ there = above ++ name :: there := by simp [Path.child]
          rw [hassoc] at hd' hn' hr
          exact .inl ⟨name :: there, next, rest, rfl, hd', hn', hr⟩
        · exact .inr hr
      · cases rest with
        | nil => simp [hc] at hrest
        | cons next rest => exact .inr ⟨x, result_bind_error hr _⟩

theorem createDirectory_cases (now : Instant) (p : Path) (parents : Bool) (s : Session) :
    (∃ above name rest, p = above ++ name :: rest ∧ (parents = false → rest = []) ∧
        s.root.content? above = some none ∧ s.root.get? (above.child name) = none ∧
        p.length ≤ Session.maxDepth ∧
        (createDirectory now p parents).result s =
          (.ok (), s.withDirectories now above (name :: rest))) ∨
      ∃ x, (createDirectory now p parents).result s = (.error x, s) := by
  rw [createDirectory, result_bind_ok (result_get s)]
  cases hp : s.get? p with
  | some old => exact .inr ⟨.alreadyExists p, by simp⟩
  | none =>
    have hnone : s.root.get? p = none := hp
    by_cases hdepth : p.length + 0 ≤ Session.maxDepth
    swap
    · exact .inr ⟨.tooDeep p, result_bind_error (result_guardDepth_error hdepth) _⟩
    simp only [Option.isSome_none, Bool.false_eq_true, if_false]
    rw [result_bind_ok (result_guardDepth_ok hdepth)]
    cases parents with
    | true =>
      obtain ⟨d, hd, hdir, -⟩ | ⟨-, x, hr⟩ := directory_cases Path.root s
      · obtain ⟨there, name, rest, rfl, hd', hn', hr⟩ | hr :=
          createAll_cases p (Tree.content?_eq_some_none_iff.2 ⟨d, hd, hdir⟩) hnone
        · exact .inl ⟨there, name, rest, rfl, by simp, hd', hn', hdepth, hr⟩
        · exact .inr hr
      · cases p with
        | nil => simp at hnone
        | cons name rest => exact .inr ⟨x, result_bind_error hr _⟩
    | false =>
      obtain ⟨above, name, rfl, hd, hn, hr⟩ | hr :=
        link_cases now p (Tree.emptyDirectory (Stamps.fresh now)) s
      · exact .inl ⟨above, name, [], rfl, fun _ => rfl, hd, hn, hdepth, hr⟩
      · exact .inr hr

/-! ### Files -/

theorem touch_cases (now : Instant) (p : Path) (s : Session) :
    ((s.root.get? p).isSome ∧ (touch now p).result s =
        (.ok (), { s with root := s.root.update (·.touch now) p })) ∨
      (∃ above name, p = above.child name ∧
        s.Admits above name (Tree.file "" (Stamps.fresh now)) ∧ s.root.get? p = none ∧
        (touch now p).result s =
          (.ok (), s.withEntry now above name (Tree.file "" (Stamps.fresh now)))) ∨
      ∃ x, (touch now p).result s = (.error x, s) := by
  rw [touch, result_bind_ok (result_get s)]
  cases hp : s.get? p with
  | some old =>
    have hs : (s.root.get? p).isSome := Option.isSome_iff_exists.2 ⟨old, hp⟩
    exact .inl ⟨hs, rfl⟩
  | none => exact .inr (create_cases now p (Tree.file "" (Stamps.fresh now)) s)

theorem write_cases (now : Instant) (p : Path) (text : String) (mode : OpenMode) (s : Session) :
    ((∃ old, s.root.content? p = some (some old)) ∧ (write now p text mode).result s =
        (.ok (), { s with root := s.root.update (fun t => (t.write mode text).touch now) p })) ∨
      (∃ above name, p = above.child name ∧
        s.Admits above name (Tree.file text (Stamps.fresh now)) ∧ s.root.get? p = none ∧
        (write now p text mode).result s =
          (.ok (), s.withEntry now above name (Tree.file text (Stamps.fresh now)))) ∨
      ∃ x, (write now p text mode).result s = (.error x, s) := by
  rw [write, result_bind_ok (result_get s)]
  cases hp : s.get? p with
  | none => exact .inr (create_cases now p (Tree.file text (Stamps.fresh now)) s)
  | some old =>
    cases hold : old.isDirectory with
    | true => exact .inr (.inr ⟨.isADirectory p, by simp [hold]⟩)
    | false => exact .inl ⟨Tree.exists_content? hp hold, by simp [hold]; rfl⟩

/-! ### Nodes removed, copied and moved -/

theorem remove_cases (now : Instant) (p : Path) (recursive : Bool) (s : Session) :
    (∃ above name, p = above.child name ∧ (s.root.get? p).isSome ∧
        (remove now p recursive).result s = (.ok (), (s.withoutEntry now above name).left p)) ∨
      ∃ x, (remove now p recursive).result s = (.error x, s) := by
  rw [remove]
  cases hnil : p.isEmpty with
  | true => exact .inr ⟨.rootDirectory p, by simp⟩
  | false =>
    simp only [Bool.false_eq_true, if_false]
    rw [result_bind, result_find]
    cases hf : s.find p with
    | error x => exact .inr ⟨x, rfl⟩
    | ok t =>
      cases hdir : t.isDirectory && !recursive with
      | true => exact .inr ⟨.isADirectory p, by simp [hdir]⟩
      | false =>
        simp only [hdir, Bool.false_eq_true, if_false]
        obtain ⟨above, name, hp, hs, hr⟩ | ⟨x, hr⟩ := unlink_cases now p s
        · exact .inl ⟨above, name, hp, hs, result_bind_ok hr _⟩
        · exact .inr ⟨x, result_bind_error hr _⟩

theorem copy_cases (now : Instant) (source destination : Path) (s : Session) :
    (∃ t above name, s.root.get? source = some t ∧
        s.landing? source destination = some (above.child name) ∧ above.child name ≠ source ∧
        s.Admits above name (t.withStamps (Stamps.fresh now)) ∧
        (copy now source destination).result s =
          (.ok (above.child name), s.withEntry now above name (t.withStamps (Stamps.fresh now)))) ∨
      ∃ x, (copy now source destination).result s = (.error x, s) := by
  rw [copy, result_bind, result_find]
  cases hf : s.find source with
  | error x => exact .inr ⟨x, rfl⟩
  | ok t =>
    simp only
    rw [result_bind, result_landing]
    cases hl : s.landing? source destination with
    | none => exact .inr ⟨_, rfl⟩
    | some p =>
      by_cases hsame : p = source
      · exact .inr ⟨.sameFile source p, by simp [hsame]⟩
      · simp only [Option.elim_some, hsame, if_false]
        obtain ⟨above, name, rfl, ha, hr⟩ | ⟨x, hr⟩ :=
          install_cases now p (t.withStamps (Stamps.fresh now)) s
        · exact .inl ⟨t, above, name, Tree.find_eq_ok_iff.1 hf, rfl, hsame, ha, result_bind_ok hr _⟩
        · exact .inr ⟨x, result_bind_error hr _⟩

theorem not_below_source {source above : Path} {name : String} {t : Tree}
    (ht : s.root.get? source = some t) (ha : s.Admits above name t)
    (hne : above.child name ≠ source)
    (hinto : (t.isDirectory && (above.child name).isAtOrBelow source) = false) :
    ¬ source <+: above.child name := by
  intro hp
  cases hdir : t.isDirectory with
  | true =>
    have hb := Path.isAtOrBelow_iff.2 hp
    simp [hdir, hb] at hinto
  | false =>
    obtain he | hp := List.prefix_concat_iff.1 hp
    · exact hne he.symm
    · exact Tree.not_prefix_of_file ht hdir ha.directory hp

theorem content?_withEntry_of_admits {above q : Path} {name : String} {t : Tree}
    (ha : s.Admits above name t) (hq : (s.root.get? q).isSome) (hne : above.child name ≠ q) :
    (s.withEntry now above name t).root.content? q = s.root.content? q :=
  Tree.content?_withEntry (ha.not_prefix hq hne)

theorem move_cases (now : Instant) (source destination : Path) (s : Session) :
    (∃ t home own above name, source = home.child own ∧ s.root.get? source = some t ∧
        s.landing? source destination = some (above.child name) ∧ above.child name ≠ source ∧
        ¬ source <+: above.child name ∧ s.Admits above name t ∧
        (move now source destination).result s = (.ok (above.child name),
          ((s.withEntry now above name t).withoutEntry now home own).left source)) ∨
      ∃ x, (move now source destination).result s = (.error x, s) := by
  obtain rfl | ⟨home, own, rfl⟩ := Path.eq_nil_or_child source
  · exact .inr ⟨.rootDirectory [], rfl⟩
  have hnil : (home.child own).isEmpty = false := by simp [Path.child]
  simp only [move, hnil, Bool.false_eq_true, if_false]
  rw [result_bind, result_find]
  cases hf : s.find (home.child own) with
  | error x => exact .inr ⟨x, rfl⟩
  | ok t =>
    have ht : s.root.get? (home.child own) = some t := Tree.find_eq_ok_iff.1 hf
    simp only
    rw [result_bind, result_landing]
    cases hl : s.landing? (home.child own) destination with
    | none => exact .inr ⟨_, rfl⟩
    | some p =>
      by_cases hsame : p = home.child own
      · exact .inr ⟨.sameFile (home.child own) p, by simp [hsame]⟩
      cases hinto : t.isDirectory && p.isAtOrBelow (home.child own) with
      | true => exact .inr ⟨.intoItself (home.child own) p, by simp [hsame, hinto]⟩
      | false =>
        simp only [Option.elim_some, hsame, hinto, Bool.false_eq_true, if_false]
        obtain ⟨above, name, rfl, ha, hr⟩ | ⟨x, hr⟩ := install_cases now p t s
        · have hs : ((s.withEntry now above name t).root.get? (home.child own)).isSome := by
            rw [← Tree.isSome_content?, content?_withEntry_of_admits ha (by simp [ht]) hsame,
              Tree.isSome_content?, ht]
            rfl
          have hnot := not_below_source ht ha hsame hinto
          refine .inl ⟨t, home, own, above, name, rfl, ht, rfl, hsame, hnot, ha, ?_⟩
          rw [result_bind_ok hr, result_bind_ok (result_unlink hs)]
          rfl
        · exact .inr ⟨x, result_bind_error hr _⟩

end PracticeShell.Edit
