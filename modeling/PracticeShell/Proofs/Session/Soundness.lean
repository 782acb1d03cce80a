import PracticeShell.Proofs.Command.Invariant
import PracticeShell.Proofs.Durable.Check
import PracticeShell.Proofs.Edit.Operation

/-! What holds of a session however it came about: its root is a directory, the names in it are
valid and not too far down, and the cursor stands in a directory. -/
namespace PracticeShell

/-- The sessions that lines lead to, each run at any time. -/
inductive Session.Reached : Session → Prop
  | seeded (now : Instant) : Reached (seeded now)
  | empty (now : Instant) : Reached (empty now)
  | decoded {text : String} {s : Session} (h : decode text = .ok s) : Reached s
  | line {s : Session} (now : Instant) (typed : String) (h : Reached s) :
    Reached ((runLine now typed).run s).2

structure Session.Sound (s : Session) : Prop where
  root : s.root.isDirectory = true
  fits : s.root.Fits maxDepth
  cursor : s.isDirectory s.cursor = true

namespace Session.Sound
variable {s : Session} {now : Instant} {above : Path} {name : String} {t : Tree} {k : Nat}

theorem content?_cursor (h : s.Sound) : s.root.content? s.cursor = some none :=
  isDirectory_iff.1 h.cursor

theorem cursor_allValid (h : s.Sound) : s.cursor.AllValid := by
  refine (h.fits s.cursor ?_).1
  rw [← Tree.isSome_content?, h.content?_cursor]
  rfl

theorem resolve_allValid (h : s.Sound) (typed : String) : (s.resolve typed).AllValid :=
  Path.resolve_allValid h.cursor_allValid typed

theorem record (h : s.Sound) (line : String) : (s.record line).Sound := ⟨h.root, h.fits, h.cursor⟩

theorem withCursor (h : s.Sound) {p : Path} (hp : s.root.content? p = some none) :
    Sound { s with cursor := p } :=
  ⟨h.root, h.fits, isDirectory_iff.2 hp⟩

theorem withEntry (h : s.Sound) (ha : s.Admits above name t) (ht : t.Fits k)
    (hv : (above.child name).AllValid) : (s.withEntry now above name t).Sound := by
  refine ⟨?root, ?fits, ?cursor⟩
  case root =>
    rw [← h.root]
    exact Tree.isDirectory_update fun d => by simp [Tree.withEntry]
  case fits =>
    intro q hq
    by_cases hbelow : above.child name <+: q
    · obtain ⟨r, rfl⟩ := hbelow
      have hr : (t.get? r).isSome := by
        rwa [Session.withEntry, Tree.get?_withEntry_below ha.directory] at hq
      have hdepth := ha.depth
      obtain ⟨hvr, hlr⟩ := ht.of_height (Nat.le_refl _) r hr
      refine ⟨hv.append hvr, ?_⟩
      rw [List.length_append, Path.length_child]
      omega
    · refine h.fits q ?_
      rwa [← Tree.isSome_content?, Session.withEntry, Tree.content?_withEntry hbelow,
        Tree.isSome_content?] at hq
  case cursor =>
    refine isDirectory_iff.2 ?_
    change (s.withEntry now above name t).root.content? s.cursor = some none
    rw [Session.withEntry, Tree.content?_withEntry (ha.not_prefix_of_directory h.content?_cursor)]
    exact h.content?_cursor

theorem withoutEntry (h : s.Sound) (hs : (s.root.get? (above.child name)).isSome) :
    ((s.withoutEntry now above name).left (above.child name)).Sound := by
  have hkept (q : Path) (hq : ¬ above.child name <+: q) :
      (s.withoutEntry now above name).root.content? q = s.root.content? q :=
    Tree.content?_withoutEntry hq
  refine ⟨?root, ?fits, ?cursor⟩
  case root =>
    rw [root_left, ← h.root]
    exact Tree.isDirectory_update fun d => by simp [Tree.withoutEntry]
  case fits =>
    intro q hq
    apply h.fits q
    cases hold : s.root.get? q with
    | some u => rfl
    | none =>
      have hgone : ((s.withoutEntry now above name).left (above.child name)).root.get? q = none :=
        get?_left_withoutEntry_eq_none_iff.2 (.inr hold)
      rw [hgone] at hq
      exact hq
  case cursor => exact isDirectory_iff.2 (content?_cursor_left hs h.content?_cursor)

theorem withDirectories (names : List String) (h : s.Sound) (hd : s.root.content? above = some none)
    (hn : ∀ name ∈ names.head?, s.root.get? (above.child name) = none)
    (hv : (above ++ names).AllValid) (hl : (above ++ names).length ≤ maxDepth) :
    (s.withDirectories now above names).Sound := by
  induction names generalizing above s with
  | nil => exact h
  | cons name rest ih =>
    let made := s.withEntry now above name (Tree.emptyDirectory (Stamps.fresh now))
    have hassoc : above.child name ++ rest = above ++ name :: rest := by simp [Path.child]
    have hfree : s.root.get? (above.child name) = none := hn name (by simp)
    have hbelow (q : Path) : made.root.get? (above.child name ++ q) =
        (Tree.emptyDirectory (Stamps.fresh now)).get? q := Tree.get?_withEntry_below hd
    have ha : s.Admits above name (Tree.emptyDirectory (Stamps.fresh now)) := by
      refine ⟨hd, ?_, .inl hfree⟩
      have hheight : (Tree.emptyDirectory (Stamps.fresh now)).node.height = 0 := rfl
      rw [List.length_append, List.length_cons] at hl
      omega
    have hmade : made.Sound :=
      h.withEntry ha (Tree.fits_emptyDirectory 0 _)
        (hv.of_prefix ⟨rest, hassoc⟩)
    rw [Session.withDirectories]
    refine ih hmade ?_ ?_ (hassoc ▸ hv) (hassoc ▸ hl)
    · have hself := hbelow []
      rw [List.append_nil] at hself
      exact Tree.content?_eq_some_none_iff.2 ⟨_, hself, rfl⟩
    · intro next _
      exact hbelow [next]

theorem update (h : s.Sound) {f : Tree → Tree}
    (hchild : ∀ d name, (f d).child? name = d.child? name)
    (hdir : ∀ d, (f d).isDirectory = d.isDirectory) (p : Path) :
    Sound { s with root := s.root.update f p } := by
  have hkept (q : Path) := Tree.map_isDirectory_update (t := s.root) (p := p) (q := q) hchild hdir
  refine ⟨(Tree.isDirectory_update hdir).trans h.root, fun q hq => h.fits q ?_, ?_⟩
  · have hsome := congrArg Option.isSome (hkept q)
    rwa [Option.isSome_map, Option.isSome_map, hq, eq_comm] at hsome
  · have hany := congrArg (Option.any id) (hkept s.cursor)
    rw [Option.any_map, Option.any_map] at hany
    exact hany.trans h.cursor

theorem landing?_allValid {p q r : Path} (hp : p.AllValid) (hq : q.AllValid)
    (h : s.landing? p q = some r) : r.AllValid := by
  rw [landing?] at h
  split at h
  · obtain ⟨name, hname, rfl⟩ := Option.map_eq_some_iff.1 h
    refine hq.append fun n hn => ?_
    obtain rfl := List.mem_singleton.1 hn
    exact hp n (List.mem_of_getLast? hname)
  · obtain rfl := Option.some_inj.1 h
    exact hq

theorem of_outcome {α : Type} {e : Edit α} {r : Except FileError α} {s' : Session} (hs : s'.Sound)
    (h : e.result s = (r, s')) : (e.result s).2.Sound := by
  rw [h]
  exact hs

theorem keptByEdits (now : Instant) : KeptByEdits now Path.AllValid Sound where
  resolve := fun s typed h => h.resolve_allValid typed
  enter := by
    intro s p _ h
    obtain ⟨hp, hr⟩ | ⟨x, hr⟩ := Edit.enter_cases p s
    · exact of_outcome (h.withCursor hp) hr
    · exact of_outcome h hr
  createDirectory := by
    intro s p parents hp h
    obtain ⟨above, name, rest, rfl, -, hd, hn, hl, hr⟩ | ⟨x, hr⟩ :=
      Edit.createDirectory_cases now p parents s
    · exact of_outcome (h.withDirectories (name :: rest) hd (by simpa using hn) hp hl) hr
    · exact of_outcome h hr
  touch := by
    intro s p hp h
    obtain ⟨-, hr⟩ | ⟨above, name, rfl, ha, -, hr⟩ | ⟨x, hr⟩ := Edit.touch_cases now p s
    · exact of_outcome (h.update (fun d _ => by simp) (fun d => by simp) p) hr
    · exact of_outcome (h.withEntry ha (Tree.fits_file 0 _ _) hp) hr
    · exact of_outcome h hr
  write := by
    intro s p text mode hp h
    obtain ⟨-, hr⟩ | ⟨above, name, rfl, ha, -, hr⟩ | ⟨x, hr⟩ := Edit.write_cases now p text mode s
    · exact of_outcome (h.update (fun d _ => by simp) (fun d => by simp) p) hr
    · exact of_outcome (h.withEntry ha (Tree.fits_file 0 _ _) hp) hr
    · exact of_outcome h hr
  remove := by
    intro s p recursive _ h
    obtain ⟨above, name, rfl, hs, hr⟩ | ⟨x, hr⟩ := Edit.remove_cases now p recursive s
    · exact of_outcome (h.withoutEntry hs) hr
    · exact of_outcome h hr
  copy := by
    intro s p q hp hq h
    obtain ⟨t, above, name, ht, hl, -, ha, hr⟩ | ⟨x, hr⟩ := Edit.copy_cases now p q s
    · have hfits := (Tree.fits_withStamps (Stamps.fresh now)).2 (h.fits.of_get? ht)
      exact of_outcome (h.withEntry ha hfits (landing?_allValid hp hq hl)) hr
    · exact of_outcome h hr
  move := by
    intro s p q hp hq h
    obtain ⟨t, home, own, above, name, rfl, ht, hl, hne, -, ha, hr⟩ | ⟨x, hr⟩ :=
      Edit.move_cases now p q s
    · have hput : (s.withEntry now above name t).Sound :=
        h.withEntry ha (h.fits.of_get? ht) (landing?_allValid hp hq hl)
      refine of_outcome (hput.withoutEntry ?_) hr
      rw [← Tree.isSome_content?, Edit.content?_withEntry_of_admits ha (by simp [ht]) hne,
        Tree.isSome_content?, ht]
      rfl
    · exact of_outcome h hr

theorem empty (now : Instant) : (Session.empty now).Sound :=
  ⟨rfl, Tree.fits_emptyDirectory _ _, rfl⟩

theorem seeded (now : Instant) : (Session.seeded now).Sound := by
  let directory (entries : List (String × Tree)) := Tree.directory entries (Stamps.fresh now)
  let file (content : String) := Tree.file content (Stamps.fresh now)
  let documents := directory [("notes.md", file notesText)]
  let user := directory [(".bashrc", file startupText), ("documents", documents),
    ("projects", directory []), ("welcome.txt", file welcomeText)]
  have hroot : (Session.seeded now).root =
      directory [("home", directory [("user", user)]), ("tmp", directory [])] := rfl
  have hfile (k : Nat) (content : String) : (file content).Fits k := Tree.fits_file k content _
  have hempty (k : Nat) : (directory []).Fits k := Tree.fits_emptyDirectory k _
  have hdocuments : documents.Fits 29 := Tree.fits_directory (by simp [hfile]; decide)
  have huser : user.Fits 30 := Tree.fits_directory (by simp [hfile, hempty, hdocuments]; decide)
  have hhome : (directory [("user", user)]).Fits 31 := Tree.fits_directory (by simp [huser]; decide)
  have hfits : (Session.seeded now).root.Fits 32 :=
    hroot ▸ Tree.fits_directory (by simp [hhome, hempty]; decide)
  have hlt : "home" < "tmp" := by decide
  have hcursor : (Session.seeded now).root.get? Path.home = some user := by
    rw [hroot, Path.home, Tree.get?_cons,
      Tree.child?_directory_of_mem (List.pairwise_pair.2 hlt) List.mem_cons_self, Option.bind_some,
      Tree.get?_cons, Tree.child?_directory_of_mem (List.pairwise_singleton _ _) List.mem_cons_self]
    rfl
  refine ⟨rfl, hfits, ?_⟩
  exact isDirectory_iff.2 (Tree.content?_eq_some_none_iff.2 ⟨user, hcursor, rfl⟩)

theorem decoded {text : String} (h : decode text = .ok s) : s.Sound := by
  rw [decode] at h
  split at h
  · obtain ⟨-, hr, hf, rfl, hc⟩ := Durable.Envelope.session_eq_ok_iff.1 h
    exact ⟨hr, hf, hc⟩
  · simp at h

end Session.Sound

/-- Every session that lines lead to is sound. -/
theorem Session.Reached.sound {s : Session} (h : s.Reached) : s.Sound := by
  induction h with
  | seeded now => exact Sound.seeded now
  | empty now => exact Sound.empty now
  | decoded h => exact Sound.decoded h
  | line now typed _ ih =>
    exact keeps_runLine (Sound.keptByEdits now) (fun _ line h => h.record line) typed _ ih

theorem Session.sound_after_removal :
    let s := ((runLine Instant.epoch "rm -r ../documents").run
      ((runLine Instant.epoch "cd documents").run (seeded Instant.epoch)).2).2
    s.Sound ∧ s.cursor = Path.home := by
  refine ⟨Reached.sound (.line _ _ (.line _ _ (.seeded _))), ?_⟩
  decide +kernel

end PracticeShell
