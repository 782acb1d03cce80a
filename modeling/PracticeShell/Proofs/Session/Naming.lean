import PracticeShell.Proofs.Line.Grammar
import PracticeShell.Proofs.Line.Replay
import PracticeShell.Proofs.Path.Resolution
import PracticeShell.Proofs.Session.Request
import PracticeShell.Proofs.Session.Soundness
import PracticeShell.Proofs.Text.Ends

/-! Where the names in a tree come from. An edit adds no names but those on its paths, and a line
types no names with separators or `>` in them. Main statement: the same holds of all names in a
session that began as the seeded one. -/
namespace PracticeShell

/-! ### Names of paths -/

namespace Tree
variable {P : String → Prop} {t : Tree} {p : Path}

def NamedBy (P : String → Prop) (t : Tree) : Prop := ∀ p, (t.get? p).isSome → ∀ name ∈ p, P name

theorem namedBy_of_leaf (h : t.Fits 0) : t.NamedBy P := by
  intro q hq n hn
  have hlength : q.length ≤ 0 := (h q hq).2
  simp [List.eq_nil_of_length_eq_zero (Nat.le_zero.1 hlength)] at hn

theorem namedBy_directory {entries : List (String × Tree)} {stamps : Stamps}
    (h : ∀ e ∈ entries, P e.1 ∧ e.2.NamedBy P) : (directory entries stamps).NamedBy P := by
  intro q hq
  cases q with
  | nil => simp
  | cons name q =>
    rw [get?_cons] at hq
    cases hc : (directory entries stamps).child? name with
    | none => simp [hc] at hq
    | some c =>
      obtain ⟨hname, hbelow⟩ := h _ (child?_directory hc)
      rw [hc] at hq
      exact List.forall_mem_cons.2 ⟨hname, hbelow q hq⟩

theorem NamedBy.of_get? {u : Tree} (h : t.NamedBy P) (hu : t.get? p = some u) : u.NamedBy P := by
  intro q hq n hn
  apply h (p ++ q)
  · rwa [get?_append, hu]
  · exact List.mem_append_right p hn

theorem NamedBy.withStamps (h : t.NamedBy P) (stamps : Stamps) : (t.withStamps stamps).NamedBy P := by
  intro q hq
  apply h q
  rwa [get?_withStamps, Option.isSome_map] at hq

end Tree

namespace Session

structure NamedBy (P : String → Prop) (s : Session) : Prop where
  tree : s.root.NamedBy P
  cursor : ∀ name ∈ s.cursor, P name

namespace NamedBy
variable {P : String → Prop} {s : Session} {now : Instant} {above p : Path} {name : String} {t : Tree}

theorem record (h : s.NamedBy P) (line : String) : (s.record line).NamedBy P := ⟨h.tree, h.cursor⟩

theorem withCursor (h : s.NamedBy P) (hp : ∀ n ∈ p, P n) : NamedBy P { s with cursor := p } :=
  ⟨h.tree, hp⟩

theorem withEntry (h : s.NamedBy P) (hd : s.root.content? above = some none)
    (hpath : ∀ n ∈ above.child name, P n) (ht : t.NamedBy P) :
    (s.withEntry now above name t).NamedBy P := by
  refine ⟨fun q hq => ?_, h.cursor⟩
  by_cases hbelow : above.child name <+: q
  · obtain ⟨r, rfl⟩ := hbelow
    have hr : (t.get? r).isSome := by
      rwa [Session.withEntry, Tree.get?_withEntry_below hd] at hq
    exact List.forall_mem_append.2 ⟨hpath, ht r hr⟩
  · apply h.tree
    rwa [← Tree.isSome_content?, Session.withEntry, Tree.content?_withEntry hbelow,
      Tree.isSome_content?] at hq

theorem withoutEntry (h : s.NamedBy P) (hpath : ∀ n ∈ above.child name, P n) :
    ((s.withoutEntry now above name).left (above.child name)).NamedBy P := by
  constructor
  · intro q hq
    apply h.tree
    cases hold : s.root.get? q with
    | some u => rfl
    | none =>
      have hgone : ((s.withoutEntry now above name).left (above.child name)).root.get? q = none :=
        get?_left_withoutEntry_eq_none_iff.2 (.inr hold)
      rw [hgone] at hq
      exact hq
  · rw [cursor_left, Path.parent?_child, Option.getD_some]
    split
    · exact fun n hn => hpath n ((Path.prefix_child above name).subset hn)
    · exact h.cursor

theorem withDirectories (names : List String) (h : s.NamedBy P)
    (hd : s.root.content? above = some none) (hpath : ∀ n ∈ above ++ names, P n) :
    (s.withDirectories now above names).NamedBy P := by
  induction names generalizing above s with
  | nil => exact h
  | cons name rest ih =>
    have hassoc : above.child name ++ rest = above ++ name :: rest := by simp [Path.child]
    rw [← hassoc] at hpath
    have hentry : ∀ n ∈ above.child name, P n := fun n hn => hpath n (List.mem_append_left _ hn)
    rw [Session.withDirectories]
    apply ih
    · exact h.withEntry hd hentry (Tree.namedBy_of_leaf (Tree.fits_emptyDirectory 0 _))
    · exact (Edit.made_empty now name hd).1
    · exact hpath

theorem update (h : s.NamedBy P) {f : Tree → Tree}
    (hchild : ∀ d name, (f d).child? name = d.child? name)
    (hdir : ∀ d, (f d).isDirectory = d.isDirectory) (p : Path) :
    NamedBy P { s with root := s.root.update f p } := by
  refine ⟨fun q hq => h.tree q ?_, h.cursor⟩
  have hsame := Tree.map_isDirectory_update (t := s.root) (p := p) (q := q) hchild hdir
  have hsome := congrArg Option.isSome hsame
  rwa [Option.isSome_map, Option.isSome_map, hq, eq_comm] at hsome

theorem landing? {q r : Path} (hp : ∀ n ∈ p, P n) (hq : ∀ n ∈ q, P n)
    (h : s.landing? p q = some r) : ∀ n ∈ r, P n := by
  rw [Session.landing?] at h
  split at h
  · obtain ⟨name, hname, rfl⟩ := Option.map_eq_some_iff.1 h
    refine List.forall_mem_append.2 ⟨hq, fun n hn => ?_⟩
    rw [List.mem_singleton.1 hn]
    exact hp name (List.mem_of_getLast? hname)
  · obtain rfl := Option.some.inj h
    exact hq

theorem of_outcome {α : Type} {e : Edit α} {r : Except FileError α} {s' : Session}
    (hs : s'.NamedBy P) (h : e.result s = (r, s')) : (e.result s).2.NamedBy P := by
  rw [h]
  exact hs

/-- An edit adds no names but those on its paths. -/
theorem keptAtPaths (now : Instant) (P : String → Prop) :
    KeptAtPaths now (fun p => ∀ n ∈ p, P n) (NamedBy P) where
  enter := by
    intro s p hp h
    cases Edit.enter_cases p s with
    | inl hr => exact of_outcome (h.withCursor hp) hr.2
    | inr hr => exact of_outcome h hr.choose_spec
  createDirectory := by
    intro s p parents hp h
    obtain ⟨above, name, rest, rfl, -, hd, -, -, hr⟩ | ⟨x, hr⟩ :=
      Edit.createDirectory_cases now p parents s
    · exact of_outcome (h.withDirectories (name :: rest) hd hp) hr
    · exact of_outcome h hr
  touch := by
    intro s p hp h
    obtain ⟨-, hr⟩ | ⟨above, name, rfl, ha, -, hr⟩ | ⟨x, hr⟩ := Edit.touch_cases now p s
    · exact of_outcome (h.update (fun d _ => by simp) (fun d => by simp) p) hr
    · exact of_outcome (h.withEntry ha.directory hp (Tree.namedBy_of_leaf (Tree.fits_file 0 _ _))) hr
    · exact of_outcome h hr
  write := by
    intro s p text mode hp h
    obtain ⟨-, hr⟩ | ⟨above, name, rfl, ha, -, hr⟩ | ⟨x, hr⟩ := Edit.write_cases now p text mode s
    · exact of_outcome (h.update (fun d _ => by simp) (fun d => by simp) p) hr
    · exact of_outcome (h.withEntry ha.directory hp (Tree.namedBy_of_leaf (Tree.fits_file 0 _ _))) hr
    · exact of_outcome h hr
  remove := by
    intro s p recursive hp h
    obtain ⟨above, name, rfl, -, hr⟩ | ⟨x, hr⟩ := Edit.remove_cases now p recursive s
    · exact of_outcome (h.withoutEntry hp) hr
    · exact of_outcome h hr
  copy := by
    intro s p q hp hq h
    obtain ⟨t, above, name, ht, hl, -, ha, hr⟩ | ⟨x, hr⟩ := Edit.copy_cases now p q s
    · have htaken := (h.tree.of_get? ht).withStamps (Stamps.fresh now)
      exact of_outcome (h.withEntry ha.directory (landing? hp hq hl) htaken) hr
    · exact of_outcome h hr
  move := by
    intro s p q hp hq h
    obtain ⟨t, home, own, above, name, rfl, ht, hl, -, -, ha, hr⟩ | ⟨x, hr⟩ :=
      Edit.move_cases now p q s
    · have hput : (s.withEntry now above name t).NamedBy P :=
        h.withEntry ha.directory (landing? hp hq hl) (h.tree.of_get? ht)
      exact of_outcome (hput.withoutEntry hp) hr
    · exact of_outcome h hr

end NamedBy

end Session

/-! ### Letters -/

namespace Path
open Token
variable {base cursor : Path} {name typed : String} {x : List Char}

theorem mem_enter {part : String} (h : name ∈ enter base part) : name ∈ base ∨ name = part := by
  rw [enter] at h
  split at h
  · exact .inl h
  · split at h
    · exact .inl (List.dropLast_subset base h)
    · simpa using h

theorem mem_follow (h : name ∈ follow base x) : name ∈ base ∨ name ∈ parts x := by
  rw [follow] at h
  generalize parts x = ps at h ⊢
  induction ps generalizing base with
  | nil => exact .inl h
  | cons part ps ih =>
    rw [List.foldl_cons] at h
    cases ih h with
    | inl hbase =>
      cases mem_enter hbase with
      | inl hold => exact .inl hold
      | inr hpart => exact .inr (hpart ▸ List.mem_cons_self)
    | inr hlater => exact .inr (List.mem_cons_of_mem part hlater)

theorem follow_isLettered (hbase : ∀ n ∈ base, IsLettered n) (hx : ∀ c ∈ x, endsWord c = false) :
    ∀ n ∈ follow base x, IsLettered n := by
  intro n hn
  cases mem_follow hn with
  | inl hold => exact hbase n hold
  | inr hpart =>
    obtain ⟨piece, hpiece, rfl⟩ := List.mem_map.1 hpart
    intro c hc
    rw [String.toList_ofList] at hc
    have hflat : c ∈ (x.splitOn '/').flatten := List.mem_flatten.2 ⟨piece, hpiece, hc⟩
    rw [List.splitOn, flatten_splitOnP] at hflat
    exact hx c (List.mem_of_mem_filter hflat)

theorem resolve_isLettered (hcursor : ∀ n ∈ cursor, IsLettered n) (ht : IsLettered typed) :
    ∀ n ∈ resolve cursor typed, IsLettered n := by
  have hhome : ∀ n ∈ home, IsLettered n := by decide
  have hrest {c : Char} {rest : List Char} (heq : typed.toList = c :: rest) :
      ∀ d ∈ rest, endsWord d = false := fun d hd => ht d (heq ▸ List.mem_cons_of_mem c hd)
  rw [resolve]
  split
  · simp [root]
  · next heq => exact follow_isLettered (by simp [root]) (hrest heq)
  · next heq => exact follow_isLettered hhome (hrest heq)
  · exact follow_isLettered hcursor ht

end Path

/-! ### Operands -/

namespace Command
variable {args : List String} {name : String} {redirect : Option Redirect} {c : Command}

theorem flagsAndOperands_subset (args : List String) : (flagsAndOperands args).2 ⊆ args := by
  induction args with
  | nil => exact List.Subset.refl _
  | cons arg rest ih =>
    rw [flagsAndOperands]
    split
    · exact List.subset_cons_self arg rest
    · cases hrest : flagsAndOperands rest with
      | mk flags operands =>
        rw [hrest] at ih
        dsimp only
        split
        · exact List.subset_cons_of_subset arg ih
        · exact List.cons_subset_cons arg ih

theorem exists_of_bind_eq_ok {ε α β : Type} {x : Except ε α} {f : α → Except ε β} {b : β}
    (h : (x >>= f) = .ok b) : ∃ a, x = .ok a ∧ f a = .ok b := by
  cases x with
  | error e => simp [bind, Except.bind] at h
  | ok a => exact ⟨a, rfl, h⟩

theorem eq_of_someOperands {usage : String} {operands taken : List String}
    (h : someOperands name usage operands = .ok taken) : taken = operands := by
  rw [someOperands] at h
  split at h
  · simp at h
  · exact (Except.ok.inj h).symm

theorem eq_of_lastAsDestination {usage destination : String} {operands sources : List String}
    (h : lastAsDestination name usage operands = .ok (sources, destination)) :
    sources ++ [destination] = operands := by
  rw [lastAsDestination] at h
  split at h
  · simp at h
  · simp at h
  · next hlast _ =>
    obtain ⟨rfl, rfl⟩ := Prod.mk.inj (Except.ok.inj h)
    exact List.dropLast_append_getLast? _ hlast

theorem operands_ofOperands {flags : List Char} {operands : List String}
    (h : ofOperands name flags operands = .ok c) : c.operands ⊆ "~" :: operands := by
  have hall : operands ⊆ "~" :: operands := List.subset_cons_self _ _
  unfold ofOperands at h
  split at h
  -- commands that look at no path, and the name of no command
  case h_1 | h_10 | h_11 | h_12 | h_13 | h_14 =>
    obtain rfl := Except.ok.inj h
    exact List.nil_subset _
  case h_15 => simp at h
  case h_2 =>
    obtain rfl := Except.ok.inj h
    exact hall
  case h_3 =>
    obtain rfl := Except.ok.inj h
    cases operands <;> simp [Command.operands]
  case h_4 | h_5 | h_6 | h_7 =>
    obtain ⟨taken, htaken, hc⟩ := exists_of_bind_eq_ok h
    obtain rfl := eq_of_someOperands htaken
    obtain rfl := Except.ok.inj hc
    exact hall
  case h_8 | h_9 =>
    obtain ⟨⟨sources, destination⟩, htaken, hc⟩ := exists_of_bind_eq_ok h
    obtain rfl := eq_of_lastAsDestination htaken
    obtain rfl := Except.ok.inj hc
    exact hall

theorem mem_operands_of_read {typed : String} (h : read name args redirect = .ok c)
    (ht : typed ∈ c.operands) :
    typed = "~" ∨ typed ∈ args ∨ ∃ r ∈ redirect, typed = targetName r.target := by
  rw [read] at h
  split at h
  · obtain rfl := Except.ok.inj h
    obtain ⟨r, hr, rfl⟩ := List.mem_map.1 ht
    exact .inr (.inr ⟨r, by simpa using hr, rfl⟩)
  · obtain ⟨command, hread, hchecked⟩ := exists_of_bind_eq_ok h
    have hcommand : command = c := by
      dsimp only at hchecked
      split at hchecked
      · simp [throw, throwThe, MonadExceptOf.throw, bind, Except.bind] at hchecked
      · exact Except.ok.inj hchecked
    subst hcommand
    cases List.mem_cons.1 (operands_ofOperands hread ht) with
    | inl hhome => exact .inl hhome
    | inr hmem => exact .inr (.inl (flagsAndOperands_subset args hmem))

theorem targetName_subset (target : String) : (targetName target).toList ⊆ target.toList := by
  rw [targetName]
  cases hinner : Text.unquoted? target with
  | none => exact List.Subset.refl _
  | some inner =>
    have hsubset : inner.toList ⊆ target.toList :=
      (Text.unquoted?_eq_some_iff.1 hinner).subset
    dsimp only
    split
    · exact List.Subset.refl _
    · exact hsubset

end Command

/-! ### Lines -/

namespace Session
variable {s : Session}

theorem isLettered_operands {history : List String} {typed entry : String} {c : Command}
    (h : Request.ofLine history typed = .command entry c) : ∀ t ∈ c.operands, Token.IsLettered t := by
  let line := CommandLine.read history typed
  obtain ⟨hfault, hname, hread⟩ : line.fault = none ∧ line.name ≠ "" ∧
      Command.read line.name line.args line.redirect = .ok c := by
    cases hfault : line.fault with
    | some cause => simp [Request.ofLine, line, hfault] at h
    | none =>
      have hname : line.name ≠ "" := by
        intro hname
        simp [Request.ofLine, line, hfault, CommandLine.isEmpty, hname] at h
      have hempty : line.isEmpty = false := by simp [CommandLine.isEmpty, hname]
      cases hread : Command.read line.name line.args line.redirect with
      | error cause => simp [Request.ofLine, line, hfault, hempty, hread] at h
      | ok command =>
        have hcommand : command = c := by
          simp [Request.ofLine, line, hfault, hempty, hread] at h
          exact h.2
        exact ⟨rfl, hname, congrArg _ hcommand⟩
  obtain ⟨hwords, htarget⟩ := CommandLine.isWord_of_read hfault hname
  intro t ht
  obtain rfl | harg | ⟨r, hr, rfl⟩ := Command.mem_operands_of_read hread ht
  · decide
  · exact (hwords t (List.mem_cons_of_mem _ harg)).isLettered
  · intro d hd
    exact (htarget r hr).isLettered d (Command.targetName_subset r.target hd)

theorem isLettered_keptByEditsOn (now : Instant) : KeptByEditsOn now Token.IsLettered
    (fun p => ∀ n ∈ p, Token.IsLettered n) (NamedBy Token.IsLettered) where
  toKeptAtPaths := NamedBy.keptAtPaths now Token.IsLettered
  resolve := fun _ _ ht h => Path.resolve_isLettered h.cursor ht

theorem NamedBy.runLine (h : s.NamedBy Token.IsLettered) (now : Instant) (typed : String) :
    ((runLine now typed).run s).2.NamedBy Token.IsLettered := by
  rw [run_runLine]
  cases hr : Request.ofLine s.history typed with
  | nothing => exact h
  | refused entry cause => exact h.record entry
  | command entry c =>
    exact Command.keeps_run_on (isLettered_keptByEditsOn now) c (isLettered_operands hr) _
      (h.record entry)

theorem NamedBy.seeded (now : Instant) : (seeded now).NamedBy Token.IsLettered := by
  let directory (entries : List (String × Tree)) := Tree.directory entries (Stamps.fresh now)
  let file (content : String) := Tree.file content (Stamps.fresh now)
  let documents := directory [("notes.md", file notesText)]
  let user := directory [(".bashrc", file startupText), ("documents", documents),
    ("projects", directory []), ("welcome.txt", file welcomeText)]
  have hnames : ∀ name ∈ [".bashrc", "documents", "home", "notes.md", "projects", "tmp", "user",
      "welcome.txt"], Token.IsLettered name := by decide
  have hfile (content : String) : (file content).NamedBy Token.IsLettered :=
    Tree.namedBy_of_leaf (Tree.fits_file 0 content _)
  have hempty : (directory []).NamedBy Token.IsLettered := Tree.namedBy_directory (by simp)
  have hdocuments : documents.NamedBy Token.IsLettered :=
    Tree.namedBy_directory (by simp [hnames, hfile])
  have huser : user.NamedBy Token.IsLettered :=
    Tree.namedBy_directory (by simp [hnames, hfile, hempty, hdocuments])
  have hhome : (directory [("user", user)]).NamedBy Token.IsLettered :=
    Tree.namedBy_directory (by simp [hnames, huser])
  have hroot : (directory [("home", directory [("user", user)]), ("tmp", directory [])]).NamedBy
      Token.IsLettered :=
    Tree.namedBy_directory (by simp [hnames, hhome, hempty])
  have hcursor : ∀ name ∈ Path.home, Token.IsLettered name := by decide
  exact ⟨hroot, hcursor⟩

inductive ReachedFromSeeded : Session → Prop
  | seeded (now : Instant) : ReachedFromSeeded (seeded now)
  | line {s : Session} (now : Instant) (typed : String) (h : ReachedFromSeeded s) :
    ReachedFromSeeded ((runLine now typed).run s).2

theorem ReachedFromSeeded.reached (h : s.ReachedFromSeeded) : s.Reached := by
  induction h with
  | seeded now => exact .seeded now
  | line now typed _ ih => exact .line now typed ih

theorem ReachedFromSeeded.namedBy (h : s.ReachedFromSeeded) : s.NamedBy Token.IsLettered := by
  induction h with
  | seeded now => exact NamedBy.seeded now
  | line now typed _ ih => exact ih.runLine now typed

end Session

end PracticeShell
