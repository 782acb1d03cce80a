import PracticeShell.Proofs.Command.Invariant
import PracticeShell.Proofs.Edit.Operation
import PracticeShell.Proofs.Edit.Times

/-! The times of nodes and the readings of the clock. Nodes get times only by being stamped afresh
or touched, so a property that both preserve holds of all times in a tree. Main statement: while the
clock does not go back, no node is modified before it was made or after the last reading. -/
namespace PracticeShell

/-! ### Times in order -/

namespace Instant
variable {a b c : Instant}

theorem le_refl (a : Instant) : a ≤ a := .inr ⟨rfl, Nat.le_refl _⟩

theorem le_trans (hab : a ≤ b) (hbc : b ≤ c) : a ≤ c := by
  obtain hab | ⟨hsecond, hnano⟩ := hab
  · obtain hbc | ⟨heq, -⟩ := hbc
    · exact .inl (Int.lt_trans hab hbc)
    · exact .inl (heq ▸ hab)
  · obtain hbc | ⟨heq, hle⟩ := hbc
    · exact .inl (hsecond ▸ hbc)
    · exact .inr ⟨hsecond.trans heq, hnano.trans hle⟩

end Instant

namespace Stamps
variable {now later : Instant} {x : Stamps}

structure InOrder (now : Instant) (x : Stamps) : Prop where
  made : x.created ≤ x.modified
  past : x.modified ≤ now

theorem InOrder.mono (h : InOrder now x) (hle : now ≤ later) : InOrder later x :=
  ⟨h.made, Instant.le_trans h.past hle⟩

structure KeptAt (now : Instant) (P : Stamps → Prop) : Prop where
  fresh : P (fresh now)
  touch : ∀ x, P x → P (x.touch now)

theorem inOrder_keptAt (now : Instant) : KeptAt now (InOrder now) where
  fresh := ⟨Instant.le_refl now, Instant.le_refl now⟩
  touch := fun _ h => ⟨Instant.le_trans h.made h.past, Instant.le_refl now⟩

end Stamps

/-! ### Trees -/

namespace Tree
variable {P Q : Stamps → Prop} {t u c : Tree} {p : Path} {name : String} {now : Instant}

def StampedBy (P : Stamps → Prop) (t : Tree) : Prop := ∀ p u, t.get? p = some u → P u.node.stamps

theorem stampedBy_iff_child : t.StampedBy P ↔
    P t.node.stamps ∧ ∀ name c, t.child? name = some c → c.StampedBy P := by
  constructor
  · intro h
    refine ⟨h [] t rfl, fun name c hc p u hu => h (name :: p) u ?_⟩
    rw [get?_cons, hc]
    exact hu
  · intro h p u hu
    cases p with
    | nil =>
      obtain rfl := Option.some.inj hu
      exact h.1
    | cons name p =>
      rw [get?_cons] at hu
      obtain ⟨c, hc, hu⟩ := Option.bind_eq_some_iff.1 hu
      exact h.2 name c hc p u hu

namespace StampedBy

theorem mono (h : t.StampedBy P) (hPQ : ∀ x, P x → Q x) : t.StampedBy Q :=
  fun p u hu => hPQ _ (h p u hu)

theorem of_get? (h : t.StampedBy P) (hu : t.get? p = some u) : u.StampedBy P := by
  intro q v hv
  apply h (p ++ q)
  rw [get?_append, hu]
  exact hv

theorem child (h : t.StampedBy P) (hc : t.child? name = some c) : c.StampedBy P :=
  (stampedBy_iff_child.1 h).2 name c hc

theorem file (text : String) {stamps : Stamps} (h : P stamps) : (Tree.file text stamps).StampedBy P :=
  stampedBy_iff_child.2 ⟨h, by simp⟩

theorem emptyDirectory {stamps : Stamps} (h : P stamps) : (Tree.emptyDirectory stamps).StampedBy P :=
  stampedBy_iff_child.2 ⟨h, by simp⟩

theorem put (ht : t.StampedBy P) (hc : c.StampedBy P) : (t.put name c).StampedBy P := by
  have hstamps : (t.put name c).node.stamps = t.node.stamps := congrArg Label.stamps label_put
  refine stampedBy_iff_child.2 ⟨hstamps ▸ ht [] t rfl, fun other d hd => ?_⟩
  by_cases hother : other = name
  · subst hother
    have hdirectory : t.isDirectory = true := by simpa using isDirectory_of_child? hd
    rw [child?_put_self hdirectory, Option.some_inj] at hd
    exact hd ▸ hc
  · rw [child?_put_of_ne hother] at hd
    exact ht.child hd

theorem remove (ht : t.StampedBy P) : (t.remove name).StampedBy P := by
  have hstamps : (t.remove name).node.stamps = t.node.stamps := congrArg Label.stamps label_remove
  refine stampedBy_iff_child.2 ⟨hstamps ▸ ht [] t rfl, fun other d hd => ?_⟩
  by_cases hother : other = name
  · subst hother
    simp [child?_remove_self] at hd
  · rw [child?_remove_of_ne hother] at hd
    exact ht.child hd

theorem write (ht : t.StampedBy P) (mode : OpenMode) (text : String) :
    (t.write mode text).StampedBy P := by
  refine stampedBy_iff_child.2 ⟨stamps_write mode text t ▸ ht [] t rfl, fun name c hc => ?_⟩
  rw [child?_write] at hc
  exact ht.child hc

theorem withStamps (t : Tree) {stamps : Stamps} (h : P stamps) : (t.withStamps stamps).StampedBy P := by
  intro p u hu
  rw [get?_withStamps] at hu
  obtain ⟨v, -, rfl⟩ := Option.map_eq_some_iff.1 hu
  cases hv : v.node <;> simpa [Tree.withStamps, hv, Node.withStamps, Node.stamps] using h

theorem directory {entries : List (String × Tree)} {stamps : Stamps} (h : P stamps)
    (hentries : ∀ e ∈ entries, e.2.StampedBy P) : (Tree.directory entries stamps).StampedBy P := by
  have hfold : ∀ (entries : List (String × Tree)) (t : Tree), t.StampedBy P →
      (∀ e ∈ entries, e.2.StampedBy P) →
      (entries.foldl (fun t e => t.put e.1 e.2) t).StampedBy P := by
    intro entries
    induction entries with
    | nil => exact fun t ht _ => ht
    | cons e entries ih =>
      intro t ht hentries
      obtain ⟨he, hrest⟩ := List.forall_mem_cons.1 hentries
      exact ih (t.put e.1 e.2) (ht.put he) hrest
  exact hfold entries _ (emptyDirectory h) hentries

theorem update {f : Tree → Tree} (ht : t.StampedBy P)
    (hf : ∀ u : Tree, u.StampedBy P → (f u).StampedBy P) : (t.update f p).StampedBy P := by
  induction p generalizing t with
  | nil => exact hf t ht
  | cons name p ih =>
    rw [Tree.update]
    split
    · next c hc => exact ht.put (ih (ht.child hc))
    · exact ht

section
variable (hP : Stamps.KeptAt now P)
include hP

theorem touch (ht : t.StampedBy P) : (t.touch now).StampedBy P := by
  have hstamps := hP.touch _ (ht [] t rfl)
  refine stampedBy_iff_child.2 ⟨stamps_touch now t ▸ hstamps, fun name c hc => ?_⟩
  rw [child?_touch] at hc
  exact ht.child hc

theorem withEntry (ht : t.StampedBy P) (hc : c.StampedBy P) :
    (t.update (Tree.withEntry now name c) p).StampedBy P :=
  ht.update fun _ hu => (hu.put hc).touch hP

theorem withoutEntry (ht : t.StampedBy P) : (t.update (Tree.withoutEntry now name) p).StampedBy P :=
  ht.update fun _ hu => hu.remove.touch hP

end

end StampedBy

end Tree

/-! ### Edits -/

namespace Edit
variable {P : Stamps → Prop} {s : Session} {now : Instant} {above : Path} {name : String}

theorem stampedBy_withDirectories (hP : Stamps.KeptAt now P) (names : List String)
    (h : s.root.StampedBy P) : (s.withDirectories now above names).root.StampedBy P := by
  induction names generalizing above s with
  | nil => exact h
  | cons name rest ih =>
    rw [Session.withDirectories]
    exact ih (h.withEntry hP (.emptyDirectory hP.fresh))

theorem stampedBy_withoutEntry (hP : Stamps.KeptAt now P) (h : s.root.StampedBy P) :
    ((s.withoutEntry now above name).left (above.child name)).root.StampedBy P := by
  rw [Session.root_left]
  exact h.withoutEntry hP

section
variable (hP : Stamps.KeptAt now P) (h : s.root.StampedBy P)
include h

theorem stampedBy_enter (p : Path) : ((enter p).result s).2.root.StampedBy P := by
  obtain ⟨-, hr⟩ | ⟨x, hr⟩ := enter_cases p s <;> rw [hr] <;> exact h

include hP

theorem stampedBy_createDirectory (p : Path) (parents : Bool) :
    ((createDirectory now p parents).result s).2.root.StampedBy P := by
  obtain ⟨above, name, rest, -, -, -, -, -, hr⟩ | ⟨x, hr⟩ := createDirectory_cases now p parents s
  · rw [hr]
    exact stampedBy_withDirectories hP (name :: rest) h
  · rwa [hr]

theorem stampedBy_touch (p : Path) : ((touch now p).result s).2.root.StampedBy P := by
  obtain ⟨-, hr⟩ | ⟨above, name, -, -, -, hr⟩ | ⟨x, hr⟩ := touch_cases now p s
  · rw [hr]
    exact h.update fun u hu => hu.touch hP
  · rw [hr]
    exact h.withEntry hP (.file "" hP.fresh)
  · rwa [hr]

theorem stampedBy_write (p : Path) (text : String) (mode : OpenMode) :
    ((write now p text mode).result s).2.root.StampedBy P := by
  obtain ⟨-, hr⟩ | ⟨above, name, -, -, -, hr⟩ | ⟨x, hr⟩ := write_cases now p text mode s
  · rw [hr]
    exact h.update fun u hu => (hu.write mode text).touch hP
  · rw [hr]
    exact h.withEntry hP (.file text hP.fresh)
  · rwa [hr]

theorem stampedBy_remove (p : Path) (recursive : Bool) :
    ((remove now p recursive).result s).2.root.StampedBy P := by
  obtain ⟨above, name, rfl, -, hr⟩ | ⟨x, hr⟩ := remove_cases now p recursive s
  · rw [hr]
    exact stampedBy_withoutEntry hP h
  · rwa [hr]

theorem stampedBy_copy (source destination : Path) :
    ((copy now source destination).result s).2.root.StampedBy P := by
  obtain ⟨t, above, name, -, -, -, -, hr⟩ | ⟨x, hr⟩ := copy_cases now source destination s
  · rw [hr]
    exact h.withEntry hP (.withStamps t hP.fresh)
  · rwa [hr]

theorem stampedBy_move (source destination : Path) :
    ((move now source destination).result s).2.root.StampedBy P := by
  obtain ⟨t, home, own, above, name, rfl, ht, -, -, -, -, hr⟩ | ⟨x, hr⟩ :=
    move_cases now source destination s
  · have hput : (s.withEntry now above name t).root.StampedBy P := h.withEntry hP (h.of_get? ht)
    rw [hr]
    exact stampedBy_withoutEntry hP hput
  · rwa [hr]

end

theorem keeps_stampedBy (hP : Stamps.KeptAt now P) :
    KeptByEdits now (fun _ => True) fun s => s.root.StampedBy P where
  resolve := fun _ _ _ => trivial
  enter := fun _ p _ h => stampedBy_enter h p
  createDirectory := fun _ p parents _ h => stampedBy_createDirectory hP h p parents
  touch := fun _ p _ h => stampedBy_touch hP h p
  write := fun _ p text mode _ h => stampedBy_write hP h p text mode
  remove := fun _ p recursive _ h => stampedBy_remove hP h p recursive
  copy := fun _ p q _ _ h => stampedBy_copy hP h p q
  move := fun _ p q _ _ h => stampedBy_move hP h p q

end Edit

/-! ### Lines -/

namespace Session
variable {P : Stamps → Prop} {s : Session} {now : Instant}

theorem stampedBy_runLine (hP : Stamps.KeptAt now P) (typed : String) (h : s.root.StampedBy P) :
    ((runLine now typed).run s).2.root.StampedBy P :=
  keeps_runLine (Edit.keeps_stampedBy hP) (fun _ _ hs => hs) typed s h

theorem stampedBy_empty (h : P (Stamps.fresh now)) : (empty now).root.StampedBy P :=
  .emptyDirectory h

theorem stampedBy_seeded (h : P (Stamps.fresh now)) : (seeded now).root.StampedBy P := by
  let directory (entries : List (String × Tree)) := Tree.directory entries (Stamps.fresh now)
  let file (content : String) := Tree.file content (Stamps.fresh now)
  let documents := directory [("notes.md", file notesText)]
  let user := directory [(".bashrc", file startupText), ("documents", documents),
    ("projects", directory []), ("welcome.txt", file welcomeText)]
  have hfile (content : String) : (file content).StampedBy P := .file content h
  have hempty : (directory []).StampedBy P := .directory h (by simp)
  have hdocuments : documents.StampedBy P := .directory h (by simp [hfile])
  have huser : user.StampedBy P := .directory h (by simp [hfile, hempty, hdocuments])
  have hhome : (directory [("user", user)]).StampedBy P := .directory h (by simp [huser])
  exact .directory h (by simpa using ⟨hhome, hempty⟩)

/-- The sessions that lines lead to while the clock does not go back, with its last reading. The
clock is read once for each line. -/
inductive ReachedBy : Instant → Session → Prop
  | seeded (now : Instant) : ReachedBy now (seeded now)
  | empty (now : Instant) : ReachedBy now (empty now)
  | line {now later : Instant} {s : Session} (typed : String) (h : ReachedBy now s)
    (hclock : now ≤ later) : ReachedBy later ((runLine later typed).run s).2

/-- No node was modified before it was made, or after the last reading of the clock. -/
theorem ReachedBy.times_in_order (h : ReachedBy now s) :
    ∀ p t, s.get? p = some t → t.node.stamps.InOrder now := by
  induction h with
  | seeded now => exact stampedBy_seeded (Stamps.inOrder_keptAt now).fresh
  | empty now => exact stampedBy_empty (Stamps.inOrder_keptAt now).fresh
  | @line now later s typed _ hclock ih =>
    have hlater : s.root.StampedBy (Stamps.InOrder later) :=
      Tree.StampedBy.mono ih fun x hx => hx.mono hclock
    exact stampedBy_runLine (Stamps.inOrder_keptAt later) typed hlater

theorem times_in_order_moved :
    let second : Instant := ⟨1, 0, by decide, by decide⟩
    let third : Instant := ⟨2, 0, by decide, by decide⟩
    let touched := ((runLine second "touch documents/notes.md").run (seeded Instant.epoch)).2
    let s := ((runLine third "mv documents projects").run touched).2
    let projects := ["home", "user", "projects"]
    (Instant.epoch ≤ second ∧ second ≤ third) ∧ s.ReachedBy third ∧
      s.root.stamps? projects = some ⟨Instant.epoch, third⟩ ∧
      s.root.stamps? (projects ++ ["documents", "notes.md"]) = some ⟨Instant.epoch, second⟩ ∧
      ∀ p t, s.get? p = some t → t.node.stamps.InOrder third := by
  intro second third touched s projects
  have hclock : Instant.epoch ≤ second ∧ second ≤ third := by decide
  have hreached : s.ReachedBy third := .line _ (.line _ (.seeded _) hclock.1) hclock.2
  exact ⟨hclock, hreached, by decide +kernel, by decide +kernel, hreached.times_in_order⟩

/-- Where the clock goes back a node can be modified before it was made. -/
example :
    let later : Instant := ⟨1, 0, by decide, by decide⟩
    let s := ((runLine Instant.epoch "touch welcome.txt").run (seeded later)).2
    s.root.stamps? ["home", "user", "welcome.txt"] = some ⟨later, Instant.epoch⟩ := by
  decide +kernel

end Session

end PracticeShell
