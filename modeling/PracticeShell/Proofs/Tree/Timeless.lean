import PracticeShell.Proofs.Tree.Shape

/-! Trees without their times. Every change of a tree does the same to the tree without times. -/
namespace PracticeShell

namespace Entries
variable {α β : Type} {f : α → β}

theorem map_put (name : String) (a : α) (es : Entries α) :
    (put name a es).map (fun e => (e.1, f e.2)) = put name (f a) (es.map fun e => (e.1, f e.2)) := by
  induction es with
  | nil => rfl
  | cons e es ih =>
    simp only [put, List.map_cons]
    split
    · rfl
    · split
      · rfl
      · rw [List.map_cons, ih]

theorem map_remove (name : String) (es : Entries α) :
    (remove name es).map (fun e => (e.1, f e.2)) = remove name (es.map fun e => (e.1, f e.2)) := by
  induction es with
  | nil => rfl
  | cons e es ih =>
    simp only [remove, List.map_cons]
    split
    · exact ih
    · rw [List.map_cons, ih]

end Entries

namespace Node
variable {stamps other : Stamps}

mutual
theorem withStamps_withStamps : (n : Node) →
    (n.withStamps other).withStamps stamps = n.withStamps stamps
  | .file .. => rfl
  | .directory es _ => by simp only [withStamps, entriesWithStamps_twice es]

theorem entriesWithStamps_twice : (es : List (String × Node)) →
    entriesWithStamps stamps (entriesWithStamps other es) = entriesWithStamps stamps es
  | [] => rfl
  | (_, n) :: es => by
    simp only [entriesWithStamps, withStamps_withStamps n, entriesWithStamps_twice es]
end

mutual
theorem height_withStamps : (n : Node) → (n.withStamps stamps).height = n.height
  | .file .. => rfl
  | .directory es _ => heightOfEntries_withStamps es

theorem heightOfEntries_withStamps : (es : List (String × Node)) →
    heightOfEntries (entriesWithStamps stamps es) = heightOfEntries es
  | [] => rfl
  | (_, n) :: es => by
    simp only [entriesWithStamps, heightOfEntries, height_withStamps n,
      heightOfEntries_withStamps es]
end

end Node

namespace Tree
variable {t u c d : Tree} {p : Path} {name : String} {stamps : Stamps} {now : Instant}

def untimed (t : Tree) : Tree := t.withStamps (Stamps.fresh Instant.epoch)

@[simp] theorem untimed_withStamps : (t.withStamps stamps).untimed = t.untimed :=
  Tree.ext (Node.withStamps_withStamps t.node)

@[simp] theorem untimed_touch : (t.touch now).untimed = t.untimed := by
  ext1
  simp only [untimed, withStamps, touch]
  cases t.node <;> rfl

theorem untimed_put : (t.put name c).untimed = t.untimed.put name c.untimed := by
  ext1
  simp only [untimed, withStamps, put]
  cases t.node with
  | file => rfl
  | directory es s =>
    simp only [Node.put, Node.withStamps, Node.entriesWithStamps_eq_map, Entries.map_put]

theorem untimed_remove : (t.remove name).untimed = t.untimed.remove name := by
  ext1
  simp only [untimed, withStamps, remove]
  cases t.node with
  | file => rfl
  | directory es s =>
    simp only [Node.remove, Node.withStamps, Node.entriesWithStamps_eq_map, Entries.map_remove]

theorem untimed_write (mode : OpenMode) (text : String) :
    (t.write mode text).untimed = t.untimed.write mode text := by
  ext1
  simp only [untimed, withStamps, write]
  cases t.node with
  | file => cases mode <;> rfl
  | directory => rfl

theorem height_untimed : t.untimed.node.height = t.node.height := Node.height_withStamps t.node

theorem names_untimed : t.untimed.node.entries?.map (List.map Prod.fst) =
    t.node.entries?.map (List.map Prod.fst) := by
  simp only [untimed, withStamps]
  cases t.node with
  | file => rfl
  | directory es s =>
    simp [Node.withStamps, Node.entries?, Node.entriesWithStamps_eq_map, Function.comp_def]

theorem untimed_walk (above : Path) (names : List String) :
    walk above t.untimed names = (walk above t names).map untimed := by
  induction names generalizing above t with
  | nil => rfl
  | cons name rest ih =>
    simp only [walk, untimed, isDirectory_withStamps, child?_withStamps]
    split
    · cases t.child? name with
      | none => rfl
      | some c => exact ih (above.child name)
    · rfl

/-- Two trees that differ in times only. -/
def Alike (t u : Tree) : Prop := t.untimed = u.untimed

namespace Alike

theorem isDirectory (h : t.Alike u) : t.isDirectory = u.isDirectory := by
  have hu := congrArg Tree.isDirectory h
  simpa [untimed] using hu

theorem height (h : t.Alike u) : t.node.height = u.node.height := by
  rw [← height_untimed, h, height_untimed]

theorem content? (h : t.Alike u) : t.node.content? = u.node.content? := by
  rw [← node_content?_withStamps (Stamps.fresh Instant.epoch)]
  exact (congrArg (fun t => t.node.content?) h).trans (node_content?_withStamps _)

theorem names (h : t.Alike u) : t.node.entries?.map (List.map Prod.fst) =
    u.node.entries?.map (List.map Prod.fst) := by
  rw [← names_untimed, h, names_untimed]

theorem put (h : t.Alike u) (hc : c.Alike d) : (t.put name c).Alike (u.put name d) := by
  rw [Alike, untimed_put, untimed_put, h, hc]

theorem remove (h : t.Alike u) : (t.remove name).Alike (u.remove name) := by
  rw [Alike, untimed_remove, untimed_remove, h]

theorem write (h : t.Alike u) (mode : OpenMode) (text : String) :
    (t.write mode text).Alike (u.write mode text) := by
  rw [Alike, untimed_write, untimed_write, h]

theorem touch (h : t.Alike u) (now now' : Instant) : (t.touch now).Alike (u.touch now') := by
  rw [Alike, untimed_touch, untimed_touch, h]

theorem withStamps (h : t.Alike u) (stamps stamps' : Stamps) :
    (t.withStamps stamps).Alike (u.withStamps stamps') := by
  rw [Alike, untimed_withStamps, untimed_withStamps, h]

theorem child? (h : t.Alike u) (name : String) :
    (t.child? name).map untimed = (u.child? name).map untimed := by
  have hchild (t : Tree) : t.untimed.child? name = (t.child? name).map untimed := child?_withStamps _
  rw [← hchild, h, hchild]

theorem isSome_child? (h : t.Alike u) (name : String) :
    (t.child? name).isSome = (u.child? name).isSome := by
  simpa using congrArg Option.isSome (h.child? name)

theorem isNone_child? (h : t.Alike u) (name : String) :
    (t.child? name).isNone = (u.child? name).isNone := by
  simpa using congrArg Option.isNone (h.child? name)

theorem find (h : t.Alike u) (p : Path) : (t.find p).map untimed = (u.find p).map untimed := by
  rw [Tree.find, ← untimed_walk, h, untimed_walk]
  rfl

theorem update {f g : Tree → Tree} (hfg : ∀ t u, t.Alike u → (f t).Alike (g u)) (h : t.Alike u)
    (p : Path) : (t.update f p).Alike (u.update g p) := by
  induction p generalizing t u with
  | nil => exact hfg t u h
  | cons name rest ih =>
    have hc := h.child? name
    simp only [Tree.update]
    cases ht : t.child? name <;> cases hu : u.child? name <;> simp only [ht, hu] at hc ⊢
    · exact h
    · simp at hc
    · simp at hc
    · exact h.put (ih (Option.some_inj.1 hc))

end Alike

end Tree

end PracticeShell
