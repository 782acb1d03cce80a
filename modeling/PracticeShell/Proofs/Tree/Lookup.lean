import PracticeShell.Proofs.Path
import PracticeShell.Tree.Basic

/-! The node at a path of a tree, before and after a change in place. A node apart from its entries
is its label. -/
namespace PracticeShell.Tree
variable {t u c : Tree} {p q : Path} {name other : String}

theorem child?_eq_some_iff : t.child? name = some c ↔ t.node.child? name = some c.node := by
  rw [← node_child?]
  cases h : t.child? name with
  | none => simp
  | some d => simp [Tree.ext_iff]

theorem child?_eq_none_iff : t.child? name = none ↔ t.node.child? name = none := by
  rw [← node_child?]
  simp

theorem isDirectory_of_child? (h : t.child? name = some c) : t.isDirectory = true := by
  rw [child?_eq_some_iff] at h
  cases ht : t.node with
  | file text s => simp [ht, Node.child?] at h
  | directory es s => simp [isDirectory, ht, Node.isDirectory]

theorem child?_put_self (h : t.isDirectory = true) : (t.put name c).child? name = some c := by
  rw [child?_eq_some_iff]
  cases ht : t.node with
  | file text s => simp [isDirectory, ht, Node.isDirectory] at h
  | directory es s => simp [put, ht, Node.put, Node.child?]

theorem child?_put_of_ne (h : other ≠ name) : (t.put name c).child? other = t.child? other := by
  have hn : (t.node.put name c.node).child? other = t.node.child? other := by
    cases t.node with
    | file text s => rfl
    | directory es s => simp [Node.put, Node.child?, Entries.get?_put_of_ne _ _ h]
  ext d
  simp [child?_eq_some_iff, put, hn]

theorem child?_remove_self : (t.remove name).child? name = none := by
  rw [child?_eq_none_iff]
  cases ht : t.node with
  | file text s => simp [remove, ht, Node.remove, Node.child?]
  | directory es s => simp [remove, ht, Node.remove, Node.child?]

theorem child?_remove_of_ne (h : other ≠ name) : (t.remove name).child? other = t.child? other := by
  have hn : (t.node.remove name).child? other = t.node.child? other := by
    cases t.node with
    | file text s => rfl
    | directory es s => simp [Node.remove, Node.child?, Entries.get?_remove_of_ne _ h]
  ext d
  simp [child?_eq_some_iff, remove, hn]

@[simp] theorem child?_touch (now : Instant) : (t.touch now).child? name = t.child? name := by
  have hn : (t.node.touch now).child? name = t.node.child? name := by cases t.node <;> rfl
  ext d
  simp [child?_eq_some_iff, touch, hn]

@[simp] theorem child?_write (mode : OpenMode) (text : String) :
    (t.write mode text).child? name = t.child? name := by
  have hn : (t.node.write mode text).child? name = t.node.child? name := by
    cases t.node with
    | file => cases mode <;> rfl
    | directory => rfl
  ext d
  simp [child?_eq_some_iff, write, hn]

@[simp] theorem isDirectory_put : (t.put name c).isDirectory = t.isDirectory := by
  simp only [isDirectory, put]
  cases t.node <;> rfl

@[simp] theorem isDirectory_remove : (t.remove name).isDirectory = t.isDirectory := by
  simp only [isDirectory, remove]
  cases t.node <;> rfl

@[simp] theorem isDirectory_touch (now : Instant) : (t.touch now).isDirectory = t.isDirectory := by
  simp only [isDirectory, touch]
  cases t.node <;> rfl

@[simp] theorem isDirectory_write (mode : OpenMode) (text : String) :
    (t.write mode text).isDirectory = t.isDirectory := by
  simp only [isDirectory, write]
  cases t.node with
  | file => cases mode <;> rfl
  | directory => rfl

@[simp] theorem isDirectory_withStamps (s : Stamps) :
    (t.withStamps s).isDirectory = t.isDirectory := by
  simp only [isDirectory, withStamps]
  cases t.node <;> simp [Node.withStamps, Node.isDirectory]

@[simp] theorem isDirectory_emptyDirectory (s : Stamps) :
    (emptyDirectory s).isDirectory = true := rfl

@[simp] theorem isDirectory_file (text : String) (s : Stamps) :
    (file text s).isDirectory = false := rfl

@[simp] theorem child?_emptyDirectory (s : Stamps) : (emptyDirectory s).child? name = none := rfl

@[simp] theorem child?_file (text : String) (s : Stamps) : (file text s).child? name = none := rfl

/-! ### Looking up -/

theorem toOption_walk (above : Path) (t : Tree) (p : Path) :
    (walk above t p).toOption = t.get? p := by
  have h : ∀ (p : Path) (t : Tree) (a b : Path), (walk a t p).toOption = (walk b t p).toOption := by
    intro p
    induction p with
    | nil => intros; rfl
    | cons name rest ih =>
      intro t a b
      simp only [walk]
      split
      · cases t.child? name with
        | none => rfl
        | some c => exact ih c _ _
      · rfl
  exact h p t above Path.root

@[simp] theorem get?_nil : t.get? [] = some t := rfl

theorem get?_cons : t.get? (name :: p) = (t.child? name).bind fun c => c.get? p := by
  have h : t.get? (name :: p) = (walk Path.root t (name :: p)).toOption := rfl
  rw [h, walk]
  cases hc : t.child? name with
  | none => split <;> rfl
  | some c =>
    rw [if_pos (isDirectory_of_child? hc)]
    exact toOption_walk _ c p

theorem get?_append : t.get? (p ++ q) = (t.get? p).bind fun u => u.get? q := by
  induction p generalizing t with
  | nil => rfl
  | cons name p ih =>
    rw [List.cons_append, get?_cons, get?_cons]
    cases t.child? name with
    | none => rfl
    | some c => exact ih

theorem get?_child : t.get? (p.child name) = (t.get? p).bind fun u => u.child? name := by
  rw [Path.child, get?_append]
  congr 1
  funext u
  rw [get?_cons]
  cases u.child? name <;> rfl

theorem find_eq_ok_iff : t.find p = .ok u ↔ t.get? p = some u := by
  cases h : t.find p <;> simp [get?, h, Except.toOption]

theorem get?_eq_none_of_find {e : FileError} (h : t.find p = .error e) : t.get? p = none := by
  simp [get?, h, Except.toOption]

theorem isSome_get?_of_prefix (hp : p <+: q) (h : (t.get? q).isSome) : (t.get? p).isSome := by
  obtain ⟨r, rfl⟩ := hp
  rw [get?_append] at h
  cases ht : t.get? p with
  | none => simp [ht] at h
  | some u => rfl

theorem get?_eq_none_of_prefix (h : t.get? p = none) (hp : p <+: q) : t.get? q = none := by
  rw [← Option.not_isSome_iff_eq_none]
  intro hs
  simpa [h] using isSome_get?_of_prefix hp hs

theorem isDirectory_of_isSome_below (h : (t.get? (p ++ name :: q)).isSome) :
    ∃ d, t.get? p = some d ∧ d.isDirectory = true := by
  rw [get?_append] at h
  cases hd : t.get? p with
  | none => simp [hd] at h
  | some d =>
    cases hc : d.child? name with
    | none => simp [hd, get?_cons, hc] at h
    | some c => exact ⟨d, rfl, isDirectory_of_child? hc⟩

theorem get?_below_file (h : t.get? p = some u) (hf : u.isDirectory = false) :
    t.get? (p ++ name :: q) = none := by
  cases hq : t.get? (p ++ name :: q) with
  | none => rfl
  | some v =>
    have hs : (t.get? (p ++ name :: q)).isSome := by simp [hq]
    obtain ⟨d, hd, hdir⟩ := isDirectory_of_isSome_below hs
    simp_all

end PracticeShell.Tree
