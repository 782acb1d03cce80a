import PracticeShell.Proofs.Tree.Shape

/-! Alterations of the node at a path, whether it exists or not. Missing directories are made on the
way, and a directory is touched if an entry of it comes or goes. Alterations at incomparable paths
commute. -/
namespace PracticeShell

theorem Entries.ext_get? {α : Type} {es fs : Entries α} (he : es.Sorted) (hf : fs.Sorted)
    (h : ∀ name, es.get? name = fs.get? name) : es = fs := by
  have hmem : ∀ {es fs : Entries α}, es.Sorted → (∀ name, es.get? name = fs.get? name) →
      ∀ e ∈ es, e ∈ fs := fun hs hsame e he => mem_of_get? (hsame e.1 ▸ get?_of_mem hs he)
  have hnodup : ∀ {es : Entries α}, es.Sorted → es.Nodup := fun hs =>
    hs.imp fun {a b} hlt heq => by
      subst heq
      exact String.lt_irrefl _ hlt
  have hperm : es.Perm fs := (List.perm_ext_iff_of_nodup (hnodup he) (hnodup hf)).2 fun e =>
    ⟨hmem he h e, hmem hf (fun name => (h name).symm) e⟩
  exact hperm.eq_of_pairwise (fun a b _ _ hab hba => absurd hba (String.lt_asymm hab)) he hf

namespace Tree
variable {t u c d : Tree} {p q r above : Path} {name other : String} {now : Instant} {a b : Option Tree}
  {f g : Option Tree → Option Tree} {F : Tree → Tree}

theorem child?_of_file (h : t.isDirectory = false) : t.child? name = none := by
  cases hc : t.child? name with
  | none => rfl
  | some c => simp [isDirectory_of_child? hc] at h

theorem put_of_file (h : t.isDirectory = false) : t.put name c = t := by
  obtain ⟨n, hn⟩ := t
  cases n with
  | file => rfl
  | directory => simp [isDirectory, Node.isDirectory] at h

theorem ext_child (hlabel : t.label = u.label) (hchild : ∀ name, t.child? name = u.child? name) :
    t = u := by
  have hget (name : String) : t.node.child? name = u.node.child? name := by
    rw [← node_child?, ← node_child?, hchild]
  obtain ⟨m, hm⟩ := t
  obtain ⟨n, hn⟩ := u
  cases m with
  | file content s =>
    cases n with
    | file content' s' => simp_all [label, Node.content?, Node.stamps]
    | directory es s' => simp [label, Node.content?] at hlabel
  | directory es s =>
    cases n with
    | file content' s' => simp [label, Node.content?] at hlabel
    | directory fs s' =>
      obtain rfl : es = fs := Entries.ext_get? hm.1 hn.1 hget
      obtain rfl : s = s' := by simpa [label, Node.content?, Node.stamps] using hlabel
      rfl

/-- Trees with the same labels at all paths are equal. -/
theorem ext_label? (h : ∀ q, t.label? q = u.label? q) : t = u := by
  induction t using Tree.induction generalizing u with
  | h t ih =>
    refine ext_child (Option.some_inj.1 (h [])) fun name => ?_
    have hname (q : Path) : ((t.child? name).bind fun c => c.label? q) =
        (u.child? name).bind fun c => c.label? q := by
      have hq := h (name :: q)
      simpa only [label?, get?_cons, Option.map_bind, Function.comp_def] using hq
    cases hc : t.child? name with
    | none =>
      cases hd : u.child? name with
      | none => rfl
      | some d => simpa [hc, hd, label?] using hname []
    | some c =>
      cases hd : u.child? name with
      | none => simpa [hc, hd, label?] using hname []
      | some d =>
        have hcd : c = d := ih name c hc fun q => by simpa [hc, hd] using hname q
        rw [hcd]

/-! ### One entry -/

/-- The directory with the entry put, replaced or removed; it is touched unless one was replaced. -/
def setEntry (now : Instant) (name : String) (entry : Option Tree) (d : Tree) : Tree :=
  match d.child? name, entry with
  | none, none => d
  | none, some c => withEntry now name c d
  | some _, none => withoutEntry now name d
  | some _, some c => d.put name c

theorem setEntry_of_none (h : d.child? name = none) :
    setEntry now name (some c) d = withEntry now name c d := by
  simp only [setEntry, h]

theorem setEntry_of_some (h : d.child? name = some u) :
    setEntry now name (some c) d = d.put name c := by
  simp only [setEntry, h]

theorem setEntry_none (h : d.child? name = some u) :
    setEntry now name none d = withoutEntry now name d := by
  simp only [setEntry, h]

@[simp] theorem isDirectory_setEntry :
    (setEntry now name a d).isDirectory = d.isDirectory := by
  rw [setEntry.eq_def]
  split <;> simp [withEntry, withoutEntry]

theorem label_setEntry : (setEntry now name a d).label =
    if (d.child? name).isSome = a.isSome then d.label else d.label.touch now := by
  rw [setEntry.eq_def]
  split <;> simp_all

theorem child?_setEntry_self :
    (setEntry now name a d).child? name = if d.isDirectory then a else none := by
  cases hd : d.isDirectory with
  | false => simp [child?_of_file, hd]
  | true =>
    rw [setEntry.eq_def]
    split <;> simp_all [withEntry, withoutEntry, child?_put_self, child?_remove_self]

theorem child?_setEntry_of_ne (h : other ≠ name) :
    (setEntry now name a d).child? other = d.child? other := by
  rw [setEntry.eq_def]
  split
  · rfl
  · exact child?_withEntry_of_ne h d
  · exact child?_withoutEntry_of_ne h d
  · exact child?_put_of_ne h

theorem touch_touch (l : Label) : (l.touch now).touch now = l.touch now := rfl

theorem setEntry_of_file (h : d.isDirectory = false) :
    setEntry now name (some c) d = d.touch now := by
  refine ext_child ?_ fun n => ?_
  · simp [label_setEntry, child?_of_file h]
  · rw [child?_of_file (by simp [h]), child?_of_file (by simp [h])]

theorem setEntry_comm (h : name ≠ other) : setEntry now name a (setEntry now other b d) =
    setEntry now other b (setEntry now name a d) := by
  refine ext_child ?_ fun n => ?_
  · simp only [label_setEntry, child?_setEntry_of_ne h, child?_setEntry_of_ne (Ne.symm h)]
    split <;> split <;> rfl
  · by_cases hn : n = name
    · subst hn
      rw [child?_setEntry_self, child?_setEntry_of_ne h, child?_setEntry_self, isDirectory_setEntry]
    · by_cases ho : n = other
      · subst ho
        rw [child?_setEntry_of_ne hn, child?_setEntry_self, child?_setEntry_self,
          isDirectory_setEntry]
      · simp only [child?_setEntry_of_ne hn, child?_setEntry_of_ne ho]

theorem setEntry_setEntry : setEntry now name (some u) (setEntry now name (some c) d) =
    setEntry now name (some u) d := by
  refine ext_child ?_ fun n => ?_
  · simp only [label_setEntry, child?_setEntry_self]
    cases hd : d.isDirectory with
    | false => simp [child?_of_file hd, touch_touch]
    | true => cases d.child? name <;> simp
  · by_cases hn : n = name
    · subst hn
      simp only [child?_setEntry_self, isDirectory_setEntry]
    · simp only [child?_setEntry_of_ne hn]

/-! ### A path -/

/-- Applies `f` to the node at a path, making missing directories above it. -/
def alter (now : Instant) (f : Option Tree → Option Tree) : Path → Option Tree → Option Tree
  | [], o => f o
  | name :: rest, o =>
    let d := o.getD (emptyDirectory (Stamps.fresh now))
    some (setEntry now name (alter now f rest (d.child? name)) d)

theorem alter_cons (o : Option Tree) : alter now f (name :: p) o =
    some (setEntry now name
      (alter now f p ((o.getD (emptyDirectory (Stamps.fresh now))).child? name))
      (o.getD (emptyDirectory (Stamps.fresh now)))) := rfl

theorem alter_append (o : Option Tree) :
    alter now f (p ++ q) o = alter now (alter now f q) p o := by
  induction p generalizing o with
  | nil => rfl
  | cons name p ih => rw [List.cons_append, alter_cons, alter_cons, ih]

theorem exists_alter (now : Instant) (f : Option Tree → Option Tree) (hne : p ≠ [])
    (o : Option Tree) : ∃ c, alter now f p o = some c := by
  cases p with
  | nil => exact absurd rfl hne
  | cons name p => exact ⟨_, rfl⟩

/-- Alterations at incomparable paths commute. -/
theorem alter_comm (h : ¬ p <+: q) (h' : ¬ q <+: p) (o : Option Tree) :
    alter now f p (alter now g q o) = alter now g q (alter now f p o) := by
  induction p generalizing q o with
  | nil => exact absurd List.nil_prefix h
  | cons name p ih =>
    cases q with
    | nil => exact absurd List.nil_prefix h'
    | cons other q =>
      simp only [alter_cons, Option.getD_some]
      generalize o.getD (emptyDirectory (Stamps.fresh now)) = d
      by_cases hname : name = other
      · subst hname
        have hp : ¬ p <+: q := fun hpq => h (List.cons_prefix_cons.2 ⟨rfl, hpq⟩)
        have hq : ¬ q <+: p := fun hqp => h' (List.cons_prefix_cons.2 ⟨rfl, hqp⟩)
        have hpne : p ≠ [] := fun hnil => hp (hnil ▸ List.nil_prefix)
        have hqne : q ≠ [] := fun hnil => hq (hnil ▸ List.nil_prefix)
        obtain ⟨x, hx⟩ := exists_alter now g hqne (d.child? name)
        obtain ⟨y, hy⟩ := exists_alter now f hpne (d.child? name)
        have hxy := ih hp hq (d.child? name)
        rw [hx, hy] at hxy ⊢
        simp only [child?_setEntry_self]
        cases hd : d.isDirectory with
        | false =>
          -- A file takes no entries: both alterations only touch it.
          have hfile : (d.touch now).isDirectory = false := by simp [hd]
          obtain ⟨x', hx'⟩ := exists_alter now f hpne none
          obtain ⟨y', hy'⟩ := exists_alter now g hqne none
          simp only [Bool.false_eq_true, if_false, hx', hy', setEntry_of_file hd,
            setEntry_of_file hfile]
        | true =>
          obtain ⟨z, hz⟩ := exists_alter now f hpne (some x)
          rw [if_pos rfl, if_pos rfl, ← hxy, hz, setEntry_setEntry, setEntry_setEntry]
      · rw [child?_setEntry_of_ne hname, child?_setEntry_of_ne (Ne.symm hname),
          setEntry_comm hname]

/-! ### What an alteration leaves -/

theorem content?_cons : t.content? (name :: r) = (t.child? name).bind fun c => c.content? r := by
  rw [content?, get?_cons]
  cases t.child? name <;> rfl

theorem content?_nil_setEntry : (setEntry now name a d).content? [] = d.content? [] := by
  have h : (setEntry now name a d).label.content = d.label.content := by
    rw [label_setEntry]
    split <;> rfl
  exact congrArg some h

/-- Outside of the altered node no content changes, except that missing directories above it are
made. -/
theorem content?_alter (now : Instant) (f : Option Tree → Option Tree) (h : ¬ p <+: r)
    (o : Option Tree) :
    ((alter now f p o).bind fun t => t.content? r) = (o.bind fun t => t.content? r) ∨
      r <+: p ∧ (o.bind fun t => t.content? r) = none ∧
        ((alter now f p o).bind fun t => t.content? r) = some none := by
  induction p generalizing r o with
  | nil => exact absurd List.nil_prefix h
  | cons name p ih =>
    rw [alter_cons, Option.bind_some]
    cases r with
    | nil =>
      rw [content?_nil_setEntry]
      cases o with
      | none => exact .inr ⟨List.nil_prefix, rfl, rfl⟩
      | some t => exact .inl rfl
    | cons other r =>
      have hbefore : (o.bind fun t => t.content? (other :: r)) =
          ((o.getD (emptyDirectory (Stamps.fresh now))).child? other).bind fun c =>
            c.content? r := by
        cases o with
        | none => rfl
        | some t => exact content?_cons
      rw [hbefore, content?_cons]
      generalize o.getD (emptyDirectory (Stamps.fresh now)) = d
      by_cases hname : other = name
      · subst hname
        rw [child?_setEntry_self]
        cases hd : d.isDirectory with
        | false => exact .inl (by simp [child?_of_file hd])
        | true =>
          have hr : ¬ p <+: r := fun hpr => h (List.cons_prefix_cons.2 ⟨rfl, hpr⟩)
          exact (ih hr (d.child? other)).imp_right fun ⟨hp, hnone, hmade⟩ =>
            ⟨List.cons_prefix_cons.2 ⟨rfl, hp⟩, hnone, hmade⟩
      · rw [child?_setEntry_of_ne hname]
        exact .inl rfl

/-! ### Alterations as changes in place -/

theorem update_append : t.update F (p ++ q) = t.update (fun u => u.update F q) p := by
  induction p generalizing t with
  | nil => rfl
  | cons name p ih =>
    cases hc : t.child? name with
    | none => rw [List.cons_append, update_cons_none hc, update_cons_none hc]
    | some c => rw [List.cons_append, update_cons_some hc, update_cons_some hc, ih]

theorem alter_of_get? (h : t.get? p = some u) (hf : f (some u) = some (F u)) :
    alter now f p (some t) = some (t.update F p) := by
  induction p generalizing t with
  | nil =>
    obtain rfl := Option.some_inj.1 h
    exact hf
  | cons name p ih =>
    cases hc : t.child? name with
    | none => simp [get?_cons, hc] at h
    | some c =>
      have hu : c.get? p = some u := by simpa [get?_cons, hc] using h
      rw [alter_cons, Option.getD_some, hc, ih hu, setEntry_of_some hc, update_cons_some hc]

theorem alter_entry (h : t.get? p = some d)
    (hF : setEntry now name (alter now f q (d.child? name)) d = F d) :
    alter now f (p ++ name :: q) (some t) = some (t.update F p) := by
  rw [alter_append]
  refine alter_of_get? h ?_
  rw [alter_cons, Option.getD_some, hF]

theorem alter_withEntry (rest : List String) (hd : t.content? above = some none)
    (hn : t.get? (above.child name) = none) (hf : alter now f rest none = some u) :
    alter now f (above ++ name :: rest) (some t) = some (t.update (withEntry now name u) above) := by
  obtain ⟨d, hd, -⟩ := content?_eq_some_none_iff.1 hd
  have hc : d.child? name = none := by simpa [get?_child, hd] using hn
  refine alter_entry hd ?_
  rw [hc, hf, setEntry_of_none hc]

theorem alter_withoutEntry (hs : (t.get? (above.child name)).isSome) (hf : ∀ c, f (some c) = none) :
    alter now f (above.child name) (some t) = some (t.update (withoutEntry now name) above) := by
  obtain ⟨d, hd, -⟩ := isDirectory_of_isSome_below hs
  have hc : (d.child? name).isSome := by simpa [get?_child, hd] using hs
  obtain ⟨c, hc⟩ := Option.isSome_iff_exists.1 hc
  refine alter_entry hd ?_
  rw [hc, alter, hf, setEntry_none hc]

def nested (now : Instant) : List String → Tree
  | [] => emptyDirectory (Stamps.fresh now)
  | name :: rest => withEntry now name (nested now rest) (emptyDirectory (Stamps.fresh now))

theorem alter_none_nested (rest : List String) :
    alter now (fun _ => some (emptyDirectory (Stamps.fresh now))) rest none =
      some (nested now rest) := by
  induction rest with
  | nil => rfl
  | cons name rest ih =>
    rw [alter_cons, Option.getD_none, child?_emptyDirectory, ih, setEntry_of_none rfl]
    rfl

theorem withEntry_nested (name next : String) (rest : List String) (d : Tree) :
    (withEntry now name (emptyDirectory (Stamps.fresh now)) d).update
        (withEntry now next (nested now rest)) [name] =
      withEntry now name (nested now (next :: rest)) d := by
  cases hd : d.isDirectory with
  | false =>
    rw [update_cons_none (child?_of_file (by simp [withEntry, hd])), withEntry, withEntry,
      put_of_file hd, put_of_file hd]
  | true =>
    have hc : (withEntry now name (emptyDirectory (Stamps.fresh now)) d).child? name =
        some (emptyDirectory (Stamps.fresh now)) := by
      simp [withEntry, child?_put_self hd]
    rw [update_cons_some hc, withEntry, put_touch, put_put]
    rfl

end Tree

end PracticeShell
