import PracticeShell.Proofs.Tree.Lookup

/-! A change in place is seen at its path and below, and nowhere else. Of the nodes above it only
the entries change, which their labels do not show. -/
namespace PracticeShell

/-- What a node is apart from its entries: the text of a file, none for a directory, and
its times. -/
structure Label where
  content : Option String
  stamps : Stamps
deriving DecidableEq, Repr

def Label.touch (now : Instant) (l : Label) : Label := { l with stamps := l.stamps.touch now }

namespace Tree
variable {t u d : Tree} {p q above : Path} {name : String} {f : Tree → Tree} {now : Instant}

def label (t : Tree) : Label := ⟨t.node.content?, t.node.stamps⟩

def label? (t : Tree) (p : Path) : Option Label := (t.get? p).map label

/-- The text of the file at a path, `some none` for a directory there. -/
def content? (t : Tree) (p : Path) : Option (Option String) :=
    (t.get? p).map fun u => u.node.content?

theorem content?_eq_label? (t : Tree) (p : Path) :
    t.content? p = (t.label? p).map Label.content := by
  rw [content?, label?, Option.map_map]
  rfl

@[simp] theorem isSome_content? : (t.content? p).isSome = (t.get? p).isSome := by simp [content?]

theorem content?_eq_none_iff : t.content? p = none ↔ t.get? p = none := by simp [content?]

theorem isDirectory_eq (t : Tree) : t.isDirectory = t.node.content?.isNone := by
  rw [isDirectory]
  cases t.node <;> rfl

theorem content?_eq_some_none_iff :
    t.content? p = some none ↔ ∃ d, t.get? p = some d ∧ d.isDirectory = true := by
  simp [content?, isDirectory_eq]

theorem content?_above (h : (t.get? (above.child name)).isSome) : t.content? above = some none :=
  content?_eq_some_none_iff.2 (isDirectory_of_isSome_below h)

theorem content?_on_way (hs : (t.get? p).isSome) (hq : q <+: p) (hne : q ≠ p) :
    t.content? q = some none := by
  obtain ⟨r, rfl⟩ := hq
  cases r with
  | nil => simp at hne
  | cons name r => exact content?_eq_some_none_iff.2 (isDirectory_of_isSome_below hs)

theorem content?_on_way_to_entry (hd : t.content? above = some none) (hq : q <+: above.child name)
    (hne : q ≠ above.child name) : t.content? q = some none := by
  obtain he | hq := List.prefix_concat_iff.1 hq
  · exact absurd he hne
  · by_cases he : q = above
    · rwa [he]
    · refine content?_on_way ?_ hq he
      rw [← isSome_content?, hd]
      rfl

theorem not_prefix_of_file (hf : t.get? p = some u) (hu : u.isDirectory = false)
    (hq : t.content? q = some none) : ¬ p <+: q := by
  rintro ⟨r, rfl⟩
  obtain ⟨d, hd, hdir⟩ := content?_eq_some_none_iff.1 hq
  cases r with
  | nil => simp_all
  | cons name r => simp [get?_below_file hf hu] at hd

theorem content?_eq_some_some_iff {text : String} :
    t.content? p = some (some text) ↔ ∃ u, t.get? p = some u ∧ u.node.content? = some text := by
  simp [content?]

theorem exists_content? (h : t.get? p = some u) (hf : u.isDirectory = false) :
    ∃ text, t.content? p = some (some text) := by
  rw [isDirectory_eq, Option.isNone_eq_false_iff, Option.isSome_iff_exists] at hf
  obtain ⟨text, ht⟩ := hf
  exact ⟨text, content?_eq_some_some_iff.2 ⟨u, h, ht⟩⟩

@[simp] theorem label_put : (t.put name u).label = t.label := by
  simp only [label, put]
  cases t.node <;> rfl

@[simp] theorem label_remove : (t.remove name).label = t.label := by
  simp only [label, remove]
  cases t.node <;> rfl

@[simp] theorem label_touch : (t.touch now).label = t.label.touch now := by
  simp only [label, touch]
  cases t.node <;> rfl

/-! ### Changes in place -/

theorem update_cons_some {c : Tree} (h : t.child? name = some c) :
    t.update f (name :: p) = t.put name (c.update f p) := by
  rw [update, h]

theorem update_cons_none (h : t.child? name = none) : t.update f (name :: p) = t := by
  rw [update, h]

theorem get?_update_append :
    (t.update f p).get? (p ++ q) = (t.get? p).bind fun u => (f u).get? q := by
  induction p generalizing t with
  | nil => rfl
  | cons name p ih =>
    rw [List.cons_append, get?_cons, get?_cons]
    cases hc : t.child? name with
    | none => simp [update_cons_none hc, hc]
    | some c =>
      rw [update_cons_some hc, child?_put_self (isDirectory_of_child? hc)]
      exact ih

theorem get?_update_self : (t.update f p).get? p = (t.get? p).map f := by
  have h := get?_update_append (t := t) (f := f) (p := p) (q := [])
  rw [List.append_nil] at h
  rw [h]
  cases t.get? p <;> rfl

theorem label?_update_of_not_below (h : ¬ p <+: q) : (t.update f p).label? q = t.label? q := by
  induction p generalizing t q with
  | nil => exact absurd List.nil_prefix h
  | cons name p ih =>
    cases hc : t.child? name with
    | none => rw [update_cons_none hc]
    | some c =>
      rw [update_cons_some hc]
      cases q with
      | nil => simp [label?]
      | cons other q =>
        rw [label?, label?, get?_cons, get?_cons]
        by_cases ho : other = name
        · subst ho
          rw [child?_put_self (isDirectory_of_child? hc), hc]
          exact ih fun hpq => h (List.cons_prefix_cons.2 ⟨rfl, hpq⟩)
        · rw [child?_put_of_ne ho]

/-- A change at a path that keeps the entries changes no other label. -/
theorem label?_update_of_ne (hchild : ∀ d name, (f d).child? name = d.child? name) (hne : q ≠ p) :
    (t.update f p).label? q = t.label? q := by
  by_cases hpq : p <+: q
  · obtain ⟨r, rfl⟩ := hpq
    cases r with
    | nil => simp at hne
    | cons name r =>
      rw [label?, label?, get?_update_append, get?_append]
      cases t.get? p with
      | none => rfl
      | some d => simp [get?_cons, hchild]
  · exact label?_update_of_not_below hpq

theorem get?_update_of_incomparable (h : ¬ p <+: q) (h' : ¬ q <+: p) :
    (t.update f p).get? q = t.get? q := by
  induction p generalizing t q with
  | nil => exact absurd List.nil_prefix h
  | cons name p ih =>
    cases q with
    | nil => exact absurd List.nil_prefix h'
    | cons other q =>
      cases hc : t.child? name with
      | none => rw [update_cons_none hc]
      | some c =>
        rw [update_cons_some hc, get?_cons, get?_cons]
        by_cases ho : other = name
        · subst ho
          rw [child?_put_self (isDirectory_of_child? hc), hc]
          exact ih (fun hpq => h (List.cons_prefix_cons.2 ⟨rfl, hpq⟩))
            (fun hqp => h' (List.cons_prefix_cons.2 ⟨rfl, hqp⟩))
        · rw [child?_put_of_ne ho]

theorem isDirectory_update (hf : ∀ u, (f u).isDirectory = u.isDirectory) :
    (t.update f p).isDirectory = t.isDirectory := by
  cases p with
  | nil => exact hf t
  | cons name p =>
    cases hc : t.child? name with
    | none => rw [update_cons_none hc]
    | some c => rw [update_cons_some hc, isDirectory_put]

theorem map_isDirectory_update (hchild : ∀ d name, (f d).child? name = d.child? name)
    (hdir : ∀ d, (f d).isDirectory = d.isDirectory) :
    ((t.update f p).get? q).map isDirectory = (t.get? q).map isDirectory := by
  by_cases hpq : p <+: q
  · obtain ⟨r, rfl⟩ := hpq
    rw [get?_update_append, get?_append]
    cases t.get? p with
    | none => rfl
    | some d =>
      cases r with
      | nil => simp [hdir]
      | cons name r => simp [get?_cons, hchild]
  · have h := label?_update_of_not_below (t := t) (f := f) hpq
    have hkind (u : Tree) : u.isDirectory = u.label.content.isNone := isDirectory_eq u
    have hmap (u : Option Tree) :
        u.map isDirectory = (u.map label).map fun l => l.content.isNone := by
      cases u <;> simp [hkind]
    rw [hmap, hmap]
    exact congrArg _ h

theorem put_put (name : String) (t u v : Tree) : (t.put name u).put name v = t.put name v := by
  ext
  simp only [put]
  cases t.node with
  | file => rfl
  | directory es s => simp [Node.put, Entries.put_put]

theorem put_remove (name : String) (t u : Tree) : (t.remove name).put name u = t.put name u := by
  obtain ⟨n, hn⟩ := t
  ext
  simp only [put, remove]
  cases n with
  | file => rfl
  | directory es s => simp [Node.put, Node.remove, Entries.put_remove hn.1]

theorem update_update {g : Tree → Tree} :
    (t.update f p).update g p = t.update (fun u => g (f u)) p := by
  induction p generalizing t with
  | nil => rfl
  | cons name p ih =>
    cases hc : t.child? name with
    | none => simp [update_cons_none hc]
    | some c =>
      rw [update_cons_some hc, update_cons_some hc,
        update_cons_some (child?_put_self (isDirectory_of_child? hc)), put_put, ih]

theorem put_touch (now : Instant) (name : String) (t u : Tree) :
    (t.touch now).put name u = (t.put name u).touch now := by
  ext
  simp only [put, touch]
  cases t.node <;> rfl

/-! ### Entries added and taken away -/

def withEntry (now : Instant) (name : String) (u : Tree) (d : Tree) : Tree :=
    (d.put name u).touch now

def withoutEntry (now : Instant) (name : String) (d : Tree) : Tree := (d.remove name).touch now

theorem withEntry_withoutEntry :
    withEntry now name u (withoutEntry now name d) = withEntry now name u d := by
  have htt : ∀ v : Tree, (v.touch now).touch now = v.touch now := by
    intro v
    ext
    simp only [touch]
    cases v.node <;> rfl
  rw [withEntry, withoutEntry, put_touch, htt, put_remove, withEntry]

theorem get?_withEntry_below (h : t.content? above = some none) :
    (t.update (withEntry now name u) above).get? (above.child name ++ q) = u.get? q := by
  obtain ⟨d, hd, hdir⟩ := content?_eq_some_none_iff.1 h
  rw [Path.child, List.append_assoc, get?_update_append, hd]
  simp [withEntry, get?_cons, child?_put_self hdir]

theorem get?_withoutEntry_below :
    (t.update (withoutEntry now name) above).get? (above.child name ++ q) = none := by
  rw [Path.child, List.append_assoc, get?_update_append]
  cases t.get? above with
  | none => rfl
  | some d => simp [withoutEntry, get?_cons, child?_remove_self]

/-- A change of one entry changes no label outside of it but that of the directory. -/
theorem label?_update_entry (hother : ∀ d other, other ≠ name → (f d).child? other = d.child? other)
    (hq : ¬ above.child name <+: q) (hne : q ≠ above) :
    (t.update f above).label? q = t.label? q := by
  by_cases hpq : above <+: q
  · obtain ⟨r, rfl⟩ := hpq
    cases r with
    | nil => simp at hne
    | cons other r =>
      have ho : other ≠ name := by
        rintro rfl
        exact hq ⟨r, by simp [Path.child]⟩
      rw [label?, label?, get?_update_append, get?_append]
      cases t.get? above with
      | none => rfl
      | some d => simp [get?_cons, hother d other ho]
  · exact label?_update_of_not_below hpq

theorem get?_update_entry (hother : ∀ d other, other ≠ name → (f d).child? other = d.child? other)
    (hq : ¬ above.child name <+: q) (hq' : ¬ q <+: above) :
    (t.update f above).get? q = t.get? q := by
  by_cases hpq : above <+: q
  · obtain ⟨r, rfl⟩ := hpq
    cases r with
    | nil => simp at hq'
    | cons other r =>
      have ho : other ≠ name := by
        rintro rfl
        exact hq ⟨r, by simp [Path.child]⟩
      rw [get?_update_append, get?_append]
      cases t.get? above with
      | none => rfl
      | some d => simp [get?_cons, hother d other ho]
  · exact get?_update_of_incomparable hpq hq'

theorem child?_withEntry_of_ne {other : String} (h : other ≠ name) (d : Tree) :
    (withEntry now name u d).child? other = d.child? other := by
  simp [withEntry, child?_put_of_ne h]

theorem child?_withoutEntry_of_ne {other : String} (h : other ≠ name) (d : Tree) :
    (withoutEntry now name d).child? other = d.child? other := by
  simp [withoutEntry, child?_remove_of_ne h]

@[simp] theorem label_withEntry : (withEntry now name u d).label = d.label.touch now := by
  simp [withEntry]

@[simp] theorem label_withoutEntry : (withoutEntry now name d).label = d.label.touch now := by
  simp [withoutEntry]

theorem label?_withEntry (hq : ¬ above.child name <+: q) (hne : q ≠ above) :
    (t.update (withEntry now name u) above).label? q = t.label? q :=
  label?_update_entry (fun d _ ho => child?_withEntry_of_ne ho d) hq hne

theorem label?_withoutEntry (hq : ¬ above.child name <+: q) (hne : q ≠ above) :
    (t.update (withoutEntry now name) above).label? q = t.label? q :=
  label?_update_entry (fun d _ ho => child?_withoutEntry_of_ne ho d) hq hne

theorem label?_withEntry_above :
    (t.update (withEntry now name u) above).label? above =
      (t.label? above).map (Label.touch now) := by
  rw [label?, get?_update_self, label?, Option.map_map, Option.map_map]
  congr 1
  funext d
  exact label_withEntry

theorem label?_withoutEntry_above :
    (t.update (withoutEntry now name) above).label? above =
      (t.label? above).map (Label.touch now) := by
  rw [label?, get?_update_self, label?, Option.map_map, Option.map_map]
  congr 1
  funext d
  exact label_withoutEntry

theorem content?_withEntry (hq : ¬ above.child name <+: q) :
    (t.update (withEntry now name u) above).content? q = t.content? q := by
  rw [content?_eq_label?, content?_eq_label?]
  by_cases hne : q = above
  · subst hne
    rw [label?_withEntry_above, Option.map_map]
    rfl
  · rw [label?_withEntry hq hne]

theorem content?_withoutEntry (hq : ¬ above.child name <+: q) :
    (t.update (withoutEntry now name) above).content? q = t.content? q := by
  rw [content?_eq_label?, content?_eq_label?]
  by_cases hne : q = above
  · subst hne
    rw [label?_withoutEntry_above, Option.map_map]
    rfl
  · rw [label?_withoutEntry hq hne]

theorem get?_withoutEntry_eq_none_iff : (t.update (withoutEntry now name) above).get? q = none ↔
    above.child name <+: q ∨ t.get? q = none := by
  by_cases hq : above.child name <+: q
  · obtain ⟨r, rfl⟩ := hq
    simp [get?_withoutEntry_below]
  · rw [← content?_eq_none_iff, content?_withoutEntry hq, content?_eq_none_iff]
    simp [hq]

end Tree

end PracticeShell
