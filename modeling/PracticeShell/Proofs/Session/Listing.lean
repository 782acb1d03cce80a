import Mathlib.Data.List.Sort
import PracticeShell.Proofs.Completion.Candidates
import PracticeShell.Proofs.Text.ByteOrder

/-! Listings show what is there. The entries of a directory are in order and have different names,
so a listing is determined by the nodes one name below. Main statement: exactly the directories have
a listing, and it is the one that `Exact` describes. -/
namespace PracticeShell.Listing
variable {s : Session} {d : Path} {listed other : List Item} {i : Item} {t : Tree} {name : String}

structure Item.Shows (i : Item) (name : String) (t : Tree) : Prop where
  name : i.name = name
  isDirectory : i.isDirectory = t.isDirectory
  size : i.size = t.node.content?.elim 0 fun text => (Text.Utf8.encode text).length
  modified : i.modified = t.node.stamps.modified

/-- The items of the entries of `d`, each once, ordered by the bytes of their names. -/
structure Exact (s : Session) (d : Path) (listed : List Item) : Prop where
  ascending : listed.Pairwise fun i j => Text.Utf8.encode i.name < Text.Utf8.encode j.name
  mem_names_iff : ∀ name, name ∈ listed.map Item.name ↔ (s.get? (d.child name)).isSome = true
  shows : ∀ i ∈ listed, ∃ t, s.get? (d.child i.name) = some t ∧ i.Shows i.name t

theorem Item.shows_iff : i.Shows name t ↔ i = Item.ofNode name t.node := by
  have hsize : t.node.content?.elim 0 (fun text => (Text.Utf8.encode text).length) = t.node.size := by
    cases t.node <;> rfl
  constructor
  · intro h
    obtain ⟨n, directory, size, modified⟩ := i
    obtain ⟨rfl, rfl, rfl, rfl⟩ := h
    rw [hsize]
    rfl
  · intro h
    subst h
    exact ⟨rfl, rfl, hsize.symm, rfl⟩

theorem Exact.mem_iff (h : Exact s d listed) :
    i ∈ listed ↔ ∃ t, s.get? (d.child i.name) = some t ∧ i.Shows i.name t := by
  refine ⟨h.shows i, ?_⟩
  intro hi
  obtain ⟨t, ht, hshows⟩ := hi
  have hname : i.name ∈ listed.map Item.name := (h.mem_names_iff i.name).2 (by simp [ht])
  obtain ⟨j, hj, hji⟩ := List.mem_map.1 hname
  obtain ⟨u, hu, hshown⟩ := h.shows j hj
  -- Both show the one node of their name.
  have hsame : i = j := by
    rw [hji, ht] at hu
    obtain rfl := Option.some.inj hu
    rw [Item.shows_iff.1 hshows, Item.shows_iff.1 hshown, hji]
  exact hsame ▸ hj

theorem Exact.unique (h : Exact s d listed) (h' : Exact s d other) : listed = other := by
  let before (i j : Item) : Prop := Text.Utf8.encode i.name < Text.Utf8.encode j.name
  have hirrefl : Std.Irrefl before := ⟨fun _ => List.lt_irrefl _⟩
  have hantisymm : Std.Antisymm before :=
    ⟨fun _ _ hij hji => absurd (List.lt_trans hij hji) (List.lt_irrefl _)⟩
  exact h.ascending.eq_of_mem_iff h'.ascending fun i => h.mem_iff.trans h'.mem_iff.symm

theorem exact_items (s : Session) (d : Path) : Exact s d (items s d) where
  ascending := (items_pairwise s d).imp Text.Utf8.encode_lt_encode
  mem_names_iff := by
    intro name
    constructor
    · intro h
      obtain ⟨i, hi, rfl⟩ := List.mem_map.1 h
      obtain ⟨t, ht, -⟩ := mem_items_iff.1 hi
      simp [ht]
    · intro h
      obtain ⟨i, hi, rfl⟩ := Completion.exists_item h
      exact List.mem_map.2 ⟨i, hi, rfl⟩
  shows := by
    intro i hi
    obtain ⟨t, ht, hnode⟩ := mem_items_iff.1 hi
    exact ⟨t, ht, Item.shows_iff.2 hnode.symm⟩

theorem isSome_ofPath?_iff :
    (ofPath? s d).isSome = true ↔ s.isDirectory d = true := by
  rw [ofPath?, Session.isDirectory]
  cases s.get? d with
  | none => simp
  | some t => cases hn : t.node <;> simp [Tree.isDirectory, hn, Node.isDirectory, Node.entries?]

/-- Exactly the directories have a listing, and it is the exact one. -/
theorem listing_exact (s : Session) (d : Path) :
    ((ofPath? s d).isSome = true ↔ s.isDirectory d = true) ∧
      ∀ listed, ofPath? s d = some listed ↔ s.isDirectory d = true ∧ Exact s d listed := by
  refine ⟨isSome_ofPath?_iff, fun listed => ?_⟩
  have hitems {listed : List Item} (h : ofPath? s d = some listed) : items s d = listed := by
    rw [items, h]
    rfl
  constructor
  · intro h
    exact ⟨isSome_ofPath?_iff.1 (by simp [h]), hitems h ▸ exact_items s d⟩
  · intro h
    obtain ⟨hdirectory, hexact⟩ := h
    obtain ⟨found, hfound⟩ := Option.isSome_iff_exists.1 (isSome_ofPath?_iff.2 hdirectory)
    rw [hfound, hexact.unique (exact_items s d), hitems hfound]

end PracticeShell.Listing
