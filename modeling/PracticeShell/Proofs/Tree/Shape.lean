import PracticeShell.Proofs.Tree.Update
import PracticeShell.Session.Basic

/-! How deep a tree is, and the names in it, by induction on the entries of trees. -/
namespace PracticeShell

theorem Entries.get?_of_mem {α : Type} {es : Entries α} (h : es.Sorted) {e : String × α}
    (he : e ∈ es) :
    es.get? e.1 = some e.2 := by
  induction es with
  | nil => simp at he
  | cons d es ih =>
    have ⟨hd, hs⟩ := List.pairwise_cons.1 h
    obtain rfl | he := List.mem_cons.1 he
    · simp [Entries.get?]
    · have hne : d.1 ≠ e.1 := by
        intro heq
        exact String.lt_irrefl _ (heq ▸ hd e he)
      rw [Entries.get?, if_neg hne, ih hs he]

theorem Entries.put_of_gt {α : Type} {es : Entries α} {name : String} (a : α)
    (h : ∀ e ∈ es, e.1 < name) :
    es.put name a = es ++ [(name, a)] := by
  induction es with
  | nil => rfl
  | cons e es ih =>
    have hlt : e.1 < name := h e List.mem_cons_self
    have hne : e.1 ≠ name := by
      rintro rfl
      exact String.lt_irrefl _ hlt
    have hes := ih fun d hd => h d (List.mem_cons_of_mem _ hd)
    rw [Entries.put, if_neg hne, if_neg (String.lt_asymm hlt), hes]
    rfl

theorem Node.heightOfEntries_le_iff {es : List (String × Node)} {k : Nat} :
    heightOfEntries es ≤ k ↔ ∀ e ∈ es, e.2.height + 1 ≤ k := by
  induction es with
  | nil => simp [heightOfEntries]
  | cons e es ih => rw [heightOfEntries, Nat.max_le, ih, List.forall_mem_cons]

namespace Tree
variable {t u c : Tree} {p : Path} {name : String} {k : Nat}

theorem child?_eq_some_iff_mem {es : List (String × Node)} {s : Stamps}
    (hn : t.node = .directory es s) :
    t.child? name = some c ↔ (name, c.node) ∈ es := by
  have ho : Entries.Sorted es := by
    have h := t.ordered
    rw [hn] at h
    exact h.1
  rw [child?_eq_some_iff, hn, Node.child?]
  exact ⟨Entries.mem_of_get?, fun hm => Entries.get?_of_mem ho hm⟩

theorem exists_child_of_mem {es : List (String × Node)} {s : Stamps} (hn : t.node = .directory es s)
    {e : String × Node} (he : e ∈ es) : ∃ c, t.child? e.1 = some c ∧ c.node = e.2 := by
  have ho : e.2.Ordered := by
    have h := t.ordered
    rw [hn] at h
    exact Node.orderedEntries_iff.1 h.2 e he
  exact ⟨⟨e.2, ho⟩, (child?_eq_some_iff_mem hn).2 he, rfl⟩

theorem height_le_iff_child : t.node.height ≤ k ↔ ∀ name c, t.child? name = some c →
    c.node.height + 1 ≤ k := by
  cases hn : t.node with
  | file text s => simp [Node.height, child?_eq_some_iff, hn, Node.child?]
  | directory es s =>
    rw [Node.height, Node.heightOfEntries_le_iff]
    constructor
    · intro h name c hc
      exact h (name, c.node) ((child?_eq_some_iff_mem hn).1 hc)
    · intro h e he
      obtain ⟨c, hc, hce⟩ := exists_child_of_mem hn he
      rw [← hce]
      exact h e.1 c hc

theorem height_child (h : t.child? name = some c) : c.node.height + 1 ≤ t.node.height :=
  height_le_iff_child.1 (Nat.le_refl _) name c h

/-- Induction over the entries of trees. -/
theorem induction {P : Tree → Prop} (h : ∀ t, (∀ name c, t.child? name = some c → P c) → P t)
    (t : Tree) :
    P t := by
  have hk : ∀ k t, t.node.height < k → P t := by
    intro k
    induction k with
    | zero => intro t ht; omega
    | succ k ih =>
      intro t ht
      refine h t fun name c hc => ih c ?_
      have hlt := height_child hc
      omega
  exact hk (t.node.height + 1) t (by omega)

theorem height_of_file (h : t.isDirectory = false) : t.node.height = 0 := by
  cases hn : t.node with
  | file text s => rfl
  | directory es s => simp [isDirectory, hn, Node.isDirectory] at h

theorem length_add_height_le (h : t.get? p = some u) : p.length + u.node.height ≤ t.node.height := by
  induction p generalizing t with
  | nil =>
    obtain rfl : t = u := by simpa using h
    simp
  | cons name p ih =>
    rw [get?_cons] at h
    cases hc : t.child? name with
    | none => simp [hc] at h
    | some c =>
      have hp := ih (t := c) (by simpa [hc] using h)
      have hlt := height_child hc
      rw [List.length_cons]
      omega

theorem length_le_height (h : (t.get? p).isSome) : p.length ≤ t.node.height := by
  obtain ⟨u, hu⟩ := Option.isSome_iff_exists.1 h
  have hle := length_add_height_le hu
  omega

/-! ### Times -/

theorem get?_entriesWithStamps (s : Stamps) (es : List (String × Node)) (name : String) :
    Entries.get? name (Node.entriesWithStamps s es) =
      (Entries.get? name es).map fun n => n.withStamps s := by
  induction es with
  | nil => rfl
  | cons e es ih =>
    rw [Node.entriesWithStamps, Entries.get?, Entries.get?]
    split
    · rfl
    · exact ih

theorem child?_withStamps (s : Stamps) :
    (t.withStamps s).child? name = (t.child? name).map fun c => c.withStamps s := by
  have hnode : (t.node.withStamps s).child? name =
      (t.node.child? name).map fun n => n.withStamps s := by
    cases t.node with
    | file => simp [Node.withStamps, Node.child?]
    | directory es s' => simp [Node.withStamps, Node.child?, get?_entriesWithStamps]
  have h := node_child? (t.withStamps s) name
  have h' := node_child? t name
  cases hc : t.child? name with
  | none =>
    rw [hc] at h'
    rw [Option.map_none, child?_eq_none_iff, Tree.withStamps, hnode, ← h']
    rfl
  | some c =>
    rw [hc] at h'
    rw [Option.map_some, child?_eq_some_iff, Tree.withStamps, hnode, ← h']
    rfl

theorem get?_withStamps (s : Stamps) :
    (t.withStamps s).get? p = (t.get? p).map fun u => u.withStamps s := by
  induction p generalizing t with
  | nil => rfl
  | cons name p ih =>
    rw [get?_cons, get?_cons, child?_withStamps]
    cases t.child? name with
    | none => rfl
    | some c => exact ih

theorem node_content?_withStamps (s : Stamps) :
    (t.withStamps s).node.content? = t.node.content? := by
  simp only [withStamps]
  cases t.node <;> rfl

/-! ### Names and depth -/

/-- Every node lies at most `depth` names down, and all those names are valid. -/
def Fits (depth : Nat) (t : Tree) : Prop := ∀ p, (t.get? p).isSome → p.AllValid ∧ p.length ≤ depth

theorem Fits.of_height {depth : Nat} (h : t.Fits k) (hd : t.node.height ≤ depth) : t.Fits depth :=
  fun p hp => ⟨(h p hp).1, Nat.le_trans (length_le_height hp) hd⟩

theorem Fits.of_get? {u : Tree} (h : t.Fits k) (hu : t.get? p = some u) : u.Fits k := by
  intro q hq
  obtain ⟨hv, hl⟩ := h (p ++ q) (by simpa [get?_append, hu] using hq)
  refine ⟨fun name hn => hv name (List.mem_append_right p hn), ?_⟩
  rw [List.length_append] at hl
  omega

theorem fits_iff_child : t.Fits k ↔
    ∀ name c, t.child? name = some c → Path.isValidName name = true ∧ 0 < k ∧ c.Fits (k - 1) := by
  constructor
  · intro h name c hc
    have hcons (p : Path) (hp : (c.get? p).isSome) :=
      h (name :: p) (by simpa [get?_cons, hc] using hp)
    have hname := hcons [] rfl
    refine ⟨hname.1 name List.mem_cons_self, hname.2, fun p hp => ?_⟩
    have hp' := hcons p hp
    refine ⟨fun n hn => hp'.1 n (List.mem_cons_of_mem _ hn), ?_⟩
    have hlen := hp'.2
    rw [List.length_cons] at hlen
    omega
  · intro h p hp
    cases p with
    | nil => exact ⟨by simp [Path.AllValid], by simp⟩
    | cons name p =>
      rw [get?_cons] at hp
      cases hc : t.child? name with
      | none => simp [hc] at hp
      | some c =>
        obtain ⟨hname, hk, hfits⟩ := h name c hc
        obtain ⟨hv, hl⟩ := hfits p (by simpa [hc] using hp)
        refine ⟨?_, by rw [List.length_cons]; omega⟩
        intro n hn
        obtain rfl | hn := List.mem_cons.1 hn
        · exact hname
        · exact hv n hn

theorem Fits.height_le (h : t.Fits k) : t.node.height ≤ k := by
  induction t using Tree.induction generalizing k with
  | h t ih =>
    refine height_le_iff_child.2 fun name c hc => ?_
    obtain ⟨-, hk, hfits⟩ := fits_iff_child.1 h name c hc
    have hle := ih name c hc hfits
    omega

theorem fits_file (depth : Nat) (text : String) (s : Stamps) : (file text s).Fits depth := by
  rw [fits_iff_child]
  intro name c hc
  simp at hc

theorem fits_emptyDirectory (depth : Nat) (s : Stamps) : (emptyDirectory s).Fits depth := by
  rw [fits_iff_child]
  intro name c hc
  simp at hc

theorem fits_withStamps (s : Stamps) : (t.withStamps s).Fits k ↔ t.Fits k := by
  simp [Fits, get?_withStamps]

theorem child?_directory {entries : List (String × Tree)} {s : Stamps}
    (h : (directory entries s).child? name = some c) : (name, c) ∈ entries := by
  have hfold : ∀ (entries : List (String × Tree)) (t : Tree), t.isDirectory = true →
      (entries.foldl (fun t e => t.put e.1 e.2) t).child? name = some c →
      (name, c) ∈ entries ∨ t.child? name = some c := by
    intro entries
    induction entries with
    | nil => exact fun t _ hc => .inr hc
    | cons e entries ih =>
      intro t ht hc
      obtain he | hc := ih (t.put e.1 e.2) (by simpa using ht) hc
      · exact .inl (List.mem_cons_of_mem _ he)
      · by_cases hne : name = e.1
        · subst hne
          rw [child?_put_self ht, Option.some_inj] at hc
          exact .inl (hc ▸ List.mem_cons_self)
        · rw [child?_put_of_ne hne] at hc
          exact .inr hc
  obtain he | hc := hfold entries (emptyDirectory s) rfl h
  · exact he
  · simp at hc

theorem node_directory {entries : List (String × Tree)} (s : Stamps)
    (h : entries.Pairwise fun a b => a.1 < b.1) :
    (directory entries s).node = .directory (entries.map fun e => (e.1, e.2.node)) s := by
  have hfold : ∀ (entries : List (String × Tree)) (t : Tree) (es : List (String × Node)),
      t.node = .directory es s → (∀ d ∈ es, ∀ e ∈ entries, d.1 < e.1) →
      (entries.Pairwise fun a b => a.1 < b.1) →
      (entries.foldl (fun t e => t.put e.1 e.2) t).node =
        .directory (es ++ entries.map fun e => (e.1, e.2.node)) s := by
    intro entries
    induction entries with
    | nil => exact fun t es ht _ _ => by simpa using ht
    | cons e entries ih =>
      intro t es ht hlt hs
      obtain ⟨he, hs⟩ := List.pairwise_cons.1 hs
      have hput : (t.put e.1 e.2).node = .directory (es ++ [(e.1, e.2.node)]) s := by
        change t.node.put e.1 e.2.node = _
        rw [ht, Node.put, Entries.put_of_gt _ fun d hd => hlt d hd e List.mem_cons_self]
      have hlt' : ∀ d ∈ es ++ [(e.1, e.2.node)], ∀ f ∈ entries, d.1 < f.1 := by
        intro d hd f hf
        obtain hd | hd := List.mem_append.1 hd
        · exact hlt d hd f (List.mem_cons_of_mem _ hf)
        · rw [List.mem_singleton.1 hd]
          exact he f hf
      have hrest := ih (t.put e.1 e.2) _ hput hlt' hs
      rwa [List.append_assoc] at hrest
  exact hfold entries (emptyDirectory s) [] rfl (by simp) h

theorem child?_directory_of_mem {entries : List (String × Tree)} {s : Stamps}
    (h : entries.Pairwise fun a b => a.1 < b.1) (hc : (name, c) ∈ entries) :
    (directory entries s).child? name = some c :=
  (child?_eq_some_iff_mem (node_directory s h)).2 (List.mem_map.2 ⟨_, hc, rfl⟩)

theorem fits_directory {entries : List (String × Tree)} {s : Stamps}
    (h : ∀ e ∈ entries, Path.isValidName e.1 = true ∧ e.2.Fits k) :
    (directory entries s).Fits (k + 1) := by
  rw [fits_iff_child]
  intro name c hc
  obtain ⟨hname, hfits⟩ := h _ (child?_directory hc)
  exact ⟨hname, Nat.succ_pos k, hfits⟩

end Tree

end PracticeShell
