import PracticeShell.Path
import Mathlib.Data.List.Infix

/-! Paths: their order by prefix, and the names that reading a typed path puts in them. -/
namespace PracticeShell.Path
variable {p q above base cursor : Path} {name : String}

theorem isAtOrBelow_iff : p.isAtOrBelow q = true ↔ q <+: p := List.isPrefixOf_iff_prefix

theorem isAtOrBelow_eq_false_iff : p.isAtOrBelow q = false ↔ ¬ q <+: p := by
  rw [← isAtOrBelow_iff, Bool.not_eq_true]

theorem eq_nil_or_child (p : Path) :
    p = [] ∨ ∃ (above : Path) (name : String), p = above.child name := by
  simpa [child] using List.eq_nil_or_concat p

@[simp] theorem parent?_child (above : Path) (name : String) :
    (above.child name).parent? = some above := by
  simp [parent?, child]

@[simp] theorem name?_child (above : Path) (name : String) :
    (above.child name).name? = some name := by
  simp [name?, child]

@[simp] theorem length_child (above : Path) (name : String) :
    (above.child name).length = above.length + 1 := by
  simp [child]

theorem child_inj {other : String} : p.child name = q.child other ↔ p = q ∧ name = other := by
  constructor
  · intro h
    obtain ⟨hp, hn⟩ := List.append_inj' h rfl
    exact ⟨hp, List.singleton_inj.1 hn⟩
  · rintro ⟨rfl, rfl⟩
    rfl

theorem prefix_child (above : Path) (name : String) : above <+: above.child name :=
  List.prefix_append _ _

theorem parent_prefix (p : Path) : p.parent?.getD root <+: p := by
  obtain rfl | ⟨above, name, rfl⟩ := eq_nil_or_child p
  · exact List.prefix_rfl
  · rw [parent?_child]
    exact prefix_child above name

theorem not_child_prefix (above : Path) (name : String) : ¬ above.child name <+: above := by
  intro h
  have hl := h.length_le
  rw [length_child] at hl
  omega

/-! ### Typed paths -/

def AllValid (p : Path) : Prop := ∀ name ∈ p, isValidName name = true

theorem AllValid.of_prefix (h : q.AllValid) (hp : p <+: q) : p.AllValid :=
  fun name hn => h name (hp.subset hn)

theorem AllValid.append (hp : p.AllValid) (hq : q.AllValid) : AllValid (p ++ q) := by
  intro name hn
  obtain hn | hn := List.mem_append.1 hn
  · exact hp name hn
  · exact hq name hn

theorem AllValid.dropLast (h : p.AllValid) : AllValid p.dropLast :=
    h.of_prefix (List.dropLast_prefix p)

theorem root_allValid : root.AllValid := by
  intro name hn
  simp [root] at hn

theorem home_allValid : home.AllValid := by
  unfold AllValid
  decide

theorem not_mem_of_mem_splitOn {c : Char} {cs piece : List Char} (h : piece ∈ cs.splitOn c) :
    c ∉ piece := by
  induction cs generalizing piece with
  | nil =>
    rw [List.splitOn_nil, List.mem_singleton] at h
    simp [h]
  | cons d cs ih =>
    rw [List.splitOn_cons_eq_if_modifyHead] at h
    split at h
    · obtain rfl | h := List.mem_cons.1 h
      · simp
      · exact ih h
    · next hd =>
      cases hs : cs.splitOn c with
      | nil => exact absurd hs (List.splitOn_ne_nil c cs)
      | cons first others =>
        rw [hs, List.modifyHead_cons] at h
        obtain rfl | h := List.mem_cons.1 h
        · have hf : c ∉ first := ih (by simp [hs])
          simp only [beq_iff_eq] at hd
          simp [hf, Ne.symm hd]
        · exact ih (by simp [hs, h])

theorem enter_allValid {part : String} (hb : base.AllValid) (hpart : '/' ∉ part.toList) :
    (enter base part).AllValid := by
  rw [enter]
  split
  · exact hb
  · next hne =>
    split
    · exact hb.dropLast
    · next hup =>
      refine hb.append fun name hn => ?_
      obtain rfl := List.mem_singleton.1 hn
      simp_all [isValidName]

theorem follow_allValid (hb : base.AllValid) (text : List Char) : (follow base text).AllValid := by
  have h : ∀ (ps : List String) (base : Path), base.AllValid → (∀ part ∈ ps, '/' ∉ part.toList) →
      AllValid (ps.foldl enter base) := by
    intro ps
    induction ps with
    | nil => intro base hb _; exact hb
    | cons part ps ih =>
      intro base hb hps
      exact ih _ (enter_allValid hb (hps part List.mem_cons_self))
        fun other ho => hps other (List.mem_cons_of_mem _ ho)
  refine h (parts text) base hb fun part hpart => ?_
  obtain ⟨piece, hpiece, rfl⟩ := List.mem_map.1 hpart
  rw [String.toList_ofList]
  exact not_mem_of_mem_splitOn hpiece

theorem resolve_allValid (hc : cursor.AllValid) (typed : String) :
    (resolve cursor typed).AllValid := by
  rw [resolve]
  split
  · exact root_allValid
  · exact follow_allValid root_allValid _
  · exact follow_allValid home_allValid _
  · exact follow_allValid hc _

end PracticeShell.Path
