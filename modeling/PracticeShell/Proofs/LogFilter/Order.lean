import PracticeShell.Terminal.LogFilter
import Mathlib.Data.List.Induction
import Mathlib.Data.List.Pairwise
import Mathlib.Data.List.Sort

/-! The order of directives, and the canonical form of a list of them. Of directives for the same
messages the last one counts, and a canonical list is its own canonical form. -/
namespace PracticeShell.LogFilter

/-! ### Lawful comparisons -/

namespace Value

def size : Value → Int
  | .boolean b => if b then 1 else 0
  | .double d => d.value
  | .natural n => n
  | .integer i => i
  | .notANumber | .pattern _ => 0

def letters : Value → String
  | .pattern text => text
  | _ => ""

theorem compare_natCast (m n : Nat) : Ord.compare (m : Int) n = Ord.compare m n := by
  simp [Int.compare_eq_ite_lt, Nat.compare_eq_ite_lt]

theorem compare_eq (a b : Value) : a.compare b =
    compareLex (compareOn rank) (compareLex (compareOn size) (compareOn letters)) a b := by
  cases a <;> cases b
  case boolean.boolean a b => cases a <;> cases b <;> rfl
  case double.double a b => simp [compare, compareLex, compareOn, rank, size, letters]
  case natural.natural m n =>
    simp [compare, compareLex, compareOn, rank, size, letters, compare_natCast]
  case integer.integer i j => simp [compare, compareLex, compareOn, rank, size, letters]
  case pattern.pattern a b => simp [compare, compareLex, compareOn, rank, size, letters]
  all_goals rfl

instance : Std.TransCmp compare := by
  rw [funext₂ compare_eq]
  infer_instance

instance : Ord Value := ⟨compare⟩

instance : Std.TransOrd Value := inferInstanceAs (Std.TransCmp compare)

end Value

namespace Field

theorem compareValue_eq (a b : Option Value) : compareValue a b = Ord.compare a b := by
  cases a <;> cases b <;> rfl

theorem compare_eq (a b : Field) : a.compare b =
    compareLex (compareOn fun f => f.value.isSome) (compareLex (compareOn name) (compareOn value)) a b := by
  simp only [compare, compareValue_eq, compareLex, compareOn]

instance : Std.TransCmp compare := by
  rw [funext₂ compare_eq]
  infer_instance

instance : Ord Field := ⟨compare⟩

instance : Std.TransOrd Field := inferInstanceAs (Std.TransCmp compare)

end Field

namespace Directive

theorem compare_eq (a b : Directive) : a.compare b =
    compareLex (compareOn fun d => d.target.map String.utf8ByteSize)
      (compareLex (compareOn fun d => d.span.isSome)
        (compareLex (compareOn fun d => d.fields.length)
          (compareLex (compareOn target) (compareLex (compareOn span) (compareOn fields))))) a b :=
  rfl

instance : Std.TransCmp compare := by
  rw [funext₂ compare_eq]
  infer_instance

theorem length_eq_of_compare {fs gs : List Field} (h : Ord.compare fs gs = .eq) :
    fs.length = gs.length := by
  induction fs generalizing gs with
  | nil =>
    cases gs with
    | nil => rfl
    | cons g gs => cases h
  | cons f fs ih =>
    cases gs with
    | nil => cases h
    | cons g gs =>
      rw [List.compare_cons_cons, Ordering.then_eq_eq] at h
      rw [List.length_cons, List.length_cons, ih h.2]

/-- The order looks at target, span and fields, not at the level. -/
theorem compare_eq_eq_iff {a b : Directive} : a.compare b = .eq ↔
    a.target = b.target ∧ a.span = b.span ∧ Ord.compare a.fields b.fields = .eq := by
  simp only [compare_eq, compareLex, compareOn, Ordering.then_eq_eq, Std.LawfulEqCmp.compare_eq_iff_eq]
  constructor
  · rintro ⟨-, -, -, htarget, hspan, hfields⟩
    exact ⟨htarget, hspan, hfields⟩
  · rintro ⟨htarget, hspan, hfields⟩
    have hlength : a.fields.length = b.fields.length := length_eq_of_compare hfields
    simp [htarget, hspan, hfields, hlength]

end Directive

variable {d x : Directive} {ds es : List Directive}

/-! ### Directives in order -/

def Ordered (ds : List Directive) : Prop := ds.Pairwise fun a b => a.compare b = .gt

theorem mem_insert (h : Ordered es) : x ∈ insert d es ↔ x = d ∨ x ∈ es ∧ d.compare x ≠ .eq := by
  induction es with
  | nil => simp [insert]
  | cons e es ih =>
    obtain ⟨he, hes⟩ := List.pairwise_cons.1 h
    rw [insert]
    cases hde : d.compare e with
    | gt =>
      have hrest : ∀ y ∈ e :: es, d.compare y ≠ .eq := by
        intro y hy
        obtain rfl | hy := List.mem_cons.1 hy
        · simp [hde]
        · simp [Std.TransCmp.gt_trans hde (he y hy)]
      constructor
      · intro hx
        obtain rfl | hx := List.mem_cons.1 hx
        · exact .inl rfl
        · exact .inr ⟨hx, hrest x hx⟩
      · rintro (rfl | ⟨hx, -⟩)
        · exact List.mem_cons_self
        · exact List.mem_cons_of_mem d hx
    | eq =>
      have hrest : ∀ y ∈ es, d.compare y ≠ .eq := by
        intro y hy
        simp [Std.TransCmp.gt_of_eq_of_gt hde (he y hy)]
      constructor
      · intro hx
        obtain rfl | hx := List.mem_cons.1 hx
        · exact .inl rfl
        · exact .inr ⟨List.mem_cons_of_mem e hx, hrest x hx⟩
      · rintro (rfl | ⟨hx, hne⟩)
        · exact List.mem_cons_self
        · obtain rfl | hx := List.mem_cons.1 hx
          · exact absurd hde hne
          · exact List.mem_cons_of_mem d hx
    | lt =>
      have hne : d.compare e ≠ .eq := by simp [hde]
      simp only [List.mem_cons, ih hes]
      constructor
      · rintro (rfl | rfl | ⟨hx, hx'⟩)
        · exact .inr ⟨.inl rfl, hne⟩
        · exact .inl rfl
        · exact .inr ⟨.inr hx, hx'⟩
      · rintro (rfl | ⟨rfl | hx, hx'⟩)
        · exact .inr (.inl rfl)
        · exact .inl rfl
        · exact .inr (.inr ⟨hx, hx'⟩)

theorem ordered_insert (d : Directive) (h : Ordered es) : Ordered (insert d es) := by
  induction es with
  | nil => exact List.pairwise_singleton _ _
  | cons e es ih =>
    obtain ⟨he, hes⟩ := List.pairwise_cons.1 h
    rw [insert]
    cases hde : d.compare e with
    | gt =>
      refine List.pairwise_cons.2 ⟨?_, h⟩
      intro y hy
      obtain rfl | hy := List.mem_cons.1 hy
      · exact hde
      · exact Std.TransCmp.gt_trans hde (he y hy)
    | eq => exact List.pairwise_cons.2 ⟨fun y hy => Std.TransCmp.gt_of_eq_of_gt hde (he y hy), hes⟩
    | lt =>
      refine List.pairwise_cons.2 ⟨?_, ih hes⟩
      intro y hy
      obtain rfl | ⟨hy, -⟩ := (mem_insert hes).1 hy
      · exact Std.OrientedCmp.gt_of_lt hde
      · exact he y hy

theorem sorted_concat (ds : List Directive) (d : Directive) :
    sorted (ds ++ [d]) = insert d (sorted ds) := by
  simp [sorted]

theorem ordered_sorted (ds : List Directive) : Ordered (sorted ds) := by
  induction ds using List.reverseRecOn with
  | nil => exact .nil
  | append_singleton ds d ih =>
    rw [sorted_concat]
    exact ordered_insert d ih

/-- The last directive for its messages. -/
def IsLast (d : Directive) (ds : List Directive) : Prop :=
  ∃ before after, ds = before ++ d :: after ∧ ∀ e ∈ after, e.compare d ≠ .eq

theorem isLast_concat : IsLast x (ds ++ [d]) ↔ x = d ∨ IsLast x ds ∧ d.compare x ≠ .eq := by
  constructor
  · rintro ⟨before, after, heq, hafter⟩
    induction after using List.reverseRecOn with
    | nil => exact .inl (List.append_inj_right' heq rfl |> List.singleton_inj.1).symm
    | append_singleton after e _ =>
      rw [← List.cons_append, ← List.append_assoc] at heq
      obtain ⟨rfl, rfl⟩ : ds = before ++ x :: after ∧ d = e := by simpa using List.append_inj' heq rfl
      exact .inr ⟨⟨before, after, rfl, fun y hy => hafter y (by simp [hy])⟩, hafter d (by simp)⟩
  · rintro (rfl | ⟨⟨before, after, rfl, hafter⟩, hne⟩)
    · exact ⟨ds, [], rfl, by simp⟩
    · refine ⟨before, after ++ [d], by simp, ?_⟩
      simp only [List.forall_mem_append, List.forall_mem_singleton]
      exact ⟨hafter, hne⟩

theorem mem_sorted : x ∈ sorted ds ↔ IsLast x ds := by
  -- The last directive is inserted last, in place of one that was there for its messages.
  induction ds using List.reverseRecOn with
  | nil => simp [sorted, IsLast]
  | append_singleton ds d ih => rw [sorted_concat, mem_insert (ordered_sorted ds), isLast_concat, ih]

theorem Ordered.eq_of_compare (h : Ordered ds) (ha : d ∈ ds) (hb : x ∈ ds) (heq : d.compare x = .eq) :
    d = x := by
  have hsymm : Std.Symm fun a b : Directive => a.compare b ≠ .eq :=
    ⟨fun _ _ hne heq => hne (Std.OrientedCmp.eq_symm heq)⟩
  have hdistinct : ds.Pairwise fun a b => a.compare b ≠ .eq := h.imp fun hgt heq => by simp [heq] at hgt
  by_contra hne
  exact hdistinct.forall ha hb hne heq

theorem Ordered.eq (h : Ordered ds) (h' : Ordered es) (hmem : ∀ d, d ∈ ds ↔ d ∈ es) : ds = es := by
  have hirrefl : Std.Irrefl fun a b : Directive => a.compare b = .gt := ⟨fun a hgt => by
    simp [Std.ReflCmp.compare_self] at hgt⟩
  have hantisymm : Std.Antisymm fun a b : Directive => a.compare b = .gt := ⟨fun a b hab hba => by
    simp [Std.OrientedCmp.lt_of_gt hab] at hba⟩
  exact List.Pairwise.eq_of_mem_iff h h' hmem

/-! ### Canonical lists -/

theorem IsLast.mem (h : IsLast x ds) : x ∈ ds := by
  obtain ⟨before, after, rfl, -⟩ := h
  simp

theorem IsLast.eq_of_compare (h : IsLast d ds) (h' : IsLast x ds) (heq : d.compare x = .eq) : d = x :=
  (ordered_sorted ds).eq_of_compare (mem_sorted.2 h) (mem_sorted.2 h') heq

theorem isLast_iff_mem (h : ∀ a ∈ ds, ∀ b ∈ ds, a.compare b = .eq → a = b) :
    IsLast x ds ↔ x ∈ ds := by
  induction ds using List.reverseRecOn with
  | nil => simp [IsLast]
  | append_singleton ds d ih =>
    have hds : ∀ a ∈ ds, ∀ b ∈ ds, a.compare b = .eq → a = b := by
      intro a ha b hb
      exact h a (by simp [ha]) b (by simp [hb])
    rw [isLast_concat, ih hds, List.mem_append, List.mem_singleton]
    constructor
    · rintro (rfl | ⟨hx, -⟩)
      · exact .inr rfl
      · exact .inl hx
    · rintro (hx | rfl)
      · by_cases heq : d.compare x = .eq
        · exact .inl (h d (by simp) x (by simp [hx]) heq).symm
        · exact .inr ⟨hx, heq⟩
      · exact .inl rfl

theorem isLast_filter {p : Directive → Bool} (hp : ∀ a b, a.compare b = .eq → p a = p b) :
    IsLast x (ds.filter p) ↔ IsLast x ds ∧ p x = true := by
  induction ds using List.reverseRecOn with
  | nil => simp [IsLast]
  | append_singleton ds d ih =>
    rw [List.filter_append, isLast_concat]
    cases hd : p d with
    | true =>
      rw [List.filter_cons_of_pos hd, List.filter_nil, isLast_concat, ih]
      constructor
      · rintro (rfl | ⟨⟨hlast, hx⟩, hne⟩)
        · exact ⟨.inl rfl, hd⟩
        · exact ⟨.inr ⟨hlast, hne⟩, hx⟩
      · rintro ⟨rfl | ⟨hlast, hne⟩, hx⟩
        · exact .inl rfl
        · exact .inr ⟨⟨hlast, hx⟩, hne⟩
    | false =>
      rw [List.filter_cons_of_neg (by simp [hd]), List.filter_nil, List.append_nil, ih]
      constructor
      · rintro ⟨hlast, hx⟩
        have hne : d.compare x ≠ .eq := fun heq => by simp [hp d x heq, hx] at hd
        exact ⟨.inr ⟨hlast, hne⟩, hx⟩
      · rintro ⟨rfl | ⟨hlast, -⟩, hx⟩
        · simp [hx] at hd
        · exact ⟨hlast, hx⟩

theorem isLast_append (h : ∀ a ∈ ds, ∀ b ∈ es, b.compare a ≠ .eq) :
    IsLast x (ds ++ es) ↔ IsLast x ds ∨ IsLast x es := by
  induction es using List.reverseRecOn with
  | nil => simp [IsLast]
  | append_singleton es e ih =>
    have hes : ∀ a ∈ ds, ∀ b ∈ es, b.compare a ≠ .eq := fun a ha b hb => h a ha b (by simp [hb])
    rw [← List.append_assoc, isLast_concat, isLast_concat, ih hes]
    constructor
    · rintro (rfl | ⟨hlast | hlast, hne⟩)
      · exact .inr (.inl rfl)
      · exact .inl hlast
      · exact .inr (.inr ⟨hlast, hne⟩)
    · rintro (hlast | rfl | ⟨hlast, hne⟩)
      · exact .inr ⟨.inl hlast, h x hlast.mem e (by simp)⟩
      · exact .inl rfl
      · exact .inr ⟨.inr hlast, hne⟩

theorem isSome_eq_of_compare {f g : Field} (h : f.compare g = .eq) :
    f.value.isSome = g.value.isSome := by
  simp only [Field.compare, Ordering.then_eq_eq] at h
  exact Std.LawfulEqOrd.eq_of_compare h.1

theorem all_isNone_eq {fs gs : List Field} (h : Ord.compare fs gs = .eq) :
    (fs.all fun f => f.value.isNone) = gs.all fun f => f.value.isNone := by
  induction fs generalizing gs with
  | nil =>
    cases gs with
    | nil => rfl
    | cons g gs => cases h
  | cons f fs ih =>
    cases gs with
    | nil => cases h
    | cons g gs =>
      rw [List.compare_cons_cons, Ordering.then_eq_eq] at h
      have hsome : f.value.isSome = g.value.isSome := isSome_eq_of_compare h.1
      rw [List.all_cons, List.all_cons, ih h.2, ← Option.not_isSome, ← Option.not_isSome, hsome]

theorem isDynamic_congr (a b : Directive) (h : a.compare b = .eq) : a.isDynamic = b.isDynamic := by
  obtain ⟨-, hspan, hfields⟩ := Directive.compare_eq_eq_iff.1 h
  have hempty : a.fields.isEmpty = b.fields.isEmpty := by
    have hlength := Directive.length_eq_of_compare hfields
    cases ha : a.fields <;> cases hb : b.fields <;> simp [ha, hb] at hlength ⊢
  rw [Directive.isDynamic, Directive.isDynamic, hspan, hempty]

theorem isStatic_congr (a b : Directive) (h : a.compare b = .eq) : a.isStatic = b.isStatic := by
  obtain ⟨-, hspan, hfields⟩ := Directive.compare_eq_eq_iff.1 h
  rw [Directive.isStatic, Directive.isStatic, hspan, all_isNone_eq hfields]

theorem isStatic_of_not_isDynamic (h : d.isDynamic = false) : d.isStatic = true := by
  obtain ⟨hfields, hspan⟩ : d.fields = [] ∧ d.span = none := by simpa [Directive.isDynamic] using h
  simp [Directive.isStatic, hfields, hspan]

theorem isLast_staticOf : IsLast x (staticOf ds) ↔ IsLast x ds ∧ x.isStatic = true := by
  have hnot : ∀ a b : Directive, a.compare b = .eq → (!a.isDynamic) = !b.isDynamic :=
    fun a b h => by rw [isDynamic_congr a b h]
  have hapart : ∀ a ∈ ds.filter (fun d => !d.isDynamic),
      ∀ b ∈ (ds.filter Directive.isDynamic).filter Directive.isStatic, b.compare a ≠ .eq := by
    intro a ha b hb heq
    have hbdyn : b.isDynamic = true := (List.mem_filter.1 (List.mem_filter.1 hb).1).2
    have hadyn : (!a.isDynamic) = true := (List.mem_filter.1 ha).2
    rw [← isDynamic_congr b a heq, hbdyn] at hadyn
    exact Bool.noConfusion hadyn
  rw [staticOf, isLast_append hapart, isLast_filter hnot, isLast_filter isStatic_congr,
    isLast_filter isDynamic_congr]
  cases h : x.isDynamic with
  | true => simp
  | false => simp [isStatic_of_not_isDynamic h]

/-- Of the directives for the same messages the last one counts. -/
theorem mem_canonical : x ∈ canonical ds ↔ IsLast x ds := by
  rw [canonical, List.mem_append, mem_sorted, mem_sorted, isLast_staticOf, isLast_filter isDynamic_congr]
  constructor
  · rintro (⟨hlast, -⟩ | ⟨hlast, -⟩)
    · exact hlast
    · exact hlast
  · intro hlast
    cases h : x.isDynamic with
    | true => exact .inr ⟨hlast, rfl⟩
    | false => exact .inl ⟨hlast, isStatic_of_not_isDynamic h⟩

theorem isLast_canonical : IsLast x (canonical ds) ↔ IsLast x ds := by
  rw [isLast_iff_mem, mem_canonical]
  intro a ha b hb
  exact (mem_canonical.1 ha).eq_of_compare (mem_canonical.1 hb)

theorem canonical_canonical (ds : List Directive) : canonical (canonical ds) = canonical ds := by
  have hstatic : sorted (staticOf (canonical ds)) = sorted (staticOf ds) :=
    (ordered_sorted _).eq (ordered_sorted _) fun d => by
      rw [mem_sorted, mem_sorted, isLast_staticOf, isLast_staticOf, isLast_canonical]
  have hdynamic : sorted ((canonical ds).filter Directive.isDynamic) =
      sorted (ds.filter Directive.isDynamic) :=
    (ordered_sorted _).eq (ordered_sorted _) fun d => by
      rw [mem_sorted, mem_sorted, isLast_filter isDynamic_congr, isLast_filter isDynamic_congr,
        isLast_canonical]
  exact congrArg₂ (· ++ ·) hstatic hdynamic

end PracticeShell.LogFilter
