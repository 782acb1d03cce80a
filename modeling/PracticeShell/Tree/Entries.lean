/-! Named entries in the order of their names. Looking up, putting and removing an entry are related
for any list; order is what makes equal contents equal lists. -/
namespace PracticeShell

abbrev Entries (α : Type) := List (String × α)

namespace Entries
variable {α : Type}

def Sorted (es : Entries α) : Prop := es.Pairwise fun a b => a.1 < b.1

def get? (name : String) : Entries α → Option α
  | [] => none
  | (n, a) :: es => if n = name then some a else get? name es

def put (name : String) (a : α) : Entries α → Entries α
  | [] => [(name, a)]
  | (n, b) :: es =>
    if n = name then (name, a) :: es
    else if name < n then (name, a) :: (n, b) :: es
    else (n, b) :: put name a es

def remove (name : String) : Entries α → Entries α
  | [] => []
  | (n, a) :: es => if n = name then remove name es else (n, a) :: remove name es

theorem mem_of_get? {name : String} {a : α} {es : Entries α} (h : get? name es = some a) :
    (name, a) ∈ es := by
  induction es with
  | nil => simp [get?] at h
  | cons e es ih =>
    obtain ⟨n, b⟩ := e
    simp only [get?] at h
    split at h
    · simp_all
    · exact List.mem_cons_of_mem _ (ih h)

theorem mem_put {name : String} {a : α} {es : Entries α} {e : String × α} (h : e ∈ put name a es) :
    e = (name, a) ∨ e ∈ es := by
  induction es with
  | nil => simpa [put] using h
  | cons d es ih =>
    obtain ⟨n, b⟩ := d
    simp only [put] at h
    split at h
    · obtain h | h := List.mem_cons.1 h
      · exact .inl h
      · exact .inr (List.mem_cons_of_mem _ h)
    · split at h
      · exact List.mem_cons.1 h
      · obtain h | h := List.mem_cons.1 h
        · exact .inr (h ▸ List.mem_cons_self)
        · exact (ih h).imp_right (List.mem_cons_of_mem _)

theorem mem_of_mem_remove {name : String} {es : Entries α} {e : String × α}
    (h : e ∈ remove name es) : e ∈ es := by
  induction es with
  | nil => exact h
  | cons d es ih =>
    simp only [remove] at h
    split at h
    · exact List.mem_cons_of_mem _ (ih h)
    · obtain h | h := List.mem_cons.1 h
      · exact h ▸ List.mem_cons_self
      · exact List.mem_cons_of_mem _ (ih h)

@[simp] theorem get?_put_self (name : String) (a : α) (es : Entries α) :
    get? name (put name a es) = some a := by
  induction es with
  | nil => simp [put, get?]
  | cons e es ih =>
    simp only [put]
    split
    · simp [get?]
    · split
      · simp [get?]
      · simp [get?, *]

theorem get?_put_of_ne {name other : String} (a : α) (es : Entries α) (h : other ≠ name) :
    get? other (put name a es) = get? other es := by
  induction es with
  | nil => simp [put, get?, Ne.symm h]
  | cons e es ih =>
    simp only [put]
    split
    · simp_all [get?, Ne.symm h]
    · split
      · simp [get?, Ne.symm h]
      · simp [get?, ih]

@[simp] theorem get?_remove_self (name : String) (es : Entries α) :
    get? name (remove name es) = none := by
  induction es with
  | nil => rfl
  | cons e es ih =>
    simp only [remove]
    split
    · exact ih
    · simp [get?, *]

theorem get?_remove_of_ne {name other : String} (es : Entries α) (h : other ≠ name) :
    get? other (remove name es) = get? other es := by
  induction es with
  | nil => rfl
  | cons e es ih =>
    simp only [remove]
    split
    · next he => simp [get?, ih, he, Ne.symm h]
    · simp [get?, ih]

theorem Sorted.put {es : Entries α} (h : Sorted es) (name : String) (a : α) :
    Sorted (put name a es) := by
  induction es with
  | nil => simp [Entries.put, Sorted]
  | cons e es ih =>
    obtain ⟨n, b⟩ := e
    have ⟨hn, hs⟩ := List.pairwise_cons.1 h
    simp only [Entries.put]
    split
    · next hnn => subst hnn; exact List.pairwise_cons.2 ⟨hn, hs⟩
    · next hne =>
      split
      · next hlt =>
        refine List.pairwise_cons.2 ⟨fun d hd => ?_, h⟩
        obtain rfl | hd := List.mem_cons.1 hd
        · exact hlt
        · exact String.lt_trans hlt (hn d hd)
      · next hge =>
        refine List.pairwise_cons.2 ⟨fun d hd => ?_, ih hs⟩
        obtain rfl | hd := mem_put hd
        · have hle : n ≤ name := String.not_lt.1 hge
          refine Decidable.byContradiction fun hlt => ?_
          exact hne (String.le_antisymm hle (String.not_lt.1 hlt))
        · exact hn d hd

theorem Sorted.remove {es : Entries α} (h : Sorted es) (name : String) :
    Sorted (remove name es) := by
  induction es with
  | nil => exact h
  | cons e es ih =>
    have ⟨hn, hs⟩ := List.pairwise_cons.1 h
    simp only [Entries.remove]
    split
    · exact ih hs
    · exact List.pairwise_cons.2 ⟨fun d hd => hn d (mem_of_mem_remove hd), ih hs⟩

theorem put_put (name : String) (a b : α) (es : Entries α) :
    put name b (put name a es) = put name b es := by
  induction es with
  | nil => simp [put]
  | cons e es ih =>
    obtain ⟨n, c⟩ := e
    by_cases hn : n = name
    · simp [put, hn]
    · by_cases hlt : name < n
      · simp [put, hn, hlt]
      · simp [put, hn, hlt, ih]

theorem remove_of_lt {name : String} {es : Entries α} (h : ∀ e ∈ es, name < e.1) :
    remove name es = es := by
  induction es with
  | nil => rfl
  | cons e es ih =>
    have hne : e.1 ≠ name := by
      rintro rfl
      exact String.lt_irrefl _ (h e List.mem_cons_self)
    rw [remove, if_neg hne, ih fun d hd => h d (List.mem_cons_of_mem _ hd)]

theorem put_of_lt {name : String} {es : Entries α} (a : α) (h : ∀ e ∈ es, name < e.1) :
    put name a es = (name, a) :: es := by
  cases es with
  | nil => rfl
  | cons e es =>
    have hlt : name < e.1 := h e List.mem_cons_self
    have hne : e.1 ≠ name := by
      rintro rfl
      exact String.lt_irrefl _ hlt
    rw [put, if_neg hne, if_pos hlt]

theorem put_remove {es : Entries α} (h : Sorted es) (name : String) (a : α) :
    put name a (remove name es) = put name a es := by
  induction es with
  | nil => rfl
  | cons e es ih =>
    obtain ⟨n, b⟩ := e
    have ⟨hn, hs⟩ := List.pairwise_cons.1 h
    by_cases he : n = name
    · subst he
      rw [remove, if_pos rfl, remove_of_lt hn, put_of_lt a hn, put, if_pos rfl]
    · rw [remove, if_neg he]
      by_cases hlt : name < n
      · rw [remove_of_lt fun d hd => String.lt_trans hlt (hn d hd)]
      · rw [put, put, if_neg he, if_neg hlt, if_neg he, if_neg hlt, ih hs]

end Entries

end PracticeShell
