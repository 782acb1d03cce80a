import PracticeShell.Proofs.Path

/-! Reading a typed path. It is read part by part, so that what follows a slash is read from where
the text before it leads. Main statements: a path of valid names is read back from both of its
texts, and a relative path after another is read from there. -/
namespace PracticeShell.Path
variable {p base cursor : Path} {x y : List Char} {name typed : String}

def IsRelative (typed : String) : Prop :=
  typed ≠ "" ∧ typed.toList.head? ≠ some '/' ∧ typed.toList.head? ≠ some '~'

instance (typed : String) : Decidable (IsRelative typed) := inferInstanceAs (Decidable (_ ∧ _))

/-! ### Parts -/

theorem parts_append (x y : List Char) : parts (x ++ '/' :: y) = parts x ++ parts y := by
  have hsplit : (x ++ '/' :: y).splitOn '/' = x.splitOn '/' ++ y.splitOn '/' :=
    List.splitOnP_append_cons x y (beq_self_eq_true '/')
  rw [parts, hsplit, List.map_append]
  rfl

theorem parts_of_no_slash (h : '/' ∉ x) : parts x = [String.ofList x] := by
  rw [parts, List.splitOn_eq_singleton h]
  rfl

@[simp] theorem follow_nil (base : Path) : follow base [] = base := rfl

/-- What follows a slash is read from where the text before it leads. -/
theorem follow_append (base : Path) (x y : List Char) :
    follow base (x ++ '/' :: y) = follow (follow base x) y := by
  rw [follow, parts_append, List.foldl_append]
  rfl

theorem follow_slash (base : Path) (y : List Char) : follow base ('/' :: y) = follow base y :=
  follow_append base [] y

theorem follow_of_no_slash (h : '/' ∉ x) : follow base x = enter base (String.ofList x) := by
  rw [follow, parts_of_no_slash h]
  rfl

/-! ### Valid names -/

theorem slash_not_mem (h : isValidName name = true) : '/' ∉ name.toList := by
  simp_all [isValidName]

theorem enter_of_valid (h : isValidName name = true) : enter base name = base.child name := by
  have hparts : name ≠ "" ∧ name ≠ "." ∧ name ≠ ".." := by simp_all [isValidName]
  simp [enter, hparts, child]

theorem follow_name (h : isValidName name = true) :
    follow base name.toList = base.child name := by
  rw [follow_of_no_slash (slash_not_mem h), String.ofList_toList, enter_of_valid h]

theorem foldl_enter (h : p.AllValid) : List.foldl enter base p = base ++ p := by
  induction p generalizing base with
  | nil => simp
  | cons name rest ih =>
    have hname : isValidName name = true := h name List.mem_cons_self
    have hrest : AllValid rest := fun other ho => h other (List.mem_cons_of_mem _ ho)
    rw [List.foldl_cons, enter_of_valid hname, ih hrest]
    simp [child]

theorem parts_intercalate (h : p.AllValid) (hne : p ≠ []) :
    parts ("/".intercalate p).toList = p := by
  have hslash : ∀ piece ∈ p.map String.toList, '/' ∉ piece := by
    intro piece hpiece
    obtain ⟨name, hname, rfl⟩ := List.mem_map.1 hpiece
    exact slash_not_mem (h name hname)
  have htext : ("/".intercalate p).toList = ['/'].intercalate (p.map String.toList) :=
    String.toList_intercalate
  rw [parts, htext, List.splitOn_intercalate '/' hslash (by simpa using hne), List.map_map]
  simp

theorem follow_intercalate (h : p.AllValid) :
    follow base ("/".intercalate p).toList = base ++ p := by
  cases p with
  | nil => simp
  | cons name rest =>
    rw [follow, parts_intercalate h (List.cons_ne_nil _ _)]
    exact foldl_enter h

/-! ### The four forms of a typed path -/

theorem resolve_empty (h : typed.toList = []) : resolve cursor typed = root := by rw [resolve, h]

theorem resolve_slash (h : typed.toList = '/' :: x) : resolve cursor typed = follow root x := by
  rw [resolve, h]
  rfl

theorem resolve_tilde (h : typed.toList = '~' :: x) : resolve cursor typed = follow home x := by
  rw [resolve, h]
  rfl

theorem resolve_relative (h : IsRelative typed) :
    resolve cursor typed = follow cursor typed.toList := by
  obtain ⟨hne, hslash, htilde⟩ := h
  rw [resolve]
  split
  · next hnil => exact absurd (String.toList_inj.1 hnil) hne
  · next heq => simp [heq] at hslash
  · next heq => simp [heq] at htilde
  · rfl

theorem resolve_append (cursor : Path) (x y : List Char) :
    resolve cursor (String.ofList (x ++ '/' :: y)) =
      follow (resolve cursor (String.ofList x)) y := by
  have hread (z : List Char) : (String.ofList z).toList = z := String.toList_ofList
  cases x with
  | nil => rw [List.nil_append, resolve_slash (hread _), resolve_empty (hread _)]
  | cons c x =>
    rw [List.cons_append]
    by_cases hslash : c = '/'
    · subst hslash
      rw [resolve_slash (hread _), resolve_slash (hread _), follow_append]
    by_cases htilde : c = '~'
    · subst htilde
      rw [resolve_tilde (hread _), resolve_tilde (hread _), follow_append]
    have hrelative (z : List Char) : IsRelative (String.ofList (c :: z)) := by
      simp [IsRelative, hslash, htilde, ← String.toList_inj]
    rw [resolve_relative (hrelative _), resolve_relative (hrelative _), hread, hread,
      ← List.cons_append, follow_append]

theorem resolve_join (cursor : Path) (typed : String) {behind : String} (h : IsRelative behind) :
    resolve cursor (typed ++ "/" ++ behind) = resolve (resolve cursor typed) behind := by
  have htext : typed ++ "/" ++ behind = String.ofList (typed.toList ++ '/' :: behind.toList) := by
    simp [← String.toList_inj]
  rw [htext, resolve_append, String.ofList_toList, resolve_relative h]

/-! ### The texts of a path -/

theorem resolve_text (h : p.AllValid) : resolve cursor p.text = p := by
  have htext : p.text.toList = '/' :: ("/".intercalate p).toList := by simp [text]
  rw [resolve_slash htext, follow_intercalate h]
  rfl

theorem resolve_shortText (h : p.AllValid) : resolve cursor p.shortText = p := by
  rw [shortText]
  split
  · next hhome =>
    have hdrop : home ++ p.drop home.length = p :=
      (List.prefix_iff_eq_append.1 (List.isPrefixOf_iff_prefix.1 hhome))
    cases hrest : p.drop home.length with
    | nil =>
      rw [hrest, List.append_nil] at hdrop
      exact hdrop
    | cons name rest =>
      have hvalid : AllValid (name :: rest) := by
        intro other ho
        exact h other (List.mem_of_mem_drop (hrest ▸ ho))
      have htext : ("~/" ++ "/".intercalate (name :: rest)).toList =
          '~' :: '/' :: ("/".intercalate (name :: rest)).toList := by
        simp
      rw [resolve_tilde htext, follow_slash, follow_intercalate hvalid, ← hrest, hdrop]
  · exact resolve_text h

/-- From valid names resolving yields valid names, and a path of valid names is read back from both
of its texts. -/
theorem resolve_normalises (cursor : Path) :
    (cursor.AllValid → ∀ typed, (resolve cursor typed).AllValid) ∧
      ∀ p : Path, p.AllValid →
        resolve cursor p.text = p ∧ resolve cursor p.shortText = p :=
  ⟨fun h => resolve_allValid h, fun _ h => ⟨resolve_text h, resolve_shortText h⟩⟩

theorem resolve_normalises_tilde :
    let cursor : Path := ["home", "user", "~"]
    let p : Path := ["home", "user", "~", "user"]
    let q : Path := ["home", "username"]
    cursor.AllValid ∧ p.AllValid ∧ q.AllValid ∧
      (resolve cursor "..//~/./../../../x~").AllValid ∧
      p.shortText = "~/~/user" ∧ resolve cursor "~/~/user" = p ∧
      q.shortText = "/home/username" ∧ resolve cursor "/home/username" = q := by
  intro cursor p q
  have hcursor : cursor.AllValid := by unfold AllValid; decide
  have hp : p.AllValid := by unfold AllValid; decide
  have hq : q.AllValid := by unfold AllValid; decide
  obtain ⟨hvalid, hread⟩ := resolve_normalises cursor
  exact ⟨hcursor, hp, hq, hvalid hcursor _, by decide, (hread p hp).2, by decide, (hread q hq).2⟩

end PracticeShell.Path
