import PracticeShell.Proofs.Tree.Update

/-! Where a walk stops. The obstacle on a path is the first place on it that holds no directory: a
name that is missing, or a file. A walk that fails names the obstacle, and a path has at most one. -/
namespace PracticeShell.Tree
variable {t : Tree} {p q r above : Path} {name : String} {x : FileError}

/-- The first place on `p` that is no directory is `q`. -/
structure Obstacle (t : Tree) (p q : Path) : Prop where
  onPath : q <+: p
  way : ∀ r, r <+: q → r ≠ q → t.content? r = some none
  closed : t.content? q ≠ some none

theorem Obstacle.unique (hq : t.Obstacle p q) (hr : t.Obstacle p r) : q = r := by
  by_contra hne
  obtain hqr | hrq := List.prefix_or_prefix_of_prefix hq.onPath hr.onPath
  · exact hq.closed (hr.way q hqr hne)
  · exact hr.closed (hq.way r hrq (Ne.symm hne))

theorem Obstacle.of_file (hq : q <+: p) (hf : ∃ text, t.content? q = some (some text)) :
    t.Obstacle p q := by
  obtain ⟨text, hf⟩ := hf
  have hs : (t.get? q).isSome := by simp [← isSome_content?, hf]
  exact ⟨hq, fun r hr hne => content?_on_way hs hr hne, by simp [hf]⟩

theorem Obstacle.cons {c : Tree} (hc : t.child? name = some c) (h : c.Obstacle p q) :
    t.Obstacle (name :: p) (name :: q) := by
  have hcons (r : Path) : t.content? (name :: r) = c.content? r := by
    simp [content?, get?_cons, hc]
  refine ⟨List.cons_prefix_cons.2 ⟨rfl, h.onPath⟩, fun r hr hne => ?_, hcons q ▸ h.closed⟩
  cases r with
  | nil => exact content?_eq_some_none_iff.2 ⟨t, rfl, isDirectory_of_child? hc⟩
  | cons other r =>
    obtain ⟨rfl, hrq⟩ := List.cons_prefix_cons.1 hr
    rw [hcons]
    exact h.way r hrq fun he => hne (by rw [he])

theorem walk_error (h : walk above t p = .error x) :
    ∃ q, t.Obstacle p q ∧ ((t.get? q = none ∧ x = .notFound (above ++ q)) ∨
      q ≠ p ∧ (∃ text, t.content? q = some (some text)) ∧ x = .notADirectory (above ++ q)) := by
  induction p generalizing t above with
  | nil => simp [walk] at h
  | cons name p ih =>
    rw [walk] at h
    cases hdir : t.isDirectory with
    | false =>
      have hf : ∃ text, t.content? [] = some (some text) := exists_content? get?_nil hdir
      rw [hdir, if_neg (by simp)] at h
      refine ⟨[], .of_file List.nil_prefix hf, .inr ⟨by simp, hf, ?_⟩⟩
      simpa using h.symm
    | true =>
      rw [hdir, if_pos rfl] at h
      cases hc : t.child? name with
      | none =>
        have hn : t.get? [name] = none := by simp [get?_cons, hc]
        rw [hc] at h
        refine ⟨[name], ⟨by simp, fun r hr hne => ?_, by simp [content?, hn]⟩, .inl ⟨hn, ?_⟩⟩
        · obtain rfl : r = [] := List.prefix_nil.1 ((List.prefix_concat_iff.1 hr).resolve_left hne)
          exact content?_eq_some_none_iff.2 ⟨t, rfl, hdir⟩
        · simpa [Path.child] using h.symm
      | some c =>
        rw [hc] at h
        obtain ⟨q, hq, hx⟩ := ih h
        have hassoc : above.child name ++ q = above ++ name :: q := by simp [Path.child]
        refine ⟨name :: q, hq.cons hc, ?_⟩
        simpa [get?_cons, content?, hc, hassoc] using hx

theorem find_error (h : t.find p = .error x) :
    ∃ q, t.Obstacle p q ∧ ((t.get? q = none ∧ x = .notFound q) ∨
      q ≠ p ∧ (∃ text, t.content? q = some (some text)) ∧ x = .notADirectory q) :=
  walk_error h

theorem find_below_file (hq : q <+: p) (hne : q ≠ p)
    (hf : ∃ text, t.content? q = some (some text)) : t.find p = .error (.notADirectory q) := by
  obtain ⟨text, htext⟩ := hf
  have hnone : t.get? p = none := by
    obtain ⟨r, rfl⟩ := hq
    obtain ⟨u, hu, hcontent⟩ := content?_eq_some_some_iff.1 htext
    have hfile : u.isDirectory = false := by simp [isDirectory_eq, hcontent]
    cases r with
    | nil => simp at hne
    | cons name r => exact get?_below_file hu hfile
  cases hfind : t.find p with
  | ok u => simp [find_eq_ok_iff.1 hfind] at hnone
  | error x =>
    obtain ⟨r, hr, hstop⟩ := find_error hfind
    obtain rfl := hr.unique (.of_file hq ⟨text, htext⟩)
    obtain ⟨hn, -⟩ | ⟨-, -, rfl⟩ := hstop
    · simp [content?, hn] at htext
    · rfl

theorem find_eq_notFound_iff :
    t.find p = .error (.notFound q) ↔ t.Obstacle p q ∧ t.get? q = none := by
  constructor
  · intro h
    obtain ⟨r, hr, ⟨hn, hx⟩ | ⟨-, -, hx⟩⟩ := find_error h
    · obtain rfl := FileError.notFound.inj hx
      exact ⟨hr, hn⟩
    · simp at hx
  · rintro ⟨hq, hn⟩
    have hp : t.get? p = none := get?_eq_none_of_prefix hn hq.onPath
    cases hfind : t.find p with
    | ok u => simp [find_eq_ok_iff.1 hfind] at hp
    | error x =>
      obtain ⟨r, hr, hstop⟩ := find_error hfind
      obtain rfl := hr.unique hq
      obtain ⟨-, rfl⟩ | ⟨-, ⟨text, htext⟩, -⟩ := hstop
      · rfl
      · simp [content?, hn] at htext

theorem find_eq_notADirectory_iff : t.find p = .error (.notADirectory q) ↔
    q <+: p ∧ q ≠ p ∧ ∃ text, t.content? q = some (some text) := by
  constructor
  · intro h
    obtain ⟨r, hr, ⟨-, hx⟩ | ⟨hne, hf, hx⟩⟩ := find_error h
    · simp at hx
    · obtain rfl := FileError.notADirectory.inj hx
      exact ⟨hr.onPath, hne, hf⟩
  · rintro ⟨hq, hne, hf⟩
    exact find_below_file hq hne hf

end PracticeShell.Tree
