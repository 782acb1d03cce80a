import PracticeShell.Proofs.Edit.Commutation
import PracticeShell.Proofs.Edit.Refusal

/-! Directories made together with their parents. This is the same as making each missing directory
on the way by itself, the shortest path first; it fails only at an existing node, too far down, or
below a file. -/
namespace PracticeShell

/-- The prefixes of `p` where nothing is, the shortest first. -/
def Session.missing (s : Session) (p : Path) : List Path := p.inits.filter fun q => (s.get? q).isNone

theorem Session.missing_append {s : Session} {above : Path} {name : String}
    (hd : s.root.content? above = some none) (hn : s.root.get? (above.child name) = none)
    (rest : List String) :
    s.missing (above ++ name :: rest) = rest.inits.map fun r => above ++ name :: r := by
  have hthere : above.inits.filter (fun q => (s.get? q).isNone) = [] := by
    refine List.filter_eq_nil_iff.2 fun q hq => ?_
    have habove : (s.root.get? above).isSome := by simp [← Tree.isSome_content?, hd]
    have hsome := Tree.isSome_get?_of_prefix ((List.mem_inits q above).1 hq) habove
    simpa [Session.get?, Option.isSome_iff_ne_none] using hsome
  have hgone : ∀ r, (s.get? (above ++ name :: r)).isNone := by
    intro r
    have hp : above.child name <+: above ++ name :: r := ⟨r, by simp [Path.child]⟩
    simp [Session.get?, Tree.get?_eq_none_of_prefix hn hp]
  rw [missing, List.inits_append, List.filter_append, hthere, List.nil_append, List.inits_cons,
    List.tail_cons, List.map_map]
  refine List.filter_eq_self.2 fun q hq => ?_
  obtain ⟨r, -, rfl⟩ := List.mem_map.1 hq
  exact hgone r

namespace Edit
variable {now : Instant} {s s' : Session} {p q above : Path} {name : String} {parents : Bool}

/-! ### One after the other -/

def createEach (now : Instant) (ps : List Path) : Edit Unit :=
  ps.forM fun p => createDirectory now p false

theorem result_createEach_cons {ps : List Path}
    (h : (createDirectory now p false).result s = (.ok (), s')) :
    (createEach now (p :: ps)).result s = (createEach now ps).result s' :=
  result_bind_ok h _

theorem result_createDirectory (now : Instant) (hd : s.root.content? above = some none)
    (hn : s.root.get? (above.child name) = none) (hdepth : above.length + 1 ≤ Session.maxDepth) :
    (createDirectory now (above.child name) false).result s =
      (.ok (), s.withEntry now above name (Tree.emptyDirectory (Stamps.fresh now))) := by
  have hguard : (guardDepth (above.child name) 0).result s = (.ok (), s) :=
    result_guardDepth_ok (by simpa using hdepth)
  rw [createDirectory, result_bind_ok (result_get s), Session.get?, hn, if_neg (by simp),
    result_bind_ok hguard]
  exact result_link hd hn

theorem result_createEach (rest : List String) (hd : s.root.content? above = some none)
    (hn : s.root.get? (above.child name) = none)
    (hdepth : above.length + (rest.length + 1) ≤ Session.maxDepth) :
    (createEach now (rest.inits.map fun r => above ++ name :: r)).result s =
      (.ok (), s.withDirectories now above (name :: rest)) := by
  induction rest generalizing above name s with
  | nil => exact result_createEach_cons (result_createDirectory now hd hn hdepth)
  | cons next rest ih =>
    rw [List.length_cons] at hdepth
    have hfirst := result_createDirectory now hd hn (by omega)
    obtain ⟨hmade, hempty⟩ := made_empty now name hd
    have hrest := ih hmade (hempty next) (by rw [Path.length_child]; omega)
    have hassoc (r : List String) : above.child name ++ r = above ++ name :: r := by
      simp [Path.child]
    simp only [hassoc] at hrest
    rw [List.inits_cons, List.map_cons, List.map_map]
    exact (result_createEach_cons hfirst).trans hrest

/-! ### Where it fails -/

theorem result_createDirectory_there (h : (s.get? p).isSome) :
    (createDirectory now p parents).result s = (.error (.alreadyExists p), s) := by
  rw [createDirectory, result_bind_ok (result_get s), if_pos h]
  rfl

theorem result_createDirectory_deep (hn : s.get? p = none) (h : Session.maxDepth < p.length) :
    (createDirectory now p parents).result s = (.error (.tooDeep p), s) := by
  have hguard : (guardDepth p 0).result s = (.error (.tooDeep p), s) :=
    result_guardDepth_error (by omega)
  rw [createDirectory, result_bind_ok (result_get s), hn, if_neg (by simp),
    result_bind_error hguard]

theorem result_createAll_through_file (there : List String) (name : String) (rest : List String)
    (hf : s.isFile (above ++ there) = true) :
    (createAll now above (there ++ name :: rest)).result s =
      (.error (.notADirectory (above ++ there)), s) := by
  induction there generalizing above with
  | nil =>
    rw [List.append_nil] at hf ⊢
    exact result_bind_error (result_directory_through_file List.prefix_rfl hf) _
  | cons next there ih =>
    have hassoc : above ++ next :: there = above.child next ++ there := by simp [Path.child]
    rw [hassoc] at hf ⊢
    have hsome : (s.root.get? (above.child next ++ there)).isSome := by
      obtain ⟨text, htext⟩ := Session.isFile_iff.1 hf
      simp [← Tree.isSome_content?, htext]
    have hnext := Tree.isSome_get?_of_prefix (List.prefix_append _ _) hsome
    rw [List.cons_append, result_createAll_cons _ (Tree.content?_above hnext), if_pos hnext]
    exact ih hf

theorem result_createDirectory_through_file (hq : q <+: p) (hne : q ≠ p)
    (hf : s.isFile q = true) (hdepth : p.length ≤ Session.maxDepth) :
    (createDirectory now p true).result s = (.error (.notADirectory q), s) := by
  have hn := get?_below_file hq hne hf
  have hguard : (guardDepth p 0).result s = (.ok (), s) := result_guardDepth_ok hdepth
  rw [createDirectory, result_bind_ok (result_get s), hn, if_neg (by simp),
    result_bind_ok hguard, if_pos rfl]
  obtain ⟨r, rfl⟩ := hq
  cases r with
  | nil => simp at hne
  | cons name rest => exact result_createAll_through_file q name rest hf

/-! ### Both together -/

theorem exists_result_createDirectory (now : Instant) (hn : s.get? p = none)
    (hdepth : p.length ≤ Session.maxDepth)
    (hway : ∀ q, q <+: p → q ≠ p → s.isFile q = false) :
    ∃ s', (createDirectory now p true).result s = (.ok (), s') := by
  have hnone : s.root.content? p = none := Tree.content?_eq_none_iff.2 hn
  have hallowed : (Alteration.createDirectory p true).Allowed s := by
    refine ⟨fun q hq hne => ?_, hnone, fun _ => hdepth⟩
    cases hc : s.root.content? q with
    | none => exact .inr ⟨rfl, rfl⟩
    | some content =>
      cases content with
      | none => exact .inl rfl
      | some text =>
        have hfile := Session.isFile_iff.2 ⟨text, hc⟩
        simp [hway q hq hne] at hfile
  refine hallowed.exists_result_createDirectory now ?_
  rintro rfl
  simp [Session.get?] at hn

/-- To make a directory with its parents is to make the missing ones one after the other. It fails
if something is at the path, if the path is too long, and below a file, which the error then
names. -/
theorem createDirectory_parents (now : Instant) (p : Path) (s : Session) :
    (∀ s', (createDirectory now p true).result s = (.ok (), s') →
      (createEach now (s.missing p)).result s = (.ok (), s')) ∧
    ((∃ x s', (createDirectory now p true).result s = (.error x, s')) ↔
      (s.get? p).isSome ∨ Session.maxDepth < p.length ∨
        ∃ q, q <+: p ∧ q ≠ p ∧ s.isFile q = true) ∧
    ∀ q, q <+: p → q ≠ p → s.isFile q = true → p.length ≤ Session.maxDepth →
      (createDirectory now p true).result s = (.error (.notADirectory q), s) := by
  refine ⟨fun s' h => ?_, ⟨?_, ?_⟩, fun q hq hne hf => result_createDirectory_through_file hq hne hf⟩
  · obtain ⟨above, name, rest, rfl, -, hd, hn, hdepth, hr⟩ | ⟨x, hr⟩ :=
      createDirectory_cases now p true s
    · obtain rfl : s.withDirectories now above (name :: rest) = s' := by simpa [hr] using h
      rw [s.missing_append hd hn]
      exact result_createEach rest hd hn (by simpa using hdepth)
    · simp [hr] at h
  · rintro ⟨x, s', hx⟩
    by_contra hnot
    push Not at hnot
    obtain ⟨hn, hdepth, hway⟩ := hnot
    obtain ⟨s₁, hr⟩ := exists_result_createDirectory (p := p) now (by simpa using hn) hdepth
      fun q hq hne => by simpa using hway q hq hne
    simp [hr] at hx
  · rintro (hthere | hdeep | ⟨q, hq, hne, hf⟩)
    · exact ⟨_, _, result_createDirectory_there hthere⟩
    · cases hn : s.get? p with
      | some t => exact ⟨_, _, result_createDirectory_there (by simp [hn])⟩
      | none => exact ⟨_, _, result_createDirectory_deep hn hdeep⟩
    · by_cases hdepth : p.length ≤ Session.maxDepth
      · exact ⟨_, _, result_createDirectory_through_file hq hne hf hdepth⟩
      · exact ⟨_, _, result_createDirectory_deep (get?_below_file hq hne hf) (by omega)⟩

theorem createDirectory_parents_in_seeded :
    let s := Session.seeded Instant.epoch
    let r := (createDirectory Instant.epoch ["tmp", "new", "left"] true).result s
    r.1 = .ok () ∧
      (createEach Instant.epoch [["tmp", "new"], ["tmp", "new", "left"]]).result s = (.ok (), r.2) ∧
      (createDirectory Instant.epoch ["home", "user", "welcome.txt", "new", "left"] true).result s =
        (.error (.notADirectory ["home", "user", "welcome.txt"]), s) := by
  intro s r
  have hr : r.1 = .ok () := by decide +kernel
  have hmissing : s.missing ["tmp", "new", "left"] = [["tmp", "new"], ["tmp", "new", "left"]] := by
    decide +kernel
  have heach := (createDirectory_parents Instant.epoch ["tmp", "new", "left"] s).1 r.2
    (Prod.ext hr rfl)
  have hfile := (createDirectory_parents Instant.epoch
    ["home", "user", "welcome.txt", "new", "left"] s).2.2
      ["home", "user", "welcome.txt"] (by decide) (by decide) (by decide) (by decide)
  exact ⟨hr, hmissing ▸ heach, hfile⟩

end Edit

end PracticeShell
