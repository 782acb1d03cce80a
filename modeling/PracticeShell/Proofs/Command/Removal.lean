import PracticeShell.Proofs.Command.Invariant
import PracticeShell.Proofs.Edit.Operation

/-! What `rm` and `mv` take away. An operand is resolved at its own turn, and an operand before it
may have moved the cursor. Main statement: nothing but what the operands name beforehand is lost,
exactly if every path taken is so named. -/
namespace PracticeShell

/-- Every path of `s` missing from `s'` lies at or below what an operand names in `s`. -/
def Session.LosesOnlyNamed (s s' : Session) (operands : List String) : Prop :=
  ∀ p, (s.get? p).isSome → s'.get? p = none →
    ∃ typed ∈ operands, p.isAtOrBelow (s.resolve typed) = true

namespace Command

/-- The paths that the operands take away, each resolved at its turn. -/
def taken (act : String → StateM Session (Option Diagnostic)) : List String → Session → List Path
  | [], _ => []
  | typed :: rest, s =>
    let s' := ((act typed).run s).2
    let later := taken act rest s'
    if (s.get? (s.resolve typed)).isSome ∧ s'.get? (s.resolve typed) = none then
      s.resolve typed :: later
    else later

/-- An act on an operand that takes nothing away but the path it reads, with all below it. -/
structure Takes (act : String → StateM Session (Option Diagnostic)) : Prop where
  lost : ∀ s typed p, (s.get? p).isSome → ((act typed).run s).2.get? p = none →
    ((act typed).run s).2.get? (s.resolve typed) = none ∧ s.resolve typed <+: p
  cursor : ∀ s typed, s.cursor.isAtOrBelow (s.resolve typed) = false →
    ((act typed).run s).2.cursor = s.cursor

section takes
variable {act : String → StateM Session (Option Diagnostic)} {s : Session} {p q : Path}

theorem session_failures_cons (typed : String) (rest : List String) (s : Session) :
    ((failures act (typed :: rest)).run s).2 =
      ((failures act rest).run ((act typed).run s).2).2 := rfl

theorem mem_taken_of_later {typed : String} {rest : List String}
    (h : q ∈ taken act rest ((act typed).run s).2) : q ∈ taken act (typed :: rest) s := by
  rw [taken]
  split
  · exact List.mem_cons_of_mem _ h
  · exact h

theorem lost_below_taken (h : Takes act) (operands : List String) (hp : (s.get? p).isSome)
    (hn : ((failures act operands).run s).2.get? p = none) :
    ∃ q ∈ taken act operands s, q <+: p := by
  induction operands generalizing s with
  | nil =>
    have hsame : ((failures act []).run s).2.get? p = s.get? p := rfl
    simp [← hsame, hn] at hp
  | cons typed rest ih =>
    rw [session_failures_cons] at hn
    cases hnext : ((act typed).run s).2.get? p with
    | some u =>
      obtain ⟨q, hq, hqp⟩ := ih (by simp [hnext]) hn
      exact ⟨q, mem_taken_of_later hq, hqp⟩
    | none =>
      obtain ⟨hgone, hbelow⟩ := h.lost s typed p hp hnext
      have hthere : (s.get? (s.resolve typed)).isSome := Tree.isSome_get?_of_prefix hbelow hp
      refine ⟨s.resolve typed, ?_, hbelow⟩
      rw [taken, if_pos ⟨hthere, hgone⟩]
      exact List.mem_cons_self

theorem losesOnlyNamed_failures (h : Takes act) {operands : List String}
    (hgone : ∀ q ∈ taken act operands s, ((failures act operands).run s).2.get? q = none) :
    s.LosesOnlyNamed ((failures act operands).run s).2 operands ↔
      ∀ q ∈ taken act operands s, (s.get? q).isSome →
        ∃ typed ∈ operands, q.isAtOrBelow (s.resolve typed) = true := by
  constructor
  · intro hlost q hq hs
    exact hlost q hs (hgone q hq)
  · intro htaken p hp hn
    obtain ⟨q, hq, hqp⟩ := lost_below_taken h operands hp hn
    obtain ⟨typed, ht, hnamed⟩ := htaken q hq (Tree.isSome_get?_of_prefix hqp hp)
    exact ⟨typed, ht, Path.isAtOrBelow_iff.2 ((Path.isAtOrBelow_iff.1 hnamed).trans hqp)⟩

/-- If no operand names the cursor or a directory above it, the cursor stays and all operands are
resolved as at the start. -/
theorem taken_named (h : Takes act) (operands : List String) (s₀ : Session)
    (hcursor : ∀ typed ∈ operands, s₀.cursor.isAtOrBelow (s₀.resolve typed) = false)
    (hs : s.cursor = s₀.cursor) (hq : q ∈ taken act operands s) :
    ∃ typed ∈ operands, q = s₀.resolve typed := by
  induction operands generalizing s with
  | nil => simp [taken] at hq
  | cons typed rest ih =>
    have hread : s.resolve typed = s₀.resolve typed := by rw [Session.resolve, hs, Session.resolve]
    have hnext : ((act typed).run s).2.cursor = s₀.cursor := by
      rw [← hs]
      refine h.cursor s typed ?_
      rw [hread, hs]
      exact hcursor typed List.mem_cons_self
    have hlater (hq : q ∈ taken act rest ((act typed).run s).2) :
        ∃ typed' ∈ typed :: rest, q = s₀.resolve typed' := by
      obtain ⟨typed', ht, hq⟩ := ih (fun t ht => hcursor t (List.mem_cons_of_mem _ ht)) hnext hq
      exact ⟨typed', List.mem_cons_of_mem _ ht, hq⟩
    rw [taken] at hq
    split at hq
    · obtain rfl | hq := List.mem_cons.1 hq
      · exact ⟨typed, List.mem_cons_self, hread⟩
      · exact hlater hq
    · exact hlater hq

theorem gone_of_taken {J : Session → Prop} {Gone : Path → Session → Prop}
    (hJ : ∀ typed, Keeps J (act typed))
    (hkeeps : ∀ q typed, Keeps (Gone q) (act typed)) (hget : ∀ q s, Gone q s → s.get? q = none)
    (htake : ∀ s typed, J s → (s.get? (s.resolve typed)).isSome →
      ((act typed).run s).2.get? (s.resolve typed) = none →
        Gone (s.resolve typed) ((act typed).run s).2)
    (operands : List String) (hs : J s) (hq : q ∈ taken act operands s) :
    ((failures act operands).run s).2.get? q = none := by
  induction operands generalizing s with
  | nil => simp [taken] at hq
  | cons typed rest ih =>
    rw [session_failures_cons]
    rw [taken] at hq
    split at hq
    · next htaken =>
      obtain rfl | hq := List.mem_cons.1 hq
      · have hgone := htake s typed hs htaken.1 htaken.2
        exact hget _ _ (keeps_failures (fun typed _ => hkeeps _ typed) _ hgone)
      · exact ih (hJ typed s hs) hq
    · exact ih (hJ typed s hs) hq

end takes

/-! ### Removing -/

section remove
variable {now : Instant} {recursive force : Bool} {s : Session} {p : Path}

theorem takes_removeOperand : Takes (removeOperand now recursive force) where
  lost := by
    intro s typed p hp hn
    rw [session_removeOperand] at hn ⊢
    obtain ⟨above, name, hq, -, hr⟩ | ⟨x, hr⟩ := Edit.remove_cases now (s.resolve typed) recursive s
    · rw [hr, hq] at hn ⊢
      refine ⟨Session.get?_left_withoutEntry_eq_none_iff.2 (.inl (List.prefix_refl _)), ?_⟩
      obtain hbelow | hn := Session.get?_left_withoutEntry_eq_none_iff.1 hn
      · exact hbelow
      · simp [hn] at hp
    · rw [hr] at hn
      simp [hn] at hp
  cursor := by
    intro s typed hout
    rw [session_removeOperand]
    obtain ⟨above, name, -, -, hr⟩ | ⟨x, hr⟩ := Edit.remove_cases now (s.resolve typed) recursive s
    · have hcursor : (s.withoutEntry now above name).cursor = s.cursor := rfl
      rw [hr, Session.left_of_out (by rwa [hcursor])]
      exact hcursor
    · rw [hr]

theorem keeps_absent_removeOperand (q : Path) (typed : String) :
    Keeps (fun s => s.get? q = none) (removeOperand now recursive force typed) := by
  intro s hq
  rw [session_removeOperand]
  obtain ⟨above, name, -, -, hr⟩ | ⟨x, hr⟩ := Edit.remove_cases now (s.resolve typed) recursive s
  · rw [hr]
    exact Session.get?_left_withoutEntry_eq_none_iff.2 (.inr hq)
  · rwa [hr]

end remove

/-! ### Moving -/

section move
variable {now : Instant} {target q : Path} {destination : String} {s : Session}

theorem takes_transfer_move (now : Instant) (target : Path) (destination : String) :
    Takes (transfer "mv" (Edit.move now) target destination) where
  lost := by
    intro s typed p hp hn
    rw [session_transfer] at hn ⊢
    obtain ⟨t, home, own, above, name, hq, -, -, -, -, ha, hr⟩ | ⟨x, hr⟩ :=
      Edit.move_cases now (s.resolve typed) target s
    · rw [hr, hq] at hn ⊢
      refine ⟨Session.get?_left_withoutEntry_eq_none_iff.2 (.inl (List.prefix_refl _)), ?_⟩
      obtain hbelow | hn := Session.get?_left_withoutEntry_eq_none_iff.1 hn
      · exact hbelow
      · have hthere : ((s.withEntry now above name t).get? p).isSome := ha.isSome_withEntry hp
        simp [hn] at hthere
    · rw [hr] at hn
      simp [hn] at hp
  cursor := by
    intro s typed hout
    rw [session_transfer]
    obtain ⟨t, home, own, above, name, -, -, -, -, -, -, hr⟩ | ⟨x, hr⟩ :=
      Edit.move_cases now (s.resolve typed) target s
    · have hcursor : ((s.withEntry now above name t).withoutEntry now home own).cursor = s.cursor :=
        rfl
      rw [hr, Session.left_of_out (by rwa [hcursor])]
      exact hcursor
    · rw [hr]

/-- A move into a directory lands under the source's own name. It removes no directory but the
source, and adds nothing but at or below the landing place, which was no directory. -/
theorem move_into_cases (now : Instant) (source : Path) (hd : s.root.content? target = some none) :
    (∃ (home : Path) (own : String) (s' : Session), source = home.child own ∧
        source ≠ target.child own ∧ ¬ source <+: target ∧ (s.get? source).isSome ∧
        s.root.content? (target.child own) ≠ some none ∧
        (∀ p, s.root.content? p = some none → ¬ source <+: p → s'.root.content? p = some none) ∧
        (∀ p, s.get? p = none → ¬ target.child own <+: p → s'.get? p = none) ∧
        ((Edit.move now source target).result s).2 = s') ∨
      ((Edit.move now source target).result s).2 = s := by
  obtain ⟨t, home, own, above, name, rfl, ht, hl, hne, hnot, ha, hr⟩ | ⟨x, hr⟩ :=
    Edit.move_cases now source target s
  swap
  · exact .inr (by rw [hr])
  have hland : target.child own = above.child name := by
    rw [Session.landing?, if_pos (Session.isDirectory_iff.2 hd), Path.name?_child, Option.map_some,
      Option.some_inj] at hl
    exact hl
  rw [← hland] at hne hnot
  have hplace : s.root.content? (above.child name) ≠ some none := fun hp =>
    ha.not_prefix_of_directory hp (List.prefix_refl _)
  have habove : ¬ home.child own <+: target := fun hp => hnot (hp.trans (Path.prefix_child _ _))
  refine .inl ⟨home, own, _, rfl, hne.symm, habove, by simp [Session.get?, ht], hland ▸ hplace,
    ?_, ?_, rfl⟩
  · intro p hp hsource
    rw [hr, Session.root_left]
    have hput : (s.withEntry now above name t).root.content? p = some none := by
      rw [Session.withEntry, Tree.content?_withEntry (ha.not_prefix_of_directory hp)]
      exact hp
    rw [Session.withoutEntry, Tree.content?_withoutEntry hsource]
    exact hput
  · intro p hp hout
    rw [hland] at hout
    rw [hr]
    refine Session.get?_left_withoutEntry_eq_none_iff.2 (.inr ?_)
    rw [Session.get?, Session.withEntry, ← Tree.content?_eq_none_iff, Tree.content?_withEntry hout,
      Tree.content?_eq_none_iff]
    exact hp

/-- Nothing can land at `q` again, since `target` is a directory and so is any entry of it on the
way to `q`. -/
structure Vacated (target q : Path) (s : Session) : Prop where
  absent : s.get? q = none
  directory : s.root.content? target = some none
  held : ∀ name, target.child name <+: q → s.root.content? (target.child name) = some none

theorem keeps_directory_transfer (typed : String) :
    Keeps (fun s => s.root.content? target = some none)
      (transfer "mv" (Edit.move now) target destination typed) := by
  intro s hd
  rw [session_transfer]
  obtain ⟨home, own, s', -, -, hnot, -, -, hkept, -, hr⟩ | hr :=
    move_into_cases now (s.resolve typed) hd
  · rw [hr]
    exact hkept target hd hnot
  · rwa [hr]

theorem keeps_vacated_transfer (q : Path) (typed : String) :
    Keeps (Vacated target q) (transfer "mv" (Edit.move now) target destination typed) := by
  intro s h
  rw [session_transfer]
  obtain ⟨home, own, s', hsource, hne, hnot, -, hplace, hkept, habsent, hr⟩ | hr :=
    move_into_cases now (s.resolve typed) h.directory
  swap
  · rwa [hr]
  rw [hr]
  refine ⟨habsent q h.absent fun hbelow => hplace (h.held own hbelow),
    hkept target h.directory hnot, ?_⟩
  intro name hbelow
  refine hkept _ (h.held name hbelow) fun hp => ?_
  -- A source at or above an entry of the target that is a directory is that entry or is above the
  -- target.
  obtain he | hp := List.prefix_concat_iff.1 hp
  · have hown : own = name := (Path.child_inj.1 (hsource.symm.trans he)).2
    exact hne (he.trans (by rw [hown]; rfl))
  · exact hnot hp

theorem vacated_of_taken (s : Session) (typed : String) (hd : s.root.content? target = some none)
    (hs : (s.get? (s.resolve typed)).isSome)
    (hn : ((transfer "mv" (Edit.move now) target destination typed).run s).2.get?
      (s.resolve typed) = none) :
    Vacated target (s.resolve typed)
      ((transfer "mv" (Edit.move now) target destination typed).run s).2 := by
  refine ⟨hn, keeps_directory_transfer typed s hd, ?_⟩
  rw [session_transfer] at hn ⊢
  obtain ⟨home, own, s', hsource, hne, hnot, -, -, hkept, -, hr⟩ | hr :=
    move_into_cases now (s.resolve typed) hd
  swap
  · rw [hr] at hn
    simp [hn] at hs
  rw [hr]
  intro name hbelow
  obtain ⟨r, hr⟩ := hbelow
  cases r with
  | nil =>
    rw [List.append_nil] at hr
    have hown : own = name := (Path.child_inj.1 (hsource.symm.trans hr.symm)).2
    exact absurd (by rw [← hr, hown]) hne
  | cons next r =>
    refine hkept _ ?_ fun hp => ?_
    · rw [← hr] at hs
      exact Tree.content?_eq_some_none_iff.2 (Tree.isDirectory_of_isSome_below hs)
    · have hl := hp.length_le
      rw [← hr, List.length_append, List.length_cons] at hl
      omega

end move

def takenByRemove (now : Instant) (recursive force : Bool) (paths : List String) (s : Session) :
    List Path :=
  taken (removeOperand now recursive force) paths s

def takenByMove (now : Instant) (sources : List String) (destination : String) (s : Session) :
    List Path :=
  let target := s.resolve destination
  if 1 < sources.length ∧ (destinationError? s target).isSome then []
  else taken (transfer "mv" (Edit.move now) target destination) sources s

theorem destinationError?_eq_none_iff {s : Session} {p : Path} :
    destinationError? s p = none ↔ s.root.content? p = some none := by
  rw [destinationError?, Tree.content?_eq_some_none_iff]
  cases hf : s.find p with
  | error e => simp [Tree.get?_eq_none_of_find hf]
  | ok t =>
    rw [Tree.find_eq_ok_iff.1 hf]
    cases hdir : t.isDirectory <;> simp [hdir]

theorem gone_after_remove {now : Instant} {recursive force : Bool} (paths : List String)
    (s : Session) {q : Path}
    (hq : q ∈ takenByRemove now recursive force paths s) :
    (((Command.rm paths recursive force).run now).run s).2.get? q = none :=
  gone_of_taken (J := fun _ => True) (fun _ _ _ => trivial) keeps_absent_removeOperand
    (fun _ _ h => h) (fun _ _ _ _ h => h) paths trivial hq

theorem gone_after_move {now : Instant} (sources : List String) (destination : String) (s : Session)
    {q : Path}
    (hq : q ∈ takenByMove now sources destination s) :
    (((Command.mv sources destination).run now).run s).2.get? q = none := by
  rw [takenByMove] at hq
  rw [Command.run, session_copyOrMove]
  by_cases hrefused : 1 < sources.length ∧ (destinationError? s (s.resolve destination)).isSome
  · simp [hrefused] at hq
  rw [if_neg hrefused] at hq ⊢
  by_cases hlen : 1 < sources.length
  · have hd : s.root.content? (s.resolve destination) = some none := by
      rw [← destinationError?_eq_none_iff]
      simpa [hlen] using hrefused
    exact gone_of_taken keeps_directory_transfer keeps_vacated_transfer (fun _ _ h => h.absent)
      vacated_of_taken sources hd hq
  · match sources with
    | [] => simp [taken] at hq
    | [typed] =>
      rw [taken] at hq
      split at hq
      · next htaken =>
        obtain rfl := List.mem_singleton.1 hq
        exact htaken.2
      · simp [taken] at hq
    | _ :: _ :: _ => simp at hlen

theorem losesOnlyNamed_remove {now : Instant} {recursive force : Bool} (paths : List String)
    (s : Session) :
    s.LosesOnlyNamed (((Command.rm paths recursive force).run now).run s).2 paths ↔
      ∀ q ∈ takenByRemove now recursive force paths s, (s.get? q).isSome →
        ∃ typed ∈ paths, q.isAtOrBelow (s.resolve typed) = true :=
  losesOnlyNamed_failures takes_removeOperand fun _ hq => gone_after_remove paths s hq

theorem losesOnlyNamed_move {now : Instant} (sources : List String) (destination : String)
    (s : Session) :
    s.LosesOnlyNamed (((Command.mv sources destination).run now).run s).2 sources ↔
      ∀ q ∈ takenByMove now sources destination s, (s.get? q).isSome →
        ∃ typed ∈ sources, q.isAtOrBelow (s.resolve typed) = true := by
  have hgone (q : Path) (hq : q ∈ takenByMove now sources destination s) :=
    @gone_after_move now sources destination s q hq
  rw [takenByMove] at hgone ⊢
  rw [Command.run, session_copyOrMove] at hgone ⊢
  by_cases hrefused : 1 < sources.length ∧ (destinationError? s (s.resolve destination)).isSome
  · rw [if_pos hrefused, if_pos hrefused]
    have hkept : s.LosesOnlyNamed s sources := by
      intro p hp hn
      simp [hn] at hp
    simp [hkept]
  · rw [if_neg hrefused] at hgone ⊢
    rw [if_neg hrefused] at hgone ⊢
    exact losesOnlyNamed_failures (takes_transfer_move now _ destination) hgone

/-- `rm` and `mv` lose only what their operands name beforehand if and only if each path taken at
its turn is so named. This holds if no operand names the cursor or a directory above it. -/
theorem loses_only_named_iff (now : Instant) (s : Session) :
    (∀ paths recursive force,
      (s.LosesOnlyNamed (((Command.rm paths recursive force).run now).run s).2 paths ↔
        ∀ q ∈ takenByRemove now recursive force paths s, (s.get? q).isSome →
          ∃ typed ∈ paths, q.isAtOrBelow (s.resolve typed) = true) ∧
      ((∀ typed ∈ paths, s.cursor.isAtOrBelow (s.resolve typed) = false) →
        s.LosesOnlyNamed (((Command.rm paths recursive force).run now).run s).2 paths)) ∧
    (∀ sources destination,
      (s.LosesOnlyNamed (((Command.mv sources destination).run now).run s).2 sources ↔
        ∀ q ∈ takenByMove now sources destination s, (s.get? q).isSome →
          ∃ typed ∈ sources, q.isAtOrBelow (s.resolve typed) = true) ∧
      ((∀ typed ∈ sources, s.cursor.isAtOrBelow (s.resolve typed) = false) →
        s.LosesOnlyNamed (((Command.mv sources destination).run now).run s).2 sources)) := by
  refine ⟨fun paths recursive force => ⟨losesOnlyNamed_remove paths s, fun hcursor => ?_⟩,
    fun sources destination => ⟨losesOnlyNamed_move sources destination s, fun hcursor => ?_⟩⟩
  · refine (losesOnlyNamed_remove paths s).2 fun q hq _ => ?_
    obtain ⟨typed, ht, rfl⟩ := taken_named takes_removeOperand paths s hcursor rfl hq
    exact ⟨typed, ht, Path.isAtOrBelow_iff.2 (List.prefix_refl _)⟩
  · refine (losesOnlyNamed_move sources destination s).2 fun q hq _ => ?_
    rw [takenByMove] at hq
    split at hq
    · simp at hq
    · obtain ⟨typed, ht, rfl⟩ :=
        taken_named (takes_transfer_move now _ destination) sources s hcursor rfl hq
      exact ⟨typed, ht, Path.isAtOrBelow_iff.2 (List.prefix_refl _)⟩

theorem loses_only_named_from_home :
    (Session.seeded Instant.epoch).LosesOnlyNamed
      (((Command.rm ["documents", "projects"] true false).run Instant.epoch).run
        (Session.seeded Instant.epoch)).2 ["documents", "projects"] :=
  ((loses_only_named_iff Instant.epoch (Session.seeded Instant.epoch)).1
    ["documents", "projects"] true false).2 (by decide +kernel)

/-- The first operand removes the working directory, so the second is resolved from its parent. -/
theorem loses_more_than_named :
    let s := ((Session.runLine Instant.epoch "cd documents").run (Session.seeded Instant.epoch)).2
    let operands := ["../documents", "projects"]
    ¬ s.LosesOnlyNamed (((Command.rm operands true false).run Instant.epoch).run s).2 operands ∧
      ¬ s.LosesOnlyNamed (((Command.mv operands "/tmp").run Instant.epoch).run s).2 operands := by
  intro s operands
  have hthere : (s.get? ["home", "user", "projects"]).isSome := by decide +kernel
  have hnot : ¬ ∃ typed ∈ operands,
      Path.isAtOrBelow ["home", "user", "projects"] (s.resolve typed) = true := by decide +kernel
  constructor
  · intro h
    exact hnot (h _ hthere (by decide +kernel))
  · intro h
    exact hnot (h _ hthere (by decide +kernel))

end Command

end PracticeShell
