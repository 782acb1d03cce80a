import PracticeShell.Proofs.Tree.Timeless
import PracticeShell.Session.Edit

/-! Edits and the clock. On two sessions that differ only in times, and at any two readings of the
clock, an edit gives the same answer or the same error, and leaves sessions that differ only in
times. -/
namespace PracticeShell

namespace Session

def untimed (s : Session) : Session := { s with root := s.root.untimed }

/-- Two sessions that differ in times only. -/
def Alike (s s' : Session) : Prop := s.untimed = s'.untimed

theorem alike_iff {s s' : Session} :
    s.Alike s' ↔ s.root.Alike s'.root ∧ s.cursor = s'.cursor ∧ s.history = s'.history := by
  simp [Alike, untimed, Tree.Alike]

namespace Alike
variable {s s' : Session}

theorem root (h : s.Alike s') : s.root.Alike s'.root := (alike_iff.1 h).1

theorem cursor (h : s.Alike s') : s.cursor = s'.cursor := (alike_iff.1 h).2.1

theorem history (h : s.Alike s') : s.history = s'.history := (alike_iff.1 h).2.2

theorem resolve (h : s.Alike s') (typed : String) : s.resolve typed = s'.resolve typed := by
  rw [Session.resolve, h.cursor, Session.resolve]

theorem find_cases (h : s.Alike s') (p : Path) :
    (∃ t t', s.find p = .ok t ∧ s'.find p = .ok t' ∧ t.Alike t') ∨
      ∃ x, s.find p = .error x ∧ s'.find p = .error x := by
  have hfind : (s.find p).map Tree.untimed = (s'.find p).map Tree.untimed := h.root.find p
  cases ht : s.find p <;> cases ht' : s'.find p <;> simp [ht, ht', Except.map] at hfind
  · exact .inr ⟨_, rfl, hfind ▸ rfl⟩
  · exact .inl ⟨_, _, rfl, rfl, hfind⟩

theorem get?_cases (h : s.Alike s') (p : Path) :
    (∃ t t', s.get? p = some t ∧ s'.get? p = some t' ∧ t.Alike t') ∨
      s.get? p = none ∧ s'.get? p = none := by
  obtain ⟨t, t', ht, ht', halike⟩ | ⟨x, hx, hx'⟩ := h.find_cases p
  · exact .inl ⟨t, t', Tree.find_eq_ok_iff.1 ht, Tree.find_eq_ok_iff.1 ht', halike⟩
  · exact .inr ⟨Tree.get?_eq_none_of_find hx, Tree.get?_eq_none_of_find hx'⟩

theorem isSome_get? (h : s.Alike s') (p : Path) : (s.get? p).isSome = (s'.get? p).isSome := by
  obtain ⟨t, t', ht, ht', -⟩ | ⟨ht, ht'⟩ := h.get?_cases p <;> simp [ht, ht']

theorem isDirectory (h : s.Alike s') (p : Path) : s.isDirectory p = s'.isDirectory p := by
  obtain ⟨t, t', ht, ht', halike⟩ | ⟨ht, ht'⟩ := h.get?_cases p
  · simp [Session.isDirectory, ht, ht', halike.isDirectory]
  · simp [Session.isDirectory, ht, ht']

end Alike

end Session

/-- On sessions alike the two computations answer by `R` and leave sessions alike. -/
def Parallel {α β : Type} (R : α → β → Prop) (m : StateM Session α) (m' : StateM Session β) : Prop :=
  ∀ s s' : Session, s.Alike s' →
    R (m.run s).1 (m'.run s').1 ∧ (m.run s).2.Alike (m'.run s').2

namespace Parallel
variable {α β α' β' : Type} {R : α → β → Prop} {Q : α' → β' → Prop}

protected theorem pure {a : α} {b : β} (h : R a b) :
    Parallel R (pure a : StateM Session α) (pure b : StateM Session β) :=
  fun _ _ hs => ⟨h, hs⟩

protected theorem bind {m : StateM Session α} {m' : StateM Session β} {f : α → StateM Session α'}
    {f' : β → StateM Session β'} (hm : Parallel R m m') (hf : ∀ a b, R a b → Parallel Q (f a) (f' b)) :
    Parallel Q (m >>= f) (m' >>= f') := by
  intro s s' hs
  obtain ⟨hanswer, hleft⟩ := hm s s' hs
  exact hf _ _ hanswer _ _ hleft

protected theorem get : Parallel Session.Alike get get := fun _ _ hs => ⟨hs, hs⟩

protected theorem modify {f g : Session → Session} (h : ∀ s s', s.Alike s' → (f s).Alike (g s')) :
    Parallel Eq (modify f) (modify g) :=
  fun s s' hs => ⟨rfl, h s s' hs⟩

theorem mono {R' : α → β → Prop} {m : StateM Session α} {m' : StateM Session β}
    (h : Parallel R m m') (hR : ∀ a b, R a b → R' a b) : Parallel R' m m' :=
  fun s s' hs => (h s s' hs).imp_left (hR _ _)

end Parallel

namespace Edit
variable {α β α' β' : Type} {R : α → β → Prop} {Q : α' → β' → Prop} {t u : Tree}

inductive Answers (R : α → β → Prop) : Except FileError α → Except FileError β → Prop
  | ok {a : α} {b : β} (h : R a b) : Answers R (.ok a) (.ok b)
  | error (x : FileError) : Answers R (.error x) (.error x)

def Parallel (R : α → β → Prop) (e : Edit α) (e' : Edit β) : Prop :=
  PracticeShell.Parallel (Answers R) e.run e'.run

namespace Parallel

protected theorem pure {a : α} {b : β} (h : R a b) : Parallel R (pure a : Edit α) (pure b : Edit β) :=
  PracticeShell.Parallel.pure (.ok h)

protected theorem throw (x : FileError) : Parallel R (throw x : Edit α) (throw x : Edit β) :=
  PracticeShell.Parallel.pure (.error x)

protected theorem bind {e : Edit α} {e' : Edit β} {f : α → Edit α'} {f' : β → Edit β'}
    (he : Parallel R e e') (hf : ∀ a b, R a b → Parallel Q (f a) (f' b)) :
    Parallel Q (e >>= f) (e' >>= f') := by
  have hrest (r : Except FileError α) (r' : Except FileError β) (h : Answers R r r') :
      PracticeShell.Parallel (Answers Q) (ExceptT.bindCont f r) (ExceptT.bindCont f' r') := by
    cases h with
    | ok h => exact hf _ _ h
    | error x => exact .pure (.error x)
  exact PracticeShell.Parallel.bind he hrest

protected theorem get : Parallel Session.Alike (get : Edit Session) get := fun _ _ hs => ⟨.ok hs, hs⟩

protected theorem modify {f g : Session → Session} (h : ∀ s s', s.Alike s' → (f s).Alike (g s')) :
    Parallel Eq (modify f : Edit Unit) (modify g) :=
  fun s s' hs => ⟨.ok rfl, h s s' hs⟩

/-- Both edits refuse or neither does. An early `throw` puts the rest of an edit into both
branches. -/
theorem refusing {c c' : Prop} [Decidable c] [Decidable c'] (hc : c ↔ c') (x : FileError)
    {f : Unit → Edit α} {f' : Unit → Edit β} (h : Parallel R (f ()) (f' ())) :
    Parallel R (if c then throw x >>= f else f ()) (if c' then throw x >>= f' else f' ()) := by
  by_cases hc' : c'
  · rw [if_pos hc', if_pos (hc.2 hc')]
    exact .bind (R := Eq) (.throw x) fun _ _ _ => h
  · rw [if_neg hc', if_neg (mt hc.1 hc')]
    exact h

end Parallel

theorem parallel_find (p : Path) : Parallel Tree.Alike (find p) (find p) := by
  refine .bind .get fun s s' hs => ?_
  obtain ⟨t, t', ht, ht', halike⟩ | ⟨x, hx, hx'⟩ := hs.find_cases p
  · rw [ht, ht']
    exact .pure halike
  · rw [hx, hx']
    exact .throw x

theorem parallel_directory (p : Path) : Parallel Tree.Alike (directory p) (directory p) := by
  refine .bind (parallel_find p) fun t t' ht => ?_
  rw [ht.isDirectory]
  split
  · exact .pure ht
  · exact .throw _

theorem parallel_change {f g : Tree → Tree} (hfg : ∀ t u, t.Alike u → (f t).Alike (g u)) (p : Path) :
    Parallel Eq (change p f) (change p g) :=
  .modify fun _ _ hs => Session.alike_iff.2 ⟨hs.root.update hfg p, hs.cursor, hs.history⟩

theorem parallel_guardDepth (p : Path) (height : Nat) :
    Parallel Eq (guardDepth p height) (guardDepth p height) := by
  rw [guardDepth]
  split
  · exact .throw _
  · exact .pure rfl

theorem parallel_link (now now' : Instant) (p : Path) (h : t.Alike u) :
    Parallel Eq (link now p t) (link now' p u) := by
  rw [link, link]
  split
  · refine .bind (parallel_directory _) fun d d' hd => .refusing (by rw [hd.isSome_child?]) _ ?_
    exact parallel_change (fun _ _ hd => (hd.put h).touch now now') _
  · exact .throw _

theorem parallel_unlink (now now' : Instant) (p : Path) :
    Parallel Eq (unlink now p) (unlink now' p) := by
  rw [unlink, unlink]
  split
  · refine .bind (parallel_directory _) fun d d' hd => .refusing (by rw [hd.isNone_child?]) _ ?_
    exact parallel_change (fun _ _ hd => hd.remove.touch now now') _
  · exact .throw _

theorem parallel_leave (p : Path) : Parallel Eq (leave p) (leave p) := by
  refine .modify fun s s' hs => ?_
  rw [hs.cursor]
  split
  · exact Session.alike_iff.2 ⟨hs.root, rfl, hs.history⟩
  · exact hs

theorem parallel_enter (p : Path) : Parallel Eq (enter p) (enter p) := by
  refine .bind (R := Eq) (.bind (parallel_directory p) fun _ _ _ => .pure rfl) fun _ _ _ => ?_
  exact .modify fun _ _ hs => Session.alike_iff.2 ⟨hs.root, rfl, hs.history⟩

/-! ### The operations -/

theorem parallel_createAll (now now' : Instant) (above : Path) (names : List String) :
    Parallel Eq (createAll now above names) (createAll now' above names) := by
  induction names generalizing above with
  | nil => exact .pure rfl
  | cons name rest ih =>
    rw [createAll, createAll]
    refine .bind (parallel_directory above) fun d d' hd => ?_
    rw [hd.isNone_child?]
    split
    · have hempty : (Tree.emptyDirectory (Stamps.fresh now)).Alike
          (Tree.emptyDirectory (Stamps.fresh now')) := rfl
      refine .bind (parallel_change (fun _ _ hd => ?_) above) fun _ _ _ => ih _
      exact (hd.put hempty).touch now now'
    · exact ih _

theorem parallel_createDirectory (now now' : Instant) (p : Path) (parents : Bool) :
    Parallel Eq (createDirectory now p parents) (createDirectory now' p parents) := by
  rw [createDirectory, createDirectory]
  refine .bind .get fun s s' hs => .refusing (by rw [hs.isSome_get?]) _ ?_
  refine .bind (parallel_guardDepth p 0) fun _ _ _ => ?_
  split
  · exact parallel_createAll now now' _ p
  · exact parallel_link now now' p rfl

theorem parallel_touch (now now' : Instant) (p : Path) :
    Parallel Eq (touch now p) (touch now' p) := by
  rw [touch, touch]
  refine .bind .get fun s s' hs => ?_
  rw [hs.isSome_get?]
  split
  · exact parallel_change (fun _ _ h => h.touch now now') p
  · exact .bind (parallel_guardDepth p 0) fun _ _ _ => parallel_link now now' p rfl

theorem parallel_write (now now' : Instant) (p : Path) (text : String) (mode : OpenMode) :
    Parallel Eq (write now p text mode) (write now' p text mode) := by
  rw [write, write]
  refine .bind .get fun s s' hs => ?_
  obtain ⟨t, t', ht, ht', halike⟩ | ⟨ht, ht'⟩ := hs.get?_cases p <;> rw [ht, ht']
  · refine .refusing (by rw [halike.isDirectory]) _ ?_
    exact parallel_change (fun _ _ h => (h.write mode text).touch now now') p
  · exact .bind (parallel_guardDepth p 0) fun _ _ _ => parallel_link now now' p rfl

theorem parallel_remove (now now' : Instant) (p : Path) (recursive : Bool) :
    Parallel Eq (remove now p recursive) (remove now' p recursive) := by
  rw [remove, remove]
  refine .refusing .rfl _ (.bind (parallel_find p) fun t t' ht => ?_)
  refine .refusing (by rw [ht.isDirectory]) _ ?_
  exact .bind (parallel_unlink now now' p) fun _ _ _ => parallel_leave p

theorem parallel_landing (source destination : Path) :
    Parallel Eq (landing source destination) (landing source destination) := by
  rw [landing]
  refine .bind .get fun s s' hs => ?_
  rw [hs.isDirectory]
  split
  · split
    · exact .pure rfl
    · exact .throw _
  · exact .pure rfl

theorem parallel_install (now now' : Instant) (p : Path) (h : t.Alike u) :
    Parallel Eq (install now p t) (install now' p u) := by
  rw [install, install, h.height]
  refine .bind (parallel_guardDepth p _) fun _ _ _ => .bind .get fun s s' hs => ?_
  obtain ⟨old, old', ht, ht', halike⟩ | ⟨ht, ht'⟩ := hs.get?_cases p <;> rw [ht, ht']
  · refine .refusing (by rw [h.isDirectory]) _ (.refusing (by rw [halike.isDirectory]) _ ?_)
    exact .bind (parallel_unlink now now' p) fun _ _ _ => parallel_link now now' p h
  · exact parallel_link now now' p h

theorem parallel_copy (now now' : Instant) (source destination : Path) :
    Parallel Eq (copy now source destination) (copy now' source destination) := by
  rw [copy, copy]
  refine .bind (parallel_find source) fun t t' ht => ?_
  refine .bind (parallel_landing source destination) fun p p' hp => ?_
  subst hp
  refine .refusing .rfl _ (.bind (parallel_install now now' p (ht.withStamps _ _)) fun _ _ _ => ?_)
  exact .pure rfl

theorem parallel_move (now now' : Instant) (source destination : Path) :
    Parallel Eq (move now source destination) (move now' source destination) := by
  rw [move, move]
  refine .refusing .rfl _ (.bind (parallel_find source) fun t t' ht => ?_)
  refine .bind (parallel_landing source destination) fun p p' hp => ?_
  subst hp
  refine .refusing .rfl _ (.refusing (by rw [ht.isDirectory]) _ ?_)
  refine .bind (parallel_install now now' p ht) fun _ _ _ => ?_
  refine .bind (parallel_unlink now now' source) fun _ _ _ => ?_
  exact .bind (parallel_leave source) fun _ _ _ => .pure rfl

end Edit

end PracticeShell
