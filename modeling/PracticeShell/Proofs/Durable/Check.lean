import PracticeShell.Durable
import PracticeShell.Proofs.Tree.Shape

/-! What the check of a decoded tree lets through: exactly the trees that fit below the root. -/
namespace PracticeShell.Durable
variable {depth : Nat}

theorem checkEntries_eq_ok_iff {es : List (String × Node)} : checkEntries depth es = .ok () ↔
    ∀ e ∈ es, Path.isValidName e.1 = true ∧ check (depth + 1) e.2 = .ok () := by
  induction es with
  | nil => simp [checkEntries]
  | cons e es ih =>
    obtain ⟨name, n⟩ := e
    rw [checkEntries, List.forall_mem_cons, ← ih]
    cases hv : Path.isValidName name with
    | false => simp
    | true =>
      cases hc : check (depth + 1) n with
      | error r => simp [bind, Except.bind]
      | ok => simp [bind, Except.bind]

theorem check_eq_ok_iff_child {t : Tree} : check depth t.node = .ok () ↔
    ∀ name c, t.child? name = some c →
      Path.isValidName name = true ∧ depth ≤ Session.maxDepth ∧
        check (depth + 1) c.node = .ok () := by
  cases hn : t.node with
  | file text s => simp [check, Tree.child?_eq_some_iff, hn, Node.child?]
  | directory es s =>
    rw [check]
    constructor
    · intro h name c hc
      have he := (Tree.child?_eq_some_iff_mem hn).1 hc
      have hne : es.isEmpty = false := List.isEmpty_eq_false_iff.2 (List.ne_nil_of_mem he)
      by_cases hd : Session.maxDepth < depth
      · simp [hne, hd] at h
      · simp only [hne, hd, decide_false, Bool.and_false, Bool.false_eq_true, if_false] at h
        obtain ⟨hv, hc⟩ := checkEntries_eq_ok_iff.1 h _ he
        exact ⟨hv, Nat.le_of_not_lt hd, hc⟩
    · intro h
      have hall : ∀ e ∈ es, Path.isValidName e.1 = true ∧ depth ≤ Session.maxDepth ∧
          check (depth + 1) e.2 = .ok () := by
        intro e he
        obtain ⟨c, hc, hce⟩ := Tree.exists_child_of_mem hn he
        rw [← hce]
        exact h e.1 c hc
      have hguard : (!es.isEmpty && decide (Session.maxDepth < depth)) = false := by
        cases es with
        | nil => rfl
        | cons e es =>
          have hd := (hall e List.mem_cons_self).2.1
          simp [Nat.not_lt.2 hd]
      simp only [hguard, Bool.false_eq_true, if_false]
      exact checkEntries_eq_ok_iff.2 fun e he => ⟨(hall e he).1, (hall e he).2.2⟩

theorem check_eq_ok_iff {t : Tree} (depth : Nat) :
    check depth t.node = .ok () ↔ t.Fits (Session.maxDepth + 1 - depth) := by
  induction t using Tree.induction generalizing depth with
  | h t ih =>
    rw [check_eq_ok_iff_child, Tree.fits_iff_child]
    refine forall_congr' fun name => forall_congr' fun c => imp_congr_right fun hc => ?_
    have hk : Session.maxDepth + 1 - (depth + 1) = Session.maxDepth + 1 - depth - 1 := by omega
    have hle : depth ≤ Session.maxDepth ↔ 0 < Session.maxDepth + 1 - depth := by omega
    rw [ih name c hc, hk, hle]

theorem Envelope.session_eq_ok_iff {e : Envelope} {s : Session} : e.session = .ok s ↔
    e.version = Durable.version ∧ e.root.isDirectory = true ∧ e.root.Fits Session.maxDepth ∧
      s = ⟨e.root, e.cursor, e.history⟩ ∧ s.isDirectory e.cursor = true := by
  have hcheck := check_eq_ok_iff (t := e.root) 1
  rw [Nat.add_sub_cancel] at hcheck
  rw [Envelope.session, ← hcheck]
  by_cases hv : e.version = Durable.version
  swap
  · simp [hv, bind, Except.bind, throw, throwThe, MonadExceptOf.throw]
  cases hr : e.root.isDirectory with
  | false => simp [hv, bind, Except.bind, throw, throwThe, MonadExceptOf.throw]
  | true =>
    cases hc : check 1 e.root.node with
    | error r => simp [hv, bind, Except.bind]
    | ok =>
      cases hd : Session.isDirectory ⟨e.root, e.cursor, e.history⟩ e.cursor with
      | false =>
        simp only [hv, hd, bind, Except.bind, pure, throw, throwThe, MonadExceptOf.throw]
        simp +contextual [hd]
      | true =>
        simp only [hv, hd, bind, Except.bind, pure]
        constructor
        · intro h
          cases h
          exact ⟨trivial, trivial, trivial, rfl, hd⟩
        · rintro ⟨-, -, -, rfl, -⟩
          rfl

end PracticeShell.Durable
