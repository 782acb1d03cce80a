import PracticeShell.Proofs.Edit.Timeless
import PracticeShell.Proofs.Session.Request

/-! Commands, lines and the clock. On sessions that differ only in times a line leaves sessions that
differ only in times, and it answers the same unless it shows a time. -/
namespace PracticeShell

namespace Command
variable {now now' : Instant} {s s' : Session}

def showsTimes : Command → Bool
  | .date => true
  | .ls _ long _ => long
  | _ => false

/-! ### Reading the tree -/

theorem names_shown (entries : Entries Node) (all : Bool) :
    ((Listing.ofEntries entries).filter fun i => all || !i.isHidden).map Listing.Item.name =
      (entries.map Prod.fst).filter fun name => all || !Text.startsWith name "." := by
  simp [Listing.ofEntries, List.filter_map, Function.comp_def, Listing.Item.isHidden,
    Listing.Item.ofNode]

theorem section?_alike (h : s.Alike s') (all headers : Bool) (typed : String) : section? s false
    all headers typed = section? s' false all headers typed := by
  rw [section?, section?, h.resolve]
  obtain ⟨t, t', ht, ht', halike⟩ | ⟨x, hx, hx'⟩ := h.find_cases (s'.resolve typed)
  swap
  · rw [hx, hx']
  rw [ht, ht']
  have hnames := halike.names
  cases he : t.node.entries? <;> cases he' : t'.node.entries? <;> simp [he, he'] at hnames
  · simp [Except.mapError, bind, Except.bind, he, he', halike.isDirectory, Listing.Item.ofNode]
  · simp [Except.mapError, bind, Except.bind, he, he', halike.isDirectory, names_shown, hnames]

theorem sections_alike (h : s.Alike s') (all headers : Bool) (targets : List String) :
    sections s false all headers targets = sections s' false all headers targets := by
  induction targets with
  | nil => rfl
  | cons typed rest ih => rw [sections, sections, ih, section?_alike h]

theorem list_alike (h : s.Alike s') (paths : List String) (all : Bool) :
    list s paths false all = list s' paths false all := by
  rw [list, list, sections_alike h]

theorem contents_alike (h : s.Alike s') (paths : List String) : contents s paths = contents s' paths := by
  induction paths with
  | nil => rfl
  | cons typed rest ih =>
    rw [contents, contents, h.resolve, ih]
    obtain ⟨t, t', ht, ht', halike⟩ | ⟨x, hx, hx'⟩ := h.find_cases (s'.resolve typed)
    · rw [ht, ht']
      simp only [Except.mapError, bind, Except.bind, halike.content?]
    · rw [hx, hx']

theorem destinationError?_alike (h : s.Alike s') (p : Path) :
    destinationError? s p = destinationError? s' p := by
  rw [destinationError?, destinationError?]
  obtain ⟨t, t', ht, ht', halike⟩ | ⟨x, hx, hx'⟩ := h.find_cases p
  · rw [ht, ht']
    simp [halike.isDirectory]
  · rw [hx, hx']

/-! ### Operands -/

theorem parallel_attempt (command operand : String) {e e' : Edit Unit} (h : Edit.Parallel Eq e e') :
    Parallel Eq (attempt command operand e) (attempt command operand e') := by
  rw [attempt, attempt]
  refine .bind h fun r r' hr => ?_
  cases hr <;> exact .pure rfl

theorem parallel_failures {act act' : String → StateM Session (Option Diagnostic)}
    (h : ∀ operand, Parallel Eq (act operand) (act' operand)) (operands : List String) :
    Parallel Eq (failures act operands) (failures act' operands) := by
  induction operands with
  | nil => exact .pure rfl
  | cons operand rest ih =>
    refine .bind (h operand) fun error _ herror => ?_
    refine .bind ih fun errors _ herrors => ?_
    rw [herror, herrors]
    exact .pure rfl

theorem parallel_runEach {act act' : String → StateM Session (Option Diagnostic)}
    (h : ∀ operand, Parallel Eq (act operand) (act' operand)) (operands : List String) :
    Parallel Eq (runEach operands act) (runEach operands act') := by
  refine .bind (parallel_failures h operands) fun errors _ herrors => ?_
  rw [herrors]
  exact .pure rfl

theorem parallel_attempts (command : String) {edit edit' : Path → Edit Unit}
    (h : ∀ p, Edit.Parallel Eq (edit p) (edit' p)) (operands : List String) :
    Parallel Eq (runEach operands fun typed => do attempt command typed (edit ((← get).resolve typed)))
      (runEach operands fun typed => do attempt command typed (edit' ((← get).resolve typed))) := by
  refine parallel_runEach (fun typed => .bind .get fun s s' hs => ?_) operands
  rw [hs.resolve]
  exact parallel_attempt command typed (h _)

theorem parallel_transfer (name : String) {edit edit' : Path → Path → Edit Path}
    (h : ∀ p q, Edit.Parallel Eq (edit p q) (edit' p q)) (target : Path) (destination typed : String) :
    Parallel Eq (transfer name edit target destination typed)
      (transfer name edit' target destination typed) := by
  refine .bind .get fun s s' hs => ?_
  rw [hs.resolve]
  refine .bind (h _ _) fun r r' hr => ?_
  -- Whose operand an error names is read off the path in it, and the error is the same in both.
  cases hr <;> exact .pure rfl

theorem parallel_copyOrMove (name : String) {edit edit' : Path → Path → Edit Path}
    (h : ∀ p q, Edit.Parallel Eq (edit p q) (edit' p q)) (sources : List String)
    (destination : String) :
    Parallel Eq (copyOrMove name edit sources destination)
      (copyOrMove name edit' sources destination) := by
  refine .bind .get fun s s' hs => ?_
  simp only [hs.resolve, destinationError?_alike hs]
  split
  · exact .pure rfl
  · exact parallel_runEach (parallel_transfer name h _ destination) sources

theorem parallel_removeOperand (now now' : Instant) (recursive force : Bool) (typed : String) :
    Parallel Eq (removeOperand now recursive force typed)
      (removeOperand now' recursive force typed) := by
  refine .bind .get fun s s' hs => ?_
  rw [hs.resolve]
  have hattempt := parallel_attempt "rm" typed
    (Edit.parallel_remove now now' (s'.resolve typed) recursive)
  refine .bind hattempt fun error _ herror => ?_
  rw [herror]
  exact .pure rfl

theorem parallel_echoText (now now' : Instant) (text : String) (redirect : Option Redirect) :
    Parallel Eq (echoText now text redirect) (echoText now' text redirect) := by
  cases redirect with
  | none => exact .pure rfl
  | some r =>
    refine .bind .get fun s s' hs => ?_
    rw [hs.resolve]
    exact parallel_runEach (fun typed => parallel_attempt "echo" typed
      (Edit.parallel_write now now' _ _ r.mode)) _

/-! ### Commands and lines -/

theorem parallel_answer {R : Outcome → Outcome → Prop} {f f' : Session → Outcome}
    (h : ∀ s s', s.Alike s' → R (f s) (f' s')) :
    Parallel R (do return f (← get)) (do return f' (← get)) :=
  .bind .get fun s s' hs => .pure (h s s' hs)

theorem parallel_run (now now' : Instant) (c : Command) :
    Parallel (fun o o' => c.showsTimes = false → o = o') (c.run now) (c.run now') := by
  have hsame {m m' : StateM Session Outcome} (h : Parallel Eq m m') :
      Parallel (fun o o' => c.showsTimes = false → o = o') m m' := h.mono fun _ _ ho _ => ho
  cases c with
  | pwd => exact hsame (parallel_answer fun _ _ hs => by rw [hs.cursor])
  | ls paths long all =>
    refine parallel_answer fun s s' hs hlong => ?_
    obtain rfl : long = false := hlong
    exact list_alike hs paths all
  | cd path => exact hsame (parallel_attempts "cd" Edit.parallel_enter _)
  | mkdir paths parents =>
    exact hsame (parallel_attempts "mkdir"
      (fun p => Edit.parallel_createDirectory now now' p parents) paths)
  | touch paths => exact hsame (parallel_attempts "touch" (Edit.parallel_touch now now') paths)
  | rm paths recursive force =>
    exact hsame (parallel_runEach (parallel_removeOperand now now' recursive force) paths)
  | cat paths =>
    exact hsame (parallel_answer fun _ _ hs => by rw [concatenate, contents_alike hs, concatenate])
  | echo text redirect => exact hsame (parallel_echoText now now' text redirect)
  | cp sources destination =>
    exact hsame (parallel_copyOrMove "cp" (Edit.parallel_copy now now') sources destination)
  | mv sources destination =>
    exact hsame (parallel_copyOrMove "mv" (Edit.parallel_move now now') sources destination)
  | clear => exact hsame (.pure rfl)
  | help => exact hsame (.pure rfl)
  | history => exact hsame (parallel_answer fun _ _ hs => by rw [hs.history])
  | whoami => exact hsame (.pure rfl)
  | date => exact .pure nofun

end Command

namespace Request

def ShowsTimes (r : Request) : Prop := ∃ entry c, r = .command entry c ∧ c.showsTimes = true

theorem parallel_answer (now now' : Instant) (r : Request) :
    Parallel (fun o o' => ¬ r.ShowsTimes → o = o') (r.answer now) (r.answer now') := by
  have hrecord (entry : String) : Parallel Eq (modify (·.record entry)) (modify (·.record entry)) := by
    refine .modify fun s s' hs => Session.alike_iff.2 ⟨hs.root, hs.cursor, ?_⟩
    rw [Session.record, hs.history, Session.record]
  cases r with
  | nothing => exact .pure fun _ => rfl
  | refused entry cause => exact .bind (hrecord entry) fun _ _ _ => .pure fun _ => rfl
  | command entry c =>
    refine .bind (hrecord entry) fun _ _ _ => (Command.parallel_run now now' c).mono ?_
    intro o o' ho hshows
    refine ho (Bool.eq_false_iff.2 fun hc => hshows ⟨entry, c, rfl, hc⟩)

end Request

namespace Session

/-- Sessions that differ only in times still do after running the same line, at any clocks. The
answers are equal unless the command shows a time. -/
theorem runLine_timeless (now now' : Instant) (typed : String) (s s' : Session)
    (h : s.untimed = s'.untimed) :
    let ran := (runLine now typed).run s
    let ran' := (runLine now' typed).run s'
    ran.2.untimed = ran'.2.untimed ∧
      (¬ (Request.ofLine s.history typed).ShowsTimes → ran.1 = ran'.1) := by
  intro ran ran'
  have hran : ran = ((Request.ofLine s.history typed).answer now).run s := run_runLine now typed s
  -- The history has no times in it, so the line comes to the same in both.
  have hran' : ran' = ((Request.ofLine s.history typed).answer now').run s' := by
    rw [Alike.history h]
    exact run_runLine now' typed s'
  obtain ⟨hanswer, hleft⟩ := Request.parallel_answer now now' (Request.ofLine s.history typed) s s' h
  rw [hran, hran']
  exact ⟨hleft, hanswer⟩

theorem runLine_timeless_move :
    let now : Instant := ⟨1, 0, by decide, by decide⟩
    let ran := (runLine Instant.epoch "mv documents /tmp").run (seeded Instant.epoch)
    let ran' := (runLine now "mv documents /tmp").run (seeded now)
    (seeded Instant.epoch).untimed = (seeded now).untimed ∧ ran.2 ≠ ran'.2 ∧
      ran.2.untimed = ran'.2.untimed ∧ ran.1 = ran'.1 := by
  intro now ran ran'
  have hseeded : (seeded Instant.epoch).untimed = (seeded now).untimed := by decide +kernel
  have hrequest : Request.ofLine (seeded Instant.epoch).history "mv documents /tmp" =
      .command "mv documents /tmp" (.mv ["documents"] "/tmp") := by decide +kernel
  have hplain : ¬ (Request.ofLine (seeded Instant.epoch).history "mv documents /tmp").ShowsTimes := by
    rw [hrequest]
    rintro ⟨entry, c, hc, hshows⟩
    cases hc
    cases hshows
  obtain ⟨hleft, hanswer⟩ := runLine_timeless Instant.epoch now "mv documents /tmp" _ _ hseeded
  exact ⟨hseeded, by decide +kernel, hleft, hanswer hplain⟩

end Session

end PracticeShell
