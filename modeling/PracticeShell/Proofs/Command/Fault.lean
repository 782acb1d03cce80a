import PracticeShell.Proofs.Command.Invariant
import PracticeShell.Proofs.Edit.Admission
import PracticeShell.Proofs.Edit.Refusal

/-! The operand that a failed copy or move names. The source is named if the path of the error leads
to it. This is right for every fault of the source, but it also takes some faults of the destination
for one: those where the way to the landing place passes through a source that is a file, and those
where the landing place lies on the way to the source. -/
namespace PracticeShell

/-! ### Messages -/

theorem FileError.colon_not_mem_reason (x : FileError) : ':' ∉ x.reason.toList := by
  cases x <;> simp [reason]

theorem Diagnostic.operand_inj {command operand other : String} {x y : FileError}
    (h : (file command operand x).message = (file command other y).message) : operand = other := by
  have hshort (a b : List Char) (x y : FileError)
      (hab : a ++ ':' :: ' ' :: x.reason.toList = b ++ ':' :: ' ' :: y.reason.toList)
      (hle : a <+: b) : a = b := by
    obtain ⟨c, rfl⟩ := hle
    cases c with
    | nil => simp
    | cons d c =>
      have htail : ' ' :: x.reason.toList = c ++ ':' :: ' ' :: y.reason.toList := by
        have hcancel := List.append_cancel_left (hab.trans (List.append_assoc _ _ _))
        exact (List.cons.inj hcancel).2
      have hmem : ':' ∈ ' ' :: x.reason.toList := by simp [htail]
      simp [x.colon_not_mem_reason] at hmem
  have hlist : operand.toList ++ ':' :: ' ' :: x.reason.toList =
      other.toList ++ ':' :: ' ' :: y.reason.toList := by
    have hchars := congrArg String.toList h
    simpa [message, String.toList_append] using hchars
  refine String.toList_inj.1 ?_
  obtain hle | hle := List.prefix_or_prefix_of_prefix (List.prefix_append _ _)
    (hlist ▸ List.prefix_append other.toList (':' :: ' ' :: y.reason.toList))
  · exact hshort _ _ x y hlist hle
  · exact (hshort _ _ y x hlist.symm hle).symm

def Outcome.Names (o : Outcome) (command operand : String) : Prop :=
  ∃ cause, o = .ofError (.file command operand cause)

theorem Outcome.Names.unique {o : Outcome} {command operand other : String}
    (h : o.Names command operand) (h' : o.Names command other) : operand = other := by
  obtain ⟨x, rfl⟩ := h
  obtain ⟨y, hy⟩ := h'
  have hdisplay := congrArg Outcome.display hy
  exact Diagnostic.operand_inj (Display.print.inj hdisplay)

theorem Outcome.ofFailures_one (e : Diagnostic) : ofFailures "" [e] = .ofError e := by
  simp [ofFailures, ofError, String.intercalate_singleton]

theorem Command.run_transfer (name : String) (edit : Path → Path → Edit Path) (target : Path)
    (destination typed : String) (s : Session) :
    (transfer name edit target destination typed).run s =
      match (edit (s.resolve typed) target).result s with
      | (.ok _, s') => (none, s')
      | (.error x, s') => (some (.file name
        (if (s.resolve typed).isAtOrBelow x.path then typed else destination) x), s') := by
  simp only [transfer, StateT.run_bind, StateT.run_get, pure_bind, Edit.result]
  obtain ⟨_ | _, _⟩ := (edit (s.resolve typed) target).run.run s <;> rfl

/-! ### Errors of copies and moves -/

namespace Edit
variable {now : Instant} {s s' : Session} {source destination p : Path} {t : Tree} {x : FileError}

theorem find_error (h : (find p).result s = (.error x, s')) : s.get? p = none ∧ x.path <+: p := by
  rw [result_find] at h
  have hf : s.root.find p = .error x := congrArg Prod.fst h
  obtain ⟨q, hq, ⟨-, rfl⟩ | ⟨-, -, rfl⟩⟩ := Tree.find_error hf
  · exact ⟨Tree.get?_eq_none_of_find hf, hq.onPath⟩
  · exact ⟨Tree.get?_eq_none_of_find hf, hq.onPath⟩

theorem find_ok (h : (find p).result s = (.ok t, s')) : s.get? p = some t ∧ s = s' := by
  rw [result_find] at h
  exact ⟨Tree.find_eq_ok_iff.1 (congrArg Prod.fst h), congrArg Prod.snd h⟩

theorem landing_error (h : (landing source destination).result s = (.error x, s')) :
    source = Path.root ∧ s.isDirectory destination = true ∧ x = .rootDirectory source := by
  rw [result_landing] at h
  cases hl : s.landing? source destination with
  | some p => simp [hl] at h
  | none =>
    have hroot : source = Path.root ∧ s.isDirectory destination = true := by
      by_contra hnot
      simp [Session.landing?_eq_some_iff.2 ⟨hnot, rfl⟩] at hl
    have hx : FileError.rootDirectory source = x := by simpa [hl] using congrArg Prod.fst h
    exact ⟨hroot.1, hroot.2, hx.symm⟩

theorem landing_ok (h : (landing source destination).result s = (.ok p, s')) :
    ¬ (source = Path.root ∧ s.isDirectory destination = true) ∧ s.target source destination = p ∧
      s = s' := by
  rw [result_landing] at h
  cases hl : s.landing? source destination with
  | none => simp [hl] at h
  | some q =>
    obtain ⟨rfl, rfl⟩ : q = p ∧ s = s' := by simpa [hl] using h
    obtain ⟨hlands, htarget⟩ := Session.landing?_eq_some_iff.1 hl
    exact ⟨hlands, htarget, rfl⟩

end Edit

inductive Transfer where
  | copy
  | move
deriving DecidableEq

namespace Transfer
variable {k : Transfer} {now : Instant} {s s' : Session} {source destination : Path} {t : Tree}
  {x : FileError}

def name : Transfer → String
  | copy => "cp"
  | move => "mv"

def command (k : Transfer) (sources : List String) (destination : String) : Command :=
  match k with
  | copy => .cp sources destination
  | move => .mv sources destination

def edit (now : Instant) : Transfer → Path → Path → Edit Path
  | copy => Edit.copy now
  | move => Edit.move now

def taken (now : Instant) : Transfer → Tree → Tree
  | copy, t => t.withStamps (Stamps.fresh now)
  | move, t => t

theorem height_taken (k : Transfer) (now : Instant) (t : Tree) :
    (k.taken now t).node.height = t.node.height := by
  cases k with
  | copy => exact Node.height_withStamps t.node
  | move => rfl

@[mk_iff]
inductive SourceAtFault (k : Transfer) (s : Session) (source destination : Path) : Prop where
  | missing (h : s.get? source = none)
  | root (h : source = Path.root) (hk : k = move ∨ s.isDirectory destination = true)
  | same (h : s.target source destination = source)
  | intoItself (hk : k = move) (hdir : s.isDirectory source = true)
      (h : (s.target source destination).isAtOrBelow source = true)

def DestinationAtFault (s : Session) (source destination : Path) : Prop :=
  ∃ t, s.get? source = some t ∧ ¬ s.Receives (s.target source destination) t

instance : Decidable (k.SourceAtFault s source destination) :=
  decidable_of_iff _ (sourceAtFault_iff k s source destination).symm

instance : Decidable (DestinationAtFault s source destination) :=
  inferInstanceAs (Decidable (∃ t ∈ s.get? source, ¬ s.Receives (s.target source destination) t))

theorem not_sourceAtFault_iff : ¬ k.SourceAtFault s source destination ↔
    ¬ (source = Path.root ∧ (k = move ∨ s.isDirectory destination = true)) ∧
      ∃ t, s.get? source = some t ∧ s.target source destination ≠ source ∧
        ¬ (k = move ∧ t.isDirectory = true ∧
          (s.target source destination).isAtOrBelow source = true) := by
  constructor
  · intro h
    cases ht : s.get? source with
    | none => exact absurd (.missing ht) h
    | some t =>
      refine ⟨fun hroot => h (.root hroot.1 hroot.2), t, rfl, fun hsame => h (.same hsame), ?_⟩
      rintro ⟨hk, hdir, hinto⟩
      exact h (.intoItself hk (by simp [Session.isDirectory, ht, hdir]) hinto)
  · rintro ⟨hroot, t, ht, hsame, hinto⟩ hfault
    cases hfault with
    | missing h => simp [h] at ht
    | root h hk => exact hroot ⟨h, hk⟩
    | same h => exact hsame h
    | intoItself hk hdir h => exact hinto ⟨hk, by simpa [Session.isDirectory, ht] using hdir, h⟩

theorem succeeds_iff (k : Transfer) (now : Instant) :
    (∃ p s', (k.edit now source destination).result s = (.ok p, s')) ↔
      ¬ k.SourceAtFault s source destination ∧ ¬ DestinationAtFault s source destination := by
  have hdestination {t : Tree} (ht : s.get? source = some t) :
      ¬ DestinationAtFault s source destination ↔
        s.Receives (s.target source destination) t := by
    simp [DestinationAtFault, ht]
  rw [not_sourceAtFault_iff]
  cases k with
  | copy =>
    rw [edit, Edit.copy_succeeds_iff]
    constructor
    · rintro ⟨t, ht, hlands, hne, hreceives⟩
      exact ⟨⟨by simpa using hlands, t, ht, hne, by simp⟩, (hdestination ht).2 hreceives⟩
    · rintro ⟨⟨hlands, t, ht, hne, -⟩, hdest⟩
      exact ⟨t, ht, by simpa using hlands, hne, (hdestination ht).1 hdest⟩
  | move =>
    rw [edit, Edit.move_succeeds_iff]
    constructor
    · rintro ⟨hroot, t, ht, hne, hinto, hreceives⟩
      exact ⟨⟨fun h => hroot h.1, t, ht, hne, fun h => hinto h.2⟩, (hdestination ht).2 hreceives⟩
    · rintro ⟨⟨hroot, t, ht, hne, hinto⟩, hdest⟩
      exact ⟨fun h => hroot ⟨h, .inl rfl⟩, t, ht, hne, fun h => hinto ⟨rfl, h⟩,
        (hdestination ht).1 hdest⟩

theorem departure_error {f : Tree → Path → Edit Path}
    (h : (do
        let t ← Edit.find source
        let p ← Edit.landing source destination
        if p = source then throw (.sameFile source p)
        f t p : Edit Path).result s = (.error x, s')) :
    k.SourceAtFault s source destination ∧ x.path <+: source ∨
      ∃ t, s.get? source = some t ∧ ¬ (source = Path.root ∧ s.isDirectory destination = true) ∧
        s.target source destination ≠ source ∧
        (f t (s.target source destination)).result s = (.error x, s') := by
  obtain h | ⟨t, s₁, hfind, hrest⟩ := Edit.bind_error h
  · obtain ⟨hn, hpath⟩ := Edit.find_error h
    exact .inl ⟨.missing hn, hpath⟩
  obtain ⟨ht, rfl⟩ := Edit.find_ok hfind
  obtain h | ⟨p, s₂, hlanding, hrest⟩ := Edit.bind_error hrest
  · obtain ⟨hroot, hdir, rfl⟩ := Edit.landing_error h
    exact .inl ⟨.root hroot (.inr hdir), List.prefix_rfl⟩
  obtain ⟨hlands, rfl, rfl⟩ := Edit.landing_ok hlanding
  by_cases hsame : s.target source destination = source
  · rw [if_pos hsame] at hrest
    obtain rfl : FileError.sameFile source _ = x := by simpa using congrArg Prod.fst hrest
    exact .inl ⟨.same hsame, List.prefix_rfl⟩
  · rw [if_neg hsame] at hrest
    exact .inr ⟨t, ht, hlands, hsame, hrest⟩

theorem copy_error (h : (Edit.copy now source destination).result s = (.error x, s')) :
    copy.SourceAtFault s source destination ∧ x.path <+: source ∨
      ∃ t, s.get? source = some t ∧ ¬ copy.SourceAtFault s source destination ∧
        (Edit.install now (s.target source destination) (copy.taken now t)).result s =
          (.error x, s') := by
  rw [Edit.copy] at h
  obtain hfault | ⟨t, ht, hlands, hsame, hrest⟩ := departure_error h
  · exact .inl hfault
  have hsource : ¬ copy.SourceAtFault s source destination :=
    not_sourceAtFault_iff.2 ⟨by simpa using hlands, t, ht, hsame, by simp⟩
  obtain hinstall | ⟨-, s₃, -, hrest⟩ := Edit.bind_error hrest
  · exact .inr ⟨t, ht, hsource, hinstall⟩
  · simp at hrest

theorem move_error (h : (Edit.move now source destination).result s = (.error x, s')) :
    move.SourceAtFault s source destination ∧ x.path <+: source ∨
      ∃ t, s.get? source = some t ∧ ¬ move.SourceAtFault s source destination ∧
        (Edit.install now (s.target source destination) (move.taken now t)).result s =
          (.error x, s') := by
  have hmove := h
  rw [Edit.move] at hmove
  by_cases hnil : source.isEmpty
  · rw [if_pos hnil] at hmove
    obtain rfl : FileError.rootDirectory source = x := by simpa using congrArg Prod.fst hmove
    exact .inl ⟨.root (List.isEmpty_iff.1 hnil) (.inl rfl), List.prefix_rfl⟩
  have hroot : source ≠ Path.root := fun he => hnil (List.isEmpty_iff.2 he)
  rw [if_neg hnil] at hmove
  obtain hfault | ⟨t, ht, -, hsame, hrest⟩ := departure_error hmove
  · exact .inl hfault
  by_cases hinto : t.isDirectory && (s.target source destination).isAtOrBelow source
  · rw [if_pos hinto] at hrest
    obtain rfl : FileError.intoItself source _ = x := by simpa using congrArg Prod.fst hrest
    obtain ⟨hdir, hbelow⟩ := Bool.and_eq_true_iff.1 hinto
    have hsource : s.isDirectory source = true := by simp [Session.isDirectory, ht, hdir]
    exact .inl ⟨.intoItself rfl hsource hbelow, List.prefix_rfl⟩
  rw [if_neg hinto] at hrest
  have hsource : ¬ move.SourceAtFault s source destination := not_sourceAtFault_iff.2
    ⟨fun h => hroot h.1, t, ht, hsame, fun h => hinto (Bool.and_eq_true_iff.2 h.2)⟩
  obtain hinstall | ⟨⟨⟩, s₃, hinstall, -⟩ := Edit.bind_error hrest
  · exact .inr ⟨t, ht, hsource, hinstall⟩
  · -- Once the node is in its new place nothing fails any more.
    have hdestination : ¬ DestinationAtFault s source destination := by
      simpa [DestinationAtFault, ht] using Edit.install_succeeds_iff.1 ⟨s₃, hinstall⟩
    obtain ⟨p, s', hok⟩ := (succeeds_iff move now).2 ⟨hsource, hdestination⟩
    simp [edit, h] at hok

theorem edit_error (h : (k.edit now source destination).result s = (.error x, s')) :
    k.SourceAtFault s source destination ∧ x.path <+: source ∨
      ∃ t, s.get? source = some t ∧ ¬ k.SourceAtFault s source destination ∧
        (Edit.install now (s.target source destination) (k.taken now t)).result s =
          (.error x, s') := by
  cases k with
  | copy => exact copy_error h
  | move => exact move_error h

/-- The landing place is a prefix of the source; or the source is a file on the way to the landing
place, which is not too deep. -/
def Entangled (s : Session) (source p : Path) : Prop :=
  p <+: source ∨ s.isFile source = true ∧ source <+: p ∧ p.length ≤ Session.maxDepth

instance {p : Path} : Decidable (Entangled s source p) :=
  inferInstanceAs (Decidable (_ ∨ _))

theorem install_error_on_way_iff {p : Path} (ht : s.get? source = some t) (hne : p ≠ source)
    (h : (Edit.install now p (k.taken now t)).result s = (.error x, s')) :
    x.path <+: source ↔ Entangled s source p := by
  have herror := Edit.install_error h
  constructor
  · intro hway
    obtain hpath | ⟨hdepth, hblocked⟩ := herror
    · exact .inl (hpath ▸ hway)
    obtain hn | hfile := hblocked.closed
    · have hgone : s.get? source = none := Tree.get?_eq_none_of_prefix hn hway
      simp [hgone] at ht
    · -- Only the last name on the way to the source can be a file.
      have hsource : x.path = source := by
        by_contra hbelow
        simp [Edit.get?_below_file hway hbelow hfile] at ht
      rw [height_taken] at hdepth
      exact .inr ⟨hsource ▸ hfile, hsource ▸ hblocked.onPath, by omega⟩
  · rintro (hp | ⟨hfile, hp, hdepth⟩)
    · obtain hpath | ⟨-, hblocked⟩ := herror
      · exact hpath ▸ hp
      · exact hblocked.onPath.trans hp
    · have hheight : t.node.height = 0 := by
        obtain ⟨text, htext⟩ := Session.isFile_iff.1 hfile
        obtain ⟨u, hu, hcontent⟩ := Tree.content?_eq_some_some_iff.1 htext
        obtain rfl : u = t := Option.some.inj (hu.symm.trans ht)
        exact Tree.height_of_file (by simp [Tree.isDirectory_eq, hcontent])
      have hfits : p.length + (k.taken now t).node.height ≤ Session.maxDepth := by
        rw [height_taken]
        omega
      have hthrough := Edit.result_install_through_file now hp hne.symm hfile hfits
      obtain rfl : FileError.notADirectory source = x := by
        simpa using congrArg Prod.fst (hthrough.symm.trans h)
      exact List.prefix_rfl

/-! ### Commands -/

def outcome (k : Transfer) (now : Instant) (typed destination : String) (s : Session) : Outcome :=
  (((k.command [typed] destination).run now).run s).1

theorem outcome_eq (k : Transfer) (now : Instant) (typed destination : String) (s : Session) :
    k.outcome now typed destination s = Outcome.ofFailures "" ((Command.transfer k.name (k.edit now)
      (s.resolve destination) destination typed).run s).1.toList := by
  rw [← List.append_nil (Option.toList _)]
  cases k <;> rfl

section
variable {typed destination : String}

theorem outcome_ok {p : Path}
    (h : (k.edit now (s.resolve typed) (s.resolve destination)).result s = (.ok p, s')) :
    k.outcome now typed destination s = .empty := by
  rw [outcome_eq, Command.run_transfer, h]
  rfl

theorem outcome_error
    (h : (k.edit now (s.resolve typed) (s.resolve destination)).result s = (.error x, s')) :
    k.outcome now typed destination s = .ofError
      (.file k.name (if (s.resolve typed).isAtOrBelow x.path then typed else destination) x) := by
  rw [outcome_eq, Command.run_transfer, h]
  exact Outcome.ofFailures_one _

theorem names_source
    (h : (k.edit now (s.resolve typed) (s.resolve destination)).result s = (.error x, s'))
    (hway : x.path <+: s.resolve typed) :
    (k.outcome now typed destination s).Names k.name typed := by
  rw [outcome_error h, if_pos (Path.isAtOrBelow_iff.2 hway)]
  exact ⟨x, rfl⟩

theorem names_destination
    (h : (k.edit now (s.resolve typed) (s.resolve destination)).result s = (.error x, s'))
    (hway : ¬ x.path <+: s.resolve typed) :
    (k.outcome now typed destination s).Names k.name destination := by
  rw [outcome_error h, if_neg fun hbelow => hway (Path.isAtOrBelow_iff.1 hbelow)]
  exact ⟨x, rfl⟩

end

/-- A transfer names the operand at fault, except that a destination is taken for the source exactly
if the two paths are entangled. -/
theorem names_operand_at_fault_iff (k : Transfer) (now : Instant) (s : Session)
    {typed destination : String} (hne : typed ≠ destination) :
    let source := s.resolve typed
    let path := s.resolve destination
    let outcome := k.outcome now typed destination s
    (k.SourceAtFault s source path → outcome.Names k.name typed) ∧
    (¬ k.SourceAtFault s source path → DestinationAtFault s source path →
      (outcome.Names k.name destination ↔ ¬ Entangled s source (s.target source path)) ∧
      (outcome.Names k.name typed ↔ Entangled s source (s.target source path))) ∧
    (¬ k.SourceAtFault s source path → ¬ DestinationAtFault s source path →
      outcome = .empty) := by
  intro source path outcome
  cases hresult : (k.edit now source path).result s with
  | mk answer s' =>
  cases answer with
  | ok p =>
    obtain ⟨hsource, hdestination⟩ := (succeeds_iff k now).1 ⟨p, s', hresult⟩
    exact ⟨fun h => absurd h hsource, fun _ h => absurd h hdestination,
      fun _ _ => outcome_ok hresult⟩
  | error x =>
    obtain ⟨hsource, hway⟩ | ⟨t, ht, hsource, hinstall⟩ := edit_error hresult
    · exact ⟨fun _ => names_source hresult hway, fun h => absurd hsource h,
        fun h => absurd hsource h⟩
    have hfault : DestinationAtFault s source path := by
      by_contra hnone
      obtain ⟨p, s'', hok⟩ := (succeeds_iff k now).2 ⟨hsource, hnone⟩
      simp [hok] at hresult
    obtain ⟨-, u, -, hsame, -⟩ := not_sourceAtFault_iff.1 hsource
    refine ⟨fun h => absurd h hsource, fun _ _ => ?_, fun _ h => absurd hfault h⟩
    rw [← install_error_on_way_iff ht hsame hinstall]
    constructor
    · exact ⟨fun h hway => hne ((names_source hresult hway).unique h), names_destination hresult⟩
    · refine ⟨fun h => ?_, names_source hresult⟩
      by_contra hway
      exact hne (h.unique (names_destination hresult hway))

theorem names_operand_at_fault_in_seeded :
    let s := Session.seeded Instant.epoch
    (copy.outcome Instant.epoch "welcome.txt" "documents/notes.md/x" s).Names "cp"
        "documents/notes.md/x" ∧
      (move.outcome Instant.epoch "documents" "documents/sub" s).Names "mv" "documents" := by
  intro s
  have hcopy := names_operand_at_fault_iff copy Instant.epoch s
    (show "welcome.txt" ≠ "documents/notes.md/x" by decide)
  have hmove := names_operand_at_fault_iff move Instant.epoch s
    (show "documents" ≠ "documents/sub" by decide)
  have hdestination := hcopy.2.1 (by decide +kernel) (by decide +kernel)
  exact ⟨hdestination.1.2 (by decide +kernel), hmove.1 (by decide +kernel)⟩

/-- Both sources can be taken and both destinations refuse them, a path below the source and a
directory that holds it; but the source is named. -/
theorem names_source_for_destination :
    let s := Session.seeded Instant.epoch
    let nested := ((Session.runLine Instant.epoch "mkdir -p a/a").run s).2
    (¬ copy.SourceAtFault s (s.resolve "welcome.txt") (s.resolve "welcome.txt/x") ∧
      DestinationAtFault s (s.resolve "welcome.txt") (s.resolve "welcome.txt/x") ∧
      ¬ (copy.outcome Instant.epoch "welcome.txt" "welcome.txt/x" s).Names "cp" "welcome.txt/x") ∧
    (¬ move.SourceAtFault nested (nested.resolve "a/a") (nested.resolve ".") ∧
      DestinationAtFault nested (nested.resolve "a/a") (nested.resolve ".") ∧
      ¬ (move.outcome Instant.epoch "a/a" "." nested).Names "mv" ".") := by
  intro s nested
  have hcopy : copy.outcome Instant.epoch "welcome.txt" "welcome.txt/x" s = .ofError
      (.file "cp" "welcome.txt" (.notADirectory ["home", "user", "welcome.txt"])) := by
    decide +kernel
  have hmove : move.outcome Instant.epoch "a/a" "." nested = .ofError
      (.file "mv" "a/a" (.alreadyExists ["home", "user", "a"])) := by
    decide +kernel
  refine ⟨⟨by decide +kernel, by decide +kernel, fun h => ?_⟩,
    by decide +kernel, by decide +kernel, fun h => ?_⟩
  · exact absurd (h.unique ⟨_, hcopy⟩) (by decide)
  · exact absurd (h.unique ⟨_, hmove⟩) (by decide)

end Transfer

end PracticeShell
