import PracticeShell.Command.Run
import PracticeShell.Proofs.Edit.Outcome

/-! Invariants of commands and lines. A command runs edits at paths that it resolves against the
cursor, and changes the session in no other way; so what every edit preserves, every line
preserves. -/
namespace PracticeShell

def Keeps {α : Type} (I : Session → Prop) (m : StateM Session α) : Prop := ∀ s, I s → I (m.run s).2

namespace Keeps
variable {α β : Type} {I : Session → Prop}

theorem pure (a : α) : Keeps I (pure a : StateM Session α) := fun _ hs => hs

theorem bind {m : StateM Session α} {f : α → StateM Session β} (hm : Keeps I m)
    (hf : ∀ a, Keeps I (f a)) : Keeps I (m >>= f) := by
  intro s hs
  have h := hm s hs
  exact hf (m.run s).1 (m.run s).2 h

theorem get_bind {f : Session → StateM Session β} (hf : ∀ s, I s → I ((f s).run s).2) :
    Keeps I (get >>= f) := hf

theorem modify {g : Session → Session} (hg : ∀ s, I s → I (g s)) : Keeps I (modify g) := hg

end Keeps

theorem Session.run_mapM_cons {α β : Type} (f : α → StateM Session β) (a : α) (rest : List α)
    (s : Session) : ((a :: rest).mapM f).run s =
      (((f a).run s).1 :: ((rest.mapM f).run ((f a).run s).2).1,
        ((rest.mapM f).run ((f a).run s).2).2) := by
  rw [List.mapM_cons]
  rfl

/-- An edit at paths in `V` preserves `I`. -/
structure KeptAtPaths (now : Instant) (V : Path → Prop) (I : Session → Prop) : Prop where
  enter : ∀ s p, V p → I s → I ((Edit.enter p).result s).2
  createDirectory : ∀ s p parents, V p → I s → I ((Edit.createDirectory now p parents).result s).2
  touch : ∀ s p, V p → I s → I ((Edit.touch now p).result s).2
  write : ∀ s p text mode, V p → I s → I ((Edit.write now p text mode).result s).2
  remove : ∀ s p recursive, V p → I s → I ((Edit.remove now p recursive).result s).2
  copy : ∀ s p q, V p → V q → I s → I ((Edit.copy now p q).result s).2
  move : ∀ s p q, V p → V q → I s → I ((Edit.move now p q).result s).2

/-- An edit at paths in `V` preserves `I`, and a text in `W` resolves to a path in `V`. -/
structure KeptByEditsOn (now : Instant) (W : String → Prop) (V : Path → Prop) (I : Session → Prop) :
    Prop extends KeptAtPaths now V I where
  resolve : ∀ s typed, W typed → I s → V (s.resolve typed)

structure KeptByEdits (now : Instant) (V : Path → Prop) (I : Session → Prop) : Prop
    extends KeptAtPaths now V I where
  resolve : ∀ s typed, I s → V (s.resolve typed)

theorem KeptByEdits.on {now : Instant} {V : Path → Prop} {I : Session → Prop}
    (h : KeptByEdits now V I) : KeptByEditsOn now (fun _ => True) V I :=
  ⟨h.toKeptAtPaths, fun s typed _ => h.resolve s typed⟩

/-- The texts that a command reads as paths. -/
def Command.operands : Command → List String
  | .ls paths _ _ | .mkdir paths _ | .touch paths | .rm paths _ _ | .cat paths => paths
  | .cd path => [path.getD "~"]
  | .echo _ redirect => redirect.toList.map fun r => targetName r.target
  | .cp sources destination | .mv sources destination => sources ++ [destination]
  | .pwd | .clear | .help | .history | .whoami | .date => []

namespace Command
variable {now : Instant} {W : String → Prop} {V : Path → Prop} {I : Session → Prop}

theorem run_attempt (command operand : String) (e : Edit Unit) (s : Session) :
    (attempt command operand e).run s = match e.result s with
      | (.ok _, s') => (none, s')
      | (.error x, s') => (some (.file command operand x), s') := by
  rw [attempt, StateT.run_bind, Edit.result]
  obtain ⟨_ | _, _⟩ := e.run.run s <;> rfl

theorem session_attempt (command operand : String) (e : Edit Unit) (s : Session) :
    ((attempt command operand e).run s).2 = (e.result s).2 := by
  rw [run_attempt]
  obtain ⟨_ | _, _⟩ := e.result s <;> rfl

theorem keeps_failures {act : String → StateM Session (Option Diagnostic)} {operands : List String}
    (h : ∀ operand ∈ operands, Keeps I (act operand)) : Keeps I (failures act operands) := by
  induction operands with
  | nil => exact Keeps.pure _
  | cons operand rest ih =>
    obtain ⟨hoperand, hrest⟩ := List.forall_mem_cons.1 h
    exact hoperand.bind fun _ => (ih hrest).bind fun _ => Keeps.pure _

theorem keeps_runEach {act : String → StateM Session (Option Diagnostic)} {operands : List String}
    (h : ∀ operand ∈ operands, Keeps I (act operand)) : Keeps I (runEach operands act) :=
  (keeps_failures h).bind fun _ => Keeps.pure _

theorem keeps_attempt {command operand : String} {e : Session → Edit Unit}
    (h : ∀ s, I s → I ((e s).result s).2) : Keeps I (do attempt command operand (e (← get))) := by
  refine Keeps.get_bind fun s hs => ?_
  rw [session_attempt]
  exact h s hs

theorem session_transfer (name : String) (edit : Path → Path → Edit Path) (target : Path)
    (destination typed : String) (s : Session) :
    ((transfer name edit target destination typed).run s).2 =
      ((edit (s.resolve typed) target).result s).2 := by
  simp only [transfer, StateT.run_bind, StateT.run_get, pure_bind, Edit.result]
  obtain ⟨_ | _, _⟩ := (edit (s.resolve typed) target).run.run s <;> rfl

theorem session_removeOperand (now : Instant) (recursive force : Bool) (typed : String)
    (s : Session) :
    ((removeOperand now recursive force typed).run s).2 =
      ((Edit.remove now (s.resolve typed) recursive).result s).2 := by
  rw [← session_attempt "rm" typed]
  rfl

theorem session_copyOrMove (name : String) (edit : Path → Path → Edit Path) (sources : List String)
    (destination : String) (s : Session) :
    ((copyOrMove name edit sources destination).run s).2 =
      if 1 < sources.length ∧ (destinationError? s (s.resolve destination)).isSome then s
      else ((failures (transfer name edit (s.resolve destination) destination)
        sources).run s).2 := by
  simp only [copyOrMove, StateT.run_bind, StateT.run_get, pure_bind]
  by_cases hl : 1 < sources.length
  · cases hd : destinationError? s (s.resolve destination) with
    | none =>
      simp only [hl, if_true, Option.isSome_none, Bool.false_eq_true, and_false, if_false]
      rfl
    | some cause =>
      simp only [hl, if_true, Option.isSome_some, and_self]
      rfl
  · simp only [hl, false_and, if_false]
    rfl

theorem keeps_copyOrMove (hI : KeptByEditsOn now W V I) {edit : Path → Path → Edit Path}
    (h : ∀ s p q, V p → V q → I s → I ((edit p q).result s).2) (name : String)
    {sources : List String} {destination : String} (hW : ∀ typed ∈ sources ++ [destination], W typed) :
    Keeps I (copyOrMove name edit sources destination) := by
  intro s hs
  have ht : V (s.resolve destination) := hI.resolve s destination (hW _ (by simp)) hs
  have htransfer : ∀ typed ∈ sources,
      Keeps I (transfer name edit (s.resolve destination) destination typed) := by
    intro typed htyped s' hs'
    have hsource : V (s'.resolve typed) := hI.resolve s' typed (hW _ (by simp [htyped])) hs'
    rw [session_transfer]
    exact h s' _ _ hsource ht hs'
  rw [session_copyOrMove]
  split
  · exact hs
  · exact keeps_failures htransfer s hs

theorem keeps_removeOperand (hI : KeptByEditsOn now W V I) (recursive force : Bool) {typed : String}
    (hW : W typed) : Keeps I (removeOperand now recursive force typed) := by
  intro s hs
  rw [session_removeOperand]
  exact hI.remove s _ recursive (hI.resolve s typed hW hs) hs

theorem keeps_echo (hI : KeptByEditsOn now W V I) (text : String) (redirect : Option Redirect)
    (hW : ∀ r ∈ redirect, W (targetName r.target)) : Keeps I (echoText now text redirect) := by
  cases redirect with
  | none => exact Keeps.pure _
  | some r =>
    refine Keeps.get_bind fun s hs => keeps_runEach (fun typed _ s' hs' => ?_) s hs
    rw [session_attempt]
    exact hI.write s' _ _ r.mode (hI.resolve s _ (hW r rfl) hs) hs'

theorem keeps_run_on (hI : KeptByEditsOn now W V I) (c : Command) (hW : ∀ typed ∈ c.operands, W typed) :
    Keeps I (c.run now) := by
  cases c with
  | pwd => exact Keeps.get_bind fun _ hs => hs
  | ls paths long all => exact Keeps.get_bind fun _ hs => hs
  | cd path =>
    exact keeps_runEach fun typed htyped =>
      keeps_attempt fun s hs => hI.enter s _ (hI.resolve s typed (hW typed htyped) hs) hs
  | mkdir paths parents =>
    exact keeps_runEach fun typed htyped => keeps_attempt fun s hs =>
      hI.createDirectory s _ parents (hI.resolve s typed (hW typed htyped) hs) hs
  | touch paths =>
    exact keeps_runEach fun typed htyped =>
      keeps_attempt fun s hs => hI.touch s _ (hI.resolve s typed (hW typed htyped) hs) hs
  | rm paths recursive force =>
    exact keeps_runEach fun typed htyped => keeps_removeOperand hI recursive force (hW typed htyped)
  | cat paths => exact Keeps.get_bind fun _ hs => hs
  | echo text redirect =>
    refine keeps_echo hI text redirect fun r hr => hW _ ?_
    rw [Option.mem_def.1 hr]
    exact List.mem_singleton_self _
  | cp sources destination => exact keeps_copyOrMove hI hI.copy "cp" hW
  | mv sources destination => exact keeps_copyOrMove hI hI.move "mv" hW
  | clear => exact Keeps.pure _
  | help => exact Keeps.pure _
  | history => exact Keeps.get_bind fun _ hs => hs
  | whoami => exact Keeps.pure _
  | date => exact Keeps.pure _

theorem keeps_run (hI : KeptByEdits now V I) (c : Command) : Keeps I (c.run now) :=
  keeps_run_on hI.on c fun _ _ => trivial

end Command

/-- A line records itself at most once and runs at most one command. -/
theorem Session.keeps_runLine {now : Instant} {V : Path → Prop} {I : Session → Prop}
    (hI : KeptByEdits now V I) (hrecord : ∀ s line, I s → I (s.record line)) (typed : String) :
    Keeps I (runLine now typed) := by
  refine Keeps.get_bind fun s hs => ?_
  have hrec (line : String) : Keeps I (modify fun s => s.record line) :=
    Keeps.modify fun s hs => hrecord s line hs
  cases hf : (CommandLine.read s.history typed).fault with
  | some cause =>
    simp only [hf]
    split
    · exact (hrec _).bind (fun _ => Keeps.pure _) s hs
    · exact hs
  | none =>
    simp only [hf]
    split
    · exact hs
    · refine (hrec _).bind (fun _ => ?_) s hs
      split
      · exact Command.keeps_run hI _
      · exact Keeps.pure _

end PracticeShell
