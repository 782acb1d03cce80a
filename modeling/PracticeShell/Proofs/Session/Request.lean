import PracticeShell.Command.Run
import PracticeShell.Proofs.Line.Length
import PracticeShell.Proofs.Text.Ends

/-! What a typed line asks for once earlier lines are recalled in it: nothing, a refusal, or a
command. This depends on the line and the history only. -/
namespace PracticeShell

namespace Token

def ofRedirect (r : Redirect) : List Token := [.redirect r.mode, word r.target]

end Token

namespace CommandLine
open Token
variable {ts : List Token} {rs : List Redirect} {history : List String} {typed : String}

theorem sortOut_redirects (rs : List Redirect) :
    (sortOut (rs.flatMap ofRedirect)).1 = [] ∧ (sortOut (rs.flatMap ofRedirect)).2.2 = none := by
  induction rs with
  | nil => exact ⟨rfl, rfl⟩
  | cons r rs ih =>
    have hcons : sortOut ((r :: rs).flatMap ofRedirect) = _ :=
      sortOut_redirect r.mode r.target (rs.flatMap ofRedirect)
    rw [hcons]
    exact ih

theorem exists_redirects_of_no_words (href : ∀ t ∈ ts, t.isReference = false)
    (hwords : (sortOut ts).1 = []) (hfault : (sortOut ts).2.2 = none) :
    ∃ rs : List Redirect, ts = rs.flatMap ofRedirect := by
  induction ts using sortOut.induct with
  | case1 => exact ⟨[], rfl⟩
  | case2 w ts => simp [sortOut_word] at hwords
  | case3 mode target ts words redirect fault hs ih =>
    rw [sortOut_redirect] at hwords hfault
    have hts : ∀ t ∈ ts, t.isReference = false := fun t ht => href t (by simp [ht])
    obtain ⟨rs, rfl⟩ := ih hts hwords hfault
    exact ⟨⟨mode, target⟩ :: rs, rfl⟩
  | case4 mode rest hrest =>
    cases rest with
    | nil => simp [sortOut] at hfault
    | cons t rest =>
      cases t with
      | word w => exact absurd rfl (hrest w rest)
      | redirect mode' => simp [sortOut] at hfault
      | lastLine => simp [sortOut] at hfault
      | lineNumber n => simp [sortOut] at hfault
  | case5 ts ih => simp [isReference] at href
  | case6 n ts ih => simp [isReference] at href

theorem fault_of_plain (h : '>' ∉ typed.toList) (h' : '!' ∉ typed.toList) :
    (read history typed).fault = none := by
  obtain ⟨ws, hws⟩ := exists_words_of_plain h h'
  have hline : ofLine typed = ws.map word := hws
  rw [read_of_no_reference (by simp [hline, isReference]), hline, fault_ofTokens, sortOut_words]

theorem trim_ne_empty_of_fault {cause : LineFault} (h : (read history typed).fault = some cause) :
    Text.trim typed ≠ "" := by
  intro htrim
  have hblank (c : Char) (hc : Text.isBlank c = false) : c ∉ typed.toList := fun hm => by
    simp [Text.isBlank_of_trim_eq_empty htrim hm] at hc
  have hnone : (read history typed).fault = none :=
    fault_of_plain (hblank '>' (by decide)) (hblank '!' (by decide))
  simp [hnone] at h

theorem isEmpty_read_iff : (read history typed).isEmpty = true ↔
    ∃ rs : List Redirect, expand history (ofLine typed) = .ok (rs.flatMap ofRedirect) := by
  constructor
  · intro h
    obtain ⟨hname, hfault⟩ : (read history typed).name = "" ∧ (read history typed).fault = none := by
      simpa [isEmpty] using h
    obtain ⟨ts, hts, hread⟩ := exists_tokens_of_read hfault
    rw [hread] at hname hfault
    have hwords : (sortOut ts).1 = [] := by
      cases hw : (sortOut ts).1 with
      | nil => rfl
      | cons w ws =>
        obtain rfl : w = "" := by simpa [ofTokens, hw] using hname
        have hmem : word "" ∈ ts := mem_of_mem_sortOut (by simp [hw])
        exact absurd rfl (isWord_of_mem_expand hts hmem).ne_empty
    obtain ⟨rs, rfl⟩ := exists_redirects_of_no_words (isReference_of_mem_expandFrom hts) hwords hfault
    exact ⟨rs, hts⟩
  · rintro ⟨rs, hrs⟩
    obtain ⟨hwords, hfault⟩ := sortOut_redirects rs
    simp [isEmpty, read, hrs, ofTokens, hwords, hfault]

end CommandLine

/-- What a line asks for, with its entry in the history. -/
inductive Request where
  | nothing
  | refused (entry : String) (cause : Diagnostic)
  | command (entry : String) (c : Command)
deriving DecidableEq

namespace Request

def ofLine (history : List String) (typed : String) : Request :=
  let line := CommandLine.read history typed
  match line.fault with
  | some cause => .refused (Text.trim typed) (.line cause)
  | none =>
    if line.isEmpty then .nothing
    else
      let entry := if line.expanded then line.text else Text.trim typed
      match Command.read line.name line.args line.redirect with
      | .ok c => .command entry c
      | .error cause => .refused entry cause

def newLine? : Request → Option String
  | .nothing => none
  | .refused entry _ | .command entry _ => some entry

def answer (now : Instant) : Request → StateM Session Outcome
  | .nothing => return .empty
  | .refused entry cause => do
    modify (·.record entry)
    return .ofError cause
  | .command entry c => do
    modify (·.record entry)
    c.run now

theorem ofLine_eq_nothing_iff {history : List String} {typed : String} :
    ofLine history typed = .nothing ↔ (CommandLine.read history typed).isEmpty = true := by
  cases hfault : (CommandLine.read history typed).fault with
  | some cause => simp [ofLine, hfault, CommandLine.isEmpty]
  | none =>
    cases hempty : (CommandLine.read history typed).isEmpty with
    | true => simp [ofLine, hfault, hempty]
    | false =>
      simp only [ofLine, hfault, hempty, Bool.false_eq_true, if_false, iff_false]
      split <;> simp

end Request

theorem Session.run_runLine (now : Instant) (typed : String) (s : Session) :
    (runLine now typed).run s = ((Request.ofLine s.history typed).answer now).run s := by
  simp only [runLine, StateT.run_bind, StateT.run_get, pure_bind]
  cases hfault : (CommandLine.read s.history typed).fault with
  | some cause =>
    have htrim := CommandLine.trim_ne_empty_of_fault hfault
    simp [Request.ofLine, hfault, htrim, Request.answer]
  | none =>
    cases hempty : (CommandLine.read s.history typed).isEmpty with
    | true => simp [Request.ofLine, hfault, hempty, Request.answer]
    | false =>
      simp only [Request.ofLine, hfault, hempty]
      cases Command.read (CommandLine.read s.history typed).name
        (CommandLine.read s.history typed).args (CommandLine.read s.history typed).redirect <;> rfl

theorem Session.run_runLine_typed {l : CommandLine} {c : Command}
    (hwords : ∀ w ∈ l.name :: l.args, Token.IsWord w)
    (htarget : ∀ r ∈ l.redirect, Token.IsWord r.target) (hexpanded : l.expanded = false)
    (hfault : l.fault = none) (hread : Command.read l.name l.args l.redirect = .ok c)
    (now : Instant) (s : Session) :
    (runLine now l.text).run s = (c.run now).run (s.record (Text.trim l.text)) := by
  have hline := CommandLine.read_text_of_words hwords htarget hexpanded hfault s.history
  have hname : l.name ≠ "" := (hwords l.name List.mem_cons_self).ne_empty
  rw [run_runLine, Request.ofLine]
  simp only [hline, hfault, hexpanded, CommandLine.isEmpty, hread]
  simp [hname]
  rfl

end PracticeShell
