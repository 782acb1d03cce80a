import PracticeShell.Line.CommandLine
import PracticeShell.Proofs.Line.Token

/-! Command lines and their tokens. A line in canonical text is read back as it was. The size of a
line, the characters in its words, tells whether another text can be read as the same line. -/
namespace PracticeShell

namespace Token
variable {history : List String} {t : Token} {ts here out : List Token} {w : String} {length : Nat}

theorem expandFrom_cons_eq_ok_iff : expandFrom history length (t :: ts) = .ok out ↔
    ∃ here rest, t.meaning history = .ok here ∧
      ¬(t.isReference = true ∧ longestLine < length + totalLength here) ∧
      expandFrom history (length + totalLength here) ts = .ok rest ∧ out = here ++ rest := by
  rw [expandFrom]
  cases hmeaning : t.meaning history with
  | error e => simp [bind, Except.bind]
  | ok here =>
    simp only [bind, Except.bind, Except.ok.injEq]
    constructor
    · intro h
      by_cases hlong : t.isReference = true ∧ longestLine < length + totalLength here
      · simp [hlong, throw, throwThe, MonadExceptOf.throw] at h
      · cases hrest : expandFrom history (length + totalLength here) ts with
        | error e => simp [hlong, hrest] at h
        | ok rest =>
          simp only [hlong, hrest, if_false, pure, Except.pure, Except.ok.injEq] at h
          exact ⟨here, rest, rfl, hlong, hrest, h.symm⟩
    · rintro ⟨_, rest, rfl, hlong, hrest, rfl⟩
      simp only [hlong, hrest, if_false, pure, Except.pure]

theorem meaning_of_no_reference (h : t.isReference = false) : t.meaning history = .ok [t] := by
  cases t <;> simp_all [meaning, isReference]

theorem expandFrom_of_no_reference (h : ∀ t ∈ ts, t.isReference = false) (history : List String)
    (length : Nat) : expandFrom history length ts = .ok ts := by
  induction ts generalizing length with
  | nil => rfl
  | cons t ts ih =>
    obtain ⟨ht, hts⟩ := List.forall_mem_cons.1 h
    exact expandFrom_cons_eq_ok_iff.2
      ⟨[t], ts, meaning_of_no_reference ht, by simp [ht], ih hts _, rfl⟩

theorem isWord_of_mem_meaning (ht : ∀ w, t = word w → IsWord w) (h : t.meaning history = .ok here)
    (hw : word w ∈ here) : IsWord w := by
  cases t with
  | word v | redirect mode =>
    obtain rfl := Except.ok.inj h
    exact ht w (List.mem_singleton.1 hw).symm
  | lastLine | lineNumber n =>
    rw [meaning] at h
    split at h
    · obtain rfl := Except.ok.inj h
      exact isWord_of_mem_recalled hw
    · simp at h

theorem isWord_of_mem_expandFrom (hts : ∀ w, word w ∈ ts → IsWord w)
    (h : expandFrom history length ts = .ok out) (hw : word w ∈ out) : IsWord w := by
  induction ts generalizing length out with
  | nil =>
    obtain rfl := Except.ok.inj h
    simp at hw
  | cons t ts ih =>
    obtain ⟨here, rest, hmeaning, -, hrest, rfl⟩ := expandFrom_cons_eq_ok_iff.1 h
    obtain hw | hw := List.mem_append.1 hw
    · exact isWord_of_mem_meaning (fun v hv => hts v (hv ▸ List.mem_cons_self)) hmeaning hw
    · exact ih (fun v hv => hts v (List.mem_cons_of_mem t hv)) hrest hw

theorem isWord_of_mem_expand {typed : String} (h : expand history (ofLine typed) = .ok out)
    (hw : word w ∈ out) : IsWord w :=
  isWord_of_mem_expandFrom (fun _ => isWord_of_mem_ofLine) h hw

end Token

namespace CommandLine
open Token
variable {ts : List Token} {w : String} {ws : List String} {history : List String} {typed : String}

theorem sortOut_word (w : String) (ts : List Token) :
    sortOut (word w :: ts) = (w :: (sortOut ts).1, (sortOut ts).2) := by rw [sortOut]

theorem sortOut_redirect (mode : OpenMode) (target : String) (ts : List Token) :
    sortOut (.redirect mode :: word target :: ts) =
      ((sortOut ts).1, (sortOut ts).2.1.or (some ⟨mode, target⟩), (sortOut ts).2.2) := by rw [sortOut]

theorem sortOut_words_append (ws : List String) (ts : List Token) :
    sortOut (ws.map word ++ ts) = (ws ++ (sortOut ts).1, (sortOut ts).2) := by
  induction ws with
  | nil => rfl
  | cons w ws ih =>
    rw [List.map_cons, List.cons_append, sortOut_word, ih]
    rfl

theorem sortOut_words (ws : List String) : sortOut (ws.map word) = (ws, none, none) := by
  have h := sortOut_words_append ws []
  rw [List.append_nil] at h
  rw [h]
  simp [sortOut]

theorem mem_of_mem_sortOut (h : w ∈ (sortOut ts).1) : word w ∈ ts := by
  fun_induction sortOut ts with
  | case1 => simp at h
  | case2 v ts words redirect fault hs ih =>
    obtain rfl | h := List.mem_cons.1 h
    · exact List.mem_cons_self
    · exact List.mem_cons_of_mem _ (ih (by simpa [hs] using h))
  | case3 mode target ts words redirect fault hs ih =>
    exact List.mem_cons_of_mem _ (List.mem_cons_of_mem _ (ih (by simpa [hs] using h)))
  | case4 => simp at h
  | case5 ts ih => exact List.mem_cons_of_mem _ (ih h)
  | case6 n ts ih => exact List.mem_cons_of_mem _ (ih h)

theorem mem_of_redirect_sortOut {r : Redirect} (h : (sortOut ts).2.1 = some r) :
    word r.target ∈ ts := by
  fun_induction sortOut ts with
  | case1 => simp at h
  | case2 v ts words redirect fault hs ih =>
    exact List.mem_cons_of_mem _ (ih (by simpa [hs] using h))
  | case3 mode target ts words redirect fault hs ih =>
    cases redirect with
    | none =>
      obtain rfl := Option.some_inj.1 h
      simp
    | some r' =>
      exact List.mem_cons_of_mem _ (List.mem_cons_of_mem _ (ih (by simpa [hs] using h)))
  | case4 => simp at h
  | case5 ts ih => exact List.mem_cons_of_mem _ (ih h)
  | case6 n ts ih => exact List.mem_cons_of_mem _ (ih h)

/-! ### Reading -/

theorem fault_sortOut (ts : List Token) :
    (sortOut ts).2.2 = none ∨ (sortOut ts).2.2 = some .missingRedirectTarget := by
  fun_induction sortOut ts <;> simp_all

theorem fault_ofTokens (ts : List Token) : (ofTokens ts).fault = (sortOut ts).2.2 := rfl

theorem redirect_ofTokens (ts : List Token) : (ofTokens ts).redirect = (sortOut ts).2.1 := rfl

theorem fault_ofTokens_ne (ts : List Token) : (ofTokens ts).fault ≠ some .expansionTooLong := by
  rw [fault_ofTokens]
  obtain h | h := fault_sortOut ts <;> simp [h]

theorem exists_tokens_of_read (h : (read history typed).fault = none) :
    ∃ ts, expand history (ofLine typed) = .ok ts ∧
      read history typed = { ofTokens ts with expanded := (ofLine typed).any isReference } := by
  rw [read] at h ⊢
  cases hx : expand history (ofLine typed) with
  | error e => simp [hx] at h
  | ok ts => exact ⟨ts, rfl, by simp⟩

/-! ### How much of a text has gone into a line -/

/-- The characters in the words of a line and in the name of its last file. -/
def size (line : List String × Option Redirect × Option LineFault) : Nat :=
  (line.1.map String.length).sum + line.2.1.elim 0 fun r => r.target.length

theorem size_words_append (ws : List String) (ts : List Token) :
    size (sortOut (ws.map word ++ ts)) = (ws.map String.length).sum + size (sortOut ts) := by
  rw [sortOut_words_append, size, size, List.map_append, List.sum_append, Nat.add_assoc]

theorem size_append_words {ws ws' : List String}
    (h : (sortOut (ts ++ ws.map word)).2.2 = none)
    (h' : (sortOut (ts ++ ws'.map word)).2.2 = none) :
    (sortOut (ts ++ ws.map word)).2.1.isSome = (sortOut (ts ++ ws'.map word)).2.1.isSome ∧
      size (sortOut (ts ++ ws.map word)) + (ws'.map String.length).sum =
        size (sortOut (ts ++ ws'.map word)) + (ws.map String.length).sum := by
  induction ts using sortOut.induct with
  | case1 => simp [sortOut_words, size, Nat.add_comm]
  | case2 w ts words redirect fault hs ih =>
    simp only [List.cons_append, sortOut_word] at h h' ⊢
    obtain ⟨hsome, hsize⟩ := ih h h'
    refine ⟨hsome, ?_⟩
    simp only [size, List.map_cons, List.sum_cons] at hsize ⊢
    omega
  | case3 mode target ts words redirect fault hs ih =>
    simp only [List.cons_append, sortOut_redirect] at h h' ⊢
    obtain ⟨hsome, hsize⟩ := ih h h'
    refine ⟨by simp, ?_⟩
    simp only [size] at hsize ⊢
    cases hr : (sortOut (ts ++ ws.map word)).2.1 <;>
      cases hr' : (sortOut (ts ++ ws'.map word)).2.1 <;> simp_all
    omega
  | case4 mode rest hrest =>
    cases rest with
    | nil =>
      cases ws with
      | nil => simp [sortOut] at h
      | cons w ws =>
        cases ws' with
        | nil => simp [sortOut] at h'
        | cons w' ws' =>
          simp [sortOut_redirect, sortOut_words, size]
          omega
    | cons t rest =>
      cases t with
      | word w => exact absurd rfl (hrest w rest)
      | redirect mode' => simp [sortOut] at h
      | lastLine => simp [sortOut] at h
      | lineNumber n => simp [sortOut] at h
  | case5 ts ih =>
    simp only [List.cons_append, sortOut] at h h' ⊢
    exact ih h h'
  | case6 n ts ih =>
    simp only [List.cons_append, sortOut] at h h' ⊢
    exact ih h h'

/-! ### Canonical text -/

def written (ws : List String) (redirect : Option Redirect) : List Token :=
  ws.map word ++ redirect.elim [] fun r => [.redirect r.mode, word r.target]

theorem scan_words_headD (h : ∀ w ∈ ws, IsWord w) :
    scan [] (" ".intercalate (ws.headD "" :: ws.tail)).toList = ws.map word := by
  cases ws with
  | nil => simp
  | cons w ws => exact scan_words h

theorem ofLine_text_of_words {l : CommandLine} (hname : l.name = ws.headD "")
    (hargs : l.args = ws.tail) (hwords : ∀ w ∈ ws, IsWord w)
    (htarget : ∀ r ∈ l.redirect, IsWord r.target) : ofLine l.text = written ws l.redirect := by
  rw [ofLine, text, written, hname, hargs]
  cases hr : l.redirect with
  | none => simpa using scan_words_headD hwords
  | some r =>
    have hsep : Text.isSeparator ' ' = true := rfl
    have hsymbol : scan [] r.mode.symbol.toList = [.redirect r.mode] := by
      cases r.mode <;> rfl
    have hlist : (" ".intercalate (ws.headD "" :: ws.tail) ++ " " ++ r.mode.symbol ++ " " ++
        r.target).toList = (" ".intercalate (ws.headD "" :: ws.tail)).toList ++
          ' ' :: (r.mode.symbol.toList ++ ' ' :: r.target.toList) := by
      simp [String.toList_append]
    have hread : scan [] r.target.toList = [word r.target] := htarget r hr
    simp only [hlist, scan_append_separator hsep, scan_words_headD hwords, hsymbol, hread]
    rfl

theorem sortOut_written (ws : List String) (redirect : Option Redirect) :
    sortOut (written ws redirect) = (ws, redirect, none) := by
  rw [written, sortOut_words_append]
  cases redirect with
  | none => simp [sortOut]
  | some r => simp [sortOut_redirect, sortOut]

theorem isReference_of_mem_written {redirect : Option Redirect} {t : Token}
    (h : t ∈ written ws redirect) : t.isReference = false := by
  obtain h | h := List.mem_append.1 h
  · obtain ⟨w, -, rfl⟩ := List.mem_map.1 h
    rfl
  · cases redirect with
    | none => simp at h
    | some r =>
      simp only [Option.elim_some, List.mem_cons, List.not_mem_nil, or_false] at h
      obtain rfl | rfl := h <;> rfl

theorem read_of_no_reference (h : ∀ t ∈ ofLine typed, t.isReference = false)
    (history : List String) : read history typed = ofTokens (ofLine typed) := by
  have hexpand : expand history (ofLine typed) = .ok (ofLine typed) :=
    expandFrom_of_no_reference h history 0
  have hany : (ofLine typed).any isReference = false := by simpa using h
  simp only [read, hexpand, hany]
  rfl

theorem read_text_of_words {l : CommandLine} (hwords : ∀ w ∈ l.name :: l.args, IsWord w)
    (htarget : ∀ r ∈ l.redirect, IsWord r.target) (hexpanded : l.expanded = false)
    (hfault : l.fault = none) (history : List String) : read history l.text = l := by
  have htext : ofLine l.text = written (l.name :: l.args) l.redirect :=
    ofLine_text_of_words rfl rfl hwords htarget
  rw [read_of_no_reference (fun t ht => isReference_of_mem_written (htext ▸ ht)), htext, ofTokens,
    sortOut_written]
  cases l
  simp_all

/-- The canonical text of a line is read as the same line, whatever the history: no word of it is
taken for a reference. -/
theorem read_canonical_text (later : List String) (hfault : (read history typed).fault = none) :
    read later (read history typed).text = { read history typed with expanded := false } := by
  obtain ⟨ts, hts, hread⟩ := exists_tokens_of_read hfault
  rw [hread] at hfault ⊢
  have hwords : ∀ w ∈ (sortOut ts).1, IsWord w := by
    intro w hw
    exact isWord_of_mem_expand hts (mem_of_mem_sortOut hw)
  have htarget : ∀ r ∈ (sortOut ts).2.1, IsWord r.target := by
    intro r hr
    exact isWord_of_mem_expand hts (mem_of_redirect_sortOut hr)
  have htext : ofLine ({ ofTokens ts with expanded := (ofLine typed).any isReference }).text =
      written (sortOut ts).1 (sortOut ts).2.1 :=
    ofLine_text_of_words rfl rfl hwords htarget
  have hnone : (sortOut ts).2.2 = none := hfault
  rw [read_of_no_reference (fun t ht => isReference_of_mem_written (htext ▸ ht)), htext]
  simp only [ofTokens, sortOut_written, hnone]

theorem read_canonical_text_of_large_number :
    let history := ["echo hi>draft"]
    let typed := "!! !99999999999>>notes there"
    let text := "echo hi !99999999999 there >> notes"
    (read history typed).fault = none ∧ (read history typed).expanded = true ∧
      (read history typed).text = text ∧
      read [] text = { read history typed with expanded := false } := by
  intro history typed text
  have hfault : (read history typed).fault = none := by decide +kernel
  have htext : (read history typed).text = text := by decide +kernel
  refine ⟨hfault, by decide +kernel, htext, ?_⟩
  rw [← htext]
  exact read_canonical_text [] hfault

end CommandLine

end PracticeShell
