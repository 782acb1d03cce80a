import PracticeShell.Proofs.Line.CommandLine
import Mathlib.Data.List.DropRight

/-! The length of a line that recalls others. The bound is checked after each reference, so it
covers what is typed up to the last of them; what is typed after that is added unchecked. -/
namespace PracticeShell

namespace Token
variable {history : List String} {t r : Token} {ts here out before after : List Token} {k : Nat}
  {e : LineFault}

/-- The tokens with each reference replaced, however long that makes them. -/
def substitute (history : List String) : List Token → Except LineFault (List Token)
  | [] => .ok []
  | t :: ts => do
    let here ← t.meaning history
    let rest ← substitute history ts
    return here ++ rest

def throughLastReference (ts : List Token) : List Token := ts.rdropWhile fun t => !t.isReference

def afterLastReference (ts : List Token) : List Token := ts.rtakeWhile fun t => !t.isReference

@[simp] theorem totalLength_nil : totalLength [] = 0 := rfl

@[simp] theorem totalLength_cons (t : Token) (ts : List Token) :
    totalLength (t :: ts) = t.length + totalLength ts := rfl

@[simp] theorem totalLength_append (ts us : List Token) :
    totalLength (ts ++ us) = totalLength ts + totalLength us := by
  induction ts with
  | nil => simp
  | cons t ts ih => simp [ih, Nat.add_assoc]

/-! ### The bound -/

theorem expandFrom_cons (h : t.meaning history = .ok here) : expandFrom history k (t :: ts) =
    if t.isReference = true ∧ longestLine < k + totalLength here then .error .expansionTooLong
    else (expandFrom history (k + totalLength here) ts).map (here ++ ·) := by
  rw [expandFrom, h]
  simp only [bind, Except.bind]
  split
  · rfl
  · cases expandFrom history (k + totalLength here) ts <;> rfl

theorem expandFrom_cons_error (h : t.meaning history = .error e) :
    expandFrom history k (t :: ts) = .error e := by
  rw [expandFrom, h]
  rfl

theorem meaning_ne_tooLong : t.meaning history ≠ .error .expansionTooLong := by
  rw [meaning.eq_def]
  split
  · split <;> simp
  · split <;> simp
  · simp

theorem substitute_cons_eq_ok_iff : substitute history (t :: ts) = .ok out ↔
    ∃ here rest, t.meaning history = .ok here ∧ substitute history ts = .ok rest ∧
      out = here ++ rest := by
  rw [substitute]
  cases t.meaning history with
  | error e => simp [bind, Except.bind]
  | ok here =>
    cases substitute history ts with
    | error e => simp [bind, Except.bind]
    | ok rest => simp [bind, Except.bind, pure, Except.pure, eq_comm]

theorem substitute_cons (h : t.meaning history = .ok here) :
    substitute history (t :: ts) = (substitute history ts).map (here ++ ·) := by
  rw [substitute, h]
  simp only [bind, Except.bind]
  cases substitute history ts <;> rfl

theorem substitute_cons_error (h : t.meaning history = .error e) :
    substitute history (t :: ts) = .error e := by
  rw [substitute, h]
  rfl

/-- Expansion is substitution unless the bound is exceeded. -/
theorem expandFrom_eq_substitute (h : expandFrom history k ts ≠ .error .expansionTooLong) :
    expandFrom history k ts = substitute history ts := by
  induction ts generalizing k with
  | nil => rfl
  | cons t ts ih =>
    cases hmeaning : t.meaning history with
    | error e => rw [expandFrom_cons_error hmeaning, substitute_cons_error hmeaning]
    | ok here =>
      rw [expandFrom_cons hmeaning] at h ⊢
      split at h
      · exact absurd rfl h
      · next hshort =>
        rw [if_neg hshort, substitute_cons hmeaning, ih]
        intro hlong
        simp [hlong, Except.map] at h

theorem substitute_of_expandFrom (h : expandFrom history k ts = .ok out) :
    substitute history ts = .ok out := by
  have hshort : expandFrom history k ts ≠ .error .expansionTooLong := by simp [h]
  rw [← expandFrom_eq_substitute hshort, h]

theorem expandFrom_eq_tooLong_iff : expandFrom history k ts = .error .expansionTooLong ↔
    ∃ before r after out, ts = before ++ r :: after ∧ r.isReference = true ∧
      substitute history (before ++ [r]) = .ok out ∧ longestLine < k + totalLength out := by
  induction ts generalizing k with
  | nil => simp [expandFrom]
  | cons t ts ih =>
    constructor
    · intro h
      cases hmeaning : t.meaning history with
      | error e =>
        rw [expandFrom_cons_error hmeaning] at h
        exact absurd (hmeaning.trans h) meaning_ne_tooLong
      | ok here =>
        rw [expandFrom_cons hmeaning] at h
        split at h
        · next hlong =>
          exact ⟨[], t, ts, here, rfl, hlong.1,
            substitute_cons_eq_ok_iff.2 ⟨here, [], hmeaning, rfl, by simp⟩, hlong.2⟩
        · cases hrest : expandFrom history (k + totalLength here) ts with
          | ok rest => simp [hrest, Except.map] at h
          | error e =>
            obtain rfl : e = .expansionTooLong := by simpa [hrest, Except.map] using h
            obtain ⟨before, r, after, out, rfl, href, hout, hlong⟩ := ih.1 hrest
            refine ⟨t :: before, r, after, here ++ out, rfl, href, ?_, ?_⟩
            · exact substitute_cons_eq_ok_iff.2 ⟨here, out, hmeaning, hout, rfl⟩
            · rw [totalLength_append]
              omega
    · rintro ⟨before, r, after, out, hts, href, hout, hlong⟩
      cases before with
      | nil =>
        obtain ⟨rfl, rfl⟩ := List.cons.inj hts
        obtain ⟨here, rest, hmeaning, hrest, rfl⟩ := substitute_cons_eq_ok_iff.1 hout
        obtain rfl := Except.ok.inj hrest
        rw [expandFrom_cons hmeaning, if_pos ⟨href, by simpa using hlong⟩]
      | cons t' before =>
        obtain ⟨rfl, rfl⟩ := List.cons.inj hts
        obtain ⟨here, rest, hmeaning, hrest, rfl⟩ := substitute_cons_eq_ok_iff.1 hout
        rw [totalLength_append, ← Nat.add_assoc] at hlong
        have htail := ih.2 ⟨before, r, after, rest, rfl, href, hrest, hlong⟩
        rw [expandFrom_cons hmeaning, htail]
        split <;> rfl

theorem expand_eq_tooLong_iff : expand history ts = .error .expansionTooLong ↔
    ∃ before r after out, ts = before ++ r :: after ∧ r.isReference = true ∧
      substitute history (before ++ [r]) = .ok out ∧ longestLine < totalLength out := by
  rw [expand, expandFrom_eq_tooLong_iff]
  simp only [Nat.zero_add]

theorem expandFrom_append_eq_ok_iff : expandFrom history k (ts ++ after) = .ok out ↔
    ∃ front rest, expandFrom history k ts = .ok front ∧
      expandFrom history (k + totalLength front) after = .ok rest ∧ out = front ++ rest := by
  induction ts generalizing k out with
  | nil =>
    constructor
    · exact fun h => ⟨[], out, rfl, h, rfl⟩
    · rintro ⟨front, rest, hfront, hrest, rfl⟩
      obtain rfl := Except.ok.inj hfront
      exact hrest
  | cons t ts ih =>
    simp only [List.cons_append, expandFrom_cons_eq_ok_iff, ih]
    constructor
    · rintro ⟨here, rest, hmeaning, hshort, ⟨front, rest, hfront, hrest, rfl⟩, rfl⟩
      refine ⟨here ++ front, rest, ⟨here, front, hmeaning, hshort, hfront, rfl⟩, ?_, by simp⟩
      rwa [totalLength_append, ← Nat.add_assoc]
    · rintro ⟨front, rest, ⟨here, front, hmeaning, hshort, hfront, rfl⟩, hrest, rfl⟩
      rw [totalLength_append, ← Nat.add_assoc] at hrest
      exact ⟨here, front ++ rest, hmeaning, hshort, ⟨front, rest, hfront, hrest, rfl⟩, by simp⟩

/-- The bound covers the line up to its last reference; the rest is kept unchecked. -/
theorem expandFrom_of_last_reference (href : r.isReference = true)
    (hafter : ∀ t ∈ after, t.isReference = false)
    (h : expandFrom history k (before ++ [r] ++ after) = .ok out) :
    ∃ front, substitute history (before ++ [r]) = .ok front ∧ k + totalLength front ≤ longestLine ∧
      out = front ++ after := by
  obtain ⟨front, rest, hfront, hrest, rfl⟩ := expandFrom_append_eq_ok_iff.1 h
  rw [expandFrom_of_no_reference hafter] at hrest
  obtain rfl := Except.ok.inj hrest
  refine ⟨front, substitute_of_expandFrom hfront, ?_, rfl⟩
  obtain ⟨start, last, -, hlast, rfl⟩ := expandFrom_append_eq_ok_iff.1 hfront
  obtain ⟨here, rest, -, hshort, hnil, rfl⟩ := expandFrom_cons_eq_ok_iff.1 hlast
  obtain rfl := Except.ok.inj hnil
  simp only [totalLength_append, totalLength_nil]
  simp only [href, true_and] at hshort
  omega

theorem exists_last_reference (h : ts.any isReference = true) : ∃ before r,
    throughLastReference ts = before ++ [r] ∧ r.isReference = true := by
  have hne : throughLastReference ts ≠ [] := by
    intro hnil
    have hall := List.rdropWhile_eq_nil_iff.1 hnil
    obtain ⟨t, ht, href⟩ := List.any_eq_true.1 h
    simpa [href] using hall t ht
  refine ⟨_, _, (List.dropLast_append_getLast hne).symm, ?_⟩
  simpa [throughLastReference] using List.rdropWhile_last_not _ _ hne

theorem isReference_of_mem_expandFrom (h : expandFrom history k ts = .ok out) :
    ∀ t ∈ out, t.isReference = false := by
  induction ts generalizing k out with
  | nil =>
    obtain rfl := Except.ok.inj h
    simp
  | cons t ts ih =>
    obtain ⟨here, rest, hmeaning, -, hrest, rfl⟩ := expandFrom_cons_eq_ok_iff.1 h
    refine List.forall_mem_append.2 ⟨?_, ih hrest⟩
    cases t with
    | word w | redirect mode =>
      obtain rfl := Except.ok.inj hmeaning
      simp [isReference]
    | lastLine | lineNumber n =>
      rw [meaning] at hmeaning
      split at hmeaning
      · obtain rfl := Except.ok.inj hmeaning
        simp [recalled]
      · simp at hmeaning

end Token

namespace CommandLine
open Token
variable {ts : List Token} {w : String} {ws : List String} {history : List String} {typed : String}

/-! ### The length of the canonical text -/

def redirectLength (r : Redirect) : Nat := (Token.redirect r.mode).length + (word r.target).length

/-- The length of the redirections that a later one replaces. -/
def overridden : List Token → Nat
  | .redirect mode :: .word target :: ts =>
    (if (sortOut ts).2.1.isSome then redirectLength ⟨mode, target⟩ else 0) + overridden ts
  | _ :: ts => overridden ts
  | [] => 0

/-- What the length of a line counts and its text leaves out: the blank before the first word, and
overridden redirections. -/
def unwritten (ts : List Token) : Nat := (if (sortOut ts).1.isEmpty then 0 else 1) + overridden ts

theorem totalLength_sortOut (href : ∀ t ∈ ts, t.isReference = false)
    (hfault : (sortOut ts).2.2 = none) :
    ((sortOut ts).1.map fun w => (word w).length).sum + (sortOut ts).2.1.elim 0 redirectLength +
      overridden ts = totalLength ts := by
  induction ts using sortOut.induct with
  | case1 => rfl
  | case2 w ts words redirect fault hs ih =>
    simp only [sortOut_word] at hfault ⊢
    have hts := ih (fun t ht => href t (List.mem_cons_of_mem _ ht)) hfault
    simp only [List.map_cons, List.sum_cons, overridden, totalLength_cons]
    omega
  | case3 mode target ts words redirect fault hs ih =>
    simp only [sortOut_redirect] at hfault ⊢
    have hts := ih (fun t ht => href t (by simp [ht])) hfault
    simp only [overridden, totalLength_cons]
    cases hr : (sortOut ts).2.1 with
    | none =>
      simp only [hr, Option.elim_none] at hts
      simp [redirectLength]
      omega
    | some r =>
      simp only [hr, Option.elim_some] at hts
      simp [redirectLength] at hts ⊢
      omega
  | case4 mode rest hrest => simp [sortOut] at hfault
  | case5 ts ih => simp [isReference] at href
  | case6 n ts ih => simp [isReference] at href

theorem utf8ByteSize_words (w : String) (ws : List String) :
    (" ".intercalate (w :: ws)).utf8ByteSize + 1 = ((w :: ws).map fun w => (word w).length).sum := by
  induction ws generalizing w with
  | nil => simp [Token.length]
  | cons w' ws ih =>
    have hws := ih w'
    rw [String.intercalate_cons_cons, String.utf8ByteSize_append, String.utf8ByteSize_append]
    simp only [List.map_cons, List.sum_cons] at hws ⊢
    rw [← hws]
    have hblank : " ".utf8ByteSize = 1 := rfl
    simp only [Token.length]
    omega

theorem utf8ByteSize_symbol (mode : OpenMode) :
    mode.symbol.utf8ByteSize + 1 = (Token.redirect mode).length := by
  cases mode <;> rfl

theorem utf8ByteSize_text (href : ∀ t ∈ ts, t.isReference = false)
    (hfault : (sortOut ts).2.2 = none) :
    (ofTokens ts).text.utf8ByteSize + unwritten ts = totalLength ts := by
  have hparts := totalLength_sortOut href hfault
  have hwords : (" ".intercalate ((ofTokens ts).name :: (ofTokens ts).args)).utf8ByteSize +
      (if (sortOut ts).1.isEmpty then 0 else 1) =
        ((sortOut ts).1.map fun w => (word w).length).sum := by
    simp only [ofTokens]
    cases (sortOut ts).1 with
    | nil => rfl
    | cons w ws => exact utf8ByteSize_words w ws
  rw [text, redirect_ofTokens, unwritten]
  cases hr : (sortOut ts).2.1 with
  | none =>
    simp only [hr, Option.elim_none] at hparts
    simp only
    omega
  | some r =>
    have hsymbol := utf8ByteSize_symbol r.mode
    have htarget : (word r.target).length = r.target.utf8ByteSize + 1 := rfl
    have hblank : " ".utf8ByteSize = 1 := rfl
    simp only [hr, Option.elim_some, redirectLength] at hparts
    simp only [String.utf8ByteSize_append]
    omega

/-- A line is refused as too long exactly if it exceeds the bound at some reference. What is typed
after the last one is not counted, so the text is within the bound exactly if there is room for that
too. -/
theorem text_within_bound_iff (history : List String) (typed : String) :
    ((read history typed).fault = some .expansionTooLong ↔
      ∃ before r rest out, ofLine typed = before ++ r :: rest ∧ r.isReference = true ∧
        substitute history (before ++ [r]) = .ok out ∧ longestLine < totalLength out) ∧
    ((read history typed).expanded = true → (read history typed).fault = none →
      ∃ out, substitute history (throughLastReference (ofLine typed)) = .ok out ∧
        totalLength out ≤ longestLine ∧
        ((read history typed).text.utf8ByteSize ≤ longestLine ↔
          totalLength out + totalLength (afterLastReference (ofLine typed)) ≤
            longestLine + unwritten (out ++ afterLastReference (ofLine typed)))) := by
  constructor
  · rw [← expand_eq_tooLong_iff]
    simp only [read]
    cases hx : expand history (ofLine typed) with
    | error e => simp
    | ok ts => simpa using fault_ofTokens_ne ts
  · intro hexpanded hfault
    obtain ⟨ts, hts, hread⟩ := exists_tokens_of_read hfault
    have hany : (ofLine typed).any isReference = true := by simpa [hread] using hexpanded
    have hsort : (sortOut ts).2.2 = none := by simpa [hread, fault_ofTokens] using hfault
    have htext : (read history typed).text = (ofTokens ts).text := by
      rw [hread]
      rfl
    have hafter : ∀ t ∈ afterLastReference (ofLine typed), t.isReference = false := fun t ht => by
      simpa using List.mem_rtakeWhile_imp ht
    obtain ⟨before, r, hfront, href⟩ := exists_last_reference hany
    have hsplit : ofLine typed = before ++ [r] ++ afterLastReference (ofLine typed) :=
      hfront ▸ List.rdropWhile_append_rtakeWhile.symm
    rw [expand, hsplit] at hts
    obtain ⟨out, hout, hwithin, rfl⟩ := expandFrom_of_last_reference href hafter hts
    have hlength := utf8ByteSize_text (isReference_of_mem_expandFrom hts) hsort
    rw [totalLength_append] at hlength
    refine ⟨out, hfront ▸ hout, by omega, ?_⟩
    rw [htext]
    omega

theorem text_within_bound_of_redirect :
    let history := ["echo hi > draft"]
    let line := read history "!! > notes"
    line.expanded = true ∧ line.fault = none ∧ line.text = "echo hi > notes" ∧
      line.text.utf8ByteSize ≤ longestLine := by
  intro history line
  have hexpanded : line.expanded = true := by decide +kernel
  have hfault : line.fault = none := by decide +kernel
  obtain ⟨out, hout, -, hbound⟩ := (text_within_bound_iff history "!! > notes").2 hexpanded hfault
  have hrecalled : substitute history [.lastLine] =
      .ok [word "echo", word "hi", .redirect .truncate, word "draft"] := by decide +kernel
  have hfront : throughLastReference (ofLine "!! > notes") = [.lastLine] := by decide +kernel
  rw [hfront, hrecalled] at hout
  obtain rfl := Except.ok.inj hout
  exact ⟨hexpanded, hfault, by decide +kernel, hbound.2 (by decide +kernel)⟩

theorem read_word_after_reference (hw : IsWord w) :
    read ["pwd"] ("!! " ++ w) = { name := "pwd", args := [w], expanded := true } := by
  have hsep : Text.isSeparator ' ' = true := rfl
  have htyped : ofLine ("!! " ++ w) = [.lastLine, word w] := by
    have htext : ("!! " ++ w).toList = ['!', '!'] ++ ' ' :: w.toList := by simp
    have hreference : scan [] ['!', '!'] = [.lastLine] := by decide
    have hword : scan [] w.toList = [word w] := hw
    rw [ofLine, htext, scan_append_separator hsep, hreference, hword]
    rfl
  have hrecalled : recalled "pwd" = [word "pwd"] := by decide
  have hexpand : expand ["pwd"] [.lastLine, word w] = .ok [word "pwd", word w] := by
    simp only [expand, expandFrom, meaning, List.getLast?_singleton, hrecalled]
    rfl
  rw [read, htyped, hexpand]
  rfl

theorem isWord_replicate (n : Nat) : IsWord (String.ofList (List.replicate (n + 1) 'x')) := by
  have hletters : ∀ c ∈ List.replicate (n + 1) 'x', endsWord c = false := by
    intro c hc
    rw [List.eq_of_mem_replicate hc]
    rfl
  rw [IsWord, ofLine, String.toList_ofList, scan_run (by simp) hletters]
  simp [List.replicate_succ, ofRun]

theorem utf8ByteSize_replicate (n : Nat) :
    (String.ofList (List.replicate n 'x')).utf8ByteSize = n := by
  induction n with
  | zero => rfl
  | succ n ih =>
    have hletter : 'x'.utf8Size = 1 := rfl
    rw [List.replicate_succ, String.ofList_cons, String.utf8ByteSize_append,
      String.utf8ByteSize_singleton, ih, hletter, Nat.add_comm]

/-- A word typed after the reference exceeds the bound unnoticed. -/
theorem text_beyond_bound :
    let typed := "!! " ++ String.ofList (List.replicate 4093 'x')
    let line := read ["pwd"] typed
    line.expanded = true ∧ line.fault = none ∧ longestLine < line.text.utf8ByteSize := by
  intro typed line
  have hline : line = CommandLine.mk "pwd" [String.ofList (List.replicate 4093 'x')] none true none :=
    read_word_after_reference (isWord_replicate 4092)
  have hlength := utf8ByteSize_words "pwd" [String.ofList (List.replicate 4093 'x')]
  rw [hline]
  refine ⟨rfl, rfl, ?_⟩
  simp only [List.map_cons, List.map_nil, List.sum_cons, List.sum_nil, Token.length,
    utf8ByteSize_replicate] at hlength
  have hname : "pwd".utf8ByteSize = 3 := rfl
  have hbound : longestLine = 4096 := rfl
  simp only [text]
  omega

end CommandLine

end PracticeShell
