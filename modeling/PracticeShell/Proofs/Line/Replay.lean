import PracticeShell.Proofs.Line.CommandLine
import PracticeShell.Proofs.Session.History
import PracticeShell.Proofs.Text.Ends

/-! A line recalled with `!!` right after it ran. It is read as the same line if trimming took only
separators off it; other blanks are parts of words, which the recorded text then lacks. -/
namespace PracticeShell

namespace Token
variable {p m q x y : List Char}

/-- In `p ++ (m ++ q)`, `m` reaches from the first `>` to the last. -/
structure AroundMarks (p m q : List Char) : Prop where
  front : '>' ∉ p
  back : '>' ∉ q
  unmarked : m = [] → q = []
  first : ∀ d ∈ m.head?, d = '>'
  last : ∀ c ∈ m.getLast?, c = '>'

theorem exists_around_marks (cs : List Char) :
    ∃ p m q, cs = p ++ (m ++ q) ∧ AroundMarks p m q := by
  induction cs with
  | nil => exact ⟨[], [], [], rfl, by simp, by simp, by simp, by simp, by simp⟩
  | cons c cs ih =>
    obtain ⟨p, m, q, rfl, h⟩ := ih
    by_cases hc : c = '>'
    · subst hc
      by_cases hm : m = []
      · obtain rfl := h.unmarked hm
        subst hm
        exact ⟨[], ['>'], p, by simp, by simp, h.front, by simp, by simp, by simp⟩
      · refine ⟨[], '>' :: (p ++ m), q, by simp, by simp, h.back, by simp, by simp, fun d hd => ?_⟩
        have hend : ('>' :: (p ++ m)).getLast? = m.getLast? :=
          List.getLast?_append_of_ne_nil ('>' :: p) hm
        rw [hend] at hd
        exact h.last d hd
    · have hfront : '>' ∉ c :: p := by simp [h.front, Ne.symm hc]
      exact ⟨c :: p, m, q, rfl, hfront, h.back, h.unmarked, h.first, h.last⟩

theorem AroundMarks.exists_widened (h : AroundMarks p m q) (hx : '>' ∉ x) (hy : '>' ∉ y) :
    ∃ p' q', x ++ (p ++ (m ++ q) ++ y) = p' ++ (m ++ q') ∧ AroundMarks p' m q' ∧
      letters p' + letters q' = letters x + letters y + (letters p + letters q) := by
  by_cases hm : m = []
  · obtain rfl := h.unmarked hm
    refine ⟨x ++ (p ++ y), [], by simp [hm], ⟨?_, by simp, by simp, h.first, h.last⟩, ?_⟩
    · simp [hx, h.front, hy]
    · simp only [letters_append]
      omega
  · refine ⟨x ++ p, q ++ y, by simp, ⟨?_, ?_, fun he => absurd he hm, h.first, h.last⟩, ?_⟩
    · simp [hx, h.front]
    · simp [h.back, hy]
    · simp only [letters_append]
      omega

theorem AroundMarks.scan_eq (h : AroundMarks p m q) :
    scan [] (p ++ (m ++ q)) = scan [] p ++ (scan [] m ++ scan [] q) := by
  have hfront : ∀ c ∈ p.getLast?, ∀ d ∈ (m ++ q).head?, Apart c d := by
    intro c hc d hd
    have hcm : c ≠ '>' := fun he => h.front (he ▸ List.mem_of_getLast? hc)
    have hdm : d = '>' := by
      cases m with
      | nil => simp [h.unmarked rfl] at hd
      | cons e m => exact h.first d (by simpa using hd)
    exact .inr (.inr (by simp [hcm, hdm]))
  have hback : ∀ c ∈ m.getLast?, ∀ d ∈ q.head?, Apart c d := by
    intro c hc d hd
    have hdm : d ≠ '>' := fun he => h.back (he ▸ List.mem_of_head? hd)
    exact .inr (.inr (by simp [h.last c hc, hdm]))
  rw [scan_append hfront, scan_append hback]

end Token

namespace CommandLine
open Token
variable {p p' m q q' : List Char} {typed : String} {history : List String} {ts us : List Token}

theorem exists_words_around_marks (h : AroundMarks p m q) : ∃ ws ws' : List String,
    (scan [] (p ++ (m ++ q))).filter (fun t => !t.isReference) =
      ws.map word ++ ((scan [] m).filter (fun t => !t.isReference) ++ ws'.map word) ∧
    (ws.map String.length).sum = wordLengths (scan [] p) ∧
    (ws'.map String.length).sum = wordLengths (scan [] q) := by
  obtain ⟨ws, hws⟩ := exists_words_of_no_mark h.front
  obtain ⟨ws', hws'⟩ := exists_words_of_no_mark h.back
  refine ⟨ws, ws', ?_, ?_, ?_⟩
  · rw [h.scan_eq, List.filter_append, List.filter_append, hws, hws']
  · rw [← wordLengths_map_word, ← hws, wordLengths_filter]
  · rw [← wordLengths_map_word, ← hws', wordLengths_filter]

/-- Of two texts read into lines of the same size, one that recalls nothing has no more letters
outside its marks. -/
theorem letters_le_of_size_eq (h : AroundMarks p m q) (h' : AroundMarks p' m q')
    (href : ∀ t ∈ scan [] (p ++ (m ++ q)), t.isReference = false)
    (hfault : (sortOut (scan [] (p ++ (m ++ q)))).2.2 = none)
    (hfault' : (sortOut ((scan [] (p' ++ (m ++ q'))).filter fun t => !t.isReference)).2.2 = none)
    (hsize : size (sortOut ((scan [] (p' ++ (m ++ q'))).filter fun t => !t.isReference)) =
      size (sortOut (scan [] (p ++ (m ++ q))))) :
    letters p + letters q ≤ letters p' + letters q' := by
  have hself : (scan [] (p ++ (m ++ q))).filter (fun t => !t.isReference) =
      scan [] (p ++ (m ++ q)) :=
    List.filter_eq_self.2 fun t ht => by simp [href t ht]
  obtain ⟨ws, vs, hread, hws, hvs⟩ := exists_words_around_marks h
  obtain ⟨ws', vs', hread', hws', hvs'⟩ := exists_words_around_marks h'
  rw [hself] at hread
  rw [hread, sortOut_words_append] at hfault
  rw [hread', sortOut_words_append] at hfault'
  rw [hread, hread', size_words_append, size_words_append] at hsize
  obtain ⟨-, hends⟩ := size_append_words hfault hfault'
  rw [h.scan_eq, List.forall_mem_append, List.forall_mem_append] at href
  have hp := wordLengths_scan href.1
  have hq := wordLengths_scan href.2.2
  have hp' := wordLengths_scan_le p'
  have hq' := wordLengths_scan_le q'
  omega

theorem isSeparator_of_letters_eq_zero {cs : List Char} (h : letters cs = 0)
    (hblank : ∀ c ∈ cs, Text.isBlank c = true) : ∀ c ∈ cs, Text.isSeparator c = true := by
  intro c hc
  have hends : endsWord c = true := by simpa using List.countP_eq_zero.1 h c hc
  have hmark : c ≠ '>' := by
    rintro rfl
    exact absurd (hblank _ hc) (by decide)
  simpa [endsWord, hmark] using hends

theorem trimsSeparators_of_size_eq (href : ∀ t ∈ ofLine typed, t.isReference = false)
    (hfault : (sortOut (ofLine typed)).2.2 = none)
    (hfault' : (sortOut (recalled (Text.trim typed))).2.2 = none)
    (hsize : size (sortOut (recalled (Text.trim typed))) = size (sortOut (ofLine typed))) :
    Text.TrimsSeparators typed := by
  obtain ⟨p, m, q, htrim, h⟩ := exists_around_marks (Text.trim typed).toList
  have hfront : '>' ∉ Text.frontBlanks typed := fun hm =>
    absurd (Text.isBlank_of_mem_frontBlanks hm) (by decide)
  have hback : '>' ∉ Text.endBlanks typed := fun hm =>
    absurd (Text.isBlank_of_mem_endBlanks hm) (by decide)
  obtain ⟨p', q', hwide, h', hletters⟩ := h.exists_widened hfront hback
  have htyped : typed.toList = p' ++ (m ++ q') := by
    rw [Text.toList_eq_trim, htrim, hwide]
  simp only [recalled, ofLine, htyped, htrim] at href hfault hfault' hsize
  have hle := letters_le_of_size_eq h' h href hfault hfault' hsize
  have hnone : letters (Text.frontBlanks typed) = 0 ∧ letters (Text.endBlanks typed) = 0 := by omega
  refine List.forall_mem_append.2 ⟨?_, ?_⟩
  · exact isSeparator_of_letters_eq_zero hnone.1 fun c => Text.isBlank_of_mem_frontBlanks
  · exact isSeparator_of_letters_eq_zero hnone.2 fun c => Text.isBlank_of_mem_endBlanks

/-! ### Recalling the line that just ran -/

/-- `again` is read as the same command as `line`, unless it is too long. -/
def Replays (line again : CommandLine) : Prop :=
  again.fault = some .expansionTooLong ∨
    again.fault = none ∧ again.name = line.name ∧ again.args = line.args ∧
      again.redirect = line.redirect

instance (line again : CommandLine) : Decidable (line.Replays again) :=
  inferInstanceAs (Decidable (_ ∨ _))

theorem read_lastLine (history : List String) (line : String) :
    read (history ++ [line]) "!!" =
      if longestLine < totalLength (recalled line) then { fault := some .expansionTooLong }
      else { ofTokens (recalled line) with expanded := true } := by
  have htokens : ofLine "!!" = [.lastLine] := by decide
  have hlast : (history ++ [line]).getLast? = some line := by simp
  rw [read, htokens, expand]
  by_cases hlong : longestLine < totalLength (recalled line)
  · simp [expandFrom, meaning, hlast, isReference, bind, Except.bind, hlong, throw, throwThe,
      MonadExceptOf.throw]
  · simp [expandFrom, meaning, hlast, isReference, bind, Except.bind, pure, Except.pure, hlong]

theorem read_of_not_expanded (hfault : (read history typed).fault = none)
    (h : (read history typed).expanded = false) :
    (∀ t ∈ ofLine typed, t.isReference = false) ∧ read history typed = ofTokens (ofLine typed) := by
  obtain ⟨ts, -, hread⟩ := exists_tokens_of_read hfault
  rw [hread] at h
  have hany : (ofLine typed).any isReference = false := h
  have href : ∀ t ∈ ofLine typed, t.isReference = false := by simpa using hany
  exact ⟨href, read_of_no_reference href history⟩

theorem words_of_name_ne (h : (ofTokens ts).name ≠ "") :
    (sortOut ts).1 = (ofTokens ts).name :: (ofTokens ts).args := by
  simp only [ofTokens] at h ⊢
  cases hw : (sortOut ts).1 with
  | nil => simp [hw] at h
  | cons w ws => rfl

theorem isWord_of_read (hfault : (read history typed).fault = none)
    (hname : (read history typed).name ≠ "") :
    (∀ w ∈ (read history typed).name :: (read history typed).args, IsWord w) ∧
      ∀ r ∈ (read history typed).redirect, IsWord r.target := by
  obtain ⟨ts, hts, hread⟩ := exists_tokens_of_read hfault
  rw [hread] at hname ⊢
  constructor
  · intro w hw
    apply isWord_of_mem_expand hts
    apply mem_of_mem_sortOut
    rwa [words_of_name_ne hname]
  · intro r hr
    exact isWord_of_mem_expand hts (mem_of_redirect_sortOut hr)

theorem replays_ofTokens_iff {line : CommandLine} :
    line.Replays { ofTokens us with expanded := true } ↔
      (ofTokens us).fault = none ∧ (ofTokens us).name = line.name ∧
        (ofTokens us).args = line.args ∧ (ofTokens us).redirect = line.redirect :=
  or_iff_right (fault_ofTokens_ne us)

theorem size_eq_of_same (hne : (ofTokens ts).name ≠ "")
    (hname : (ofTokens us).name = (ofTokens ts).name)
    (hargs : (ofTokens us).args = (ofTokens ts).args)
    (hredirect : (ofTokens us).redirect = (ofTokens ts).redirect) :
    size (sortOut us) = size (sortOut ts) := by
  have hne' : (ofTokens us).name ≠ "" := hname ▸ hne
  rw [redirect_ofTokens, redirect_ofTokens] at hredirect
  rw [size, size, words_of_name_ne hne, words_of_name_ne hne', hname, hargs, hredirect]

theorem replays_text {line : CommandLine} (hwords : ∀ w ∈ line.name :: line.args, IsWord w)
    (htarget : ∀ r ∈ line.redirect, IsWord r.target) (history : List String) :
    line.Replays (read (history ++ [line.text]) "!!") := by
  have hrecalled : recalled line.text = written (line.name :: line.args) line.redirect := by
    rw [recalled, ofLine_text_of_words rfl rfl hwords htarget, List.filter_eq_self]
    intro t ht
    simp [isReference_of_mem_written ht]
  rw [read_lastLine, hrecalled]
  split
  · exact .inl rfl
  · rw [replays_ofTokens_iff, ofTokens, sortOut_written]
    exact ⟨rfl, rfl, rfl, rfl⟩

theorem replays_trim_iff (href : ∀ t ∈ ofLine typed, t.isReference = false)
    (hfault : (ofTokens (ofLine typed)).fault = none) (hname : (ofTokens (ofLine typed)).name ≠ "")
    (history : List String) :
    (ofTokens (ofLine typed)).Replays (read (history ++ [Text.trim typed]) "!!") ↔
      Text.TrimsSeparators typed ∨ longestLine < totalLength (recalled (Text.trim typed)) := by
  rw [read_lastLine]
  by_cases hlong : longestLine < totalLength (recalled (Text.trim typed))
  · rw [if_pos hlong]
    exact ⟨fun _ => .inr hlong, fun _ => .inl rfl⟩
  rw [if_neg hlong, replays_ofTokens_iff]
  constructor
  · rintro ⟨hfault', hname', hargs, hredirect⟩
    have hsize := size_eq_of_same hname hname' hargs hredirect
    rw [fault_ofTokens] at hfault hfault'
    exact .inl (trimsSeparators_of_size_eq href hfault hfault' hsize)
  · rintro (h | h)
    · have hsame : recalled (Text.trim typed) = ofLine typed := by
        have hends := List.forall_mem_append.1 h
        have hlines : ofLine typed = ofLine (Text.trim typed) := by
          rw [ofLine, Text.toList_eq_trim, scan_between_separators hends.1 hends.2, ofLine]
        rw [recalled, ← hlines, List.filter_eq_self]
        intro t ht
        simp [href t ht]
      rw [hsame]
      exact ⟨hfault, rfl, rfl, rfl⟩
    · exact absurd h hlong

end CommandLine

namespace Session
open CommandLine

/-- After a line has run, `!!` is read as the same command if and only if the line was expanded or
trimming it took off only separators, length apart. -/
theorem replays_iff (now : Instant) (s : Session) (typed : String)
    (hfault : (CommandLine.read s.history typed).fault = none)
    (hname : (CommandLine.read s.history typed).name ≠ "") :
    (CommandLine.read s.history typed).Replays
        (CommandLine.read ((runLine now typed).run s).2.history "!!") ↔
      (CommandLine.read s.history typed).expanded = true ∨ Text.TrimsSeparators typed ∨
        longestLine < Token.totalLength (Token.recalled (Text.trim typed)) := by
  rw [history_runLine hfault hname, recorded]
  cases hx : (CommandLine.read s.history typed).expanded with
  | true =>
    obtain ⟨hwords, htarget⟩ := isWord_of_read hfault hname
    simpa [hx] using replays_text hwords htarget s.history
  | false =>
    obtain ⟨href, hread⟩ := read_of_not_expanded hfault hx
    rw [hread] at hfault hname ⊢
    simpa using replays_trim_iff href hfault hname s.history

theorem replays_between_separators :
    let s := seeded Instant.epoch
    let typed := "  echo hi>draft \t"
    (CommandLine.read s.history typed).fault = none ∧
      (CommandLine.read s.history typed).name ≠ "" ∧
      (CommandLine.read s.history typed).Replays
        (CommandLine.read ((runLine Instant.epoch typed).run s).2.history "!!") := by
  intro s typed
  have hfault : (CommandLine.read s.history typed).fault = none := by decide +kernel
  have hname : (CommandLine.read s.history typed).name ≠ "" := by decide +kernel
  have htrims : Text.TrimsSeparators typed := by decide +kernel
  exact ⟨hfault, hname, (replays_iff Instant.epoch s typed hfault hname).2 (.inr (.inl htrims))⟩

/-- A no-break space is part of the file name but trimmed from the recorded line, so `!!` names
another file. -/
theorem replays_another_line :
    let s := seeded Instant.epoch
    let typed := "touch draft\u00a0"
    (CommandLine.read s.history typed).fault = none ∧
      (CommandLine.read s.history typed).name ≠ "" ∧
      ¬ (CommandLine.read s.history typed).Replays
        (CommandLine.read ((runLine Instant.epoch typed).run s).2.history "!!") := by
  decide +kernel

end Session

end PracticeShell
