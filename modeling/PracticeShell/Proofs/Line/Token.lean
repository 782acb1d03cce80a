import PracticeShell.Line.Recall
import Mathlib.Algebra.Ring.Nat
import Mathlib.Data.List.Basic

/-! The tokens of a text. Texts that meet where no token reaches across are read apart; from this
come the tokens of a line written word by word, and of a line with separators at its ends. -/
namespace PracticeShell.Token
variable {c d : Char} {run x y cs : List Char} {t : Token} {w : String}

def endsWord (c : Char) : Bool := Text.isSeparator c || c == '>'

/-- No token contains `c` followed by `d`. -/
def Apart (c d : Char) : Prop :=
  Text.isSeparator c = true ∨ Text.isSeparator d = true ∨ ¬(c = '>' ↔ d = '>')

@[simp] theorem flush_nil : flush [] = [] := rfl

theorem flush_cons (c : Char) (run : List Char) :
    flush (c :: run) = [ofRun (c :: run).reverse] := rfl

@[simp] theorem scan_nil (run : List Char) : scan run [] = flush run := by rw [scan]

theorem scan_separator (h : Text.isSeparator c = true) (run cs : List Char) :
    scan run (c :: cs) = flush run ++ scan [] cs := by
  have hc : c ≠ '>' := by
    rintro rfl
    simp [Text.isSeparator] at h
  rw [scan, if_pos h] <;> simp [hc]

theorem scan_letter (h : endsWord c = false) (run cs : List Char) :
    scan run (c :: cs) = scan (c :: run) cs := by
  simp only [endsWord, Bool.or_eq_false_iff, beq_eq_false_iff_ne] at h
  rw [scan, if_neg (by simp [h.1])] <;> simp [h.2]

theorem scan_append_mark (run cs : List Char) :
    scan run ('>' :: '>' :: cs) = flush run ++ redirect .append :: scan [] cs := by rw [scan]

theorem scan_truncate_mark (run : List Char) (h : cs.head? ≠ some '>') :
    scan run ('>' :: cs) = flush run ++ redirect .truncate :: scan [] cs := by
  rw [scan]
  rintro ds rfl
  simp at h

/-! ### Texts side by side -/

theorem scan_of_apart (hrun : ∀ c ∈ run, endsWord c = false)
    (h : ∀ c ∈ run.head?, ∀ d ∈ y.head?, Apart c d) : scan run y = flush run ++ scan [] y := by
  cases run with
  | nil => rfl
  | cons c run =>
    cases y with
    | nil => simp
    | cons d y =>
      have hcd : Apart c d := h c rfl d rfl
      have hc : endsWord c = false := hrun c List.mem_cons_self
      simp only [endsWord, Bool.or_eq_false_iff, beq_eq_false_iff_ne] at hc
      cases hd : Text.isSeparator d with
      | true => rw [scan_separator hd, scan_separator hd]; simp
      | false =>
        obtain rfl : d = '>' := by simpa [Apart, hc, hd] using hcd
        cases y with
        | nil => rw [scan_truncate_mark _ (by simp), scan_truncate_mark _ (by simp)]; simp
        | cons e y =>
          by_cases he : e = '>'
          · subst he
            rw [scan_append_mark, scan_append_mark]; simp
          · rw [scan_truncate_mark _ (by simpa using he), scan_truncate_mark _ (by simpa using he)]
            simp

theorem mem_head?_reverse_append (front run : List Char) (h : c ∈ (x.reverse ++ []).head?) :
    c ∈ ((front ++ x).reverse ++ run).head? := by
  rw [List.append_nil] at h
  rw [List.reverse_append, List.append_assoc]
  exact List.mem_head?_append_of_mem_head? h

theorem scan_run_append (hrun : ∀ c ∈ run, endsWord c = false)
    (h : ∀ c ∈ (x.reverse ++ run).head?, ∀ d ∈ y.head?, Apart c d) :
    scan run (x ++ y) = scan run x ++ scan [] y := by
  fun_induction scan run x with
  | case1 run => exact scan_of_apart hrun (by simpa using h)
  | case2 run cs ih =>
    have hcs := ih (by simp) fun c hc => h c (mem_head?_reverse_append ['>', '>'] run hc)
    rw [List.cons_append, List.cons_append, scan_append_mark, hcs]
    simp
  | case3 run cs hne ih =>
    have hcs := ih (by simp) fun c hc => h c (mem_head?_reverse_append ['>'] run hc)
    have hhead : (cs ++ y).head? ≠ some '>' := by
      cases cs with
      | nil =>
        intro hy
        have hapart : Apart '>' '>' := h '>' (by simp) '>' hy
        simp [Apart, Text.isSeparator] at hapart
      | cons c cs => simpa using fun hc : c = '>' => hne cs (hc ▸ rfl)
    rw [List.cons_append, scan_truncate_mark run hhead, hcs]
    simp
  | case4 run c cs _ _ hsep ih =>
    have hcs := ih (by simp) fun e he => h e (mem_head?_reverse_append [c] run he)
    rw [List.cons_append, scan_separator hsep, hcs]
    simp
  | case5 run c cs _ hmark hsep ih =>
    have hc : endsWord c = false := by simp_all [endsWord]
    rw [List.cons_append, scan_letter hc]
    exact ih (List.forall_mem_cons.2 ⟨hc, hrun⟩) (by simpa using h)

theorem scan_append (h : ∀ c ∈ x.getLast?, ∀ d ∈ y.head?, Apart c d) :
    scan [] (x ++ y) = scan [] x ++ scan [] y :=
  scan_run_append (by simp) (by simpa using h)

theorem scan_append_separator (h : Text.isSeparator c = true) (x y : List Char) :
    scan [] (x ++ c :: y) = scan [] x ++ scan [] y := by
  rw [scan_append (fun _ _ d hd => ?_), scan_separator h]
  · rfl
  · obtain rfl : c = d := by simpa using hd
    exact .inr (.inl h)

theorem scan_separators (h : ∀ c ∈ cs, Text.isSeparator c = true) : scan [] cs = [] := by
  induction cs with
  | nil => rfl
  | cons c cs ih =>
    obtain ⟨hc, hcs⟩ := List.forall_mem_cons.1 h
    rw [scan_separator hc, ih hcs]
    rfl

theorem scan_between_separators (hx : ∀ c ∈ x, Text.isSeparator c = true)
    (hy : ∀ c ∈ y, Text.isSeparator c = true) : scan [] (x ++ (cs ++ y)) = scan [] cs := by
  rw [scan_append fun c hc _ _ => .inl (hx c (List.mem_of_getLast? hc)), scan_separators hx,
    scan_append fun _ _ d hd => .inr (.inl (hy d (List.mem_of_head? hd))), scan_separators hy]
  simp

/-! ### Words -/

theorem scan_letters (h : ∀ c ∈ x, endsWord c = false) (run : List Char) :
    scan run x = flush (x.reverse ++ run) := by
  induction x generalizing run with
  | nil => simp
  | cons c x ih =>
    obtain ⟨hc, hx⟩ := List.forall_mem_cons.1 h
    rw [scan_letter hc, ih hx]
    simp

theorem scan_run (hne : x ≠ []) (h : ∀ c ∈ x, endsWord c = false) : scan [] x = [ofRun x] := by
  rw [scan_letters h, List.append_nil, flush, if_neg (by simpa using hne), List.reverse_reverse]

def IsWord (w : String) : Prop := ofLine w = [word w]

instance (w : String) : Decidable (IsWord w) := inferInstanceAs (Decidable (_ = _))

theorem IsWord.ne_empty (h : IsWord w) : w ≠ "" := by
  intro hempty
  simp [IsWord, ofLine, hempty] at h

theorem ofRun_eq (cs : List Char) :
    (ofRun cs).isReference = true ∨ ofRun cs = word (String.ofList cs) := by
  rw [ofRun.eq_def]
  split
  · exact .inl rfl
  · split
    · exact .inl rfl
    · exact .inr rfl
  · exact .inr rfl

theorem eq_of_mem_flush (h : word w ∈ flush run) : w = String.ofList run.reverse := by
  cases run with
  | nil => simp at h
  | cons c run =>
    have hw : word w = ofRun (c :: run).reverse := List.mem_singleton.1 h
    obtain href | heq := ofRun_eq (c :: run).reverse
    · rw [← hw] at href
      simp [isReference] at href
    · rw [heq] at hw
      simpa using hw

theorem isWord_of_mem_flush (hrun : ∀ c ∈ run, endsWord c = false) (h : word w ∈ flush run) :
    IsWord w := by
  have hw := eq_of_mem_flush h
  cases run with
  | nil => simp at h
  | cons c run =>
    have hone : word w = ofRun (c :: run).reverse := List.mem_singleton.1 h
    rw [IsWord, ofLine, hw, String.toList_ofList,
      scan_run (by simp) fun d hd => hrun d (List.mem_reverse.1 hd), ← hone, hw]

theorem isWord_of_mem_scan (hrun : ∀ c ∈ run, endsWord c = false) (h : word w ∈ scan run cs) :
    IsWord w := by
  fun_induction scan run cs with
  | case1 run => exact isWord_of_mem_flush hrun h
  | case2 run cs ih | case3 run cs _ ih =>
    obtain h | h := List.mem_append.1 h
    · exact isWord_of_mem_flush hrun h
    · exact ih (by simp) (by simpa using h)
  | case4 run c cs _ _ _ ih =>
    obtain h | h := List.mem_append.1 h
    · exact isWord_of_mem_flush hrun h
    · exact ih (by simp) h
  | case5 run c cs _ hmark hsep ih =>
    have hc : endsWord c = false := by simp_all [endsWord]
    exact ih (List.forall_mem_cons.2 ⟨hc, hrun⟩) h

theorem isWord_of_mem_ofLine {line : String} (h : word w ∈ ofLine line) : IsWord w :=
  isWord_of_mem_scan (by simp) h

theorem isWord_of_mem_recalled {line : String} (h : word w ∈ recalled line) : IsWord w :=
  isWord_of_mem_ofLine (List.mem_filter.1 h).1

theorem scan_words {ws : List String} (h : ∀ w ∈ ws, IsWord w) :
    scan [] (" ".intercalate ws).toList = ws.map word := by
  induction ws with
  | nil => simp
  | cons w ws ih =>
    obtain ⟨hw, hws⟩ := List.forall_mem_cons.1 h
    cases ws with
    | nil => rw [String.intercalate_singleton]; exact hw
    | cons w' ws =>
      have hsep : Text.isSeparator ' ' = true := rfl
      have htext : (" ".intercalate (w :: w' :: ws)).toList =
          w.toList ++ ' ' :: (" ".intercalate (w' :: ws)).toList := by
        rw [String.intercalate_cons_cons]
        simp
      rw [htext, scan_append_separator hsep, ih hws]
      exact congrArg (· ++ _) hw

/-! ### How much of a text stands in its words -/

def letters (cs : List Char) : Nat := cs.countP fun c => !endsWord c

def wordLength : Token → Nat
  | word w => w.length
  | redirect _ | lastLine | lineNumber _ => 0

def wordLengths (ts : List Token) : Nat := (ts.map wordLength).sum

@[simp] theorem wordLengths_nil : wordLengths [] = 0 := rfl

@[simp] theorem wordLengths_cons (t : Token) (ts : List Token) :
    wordLengths (t :: ts) = t.wordLength + wordLengths ts := by
  simp [wordLengths]

@[simp] theorem wordLengths_append (ts us : List Token) :
    wordLengths (ts ++ us) = wordLengths ts + wordLengths us := by
  simp [wordLengths]

theorem letters_append (x y : List Char) : letters (x ++ y) = letters x + letters y :=
  List.countP_append

theorem letters_cons_of_endsWord (h : endsWord c = true) (cs : List Char) :
    letters (c :: cs) = letters cs := by
  simp [letters, h]

theorem letters_cons_of_letter (h : endsWord c = false) (cs : List Char) :
    letters (c :: cs) = letters cs + 1 := by
  simp [letters, h]

theorem wordLength_of_isReference {t : Token} (h : t.isReference = true) : t.wordLength = 0 := by
  cases t <;> simp_all [isReference, wordLength]

/-- A run that is no reference is wholly in its words. -/
theorem exists_wordLengths_flush (run : List Char) : ∃ hidden,
    wordLengths (flush run) + hidden = run.length ∧
      ((∀ t ∈ flush run, t.isReference = false) → hidden = 0) := by
  cases run with
  | nil => exact ⟨0, by simp⟩
  | cons c run =>
    rw [flush_cons, wordLengths_cons, wordLengths_nil]
    obtain href | hword := ofRun_eq (c :: run).reverse
    · refine ⟨(c :: run).length, by rw [wordLength_of_isReference href]; omega, fun h => ?_⟩
      simp only [List.mem_singleton, forall_eq, href, Bool.true_eq_false] at h
    · refine ⟨0, ?_, fun _ => rfl⟩
      rw [hword]
      simp [wordLength]

theorem exists_wordLengths_scan (run cs : List Char) : ∃ hidden,
    wordLengths (scan run cs) + hidden = run.length + letters cs ∧
      ((∀ t ∈ scan run cs, t.isReference = false) → hidden = 0) := by
  fun_induction scan run cs with
  | case1 run => simpa [letters] using exists_wordLengths_flush run
  | case2 run cs ih | case3 run cs _ ih =>
    obtain ⟨i, hi, hi0⟩ := exists_wordLengths_flush run
    obtain ⟨j, hj, hj0⟩ := ih
    have hmark : endsWord '>' = true := rfl
    refine ⟨i + j, ?_, fun h => ?_⟩
    · simp only [wordLengths_append, wordLengths_cons, wordLength, letters_cons_of_endsWord hmark]
      simp only [List.length_nil] at hj
      omega
    · obtain ⟨hflush, hrest⟩ := List.forall_mem_append.1 h
      rw [hi0 hflush, hj0 (List.forall_mem_cons.1 hrest).2]
  | case4 run c cs _ _ hsep ih =>
    obtain ⟨i, hi, hi0⟩ := exists_wordLengths_flush run
    obtain ⟨j, hj, hj0⟩ := ih
    have hc : endsWord c = true := by simp [endsWord, hsep]
    refine ⟨i + j, ?_, fun h => ?_⟩
    · rw [wordLengths_append, letters_cons_of_endsWord hc]
      simp only [List.length_nil] at hj
      omega
    · obtain ⟨hflush, hrest⟩ := List.forall_mem_append.1 h
      rw [hi0 hflush, hj0 hrest]
  | case5 run c cs _ hmark hsep ih =>
    obtain ⟨j, hj, hj0⟩ := ih
    have hc : endsWord c = false := by simp_all [endsWord]
    refine ⟨j, ?_, hj0⟩
    rw [letters_cons_of_letter hc]
    simp only [List.length_cons] at hj
    omega

theorem wordLengths_scan_le (cs : List Char) : wordLengths (scan [] cs) ≤ letters cs := by
  obtain ⟨hidden, h, -⟩ := exists_wordLengths_scan [] cs
  simp only [List.length_nil] at h
  omega

theorem wordLengths_scan (h : ∀ t ∈ scan [] cs, t.isReference = false) :
    wordLengths (scan [] cs) = letters cs := by
  obtain ⟨hidden, hcount, hnone⟩ := exists_wordLengths_scan [] cs
  simp only [List.length_nil, hnone h] at hcount
  omega

theorem wordLengths_filter (ts : List Token) :
    wordLengths (ts.filter fun t => !t.isReference) = wordLengths ts := by
  induction ts with
  | nil => rfl
  | cons t ts ih =>
    cases href : t.isReference with
    | true => simp [href, ih, wordLength_of_isReference href]
    | false => simp [href, ih]

@[simp] theorem wordLengths_map_word (ws : List String) :
    wordLengths (ws.map word) = (ws.map String.length).sum := by
  induction ws with
  | nil => rfl
  | cons w ws ih => simp [wordLength, ih]

def IsLettered (w : String) : Prop := ∀ c ∈ w.toList, endsWord c = false

instance (w : String) : Decidable (IsLettered w) :=
  List.decidableBAll (fun c => endsWord c = false) w.toList

theorem IsWord.isLettered (h : IsWord w) : IsLettered w := by
  have hscan : scan [] w.toList = [word w] := h
  have hletters : wordLengths (scan [] w.toList) = letters w.toList :=
    wordLengths_scan (by simp [hscan, isReference])
  have hall : w.toList.countP (fun c => !endsWord c) = w.toList.length := by
    refine hletters.symm.trans ?_
    rw [hscan]
    simp [wordLength, String.length_toList]
  intro c hc
  simpa using List.countP_eq_length.1 hall c hc

theorem isWord_or_isReference_of_mem_scan (h : '>' ∉ cs) (hts : t ∈ scan run cs) :
    t.isReference = true ∨ ∃ w, t = word w := by
  have hflush (run : List Char) (ht : t ∈ flush run) : t.isReference = true ∨ ∃ w, t = word w := by
    cases run with
    | nil => simp at ht
    | cons c run =>
      obtain rfl := List.mem_singleton.1 ht
      exact (ofRun_eq _).imp_right fun hw => ⟨_, hw⟩
  fun_induction scan run cs with
  | case1 run => exact hflush run hts
  | case2 | case3 => simp at h
  | case4 run c cs _ _ _ ih =>
    obtain ht | ht := List.mem_append.1 hts
    · exact hflush run ht
    · exact ih (fun hm => h (List.mem_cons_of_mem c hm)) ht
  | case5 run c cs _ _ _ ih => exact ih (fun hm => h (List.mem_cons_of_mem c hm)) hts

theorem exists_words_of_no_mark (h : '>' ∉ cs) :
    ∃ ws : List String, (scan [] cs).filter (fun t => !t.isReference) = ws.map word := by
  have hall : ∀ t ∈ (scan [] cs).filter fun t => !t.isReference, ∃ w, t = word w := by
    intro t ht
    obtain ⟨hmem, hnot⟩ := List.mem_filter.1 ht
    obtain href | hw := isWord_or_isReference_of_mem_scan h hmem
    · simp [href] at hnot
    · exact hw
  generalize (scan [] cs).filter (fun t => !t.isReference) = ts at hall
  induction ts with
  | nil => exact ⟨[], rfl⟩
  | cons t ts ih =>
    obtain ⟨⟨w, rfl⟩, hts⟩ := List.forall_mem_cons.1 hall
    obtain ⟨ws, rfl⟩ := ih hts
    exact ⟨w :: ws, rfl⟩

/-! ### References and their mark -/

theorem isReference_ofRun (h : (ofRun cs).isReference = true) : '!' ∈ cs := by
  cases cs with
  | nil => simp [ofRun, isReference] at h
  | cons c cs =>
    by_cases hc : c = '!'
    · simp [hc]
    · rw [ofRun.eq_def] at h
      split at h <;> simp_all [isReference]

theorem mark_of_isReference (ht : t ∈ scan run cs) (href : t.isReference = true) :
    '!' ∈ run ∨ '!' ∈ cs := by
  have hflush (run : List Char) (ht : t ∈ flush run) : '!' ∈ run := by
    cases run with
    | nil => simp at ht
    | cons c run =>
      obtain rfl := List.mem_singleton.1 ht
      exact List.mem_reverse.1 (isReference_ofRun href)
  fun_induction scan run cs with
  | case1 run => exact .inl (hflush run ht)
  | case2 run cs ih | case3 run cs _ ih =>
    obtain ht | ht := List.mem_append.1 ht
    · exact .inl (hflush run ht)
    · obtain rfl | ht := List.mem_cons.1 ht
      · simp [isReference] at href
      · exact .inr (by simpa using ih ht)
  | case4 run c cs _ _ _ ih =>
    obtain ht | ht := List.mem_append.1 ht
    · exact .inl (hflush run ht)
    · exact .inr (List.mem_cons_of_mem c (by simpa using ih ht))
  | case5 run c cs _ _ _ ih =>
    obtain hrun | hcs := ih ht
    · obtain rfl | hrun := List.mem_cons.1 hrun
      · exact .inr List.mem_cons_self
      · exact .inl hrun
    · exact .inr (List.mem_cons_of_mem c hcs)

theorem exists_words_of_plain (h : '>' ∉ cs) (h' : '!' ∉ cs) :
    ∃ ws : List String, scan [] cs = ws.map word := by
  have href : ∀ t ∈ scan [] cs, t.isReference = false := by
    intro t ht
    rw [← Bool.not_eq_true]
    exact fun href => h' (by simpa using mark_of_isReference ht href)
  obtain ⟨ws, hws⟩ := exists_words_of_no_mark h
  refine ⟨ws, ?_⟩
  rw [← hws, List.filter_eq_self.2 fun t ht => by simp [href t ht]]

end PracticeShell.Token
