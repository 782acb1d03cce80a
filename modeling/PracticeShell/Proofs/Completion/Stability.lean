import Mathlib.Data.List.Sort
import PracticeShell.Proofs.Completion.Meaning

/-! An answer with several candidates is its own answer: the candidates for their common start are
the same ones. -/
namespace PracticeShell.Completion
variable {s : Session} {place : Path} {typed line command name before : String}
  {head directory start common : List Char} {names marks : List String} {answer : Completion}

def IsTypeable (name : String) : Prop := ∀ c ∈ name.toList, c ≠ '/' ∧ Token.endsWord c = false

def lastWord (line : String) : List Char := (splitAfterLast Text.isSeparator line.toList).2

theorem isTypeable_of_reached (h : s.ReachedFromSeeded) : s.root.NamedBy IsTypeable := by
  intro p hp name hname c hc
  have hvalid : Path.isValidName name = true := (h.reached.sound.fits p hp).1 name hname
  refine ⟨fun hslash => ?_, h.namedBy.tree p hp name hname c hc⟩
  exact Path.slash_not_mem hvalid (hslash ▸ hc)

/-! ### The same candidates -/

theorem LongestStart.begins (h : LongestStart common names) (hne : names ≠ [])
    (hstart : ∀ n ∈ names, start <+: n.toList) : start <+: common := by
  obtain ⟨n, hn⟩ := List.exists_mem_of_ne_nil names hne
  exact List.prefix_of_prefix_length_le (hstart n hn) (h.starts n hn) (h.longest start hstart)

theorem LongestStart.unique {x y : List Char} (hne : names ≠ []) (hx : LongestStart x names)
    (hy : LongestStart y names) : x = y := by
  have hxy : x <+: y := hy.begins hne hx.starts
  have hyx : y <+: x := hx.begins hne hy.starts
  exact hxy.eq_of_length_le hyx.length_le

/-- Completing the common start of the candidates offers the same candidates again. If it begins
with a dot, so did the start that they were offered for. -/
theorem isCandidate_common_iff (hstart : start <+: common)
    (hsome : ∃ name, IsCandidate s command place start name)
    (hcommon : ∀ name, IsCandidate s command place start name → common <+: name.toList) :
    IsCandidate s command place common name ↔ IsCandidate s command place start name := by
  constructor
  · intro h
    obtain ⟨found, hfound⟩ := hsome
    exact
      { present := h.present
        directory := h.directory
        dotted := fun hdot => hfound.dotted ((h.dotted hdot).trans (hcommon found hfound))
        starts := hstart.trans h.starts }
  · intro h
    exact
      { present := h.present
        directory := h.directory
        dotted := fun hdot => (h.dotted hdot).trans hstart
        starts := hcommon name h }

theorem Offers.eq_multiple (h : Offers s place before names answer) (hmany : 2 ≤ names.length)
    (hcommon : LongestStart common names) :
    answer = .multiple (before ++ String.ofList common) (names.map (marked s place "")) := by
  cases h with
  | none => simp at hmany
  | single name => simp at hmany
  | multiple _ hfound =>
    have hne : names ≠ [] := List.ne_nil_of_length_pos (by omega)
    rw [hfound.unique hne hcommon]

/-! ### An operand -/

section
variable (h : Asks typed command head directory start)
  (hcommon : ∀ c ∈ common, c ≠ '/' ∧ Token.endsWord c = false)
include h hcommon

theorem Asks.letters_common : ∀ c ∈ directory ++ common, Token.endsWord c = false :=
  List.forall_mem_append.2
    ⟨fun c hc => h.letters c (List.mem_append_left _ hc), fun c hc => (hcommon c hc).2⟩

theorem Asks.lastWord_eq :
    lastWord (String.ofList (head ++ (directory ++ common))) = directory ++ common := by
  obtain ⟨c, hc, hsep⟩ := h.getLast?_head
  rw [lastWord, String.toList_ofList, splitAfterLast_append]
  · exact fun d hd => Option.mem_unique hc hd ▸ hsep
  · exact fun d hd => (Bool.or_eq_false_iff.1 (h.letters_common hcommon d hd)).1

theorem Asks.extend (hflag : (directory ++ common).head? ≠ some '-') :
    Asks (String.ofList (head ++ (directory ++ common))) command head directory common where
  takesPaths := h.takesPaths
  line := ⟨[], by simp, by simp⟩
  named := h.named
  letters := h.letters_common hcommon
  noFlag := hflag
  upToSlash := h.upToSlash
  noSlash := fun hslash => (hcommon '/' hslash).1 rfl

end

theorem IsCandidate.isTypeable (h : s.root.NamedBy IsTypeable)
    (hname : IsCandidate s command place start name) : IsTypeable name :=
  h _ hname.present name (List.mem_append_right place List.mem_cons_self)

theorem Asks.ofLine_again (h : Asks typed command head directory start)
    (htypeable : s.root.NamedBy IsTypeable) (hmultiple : ofLine s typed = .multiple line marks)
    (hword : (lastWord line).head? ≠ some '-') : ofLine s line = .multiple line marks := by
  obtain ⟨names, hascending, hnames, hoffers⟩ := h.exists_offers s
  rw [hmultiple] at hoffers
  cases hoffers with
  | @multiple _ common hmany hcommon =>
    have hne : names ≠ [] := List.ne_nil_of_length_pos (by omega)
    obtain ⟨n, hn⟩ := List.exists_mem_of_ne_nil names hne
    have hstart : start <+: common := hcommon.begins hne fun n hn => ((hnames n).1 hn).starts
    have hletters : ∀ c ∈ common, c ≠ '/' ∧ Token.endsWord c = false := fun c hc =>
      ((hnames n).1 hn).isTypeable htypeable c ((hcommon.starts n hn).subset hc)
    have hline : String.ofList (head ++ directory) ++ String.ofList common =
        String.ofList (head ++ (directory ++ common)) := by
      rw [← String.ofList_append, List.append_assoc]
    rw [hline] at hword ⊢
    rw [h.lastWord_eq hletters] at hword
    obtain ⟨again, hagain, hsame, hoffered⟩ := (h.extend hletters hword).exists_offers s
    -- Both lists are in order, so it is enough that the same names are in them.
    have heq : again = names := by
      refine hagain.eq_of_mem_iff hascending fun name => ?_
      rw [hsame, hnames]
      exact isCandidate_common_iff hstart ⟨n, (hnames n).1 hn⟩
        fun name hname => hcommon.starts name ((hnames name).2 hname)
    rw [heq] at hoffered
    rw [hoffered.eq_multiple hmany hcommon, hline]

/-! ### A name of a command -/

theorem ofLine_name {word : List Char} (s : Session) (hline : typed.toList.dropWhile Text.isBlank = word)
    (hne : word ≠ []) (hword : ∀ c ∈ word, Text.isSeparator c = false) :
    ofLine s typed = ofCommandNames (String.ofList word) := by
  have hempty : word.isEmpty = false := by simpa using hne
  have hany : word.any Text.isSeparator = false := by simpa using hword
  simp only [ofLine, hline, hempty, hany]
  rfl

theorem ofLine_of_not_blank (s : Session) (hne : typed.toList ≠ [])
    (hplain : ∀ c ∈ typed.toList, Text.isBlank c = false) : ofLine s typed = ofCommandNames typed := by
  have hline : typed.toList.dropWhile Text.isBlank = typed.toList := by
    rw [List.dropWhile_eq_self_iff]
    intro hlength
    simp [hplain _ (List.getElem_mem hlength)]
  rw [ofLine_name s hline hne, String.ofList_toList]
  intro c hc
  cases hsep : Text.isSeparator c with
  | false => rfl
  | true => exact absurd (Text.isBlank_of_isSeparator hsep) (by simp [hplain c hc])

theorem ofCommandNames_multiple (h : ofCommandNames typed = .multiple line names) :
    (∀ name, name ∈ names ↔ name ∈ Command.names ∧ typed.toList <+: name.toList) ∧
      names ≠ [] ∧ LongestStart line.toList names := by
  have hfilter (name : String) : name ∈ Command.names.filter (Text.startsWith · typed) ↔
      name ∈ Command.names ∧ typed.toList <+: name.toList := by
    rw [List.mem_filter, Text.startsWith, List.isPrefixOf_iff_prefix]
  rw [ofCommandNames] at h
  split at h
  · simp at h
  · simp at h
  · next hnone _ =>
    obtain ⟨rfl, rfl⟩ := Completion.multiple.inj h
    rw [String.toList_ofList]
    exact ⟨hfilter, hnone, longestStart_commonStartOfAll hnone⟩

theorem ofCommandNames_stable (h : ofCommandNames typed = .multiple line names) :
    ofCommandNames line = .multiple line names := by
  obtain ⟨hnames, hne, hcommon⟩ := ofCommandNames_multiple h
  have hstart : typed.toList <+: line.toList :=
    hcommon.begins hne fun name hname => ((hnames name).1 hname).2
  have hsame : ∀ name ∈ Command.names, Text.startsWith name line = Text.startsWith name typed := by
    intro name hname
    rw [Bool.eq_iff_iff, Text.startsWith, Text.startsWith, List.isPrefixOf_iff_prefix,
      List.isPrefixOf_iff_prefix]
    exact ⟨hstart.trans, fun htyped => hcommon.starts name ((hnames name).2 ⟨hname, htyped⟩)⟩
  rwa [ofCommandNames, List.filter_congr hsame, ← ofCommandNames]

theorem not_blank_of_mem_names (h : name ∈ Command.names) :
    ∀ c ∈ name.toList, Text.isBlank c = false := by
  have hall : ∀ name ∈ Command.names, name.toList.any Text.isBlank = false := by decide +kernel
  simpa using hall name h

theorem ofLine_again_of_name {word : List Char} (hline : typed.toList.dropWhile Text.isBlank = word)
    (hsep : ∀ c ∈ word, Text.isSeparator c = false)
    (hmultiple : ofLine s typed = .multiple line names) : ofLine s line = .multiple line names := by
  have hne : word ≠ [] := by
    intro hempty
    simp [ofLine, hline, hempty] at hmultiple
  rw [ofLine_name s hline hne hsep] at hmultiple
  obtain ⟨hnames, hsome, hcommon⟩ := ofCommandNames_multiple hmultiple
  have hstart : word <+: line.toList := by
    rw [← String.toList_ofList (l := word)]
    exact hcommon.begins hsome fun name hname => ((hnames name).1 hname).2
  obtain ⟨n, hn⟩ := List.exists_mem_of_ne_nil names hsome
  have hplain : ∀ c ∈ line.toList, Text.isBlank c = false := fun c hc =>
    not_blank_of_mem_names ((hnames n).1 hn).1 c ((hcommon.starts n hn).subset hc)
  rw [ofLine_of_not_blank s (hstart.ne_nil hne) hplain]
  exact ofCommandNames_stable hmultiple

/-! ### The line -/

/-- If all names can be typed, completing the answer for several candidates answers the same, unless
its last word begins with a dash. -/
theorem ofLine_stable (htypeable : s.root.NamedBy IsTypeable)
    (hmultiple : ofLine s typed = .multiple line names)
    (hword : (lastWord line).head? ≠ some '-') : ofLine s line = .multiple line names := by
  by_cases hsep : ∃ c ∈ typed.toList.dropWhile Text.isBlank, Text.isSeparator c = true
  · have hanswer : ofLine s typed ≠ .none := by
      rw [hmultiple]
      simp
    obtain ⟨command, head, directory, start, hasks⟩ := exists_asks hsep hanswer
    exact hasks.ofLine_again htypeable hmultiple hword
  · exact ofLine_again_of_name rfl (by simpa using hsep) hmultiple

theorem ofLine_stable_hidden :
    let s := ((Session.runLine Instant.epoch "touch .bash_history").run
      (Session.seeded Instant.epoch)).2
    let line := "cat  .bash"
    let names := [".bash_history", ".bashrc"]
    s.root.NamedBy IsTypeable ∧ ofLine s "\tcat  ." = .multiple line names ∧
      (lastWord line).head? ≠ some '-' ∧ ofLine s line = .multiple line names := by
  intro s line names
  have htypeable : s.root.NamedBy IsTypeable := isTypeable_of_reached (.line _ _ (.seeded _))
  have hmultiple : ofLine s "\tcat  ." = .multiple line names := by decide +kernel
  have hword : (lastWord line).head? ≠ some '-' := by decide
  exact ⟨htypeable, hmultiple, hword, ofLine_stable htypeable hmultiple hword⟩

/-- A common start that begins with a dash reads as a flag, for which nothing is offered. -/
example :
    let run (line : String) (s : Session) := ((Session.runLine Instant.epoch line).run s).2
    let s := run "touch ./-a ./-b" (run "cd projects" (Session.seeded Instant.epoch))
    ofLine s "cat " = .multiple "cat -" ["-a", "-b"] ∧ ofLine s "cat -" = .none := by
  decide +kernel

end PracticeShell.Completion
