import PracticeShell.Proofs.Completion.Candidates
import PracticeShell.Proofs.Session.Naming

/-! What an answered line means when it is read. Main statement: its last word is read as the entry
that was found, unless that is in the working directory and its bare name recalls an earlier line or
begins with a tilde. -/
namespace PracticeShell

/-! ### Reading the last word -/

namespace Token
variable {x y cs run : List Char}

/-- Only what follows the last separator, up to separators at the end, counts for the last token. -/
theorem getLast?_scan (hx : ∀ c ∈ x.getLast?, Text.isSeparator c = true) (hne : run ≠ [])
    (hrun : ∀ c ∈ run, endsWord c = false) (hy : ∀ c ∈ y, Text.isSeparator c = true) :
    (scan [] (x ++ (run ++ y))).getLast? = some (ofRun run) := by
  have hbehind : scan [] (run ++ y) = [ofRun run] := by
    have hends : scan [] ([] ++ (run ++ y)) = scan [] run :=
      scan_between_separators (by simp) hy
    rw [List.nil_append] at hends
    rw [hends, scan_run hne hrun]
  rw [scan_append fun c hc _ _ => .inl (hx c hc), hbehind]
  simp

end Token

/-! ### Resolving it -/

namespace Path
variable {cursor : Path} {name : String} {x directory rest : List Char}

theorem resolve_slash_end (cursor : Path) (x : List Char) :
    resolve cursor (String.ofList (x ++ ['/'])) = resolve cursor (String.ofList x) := by
  rw [resolve_append]
  rfl

theorem resolve_entry (hdirectory : directory.getLast? = some '/') (hname : isValidName name = true) :
    resolve cursor (String.ofList (directory ++ name.toList)) =
      (resolve cursor (String.ofList directory)).child name := by
  obtain ⟨x, rfl⟩ := List.getLast?_eq_some_iff.1 hdirectory
  rw [List.append_assoc, List.singleton_append, resolve_append, resolve_slash_end,
    follow_name hname]

theorem resolve_name (hname : isValidName name = true) (htilde : name.toList.head? ≠ some '~') :
    resolve cursor name = cursor.child name := by
  have hrelative : IsRelative name := by
    refine ⟨?_, ?_, htilde⟩
    · simp_all [isValidName]
    · exact fun hslash => slash_not_mem hname (List.mem_of_head? hslash)
  rw [resolve_relative hrelative, follow_name hname]

theorem resolve_name_of_tilde (hname : isValidName name = true) (htilde : name.toList = '~' :: rest) :
    resolve cursor name = enter home (String.ofList rest) := by
  have hrest : '/' ∉ rest := by
    intro hslash
    exact slash_not_mem hname (htilde ▸ List.mem_cons_of_mem _ hslash)
  rw [resolve_tilde htilde, follow_of_no_slash hrest]

end Path

namespace Completion
variable {s : Session} {typed command line name : String} {head directory start : List Char}

/-- The last token of the line is a word, and it resolves to a directory if the line ends in a slash
and else to a file. -/
def Means (s : Session) (line : String) : Prop :=
  ∃ w, (Token.ofLine line).getLast? = some (.word w) ∧
    s.isDirectory? (s.resolve w) = some (Text.endsWith line '/')

/-- The name of an entry of the working directory, typed alone, is read as something else. -/
inductive Misread (s : Session) (name : String) : Prop
  | line (hfile : s.isDirectory? (s.cursor.child name) = some false)
    (h : Token.RefersToLine name.toList)
  | home {rest : List Char} (h : name.toList = '~' :: rest)
    (hkind : s.isDirectory? (Path.enter Path.home (String.ofList rest)) ≠
      s.isDirectory? (s.cursor.child name))

theorem misread_of_tilde_iff {rest : List Char} (htilde : name.toList = '~' :: rest) :
    Misread s name ↔ s.isDirectory? (Path.enter Path.home (String.ofList rest)) ≠
      s.isDirectory? (s.cursor.child name) := by
  constructor
  · intro h
    cases h with
    | line _ hrefers =>
      have hhead := hrefers.head
      simp [htilde] at hhead
    | home hother hkind =>
      obtain rfl := (List.cons.inj (htilde.symm.trans hother)).2
      exact hkind
  · exact .home htilde

theorem misread_of_plain_iff (htilde : name.toList.head? ≠ some '~') :
    Misread s name ↔ s.isDirectory? (s.cursor.child name) = some false ∧
      Token.RefersToLine name.toList := by
  constructor
  · intro h
    cases h with
    | line hfile hrefers => exact ⟨hfile, hrefers⟩
    | home hother => simp [hother] at htilde
  · exact fun h => .line h.1 h.2

theorem getLast?_ofLine {isDirectory : Bool} {operand : List Char}
    (hhead : ∀ c ∈ head.getLast?, Text.isSeparator c = true) (hne : operand ≠ [])
    (hoperand : ∀ c ∈ operand, Token.endsWord c = false)
    (hline : line.toList = head ++ (operand ++ if isDirectory then ['/'] else [' '])) :
    (Token.ofLine line).getLast? = some
      (if isDirectory then .word (String.ofList (operand ++ ['/'])) else Token.ofRun operand) := by
  rw [Token.ofLine, hline]
  cases isDirectory with
  | true =>
    have hslash : ∀ c ∈ operand ++ ['/'], Token.endsWord c = false :=
      List.forall_mem_append.2 ⟨hoperand, by simp [Token.endsWord, Text.isSeparator]⟩
    have hword : Token.ofRun (operand ++ ['/']) = .word (String.ofList (operand ++ ['/'])) :=
      Token.ofRun_of_not_refersToLine fun h => h.slash_not_mem (by simp)
    have hscan := Token.getLast?_scan (y := []) hhead (by simp) hslash (by simp)
    rw [List.append_nil, hword] at hscan
    exact hscan
  | false => exact Token.getLast?_scan hhead hne hoperand (by simp [Text.isSeparator])

theorem means_iff_read {isDirectory : Bool} {operand : List Char}
    (hhead : ∀ c ∈ head.getLast?, Text.isSeparator c = true) (hne : operand ≠ [])
    (hoperand : ∀ c ∈ operand, Token.endsWord c = false)
    (hline : line.toList = head ++ (operand ++ if isDirectory then ['/'] else [' '])) :
    Means s line ↔ (isDirectory = true ∨ ¬ Token.RefersToLine operand) ∧
      s.isDirectory? (s.resolve (String.ofList operand)) = some isDirectory := by
  have hend : Text.endsWith line '/' = isDirectory := by
    cases isDirectory <;> simp [Text.endsWith, hline]
  rw [Means, hend, getLast?_ofLine hhead hne hoperand hline]
  cases isDirectory with
  | true =>
    have hpath : s.resolve (String.ofList (operand ++ ['/'])) = s.resolve (String.ofList operand) :=
      Path.resolve_slash_end s.cursor operand
    rw [if_pos rfl, ← hpath]
    constructor
    · intro h
      obtain ⟨w, hw, hkind⟩ := h
      obtain rfl : String.ofList (operand ++ ['/']) = w := Token.word.inj (Option.some.inj hw)
      exact ⟨.inl rfl, hkind⟩
    · exact fun h => ⟨_, rfl, h.2⟩
  | false =>
    by_cases href : Token.RefersToLine operand
    · have hreference := Token.ofRun_of_refersToLine href
      constructor
      · intro h
        obtain ⟨w, hw, -⟩ := h
        have hword : Token.ofRun operand = .word w := Option.some.inj hw
        simp [hword, Token.isReference] at hreference
      · intro h
        simp [href] at h
    · simp [Token.ofRun_of_not_refersToLine href, href]

section
variable {isDirectory : Bool} (hhead : ∀ c ∈ head.getLast?, Text.isSeparator c = true)
  (hname : Path.isValidName name = true)
  (hletters : ∀ c ∈ directory ++ name.toList, Token.endsWord c = false)
  (hline : line.toList = head ++ (directory ++ name.toList ++ if isDirectory then ['/'] else [' ']))
include hhead hname hletters hline

theorem means_behind_directory (hdirectory : directory.getLast? = some '/')
    (hkind : s.isDirectory? ((s.resolve (String.ofList directory)).child name) = some isDirectory) :
    Means s line := by
  have hslash : '/' ∈ directory ++ name.toList :=
    List.mem_append_left _ (List.mem_of_getLast? hdirectory)
  have hpath : s.resolve (String.ofList (directory ++ name.toList)) =
      (s.resolve (String.ofList directory)).child name := Path.resolve_entry hdirectory hname
  rw [means_iff_read hhead (List.ne_nil_of_mem hslash) hletters hline, hpath]
  exact ⟨.inr fun h => h.slash_not_mem hslash, hkind⟩

theorem means_alone_iff (hdirectory : directory = [])
    (hkind : s.isDirectory? (s.cursor.child name) = some isDirectory) :
    Means s line ↔ ¬ Misread s name := by
  subst hdirectory
  have hne : name.toList ≠ [] := by
    have hnonempty : name ≠ "" := by simp_all [Path.isValidName]
    exact fun hnil => hnonempty (String.toList_inj.1 hnil)
  rw [means_iff_read hhead hne hletters hline, String.ofList_toList]
  by_cases htilde : name.toList.head? = some '~'
  · obtain ⟨rest, hrest⟩ := List.head?_eq_some_iff.1 htilde
    have href : ¬ Token.RefersToLine name.toList := by
      intro h
      simp [h.head] at htilde
    have hpath : s.resolve name = Path.enter Path.home (String.ofList rest) :=
      Path.resolve_name_of_tilde hname hrest
    rw [hpath, misread_of_tilde_iff hrest, hkind, not_not]
    exact ⟨And.right, fun h => ⟨.inr href, h⟩⟩
  · have hpath : s.resolve name = s.cursor.child name := Path.resolve_name hname htilde
    rw [hpath, misread_of_plain_iff htilde, hkind]
    cases isDirectory <;> simp

end

/-! ### The input of an answer -/

theorem exists_split (p : Char → Bool) (cs : List Char) : ∃ x y : List Char, cs = x ++ y ∧
    (∀ c ∈ x.getLast?, p c = true) ∧ ∀ c ∈ y, p c = false := by
  refine ⟨cs.rdropWhile fun c => !p c, cs.rtakeWhile fun c => !p c,
    List.rdropWhile_append_rtakeWhile.symm, ?_, ?_⟩
  · intro c hc
    obtain ⟨hne, rfl⟩ := List.mem_getLast?_eq_getLast hc
    simpa using List.rdropWhile_last_not (fun c => !p c) cs hne
  · intro c hc
    simpa using List.mem_rtakeWhile_imp hc

theorem mem_pathCommands {directories : Bool} (h : directoriesOnly? command = some directories) :
    command ∈ pathCommands := by
  rw [directoriesOnly?] at h
  split at h
  · next hdirectories =>
    exact List.mem_append_left _ (List.contains_iff_mem.1 hdirectories)
  · split at h
    · next hany => exact List.mem_append_right _ (List.contains_iff_mem.1 hany)
    · simp at h

theorem exists_gap (hlast : ∃ c ∈ head.getLast?, Text.isSeparator c = true) :
    ∃ name gap : List Char, head = name ++ gap ∧ (∀ c ∈ name, Text.isSeparator c = false) ∧
      (∃ c ∈ gap.head?, Text.isSeparator c = true) ∧
        ∃ c ∈ gap.getLast?, Text.isSeparator c = true := by
  obtain ⟨c, hc, hsep⟩ := hlast
  have hname : ∀ d ∈ head.takeWhile (fun c => !Text.isSeparator c), Text.isSeparator d = false := by
    intro d hd
    simpa using List.mem_takeWhile_imp hd
  refine ⟨head.takeWhile fun c => !Text.isSeparator c, head.dropWhile fun c => !Text.isSeparator c,
    List.takeWhile_append_dropWhile.symm, hname, ?_⟩
  have hwhole : head = head.takeWhile (fun c => !Text.isSeparator c) ++
      head.dropWhile fun c => !Text.isSeparator c := List.takeWhile_append_dropWhile.symm
  have hfirst := List.head?_dropWhile_not (fun c => !Text.isSeparator c) head
  cases hgap : head.dropWhile fun c => !Text.isSeparator c with
  | nil =>
    rw [hgap, List.append_nil] at hwhole
    rw [hwhole] at hc
    simp [hname c (List.mem_of_getLast? hc)] at hsep
  | cons d gap =>
    rw [hgap] at hfirst hwhole
    refine ⟨⟨d, rfl, by simpa using hfirst⟩, c, ?_, hsep⟩
    rw [hwhole, List.getLast?_append_of_ne_nil _ (List.cons_ne_nil d gap)] at hc
    exact hc

theorem exists_asks (hword : ∃ c ∈ typed.toList.dropWhile Text.isBlank, Text.isSeparator c = true)
    (hanswer : ofLine s typed ≠ .none) :
    ∃ command head directory start, Asks typed command head directory start := by
  obtain ⟨head, word, hline, hlast, hletters⟩ :=
    exists_split Text.isSeparator (typed.toList.dropWhile Text.isBlank)
  have hend : ∃ c ∈ head.getLast?, Text.isSeparator c = true := by
    obtain ⟨c, hc, hsep⟩ := hword
    rw [hline] at hc
    cases hlist : head.getLast? with
    | none =>
      obtain rfl := List.getLast?_eq_none_iff.1 hlist
      simp [hletters c hc] at hsep
    | some d => exact ⟨d, rfl, hlast d hlist⟩
  obtain ⟨name, gap, hhead, hname, hfirst, hgap⟩ := exists_gap hend
  have htake : (head ++ word).takeWhile (fun c => !Text.isSeparator c) =
      (String.ofList name).toList := by
    obtain ⟨c, hc, hsep⟩ := hfirst
    obtain ⟨gap, rfl⟩ := List.head?_eq_some_iff.1 hc
    rw [String.toList_ofList, hhead, List.append_assoc,
      List.takeWhile_append_of_pos (by simpa using hname)]
    simp [hsep]
  rw [ofLine_of_split s hline hend hletters htake] at hanswer
  obtain ⟨directory, start, rfl, hdirectory, hstart⟩ := exists_split (· == '/') word
  split at hanswer
  · exact absurd rfl hanswer
  next hplain =>
  simp only [Bool.or_eq_true, beq_iff_eq, List.contains_iff_mem, not_or] at hplain
  cases hkind : directoriesOnly? (String.ofList name) with
  | none => simp [hkind] at hanswer
  | some directories =>
    refine ⟨String.ofList name, head, directory, start, ?_⟩
    exact
      { takesPaths := mem_pathCommands hkind
        line := ⟨typed.toList.takeWhile Text.isBlank, fun c hc => List.mem_takeWhile_imp hc, by
          rw [← hline, List.takeWhile_append_dropWhile]⟩
        named := ⟨gap, by rw [hhead, String.toList_ofList], hfirst, hgap⟩
        letters := by
          intro c hc
          have hmark : c ≠ '>' := fun he => hplain.2 (he ▸ hc)
          simp [Token.endsWord, hletters c hc, hmark]
        noFlag := hplain.1
        upToSlash := fun c hc => by simpa using hdirectory c hc
        noSlash := fun hslash => by simpa using hstart '/' hslash }

theorem exists_candidate_of_single (h : Asks typed command head directory start)
    (hsingle : ofLine s typed = .single line) :
    let place := if directory = [] then s.cursor else s.resolve (String.ofList directory)
    ∃ name, IsCandidate s command place start name ∧
      line = String.ofList (head ++ directory) ++ marked s place " " name := by
  intro place
  obtain ⟨names, -, hnames, hoffers⟩ := h.exists_offers s
  rw [hsingle] at hoffers
  cases hoffers with
  | single name => exact ⟨name, (hnames name).1 List.mem_cons_self, rfl⟩

theorem name_of_candidate {place : Path} (h : s.ReachedFromSeeded)
    (hcandidate : IsCandidate s command place start name) :
    Path.isValidName name = true ∧ Token.IsLettered name := by
  have hmem : name ∈ place.child name := List.mem_append_right place List.mem_cons_self
  have hvalid : Path.AllValid (place.child name) :=
    (h.reached.sound.fits _ hcandidate.present).1
  exact ⟨hvalid name hmem, h.namedBy.tree _ hcandidate.present name hmem⟩

/-- In a session that lines have led to from the seeded one, a single answer for an operand means
the entry that it shows, unless that is in the working directory and its bare name is misread. -/
theorem single_means_iff (h : s.ReachedFromSeeded)
    (hword : ∃ c ∈ typed.toList.dropWhile Text.isBlank, Text.isSeparator c = true)
    (hsingle : ofLine s typed = .single line) :
    ∃ command head directory start name,
      let place := if directory = [] then s.cursor else s.resolve (String.ofList directory)
      Asks typed command head directory start ∧ IsCandidate s command place start name ∧
        line = String.ofList (head ++ directory) ++ marked s place " " name ∧
        (Means s line ↔ ¬ (directory = [] ∧ Misread s name)) := by
  have hanswer : ofLine s typed ≠ .none := by
    rw [hsingle]
    simp
  obtain ⟨command, head, directory, start, hasks⟩ := exists_asks hword hanswer
  obtain ⟨name, hcandidate, hline⟩ := exists_candidate_of_single hasks hsingle
  refine ⟨command, head, directory, start, name, hasks, hcandidate, hline, ?_⟩
  generalize hplace : (if directory = [] then s.cursor else s.resolve (String.ofList directory)) =
    place at hcandidate hline
  obtain ⟨hname, hlettered⟩ := name_of_candidate h hcandidate
  have hletters : ∀ c ∈ directory ++ name.toList, Token.endsWord c = false :=
    List.forall_mem_append.2 ⟨fun c hc => hasks.letters c (List.mem_append_left _ hc), hlettered⟩
  have hhead : ∀ c ∈ head.getLast?, Text.isSeparator c = true := by
    obtain ⟨c, hc, hsep⟩ := hasks.getLast?_head
    exact fun d hd => Option.mem_unique hc hd ▸ hsep
  have hkind := Session.isDirectory?_of_isSome hcandidate.present
  have hline : line.toList = head ++ (directory ++ name.toList ++
      if s.isDirectory (place.child name) then ['/'] else [' ']) := by
    rw [hline, marked]
    split <;> simp
  cases hlast : directory.getLast? with
  | none =>
    have hempty : directory = [] := List.getLast?_eq_none_iff.1 hlast
    rw [if_pos hempty] at hplace
    subst hplace
    simp [means_alone_iff hhead hname hletters hline hempty hkind, hempty]
  | some c =>
    obtain rfl : c = '/' := hasks.upToSlash c hlast
    have hnonempty : directory ≠ [] := by
      intro hempty
      simp [hempty] at hlast
    rw [if_neg hnonempty] at hplace
    subst hplace
    simp [means_behind_directory hhead hname hletters hline hlast hkind, hnonempty]

theorem single_means_behind_directory :
    let s := ((Session.runLine Instant.epoch "touch ./~").run (Session.seeded Instant.epoch)).2
    let typed := "cat ../user/~"
    let line := "cat ../user/~ "
    s.ReachedFromSeeded ∧
      (∃ c ∈ typed.toList.dropWhile Text.isBlank, Text.isSeparator c = true) ∧
      ofLine s typed = .single line ∧
      ∃ command head directory start name,
        let place := if directory = [] then s.cursor else s.resolve (String.ofList directory)
        Asks typed command head directory start ∧ IsCandidate s command place start name ∧
          line = String.ofList (head ++ directory) ++ marked s place " " name ∧
          (Means s line ↔ ¬ (directory = [] ∧ Misread s name)) := by
  intro s typed line
  have hreached : s.ReachedFromSeeded := .line _ _ (.seeded _)
  have hword : ∃ c ∈ typed.toList.dropWhile Text.isBlank, Text.isSeparator c = true :=
    ⟨' ', by decide, rfl⟩
  have hsingle : ofLine s typed = .single line := by decide +kernel
  exact ⟨hreached, hword, hsingle, single_means_iff hreached hword hsingle⟩

/-- A file named `!!` is completed to a reference, and one named `~` to the home directory. -/
theorem single_misread :
    let recalling := ((Session.runLine Instant.epoch "touch ./!!").run
      (Session.seeded Instant.epoch)).2
    let tilde := ((Session.runLine Instant.epoch "echo hi > ./~").run
      (Session.seeded Instant.epoch)).2
    (recalling.ReachedFromSeeded ∧ ofLine recalling "cat !" = .single "cat !! " ∧
      ¬ Means recalling "cat !! ") ∧
    (tilde.ReachedFromSeeded ∧ ofLine tilde "cat ~" = .single "cat ~ " ∧ ¬ Means tilde "cat ~ ") := by
  intro recalling tilde
  refine ⟨⟨.line _ _ (.seeded _), by decide +kernel, fun h => ?_⟩,
    ⟨.line _ _ (.seeded _), by decide +kernel, fun h => ?_⟩⟩
  · obtain ⟨w, hw, -⟩ := h
    have hlast : (Token.ofLine "cat !! ").getLast? = some .lastLine := by decide
    rw [hlast] at hw
    simp at hw
  · obtain ⟨w, hw, hkind⟩ := h
    have hlast : (Token.ofLine "cat ~ ").getLast? = some (.word "~") := by decide
    obtain rfl : "~" = w := Token.word.inj (Option.some.inj (hlast.symm.trans hw))
    have hhome : tilde.isDirectory? (tilde.resolve "~") = some true := by decide +kernel
    exact absurd (hhome.symm.trans hkind) (by decide)

end Completion

end PracticeShell
