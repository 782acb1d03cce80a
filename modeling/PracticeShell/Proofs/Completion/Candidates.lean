import PracticeShell.Command.Run
import PracticeShell.Completion
import PracticeShell.Proofs.Line.Token
import PracticeShell.Proofs.Text.Ends
import PracticeShell.Proofs.Tree.Shape

/-! What completion offers for an operand. Main statement: the candidates are the matching
entries of the directory typed so far, in order, and the answer extends what is typed as far as
they agree. -/
namespace PracticeShell

/-! ### The entries of a directory -/

namespace Listing
variable {s : Session} {p : Path}

def items (s : Session) (p : Path) : List Item := (ofPath? s p).getD []

theorem items_of_directory {t : Tree} {es : Entries Node} {stamps : Stamps} (ht : s.get? p = some t)
    (hn : t.node = .directory es stamps) : items s p = ofEntries es := by
  simp [items, ofPath?, ht, hn, Node.entries?]

theorem items_of_file {t : Tree} {text : String} {stamps : Stamps} (ht : s.get? p = some t)
    (hn : t.node = .file text stamps) : items s p = [] := by
  simp [items, ofPath?, ht, hn, Node.entries?]

theorem items_of_none (h : s.get? p = none) : items s p = [] := by
  simp [items, ofPath?, h]

theorem mem_items_iff {i : Item} :
    i ∈ items s p ↔ ∃ c, s.get? (p.child i.name) = some c ∧ Item.ofNode i.name c.node = i := by
  rw [Session.get?, Tree.get?_child]
  cases ht : s.root.get? p with
  | none => simp [items_of_none ht]
  | some t =>
    rw [Option.bind_some]
    cases hn : t.node with
    | file text stamps =>
      have hnone : t.child? i.name = none := by simp [Tree.child?_eq_none_iff, hn, Node.child?]
      simp [items_of_file ht hn, hnone]
    | directory es stamps =>
      rw [items_of_directory ht hn, ofEntries, List.mem_map]
      constructor
      · intro h
        obtain ⟨e, he, rfl⟩ := h
        obtain ⟨c, hc, hce⟩ := Tree.exists_child_of_mem hn he
        exact ⟨c, hc, by rw [hce]; rfl⟩
      · intro h
        obtain ⟨c, hc, hi⟩ := h
        exact ⟨(i.name, c.node), (Tree.child?_eq_some_iff_mem hn).1 hc, hi⟩

theorem items_pairwise (s : Session) (p : Path) :
    (items s p).Pairwise fun i j => i.name < j.name := by
  cases ht : s.get? p with
  | none => simp [items_of_none ht]
  | some t =>
    cases hn : t.node with
    | file text stamps => simp [items_of_file ht hn]
    | directory es stamps =>
      have hsorted : Entries.Sorted es := by
        have hordered := t.ordered
        rw [hn] at hordered
        exact hordered.1
      rw [items_of_directory ht hn, ofEntries]
      exact List.pairwise_map.2 hsorted

end Listing

namespace Completion
variable {s : Session} {place : Path} {typed command : String}
  {head directory start x y z : List Char} {names : List String}

/-! ### What names have in common -/

/-- The longest text that all the names begin with. -/
structure LongestStart (common : List Char) (names : List String) : Prop where
  starts : ∀ n ∈ names, common <+: n.toList
  longest : ∀ z : List Char, (∀ n ∈ names, z <+: n.toList) → z.length ≤ common.length

theorem prefix_commonStart_iff : z <+: commonStart x y ↔ z <+: x ∧ z <+: y := by
  induction x generalizing y z with
  | nil =>
    rw [commonStart]
    · exact ⟨fun h => ⟨h, h.trans List.nil_prefix⟩, And.left⟩
    · simp
  | cons c x ih =>
    cases y with
    | nil =>
      rw [commonStart]
      · exact ⟨fun h => ⟨h.trans List.nil_prefix, h⟩, And.right⟩
      · simp
    | cons d y =>
      cases z with
      | nil => simp
      | cons e z =>
        rw [commonStart]
        by_cases hcd : c = d
        · subst hcd
          rw [if_pos rfl, List.cons_prefix_cons, List.cons_prefix_cons, List.cons_prefix_cons, ih]
          exact and_and_left
        · rw [if_neg hcd, List.cons_prefix_cons, List.cons_prefix_cons]
          constructor
          · intro h
            simp at h
          · intro h
            exact absurd (h.1.1.symm.trans h.2.1) hcd

theorem prefix_foldl_commonStart_iff : z <+: names.foldl (fun start t => commonStart start t.toList) x ↔
    z <+: x ∧ ∀ n ∈ names, z <+: n.toList := by
  induction names generalizing x with
  | nil => simp
  | cons n names ih =>
    rw [List.foldl_cons, ih, prefix_commonStart_iff, List.forall_mem_cons]
    exact and_assoc

theorem longestStart_commonStartOfAll (hne : names ≠ []) :
    LongestStart (commonStartOfAll names) names := by
  cases names with
  | nil => exact absurd rfl hne
  | cons n names =>
    have hstarts (z : List Char) : z <+: commonStartOfAll (n :: names) ↔
        ∀ m ∈ n :: names, z <+: m.toList := by
      rw [commonStartOfAll, prefix_foldl_commonStart_iff, List.forall_mem_cons]
    exact ⟨(hstarts _).1 List.prefix_rfl, fun z hz => ((hstarts z).2 hz).length_le⟩

/-! ### The candidates -/

def directoryCommands : List String := ["cd", "ls", "mkdir"]

def pathCommands : List String := directoryCommands ++ ["cat", "cp", "echo", "mv", "rm", "touch"]

/-- An entry of `place` that `start` may be completed to as an operand of `command`. -/
structure IsCandidate (s : Session) (command : String) (place : Path) (start : List Char)
    (name : String) : Prop where
  present : (s.get? (place.child name)).isSome
  directory : command ∈ directoryCommands → s.isDirectory (place.child name) = true
  dotted : ['.'] <+: name.toList → ['.'] <+: start
  starts : start <+: name.toList

def marked (s : Session) (place : Path) (other name : String) : String :=
  name ++ if s.isDirectory (place.child name) then "/" else other

def line? : Completion → Option String
  | .none => Option.none
  | .single line | .multiple line _ => some line

/-- The answer for a list of candidates, `before` being the text in front of the start of their
names. -/
inductive Offers (s : Session) (place : Path) (before : String) : List String → Completion → Prop
  | none : Offers s place before [] .none
  | single (name : String) :
    Offers s place before [name] (.single (before ++ marked s place " " name))
  | multiple {names : List String} {common : List Char} (hmany : 2 ≤ names.length)
    (hcommon : LongestStart common names) :
    Offers s place before names
      (.multiple (before ++ String.ofList common) (names.map (marked s place "")))

theorem isDirectory_child {i : Listing.Item} (h : i ∈ Listing.items s place) :
    s.isDirectory (place.child i.name) = i.isDirectory := by
  obtain ⟨c, hc, hi⟩ := Listing.mem_items_iff.1 h
  rw [Session.isDirectory, hc, ← hi]
  rfl

theorem mem_candidates_iff {directories : Bool} {i : Listing.Item}
    (hcommand : directories = true ↔ command ∈ directoryCommands)
    (hi : i ∈ Listing.items s place) :
    i ∈ candidates (String.ofList start) directories (Listing.items s place) ↔
      IsCandidate s command place start i.name := by
  have hpresent : (s.get? (place.child i.name)).isSome := by
    obtain ⟨c, hc, -⟩ := Listing.mem_items_iff.1 hi
    simp [hc]
  have hkind : (!directories || i.isDirectory) = true ↔
      (command ∈ directoryCommands → s.isDirectory (place.child i.name) = true) := by
    rw [isDirectory_child hi, ← hcommand]
    cases directories <;> simp
  have hdotted : (Text.startsWith (String.ofList start) "." || !i.isHidden) = true ↔
      (['.'] <+: i.name.toList → ['.'] <+: start) := by
    have hdot : ".".toList = ['.'] := rfl
    simp only [Listing.Item.isHidden, Text.startsWith, String.toList_ofList, hdot, Bool.or_eq_true,
      Bool.not_eq_true', List.isPrefixOf_iff_prefix, ← Bool.not_eq_true]
    exact or_comm.trans (Decidable.imp_iff_not_or).symm
  have hstarts : Text.startsWith i.name (String.ofList start) = true ↔ start <+: i.name.toList := by
    rw [Text.startsWith, String.toList_ofList, List.isPrefixOf_iff_prefix]
  rw [candidates, List.mem_filter, Bool.and_eq_true, Bool.and_eq_true, hkind, hdotted, hstarts]
  constructor
  · intro h
    exact ⟨hpresent, h.2.1.1, h.2.1.2, h.2.2⟩
  · intro h
    exact ⟨hi, ⟨h.directory, h.dotted⟩, h.starts⟩

theorem exists_item {name : String} (h : (s.get? (place.child name)).isSome) :
    ∃ i ∈ Listing.items s place, i.name = name := by
  obtain ⟨c, hc⟩ := Option.isSome_iff_exists.1 h
  exact ⟨Listing.Item.ofNode name c.node, Listing.mem_items_iff.2 ⟨c, hc, rfl⟩, rfl⟩

theorem offers_ofPath (directories : Bool)
    (hsplit : splitAfterLast (· == '/') (directory ++ start) = (directory, start))
    (hplace : place = if directory = [] then s.cursor else s.resolve (String.ofList directory)) :
    Offers s place (String.ofList (head ++ directory))
      ((candidates (String.ofList start) directories (Listing.items s place)).map
        Listing.Item.name)
      (ofPath s head (directory ++ start) directories) := by
  have hpath : (if directory.isEmpty then s.cursor else s.resolve (String.ofList directory)) =
      place := by
    rw [hplace]
    cases directory <;> rfl
  have hsub (i : Listing.Item)
      (hi : i ∈ candidates (String.ofList start) directories (Listing.items s place)) :
      s.isDirectory (place.child i.name) = i.isDirectory :=
    isDirectory_child (List.mem_of_mem_filter hi)
  rw [ofPath, hsplit]
  simp only [hpath]
  cases hlisted : Listing.ofPath? s place with
  | none =>
    have hitems : Listing.items s place = [] := by simp [Listing.items, hlisted]
    rw [hitems]
    exact .none
  | some items =>
    have hitems : Listing.items s place = items := by simp [Listing.items, hlisted]
    rw [hitems] at hsub ⊢
    rw [Option.map_some]
    generalize candidates (String.ofList start) directories items = found at hsub ⊢
    cases found with
    | nil => exact .none
    | cons i found =>
      cases found with
      | nil =>
        have hi : s.isDirectory (place.child i.name) = i.isDirectory := hsub i List.mem_cons_self
        have hline : String.ofList (head ++ directory) ++ i.name ++
            (if i.isDirectory then "/" else " ") =
              String.ofList (head ++ directory) ++ marked s place " " i.name := by
          rw [marked, hi, String.append_assoc]
        simp only [hline]
        exact .single i.name
      | cons j found =>
        have hmarked : (i :: j :: found).map (fun i => if i.isDirectory then i.name ++ "/" else i.name) =
            ((i :: j :: found).map Listing.Item.name).map (marked s place "") := by
          rw [List.map_map]
          apply List.map_congr_left
          intro k hk
          rw [Function.comp_apply, marked, hsub k hk]
          cases k.isDirectory <;> simp
        simp only [hmarked]
        exact .multiple (by simp) (longestStart_commonStartOfAll (by simp))

/-! ### Where a line is split -/

theorem splitAfterLast_append {p : Char → Bool} (hx : ∀ c ∈ x.getLast?, p c = true)
    (hy : ∀ c ∈ y, p c = false) : splitAfterLast p (x ++ y) = (x, y) := by
  have hstop : x.reverse.takeWhile (fun c => !p c) = [] := by
    rw [← List.head?_reverse] at hx
    cases hreverse : x.reverse with
    | nil => rfl
    | cons c z =>
      rw [hreverse] at hx
      simp [hx c rfl]
  have hafter : ((x ++ y).reverse.takeWhile fun c => !p c).reverse = y := by
    rw [List.reverse_append, List.takeWhile_append_of_pos (by simpa using hy), hstop,
      List.append_nil, List.reverse_reverse]
  simp only [splitAfterLast, hafter]
  simp

theorem ofLine_of_split (s : Session) {word : List Char}
    (hline : typed.toList.dropWhile Text.isBlank = head ++ word)
    (hlast : ∃ c ∈ head.getLast?, Text.isSeparator c = true)
    (hword : ∀ c ∈ word, Text.isSeparator c = false)
    (hname : (head ++ word).takeWhile (fun c => !Text.isSeparator c) = command.toList) :
    ofLine s typed =
      if word.head? == some '-' || word.contains '>' then .none
      else
        match directoriesOnly? command with
        | some directories => ofPath s head word directories
        | Option.none => .none := by
  obtain ⟨c, hc, hsep⟩ := hlast
  have hmem : c ∈ head ++ word := List.mem_append_left word (List.mem_of_getLast? hc)
  have hnonempty : (head ++ word).isEmpty = false := by simpa using List.ne_nil_of_mem hmem
  have hany : (head ++ word).any Text.isSeparator = true := List.any_eq_true.2 ⟨c, hmem, hsep⟩
  have hsplit : splitAfterLast Text.isSeparator (head ++ word) = (head, word) :=
    splitAfterLast_append (fun d hd => by rwa [Option.mem_unique hd hc]) hword
  simp only [ofLine, hline, hnonempty, hany, hsplit, hname, String.ofList_toList]
  rfl

/-! ### Operands -/

/-- The typed text is a command name and what follows up to a separator, which is `head`, then an
operand split after its last slash. -/
structure Asks (typed command : String) (head directory start : List Char) : Prop where
  takesPaths : command ∈ pathCommands
  line : ∃ blanks : List Char, (∀ c ∈ blanks, Text.isBlank c = true) ∧
    typed.toList = blanks ++ (head ++ (directory ++ start))
  named : ∃ gap : List Char, head = command.toList ++ gap ∧
    (∃ c ∈ gap.head?, Text.isSeparator c = true) ∧ ∃ c ∈ gap.getLast?, Text.isSeparator c = true
  letters : ∀ c ∈ directory ++ start, Token.endsWord c = false
  noFlag : (directory ++ start).head? ≠ some '-'
  upToSlash : ∀ c ∈ directory.getLast?, c = '/'
  noSlash : '/' ∉ start

theorem command_name (h : command ∈ pathCommands) :
    command ≠ "" ∧ (∀ c ∈ command.toList, Text.isBlank c = false) ∧
      directoriesOnly? command = some (decide (command ∈ directoryCommands)) := by
  have hall : ∀ command ∈ pathCommands, command ≠ "" ∧
      command.toList.any Text.isBlank = false ∧
        directoriesOnly? command = some (decide (command ∈ directoryCommands)) := by
    decide +kernel
  simpa using hall command h

namespace Asks

theorem line_eq (h : Asks typed command head directory start) :
    typed.toList.dropWhile Text.isBlank = head ++ (directory ++ start) := by
  obtain ⟨blanks, hblanks, htyped⟩ := h.line
  obtain ⟨gap, hhead, -⟩ := h.named
  obtain ⟨hne, hname, -⟩ := command_name h.takesPaths
  rw [htyped, List.dropWhile_append_of_pos hblanks, hhead]
  cases hcommand : command.toList with
  | nil => exact absurd (String.toList_inj.1 hcommand) hne
  | cons c cs =>
    have hc : Text.isBlank c = false := hname c (by simp [hcommand])
    simp only [List.cons_append]
    exact List.dropWhile_cons_of_neg (by simp [hc])

theorem getLast?_head (h : Asks typed command head directory start) :
    ∃ c ∈ head.getLast?, Text.isSeparator c = true := by
  obtain ⟨gap, hhead, -, c, hc, hsep⟩ := h.named
  refine ⟨c, ?_, hsep⟩
  rw [hhead, List.getLast?_append, Option.mem_def.1 hc]
  rfl

theorem split_operand (h : Asks typed command head directory start) :
    splitAfterLast (· == '/') (directory ++ start) = (directory, start) := by
  apply splitAfterLast_append
  · intro c hc
    simpa using h.upToSlash c hc
  · intro c hc
    have hne : c ≠ '/' := fun hslash => h.noSlash (hslash ▸ hc)
    simpa using hne

theorem takeWhile_line (h : Asks typed command head directory start) :
    (head ++ (directory ++ start)).takeWhile (fun c => !Text.isSeparator c) = command.toList := by
  obtain ⟨gap, hhead, ⟨c, hc, hsep⟩, -⟩ := h.named
  obtain ⟨-, hname, -⟩ := command_name h.takesPaths
  obtain ⟨gap, rfl⟩ := List.head?_eq_some_iff.1 hc
  have hletters : ∀ d ∈ command.toList, (!Text.isSeparator d) = true := by
    intro d hd
    have hblank : Text.isBlank d = false := hname d hd
    cases hs : Text.isSeparator d with
    | false => rfl
    | true => simp [Text.isBlank_of_isSeparator hs] at hblank
  rw [hhead, List.append_assoc, List.takeWhile_append_of_pos hletters]
  simp [hsep]

theorem ofLine_eq (h : Asks typed command head directory start) (s : Session) :
    ofLine s typed =
      ofPath s head (directory ++ start) (decide (command ∈ directoryCommands)) := by
  obtain ⟨-, -, hkind⟩ := command_name h.takesPaths
  have hletters (c : Char) (hc : c ∈ directory ++ start) : Text.isSeparator c = false ∧ c ≠ '>' := by
    simpa [Token.endsWord] using h.letters c hc
  have hflag : ((directory ++ start).head? == some '-') = false := by simpa using h.noFlag
  have hmark : (directory ++ start).contains '>' = false := by
    rw [← Bool.not_eq_true, List.contains_iff_mem]
    exact fun hm => (hletters '>' hm).2 rfl
  rw [ofLine_of_split s h.line_eq h.getLast?_head (fun c hc => (hletters c hc).1) h.takeWhile_line,
    hflag, hmark, hkind]
  rfl

end Asks

theorem Offers.begins {before line : String} {answer : Completion}
    (h : Offers s place before names answer) (hstart : ∀ n ∈ names, start <+: n.toList)
    (hline : answer.line? = some line) : before.toList ++ start <+: line.toList := by
  cases h with
  | none => simp [line?] at hline
  | single name =>
    obtain rfl := Option.some.inj hline
    have hname : start <+: (marked s place " " name).toList := by
      rw [marked, String.toList_append]
      exact (hstart name List.mem_cons_self).trans (List.prefix_append _ _)
    rw [String.toList_append]
    exact (List.prefix_append_right_inj _).2 hname
  | multiple hmany hcommon =>
    obtain rfl := Option.some.inj hline
    rw [String.toList_append, String.toList_ofList]
    refine (List.prefix_append_right_inj _).2 ?_
    cases names with
    | nil => simp at hmany
    | cons n names =>
      have hcommon_le := hcommon.longest start hstart
      exact List.prefix_of_prefix_length_le (hstart n List.mem_cons_self)
        (hcommon.starts n List.mem_cons_self) hcommon_le

theorem Asks.exists_offers (h : Asks typed command head directory start) (s : Session) :
    let place := if directory = [] then s.cursor else s.resolve (String.ofList directory)
    ∃ names : List String, names.Pairwise (· < ·) ∧
      (∀ name, name ∈ names ↔ IsCandidate s command place start name) ∧
      Offers s place (String.ofList (head ++ directory)) names (ofLine s typed) := by
  intro place
  have hkind : decide (command ∈ directoryCommands) = true ↔ command ∈ directoryCommands :=
    decide_eq_true_iff
  let found := candidates (String.ofList start) (decide (command ∈ directoryCommands))
    (Listing.items s place)
  refine ⟨found.map Listing.Item.name, ?_, ?_, ?_⟩
  · exact List.pairwise_map.2 ((Listing.items_pairwise s place).filter _)
  · intro name
    constructor
    · intro hname
      obtain ⟨i, hi, rfl⟩ := List.mem_map.1 hname
      exact (mem_candidates_iff hkind (List.mem_of_mem_filter hi)).1 hi
    · intro hname
      obtain ⟨i, hi, rfl⟩ := exists_item hname.present
      exact List.mem_map.2 ⟨i, (mem_candidates_iff hkind hi).2 hname, rfl⟩
  · rw [h.ofLine_eq]
    exact offers_ofPath _ h.split_operand rfl

/-- The candidates for an operand are the matching entries of the directory typed so far, each once
and in order. The answer depends on their number, and its line extends the typed one. -/
theorem ofLine_offers (s : Session) (h : Asks typed command head directory start) :
    let place := if directory = [] then s.cursor else s.resolve (String.ofList directory)
    (∃ names : List String, names.Pairwise (· < ·) ∧
      (∀ name, name ∈ names ↔ IsCandidate s command place start name) ∧
      Offers s place (String.ofList (head ++ directory)) names (ofLine s typed)) ∧
    ∀ line, (ofLine s typed).line? = some line →
      typed.toList.dropWhile Text.isBlank <+: line.toList := by
  intro place
  refine ⟨h.exists_offers s, ?_⟩
  intro line hline
  obtain ⟨names, -, hnames, hoffers⟩ := h.exists_offers s
  have hbegins := hoffers.begins (fun name hname => ((hnames name).1 hname).starts) hline
  rwa [h.line_eq, ← List.append_assoc, ← String.toList_ofList (l := head ++ directory)]

theorem ofLine_offers_notes :
    let s := ((Session.runLine Instant.epoch "touch notes-b.txt notes-a.txt").run
      (Session.seeded Instant.epoch)).2
    let typed := "\x0b\trm -r ../user/no"
    let directory := "../user/".toList
    let place := s.resolve (String.ofList directory)
    Asks typed "rm" "rm -r ".toList directory "no".toList ∧
      ofLine s typed = .multiple "rm -r ../user/notes-" ["notes-a.txt", "notes-b.txt"] ∧
      ∃ names : List String, names.Pairwise (· < ·) ∧
        (∀ name, name ∈ names ↔ IsCandidate s "rm" place "no".toList name) ∧
        Offers s place (String.ofList ("rm -r ".toList ++ directory)) names (ofLine s typed) := by
  intro s typed directory place
  have hasks : Asks typed "rm" "rm -r ".toList directory "no".toList :=
    { takesPaths := by decide
      line := ⟨['\x0b', '\t'], List.all_eq_true.1 (by decide), by decide⟩
      named := ⟨" -r ".toList, by decide, ⟨' ', by decide, rfl⟩, ⟨' ', by decide, rfl⟩⟩
      letters := by simp [directory, Token.endsWord, Text.isSeparator]
      noFlag := by decide
      upToSlash := by simp [directory]
      noSlash := by decide }
  exact ⟨hasks, by decide +kernel, (ofLine_offers s hasks).1⟩

end Completion

end PracticeShell
