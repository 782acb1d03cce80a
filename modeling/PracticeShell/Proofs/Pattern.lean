import PracticeShell.Pattern.Reader
import Mathlib.Control.Basic
import Mathlib.Data.Option.Basic

/-! Patterns written and read back. Reading an item adds it to the part being read, and a group is
read with all that it holds. Main statement: a written pattern is read as itself; so any text can be
matched literally, with its marks escaped. -/
namespace PracticeShell.Pattern

/-! ### Written patterns -/

inductive Item where
  | literal (c : Char)
  | anyChar
  | anchor
  | wordEdge
  | escaped (negated : Bool)
  | repeated (item : Item)
  | group (change : Flags) (first : List Item) (others : List (List Item))

def sequenceOf : List Pattern → Pattern
  | [] => .empty
  | [p] => p
  | ps => .sequence ps

theorem sequenceOf_eq {ps : List Pattern} (h : 2 ≤ ps.length) : sequenceOf ps = .sequence ps := by
  match ps with
  | _ :: _ :: _ => rfl

def branchesOf (first : Pattern) (others : List Pattern) : Pattern :=
  if others.isEmpty then first else .branches (first :: others)

def marks : List Char := ['(', ')', '|', '[', '?', '*', '+', '\x7b', '\\', '.', '^', '$']

def escape (c : Char) : List Char := if c ∈ marks then ['\\', c] else [c]

def Flag.char : Flag → Char
  | .ignoreCase => 'i'
  | .lineAnchors => 'm'
  | .dotTakesAll => 's'
  | .lazyFirst => 'U'
  | .unicode => 'u'
  | .longLineEnds => 'R'
  | .spaced => 'x'

def Flags.chars (fs : Flags) : List Char :=
  fs.on.map Flag.char ++ if fs.off.isEmpty then [] else '-' :: fs.off.map Flag.char

/-- No switch occurs twice, and blanks stay significant. -/
structure Flags.IsPlain (fs : Flags) : Prop where
  nodup : (fs.on ++ fs.off).Nodup
  spaced : .spaced ∉ fs.on

namespace Item

mutual
def pattern : Item → Pattern
  | .literal c => .literal ⟨c, false⟩
  | .anyChar => .anyChar
  | .anchor => .anchor
  | .wordEdge => .wordEdge
  | .escaped negated => .escaped negated
  | .repeated item => .repeated item.pattern
  | .group change first others =>
    .group change (branchesOf (sequenceOf (patterns first)) (branches others))

def patterns : List Item → List Pattern
  | [] => []
  | item :: items => item.pattern :: patterns items

def branches : List (List Item) → List Pattern
  | [] => []
  | items :: others => sequenceOf (patterns items) :: branches others
end

mutual
def chars : Item → List Char
  | .literal c => escape c
  | .anyChar => ['.']
  | .anchor => ['^']
  | .wordEdge => ['\\', 'b']
  | .escaped false => ['\\', 'd']
  | .escaped true => ['\\', 'D']
  | .repeated item => item.chars ++ ['*']
  | .group change first others =>
    '(' :: '?' :: (change.chars ++ ':' :: (rowChars first ++ (branchChars others ++ [')'])))

def rowChars : List Item → List Char
  | [] => []
  | item :: items => item.chars ++ rowChars items

def branchChars : List (List Item) → List Char
  | [] => []
  | items :: others => '|' :: (rowChars items ++ branchChars others)
end

mutual
def IsPlain : Item → Prop
  | .repeated item => item.IsPlain
  | .group change first others => change.IsPlain ∧ RowIsPlain first ∧ BranchesArePlain others
  | _ => True

def RowIsPlain : List Item → Prop
  | [] => True
  | item :: items => item.IsPlain ∧ RowIsPlain items

def BranchesArePlain : List (List Item) → Prop
  | [] => True
  | items :: others => RowIsPlain items ∧ BranchesArePlain others
end

end Item

/-! ### Switches -/

theorem ofChar?_char (f : Flag) : Flag.ofChar? f.char = some f := by
  cases f <;> rfl

theorem mapM_ofChar? (fs : List Flag) : fs.mapM (Flag.ofChar? ∘ Flag.char) = some fs := by
  induction fs with
  | nil => rfl
  | cons f fs ih =>
    rw [List.mapM_cons, Function.comp_apply, ofChar?_char, ih]
    rfl

theorem not_mem_map_char {c : Char} (hc : Flag.ofChar? c = none) (fs : List Flag) :
    c ∉ fs.map Flag.char := by
  intro h
  obtain ⟨f, -, rfl⟩ := List.mem_map.1 h
  simp [ofChar?_char] at hc

theorem eq_char_of_ofChar? {c : Char} {f : Flag} (h : Flag.ofChar? c = some f) : c = f.char := by
  unfold Flag.ofChar? at h
  split at h <;> cases h <;> rfl

theorem eq_map_char {cs : List Char} {fs : List Flag} (h : cs.mapM Flag.ofChar? = some fs) :
    cs = fs.map Flag.char := by
  induction cs generalizing fs with
  | nil =>
    obtain rfl : [] = fs := Option.some.inj h
    rfl
  | cons c cs ih =>
    rw [List.mapM_cons] at h
    obtain ⟨f, hf, h⟩ := Option.bind_eq_some_iff.1 h
    obtain ⟨gs, hgs, h⟩ := Option.bind_eq_some_iff.1 h
    obtain rfl : f :: gs = fs := Option.some.inj h
    rw [List.map_cons, ← eq_char_of_ofChar? hf, ← ih hgs]

theorem flagLetters?_append {on off : List Char} (hon : '-' ∉ on) (hoff : '-' ∉ off) :
    flagLetters? (on ++ if off.isEmpty then [] else '-' :: off) = some (on, off) := by
  split
  · next hempty =>
    rw [List.append_nil, flagLetters?, List.splitOn_eq_singleton hon, List.isEmpty_iff.1 hempty]
  · next hempty =>
    rw [flagLetters?, List.splitOn_append_cons_self_of_not_mem hon, List.splitOn_eq_singleton hoff]
    simp [hempty]

theorem eq_of_flagLetters? {cs on off : List Char} (h : flagLetters? cs = some (on, off)) :
    cs = on ++ if off.isEmpty then [] else '-' :: off := by
  have hjoin : ['-'].intercalate (cs.splitOn '-') = cs := List.intercalate_splitOn '-'
  unfold flagLetters? at h
  split at h
  · next heq =>
    cases h
    rw [heq] at hjoin
    simpa using hjoin.symm
  · next heq =>
    split at h
    · cases h
    · next hempty =>
      cases h
      rw [heq] at hjoin
      rw [if_neg hempty]
      simpa using hjoin.symm
  · cases h

theorem flagsOfChars?_eq_some_iff {cs : List Char} {fs : Flags} :
    flagsOfChars? cs = some fs ↔ cs = fs.chars ∧ (fs.on ++ fs.off).Nodup := by
  constructor
  · intro h
    obtain ⟨⟨on, off⟩, hletters, h⟩ := Option.bind_eq_some_iff.1 h
    obtain ⟨ons, hons, h⟩ := Option.bind_eq_some_iff.1 h
    obtain ⟨offs, hoffs, h⟩ := Option.bind_eq_some_iff.1 h
    obtain ⟨u, hguard, h⟩ := Option.bind_eq_some_iff.1 h
    obtain rfl := Option.some.inj h
    have hnodup : (ons ++ offs).Nodup := (Option.guard_eq_some' u).1 hguard
    refine ⟨?_, hnodup⟩
    rw [eq_of_flagLetters? hletters, eq_map_char hons, eq_map_char hoffs]
    simp [Flags.chars]
  · rintro ⟨rfl, h⟩
    have hletters : flagLetters? fs.chars = some (fs.on.map Flag.char, fs.off.map Flag.char) := by
      simpa [Flags.chars] using
        flagLetters?_append (not_mem_map_char rfl fs.on) (not_mem_map_char rfl fs.off)
    simp [flagsOfChars?, hletters, mapM_ofChar?, h]

theorem not_mem_chars {c : Char} (hc : Flag.ofChar? c = none) (hminus : c ≠ '-') (fs : Flags) :
    c ∉ fs.chars := by
  unfold Flags.chars
  split
  · simpa using not_mem_map_char hc fs.on
  · have hon := not_mem_map_char hc fs.on
    have hoff := not_mem_map_char hc fs.off
    rw [List.mem_append, List.mem_cons]
    rintro (h | rfl | h)
    · exact hon h
    · exact hminus rfl
    · exact hoff h

namespace Reading

/-! ### Steps -/

/-- Reading leads from one state and text to another. -/
inductive Steps : Reading → List Char → Reading → List Char → Prop
  | refl (r : Reading) (cs : List Char) : Steps r cs r cs
  | step {r r' r'' : Reading} {c : Char} {cs cs' cs'' : List Char} (hspaced : r.part.spaced = false)
    (hstep : r.step c cs = some (r', cs')) (hlength : cs'.length ≤ cs.length)
    (h : Steps r' cs' r'' cs'') : Steps r (c :: cs) r'' cs''

theorem Steps.trans {r r' r'' : Reading} {x y z : List Char} (h : Steps r x r' y)
    (h' : Steps r' y r'' z) : Steps r x r'' z := by
  induction h with
  | refl => exact h'
  | step hspaced hstep hlength _ ih => exact .step hspaced hstep hlength (ih h')

theorem Steps.one {r r' : Reading} {c : Char} {cs cs' : List Char} (hspaced : r.part.spaced = false)
    (hstep : r.step c cs = some (r', cs')) (hlength : cs'.length ≤ cs.length) :
    Steps r (c :: cs) r' cs' := .step hspaced hstep hlength (.refl r' cs')

theorem readFrom_of_steps {r r' : Reading} {cs rest : List Char} {fuel : Nat} (h : Steps r cs r' rest)
    (hrest : rest = []) (hspaced : r'.part.spaced = false) (hout : r'.outer = [])
    (hfuel : cs.length < fuel) : readFrom fuel r cs = some r'.part.whole := by
  induction h generalizing fuel with
  | refl r cs =>
    subst hrest
    cases fuel with
    | zero => simp at hfuel
    | succ fuel => simp [readFrom, skipSpace, hspaced, hout]
  | step hr hstep hlength _ ih =>
    cases fuel with
    | zero => simp at hfuel
    | succ fuel =>
      rw [List.length_cons] at hfuel
      simp only [readFrom, skipSpace, hr, Bool.false_eq_true, if_false, hstep]
      exact ih hrest hspaced hout (by omega)

/-! ### Parts -/

def pushAll (r : Reading) (ps : List Pattern) : Reading := ps.foldl push r

def branch (r : Reading) (ps : List Pattern) : Reading :=
  ({ r with part := r.part.nextBranch } : Reading).pushAll ps

def branchAll (r : Reading) (others : List (List Item)) : Reading :=
  others.foldl (fun r items => r.branch (Item.patterns items)) r

theorem pushAll_eq (r : Reading) (ps : List Pattern) : r.pushAll ps =
    { r with part := { r.part with items := ps.reverse ++ r.part.items } } := by
  induction ps generalizing r with
  | nil => rfl
  | cons p ps ih =>
    rw [pushAll, List.foldl_cons]
    change (r.push p).pushAll ps = _
    simp [ih, push, Part.push]

theorem sequence_eq (p : Part) : p.sequence = sequenceOf p.items.reverse := by
  obtain ⟨items, branches, spaced⟩ := p
  match items with
  | [] => rfl
  | [item] => rfl
  | last :: before :: items => exact (sequenceOf_eq (by simp)).symm

def branchesSoFar (p : Part) : List Pattern := (p.sequence :: p.branches).reverse

theorem whole_eq {p : Part} {first : Pattern} {others : List Pattern}
    (h : branchesSoFar p = first :: others) : p.whole = branchesOf first others := by
  have hlength := congrArg List.length h
  rw [branchesSoFar] at h
  rw [Part.whole, branchesOf]
  cases hb : p.branches with
  | nil =>
    obtain ⟨rfl, rfl⟩ : p.sequence = first ∧ [] = others := by simpa [hb] using h
    rfl
  | cons b bs =>
    have hothers : others.isEmpty = false := by
      cases others with
      | nil => simp [branchesSoFar, hb] at hlength
      | cons => rfl
    rw [hothers, ← hb, ← h, hb]
    rfl

theorem branchesSoFar_branch (r : Reading) (ps : List Pattern) :
    branchesSoFar (r.branch ps).part = branchesSoFar r.part ++ [sequenceOf ps] := by
  simp [branch, pushAll_eq, branchesSoFar, sequence_eq, Part.nextBranch]

theorem branchAll_cons (r : Reading) (items : List Item) (others : List (List Item)) :
    r.branchAll (items :: others) = (r.branch (Item.patterns items)).branchAll others := rfl

theorem branchesSoFar_branchAll (r : Reading) (others : List (List Item)) :
    branchesSoFar (r.branchAll others).part = branchesSoFar r.part ++ Item.branches others := by
  induction others generalizing r with
  | nil => simp [branchAll, Item.branches]
  | cons items others ih => simp [branchAll_cons, ih, branchesSoFar_branch, Item.branches]

theorem branchAll_eq (r : Reading) (others : List (List Item)) :
    (r.branchAll others).part.spaced = r.part.spaced ∧ (r.branchAll others).outer = r.outer ∧
      (r.branchAll others).names = r.names := by
  induction others generalizing r with
  | nil => exact ⟨rfl, rfl, rfl⟩
  | cons items others ih =>
    have hbranch := ih (r.branch (Item.patterns items))
    simpa [branchAll_cons, branch, pushAll_eq, Part.nextBranch] using hbranch

/-! ### Items -/

theorem step_literal (r : Reading) {c : Char} (h : c ∉ marks) (rest : List Char) :
    r.step c rest = some (r.push (.literal ⟨c, false⟩), rest) := by
  unfold step
  split <;> first | rfl | exact absurd (by decide) h

theorem step_escape (r : Reading) {c : Char} (h : c ∈ marks) (rest : List Char) :
    r.step '\\' (c :: rest) = some (r.push (.literal ⟨c, false⟩), rest) := by
  simp only [marks, List.mem_cons, List.not_mem_nil, or_false] at h
  obtain rfl | rfl | rfl | rfl | rfl | rfl | rfl | rfl | rfl | rfl | rfl | rfl := h <;> rfl

theorem step_repeat (r : Reading) (item : Item) {rest : List Char} (hrest : rest.head? ≠ some '?') :
    (r.push item.pattern).step '*' rest = some (r.push (.repeated item.pattern), rest) := by
  have hlast : (r.push item.pattern).part.repeatLast? =
      some (r.push (.repeated item.pattern)).part := by
    cases item <;> rfl
  simp only [step, hlast, Option.bind_eq_bind, Option.bind_some]
  split
  · exact absurd rfl hrest
  · rfl

theorem step_group (r : Reading) {fs : Flags} (h : fs.IsPlain) (hr : r.part.spaced = false)
    (cs : List Char) : r.step '(' ('?' :: (fs.chars ++ ':' :: cs)) = some (r.enter fs, cs) := by
  have hletters : ∀ c ∈ fs.chars, (c != ':' && c != ')') = true := by
    intro c hc
    have hcolon : c ≠ ':' := fun heq => not_mem_chars rfl (by decide) fs (heq ▸ hc)
    have hclose : c ≠ ')' := fun heq => not_mem_chars rfl (by decide) fs (heq ▸ hc)
    simp [hcolon, hclose]
  have htake : (fs.chars ++ ':' :: cs).takeWhile (fun c => c != ':' && c != ')') = fs.chars := by
    rw [List.takeWhile_append_of_pos hletters]
    simp
  have hnext : ∀ c, Flag.ofChar? c = none → c ≠ '-' → c ≠ ':' →
      (fs.chars ++ ':' :: cs).head? ≠ some c := by
    intro c hc hminus hcolon heq
    cases hfs : fs.chars with
    | nil =>
      rw [hfs] at heq
      exact hcolon (Option.some.inj heq).symm
    | cons d ds =>
      rw [hfs] at heq
      obtain rfl := Option.some.inj heq
      exact not_mem_chars hc hminus fs (by simp [hfs])
  generalize htext : fs.chars ++ ':' :: cs = text at htake hnext
  simp only [step, openGroup, skipSpace, hr, Bool.false_eq_true, if_false]
  split
  · next heq => exact absurd (by simp [(List.cons.inj heq).2]) (hnext 'P' rfl (by decide) (by decide))
  · next heq => exact absurd (by simp [(List.cons.inj heq).2]) (hnext '<' rfl (by decide) (by decide))
  · next heq =>
    obtain rfl := (List.cons.inj heq).2
    have hdrop : text.drop fs.chars.length = ':' :: cs := by rw [← htext, List.drop_left]
    simp [htake, hdrop, flagsOfChars?_eq_some_iff.2 ⟨rfl, h.nodup⟩]
  · next hneq => exact absurd rfl (hneq text)

theorem head?_chars : (item : Item) → (rest : List Char) → (item.chars ++ rest).head? ≠ some '?'
  | .literal c, rest => by
    rw [Item.chars, escape]
    split
    · simp
    · next h =>
      rintro heq
      obtain rfl : c = '?' := by simpa using heq
      exact h (by decide)
  | .anyChar, _ | .anchor, _ | .wordEdge, _ | .escaped false, _ | .escaped true, _ | .group .., _ => by
    simp [Item.chars]
  | .repeated item, rest => by
    rw [Item.chars, List.append_assoc]
    exact head?_chars item _

theorem head?_rowChars (items : List Item) {rest : List Char} (h : rest.head? ≠ some '?') :
    (Item.rowChars items ++ rest).head? ≠ some '?' := by
  cases items with
  | nil => exact h
  | cons item items =>
    rw [Item.rowChars, List.append_assoc]
    exact head?_chars item _

theorem head?_branchChars (others : List (List Item)) {rest : List Char} (h : rest.head? ≠ some '?') :
    (Item.branchChars others ++ rest).head? ≠ some '?' := by
  cases others with
  | nil => exact h
  | cons items others => simp [Item.branchChars]

theorem step_close (r : Reading) (change : Flags) (first : List Item) (others : List (List Item))
    (rest : List Char) :
    (((r.enter change).pushAll (Item.patterns first)).branchAll others).step ')' rest =
      some (r.push (Item.group change first others).pattern, rest) := by
  let inside := (r.enter change).pushAll (Item.patterns first)
  obtain ⟨-, houter, hnames⟩ := branchAll_eq inside others
  have hout : (inside.branchAll others).outer = ⟨change, r.part⟩ :: r.outer := by
    rw [houter]
    simp [inside, pushAll_eq, enter]
  have hwhole : (inside.branchAll others).part.whole =
      branchesOf (sequenceOf (Item.patterns first)) (Item.branches others) := by
    refine whole_eq ?_
    rw [branchesSoFar_branchAll]
    simp [inside, pushAll_eq, enter, branchesSoFar, sequence_eq]
  have hleave : (inside.branchAll others).leave? = some (r.push (Item.group change first others).pattern) := by
    rw [leave?, hout]
    simp only [hwhole, hnames]
    simp [push, Item.pattern, inside, pushAll_eq, enter]
  change ((inside.branchAll others).leave?.map fun r => (r, rest)) = _
  rw [hleave]
  rfl

-- By induction on what is written. A repetition takes a question mark behind it along, so none may
-- follow; inside of a group the closing bracket sees to that.
mutual
theorem steps_chars : (item : Item) → item.IsPlain → (r : Reading) → r.part.spaced = false →
    {rest : List Char} → rest.head? ≠ some '?' →
    Steps r (item.chars ++ rest) (r.push item.pattern) rest
  | .literal c, _, r, hr, rest, _ => by
    by_cases hc : c ∈ marks
    · rw [Item.chars, escape, if_pos hc]
      exact .one hr (step_escape r hc rest) (by simp)
    · rw [Item.chars, escape, if_neg hc]
      exact .one hr (step_literal r hc rest) (Nat.le_refl _)
  | .anyChar, _, r, hr, rest, _ => .one hr rfl (Nat.le_refl _)
  | .anchor, _, r, hr, rest, _ => .one hr rfl (Nat.le_refl _)
  | .wordEdge, _, r, hr, rest, _ => .one hr rfl (by simp)
  | .escaped false, _, r, hr, rest, _ => .one hr rfl (by simp)
  | .escaped true, _, r, hr, rest, _ => .one hr rfl (by simp)
  | .repeated item, h, r, hr, rest, hrest => by
    rw [Item.chars, List.append_assoc]
    exact (steps_chars item h r hr (by simp)).trans
      (.one hr (step_repeat r item hrest) (Nat.le_refl _))
  | .group change first others, h, r, hr, rest, _ => by
    have hinside : (r.enter change).part.spaced = false := by
      simp [enter, Flags.state, hr, h.1.spaced]
    have hfirst : ((r.enter change).pushAll (Item.patterns first)).part.spaced = false := by
      rw [pushAll_eq]
      exact hinside
    have hothers : (((r.enter change).pushAll (Item.patterns first)).branchAll others).part.spaced =
        false := (branchAll_eq _ others).1.trans hfirst
    have hclose : (')' :: rest).head? ≠ some '?' := by simp
    simp only [Item.chars, List.cons_append, List.append_assoc, List.nil_append]
    exact (Steps.one hr (step_group r h.1 hr _) (by simp; omega)).trans
      ((steps_rowChars first h.2.1 _ hinside (head?_branchChars others hclose)).trans
        ((steps_branchChars others h.2.2 _ hfirst hclose).trans
          (.one hothers (step_close r change first others rest) (Nat.le_refl _))))

theorem steps_rowChars : (items : List Item) → Item.RowIsPlain items → (r : Reading) →
    r.part.spaced = false → {rest : List Char} → rest.head? ≠ some '?' →
    Steps r (Item.rowChars items ++ rest) (r.pushAll (Item.patterns items)) rest
  | [], _, r, _, rest, _ => .refl r rest
  | item :: items, h, r, hr, rest, hrest => by
    rw [Item.rowChars, List.append_assoc]
    exact (steps_chars item h.1 r hr (head?_rowChars items hrest)).trans
      (steps_rowChars items h.2 (r.push item.pattern) hr hrest)

theorem steps_branchChars : (others : List (List Item)) → Item.BranchesArePlain others →
    (r : Reading) → r.part.spaced = false → {rest : List Char} → rest.head? ≠ some '?' →
    Steps r (Item.branchChars others ++ rest) (r.branchAll others) rest
  | [], _, r, _, rest, _ => .refl r rest
  | items :: others, h, r, hr, rest, hrest => by
    have hbranch : (r.branch (Item.patterns items)).part.spaced = false := by
      rw [branch, pushAll_eq]
      exact hr
    simp only [Item.branchChars, List.cons_append, List.append_assoc]
    exact (Steps.one hr rfl (Nat.le_refl _)).trans
      ((steps_rowChars items h.1 { r with part := r.part.nextBranch } hr
        (head?_branchChars others hrest)).trans (steps_branchChars others h.2 _ hbranch hrest))
end

end Reading

/-! ### Whole patterns -/

/-- A pattern is read as it was written. -/
theorem read?_chars {first : List Item} {others : List (List Item)} (hfirst : Item.RowIsPlain first)
    (hothers : Item.BranchesArePlain others) :
    read? (Item.rowChars first ++ Item.branchChars others) =
      some (branchesOf (sequenceOf (Item.patterns first)) (Item.branches others)) := by
  let row : Reading := ({} : Reading).pushAll (Item.patterns first)
  have hnil : ([] : List Char).head? ≠ some '?' := by simp
  have hspaced : row.part.spaced = false := by simp [row, Reading.pushAll_eq]
  have hrow := Reading.steps_rowChars first hfirst {} rfl (Reading.head?_branchChars others hnil)
  have hsteps := hrow.trans (Reading.steps_branchChars others hothers row hspaced hnil)
  obtain ⟨hlast, houter, -⟩ := Reading.branchAll_eq row others
  have hout : (row.branchAll others).outer = [] :=
    houter.trans (by simp [row, Reading.pushAll_eq])
  have hwhole : (row.branchAll others).part.whole =
      branchesOf (sequenceOf (Item.patterns first)) (Item.branches others) := by
    refine Reading.whole_eq ?_
    rw [Reading.branchesSoFar_branchAll]
    simp [row, Reading.pushAll_eq, Reading.branchesSoFar, Reading.sequence_eq]
  rw [List.append_nil] at hsteps
  rw [read?, Reading.readFrom_of_steps hsteps rfl (hlast.trans hspaced) hout (Nat.lt_succ_self _),
    hwhole]

/-! ### Texts as patterns -/

theorem rowChars_literals (text : List Char) :
    Item.rowChars (text.map .literal) = text.flatMap escape := by
  induction text with
  | nil => rfl
  | cons c text ih => rw [List.map_cons, Item.rowChars, Item.chars, ih, List.flatMap_cons]

theorem rowIsPlain_literals (text : List Char) : Item.RowIsPlain (text.map .literal) := by
  induction text with
  | nil => trivial
  | cons c text ih => exact ⟨trivial, ih⟩

theorem patterns_literals (text : List Char) :
    Item.patterns (text.map .literal) = text.map fun c => .literal ⟨c, false⟩ := by
  induction text with
  | nil => rfl
  | cons c text ih => rw [List.map_cons, Item.patterns, ih]; rfl

theorem modeAfterAll?_literals (text : List Char) :
    modeAfterAll? {} (text.map fun c => .literal ⟨c, false⟩) = some {} := by
  induction text with
  | nil => rfl
  | cons c text ih => exact ih

theorem depthOfAll_literals (text : List Char) :
    depthOfAll (text.map fun c => .literal ⟨c, false⟩) = 0 := by
  induction text with
  | nil => rfl
  | cons c text ih => rw [List.map_cons, depthOfAll, ih]; rfl

theorem isUsable_literals (text : List Char) :
    (sequenceOf (text.map fun c => .literal ⟨c, false⟩)).isUsable = true := by
  match text with
  | [] => rfl
  | [c] => rfl
  | a :: b :: text =>
    rw [sequenceOf_eq (by simp), isUsable, depth, modeAfter?, modeAfterAll?_literals, depthOfAll_literals]
    rfl

/-- Any text can be matched literally by escaping its marks. -/
theorem isValid_escaped (text : List Char) : isValid (text.flatMap escape) = true := by
  have hread := @read?_chars _ [] (rowIsPlain_literals text) trivial
  rw [Item.branchChars, List.append_nil, rowChars_literals, patterns_literals] at hread
  rw [isValid, hread]
  exact isUsable_literals text

end PracticeShell.Pattern
