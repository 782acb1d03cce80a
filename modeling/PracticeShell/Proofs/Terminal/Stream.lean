import PracticeShell.Proofs.Json.RoundTrip
import PracticeShell.Proofs.Terminal.Reopening

/-! What is shown in JSON: a line for each outcome, from which the outcome is read back. Writing
escapes every character that would break a line. Main statement: outcomes shown in turn make such
lines in order, and so do lines that are run. -/
namespace PracticeShell

/-! ### Values on one line -/

namespace Json
variable {c : Char} {x y : List Char} {j : Json}

def NoControls (x : List Char) : Prop := ∀ c ∈ x, 0x20 ≤ c.toNat

@[simp] theorem noControls_nil : NoControls [] := by simp [NoControls]

@[simp] theorem noControls_cons : NoControls (c :: x) ↔ 0x20 ≤ c.toNat ∧ NoControls x :=
  List.forall_mem_cons

@[simp] theorem noControls_append : NoControls (x ++ y) ↔ NoControls x ∧ NoControls y :=
  List.forall_mem_append

theorem hexChar_noControl {n : Nat} (h : n < 16) : 0x20 ≤ (Text.hexChar n).toNat := by
  have hall : ∀ n : Fin 16, 0x20 ≤ (Text.hexChar n).toNat := by decide
  exact hall ⟨n, h⟩

theorem noControls_escape (c : Char) : NoControls (escape c) := by
  by_cases hlow : c.toNat < 0x20
  · have hhigh : 0x20 ≤ (Text.hexChar (c.toNat / 16)).toNat := hexChar_noControl (by omega)
    have hdigit : 0x20 ≤ (Text.hexChar (c.toNat % 16)).toNat := hexChar_noControl (by omega)
    unfold escape
    split_ifs <;> simp [hhigh, hdigit]
  · have hplain : NoControls [c] := by simpa using hlow
    unfold escape
    split_ifs <;> simp [hplain]

theorem noControls_stringChars (text : Option String) : NoControls (stringChars text) := by
  cases text with
  | none => simp [stringChars]
  | some s =>
    have hescaped : NoControls (s.toList.flatMap escape) := by
      intro d hd
      obtain ⟨c, -, hc⟩ := List.mem_flatMap.1 hd
      exact noControls_escape c d hc
    simp [stringChars, quote, hescaped]

theorem isNumberChar_noControl (h : isNumberChar c = true) : 0x20 ≤ c.toNat := by
  simp only [isNumberChar, Bool.or_eq_true, beq_iff_eq] at h
  obtain ((((hdigit | rfl) | rfl) | rfl) | rfl) | rfl := h
  · have hzero : '0'.toNat ≤ c.toNat := (Char.isDigit_iff_toNat.1 hdigit).1
    exact Nat.le_trans (by decide) hzero
  all_goals decide

theorem noControls_number (h : isNumber x = true) : NoControls x :=
  fun c hc => isNumberChar_noControl (isNumberChar_of_mem (isNumber_iff.1 h) c hc)

mutual
theorem noControls_chars : (j : Json) → j.IsSpelled → NoControls j.chars
  | .null, _ | .boolean true, _ | .boolean false, _ => by simp [chars]
  | .number _, h => noControls_number h
  | .string text, _ => noControls_stringChars text
  | .array [], _ | .object [], _ => by simp [chars]
  | .array (j :: js), h => by simp [chars, noControls_chars j h.1, noControls_itemChars js h.2]
  | .object ((key, j) :: ms), h => by
    simp [chars, noControls_stringChars, noControls_chars j h.1, noControls_memberChars ms h.2]

theorem noControls_itemChars : (js : List Json) → AreSpelled js → NoControls (itemChars js)
  | [], _ => noControls_nil
  | j :: js, h => by simp [itemChars, noControls_chars j h.1, noControls_itemChars js h.2]

theorem noControls_memberChars : (ms : List (Option String × Json)) → MembersAreSpelled ms →
    NoControls (memberChars ms)
  | [], _ => noControls_nil
  | (key, j) :: ms, h => by
    simp [memberChars, noControls_stringChars, noControls_chars j h.1, noControls_memberChars ms h.2]
end

theorem lineFeed_not_mem_text (h : j.IsSpelled) : '\n' ∉ j.text.toList := by
  intro hmem
  rw [text, String.toList_ofList] at hmem
  exact absurd (noControls_chars j h _ hmem) (by decide)

end Json

/-! ### What a value tells -/

def Json.under (key : String) : Json → List Json
  | .object members => (members.filter fun m => m.1 == some key).map Prod.snd
  | _ => []

def Display.kind : Display → String
  | .print _ => "print"
  | .clearScreen => "clear_screen"

def Display.text? : Display → Option String
  | .print text => some text
  | .clearScreen => none

structure Tells (j : Json) (o : Outcome) : Prop where
  action : ∃ a, j.under "action" = [a] ∧ a.under "kind" = [.ofText o.display.kind] ∧
    a.under "text" = o.display.text?.toList.map .ofText
  success : j.under "success" = [.boolean o.success]
  hint : j.under "hint" = o.hint.toList.map .ofText

namespace Outcome
variable {j : Json} {o o' : Outcome}

theorem tells_toJson (o : Outcome) : Tells o.toJson o := by
  obtain ⟨display, success, hint⟩ := o
  constructor
  case action =>
    refine ⟨display.toJson, ?_, ?_, ?_⟩
    · cases hint <;> rfl
    · cases display <;> rfl
    · cases display <;> rfl
  case success => cases hint <;> rfl
  case hint => cases hint <;> rfl

theorem isSpelled_toJson (o : Outcome) : o.toJson.IsSpelled := by
  obtain ⟨_ | _, success, _ | _⟩ := o <;>
    simp [toJson, Display.toJson, Json.ofMembers, Json.ofText, Json.IsSpelled, Json.MembersAreSpelled]

theorem isSound_toJson (o : Outcome) : o.toJson.isSound 2 = true := by
  obtain ⟨_ | _, success, _ | _⟩ := o <;> rfl

end Outcome

/-! ### What is told -/

theorem Display.eq_of_kind {d d' : Display} (hkind : d.kind = d'.kind) (htext : d.text? = d'.text?) :
    d = d' := by
  cases d <;> cases d' <;> simp_all [kind, text?]

theorem Json.ofText_toList_inj {a b : Option String}
    (h : a.toList.map Json.ofText = b.toList.map Json.ofText) : a = b := by
  cases a <;> cases b <;> simp_all [Json.ofText]

/-- Distinct outcomes have distinct records. -/
theorem Tells.unique {j : Json} {o o' : Outcome} (h : Tells j o) (h' : Tells j o') : o = o' := by
  obtain ⟨a, ha, hkind, htext⟩ := h.action
  obtain ⟨a', ha', hkind', htext'⟩ := h'.action
  obtain rfl : a = a' := List.singleton_inj.1 (ha.symm.trans ha')
  have hdisplay : o.display = o'.display := by
    apply Display.eq_of_kind
    · simpa [Json.ofText] using hkind.symm.trans hkind'
    · exact Json.ofText_toList_inj (htext.symm.trans htext')
  have hsuccess : o.success = o'.success := by simpa using h.success.symm.trans h'.success
  have hhint : o.hint = o'.hint := Json.ofText_toList_inj (h.hint.symm.trans h'.hint)
  cases o
  cases o'
  simp_all

/-! ### Lines -/

/-- A line without line feed, from which a record of just this outcome is read. -/
structure IsLineOf (line : String) (o : Outcome) : Prop where
  single : '\n' ∉ line.toList
  read : ∃ j, Json.read? line = some j ∧ j.isSound 2 = true ∧ ∀ told, Tells j told ↔ told = o

theorem Outcome.isLineOf_text (o : Outcome) : IsLineOf o.toJson.text o where
  single := Json.lineFeed_not_mem_text o.isSpelled_toJson
  read := by
    refine ⟨o.toJson, Json.read?_text o.isSpelled_toJson, o.isSound_toJson, fun told => ?_⟩
    constructor
    · exact fun h => h.unique o.tells_toJson
    · intro h
      exact h ▸ told.tells_toJson

namespace Screen
variable {style : Style} {outcomes : List Outcome}

def ofOutcomes (style : Style) : List Outcome → Screen
  | [] => .blank
  | o :: rest => o.render style ++ ofOutcomes style rest

/-- The output is one line for each outcome, in order, and there are no error texts. -/
structure IsStream (screen : Screen) (outcomes : List Outcome) : Prop where
  output : ∃ lines : List String, screen.output = String.join (lines.map (· ++ "\n")) ∧
    List.Forall₂ IsLineOf lines outcomes
  errors : screen.errors = ""

theorem isStream_ofOutcomes (hjson : style.json = true) : (ofOutcomes style outcomes).IsStream outcomes := by
  induction outcomes with
  | nil => exact ⟨⟨[], rfl, .nil⟩, rfl⟩
  | cons o rest ih =>
    obtain ⟨⟨lines, houtput, hlines⟩, herrors⟩ := ih
    have hrender : o.render style = { output := o.toJson.text ++ "\n" } := by
      rw [Outcome.render, if_pos hjson]
    constructor
    case output =>
      refine ⟨o.toJson.text :: lines, ?_, .cons o.isLineOf_text hlines⟩
      rw [ofOutcomes, output_append, hrender, houtput, List.map_cons, String.join_cons]
    case errors =>
      rw [ofOutcomes, errors_append, hrender, herrors]
      rfl

end Screen

namespace Workspace
variable {w : Workspace}

/-- The outcomes of lines run one after the other, up to one that cannot be saved. -/
def outcomes : List (Instant × String) → Workspace → List Outcome
  | [], _ => []
  | (now, typed) :: rest, w =>
    match w.runLine now typed with
    | (.error _, _) => []
    | (.ok outcome, w) => outcome :: outcomes rest w

theorem screen_runLines (style : Screen.Style) (success : Bool) (lines : List (Instant × String)) :
    (w.runLines style success lines).screen = .ofOutcomes style (w.outcomes lines) := by
  induction lines generalizing w success with
  | nil => rfl
  | cons line rest ih =>
    obtain ⟨now, typed⟩ := line
    rw [runLines_cons, outcomes]
    cases hran : w.runLine now typed with
    | mk result w' =>
      cases result with
      | error failure => rfl
      | ok outcome =>
        simp only [ih, Screen.ofOutcomes]

end Workspace

/-- JSON output is one line for each outcome that is shown, and a run of lines shows just its
outcomes. -/
theorem json_stream (hints : Bool) :
    (∀ outcomes, (Screen.ofOutcomes ⟨true, hints⟩ outcomes).IsStream outcomes) ∧
      ∀ (w : Workspace) (success : Bool) (lines : List (Instant × String)),
        (w.runLines ⟨true, hints⟩ success lines).screen.IsStream (w.outcomes lines) := by
  refine ⟨fun outcomes => Screen.isStream_ofOutcomes rfl, fun w success lines => ?_⟩
  rw [Workspace.screen_runLines]
  exact Screen.isStream_ofOutcomes rfl

example :
    Screen.ofOutcomes ⟨true, true⟩ [.failure "a\n\"\x1b" (some "b"), .cleared] =
      { output := "\x7b\"action\":\x7b\"kind\":\"print\",\"text\":\"a\\n\\\"\\u001b\"\x7d," ++
          "\"success\":false,\"hint\":\"b\"\x7d\n" ++
          "\x7b\"action\":\x7b\"kind\":\"clear_screen\"\x7d,\"success\":true\x7d\n" } := by
  decide +kernel

end PracticeShell
