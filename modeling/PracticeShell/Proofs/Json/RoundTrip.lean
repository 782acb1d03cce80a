import PracticeShell.Json.Reader
import PracticeShell.Json.Writer
import PracticeShell.Proofs.Json.Token

/-! A text is read as a value if and only if the tokens of the value are laid out in it. Reading
what was written gives it back, since the written text is such a layout. -/
namespace PracticeShell.Json
variable {ts : List Token} {t : Token} {j : Json} {outer : List Container}

mutual
def tokens : Json → List Token
  | .null => [.null]
  | .boolean b => [.boolean b]
  | .number spelling => [.number spelling]
  | .string text => [.string text]
  | .array [] => [.openArray, .closeArray]
  | .array (j :: js) => .openArray :: (j.tokens ++ itemTokens js ++ [.closeArray])
  | .object [] => [.openObject, .closeObject]
  | .object ((key, j) :: ms) =>
    .openObject :: .string key :: .colon :: (j.tokens ++ memberTokens ms ++ [.closeObject])

def itemTokens : List Json → List Token
  | [] => []
  | j :: js => .comma :: (j.tokens ++ itemTokens js)

def memberTokens : List (Option String × Json) → List Token
  | [] => []
  | (key, j) :: ms => .comma :: .string key :: .colon :: (j.tokens ++ memberTokens ms)
end

mutual
def IsSpelled : Json → Prop
  | .number spelling => isNumber spelling = true
  | .array items => AreSpelled items
  | .object members => MembersAreSpelled members
  | .null | .boolean _ | .string _ => True

def AreSpelled : List Json → Prop
  | [] => True
  | j :: js => j.IsSpelled ∧ AreSpelled js

def MembersAreSpelled : List (Option String × Json) → Prop
  | [] => True
  | (_, j) :: ms => j.IsSpelled ∧ MembersAreSpelled ms
end

theorem apart_append {ts ts' : List Token} (h : Apart ts) (h' : Apart ts')
    (hhead : ∀ t ∈ ts'.head?, ¬ t.IsWord) : Apart (ts ++ ts') :=
  List.isChain_append.2 ⟨h, h', fun _ _ t ht _ => hhead t ht⟩

theorem apart_cons (ht : ¬ t.IsWord) (h : Apart ts) : Apart (t :: ts) :=
  List.isChain_cons.2 ⟨fun _ _ hword => absurd hword ht, h⟩

theorem apart_nil : Apart [] := .nil

theorem apart_singleton (t : Token) : Apart [t] := .singleton t

theorem head?_itemTokens (js : List Json) : ∀ t ∈ (itemTokens js).head?, ¬ t.IsWord := by
  cases js <;> simp [itemTokens, Token.IsWord]

theorem head?_memberTokens (ms : List (Option String × Json)) :
    ∀ t ∈ (memberTokens ms).head?, ¬ t.IsWord := by
  cases ms <;> simp [memberTokens, Token.IsWord]

mutual
theorem apart_tokens : (j : Json) → Apart j.tokens
  | .null | .boolean _ | .number _ | .string _ => apart_singleton _
  | .array [] => apart_cons id (apart_singleton _)
  | .array (j :: js) =>
    apart_cons id (apart_append (apart_append (apart_tokens j) (apart_itemTokens js)
      (head?_itemTokens js)) (apart_singleton _) (by simp [Token.IsWord]))
  | .object [] => apart_cons id (apart_singleton _)
  | .object ((key, j) :: ms) =>
    apart_cons id (apart_cons id (apart_cons id (apart_append (apart_append (apart_tokens j)
      (apart_memberTokens ms) (head?_memberTokens ms)) (apart_singleton _) (by simp [Token.IsWord]))))

theorem apart_itemTokens : (js : List Json) → Apart (itemTokens js)
  | [] => apart_nil
  | j :: js =>
    apart_cons id (apart_append (apart_tokens j) (apart_itemTokens js) (head?_itemTokens js))

theorem apart_memberTokens : (ms : List (Option String × Json)) → Apart (memberTokens ms)
  | [] => apart_nil
  | (_, j) :: ms =>
    apart_cons id (apart_cons id (apart_cons id
      (apart_append (apart_tokens j) (apart_memberTokens ms) (head?_memberTokens ms))))
end

/-! ### From tokens to the value -/

namespace Place

theorem run_cons {p p' : Place} {t : Token} (h : p.next t = some p') (ts : List Token) :
    p.run (t :: ts) = p'.run ts := by
  rw [run, h]

theorem run_itemOrEnd (j : Json) (outer : List Container) (ts : List Token) :
    (itemOrEnd outer).run (j.tokens ++ ts) = (value (.array [] :: outer)).run (j.tokens ++ ts) := by
  cases j with
  | null => rfl
  | boolean => rfl
  | number => rfl
  | string => rfl
  | array items => cases items <;> rfl
  | object members =>
    cases members with
    | nil => rfl
    | cons m ms => rfl

end Place

mutual
theorem run_tokens : (j : Json) → (outer : List Container) → (ts : List Token) →
    (Place.value outer).run (j.tokens ++ ts) = (Place.after j outer).run ts
  | .null, _, _ => rfl
  | .boolean _, _, _ => rfl
  | .number _, _, _ => rfl
  | .string _, _, _ => rfl
  | .array [], _, _ => rfl
  | .array (j :: js), outer, ts => by
    simp only [tokens, List.cons_append, List.append_assoc, List.nil_append]
    rw [Place.run_cons rfl, Place.run_itemOrEnd, run_tokens j, run_itemTokens js [] j]
    rfl
  | .object [], _, _ => rfl
  | .object ((key, j) :: ms), outer, ts => by
    simp only [tokens, List.cons_append, List.append_assoc, List.nil_append]
    rw [Place.run_cons rfl, Place.run_cons rfl, Place.run_cons rfl, run_tokens j,
      run_memberTokens ms [] key j]
    rfl

theorem run_itemTokens : (js : List Json) → (before : List Json) → (j : Json) →
    (outer : List Container) →
    (ts : List Token) →
    (Place.after j (.array before :: outer)).run (itemTokens js ++ .closeArray :: ts) =
      (Place.after (.array (before.reverse ++ j :: js)) outer).run ts
  | [], before, j, outer, ts => by
    rw [itemTokens, List.nil_append, Place.run_cons rfl]
    simp
  | next :: js, before, j, outer, ts => by
    simp only [itemTokens, List.cons_append, List.append_assoc]
    rw [Place.run_cons rfl, run_tokens next, run_itemTokens js (j :: before) next]
    simp

theorem run_memberTokens : (ms : List (Option String × Json)) →
    (before : List (Option String × Json)) →
    (key : Option String) → (j : Json) → (outer : List Container) → (ts : List Token) →
    (Place.after j (.object before key :: outer)).run (memberTokens ms ++ .closeObject :: ts) =
      (Place.after (.object (before.reverse ++ (key, j) :: ms)) outer).run ts
  | [], before, key, j, outer, ts => by
    rw [memberTokens, List.nil_append, Place.run_cons rfl]
    simp
  | (nextKey, next) :: ms, before, key, j, outer, ts => by
    simp only [memberTokens, List.cons_append, List.append_assoc]
    rw [Place.run_cons rfl, Place.run_cons rfl, Place.run_cons rfl, run_tokens next,
      run_memberTokens ms ((key, j) :: before) nextKey next]
    simp
end

/-! ### From the value to its tokens -/

def itemsBefore (js : List Json) : List Token := js.flatMap fun j => j.tokens ++ [.comma]

def membersBefore (ms : List (Option String × Json)) : List Token :=
  ms.flatMap fun m => .string m.1 :: .colon :: (m.2.tokens ++ [.comma])

theorem itemTokens_concat (js : List Json) (j : Json) :
    itemTokens (js ++ [j]) = .comma :: (itemsBefore js ++ j.tokens) := by
  induction js with
  | nil => simp [itemTokens, itemsBefore]
  | cons next js ih => simp [itemTokens, itemsBefore, ih]

theorem memberTokens_concat (ms : List (Option String × Json)) (key : Option String) (j : Json) :
    memberTokens (ms ++ [(key, j)]) =
      .comma :: (membersBefore ms ++ .string key :: .colon :: j.tokens) := by
  induction ms with
  | nil => simp [memberTokens, membersBefore]
  | cons m ms ih => simp [memberTokens, membersBefore, ih]

theorem tokens_array (js : List Json) (j : Json) : (Json.array (js ++ [j])).tokens =
    .openArray :: (itemsBefore js ++ (j.tokens ++ [.closeArray])) := by
  cases js with
  | nil => simp [tokens, itemTokens, itemsBefore]
  | cons next js => simp [tokens, itemTokens_concat, itemsBefore]

theorem tokens_object (ms : List (Option String × Json)) (key : Option String) (j : Json) :
    (Json.object (ms ++ [(key, j)])).tokens = .openObject ::
      (membersBefore ms ++ .string key :: .colon :: (j.tokens ++ [.closeObject])) := by
  cases ms with
  | nil => simp [tokens, memberTokens, membersBefore]
  | cons m ms => simp [tokens, memberTokens_concat, membersBefore]

def Container.tokens : Container → List Token
  | .array before => .openArray :: itemsBefore before.reverse
  | .object before key => .openObject :: (membersBefore before.reverse ++ [.string key, .colon])

def outerTokens (outer : List Container) : List Token := outer.reverse.flatMap Container.tokens

theorem outerTokens_cons (c : Container) (outer : List Container) :
    outerTokens (c :: outer) = outerTokens outer ++ c.tokens := by
  simp [outerTokens]

namespace Place

/-- The tokens read so far. -/
def taken : Place → List Token
  | .value outer => outerTokens outer
  | .itemOrEnd outer => outerTokens outer ++ [.openArray]
  | .keyOrEnd outer => outerTokens outer ++ [.openObject]
  | .nextKey before outer => outerTokens outer ++ .openObject :: membersBefore before.reverse
  | .colon before key outer =>
    outerTokens outer ++ .openObject :: (membersBefore before.reverse ++ [.string key])
  | .after j outer => outerTokens outer ++ j.tokens

theorem taken_ofValueToken {p : Place} (h : ofValueToken outer t = some p) :
    p.taken = outerTokens outer ++ [t] := by
  cases t <;> cases h <;> rfl

theorem taken_next {p p' : Place} (h : p.next t = some p') : p'.taken = p.taken ++ [t] := by
  cases p with
  | value outer => exact taken_ofValueToken h
  | itemOrEnd outer =>
    by_cases hclose : t = .closeArray
    · subst hclose
      cases h
      simp [taken, tokens]
    · -- Any other token begins the first item.
      have hvalue : ofValueToken (.array [] :: outer) t = some p' := by
        cases t <;> first | exact h | exact absurd rfl hclose
      rw [taken_ofValueToken hvalue, outerTokens_cons]
      rfl
  | keyOrEnd outer => cases t <;> cases h <;> simp [taken, tokens, membersBefore]
  | nextKey before outer =>
    cases t <;> cases h
    simp [taken]
  | colon before key outer =>
    cases t <;> cases h
    simp [taken, outerTokens_cons, Container.tokens]
  | after j outer =>
    match outer with
    | [] => cases t <;> cases h
    | .array before :: outer =>
      cases t <;> cases h
      case closeArray => simp [taken, outerTokens_cons, Container.tokens, tokens_array]
      case comma => simp [taken, outerTokens_cons, Container.tokens, itemsBefore]
    | .object before key :: outer =>
      cases t <;> cases h
      case closeObject => simp [taken, outerTokens_cons, Container.tokens, tokens_object]
      case comma => simp [taken, outerTokens_cons, Container.tokens, membersBefore]

theorem taken_run {p p' : Place} (h : p.run ts = some p') : p'.taken = p.taken ++ ts := by
  induction ts generalizing p with
  | nil =>
    obtain rfl := Option.some.inj h
    simp
  | cons t ts ih =>
    rw [run] at h
    cases hnext : p.next t with
    | none => simp [hnext] at h
    | some next =>
      rw [hnext] at h
      rw [ih h, taken_next hnext, List.append_assoc, List.singleton_append]

end Place

theorem ofTokens?_tokens (j : Json) : ofTokens? j.tokens = some j := by
  have hrun := run_tokens j [] []
  rw [List.append_nil] at hrun
  rw [ofTokens?, hrun]
  rfl

theorem ofTokens?_eq_some_iff : ofTokens? ts = some j ↔ ts = j.tokens := by
  constructor
  · intro h
    obtain ⟨p, hrun, hresult⟩ := Option.bind_eq_some_iff.1 h
    have htaken := Place.taken_run hrun
    cases p with
    | after j' outer =>
      cases outer with
      | nil =>
        obtain rfl := Option.some.inj hresult
        simpa [Place.taken, outerTokens, eq_comm] using htaken
      | cons => simp [Place.result?] at hresult
    | _ => simp [Place.result?] at hresult
  · rintro rfl
    exact ofTokens?_tokens j

/-! ### Texts -/

/-- A text is read as a value if and only if the tokens of the value are laid out in it, with any
blanks around them and any escapes in its strings. -/
theorem read?_eq_some_iff {text : String} : read? text = some j ↔ LaidOut j.tokens text.toList := by
  rw [read?, Option.bind_eq_some_iff]
  constructor
  · rintro ⟨ts, htokens, hvalue⟩
    obtain rfl := ofTokens?_eq_some_iff.1 hvalue
    exact laidOut_of_tokens? htokens
  · exact fun h => ⟨j.tokens, tokens?_of_laidOut h (apart_tokens j), ofTokens?_tokens j⟩

/-! ### Written texts -/

theorem spellsCode_short {c d : Char} (hd : (c, d) ∈ shortEscapes) {e : Char} (he : e = d) :
    SpellsCode e.toNat ['\\', c] := he ▸ .short hd

theorem spellsCode_hex {p q r s : Nat} (hp : p < 16) (hq : q < 16) (hr : r < 16) (hs : s < 16) :
    SpellsCode (16 * (16 * (16 * p + q) + r) + s) ['\\', 'u', Text.hexChar p, Text.hexChar q,
      Text.hexChar r, Text.hexChar s] := by
  have hdigit {n : Nat} (hn : n < 16) :=
    (hexValue?_eq_some_iff.1 (Text.hexValue?_hexChar hn)).2
  have hhex := (((SpellsHex.nil.concat hp (hdigit hp)).concat hq (hdigit hq)).concat hr
    (hdigit hr)).concat hs (hdigit hs)
  simpa using SpellsCode.hex rfl hhex

theorem spellsCode_escape (c : Char) : SpellsCode c.toNat (escape c) := by
  unfold escape
  split_ifs with hquote hback hfeed hreturn htab hbackspace hform hlow
  · exact spellsCode_short (by decide) hquote
  · exact spellsCode_short (by decide) hback
  · exact spellsCode_short (by decide) hfeed
  · exact spellsCode_short (by decide) hreturn
  · exact spellsCode_short (by decide) htab
  · exact spellsCode_short (by decide) hbackspace
  · exact spellsCode_short (by decide) hform
  · have hcode := spellsCode_hex (p := 0) (q := 0) (r := c.toNat / 16) (s := c.toNat % 16)
      (by decide) (by decide) (by omega) (by omega)
    have hvalue : 16 * (16 * (16 * 0 + 0) + c.toNat / 16) + c.toNat % 16 = c.toNat := by omega
    rwa [hvalue] at hcode
  · exact .plain hquote hback (Nat.le_of_not_lt hlow)

theorem spellsCodes_escapes (cs : List Char) :
    SpellsCodes (cs.map Char.toNat) (cs.flatMap escape) := by
  induction cs with
  | nil => exact .nil
  | cons c cs ih => exact .cons (spellsCode_escape c) ih

theorem isTextOf_chars (cs : List Char) : IsTextOf (cs.map Char.toNat) cs := by
  induction cs with
  | nil => exact .nil
  | cons c cs ih => exact .char ih

theorem spells_stringChars (text : Option String) : Spells (.string text) (stringChars text) := by
  cases text with
  | none =>
    have hcode : SpellsCode 0xD800 ['\\', 'u', 'd', '8', '0', '0'] :=
      spellsCode_hex (p := 13) (q := 8) (r := 0) (s := 0) (by decide) (by decide) (by decide)
        (by decide)
    have hcodes : SpellsCodes [0xD800] ['\\', 'u', 'd', '8', '0', '0'] := .cons hcode .nil
    exact .string hcodes ((isText_iff hcodes.lt).2 rfl)
  | some s =>
    have hcodes := spellsCodes_escapes s.toList
    have htext := (textOfCodes_eq_some_iff hcodes.lt).2 (isTextOf_chars s.toList)
    refine .string hcodes ((isText_iff hcodes.lt).2 ?_)
    rw [htext, Option.map_some, String.ofList_toList]

theorem laidOut_nil : LaidOut [] [] := .nil isBlanks_nil

theorem laidOut_key {cs : List Char} (key : Option String) (h : LaidOut ts cs) :
    LaidOut (.string key :: .colon :: ts) (stringChars key ++ ':' :: cs) :=
  (LaidOut.token (spells_stringChars key)).append ((LaidOut.token .colon).append h)

mutual
theorem laidOut_chars : (j : Json) → j.IsSpelled → LaidOut j.tokens j.chars
  | .null, _ => .token .null
  | .boolean true, _ => .token .true
  | .boolean false, _ => .token .false
  | .number _, h => .token (.number (isNumber_iff.1 h))
  | .string text, _ => .token (spells_stringChars text)
  | .array [], _ => (LaidOut.token .openArray).append (.token .closeArray)
  | .array (j :: js), h =>
    (LaidOut.token .openArray).append (((laidOut_chars j h.1).append (laidOut_itemChars js h.2)).append
      (.token .closeArray))
  | .object [], _ => (LaidOut.token .openObject).append (.token .closeObject)
  | .object ((key, j) :: ms), h => by
    have hmember := (laidOut_key key (laidOut_chars j h.1)).append (laidOut_memberChars ms h.2)
    simpa [tokens, chars] using
      (LaidOut.token .openObject).append (hmember.append (.token .closeObject))

theorem laidOut_itemChars : (js : List Json) → AreSpelled js → LaidOut (itemTokens js) (itemChars js)
  | [], _ => laidOut_nil
  | j :: js, h =>
    (LaidOut.token .comma).append ((laidOut_chars j h.1).append (laidOut_itemChars js h.2))

theorem laidOut_memberChars : (ms : List (Option String × Json)) → MembersAreSpelled ms →
    LaidOut (memberTokens ms) (memberChars ms)
  | [], _ => laidOut_nil
  | (key, j) :: ms, h => by
    have hmember := laidOut_key key (laidOut_chars j h.1)
    simpa [memberTokens, memberChars] using
      (LaidOut.token .comma).append (hmember.append (laidOut_memberChars ms h.2))
end

theorem read?_text {j : Json} (h : j.IsSpelled) : read? j.text = some j := by
  rw [read?_eq_some_iff, text, String.toList_ofList]
  exact laidOut_chars j h

end PracticeShell.Json
