import PracticeShell.Durable
import PracticeShell.Proofs.Json.RoundTrip
import PracticeShell.Proofs.Session.Soundness
import PracticeShell.Proofs.Time.Rfc3339

/-! A sound session is decoded from its own durable form. The text is read as the value that was
written, the value as the envelope of the session, and the checks of the envelope ask for no more
than soundness. -/
namespace PracticeShell

namespace Durable

theorem textOf?_ofText (text : String) : textOf? (.ofText text) = some text := rfl

theorem instant?_ofText (t : Instant) : instant? (.ofText t.text) = some t := by
  rw [instant?, textOf?_ofText, Option.bind_some, Instant.read?_text]

theorem stamps?_toJson (s : Stamps) : stamps? s.toJson = some s := by
  have hread (created modified : Json) :
      stamps? (.ofMembers [("created_at", created), ("modified_at", modified)]) =
        (instant? created).bind fun c => (instant? modified).bind fun m => some ⟨c, m⟩ := rfl
  rw [Stamps.toJson, hread, instant?_ofText, Option.bind_some, instant?_ofText, Option.bind_some]

mutual
theorem tree?_toJson (belowRoot : Bool) : (n : Node) → (h : n.Ordered) →
    tree? belowRoot n.toJson = some ⟨n, h⟩
  | .file content s, h => by
    have hread (content times : Json) :
        tree? belowRoot (.ofMembers [("type", .ofText "file"), ("content", content),
          ("meta", times)]) =
        (textOf? content).bind fun c => (stamps? times).bind fun s => some (Tree.file c s) := rfl
    rw [Node.toJson, hread, textOf?_ofText, Option.bind_some, stamps?_toJson, Option.bind_some]
    rfl
  | .directory es s, h => by
    obtain ⟨ts, hts, hes⟩ := entries?_toJson es h.2
    have hread (members : List (Option String × Json)) (times : Json) :
        tree? belowRoot (.ofMembers [("type", .ofText "directory"), ("children", .object members),
          ("meta", times)]) =
        (entries? members).bind fun ts => (stamps? times).bind fun s =>
          some (Tree.directory ts s) := rfl
    have hsorted : ts.Pairwise fun a b => a.1 < b.1 := by
      have hs : Entries.Sorted es := h.1
      rw [← hes, Entries.Sorted, List.pairwise_map] at hs
      exact hs
    rw [Node.toJson, hread, hts, Option.bind_some, stamps?_toJson, Option.bind_some, Option.some_inj,
      Tree.ext_iff, Tree.node_directory s hsorted, hes]

theorem entries?_toJson : (es : List (String × Node)) → Node.OrderedEntries es →
    ∃ ts, entries? (Node.entriesToJson es) = some ts ∧ (ts.map fun e => (e.1, e.2.node)) = es
  | [], _ => ⟨[], rfl, rfl⟩
  | (name, n) :: es, h => by
    obtain ⟨ts, hts, hes⟩ := entries?_toJson es h.2
    refine ⟨(name, ⟨n, h.1⟩) :: ts, ?_, by simp [hes]⟩
    simp [Node.entriesToJson, entries?, tree?_toJson true n h.1, hts]
end

theorem textsOf?_array (texts : List String) :
    textsOf? (.array (texts.map .ofText)) = some texts := by
  rw [textsOf?]
  induction texts with
  | nil => rfl
  | cons text texts ih =>
    rw [List.map_cons, List.mapM_cons, textOf?_ofText, ih]
    rfl

/-! ### Shape of the written value -/

theorem isSpelled_stamps (s : Stamps) : s.toJson.IsSpelled := ⟨trivial, trivial, trivial⟩

mutual
theorem isSpelled_node : (n : Node) → n.toJson.IsSpelled
  | .file _ s => ⟨trivial, trivial, isSpelled_stamps s, trivial⟩
  | .directory es s => ⟨trivial, membersAreSpelled_entries es, isSpelled_stamps s, trivial⟩

theorem membersAreSpelled_entries : (es : List (String × Node)) →
    Json.MembersAreSpelled (Node.entriesToJson es)
  | [] => trivial
  | (_, n) :: es => ⟨isSpelled_node n, membersAreSpelled_entries es⟩
end

theorem areSpelled_texts (texts : List String) : Json.AreSpelled (texts.map .ofText) := by
  induction texts with
  | nil => trivial
  | cons text texts ih => exact ⟨trivial, ih⟩

theorem isSpelled_session (s : Session) : s.toJson.IsSpelled :=
  have hversion : Json.isNumber (Text.decimal version) = true := by decide
  ⟨hversion, isSpelled_node _, areSpelled_texts _, areSpelled_texts _, trivial⟩

theorem isSound_ofText (text : String) (depth : Nat) :
    (Json.ofText text).isSound depth = true := rfl

theorem isSound_ofMembers {depth : Nat} {members : List (String × Json)} (hd : 0 < depth)
    (h : ∀ m ∈ members, m.2.isSound (depth - 1) = true) :
    (Json.ofMembers members).isSound depth = true := by
  have hmembers : ∀ (ms : List (String × Json)), (∀ m ∈ ms, m.2.isSound (depth - 1) = true) →
      Json.membersAreSound (depth - 1) (ms.map fun m => (some m.1, m.2)) = true := by
    intro ms
    induction ms with
    | nil => exact fun _ => rfl
    | cons m ms ih =>
      intro h
      obtain ⟨hm, hms⟩ := List.forall_mem_cons.1 h
      simp [Json.membersAreSound, hm, ih hms]
  simp [Json.ofMembers, Json.isSound, hd, hmembers members h]

theorem isSound_texts (texts : List String) {depth : Nat} (hd : 0 < depth) :
    (Json.array (texts.map .ofText)).isSound depth = true := by
  have htexts : Json.areSound (depth - 1) (texts.map .ofText) = true := by
    induction texts with
    | nil => rfl
    | cons text texts ih => simp [Json.areSound, isSound_ofText, ih]
  simp [Json.isSound, hd, htexts]

theorem isSound_stamps (s : Stamps) {depth : Nat} (hd : 0 < depth) :
    s.toJson.isSound depth = true :=
  isSound_ofMembers hd (by simp [isSound_ofText])

mutual
/-- A level of the tree is an object for a node and one for its entries. -/
theorem isSound_node : (n : Node) → (depth : Nat) → 2 * n.height + 2 ≤ depth →
    n.toJson.isSound depth = true
  | .file content s, depth, h => by
    have hs := isSound_stamps s (by omega : 0 < depth - 1)
    exact isSound_ofMembers (by omega) (by simp [isSound_ofText, hs])
  | .directory es s, depth, h => by
    rw [Node.height] at h
    have hs := isSound_stamps s (by omega : 0 < depth - 1)
    have hes := membersAreSound_entries es (depth - 1 - 1) (by omega)
    have hchildren : (Json.object (Node.entriesToJson es)).isSound (depth - 1) = true := by
      simp [Json.isSound, hes]
      omega
    exact isSound_ofMembers (by omega) (by simp [isSound_ofText, hs, hchildren])

theorem membersAreSound_entries : (es : List (String × Node)) → (depth : Nat) →
    2 * Node.heightOfEntries es ≤ depth → Json.membersAreSound depth (Node.entriesToJson es) = true
  | [], _, _ => rfl
  | (_, n) :: es, depth, h => by
    rw [Node.heightOfEntries] at h
    have hn := isSound_node n depth (by omega)
    have hes := membersAreSound_entries es depth (by omega)
    simp [Node.entriesToJson, Json.membersAreSound, hn, hes]
end

theorem ofJson?_toJson {s : Session} (h : 2 * s.root.node.height + 2 ≤ maxNesting) :
    Envelope.ofJson? s.toJson = some ⟨version, s.root, s.cursor, s.history⟩ := by
  have hversion : version? (.ofNat version) = some version := by decide
  have hnumber : (Json.ofNat version).isSound maxNesting = true := by decide +kernel
  have hroot := isSound_node s.root.node maxNesting h
  have hcursor := isSound_texts s.cursor (by decide : 0 < maxNesting)
  have hhistory := isSound_texts s.history (by decide : 0 < maxNesting)
  have hpart (a b c d : Json) :
      Envelope.ofJson? (.ofMembers [("version", a), ("root", b), ("cwd", c), ("history", d)]) =
        Envelope.ofParts? a b c (some d) := rfl
  rw [Session.toJson, hpart]
  simp only [Envelope.ofParts?, hversion, tree?_toJson false _ s.root.ordered, textsOf?_array]
  have hall : ([Json.ofNat version, s.root.node.toJson, Json.array (s.cursor.map .ofText)] ++
      (some (Json.array (s.history.map .ofText))).toList).all (Json.isSound maxNesting) = true := by
    simp [hnumber, hroot, hcursor, hhistory]
  rw [(Option.guard_eq_some' ()).2 hall]
  rfl

end Durable

namespace Session
open Durable

theorem decode_of_sound {s : Session} (h : s.Sound) : decode s.encode = .ok s := by
  have hheight : s.root.node.height ≤ maxDepth := h.fits.height_le
  have hread : Envelope.read? s.encode = some ⟨version, s.root, s.cursor, s.history⟩ := by
    rw [Envelope.read?, encode, Json.read?_text (isSpelled_session s), Option.bind_some]
    refine ofJson?_toJson ?_
    simp only [maxDepth] at hheight
    simp only [maxNesting]
    omega
  rw [decode, hread]
  exact Envelope.session_eq_ok_iff.2 ⟨rfl, h.root, h.fits, rfl, h.cursor⟩

/-- A session that lines led to is decoded from its durable form with its tree, times, cursor and
history. -/
theorem Reached.decode_encode {s : Session} (h : s.Reached) :
    decode s.encode = .ok s ∧ ∀ now, restore now s.encode = s := by
  have hdecode := decode_of_sound h.sound
  refine ⟨hdecode, fun now => ?_⟩
  rw [restore, hdecode]

theorem decode_encode_after_copy :
    let s := ((runLine Instant.epoch "cp -r documents projects").run (seeded Instant.epoch)).2
    (decode s.encode = .ok s ∧ ∀ now, restore now s.encode = s) ∧
      s.contains "projects/documents/notes.md" = true := by
  refine ⟨Reached.decode_encode (.line _ _ (.seeded _)), ?_⟩
  decide +kernel

end Session

end PracticeShell
