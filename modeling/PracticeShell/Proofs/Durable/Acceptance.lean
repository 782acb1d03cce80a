import PracticeShell.Proofs.Session.Soundness

/-! The durable forms that are read back: those of well-formed sessions, and no others. What the
check of a tree asks level by level is said here of the whole tree at once. -/
namespace PracticeShell

/-- What decoding checks of a session. -/
structure Session.WellFormed (s : Session) : Prop where
  root : s.root.isDirectory = true
  names : ∀ above name, (s.get? (Path.child above name)).isSome →
    name ≠ "" ∧ '/' ∉ name.toList ∧ name ≠ "." ∧ name ≠ ".."
  height : s.root.node.height ≤ maxDepth
  cursor : ∃ d, s.find s.cursor = .ok d ∧ d.isDirectory = true

theorem Path.isValidName_iff {name : String} : isValidName name = true ↔
    name ≠ "" ∧ '/' ∉ name.toList ∧ name ≠ "." ∧ name ≠ ".." := by
  simp only [isValidName, Bool.and_eq_true, decide_eq_true_eq, Bool.not_eq_true',
    List.contains_eq_mem, decide_eq_false_iff_not]
  tauto

namespace Tree
variable {t : Tree} {p : Path} {k : Nat}

theorem allValid_of_children (h : ∀ above name, (t.get? (Path.child above name)).isSome →
    Path.isValidName name = true) (hp : (t.get? p).isSome) : p.AllValid := by
  intro name hn
  obtain ⟨above, below, rfl⟩ := List.append_of_mem hn
  have hstarts : Path.child above name <+: above ++ name :: below := ⟨below, by simp [Path.child]⟩
  have hs := isSome_get?_of_prefix hstarts hp
  exact h above name hs

theorem fits_iff_names_height : t.Fits k ↔
    (∀ above name, (t.get? (Path.child above name)).isSome → Path.isValidName name = true) ∧
      t.node.height ≤ k := by
  constructor
  · intro h
    refine ⟨fun above name hs => ?_, h.height_le⟩
    exact (h _ hs).1 name (List.mem_append_right above (List.mem_singleton_self name))
  · rintro ⟨hnames, hheight⟩ p hp
    exact ⟨allValid_of_children hnames hp, Nat.le_trans (length_le_height hp) hheight⟩

end Tree

namespace Session
variable {s : Session}

theorem sound_iff_wellFormed : s.Sound ↔ s.WellFormed := by
  have hcursor : s.isDirectory s.cursor = true ↔
      ∃ d, s.find s.cursor = .ok d ∧ d.isDirectory = true := by
    rw [isDirectory_iff, Tree.content?_eq_some_none_iff]
    exact exists_congr fun d => and_congr_left' Tree.find_eq_ok_iff.symm
  have hfits : s.root.Fits maxDepth ↔
      (∀ above name, (s.get? (Path.child above name)).isSome →
        name ≠ "" ∧ '/' ∉ name.toList ∧ name ≠ "." ∧ name ≠ "..") ∧
      s.root.node.height ≤ maxDepth := by
    rw [Tree.fits_iff_names_height]
    exact and_congr_left' (forall₂_congr fun _ _ => imp_congr_right fun _ => Path.isValidName_iff)
  constructor
  · intro h
    obtain ⟨hnames, hheight⟩ := hfits.1 h.fits
    exact ⟨h.root, hnames, hheight, hcursor.1 h.cursor⟩
  · intro h
    exact ⟨h.root, hfits.2 ⟨h.names, h.height⟩, hcursor.2 h.cursor⟩

theorem restore_sound (now : Instant) (text : String) : (restore now text).Sound := by
  rw [restore]
  split
  · next h => exact Sound.decoded h
  · exact Sound.seeded now

/-- A text is decoded exactly if it holds an envelope of version 1 with a well-formed session. What
is restored from any text is well-formed. -/
theorem decode_eq_ok_iff_wellFormed (text : String) :
    (∀ s, decode text = .ok s ↔ ∃ e, Durable.Envelope.read? text = some e ∧ e.version = 1 ∧
      s = ⟨e.root, e.cursor, e.history⟩ ∧ s.WellFormed) ∧
    ∀ now, (restore now text).WellFormed := by
  refine ⟨fun s => ?_, fun now => sound_iff_wellFormed.1 (restore_sound now text)⟩
  rw [decode]
  cases hread : Durable.Envelope.read? text with
  | none => simp
  | some e =>
    simp only [Option.some_inj, exists_eq_left', Durable.Envelope.session_eq_ok_iff]
    constructor
    · rintro ⟨hversion, hroot, hfits, rfl, hcursor⟩
      exact ⟨hversion, rfl, sound_iff_wellFormed.1 ⟨hroot, hfits, hcursor⟩⟩
    · rintro ⟨hversion, rfl, h⟩
      have hs := sound_iff_wellFormed.2 h
      exact ⟨hversion, hs.root, hs.fits, rfl, hs.cursor⟩

end Session

end PracticeShell
