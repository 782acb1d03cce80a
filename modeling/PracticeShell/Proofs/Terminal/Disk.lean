import PracticeShell.Terminal.Disk

/-! What is written to a file is read back, and more can be written there. The null device is no such
file: it takes every text and keeps none. -/
namespace PracticeShell.Disk
variable {d d' : Disk} {name text : String} {p base : Location}

def Keeps (d : Disk) (name : String) : Prop :=
  ∀ text, ∃ d', d.write name text = .ok d' ∧ d'.read name = .ok text

theorem isDirectory_congr (h : d'.directories = d.directories) (p : Location) :
    d'.isDirectory p = d.isDirectory p := by
  rw [isDirectory, isDirectory, h]

theorem walk_of_directories (h : d'.directories = d.directories) {parts : List String}
    (hw : d.walk base parts = .ok p) : d'.walk base parts = .ok p := by
  induction parts generalizing base with
  | nil => exact hw
  | cons part rest ih =>
    rw [walk] at hw ⊢
    rw [isDirectory_congr h]
    split at hw
    · simp at hw
    · next hdir =>
      rw [if_neg hdir]
      split at hw
      · simp at hw
      · next hlong =>
        rw [if_neg hlong]
        exact ih hw

theorem locate_of_directories (h : d'.directories = d.directories) {name : List Char}
    (hl : d.locate name = .ok p) : d'.locate name = .ok p := by
  rw [locate] at hl ⊢
  split at hl
  · simp at hl
  · next hne =>
    rw [if_neg hne]
    exact walk_of_directories h hl

theorem target_eq_ok_iff : d.target name = .ok p ↔ checkName name = .ok () ∧
    Text.endsWith name '/' = false ∧ d.locate name.toList = .ok p ∧ d.isDirectory p = false := by
  rw [target]
  cases hcheck : checkName name with
  | error e => simp [bind, Except.bind]
  | ok u =>
    cases hslash : Text.endsWith name '/' with
    | true =>
      simp only [bind, Except.bind, if_true]
      cases hl : d.locate (upToLastPart name.toList ++ ['.']) <;>
        simp [discard, Functor.mapConst, Except.map, throw, throwThe, MonadExceptOf.throw]
    | false =>
      cases hl : d.locate name.toList with
      | error e => simp [bind, Except.bind]
      | ok q =>
        cases hdir : d.isDirectory q with
        | true =>
          have hp : q = p → d.isDirectory p = true := fun he => he ▸ hdir
          simpa [bind, Except.bind, hdir, throw, throwThe, MonadExceptOf.throw] using hp
        | false =>
          have hp : q = p → d.isDirectory p = false := fun he => he ▸ hdir
          simpa [bind, Except.bind, pure, Except.pure, hdir] using hp

theorem read_of_locate (hcheck : checkName name = .ok ()) (hl : d.locate name.toList = .ok p)
    (hdir : d.isDirectory p = false) (hf : d.file? p = some text) : d.read name = .ok text := by
  rw [read, hcheck]
  simp only [bind, Except.bind, hl, hdir, hf, pure, Except.pure]
  rfl

theorem write_of_target (hp : d.target name = .ok p) : d.write name text = .ok
    (if p = Location.nullDevice then d
      else { d with files := (p, text) :: d.files.filter fun f => f.1 ≠ p }) := by
  rw [write, hp]
  simp only [bind, Except.bind, pure, Except.pure]
  split <;> rfl

theorem target_of_write (hw : d.write name text = .ok d') : ∃ p, d.target name = .ok p := by
  cases hp : d.target name with
  | ok p => exact ⟨p, rfl⟩
  | error e => simp [write, hp, bind, Except.bind] at hw

theorem read_write (hp : d.target name = .ok p) (hnull : p ≠ Location.nullDevice)
    (hw : d.write name text = .ok d') : d'.read name = .ok text ∧ d'.target name = .ok p := by
  have hd' : d' = { d with files := (p, text) :: d.files.filter fun f => f.1 ≠ p } := by
    rw [write_of_target hp, if_neg hnull] at hw
    exact (Except.ok.inj hw).symm
  have hsame : d'.directories = d.directories := by rw [hd']
  have hfile : d'.file? p = some text := by simp [hd', file?, hnull]
  obtain ⟨hcheck, hslash, hl, hdir⟩ := target_eq_ok_iff.1 hp
  have hl' := locate_of_directories hsame hl
  rw [← isDirectory_congr hsame] at hdir
  exact ⟨read_of_locate hcheck hl' hdir hfile, target_eq_ok_iff.2 ⟨hcheck, hslash, hl', hdir⟩⟩

theorem keeps_iff : d.Keeps name ↔ ∃ p, d.target name = .ok p ∧ p ≠ Location.nullDevice := by
  constructor
  · intro h
    obtain ⟨d₁, hw, hr⟩ := h "a"
    obtain ⟨p, hp⟩ := target_of_write hw
    refine ⟨p, hp, ?_⟩
    rintro rfl
    obtain ⟨d₂, hw', hr'⟩ := h "b"
    rw [write_of_target hp, if_pos rfl] at hw hw'
    obtain rfl := Except.ok.inj hw
    obtain rfl := Except.ok.inj hw'
    rw [hr] at hr'
    simp at hr'
  · rintro ⟨p, hp, hnull⟩ text
    have hw : d.write name text = .ok _ := write_of_target hp
    exact ⟨_, hw, (read_write hp hnull hw).1⟩

theorem Keeps.write (h : d.Keeps name) (hw : d.write name text = .ok d') :
    d'.Keeps name ∧ d'.read name = .ok text := by
  obtain ⟨p, hp, hnull⟩ := keeps_iff.1 h
  obtain ⟨hread, htarget⟩ := read_write hp hnull hw
  exact ⟨keeps_iff.2 ⟨p, htarget, hnull⟩, hread⟩

end PracticeShell.Disk
