import PracticeShell.Terminal.Options
import Mathlib.Data.List.TakeWhile

/-! Options written as arguments, and read back. An argument can carry the value of its option, or the
value can be the next argument; both come to the same. -/
namespace PracticeShell.Options
variable {o o' : Options} {k : Key} {value : String} {rest : List String}

def Key.name : Key → String
  | .line => "command"
  | .stateFile => "state"
  | .configFile => "config"
  | .logLevel => "log-level"

def Key.option (k : Key) : String := "--" ++ k.name

def Key.arg (k : Key) (value : String) : String := k.option ++ "=" ++ value

/-- An argument that cannot be taken for an option. -/
def IsValue (arg : String) : Prop := ∀ c cs, arg.toList ≠ '-' :: c :: cs

theorem longName?_name (k : Key) : longName? k.name = some (.key k) := by
  cases k <;> rfl

theorem splitAttached_attached (k : Key) (value : List Char) :
    splitAttached (k.name.toList ++ '=' :: value) = (k.name, some (String.ofList value)) := by
  have hname : ∀ c ∈ k.name.toList, (c != '=') = true := by
    rw [← List.all_eq_true]
    cases k <;> decide
  have htake : (k.name.toList ++ '=' :: value).takeWhile (· != '=') = k.name.toList := by
    rw [List.takeWhile_append_of_pos hname]
    simp
  rw [splitAttached, htake, List.drop_left]
  simp

/-! ### One argument -/

theorem takeArgument_option (o : Options) (pending : Pending) (k : Key) :
    o.takeArgument pending k.option = o.take pending (.key k) none := by
  cases k <;> rfl

theorem takeArgument_arg (o : Options) (pending : Pending) (k : Key) (value : String) :
    o.takeArgument pending (k.arg value) = o.take pending (.key k) (some value) := by
  have harg : (k.arg value).toList = '-' :: '-' :: (k.name.toList ++ '=' :: value.toList) := by
    simp [Key.arg, Key.option]
  unfold takeArgument
  simp only [harg, splitAttached_attached, longName?_name, String.ofList_toList]

theorem takeArgument_value (hvalue : IsValue value) :
    o.takeArgument (some (k, none)) value = .ok (o, some (k, some value)) := by
  unfold takeArgument
  split
  · next cs h => exact absurd h (hvalue _ _)
  · next cs _ h => exact absurd h (hvalue _ _)
  · next cs h => exact absurd h (hvalue _ _)
  · next cs h => exact absurd h (hvalue _ _)
  · next c cs _ _ _ _ h => exact absurd h (hvalue _ _)
  · rfl

/-! ### Arguments in turn -/

theorem readFrom_cons {pending : Pending} {arg : String} (hne : arg ≠ "--") (rest : List String) :
    o.readFrom pending (arg :: rest) =
      (o.takeArgument pending arg).bind fun taken => readFrom taken.1 taken.2 rest := by
  rw [readFrom]
  · rfl
  · exact hne

theorem arg_ne (k : Key) (value : String) : k.arg value ≠ "--" := by
  intro h
  have hlength := congrArg (fun s => s.toList.length) h
  cases k <;> simp [Key.arg, Key.option, Key.name] at hlength

theorem option_ne (k : Key) : k.option ≠ "--" := by
  cases k <;> decide

theorem settle_pending (h : o.set k value = .ok o') :
    o.settle (some (k, some value)) = o'.settle none := h

theorem takeArgument_pending (h : o.set k value = .ok o') (arg : String) :
    o.takeArgument (some (k, some value)) arg = o'.takeArgument none arg := by
  have htake (name : Name) (attached : Option String) :
      o.take (some (k, some value)) name attached = o'.take none name attached := by
    cases name <;> cases attached <;> simp [take, settle_pending h]
  simp only [takeArgument, htake]

/-- A value may as well be set before the next argument is read. -/
theorem readFrom_pending (h : o.set k value = .ok o') (args : List String) :
    o.readFrom (some (k, some value)) args = o'.readFrom none args := by
  cases args with
  | nil => exact settle_pending h
  | cons arg rest =>
    by_cases hdashes : arg = "--"
    · subst hdashes
      simp only [readFrom, settle_pending h]
    · rw [readFrom_cons hdashes, readFrom_cons hdashes, takeArgument_pending h]

theorem readFrom_arg (h : o.set k value = .ok o') (rest : List String) :
    o.readFrom none (k.arg value :: rest) = o'.readFrom none rest := by
  have htake : o.take none (.key k) (some value) = .ok (o', none) := by
    simp [take, settle, h, bind, Except.bind, pure, Except.pure]
  rw [readFrom_cons (arg_ne k value), takeArgument_arg, htake]
  rfl

theorem readFrom_option (h : o.set k value = .ok o') (hvalue : IsValue value) (rest : List String) :
    o.readFrom none (k.option :: value :: rest) = o.readFrom none (k.arg value :: rest) := by
  have htake : o.take none (.key k) none = .ok (o, some (k, none)) := rfl
  have hdashes : value ≠ "--" := by
    rintro rfl
    exact hvalue '-' [] rfl
  rw [readFrom_arg h, readFrom_cons (option_ne k), takeArgument_option, htake]
  change o.readFrom (some (k, none)) (value :: rest) = _
  rw [readFrom_cons hdashes, takeArgument_value hvalue]
  exact readFrom_pending h rest

theorem setOnce_again {old new : Option String} {mayBeEmpty : Bool} {other : String}
    (h : setOnce old mayBeEmpty value = .ok new) :
    setOnce new mayBeEmpty other = .error .argumentConflict := by
  rw [setOnce] at h
  split at h
  · simp at h
  split at h
  · simp at h
  · rw [← Except.ok.inj h]
    rfl

theorem exists_of_bind_ok {α β : Type} {x : Except Stop α} {f : α → β} {b : β}
    (h : (do return f (← x)) = Except.ok b) : ∃ a, x = .ok a ∧ f a = b := by
  cases x with
  | error stop => simp [bind, Except.bind] at h
  | ok a => exact ⟨a, rfl, Except.ok.inj h⟩

/-- Only lines can be given more than once. -/
theorem set_again {other : String} (hk : k ≠ .line) (h : o.set k value = .ok o') :
    o'.set k other = .error .argumentConflict := by
  cases k with
  | line => exact absurd rfl hk
  | stateFile | configFile | logLevel =>
    obtain ⟨new, hset, rfl⟩ := exists_of_bind_ok h
    simp [set, setOnce_again hset, bind, Except.bind]

/-! ### All options -/

def args (o : Options) : List String :=
  o.lines.map Key.line.arg ++ o.stateFile.toList.map Key.stateFile.arg ++
    (if o.json then ["--json"] else []) ++ o.configFile.toList.map Key.configFile.arg ++
    o.logLevel.toList.map Key.logLevel.arg

theorem readFrom_lines (o : Options) (lines rest : List String) :
    o.readFrom none (lines.map Key.line.arg ++ rest) =
      { o with lines := o.lines ++ lines }.readFrom none rest := by
  induction lines generalizing o with
  | nil => simp
  | cons line lines ih =>
    rw [List.map_cons, List.cons_append, readFrom_arg rfl, ih]
    simp

theorem readFrom_given {given : Option String} (hset : ∀ v ∈ given, o.set k v = .ok o')
    (hnone : given = none → o = o') (rest : List String) :
    o.readFrom none (given.toList.map k.arg ++ rest) = o'.readFrom none rest := by
  cases given with
  | none => rw [hnone rfl]; rfl
  | some v => exact readFrom_arg (hset v rfl) rest

theorem readFrom_json (h : o.json = false) (json : Bool) (rest : List String) :
    o.readFrom none ((if json then ["--json"] else []) ++ rest) = { o with json }.readFrom none rest := by
  cases json with
  | false =>
    obtain ⟨lines, stateFile, json, configFile, logLevel⟩ := o
    obtain rfl : json = false := h
    rfl
  | true =>
    have htake : o.takeArgument none "--json" = .ok ({ o with json := true }, none) := by
      simp [takeArgument, splitAttached, longName?, take, settle, h, bind, Except.bind, pure,
        Except.pure]
    exact (readFrom_cons (by decide) rest).trans (by rw [htake]; rfl)

theorem setOnce_none {mayBeEmpty : Bool} (h : value ≠ "" ∨ mayBeEmpty = true) :
    setOnce none mayBeEmpty value = .ok (some value) := by
  rw [setOnce, if_neg (by simp), if_neg (by simpa [← Bool.not_eq_true, or_iff_not_imp_left] using h)]

/-- Options are read as they were written, if no file has the empty name. -/
theorem read_args (hstate : o.stateFile ≠ some "") (hconfig : o.configFile ≠ some "") :
    read o.args = .ok o := by
  obtain ⟨lines, stateFile, json, configFile, logLevel⟩ := o
  have honce {given : Option String} {mayBeEmpty : Bool} (h : given ≠ some "" ∨ mayBeEmpty = true) :
      ∀ v ∈ given, setOnce none mayBeEmpty v = .ok given := by
    rintro v rfl
    exact setOnce_none (h.imp_left fun hne hv => hne (congrArg some hv))
  let named : Options := { lines, stateFile }
  have hnamed : ∀ v ∈ stateFile, ({ lines } : Options).set .stateFile v = .ok named := by
    intro v hv
    rw [set, honce (.inl hstate) v hv]
    rfl
  let configured : Options := { lines, stateFile, json, configFile }
  have hconfigured : ∀ v ∈ configFile, { named with json }.set .configFile v = .ok configured := by
    intro v hv
    rw [set, honce (.inl hconfig) v hv]
    rfl
  have hlevel : ∀ v ∈ logLevel, configured.set .logLevel v = .ok { configured with logLevel } := by
    intro v hv
    rw [set, honce (.inr rfl) v hv]
    rfl
  simp only [read, args, List.append_assoc]
  rw [← List.append_nil (logLevel.toList.map _), readFrom_lines]
  calc
    _ = named.readFrom none _ := readFrom_given hnamed (by rintro rfl; rfl) _
    _ = { named with json }.readFrom none _ := readFrom_json rfl json _
    _ = configured.readFrom none _ := readFrom_given hconfigured (by rintro rfl; rfl) _
    _ = { configured with logLevel }.readFrom none [] := readFrom_given hlevel (by rintro rfl; rfl) _
    _ = .ok { configured with logLevel } := rfl

end PracticeShell.Options
