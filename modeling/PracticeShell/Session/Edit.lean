import PracticeShell.Session.Basic
/-! Changes to a session. An edit ends with a value or with an error, and leaves a session either
way; paths are already resolved, and `now` is the reading of the clock. -/
namespace PracticeShell

abbrev Edit := ExceptT FileError (StateM Session)

namespace Edit

def find (p : Path) : Edit Tree := do ofExcept ((← get).find p)

def directory (p : Path) : Edit Tree := do
  let t ← find p
  if t.isDirectory then return t else throw (.notADirectory p)

def change (p : Path) (f : Tree → Tree) : Edit Unit :=
  modify fun s => { s with root := s.root.update f p }

def guardDepth (p : Path) (height : Nat) : Edit Unit :=
  if Session.maxDepth < p.length + height then throw (.tooDeep p) else pure ()

def link (now : Instant) (p : Path) (t : Tree) : Edit Unit :=
  match p.parent?, p.name? with
  | some parent, some name => do
    if ((← directory parent).child? name).isSome then throw (.alreadyExists p)
    change parent fun d => (d.put name t).touch now
  | _, _ => throw (.alreadyExists p)

def unlink (now : Instant) (p : Path) : Edit Unit :=
  match p.parent?, p.name? with
  | some parent, some name => do
    if ((← directory parent).child? name).isNone then throw (.notFound p)
    change parent fun d => (d.remove name).touch now
  | _, _ => throw (.rootDirectory p)

/-- Moves the cursor to the parent of `removed` if it stood at or below it. -/
def leave (removed : Path) : Edit Unit :=
  modify fun s =>
    if s.cursor.isAtOrBelow removed then { s with cursor := removed.parent?.getD Path.root } else s

def enter (p : Path) : Edit Unit := do
  discard (directory p)
  modify fun s => { s with cursor := p }

/-- Makes every missing directory on the way down from `above`. -/
def createAll (now : Instant) (above : Path) : List String → Edit Unit
  | [] => pure ()
  | name :: rest => do
    if ((← directory above).child? name).isNone then
      change above fun d => (d.put name (Tree.emptyDirectory (Stamps.fresh now))).touch now
    createAll now (above.child name) rest

/-- Makes a directory where nothing is, its missing parents too if asked. -/
def createDirectory (now : Instant) (p : Path) (parents : Bool) : Edit Unit := do
  if ((← get).get? p).isSome then throw (.alreadyExists p)
  guardDepth p 0
  if parents then createAll now Path.root p
  else link now p (Tree.emptyDirectory (Stamps.fresh now))

/-- Makes an empty file, or brings the time of what is there up to date. -/
def touch (now : Instant) (p : Path) : Edit Unit := do
  if ((← get).get? p).isSome then change p (·.touch now)
  else
    guardDepth p 0
    link now p (Tree.file "" (Stamps.fresh now))

def write (now : Instant) (p : Path) (text : String) (mode : OpenMode) : Edit Unit := do
  match (← get).get? p with
  | some t =>
    if t.isDirectory then throw (.isADirectory p)
    change p fun t => (t.write mode text).touch now
  | none =>
    guardDepth p 0
    link now p (Tree.file text (Stamps.fresh now))

/-- Removes a node; a directory only if `recursive`. -/
def remove (now : Instant) (p : Path) (recursive : Bool) : Edit Unit := do
  if p.isEmpty then throw (.rootDirectory p)
  if (← find p).isDirectory && !recursive then throw (.isADirectory p)
  unlink now p
  leave p

/-- Where a node taken from `source` lands: in an existing directory under its own name, else at
`destination` itself. -/
def landing (source destination : Path) : Edit Path := do
  if (← get).isDirectory destination then
    match source.name? with
    | some name => return destination.child name
    | none => throw (.rootDirectory source)
  else return destination

/-- Puts a node at a path; only a file may take the place of a file. -/
def install (now : Instant) (p : Path) (t : Tree) : Edit Unit := do
  guardDepth p t.node.height
  match (← get).get? p with
  | none => link now p t
  | some old =>
    if t.isDirectory then throw (.alreadyExists p)
    if old.isDirectory then throw (.isADirectory p)
    unlink now p
    link now p t

/-- Copies a node with all below it, every node of the copy stamped `now`. Answers its path. -/
def copy (now : Instant) (source destination : Path) : Edit Path := do
  let t ← find source
  let p ← landing source destination
  if p = source then throw (.sameFile source p)
  install now p (t.withStamps (Stamps.fresh now))
  return p

/-- Moves a node with all below it, times unchanged. Answers its new path. -/
def move (now : Instant) (source destination : Path) : Edit Path := do
  if source.isEmpty then throw (.rootDirectory source)
  let t ← find source
  let p ← landing source destination
  if p = source then throw (.sameFile source p)
  if t.isDirectory && p.isAtOrBelow source then throw (.intoItself source p)
  install now p t
  unlink now source
  leave source
  return p

end Edit

end PracticeShell
