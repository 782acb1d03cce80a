import PracticeShell.Line.Token
import PracticeShell.Path
import PracticeShell.Time.Instant
import PracticeShell.Tree.Entries
/-! Nodes of the tree: files with a text, directories with named entries, each with two times.
`Ordered` says that the entries of every directory stand in the order of their names. -/
namespace PracticeShell

/-- When a node was made and when it last changed. -/
structure Stamps where
  created : Instant
  modified : Instant
deriving DecidableEq, Repr

namespace Stamps

def fresh (now : Instant) : Stamps := ⟨now, now⟩

def touch (now : Instant) (s : Stamps) : Stamps := { s with modified := now }

end Stamps

inductive Node where
  | file (content : String) (stamps : Stamps)
  | directory (entries : List (String × Node)) (stamps : Stamps)

namespace Node

def isDirectory : Node → Bool
  | .file .. => false
  | .directory .. => true

def stamps : Node → Stamps
  | .file _ s | .directory _ s => s

def content? : Node → Option String
  | .file c _ => some c
  | .directory .. => none

def entries? : Node → Option (Entries Node)
  | .file .. => none
  | .directory es _ => some es

/-- The bytes of a file's text; zero for a directory. -/
def size : Node → Nat
  | .file c _ => c.utf8ByteSize
  | .directory .. => 0

mutual
/-- The levels below a node: zero for a file and for an empty directory. -/
def height : Node → Nat
  | .file .. => 0
  | .directory es _ => heightOfEntries es

def heightOfEntries : List (String × Node) → Nat
  | [] => 0
  | (_, n) :: es => max (n.height + 1) (heightOfEntries es)
end

mutual
def withStamps (s : Stamps) : Node → Node
  | .file c _ => .file c s
  | .directory es _ => .directory (entriesWithStamps s es) s

def entriesWithStamps (s : Stamps) : List (String × Node) → List (String × Node)
  | [] => []
  | (name, n) :: es => (name, n.withStamps s) :: entriesWithStamps s es
end

mutual
/-- The node at `p` and all below it, a directory before its entries. -/
def preorder (p : Path) : Node → List (Path × Node)
  | .file c s => [(p, .file c s)]
  | .directory es s => (p, .directory es s) :: preorderOfEntries p es

def preorderOfEntries (p : Path) : List (String × Node) → List (Path × Node)
  | [] => []
  | (name, n) :: es => n.preorder (p.child name) ++ preorderOfEntries p es
end

def child? (name : String) : Node → Option Node
  | .file .. => none
  | .directory es _ => Entries.get? name es

/-- A directory with the entry added or replaced; a file stays as it is. -/
def put (n : Node) (name : String) (child : Node) : Node :=
  match n with
  | .file c s => .file c s
  | .directory es s => .directory (Entries.put name child es) s

def remove (name : String) : Node → Node
  | .file c s => .file c s
  | .directory es s => .directory (Entries.remove name es) s

def touch (now : Instant) : Node → Node
  | .file c s => .file c (s.touch now)
  | .directory es s => .directory es (s.touch now)

/-- A file with the text written to it; a directory stays as it is. -/
def write (mode : OpenMode) (text : String) : Node → Node
  | .file c s =>
    match mode with
    | .truncate => .file text s
    | .append => .file (c ++ text) s
  | .directory es s => .directory es s

mutual
def decEq : (m n : Node) → Decidable (m = n)
  | .file c s, .file d t =>
    if h : c = d ∧ s = t then isTrue (by rw [h.1, h.2])
    else isFalse fun e => h (by cases e; exact ⟨rfl, rfl⟩)
  | .directory es s, .directory fs t =>
    match decEqEntries es fs with
    | isTrue he =>
      if hs : s = t then isTrue (by rw [he, hs]) else isFalse fun e => hs (by cases e; rfl)
    | isFalse he => isFalse fun e => he (by cases e; rfl)
  | .file .., .directory .. => isFalse nofun
  | .directory .., .file .. => isFalse nofun

def decEqEntries : (es fs : List (String × Node)) → Decidable (es = fs)
  | [], [] => isTrue rfl
  | (a, m) :: es, (b, n) :: fs =>
    match decEq m n, decEqEntries es fs with
    | isTrue hn, isTrue hs =>
      if h : a = b then isTrue (by rw [h, hn, hs]) else isFalse fun e => h (by cases e; rfl)
    | isFalse hn, _ => isFalse fun e => hn (by cases e; rfl)
    | _, isFalse hs => isFalse fun e => hs (by cases e; rfl)
  | [], _ :: _ => isFalse nofun
  | _ :: _, [] => isFalse nofun
end

instance : DecidableEq Node := decEq

mutual
def Ordered : Node → Prop
  | .file .. => True
  | .directory es _ => Entries.Sorted es ∧ OrderedEntries es

def OrderedEntries : List (String × Node) → Prop
  | [] => True
  | (_, n) :: es => n.Ordered ∧ OrderedEntries es
end

theorem orderedEntries_iff {es : List (String × Node)} :
    OrderedEntries es ↔ ∀ e ∈ es, e.2.Ordered := by
  induction es with
  | nil => simp [OrderedEntries]
  | cons e es ih => simp [OrderedEntries, ih]

theorem Ordered.child {n c : Node} {name : String} (h : n.Ordered) (hc : n.child? name = some c) :
    c.Ordered := by
  cases n with
  | file => simp [child?] at hc
  | directory es s => exact orderedEntries_iff.1 h.2 _ (Entries.mem_of_get? hc)

theorem Ordered.put {n c : Node} (h : n.Ordered) (hc : c.Ordered) (name : String) :
    (n.put name c).Ordered := by
  cases n with
  | file => trivial
  | directory es s =>
    refine ⟨h.1.put name c, orderedEntries_iff.2 fun e he => ?_⟩
    obtain rfl | he := Entries.mem_put he
    · exact hc
    · exact orderedEntries_iff.1 h.2 e he

theorem Ordered.remove {n : Node} (h : n.Ordered) (name : String) : (n.remove name).Ordered := by
  cases n with
  | file => trivial
  | directory es s =>
    exact ⟨h.1.remove name,
      orderedEntries_iff.2 fun e he => orderedEntries_iff.1 h.2 e (Entries.mem_of_mem_remove he)⟩

theorem Ordered.touch {n : Node} (h : n.Ordered) (now : Instant) : (n.touch now).Ordered := by
  cases n <;> exact h

theorem Ordered.write {n : Node} (h : n.Ordered) (mode : OpenMode) (text : String) :
    (n.write mode text).Ordered := by
  cases n with
  | file => cases mode <;> trivial
  | directory => exact h

theorem entriesWithStamps_eq_map (s : Stamps) (es : List (String × Node)) :
    entriesWithStamps s es = es.map fun e => (e.1, e.2.withStamps s) := by
  induction es with
  | nil => rfl
  | cons e es ih => simp [entriesWithStamps, ih]

mutual
theorem Ordered.withStamps {s : Stamps} : {n : Node} → n.Ordered → (n.withStamps s).Ordered
  | .file .., _ => trivial
  | .directory es _, h => by
    refine ⟨?_, OrderedEntries.withStamps h.2⟩
    rw [entriesWithStamps_eq_map]
    exact List.pairwise_map.2 h.1

theorem OrderedEntries.withStamps {s : Stamps} : {es : List (String × Node)} →
    OrderedEntries es → OrderedEntries (entriesWithStamps s es)
  | [], _ => trivial
  | _ :: _, h => ⟨Ordered.withStamps h.1, OrderedEntries.withStamps h.2⟩
end

end Node

end PracticeShell
