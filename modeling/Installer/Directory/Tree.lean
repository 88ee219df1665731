import Installer.Package.Basic
import Installer.Violation

/-!
# The tree of install locations

Its root is the target directory. Below the root are the standard folders, and a declared directory
is below the directory it names as its parent, or below the root if it names none. A declaration may
come before that of its parent, so all are put in first (`register`) and then each is put below its
parent (`linkAll`). Declarations make a tree if no id is taken twice, every parent is known, and from
every directory the parents lead to the root.

The nodes of a tree are told apart by their positions: first the root, then the standard folders,
then the declared directories in their order. An id stands for the last node that has it. A node
keeps the position of its parent and those of the nodes that were put below it; that the two agree is
not built into the type and holds of the trees that are made.
-/

set_option autoImplicit false

namespace Installer

/-- What a node is and where it lies; in a tree only the root lies nowhere. -/
structure DirectoryEntry where
  id : String
  name : String
  /-- The position of the directory it lies in. -/
  parent : Option Nat
  standard : Bool
  grouping : Bool
  deriving DecidableEq, Repr

/-- A node of the tree, with the positions of the nodes that lie in it. -/
structure DirectoryNode extends DirectoryEntry where
  children : List Nat
  deriving DecidableEq, Repr

/-- A tree of directories. -/
structure DirectoryTree where
  nodes : List DirectoryNode
  deriving DecidableEq, Repr

namespace DirectoryTree

/-- The position of the root. -/
def root : Nat := 0

/-- The standard folders below the root; `base` is the one for program files. -/
def standardFolders (base : StandardFolder) : List StandardFolder :=
  [base, .programMenu, .desktop, .localAppData, .commonAppData]

/-- The last position at which an id stands. -/
def lastPosition? (ids : List String) (id : String) : Option Nat :=
  (ids.zipIdx.filter (·.1 = id)).getLast?.map (·.2)

variable (t : DirectoryTree)

/-- The directories of a tree, without what lies in them. -/
def entries : List DirectoryEntry := t.nodes.map (·.toDirectoryEntry)

def ids : List String := t.entries.map (·.id)

/-- The positions of all nodes. -/
def positions : List Nat := List.range t.entries.length

def idAt (p : Nat) : String := t.entries[p]?.elim "" (·.id)

def parentOf? (p : Nat) : Option Nat := t.entries[p]?.bind (·.parent)

/-- The positions directly below a node, in the order in which they were put there. -/
def children (p : Nat) : List Nat := t.nodes[p]?.elim [] (·.children)

/-- The first `n` positions on the way from a node to the root. -/
def climb : (n : Nat) → (p : Nat) → List Nat
  | 0, _ => []
  | n + 1, p => (t.parentOf? p).elim [] fun q => q :: climb n q

/-- The positions above a node, nearest first; in a tree there are fewer than nodes. -/
def ancestors (p : Nat) : List Nat := t.climb t.entries.length p

/-- The first node from which the parents never lead to the root. -/
def stray? : Option Nat :=
  t.positions.find? fun p => p != root && !(t.ancestors p).contains root

/-- The position that an id stands for. -/
def position? (id : String) : Option Nat := lastPosition? t.ids id

def contains (id : String) : Bool := (t.position? id).isSome

/-- Names on the way up: those of declared directories, and a standard folder in brackets. -/
def segments : List DirectoryEntry → List String
  | [] => []
  | node :: above =>
    if node.parent.isNone then []
    else if node.standard then [s!"[{node.id}]"]
    else node.name :: segments above

/-- The path of a node, from a standard folder or the root. -/
def pathAt (p : Nat) : String :=
  "\\".intercalate (segments ((p :: t.ancestors p).filterMap (t.entries[·]?))).reverse

def path? (id : String) : Option String := (t.position? id).map t.pathAt

/-- The ids above a directory, nearest first. -/
def ancestorsOf? (id : String) : Option (List String) :=
  (t.position? id).map fun p => (t.ancestors p).map t.idAt

/-- The directories as packages list them; the root is not listed. -/
def listing : List Package.Directory :=
  t.entries.tail.map fun node => {
    id := node.id
    name := node.name
    parent := node.parent.map t.idAt
    standard := node.standard
    path := (t.path? node.id).getD "" }

/-! ## Making a tree -/

/-- Puts a node in, which lies nowhere yet. -/
def insert (id name : String) (standard grouping : Bool) : DirectoryTree :=
  ⟨t.nodes ++ [{ id, name, parent := none, standard, grouping, children := [] }]⟩

/-- Puts a node below another, after those that lie there already. -/
def link (child parent : Nat) : DirectoryTree :=
  ⟨(t.nodes.modify child fun node => { node with parent := some parent }).modify parent
    fun node => { node with children := node.children ++ [child] }⟩

/-- The root with the standard folders; `base` is the one for program files. -/
def seed (base : StandardFolder) : DirectoryTree :=
  (standardFolders base).foldl
    (fun t folder => (t.insert folder.id folder.id true false).link t.nodes.length root)
    (insert ⟨[]⟩ StandardFolder.targetDir.id "SourceDir" true false)

/-- Puts the declared directories in, each under an id of its own. -/
def register (t : DirectoryTree) : List Manifest.Directory → Except Violation DirectoryTree
  | [] => .ok t
  | d :: rest =>
    if t.contains d.id then .error (.duplicateDirectoryId d.id)
    else register (t.insert d.id d.name false d.grouping) rest

/-- The position of the directory that a declared one is to lie in. -/
def parentFor (d : Manifest.Directory) : Except Violation Nat :=
  match d.parent with
  | none => .ok root
  | some parent =>
    match t.position? parent with
    | some p => .ok p
    | none => .error (.danglingParent d.id parent)

/-- Puts declared directories, the first of which is at position `p`, below their parents. -/
def linkAll (t : DirectoryTree) (p : Nat) : List Manifest.Directory → Except Violation DirectoryTree
  | [] => .ok t
  | d :: rest => do linkAll (t.link p (← t.parentFor d)) (p + 1) rest

/-- Lets no node astray pass. -/
def checkRooted : Except Violation DirectoryTree :=
  match t.stray? with
  | some p => .error (.danglingParent (t.idAt p) ((t.parentOf? p).elim "" t.idAt))
  | none => .ok t

/-- The tree that declarations make, or the first rule that they break. -/
def make (base : StandardFolder) (declared : List Manifest.Directory) :
    Except Violation DirectoryTree := do
  let seeded := seed base
  let registered ← seeded.register declared
  let linked ← registered.linkAll seeded.nodes.length declared
  linked.checkRooted

end DirectoryTree
end Installer
