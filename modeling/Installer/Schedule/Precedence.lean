/-!
# Orders that keep precedences

An edge `(a, b)` says that `a` comes before `b`. Ordering places, again and again, the best of the
nodes that no waiting node has to precede; an edge is discharged when its first end is placed. What
cannot be placed lies behind a cycle, and walking back along the edges from it finds one.
-/

set_option autoImplicit false

namespace Installer.Precedence
variable {α : Type} [DecidableEq α]

/-- The nodes directly after `a`. -/
def successors (edges : List (α × α)) (a : α) : List α :=
  (edges.filter (·.1 = a)).map (·.2)

/-- Whether `goal` is found from the nodes of `agenda`, looking at `n` nodes at most and not going
on from those already `seen`. -/
def search (edges : List (α × α)) (goal : α) : (n : Nat) → (seen agenda : List α) → Bool
  | n + 1, seen, a :: agenda =>
    if a = goal then true
    else if seen.contains a then search edges goal n seen agenda
    else search edges goal n (a :: seen) (successors edges a ++ agenda)
  | _, _, _ => false

/-- Whether a path of edges leads from `a` to `b`; every edge is followed once at most, which bounds
the search. -/
def reaches (edges : List (α × α)) (a b : α) : Bool :=
  search edges b (edges.length + 1) [] [a]

/-- Whether no edge that is left leads to a node. -/
def isReady (edges : List (α × α)) (a : α) : Bool := !edges.any (·.2 = a)

/-- The first of the nodes that none of them is better than. -/
def best (better : α → α → Bool) : List α → Option α
  | [] => none
  | a :: rest => some (rest.foldl (fun x y => if better y x then y else x) a)

omit [DecidableEq α] in
theorem foldl_best_mem (better : α → α → Bool) : ∀ (rest : List α) (a : α),
    rest.foldl (fun x y => if better y x then y else x) a ∈ a :: rest
  | [], a => List.mem_singleton_self a
  | y :: rest, a => by
    simp only [List.foldl_cons]
    have h := foldl_best_mem better rest (if better y a then y else a)
    rcases List.mem_cons.mp h with h | h
    · rw [h]
      split
      · exact List.mem_cons_of_mem _ List.mem_cons_self
      · exact List.mem_cons_self
    · exact List.mem_cons_of_mem _ (List.mem_cons_of_mem _ h)

omit [DecidableEq α] in
theorem best_mem {better : α → α → Bool} {nodes : List α} {a : α}
    (h : best better nodes = some a) : a ∈ nodes := by
  cases nodes with
  | nil => cases h
  | cons b rest =>
    cases h
    exact foldl_best_mem better rest b

/-- Placing a ready node leaves fewer waiting. -/
theorem length_erase_best_lt {better : α → α → Bool} {waiting : List α} {edges : List (α × α)}
    {a : α} (h : best better (waiting.filter (isReady edges)) = some a) :
    (waiting.erase a).length < waiting.length := by
  have hmem : a ∈ waiting := (List.mem_filter.mp (best_mem h)).1
  have hlength := List.length_erase_of_mem hmem
  have hpos := List.length_pos_of_mem hmem
  omega

/-- The waiting nodes in an order that keeps the edges, and those that cannot be placed. -/
def place (better : α → α → Bool) (waiting : List α) (edges : List (α × α)) : List α × List α :=
  match h : best better (waiting.filter (isReady edges)) with
  | none => ([], waiting)
  | some a =>
    have _ := length_erase_best_lt h
    let (placed, stuck) := place better (waiting.erase a) (edges.filter (·.1 ≠ a))
    (a :: placed, stuck)
termination_by waiting.length

/-- The first stuck node that has an edge to `a`. -/
def stuckBefore? (stuck : List α) (edges : List (α × α)) (a : α) : Option α :=
  stuck.find? fun b => edges.contains (b, a)

/-- Walks back from the head of `path`, whose nodes are held latest first, until a node comes again,
and gives the cycle from that node to itself, along the edges. -/
def cycleBack (stuck : List α) (edges : List (α × α)) : Nat → (path : List α) → List α
  | n + 1, a :: path =>
    match stuckBefore? stuck edges a with
    | none => a :: path
    | some b =>
      if (a :: path).contains b then b :: (a :: path).takeWhile (· ≠ b) ++ [b]
      else cycleBack stuck edges n (b :: a :: path)
  | _, path => path

/-- A cycle among the nodes that cannot be placed. -/
def cycleOf (stuck : List α) (edges : List (α × α)) : List α :=
  match stuck with
  | [] => []
  | a :: _ => cycleBack stuck edges (stuck.length + 1) [a]

/-- An order of all nodes that keeps the edges, or a cycle. -/
def order (better : α → α → Bool) (nodes : List α) (edges : List (α × α)) :
    Except (List α) (List α) :=
  match place better nodes edges with
  | (placed, []) => .ok placed
  | (_, stuck) => .error (cycleOf stuck edges)

end Installer.Precedence
