import DevConsole.Text.Fold

/-!
# Tries over names

A map from names to values in which letter case plays no role: a key leads along the bytes of its
UTF-8 form, with the ASCII capitals made small, to the node that keeps its value and how it was last
spelt. The children of a node stand in increasing order of their bytes, so a walk lists the entries
in the order of the folded keys, and the entries under a common beginning are one subtree. A removal
takes the nodes out that only led to what it removes.
-/

namespace DevConsole

/-- The children of a node by their bytes, in increasing order. -/
inductive Branches (α : Type)
  | nil
  | node (byte : UInt8) (key : Option String) (value : Option α) (below rest : Branches α)
  deriving Inhabited

/-- A node: the value of the key that ends here and its spelling, and the branches for longer keys. -/
structure TrieNode (α : Type) where
  key : Option String := none
  value : Option α := none
  below : Branches α := .nil
  deriving Inhabited

namespace Branches

variable {α : Type}

/-- The child for a byte. -/
def find? (b : UInt8) : Branches α → Option (TrieNode α)
  | nil => none
  | node d key value below rest => if b = d then some ⟨key, value, below⟩ else rest.find? b

/-- Makes a node the child for a byte. -/
def put (b : UInt8) (n : TrieNode α) : Branches α → Branches α
  | nil => node b n.key n.value n.below nil
  | node d key value below rest =>
    if b = d then node b n.key n.value n.below rest
    else if b < d then node b n.key n.value n.below (node d key value below rest)
    else node d key value below (rest.put b n)

/-- Takes out the child for a byte. -/
def remove (b : UInt8) : Branches α → Branches α
  | nil => nil
  | node d key value below rest => if b = d then rest else node d key value below (rest.remove b)

/-- There are no children. -/
def isEmpty : Branches α → Bool
  | nil => true
  | node .. => false

/-- The children in order. -/
def nodes : Branches α → List (TrieNode α)
  | nil => []
  | node _ key value below rest => ⟨key, value, below⟩ :: rest.nodes

/-- The number of nodes. -/
def count : Branches α → Nat
  | nil => 0
  | node _ _ _ below rest => below.count + 1 + rest.count

end Branches

namespace TrieNode

variable {α : Type}

/-- Nothing is kept here or below. -/
def isVacant (n : TrieNode α) : Bool := n.value.isNone && n.below.isEmpty

/-- The node that the bytes lead to. -/
def descend : List UInt8 → TrieNode α → Option (TrieNode α)
  | [], n => some n
  | b :: bs, n => (n.below.find? b).bind (descend bs)

/-- Keeps a value where the bytes lead to, and answers with the one that was there. -/
def insert (key : String) (value : α) : List UInt8 → TrieNode α → Option α × TrieNode α
  | [], n => (n.value, { n with key := some key, value := some value })
  | b :: bs, n =>
    let (old, child) := insert key value bs ((n.below.find? b).getD {})
    (old, { n with below := n.below.put b child })

/-- Takes out what is kept where the bytes lead to, and the nodes on the way that this leaves
vacant. -/
def remove : List UInt8 → TrieNode α → Option α × TrieNode α
  | [], n => (n.value, { n with key := none, value := none })
  | b :: bs, n =>
    match n.below.find? b with
    | none => (none, n)
    | some child =>
      let (removed, child) := remove bs child
      let below := if child.isVacant then n.below.remove b else n.below.put b child
      (removed, { n with below })

/-- The key that ends here, as it is spelt, with its value. -/
def entry (n : TrieNode α) : Option (String × α) := n.key.bind fun key => n.value.map (key, ·)

/-- The number of nodes from this one on. -/
def count (n : TrieNode α) : Nat := n.below.count + 1

/-- The number of nodes from several ones on. -/
def countAll : List (TrieNode α) → Nat
  | [] => 0
  | n :: ns => n.count + countAll ns

theorem countAll_append : ∀ ns ms : List (TrieNode α),
    countAll (ns ++ ms) = countAll ns + countAll ms
  | [], _ => (Nat.zero_add _).symm
  | n :: ns, ms => by
    rw [List.cons_append, countAll, countAll, countAll_append ns ms, Nat.add_assoc]

theorem countAll_nodes : ∀ bs : Branches α, countAll bs.nodes = bs.count
  | .nil => rfl
  | .node _ _ _ below rest => by
    rw [Branches.nodes, countAll, countAll_nodes rest]
    rfl

/-- The entries of the nodes on a stack and below them: the node on top is taken off, and its
children are put there, the first one on top. -/
def walk : List (TrieNode α) → List (String × α)
  | [] => []
  | n :: stack => n.entry.toList ++ walk (n.below.nodes ++ stack)
termination_by stack => countAll stack
decreasing_by
  rw [countAll_append, countAll_nodes, countAll, count]
  omega

end TrieNode

/-- A trie, with the number of its entries. -/
structure Trie (α : Type) where
  root : TrieNode α := {}
  size : Nat := 0
  deriving Inhabited

namespace Trie

variable {α : Type}

/-- The trie without entries. -/
def empty : Trie α := {}

/-- The node that a key leads to. -/
def node? (t : Trie α) (key : String) : Option (TrieNode α) := t.root.descend (Text.foldBytes key)

/-- The value of a key. -/
def get? (t : Trie α) (key : String) : Option α := (t.node? key).bind TrieNode.value

/-- The spelling under which a key was last inserted. -/
def spelling? (t : Trie α) (key : String) : Option String := (t.node? key).bind TrieNode.key

/-- A value is kept under the key. -/
def contains (t : Trie α) (key : String) : Bool := (t.get? key).isSome

/-- Keeps a value under a key, in the place of the value and spelling it had, and answers with the
old value. -/
def getThenInsert (t : Trie α) (key : String) (value : α) : Option α × Trie α :=
  let (old, root) := t.root.insert key value (Text.foldBytes key)
  (old, { root, size := if old.isNone then t.size + 1 else t.size })

/-- Takes out a key, and answers with its value. -/
def getThenErase (t : Trie α) (key : String) : Option α × Trie α :=
  let (removed, root) := t.root.remove (Text.foldBytes key)
  (removed, { root, size := if removed.isSome then t.size - 1 else t.size })

/-- Keeps a value under a key. -/
def insert (t : Trie α) (key : String) (value : α) : Trie α := (t.getThenInsert key value).2

/-- Takes out a key. -/
def erase (t : Trie α) (key : String) : Trie α := (t.getThenErase key).2

/-- The entries whose key begins with `lead`, in the order of their folded keys. -/
def startingWith (t : Trie α) (lead : String) : List (String × α) :=
  TrieNode.walk (t.node? lead).toList

/-- All entries in the order of their folded keys. -/
def toList (t : Trie α) : List (String × α) := t.startingWith ""

/-- The keys in order, as they are spelt. -/
def keys (t : Trie α) : List String := t.toList.map Prod.fst

/-- There are no entries. -/
def isEmpty (t : Trie α) : Bool := t.size == 0

end Trie

end DevConsole
