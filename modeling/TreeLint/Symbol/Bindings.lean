/-
TreeLint/Symbol/Bindings.lean

Bindings: what a host has found out about the nodes of one unit.  A node
may declare a symbol, refer to one, or have a type.  Each of the three is a
finite map from slots to symbols, kept in the order of the slots, with one
entry for each (`NodeMap.sorted`).

`Model` puts the bindings of a unit next to the symbol table; all questions
of analyses go through it.  Any of them may remain without answer.
-/
import TreeLint.Symbol.Table
import TreeLint.Tree.Element

namespace TreeLint

/-- A finite map from slots to symbols, in the order of the slots. -/
structure NodeMap where
  entries : List (NodeId × SymbolId) := []
  sorted : entries.Pairwise (fun a b => a.1 < b.1) := by simp
  deriving DecidableEq, Repr

namespace NodeMap

/-- The map without entries. -/
def empty : NodeMap := {}

instance : Inhabited NodeMap := ⟨empty⟩

/-- Puts an entry in its place, instead of the one with the same slot. -/
def put (node : NodeId) (symbol : SymbolId) : List (NodeId × SymbolId) → List (NodeId × SymbolId)
  | [] => [(node, symbol)]
  | e :: rest =>
    if node < e.1 then (node, symbol) :: e :: rest
    else if node = e.1 then (node, symbol) :: rest
    else e :: put node symbol rest

/-- An entry after `put` is the new one or an old one. -/
theorem mem_put {node : NodeId} {symbol : SymbolId} {entries : List (NodeId × SymbolId)}
    {x : NodeId × SymbolId} (h : x ∈ put node symbol entries) :
    x = (node, symbol) ∨ x ∈ entries := by
  induction entries with
  | nil => simpa [put] using h
  | cons e rest ih =>
    simp only [put] at h
    split at h
    · simpa using h
    · split at h
      · rcases List.mem_cons.1 h with h | h
        · exact .inl h
        · exact .inr (List.mem_cons_of_mem _ h)
      · rcases List.mem_cons.1 h with h | h
        · exact .inr (h ▸ List.mem_cons_self)
        · exact (ih h).imp id (List.mem_cons_of_mem _)

/-- Putting an entry in keeps the order. -/
theorem pairwise_put (node : NodeId) (symbol : SymbolId) {entries : List (NodeId × SymbolId)}
    (h : entries.Pairwise (fun a b => a.1 < b.1)) :
    (put node symbol entries).Pairwise (fun a b => a.1 < b.1) := by
  induction entries with
  | nil => simp [put]
  | cons e rest ih =>
    obtain ⟨he, hrest⟩ := List.pairwise_cons.1 h
    simp only [put]
    split
    · rename_i hlt
      refine List.pairwise_cons.2 ⟨fun x hx => ?_, h⟩
      rcases List.mem_cons.1 hx with rfl | hx
      · exact hlt
      · exact Nat.lt_trans hlt (he x hx)
    · split
      · rename_i heq
        exact List.pairwise_cons.2 ⟨fun x hx => heq ▸ he x hx, hrest⟩
      · rename_i hlt hne
        refine List.pairwise_cons.2 ⟨fun x hx => ?_, ih hrest⟩
        rcases mem_put hx with rfl | hx
        · exact Nat.lt_of_le_of_ne (Nat.le_of_not_lt hlt) (Ne.symm hne)
        · exact he x hx

/-- The map with one more entry; an earlier one for the same slot gives way. -/
def insert (m : NodeMap) (node : NodeId) (symbol : SymbolId) : NodeMap :=
  ⟨put node symbol m.entries, pairwise_put node symbol m.sorted⟩

/-- The symbol of a slot. -/
def get? (m : NodeMap) (node : NodeId) : Option SymbolId :=
  m.entries.lookup node

/-- The map of a list of entries; the last entry for a slot counts. -/
def ofList (entries : List (NodeId × SymbolId)) : NodeMap :=
  entries.foldl (fun m e => m.insert e.1 e.2) empty

end NodeMap

/-- What a host has recorded about the nodes of one unit. -/
structure Bindings where
  declared : NodeMap := .empty
  referenced : NodeMap := .empty
  types : NodeMap := .empty
  deriving DecidableEq, Repr, Inhabited

/-- The symbols and bindings that an analysis of one unit sees. -/
structure Model where
  symbols : SymbolTable
  bindings : Bindings := {}

namespace Model

/-- The symbol that a declaration declares. -/
def declared? (m : Model) (node : NodeId) : Option Symbol :=
  (m.bindings.declared.get? node).bind m.symbols.get?

/-- The symbol that an expression refers to. -/
def referenced? (m : Model) (node : NodeId) : Option Symbol :=
  (m.bindings.referenced.get? node).bind m.symbols.get?

/-- The type of an expression. -/
def type? (m : Model) (node : NodeId) : Option Symbol :=
  (m.bindings.types.get? node).bind m.symbols.get?

end Model

end TreeLint
