/-
TreeLint/Dict.lean

Small maps from texts, in the order in which their keys were first given.  A
key given again keeps its place and takes the new value, so no key has two
entries (`Dict.nodup`).

Two maps are merged by an operation on values, which is used where both have a
key (`Dict.mergeWith`): the newer value (`insertAll`), or one list behind the
other (`appendAll`).
-/

namespace TreeLint

/-- A map from texts, in the order of first mention. -/
structure Dict (α : Type) where
  entries : List (String × α) := []
  nodup : (entries.map (·.1)).Nodup := by exact List.nodup_nil
  deriving DecidableEq, Repr

namespace Dict

instance : Inhabited (Dict α) := ⟨{}⟩

/-- The map of one entry. -/
def single (key : String) (value : α) : Dict α :=
  ⟨[(key, value)], List.pairwise_singleton _ _⟩

/-- The keys, in the order of first mention. -/
def keys (d : Dict α) : List String :=
  d.entries.map (·.1)

/-- The value of a key. -/
def get? (d : Dict α) (key : String) : Option α :=
  d.entries.lookup key

/-- The entries with the value of one key exchanged by `f`, which is given the old value if there
is one. -/
def exchange (key : String) (f : Option α → α) : List (String × α) → List (String × α)
  | [] => [(key, f none)]
  | (k, v) :: rest => if k = key then (k, f (some v)) :: rest else (k, v) :: exchange key f rest

/-- A key that is not there comes last. -/
theorem map_fst_exchange (key : String) (f : Option α → α) (entries : List (String × α)) :
    (exchange key f entries).map (·.1)
      = if key ∈ entries.map (·.1) then entries.map (·.1) else entries.map (·.1) ++ [key] := by
  induction entries with
  | nil => simp [exchange]
  | cons entry rest ih =>
    obtain ⟨k, v⟩ := entry
    rw [exchange]
    by_cases h : k = key
    · simp [h]
    · rw [if_neg h, List.map_cons, ih, List.map_cons]
      by_cases hmem : key ∈ rest.map (·.1)
      · rw [if_pos hmem, if_pos (List.mem_cons_of_mem _ hmem)]
      · have hmem' : key ∉ k :: rest.map (·.1) :=
          fun hcons => (List.mem_cons.mp hcons).elim (fun heq => h heq.symm) hmem
        rw [if_neg hmem, if_neg hmem', List.cons_append]

theorem nodup_exchange (key : String) (f : Option α → α) {entries : List (String × α)}
    (h : (entries.map (·.1)).Nodup) : ((exchange key f entries).map (·.1)).Nodup := by
  rw [map_fst_exchange]
  split
  · exact h
  · rename_i hmem
    refine List.nodup_append.mpr ⟨h, List.pairwise_singleton _ _, ?_⟩
    rintro k hk k' hk' rfl
    exact hmem (List.mem_singleton.mp hk' ▸ hk)

/-- The map with the value of one key exchanged by `f`, which is given the old value if there is
one. -/
def alter (d : Dict α) (key : String) (f : Option α → α) : Dict α :=
  ⟨exchange key f d.entries, nodup_exchange key f d.nodup⟩

/-- The map with one more value; an earlier one for the key gives way. -/
def insert (d : Dict α) (key : String) (value : α) : Dict α :=
  d.alter key fun _ => value

/-- The map of a list of entries; the last entry for a key counts. -/
def ofEntries (entries : List (String × α)) : Dict α :=
  entries.foldl (fun d e => d.insert e.1 e.2) {}

/-- The map with every value exchanged. -/
def map (f : α → β) (d : Dict α) : Dict β where
  entries := d.entries.map fun e => (e.1, f e.2)
  nodup := by
    rw [List.map_map]
    exact d.nodup

/-! ### Merging -/

/-- The map with one more value, which `op` puts together with an earlier one for the key. -/
def insertWith (op : α → α → α) (d : Dict α) (key : String) (value : α) : Dict α :=
  d.alter key fun
    | none => value
    | some old => op old value

/-- Both maps as one; where both have a key, `op` puts the two values together. -/
def mergeWith (op : α → α → α) (d layer : Dict α) : Dict α :=
  layer.entries.foldl (fun d e => d.insertWith op e.1 e.2) d

/-- Both maps as one; where both have a key, the value of the second one counts. -/
def insertAll (d layer : Dict α) : Dict α :=
  d.mergeWith (fun _ new => new) layer

/-- Both maps as one; where both have a key, the list of the second one comes behind that of the
first. -/
def appendAll (d layer : Dict (List α)) : Dict (List α) :=
  d.mergeWith (· ++ ·) layer

end Dict

end TreeLint
