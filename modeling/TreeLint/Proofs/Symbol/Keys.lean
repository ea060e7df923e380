/-
TreeLint/Proofs/Symbol/Keys.lean

The names of structural keys.

The chain of containers from a symbol comes to an end if it is a trail, which is to
say that it comes to a symbol without container (`exists_trail_iff`).  A trail has no
more symbols than the table, so a walk of as many steps as there are symbols comes to
the end of every trail; and what it comes to the end of is a trail
(`containerNames?_eq_some_iff`).

So a symbol has a key exactly if its chain of containers ends, and the key is made of
the names along the chain (`key?_resolves`).
-/
import TreeLint.Proofs.Symbol.Chains

namespace TreeLint

namespace SymbolTable

variable {t : SymbolTable} {next : Symbol → Option SymbolId} {link : Option SymbolId}
variable {id : SymbolId} {s : Symbol} {bound : Nat} {names : List String}

/-- A chain comes to an end exactly if it comes to a symbol without further link. -/
theorem exists_trail_iff :
    (∃ trail, Trail t next (some id) trail) ↔
      ∃ n s, t.after? next n (some id) = some s ∧ next s = none := by
  constructor
  · rintro ⟨trail, h⟩
    induction trail generalizing id with
    | nil => cases h
    | cons s trail ih =>
      cases h with
      | step hs h =>
        cases hnext : next s with
        | none => exact ⟨0, s, hs, hnext⟩
        | some id' =>
          obtain ⟨n, last, hlast, hend⟩ := ih (hnext ▸ h)
          refine ⟨n + 1, last, ?_, hend⟩
          rw [after?_succ hs, hnext]
          exact hlast
  · rintro ⟨n, last, hlast, hend⟩
    induction n generalizing id with
    | zero => exact ⟨[last], .step hlast (hend ▸ .done)⟩
    | succ n ih =>
      obtain ⟨s, hs, hrest⟩ := Option.bind_eq_some_iff.mp hlast
      cases hnext : next s with
      | none => exact ⟨[s], .step hs (hnext ▸ .done)⟩
      | some id' =>
        obtain ⟨trail, htrail⟩ := ih (hnext ▸ hrest)
        exact ⟨s :: trail, .step hs (hnext ▸ htrail)⟩

/-- The walk along the containers comes to the end of every trail that is not longer than its
bound, and of nothing else. -/
theorem containerNames?_eq_some_iff :
    t.containerNames? bound link = some names ↔
      ∃ trail, Trail t (·.container) link trail ∧ trail.length ≤ bound ∧
        trail.map (·.name) = names := by
  induction bound, link using containerNames?.induct generalizing names with
  | case1 bound =>
    rw [containerNames?]
    constructor
    · intro h
      exact ⟨[], .done, Nat.zero_le _, Option.some.inj h⟩
    · rintro ⟨trail, htrail, -, rfl⟩
      cases htrail
      rfl
  | case2 id =>
    constructor
    · intro h
      cases h
    · rintro ⟨trail, htrail, hlength, -⟩
      cases htrail
      cases hlength
  | case3 bound id ih =>
    simp only [containerNames?, Option.bind_eq_bind, Option.bind_eq_some_iff]
    constructor
    · rintro ⟨s, hs, outer, houter, h⟩
      obtain ⟨trail, htrail, hlength, rfl⟩ := (ih s).mp houter
      exact ⟨s :: trail, .step hs htrail, Nat.succ_le_succ hlength, Option.some.inj h⟩
    · rintro ⟨trail, htrail, hlength, rfl⟩
      cases htrail with
      | @step _ s trail hs htrail =>
        have houter := (ih s).mpr ⟨trail, htrail, Nat.le_of_succ_le_succ hlength, rfl⟩
        exact ⟨s, hs, _, houter, rfl⟩

/-- A key has the names along the chain of containers, the outermost one first, and the kind and the
number of parameters of the symbol itself. -/
theorem key?_eq_some_iff {k : SymbolKey} :
    t.key? id = some k ↔
      ∃ s outer, Trail t (·.container) (some id) (s :: outer) ∧
        k = ⟨".".intercalate ((s :: outer).reverse.map (·.name)), s.kind, s.parameterCount⟩ := by
  simp only [key?, Option.bind_eq_bind, Option.bind_eq_some_iff, containerNames?_eq_some_iff,
    List.map_reverse, List.map_cons]
  constructor
  · rintro ⟨s, hs, names, ⟨outer, houter, -, rfl⟩, hk⟩
    exact ⟨s, outer, .step hs houter, (Option.some.inj hk).symm⟩
  · rintro ⟨s, outer, htrail, rfl⟩
    cases htrail with
    | step hs houter =>
      -- the bound of the walk is no restriction: no trail is longer than the table
      exact ⟨s, hs, _, ⟨outer, houter, houter.length_le, rfl⟩, rfl⟩

/-- **Keys are told on every table.**  A symbol has a key exactly if the chain of its containers
comes to a symbol without container, and the key is made of what is on the chain. -/
theorem key?_resolves (t : SymbolTable) (id : SymbolId) :
    ((t.key? id).isSome = true ↔
        ∃ n s, t.after? (·.container) n (some id) = some s ∧ s.container = none) ∧
      ∀ k, t.key? id = some k ↔
        ∃ s outer, Trail t (·.container) (some id) (s :: outer) ∧
          k = ⟨".".intercalate ((s :: outer).reverse.map (·.name)), s.kind, s.parameterCount⟩ := by
  refine ⟨?_, fun k => key?_eq_some_iff⟩
  rw [← exists_trail_iff, Option.isSome_iff_exists]
  constructor
  · rintro ⟨k, hk⟩
    obtain ⟨s, outer, htrail, -⟩ := key?_eq_some_iff.mp hk
    exact ⟨s :: outer, htrail⟩
  · rintro ⟨trail, htrail⟩
    cases htrail with
    | step hs houter => exact ⟨_, key?_eq_some_iff.mpr ⟨_, _, .step hs houter, rfl⟩⟩

-- a container may be declared after what it contains
example :
    let method : Symbol := { name := "Equals", kind := .method, container := some 1 }
    let object : Symbol := { name := "Object", kind := .namedType, container := some 2 }
    let system : Symbol := { name := "System", kind := .namespaceScope }
    (((empty.insert method).insert object).insert system).key? 0
      = some ⟨"System.Object.Equals", .method, 0⟩ := by
  cbv

end SymbolTable

end TreeLint
