/-
TreeLint/Proofs/FileTree/Writing.lean

What writing files and making directories changes.

Where steps lead to, if they lead anywhere, does not depend on what stands in
the tree (`FileTree.placeOf`).  A change keeps all directories, keeps all files
but perhaps those at some places, and adds directories at some places only
(`FileTree.Grows`); so what could be reached before can be reached after it.
Writing a file changes that file, and making a directory adds places on the way
to it.  A file that has been written is read back, now and after any change
elsewhere (`FileTree.read_of_write`, `FileTree.read_of_grows`).
-/
import TreeLint.Proofs.Path.Joining

namespace TreeLint.FileTree

open TreeLint.Path

variable {t t' t'' : FileTree} {p : Path} {content : String}
variable {names place start : List String} {xs ys : List Component}

/-! ### Places -/

theorem placeOf_append (start : List String) (xs ys : List Component) :
    placeOf start (xs ++ ys) = placeOf (placeOf start xs) ys := by
  fun_induction placeOf start xs with
  | case1 => rfl
  | case2 _ rest ih => exact ih
  | case3 names rest ih => exact ih
  | case4 names rest ih => exact ih
  | case5 names text rest ih => exact ih

theorem placeOf_names (start texts : List String) :
    placeOf start (texts.map .name) = start ++ texts := by
  induction texts generalizing start with
  | nil => exact (List.append_nil start).symm
  | cons text texts ih =>
    rw [List.map_cons, placeOf, ih, List.append_assoc]
    rfl

theorem eq_placeOf_of_resolve (h : t.resolve start xs = .ok place) : place = placeOf start xs := by
  induction xs generalizing start with
  | nil => exact (Except.ok.inj h).symm
  | cons x xs ih =>
    cases x with
    | root | here | up => exact ih h
    | name text =>
      rw [resolve] at h
      rw [placeOf]
      split at h
      · cases h
      · split at h
        · cases h
        · exact ih h
        · split at h
          · rename_i hempty
            rw [List.isEmpty_iff.mp hempty]
            exact (Except.ok.inj h).symm
          · cases h

/-- Steps go on from a directory that others have led to. -/
theorem resolve_append (h : t.resolve start xs = .ok place)
    (hplace : t.entry? place = some .directory) :
    t.resolve start (xs ++ ys) = t.resolve place ys := by
  induction xs generalizing start with
  | nil =>
    rw [← Except.ok.inj h]
    rfl
  | cons x xs ih =>
    rw [List.cons_append]
    cases x with
    | root | here | up => exact ih h
    | name text =>
      rw [resolve] at h ⊢
      split at h
      · cases h
      · rename_i hlong
        rw [if_neg hlong]
        split at h
        · cases h
        · exact ih h
        · rename_i content hentry
          split at h
          · rw [← Except.ok.inj h, hentry] at hplace
            cases hplace
          · cases h

/-! ### What stands at a place -/

theorem entry?_eq_file_iff : t.entry? names = some (.file content) ↔
    t.files.lookup names = some content := by
  unfold entry?
  split
  · rename_i hlookup
    rw [hlookup]
    simp
  · rename_i hlookup
    rw [hlookup]
    split <;> simp

/-- The place is one on the way to something, or there is a directory. -/
def HoldsPlace (t : FileTree) (names : List String) : Prop :=
  names = [] ∨ names <+: t.here ∨ (∃ d ∈ t.directories, names <+: d) ∨
    ∃ f ∈ t.files, names <+: f.1

theorem entry?_eq_directory_iff : t.entry? names = some .directory ↔
    t.files.lookup names = none ∧ t.HoldsPlace names := by
  unfold entry?
  split
  · rename_i hlookup
    rw [hlookup]
    simp
  · rename_i hlookup
    have hholds : (names.isEmpty || names.isPrefixOf t.here || t.directories.any names.isPrefixOf
        || t.files.any (names.isPrefixOf ·.1)) = true ↔ t.HoldsPlace names := by
      simp only [HoldsPlace, Bool.or_eq_true, List.isEmpty_iff, List.isPrefixOf_iff_prefix,
        List.any_eq_true, or_assoc]
    rw [hlookup, ← hholds]
    split
    · rename_i hheld
      simp [hheld]
    · rename_i hheld
      simp [hheld]

theorem lookup_putFile (t : FileTree) (names place : List String) (content : String) :
    (t.putFile names content).files.lookup place
      = if place = names then some content else t.files.lookup place := by
  have hfilter : (t.files.filter (·.1 != names)).lookup place
      = if place = names then none else t.files.lookup place := by
    induction t.files with
    | nil => simp
    | cons f fs ih =>
      rw [List.filter_cons]
      by_cases hf : f.1 = names
      · rw [if_neg (by simpa using hf), ih, List.lookup_cons, hf]
        by_cases hplace : place = names
        · rw [if_pos hplace, if_pos hplace]
        · rw [if_neg hplace, if_neg hplace, beq_eq_false_iff_ne.mpr hplace]
      · rw [if_pos (by simpa using hf), List.lookup_cons, ih, List.lookup_cons]
        by_cases hplace : place = names
        · rw [if_pos hplace, if_pos hplace, hplace, beq_eq_false_iff_ne.mpr (Ne.symm hf)]
        · rw [if_neg hplace, if_neg hplace]
  rw [putFile, List.lookup_append, hfilter, List.lookup_cons, List.lookup_nil]
  by_cases hplace : place = names
  · rw [if_pos hplace, if_pos hplace, hplace, beq_self_eq_true]
    rfl
  · rw [if_neg hplace, if_neg hplace, beq_eq_false_iff_ne.mpr hplace, Option.or_none]

/-! ### Growing -/

/-- Everything there is still there: all directories, and all files, save that those at the places
`changed` may have other contents or be new.  New directories stand at the places `made`. -/
structure Grows (changed made : List String → Prop) (t t' : FileTree) : Prop where
  here_eq : t'.here = t.here
  lookup_eq : ∀ place, ¬ changed place → t'.files.lookup place = t.files.lookup place
  isSome_lookup : ∀ place, (t.files.lookup place).isSome → (t'.files.lookup place).isSome
  directory : ∀ place, t.entry? place = some .directory → t'.entry? place = some .directory
  of_mem_directories : ∀ place ∈ t'.directories, place ∈ t.directories ∨ made place

namespace Grows

variable {changed changed' made made' : List String → Prop}

theorem refl (t : FileTree) : t.Grows changed made t :=
  ⟨rfl, fun _ _ => rfl, fun _ h => h, fun _ h => h, fun _ h => .inl h⟩

theorem trans (h : t.Grows changed made t') (h' : t'.Grows changed made t'') :
    t.Grows changed made t'' where
  here_eq := h'.here_eq.trans h.here_eq
  lookup_eq place hplace := (h'.lookup_eq place hplace).trans (h.lookup_eq place hplace)
  isSome_lookup place hplace := h'.isSome_lookup place (h.isSome_lookup place hplace)
  directory place hplace := h'.directory place (h.directory place hplace)
  of_mem_directories place hplace :=
    (h'.of_mem_directories place hplace).elim (h.of_mem_directories place) .inr

theorem mono (h : t.Grows changed made t') (hchanged : ∀ place, changed place → changed' place)
    (hmade : ∀ place, made place → made' place) : t.Grows changed' made' t' :=
  { h with
    lookup_eq := fun place hplace => h.lookup_eq place fun hin => hplace (hchanged place hin)
    of_mem_directories := fun place hplace =>
      (h.of_mem_directories place hplace).imp_right (hmade place) }

/-- What could be reached can still be reached. -/
theorem resolve (h : t.Grows changed made t') (hplace : t.resolve start xs = .ok place) :
    t'.resolve start xs = .ok place := by
  induction xs generalizing start with
  | nil => exact hplace
  | cons x xs ih =>
    cases x with
    | root | here | up => exact ih hplace
    | name text =>
      rw [FileTree.resolve] at hplace ⊢
      split at hplace
      · cases hplace
      · rename_i hlong
        rw [if_neg hlong]
        split at hplace
        · cases hplace
        · rename_i hentry
          rw [h.directory _ hentry]
          exact ih hplace
        · rename_i content hentry
          have hsome : (t'.files.lookup (start ++ [text])).isSome := by
            apply h.isSome_lookup
            rw [entry?_eq_file_iff.mp hentry]
            rfl
          obtain ⟨content', hlookup⟩ := Option.isSome_iff_exists.mp hsome
          rw [entry?_eq_file_iff.mpr hlookup]
          exact hplace

end Grows

/-- A file is read as before after a change elsewhere. -/
theorem read_of_grows {changed made : List String → Prop} (h : t.Grows changed made t')
    (hread : t.read p = .ok content) (hplace : ¬ changed (placeOf t.here p.steps)) :
    t'.read p = .ok content := by
  obtain ⟨hcheck, hopen, place, hresolve, hentry⟩ := read_eq_ok_iff.mp hread
  have heq := eq_placeOf_of_resolve hresolve
  refine read_eq_ok_iff.mpr ⟨hcheck, hopen, place, ?_, ?_⟩
  · rw [h.here_eq]
    exact h.resolve hresolve
  · rw [entry?_eq_file_iff, h.lookup_eq place (heq ▸ hplace)]
    exact entry?_eq_file_iff.mp hentry

/-! ### Writing a file -/

theorem grows_putFile (hplace : t.entry? place ≠ some .directory) (content : String) :
    t.Grows (· = place) (fun _ => False) (t.putFile place content) where
  here_eq := rfl
  lookup_eq other hother := by rw [lookup_putFile, if_neg hother]
  isSome_lookup other hother := by
    rw [lookup_putFile]
    split
    · rfl
    · exact hother
  directory other hother := by
    have hne : other ≠ place := fun heq => hplace (heq ▸ hother)
    rw [entry?_eq_directory_iff] at hother ⊢
    rw [lookup_putFile, if_neg hne]
    refine ⟨hother.1, ?_⟩
    rcases hother.2 with hempty | hhere | hdirectory | ⟨f, hf, hprefix⟩
    · exact .inl hempty
    · exact .inr (.inl hhere)
    · exact .inr (.inr (.inl hdirectory))
    · -- a file that led this way is still there, or another one stands in its place
      refine .inr (.inr (.inr ?_))
      by_cases hfplace : f.1 = place
      · exact ⟨(place, content), List.mem_append_right _ List.mem_cons_self, hfplace ▸ hprefix⟩
      · have hkept : f ∈ t.files.filter (·.1 != place) :=
          List.mem_filter.mpr ⟨hf, by simpa using hfplace⟩
        exact ⟨f, List.mem_append_left _ hkept, hprefix⟩
  of_mem_directories _ h := .inl h

/-- What writing a file takes: a name that is not too long, in a directory that is there. -/
structure Writes (t : FileTree) (p : Path) (content : String) (t' : FileTree) : Prop where
  checkPath_eq : checkPath p = .ok ()
  endsOpen_eq : endsOpen p = false
  exists_steps : ∃ above name, p.steps = above ++ [.name name] ∧ isTooLong name = false ∧
    t.resolve t.here above = .ok (placeOf t.here above) ∧
    t.entry? (placeOf t.here above) = some .directory
  entry_ne : t.entry? (placeOf t.here p.steps) ≠ some .directory
  eq_putFile : t' = t.putFile (placeOf t.here p.steps) content

theorem directoryAt_eq_ok_iff {cs : List Component} : t.directoryAt cs = .ok names ↔
    t.resolve t.here cs.reverse = .ok names ∧ t.entry? names = some .directory := by
  rw [directoryAt]
  rcases t.resolve t.here cs.reverse with e | place
  · simp [bind, Except.bind]
  · rcases hentry : t.entry? place with - | (content | -) <;>
      simp [bind, Except.bind, hentry, pure, Except.pure]
    · rintro rfl
      rw [hentry]
      simp
    · rintro rfl
      rw [hentry]
      simp
    · rintro rfl
      exact hentry

theorem writes_of_write (h : t.write p content = .ok t') : t.Writes p content t' := by
  rw [write] at h
  rcases hcheck : checkPath p with e | ⟨⟩
  · rw [hcheck] at h
    cases h
  · rw [hcheck] at h
    simp only [bind, Except.bind] at h
    split at h
    · rename_i text above hsteps
      rcases hparent : t.directoryAt above with e | parent
      · rw [hparent] at h
        cases h
      · rw [hparent] at h
        obtain ⟨hresolve, hdirectory⟩ := directoryAt_eq_ok_iff.mp hparent
        have hplace := eq_placeOf_of_resolve hresolve
        have hsteps : p.steps = above.reverse ++ [.name text] := by
          rw [← List.reverse_reverse p.steps, hsteps, List.reverse_cons]
        have htarget : placeOf t.here p.steps = parent ++ [text] := by
          rw [hsteps, placeOf_append, ← hplace]
          rfl
        simp only at h
        split at h
        · cases h
        · rename_i hopen
          split at h
          · cases h
          · rename_i hlong
            split at h
            · cases h
            · rename_i hentry
              exact {
                checkPath_eq := hcheck
                endsOpen_eq := by simpa using hopen
                exists_steps := ⟨above.reverse, text, hsteps, by simpa using hlong,
                  hplace ▸ hresolve, hplace ▸ hdirectory⟩
                entry_ne := htarget ▸ hentry
                eq_putFile := htarget ▸ (Except.ok.inj h).symm }
    · cases h
    · split at h <;> cases h

/-- A file that has been written is read back. -/
theorem Writes.read_eq (h : t.Writes p content t') : t'.read p = .ok content := by
  obtain ⟨above, name, hsteps, hlong, hresolve, hdirectory⟩ := h.exists_steps
  have hgrows := grows_putFile h.entry_ne content
  rw [← h.eq_putFile] at hgrows
  have htarget : placeOf t.here p.steps = placeOf t.here above ++ [name] := by
    rw [hsteps, placeOf_append]
    rfl
  have hentry : t'.entry? (placeOf t.here above ++ [name]) = some (.file content) := by
    rw [entry?_eq_file_iff, h.eq_putFile, lookup_putFile, htarget, if_pos rfl]
  refine read_eq_ok_iff.mpr
    ⟨h.checkPath_eq, h.endsOpen_eq, placeOf t.here above ++ [name], ?_, hentry⟩
  rw [hsteps, hgrows.here_eq, resolve_append (hgrows.resolve hresolve)
    (hgrows.directory _ hdirectory), FileTree.resolve, hlong, if_neg Bool.false_ne_true, hentry]
  rfl

theorem Writes.grows (h : t.Writes p content t') :
    t.Grows (· = placeOf t.here p.steps) (fun _ => False) t' :=
  h.eq_putFile ▸ grows_putFile h.entry_ne content

/-! ### Making directories -/

theorem HoldsPlace.putDirectory (h : t.HoldsPlace names) (place : List String) :
    (t.putDirectory place).HoldsPlace names := by
  rcases h with hempty | hhere | ⟨d, hd, hprefix⟩ | hfile
  · exact .inl hempty
  · exact .inr (.inl hhere)
  · exact .inr (.inr (.inl ⟨d, List.mem_append_left _ hd, hprefix⟩))
  · exact .inr (.inr (.inr hfile))

theorem grows_putDirectory (t : FileTree) (place : List String) :
    t.Grows (fun _ => False) (· = place) (t.putDirectory place) where
  here_eq := rfl
  lookup_eq _ _ := rfl
  isSome_lookup _ h := h
  directory _ h := by
    rw [entry?_eq_directory_iff] at h ⊢
    exact ⟨h.1, h.2.putDirectory place⟩
  of_mem_directories _ h := (List.mem_append.mp h).imp_right List.mem_singleton.mp

theorem grows_makeDirectory {cs : List Component} (h : t.makeDirectory cs = .ok t') :
    t.Grows (fun _ => False) (· = placeOf t.here cs.reverse) t' := by
  rw [makeDirectory.eq_def] at h
  split at h
  · rename_i text above
    rcases hparent : t.directoryAt above with e | parent
    · rw [hparent] at h
      cases h
    · have hplace := eq_placeOf_of_resolve (directoryAt_eq_ok_iff.mp hparent).1
      rw [hparent] at h
      simp only [bind, Except.bind] at h
      split at h
      · cases h
      · split at h
        · cases h
        · rw [← Except.ok.inj h, List.reverse_cons, placeOf_append, ← hplace]
          exact grows_putDirectory t _
  · rename_i above _
    rcases hparent : t.directoryAt above with e | parent <;>
      · rw [hparent] at h
        cases h
  · cases h

theorem grows_allowDirectory {cs : List Component} (h : t.allowDirectory cs = .ok t') :
    t.Grows (fun _ => False) (· = placeOf t.here cs.reverse) t' := by
  rw [allowDirectory] at h
  split at h
  · rename_i made hmade
    rw [← Except.ok.inj h]
    exact grows_makeDirectory hmade
  · split at h
    · rw [← Except.ok.inj h]
      exact .refl t
    · cases h

/-- New directories stand on the way. -/
theorem grows_makeDirectories {cs : List Component} (h : t.makeDirectories cs = .ok t') :
    t.Grows (fun _ => False) (fun place => ∃ way, way <+: cs.reverse ∧ place = placeOf t.here way)
      t' := by
  induction cs generalizing t' with
  | nil =>
    rw [← Except.ok.inj h]
    exact .refl t
  | cons c above ih =>
    have hlast : ∀ {u u' : FileTree}, u.here = t.here → u.allowDirectory (c :: above) = .ok u' →
        u.Grows (fun _ => False)
          (fun place => ∃ way, way <+: (c :: above).reverse ∧ place = placeOf t.here way) u' := by
      intro u u' hhere hallow
      refine (grows_allowDirectory hallow).mono (fun _ h => h) ?_
      rintro place rfl
      exact ⟨_, List.prefix_rfl, by rw [hhere]⟩
    rw [makeDirectories] at h
    split at h
    · -- those above are made first
      rcases hmade : t.makeDirectories above with e | made
      · rw [hmade] at h
        cases h
      · rw [hmade] at h
        have hgrows := ih hmade
        refine (hgrows.mono (fun _ h => h) ?_).trans (hlast hgrows.here_eq h)
        rintro place ⟨way, hway, rfl⟩
        refine ⟨way, hway.trans ?_, rfl⟩
        rw [List.reverse_cons]
        exact List.prefix_append _ _
    · exact hlast rfl h

theorem grows_ensureDirectory (h : t.ensureDirectory p = .ok t') :
    t.Grows (fun _ => False) (fun place => ∃ way, way <+: p.components ∧ place = placeOf t.here way)
      t' := by
  rw [ensureDirectory] at h
  split at h
  · rw [← Except.ok.inj h]
    exact .refl t
  · cases h
  · have hgrows := grows_makeDirectories h
    rwa [List.reverse_reverse] at hgrows

/-! ### Steps and components -/

/-- Steps on the spot lead nowhere else. -/
theorem placeOf_filterMap_step? (start : List String) (ps : List (List Char)) :
    placeOf start (ps.filterMap step?) = placeOf start (ps.filterMap component?) := by
  induction ps generalizing start with
  | nil => rfl
  | cons piece ps ih =>
    rcases hcomponent : component? piece with - | c
    · have hsilent := component?_eq_none_iff.mp hcomponent
      rw [List.filterMap_cons_none hcomponent]
      rcases hstep : step? piece with - | s
      · rw [List.filterMap_cons_none hstep]
        exact ih start
      · rw [List.filterMap_cons_some hstep, eq_here_of_step? hsilent hstep]
        exact ih start
    · rw [List.filterMap_cons_some hcomponent,
        List.filterMap_cons_some (step?_of_component? hcomponent)]
      cases c with
      | root | here | up | name => exact ih _

/-- The components of a path lead where its steps do. -/
theorem placeOf_steps (start : List String) (p : Path) :
    placeOf start p.steps = placeOf start p.components := by
  have hstart : placeOf start (startSteps p.pieces) = placeOf start (startComponents p.pieces) := by
    rcases p.pieces with - | ⟨piece, ps⟩
    · rfl
    · by_cases hpiece : piece = []
      · subst hpiece
        cases ps <;> rfl
      · rw [startSteps_of_ne_nil hpiece, startComponents_cons hpiece]
        split <;> rfl
  rw [steps_eq, components_eq, placeOf_append, placeOf_append, hstart, placeOf_filterMap_step?]

/-- Where a path leads to, if it leads anywhere. -/
def placeAt (t : FileTree) (p : Path) : List String := placeOf t.here p.components

end TreeLint.FileTree
