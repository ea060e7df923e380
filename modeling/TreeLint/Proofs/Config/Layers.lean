/-
TreeLint/Proofs/Config/Layers.lean

Inheritance is a fold.

Merging is associative (`Config.merge_assoc`), although each field follows a law
of its own: the last setting that is not the default counts, or the last list
that is not empty, or simply the last setting; lists are appended, patterns for
generated code only where they are missing, and maps are entered into each other.

So it does not matter how files are nested.  What a file builds on is one list of
layers (`Config.Flattened`), and the file loads to the defaults with all of these
merged onto them, and itself last.  One thing has to be seen to: a nested file
starts from the defaults again, and the defaults are not neutral.  They turn
parallel runs and the detection of headers back on, and they add their patterns.
But the nested file itself follows, which settles the first two again, and the
patterns are there since the outermost file has started from the defaults
(`Config.merge_default_merge`).
-/
import TreeLint.Proofs.Config.Inheritance

namespace TreeLint

namespace Config

/-! ### Associativity, field by field -/

theorem addMissing_assoc (old new more : List String) :
    addMissing old (addMissing new more) = addMissing (addMissing old new) more := by
  induction more generalizing new with
  | nil => rfl
  | cons p more ih =>
    -- one more entry for the middle list is one more entry for the whole
    have hstep : addMissing old (if new.contains p then new else new ++ [p])
        = if (addMissing old new).contains p then addMissing old new
          else addMissing old new ++ [p] := by
      by_cases hp : p ∈ new
      · have hmem : p ∈ addMissing old new := by
          rw [addMissing_eq, List.mem_append, List.mem_eraseDups, List.removeAll, List.mem_filter]
          by_cases hold : p ∈ old
          · exact .inl hold
          · exact .inr ⟨hp, by simpa using hold⟩
        rw [if_pos (List.contains_iff_mem.mpr hp), if_pos (List.contains_iff_mem.mpr hmem)]
      · rw [if_neg (by simpa using hp), addMissing_append]
        rfl
    show addMissing old (addMissing (if new.contains p then new else new ++ [p]) more) = _
    rw [ih, hstep]
    rfl

/-- Of settings that count unless they are the default, the last one counts. -/
theorem ite_ne_assoc {α : Type} [DecidableEq α] (a b c default : α) :
    (if c ≠ default then c else if b ≠ default then b else a)
      = if (if c ≠ default then c else b) ≠ default then (if c ≠ default then c else b) else a := by
  by_cases h : c = default
  · rw [if_neg (not_not.mpr h), if_neg (not_not.mpr h)]
  · rw [if_pos h, if_pos h, if_pos h]

/-- Of lists that count unless they are empty, the last one counts. -/
theorem ite_isEmpty_assoc (a b c : List String) :
    (if c.isEmpty then if b.isEmpty then a else b else c)
      = if (if c.isEmpty then b else c).isEmpty then a else if c.isEmpty then b else c := by
  cases c <;> rfl

theorem merge_assoc (a b c : Config) : (a.merge b).merge c = a.merge (b.merge c) := by
  simp only [merge, addMissing_assoc, ite_ne_assoc, ite_isEmpty_assoc, Bool.or_assoc,
    List.append_assoc, Dict.insertAll_assoc, Dict.appendAll_assoc]
  -- both sides now differ only in how the conditions are decided
  rfl

/-! ### Folds -/

variable {base : Config}

/-- Layers merged together first come to the same. -/
theorem merge_foldl (base start : Config) (layers : List Config) :
    base.merge (layers.foldl merge start) = layers.foldl merge (base.merge start) := by
  induction layers generalizing start with
  | nil => rfl
  | cons layer layers ih =>
    rw [List.foldl_cons, List.foldl_cons, ih, merge_assoc]

/-- The settings have the default patterns for generated code. -/
def HasDefaultPatterns (c : Config) : Prop :=
  ∀ p ∈ ({} : GeneratedCodeSettings).patterns, p ∈ c.generatedCode.patterns

theorem HasDefaultPatterns.merge (h : base.HasDefaultPatterns) (layer : Config) :
    (base.merge layer).HasDefaultPatterns :=
  fun p hp => subset_addMissing p (h p hp)

/-- Defaults that come between leave no trace. -/
theorem merge_default_merge (h : base.HasDefaultPatterns) (layer : Config) :
    (base.merge {}).merge layer = base.merge layer := by
  rw [merge_default_right, addMissing_of_subset h]
  rfl

/-- Merging layers that were merged onto the defaults is merging the layers. -/
theorem merge_foldl_default (h : base.HasDefaultPatterns) {layers : List Config}
    (hne : layers ≠ []) : base.merge (layers.foldl merge {}) = layers.foldl merge base := by
  rw [merge_foldl]
  cases layers with
  | nil => exact absurd rfl hne
  | cons layer layers => rw [List.foldl_cons, List.foldl_cons, merge_default_merge h]

/-! ### What a file builds on, as one list -/

variable {tree : FileTree} {depth : Nat} {p q : Path} {content : String} {c config : Config}
  {entries : List String} {layers : List Config}

/-- The file at `p` can be read, and its content is settings in the format that its extension
names. -/
def Holds (tree : FileTree) (p : Path) (config : Config) : Prop :=
  ∃ content, tree.read p = .ok content ∧ ofText (p.extension?.getD "") content = .ok config

theorem Holds.unique {config' : Config} (h : Holds tree p config) (h' : Holds tree p config') :
    config = config' := by
  obtain ⟨content, hread, htext⟩ := h
  obtain ⟨content', hread', htext'⟩ := h'
  obtain rfl := Except.ok.inj (hread.symm.trans hread')
  exact Except.ok.inj (htext.symm.trans htext')

/-- What the entries of the file at `p` stand for as one list: a preset for itself, and a file for
what its own entries stand for, followed by the file. -/
inductive Flattened (tree : FileTree) : (p : Path) → List String → List Config → Prop
  | nil {p : Path} : Flattened tree p [] []
  | preset {p : Path} {entry : String} {preset : Config} {entries : List String}
      {layers : List Config} (known : preset? entry = some preset)
      (rest : Flattened tree p entries layers) :
      Flattened tree p (entry :: entries) (preset :: layers)
  | file {p : Path} {entry : String} {config : Config} {entries : List String}
      {below layers : List Config} (unknown : preset? entry = none)
      (holds : Holds tree (beside p entry) config)
      (nested : Flattened tree (beside p entry) config.inherits below)
      (rest : Flattened tree p entries layers) :
      Flattened tree p (entry :: entries) (below ++ [config] ++ layers)

/-- There is only one such list. -/
theorem Flattened.unique {layers' : List Config} (h : Flattened tree p entries layers)
    (h' : Flattened tree p entries layers') : layers = layers' := by
  induction h generalizing layers' with
  | nil =>
    cases h'
    rfl
  | preset known _ ih =>
    cases h' with
    | preset known' rest' =>
      obtain rfl := Option.some.inj (known.symm.trans known')
      rw [ih rest']
    | file unknown => cases unknown.symm.trans known
  | file unknown holds _ _ ihnested ihrest =>
    cases h' with
    | preset known => cases unknown.symm.trans known
    | file _ holds' nested' rest' =>
      obtain rfl := holds.unique holds'
      rw [ihnested nested', ihrest rest']

/-- A file comes to its own settings if it builds on nothing, and otherwise to all it builds on,
merged onto the defaults, and itself last. -/
structure Assembled (tree : FileTree) (p : Path) (config : Config) (layers : List Config)
    (c : Config) : Prop where
  flattened : Flattened tree p config.inherits layers
  alone : config.inherits = [] → layers = [] ∧ c = config
  folded : config.inherits ≠ [] → c = (layers ++ [config]).foldl merge {}

/-- Onto settings with the default patterns a file is merged like the layers it is made of. -/
theorem Assembled.merge_eq (h : Assembled tree p config layers c)
    (hbase : base.HasDefaultPatterns) :
    base.merge c = (layers ++ [config]).foldl merge base := by
  by_cases hinherits : config.inherits = []
  · obtain ⟨rfl, rfl⟩ := h.alone hinherits
    rfl
  · rw [h.folded hinherits]
    exact merge_foldl_default hbase (List.append_ne_nil_of_right_ne_nil _ (List.cons_ne_nil _ _))

theorem exists_of_bind_eq_ok {α β ε : Type} {x : Except ε α} {f : α → Except ε β} {b : β}
    (h : x >>= f = .ok b) : ∃ a, x = .ok a ∧ f a = .ok b := by
  cases x with
  | error e => cases h
  | ok a => exact ⟨a, rfl, h⟩

/-- The entries of a file are merged like the layers they stand for, if each file among them is. -/
theorem exists_flattened_of_foldlM {result : Config}
    (hfiles : ∀ q c, loadWithin tree depth q = .ok c →
      ∃ config layers, Holds tree q config ∧ Assembled tree q config layers c)
    (hbase : base.HasDefaultPatterns)
    (h : entries.foldlM (extend tree depth p) base = .ok result) :
    ∃ layers, Flattened tree p entries layers ∧ result = layers.foldl merge base := by
  induction entries generalizing base with
  | nil =>
    obtain rfl := Except.ok.inj h
    exact ⟨[], .nil, rfl⟩
  | cons entry entries ih =>
    rw [List.foldlM_cons] at h
    obtain ⟨next, hnext, hrest⟩ := exists_of_bind_eq_ok h
    rw [extend] at hnext
    rcases hpreset : preset? entry with - | preset
    · rw [hpreset] at hnext
      obtain ⟨c, hc, hmerged⟩ := exists_of_bind_eq_ok hnext
      obtain rfl := Except.ok.inj hmerged
      obtain ⟨layers, hlayers, hresult⟩ := ih (hbase.merge c) hrest
      obtain ⟨config, below, hholds, hassembled⟩ := hfiles _ _ hc
      refine ⟨_, .file hpreset hholds hassembled.flattened hlayers, ?_⟩
      -- the file started from the defaults, but what is below it has these already
      rw [List.foldl_append, ← hassembled.merge_eq hbase]
      exact hresult
    · rw [hpreset] at hnext
      obtain rfl := Except.ok.inj hnext
      obtain ⟨layers, hlayers, hresult⟩ := ih (hbase.merge preset) hrest
      exact ⟨_, .preset hpreset hlayers, hresult⟩

theorem exists_assembled (h : loadWithin tree depth p = .ok c) :
    ∃ config layers, Holds tree p config ∧ Assembled tree p config layers c := by
  induction depth generalizing p c with
  | zero => cases h
  | succ depth ih =>
    obtain ⟨content, config, hread, htext⟩ := exists_of_loadWithin_eq_ok h
    rw [loadWithin_succ hread htext] at h
    by_cases hinherits : config.inherits = []
    · rw [if_pos (List.isEmpty_iff.mpr hinherits)] at h
      obtain rfl := Except.ok.inj h
      exact ⟨config, [], ⟨content, hread, htext⟩, hinherits ▸ .nil, fun _ => ⟨rfl, rfl⟩,
        fun hne => absurd hinherits hne⟩
    · rw [if_neg (by simpa using hinherits)] at h
      rcases hfold : config.inherits.foldlM (extend tree depth p) {} with e | base
      · rw [hfold] at h
        cases h
      rw [hfold] at h
      obtain rfl := Except.ok.inj h
      obtain ⟨layers, hlayers, rfl⟩ := exists_flattened_of_foldlM (fun _ _ => ih)
        (fun _ hp => hp) hfold
      refine ⟨config, layers, ⟨content, hread, htext⟩, hlayers,
        fun hnil => absurd hnil hinherits, ?_⟩
      intro _
      rw [List.foldl_append]
      rfl

/-! ### Main result -/

/-- **Inheritance is a fold.**  Merging is associative in every field.  So a file that builds on
something loads to the defaults with all it builds on merged onto them in order, however deeply that
is nested, and with itself last. -/
theorem load_eq_foldl_merge :
    (∀ a b c : Config, (a.merge b).merge c = a.merge (b.merge c)) ∧
      ∀ (tree : FileTree) (p : Path) (config c : Config),
        Holds tree p config → config.inherits ≠ [] → load tree p = .ok c →
        ∃ layers, Flattened tree p config.inherits layers ∧
          (∀ layers', Flattened tree p config.inherits layers' → layers' = layers) ∧
          c = (layers ++ [config]).foldl merge {} := by
  refine ⟨merge_assoc, ?_⟩
  intro tree p config c hholds hinherits hload
  obtain ⟨config', layers, hholds', hassembled⟩ := exists_assembled hload
  obtain rfl := hholds.unique hholds'
  exact ⟨layers, hassembled.flattened, fun _ h => h.unique hassembled.flattened,
    hassembled.folded hinherits⟩

/-- Settings that build on a file without parallel runs, and on one that builds on a preset. -/
def layeredFiles : FileTree where
  files := [
    (["quiet.yaml"], "engine:\n  parallel: false\n"),
    (["team.yaml"], "extends: [strict]\nrules:\n  severity: \x7bSC0001: info\x7d\n"),
    (["app.yaml"], "extends: [quiet.yaml, team.yaml]\nrules:\n  disabled: [SC0003]\n")]

/-- The nested file starts from the defaults, but its layers are merged as if it did not. -/
theorem load_eq_foldl_merge_nested :
    let quiet : Config := { engine := { parallel := false } }
    let strict : Config := { rules := { enabled := ["*"], severity := .single "SC*" .error } }
    let team : Config :=
      { inherits := ["strict"], rules := { severity := .single "SC0001" .info } }
    let app : Config :=
      { inherits := ["quiet.yaml", "team.yaml"], rules := { disabled := ["SC0003"] } }
    (team.merge strict).merge app = team.merge (strict.merge app) ∧ app.inherits ≠ [] ∧
      ∃ c, load layeredFiles ⟨"app.yaml"⟩ = .ok c ∧
        c = [quiet, strict, team, app].foldl merge {} ∧
        c.rules.severity.entries = [("SC*", .error), ("SC0001", .info)] := by
  intro quiet strict team app
  have happ : Holds layeredFiles ⟨"app.yaml"⟩ app :=
    ⟨"extends: [quiet.yaml, team.yaml]\nrules:\n  disabled: [SC0003]\n", by decide +kernel,
      by decide +kernel⟩
  have hquiet : Holds layeredFiles (beside ⟨"app.yaml"⟩ "quiet.yaml") quiet :=
    ⟨"engine:\n  parallel: false\n", by decide +kernel, by decide +kernel⟩
  have hteam : Holds layeredFiles (beside ⟨"app.yaml"⟩ "team.yaml") team :=
    ⟨"extends: [strict]\nrules:\n  severity: \x7bSC0001: info\x7d\n", by decide +kernel,
      by decide +kernel⟩
  have hflattened : Flattened layeredFiles ⟨"app.yaml"⟩ app.inherits [quiet, strict, team] :=
    .file rfl hquiet .nil (.file rfl hteam (.preset rfl .nil) .nil)
  have hload : load layeredFiles ⟨"app.yaml"⟩
      = .ok ([quiet, strict, team, app].foldl merge {}) := by
    decide +kernel
  obtain ⟨hassoc, hfold⟩ := load_eq_foldl_merge
  obtain ⟨layers, -, hunique, hc⟩ :=
    hfold layeredFiles ⟨"app.yaml"⟩ app _ happ (List.cons_ne_nil _ _) hload
  rw [← hunique _ hflattened] at hc
  exact ⟨hassoc team strict app, List.cons_ne_nil _ _, _, hload, hc, rfl⟩

end Config

end TreeLint
