/-
TreeLint/Proofs/Config/Inheritance.lean

What a file of settings gets that only builds on another one.

A file that says nothing but which file it builds on is merged last onto the
defaults merged with that file.  Two facts about merging settle what comes out:
defaults that are built on leave no trace but their patterns for generated code
(`Config.merge_default_left`), and a layer that says nothing adds none of its
own, but turns parallel runs and the detection of headers back on
(`Config.merge_default_right`).

That the other file can be loaded one level further down is a matter of the
chains of files that build on each other (`Config.BuildsOn`): as long as they are
short of the depth, one level less makes no difference
(`Config.Within.loadWithin_succ`).
-/
import TreeLint.Config.Load
import TreeLint.Proofs.Dict
import TreeLint.Proofs.FileTree
import Mathlib.Data.List.Chain

namespace TreeLint

namespace Config

/-! ### Patterns -/

theorem eraseDups_eraseDups (l : List String) : l.eraseDups.eraseDups = l.eraseDups := by
  induction h : l.length using Nat.strongRecOn generalizing l with
  | ind n ih =>
    cases l with
    | nil => rfl
    | cons a l =>
      have hlt : (l.filter fun b => !b == a).length < n := by
        rw [← h]
        exact Nat.lt_succ_of_le (List.length_filter_le _ _)
      have hself : ((l.filter fun b => !b == a).eraseDups.filter fun b => !b == a)
          = (l.filter fun b => !b == a).eraseDups := by
        rw [List.filter_eq_self]
        intro b hb
        exact (List.mem_filter.mp (List.mem_eraseDups.mp hb)).2
      rw [List.eraseDups_cons, List.eraseDups_cons, hself, ih _ hlt _ rfl]

/-- Missing entries are added at the end, each once. -/
theorem addMissing_eq (old new : List String) :
    addMissing old new = old ++ (new.removeAll old).eraseDups := by
  induction new generalizing old with
  | nil => exact (List.append_nil old).symm
  | cons p new ih =>
    rw [addMissing, List.foldl_cons]
    by_cases hp : p ∈ old
    · have hremove : (p :: new).removeAll old = new.removeAll old :=
        List.filter_cons_of_neg (by simp [hp])
      rw [if_pos (List.contains_iff_mem.mpr hp), hremove]
      exact ih old
    · have hremove : (p :: new).removeAll old = p :: new.removeAll old :=
        List.filter_cons_of_pos (by simp [hp])
      have hmore : new.removeAll (old ++ [p]) = (new.removeAll old).filter fun q => !q == p := by
        rw [List.removeAll, List.removeAll, List.filter_filter]
        refine List.filter_congr fun q _ => ?_
        rw [Bool.and_comm]
        simp [beq_eq_decide]
      rw [if_neg (by simpa using hp), hremove, List.eraseDups_cons, ← hmore]
      exact (ih (old ++ [p])).trans (List.append_assoc _ _ _)

/-- Nothing is missing that is there. -/
theorem addMissing_of_subset {old new : List String} (h : ∀ p ∈ new, p ∈ old) :
    addMissing old new = old := by
  have hnone : new.removeAll old = [] := by
    rw [List.removeAll, List.filter_eq_nil_iff]
    intro p hp
    simp [h p hp]
  rw [addMissing_eq, hnone]
  exact List.append_nil old

theorem subset_addMissing {old new : List String} : ∀ p ∈ old, p ∈ addMissing old new := by
  intro p hp
  rw [addMissing_eq]
  exact List.mem_append_left _ hp

theorem addMissing_append (old new new' : List String) :
    addMissing old (new ++ new') = addMissing (addMissing old new) new' :=
  List.foldl_append

/-- What came about by adding to a list is not changed by doing so again. -/
theorem addMissing_addMissing (old new : List String) :
    addMissing old (addMissing old new) = addMissing old new := by
  have hself : ((new.removeAll old).eraseDups).removeAll old = (new.removeAll old).eraseDups := by
    rw [List.removeAll, List.filter_eq_self]
    intro p hp
    exact (List.mem_filter.mp (List.mem_eraseDups.mp hp)).2
  -- the old entries are all there, and what was added is neither old nor there twice
  conv_lhs => rw [addMissing_eq old new]
  rw [addMissing_append, addMissing_of_subset fun _ hp => hp, addMissing_eq, addMissing_eq, hself,
    eraseDups_eraseDups]

/-! ### Merging -/

/-- A setting that counts unless it is the default, merged onto the default. -/
theorem ite_ne_eq_left {α : Type} [DecidableEq α] (a default : α) :
    (if a ≠ default then a else default) = a := by
  split
  · rfl
  · rename_i h
    exact (Decidable.not_not.mp h).symm

theorem ite_isEmpty (l : List String) : (if l.isEmpty then [] else l) = l := by
  cases l <;> rfl

/-- Merged onto the defaults, settings keep all but their patterns, which come behind those of the
defaults. -/
theorem merge_default_left (c : Config) :
    ({} : Config).merge c = { c with
      inherits := []
      generatedCode := { c.generatedCode with
        patterns :=
          addMissing ({} : GeneratedCodeSettings).patterns c.generatedCode.patterns } } := by
  obtain ⟨inherits, ⟨parallel, jobs⟩, ⟨format, color, verbose⟩,
    ⟨disabled, enabled, ignore, severity, perFile⟩, ⟨patterns, detectHeader⟩, categories⟩ := c
  simp only [merge, ite_ne_eq_left, ite_isEmpty, Dict.empty_insertAll, Dict.empty_appendAll,
    Bool.false_or, List.nil_append]

/-- A layer that says nothing leaves all as it is, but for two settings that it turns back on, and
for the default patterns, which it adds. -/
theorem merge_default_right (c : Config) (inherits : List String) :
    c.merge { inherits } = { c with
      engine := { c.engine with parallel := true }
      generatedCode := {
        patterns := addMissing c.generatedCode.patterns ({} : GeneratedCodeSettings).patterns
        detectHeader := true } } := by
  simp [merge]

/-! ### Loading -/

variable {tree : FileTree} {depth : Nat} {p q f g : Path} {content : String} {c config : Config}

/-- The file that an entry of another file's list stands for, where it is not a preset. -/
def beside (p : Path) (entry : String) : Path := (p.parent?.getD ⟨"."⟩).join ⟨entry⟩

/-- One entry of a file's list, merged onto what there is. -/
def extend (tree : FileTree) (depth : Nat) (p : Path) (base : Config) (entry : String) :
    Except ConfigError Config := do
  let extended ← match preset? entry with
    | some preset => .ok preset
    | none => loadWithin tree depth (beside p entry)
  return base.merge extended

theorem loadWithin_succ (hread : tree.read p = .ok content)
    (htext : ofText (p.extension?.getD "") content = .ok config) :
    loadWithin tree (depth + 1) p =
      if config.inherits.isEmpty then .ok config
      else (config.inherits.foldlM (extend tree depth p) {}).map (·.merge config) := by
  rw [loadWithin, hread]
  show (ofText _ content >>= fun config => _) = _
  rw [htext]
  show (if config.inherits.isEmpty then _ else _) = _
  split
  · rfl
  · show (config.inherits.foldlM (extend tree depth p) {} >>= fun base => .ok (base.merge config))
      = _
    cases config.inherits.foldlM (extend tree depth p) {} <;> rfl

/-- What is loaded has been read, and then merged onto something if the file builds on
something. -/
theorem exists_of_loadWithin_eq_ok (h : loadWithin tree depth p = .ok c) :
    ∃ content config, tree.read p = .ok content ∧
      ofText (p.extension?.getD "") content = .ok config := by
  cases depth with
  | zero => cases h
  | succ depth =>
    rw [loadWithin] at h
    rcases hread : tree.read p with e | content
    · rw [hread] at h
      cases h
    · rw [hread] at h
      rcases htext : ofText (p.extension?.getD "") content with e | config
      · simp only [Except.mapError, bind, Except.bind, htext] at h
        cases h
      · exact ⟨content, config, rfl, htext⟩

/-- A property of the defaults that merging keeps is one of all that is merged onto them. -/
theorem of_foldlM_extend {P : Config → Prop} (hmerge : ∀ base layer, P base → P (base.merge layer))
    {entries : List String} {base result : Config} (hbase : P base)
    (h : entries.foldlM (extend tree depth p) base = .ok result) : P result := by
  induction entries generalizing base with
  | nil =>
    obtain rfl := Except.ok.inj h
    exact hbase
  | cons entry entries ih =>
    rw [List.foldlM_cons] at h
    rcases hnext : extend tree depth p base entry with e | next
    · rw [hnext] at h
      cases h
    · rw [hnext] at h
      refine ih ?_ h
      rw [extend] at hnext
      split at hnext
      · obtain rfl := Except.ok.inj hnext
        exact hmerge base _ hbase
      · rcases hextended : loadWithin tree depth (beside p entry) with e | extended
        · rw [hextended] at hnext
          cases hnext
        · rw [hextended] at hnext
          obtain rfl := Except.ok.inj hnext
          exact hmerge base extended hbase

/-- A file that builds on something loads to its own settings merged onto others, which have every
property of the defaults that merging keeps. -/
theorem exists_merge_of_loadWithin_eq_ok {P : Config → Prop} (hdefault : P {})
    (hmerge : ∀ base layer, P base → P (base.merge layer)) (hread : tree.read p = .ok content)
    (htext : ofText (p.extension?.getD "") content = .ok config) (hne : config.inherits ≠ [])
    (h : loadWithin tree depth p = .ok c) : ∃ base, P base ∧ c = base.merge config := by
  cases depth with
  | zero => cases h
  | succ depth =>
    rw [loadWithin_succ hread htext, if_neg (by simpa using hne)] at h
    rcases hfold : config.inherits.foldlM (extend tree depth p) {} with e | base
    · rw [hfold] at h
      cases h
    · rw [hfold] at h
      exact ⟨base, of_foldlM_extend hmerge hdefault hfold, (Except.ok.inj h).symm⟩

/-- Loading depends on a path only by what it reads, its directory and its extension. -/
theorem loadWithin_congr (hread : tree.read q = tree.read p) (hparent : q.parent? = p.parent?)
    (hextension : q.extension? = p.extension?) :
    loadWithin tree depth q = loadWithin tree depth p := by
  cases depth with
  | zero => rfl
  | succ depth => rw [loadWithin, loadWithin, hread, hparent, hextension]

/-! ### Chains of files -/

/-- The file at `p` lists the file at `q`. -/
def BuildsOn (tree : FileTree) (p q : Path) : Prop :=
  ∃ content config, tree.read p = .ok content ∧
    ofText (p.extension?.getD "") content = .ok config ∧
    ∃ entry ∈ config.inherits, preset? entry = none ∧ beside p entry = q

/-- A chain of files that build on each other, from the given one on, has at most `count`. -/
def Within (tree : FileTree) (count : Nat) (p : Path) : Prop :=
  ∀ rest, List.IsChain (BuildsOn tree) (p :: rest) → (p :: rest).length ≤ count

theorem Within.of_buildsOn (h : Within tree (depth + 1) p) (hq : BuildsOn tree p q) :
    Within tree depth q := by
  intro rest hrest
  exact Nat.le_of_succ_le_succ (h (q :: rest) (.cons_cons hq hrest))

theorem within_succ (h : ∀ q, BuildsOn tree p q → Within tree depth q) :
    Within tree (depth + 1) p := by
  intro rest hrest
  cases hrest with
  | singleton => exact Nat.le_add_left 1 depth
  | cons_cons hq hrest => exact Nat.succ_le_succ (h _ hq _ hrest)

/-- A file builds on the files in its list that are no presets. -/
theorem mem_of_buildsOn (hread : tree.read p = .ok content)
    (htext : ofText (p.extension?.getD "") content = .ok config) (h : BuildsOn tree p q) :
    q ∈ (config.inherits.filter fun entry => (preset? entry).isNone).map (beside p) := by
  obtain ⟨content', config', hread', htext', entry, hentry, hpreset, rfl⟩ := h
  obtain rfl := Except.ok.inj (hread.symm.trans hread')
  obtain rfl := Except.ok.inj (htext.symm.trans htext')
  exact List.mem_map_of_mem (List.mem_filter.mpr ⟨hentry, by rw [hpreset]; rfl⟩)

theorem foldlM_congr {α β ε : Type} {f g : β → α → Except ε β} {xs : List α}
    (h : ∀ x ∈ xs, ∀ b, f b x = g b x) (b : β) : xs.foldlM f b = xs.foldlM g b := by
  induction xs generalizing b with
  | nil => rfl
  | cons x xs ih =>
    rw [List.foldlM_cons, List.foldlM_cons, h x List.mem_cons_self]
    congr 1
    funext b
    exact ih (fun y hy => h y (List.mem_cons_of_mem x hy)) b

/-- Where the chains are short of the depth, one level less makes no difference. -/
theorem Within.loadWithin_succ (h : Within tree depth p) :
    loadWithin tree (depth + 1) p = loadWithin tree depth p := by
  induction depth generalizing p with
  | zero => exact absurd (h [] (.singleton p)) (Nat.not_succ_le_zero 0)
  | succ depth ih =>
    rcases hread : tree.read p with e | content
    · rw [loadWithin, loadWithin, hread]
      rfl
    · rcases htext : ofText (p.extension?.getD "") content with e | config
      · rw [loadWithin, loadWithin, hread]
        simp only [Except.mapError, bind, Except.bind, htext]
      · rw [Config.loadWithin_succ hread htext, Config.loadWithin_succ hread htext]
        -- the chains that start with an entry are shorter by one
        have hstep : ∀ entry ∈ config.inherits, ∀ base,
            extend tree (depth + 1) p base entry = extend tree depth p base entry := by
          intro entry hentry base
          rw [extend, extend]
          rcases hpreset : preset? entry with - | preset
          · simp only
            rw [ih (h.of_buildsOn ⟨content, config, hread, htext, entry, hentry, hpreset, rfl⟩)]
          · rfl
        rw [foldlM_congr hstep]

/-! ### Files that only build on another one -/

/-- The file at `g` stands next to the one at `f`, and says nothing but that it builds on it. -/
structure OnlyExtends (tree : FileTree) (g f : Path) : Prop where
  parent?_eq : g.parent? = f.parent?
  reads : ∃ name content, f.fileName? = some name ∧ tree.read g = .ok content ∧
    ofText (g.extension?.getD "") content = .ok { inherits := [name] }

theorem extension?_eq (h : q.fileName? = p.fileName?) : q.extension? = p.extension? := by
  rw [Path.extension?, Path.extension?, h]

/-- A file with the name of a preset has no extension, so it cannot be loaded. -/
theorem preset?_eq_none {name : String} (hname : p.fileName? = some name)
    (htext : ofText (p.extension?.getD "") content = .ok config) : preset? name = none := by
  have hbare : ∀ preset ∈ ["recommended", "strict", "minimal"], name ≠ preset := by
    rintro preset hpreset rfl
    have hextension : p.extension? = none := by
      rw [Path.extension?, hname]
      simp only [List.mem_cons, List.not_mem_nil, or_false] at hpreset
      rcases hpreset with rfl | rfl | rfl <;> decide
    rw [hextension] at htext
    cases htext
  simp only [List.mem_cons, List.not_mem_nil, or_false, forall_eq_or_imp, forall_eq] at hbare
  unfold preset?
  split
  · exact absurd rfl hbare.1
  · exact absurd rfl hbare.2.1
  · exact absurd rfl hbare.2.2
  · rfl

/-- What a file comes to that only builds on another one. -/
theorem load_of_onlyExtends (hload : load tree f = .ok c) (hchains : Within tree 9 f)
    (hg : OnlyExtends tree g f) :
    ∃ name, load tree g = .ok ((({} : Config).merge c).merge { inherits := [name] }) := by
  obtain ⟨hparent, name, content, hname, hread, htext⟩ := hg
  obtain ⟨fcontent, fconfig, hfread, hftext⟩ := exists_of_loadWithin_eq_ok hload
  -- the name, as seen from the other file, leads to the same content and the same directory
  obtain ⟨q, hq, hqread, hqparent, hqname⟩ := FileTree.read_beside hname hfread
  have hentry : loadWithin tree 9 q = .ok c := by
    rw [loadWithin_congr (hqread.trans hfread.symm) hqparent
      (extension?_eq (hqname.trans hname.symm)), ← hchains.loadWithin_succ]
    exact hload
  have hextend : extend tree 9 g {} name = .ok (({} : Config).merge c) := by
    rw [extend, preset?_eq_none hname hftext]
    simp only
    rw [beside, hparent, hq, hentry]
    rfl
  refine ⟨name, ?_⟩
  rw [load, show maxDepth = 9 + 1 from rfl, Config.loadWithin_succ hread htext, if_neg (by simp),
    List.foldlM_cons, hextend]
  rfl

/-- The settings are those that come from building on `c` alone. -/
structure Inherited (c c' : Config) : Prop where
  jobs_eq : c'.engine.jobs = c.engine.jobs
  output_eq : c'.output = c.output
  rules_eq : c'.rules = c.rules
  categories_eq : c'.categories = c.categories
  /-- Parallel runs stay on. -/
  parallel : c.engine.parallel = true → c'.engine.parallel = true
  /-- The detection of headers stays on. -/
  detectHeader : c.generatedCode.detectHeader = true → c'.generatedCode.detectHeader = true
  /-- The patterns come behind the default ones, each where it first stands. -/
  patterns_eq : c'.generatedCode.patterns
    = (({} : GeneratedCodeSettings).patterns ++ c.generatedCode.patterns).eraseDups

/-- **Inheriting.**  A file that only builds on the file next to it loads to the settings of that
one, with the default patterns for generated code in front of its own.  Where that file builds on
something itself, it has the default patterns in front already, and the patterns are the same. -/
theorem load_inherited (tree : FileTree) (f g : Path) (c : Config) (hload : load tree f = .ok c)
    (hchains : ∀ rest, List.IsChain (BuildsOn tree) (f :: rest) → (f :: rest).length < 10)
    (hg : OnlyExtends tree g f) :
    ∃ c', load tree g = .ok c' ∧ Inherited c c' ∧
      ∀ content config, tree.read f = .ok content →
        ofText (f.extension?.getD "") content = .ok config → config.inherits ≠ [] →
        c'.generatedCode.patterns = c.generatedCode.patterns := by
  have hwithin : Within tree 9 f := fun rest hrest => Nat.le_of_lt_succ (hchains rest hrest)
  obtain ⟨name, hresult⟩ := load_of_onlyExtends hload hwithin hg
  rw [merge_default_left, merge_default_right] at hresult
  have hpatterns : ∀ new : List String,
      addMissing (addMissing ({} : GeneratedCodeSettings).patterns new)
          ({} : GeneratedCodeSettings).patterns
        = addMissing ({} : GeneratedCodeSettings).patterns new :=
    fun new => addMissing_of_subset subset_addMissing
  refine ⟨_, hresult, ⟨rfl, rfl, rfl, rfl, fun _ => rfl, fun _ => rfl, ?_⟩, ?_⟩
  · show addMissing (addMissing _ c.generatedCode.patterns) _ = _
    rw [hpatterns, addMissing_eq, List.eraseDups_append]
    rfl
  · intro content config hread htext hne
    show addMissing (addMissing _ c.generatedCode.patterns) _ = _
    rw [hpatterns]
    -- what is merged onto the defaults has come about by adding to their patterns
    obtain ⟨base, ⟨new, hnew⟩, rfl⟩ := exists_merge_of_loadWithin_eq_ok
      (P := fun c => ∃ new, c.generatedCode.patterns
        = addMissing ({} : GeneratedCodeSettings).patterns new)
      ⟨[], rfl⟩
      (by
        rintro base layer ⟨new, hnew⟩
        exact ⟨new ++ layer.generatedCode.patterns, by rw [addMissing_append, ← hnew]; rfl⟩)
      hread htext hne hload
    have hmerged : (base.merge config).generatedCode.patterns
        = addMissing ({} : GeneratedCodeSettings).patterns
            (new ++ config.generatedCode.patterns) := by
      rw [addMissing_append, ← hnew]
      rfl
    rw [hmerged, addMissing_addMissing]

/-- Settings with a pattern of their own, settings that build on them and on a preset, and for each
of the two a file that only builds on it. -/
def settingsFiles : FileTree where
  files := [
    (["base.yaml"], "generated_code:\n  patterns: [\"**/Generated/**\"]\n"),
    (["team.yaml"], "extends: [strict, base.yaml]\noutput:\n  format: json\n"),
    (["app.yaml"], "extends: [base.yaml]\n"),
    (["tool.yaml"], "extends: [team.yaml]\n")]

theorem within_base : Within settingsFiles 8 ⟨"base.yaml"⟩ := by
  refine within_succ fun q hq => ?_
  have hread : settingsFiles.read ⟨"base.yaml"⟩
      = .ok "generated_code:\n  patterns: [\"**/Generated/**\"]\n" := by decide +kernel
  have htext : ofText ((Path.mk "base.yaml").extension?.getD "")
      "generated_code:\n  patterns: [\"**/Generated/**\"]\n"
      = .ok { generatedCode := { patterns := ["**/Generated/**"] } } := by decide +kernel
  cases mem_of_buildsOn hread htext hq

theorem load_inherited_team :
    ∃ c c', load settingsFiles ⟨"team.yaml"⟩ = .ok c ∧ load settingsFiles ⟨"tool.yaml"⟩ = .ok c' ∧
      Inherited c c' ∧ c'.generatedCode.patterns = c.generatedCode.patterns := by
  have hread : settingsFiles.read ⟨"team.yaml"⟩
      = .ok "extends: [strict, base.yaml]\noutput:\n  format: json\n" := by decide +kernel
  have htext : ofText ((Path.mk "team.yaml").extension?.getD "")
      "extends: [strict, base.yaml]\noutput:\n  format: json\n"
      = .ok { inherits := ["strict", "base.yaml"], output := { format := .json } } := by
    decide +kernel
  have hload : load settingsFiles ⟨"team.yaml"⟩ = .ok {
      output := { format := .json }
      rules := { enabled := ["*"], severity := .single "SC*" .error }
      generatedCode := { patterns :=
        ["**/*.g.cs", "**/*.designer.cs", "**/*.generated.cs", "**/Generated/**"] } } := by
    decide +kernel
  have hwithin : Within settingsFiles 9 ⟨"team.yaml"⟩ := by
    refine within_succ fun q hq => ?_
    have hmem : q ∈ [Path.mk "base.yaml"] := mem_of_buildsOn hread htext hq
    exact List.mem_singleton.mp hmem ▸ within_base
  have honly : OnlyExtends settingsFiles ⟨"tool.yaml"⟩ ⟨"team.yaml"⟩ :=
    ⟨by decide, "team.yaml", "extends: [team.yaml]\n", by decide, by decide +kernel,
      by decide +kernel⟩
  obtain ⟨c', hc', hinherited, hsame⟩ := load_inherited settingsFiles ⟨"team.yaml"⟩ ⟨"tool.yaml"⟩ _
    hload (fun rest hrest => Nat.lt_succ_of_le (hwithin rest hrest)) honly
  exact ⟨_, c', hload, hc', hinherited, hsame _ _ hread htext (List.cons_ne_nil _ _)⟩

/-- Building on a file is not the same as that file: its patterns come behind the default ones. -/
theorem load_onlyExtends_ne :
    ¬ ∀ (tree : FileTree) (f g : Path) (c : Config), load tree f = .ok c →
      (∀ rest, List.IsChain (BuildsOn tree) (f :: rest) → (f :: rest).length < 10) →
      OnlyExtends tree g f →
      ∃ c', load tree g = .ok c' ∧ c'.engine = c.engine ∧ c'.output = c.output ∧
        c'.rules = c.rules ∧ c'.generatedCode = c.generatedCode ∧
        c'.categories = c.categories := by
  intro h
  have hload : load settingsFiles ⟨"base.yaml"⟩
      = .ok { generatedCode := { patterns := ["**/Generated/**"] } } := by decide +kernel
  have honly : OnlyExtends settingsFiles ⟨"app.yaml"⟩ ⟨"base.yaml"⟩ :=
    ⟨by decide, "base.yaml", "extends: [base.yaml]\n", by decide, by decide +kernel,
      by decide +kernel⟩
  obtain ⟨c', hc', -, -, -, hgenerated, -⟩ := h settingsFiles ⟨"base.yaml"⟩ ⟨"app.yaml"⟩ _ hload
    (fun rest hrest => Nat.lt_succ_of_le (Nat.le_succ_of_le (within_base rest hrest))) honly
  have happ : load settingsFiles ⟨"app.yaml"⟩ = .ok { generatedCode := { patterns :=
      ["**/*.g.cs", "**/*.designer.cs", "**/*.generated.cs", "**/Generated/**"] } } := by
    decide +kernel
  obtain rfl := Except.ok.inj (hc'.symm.trans happ)
  revert hgenerated
  decide

end Config

end TreeLint
