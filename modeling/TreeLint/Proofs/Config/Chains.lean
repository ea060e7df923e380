/-
TreeLint/Proofs/Config/Chains.lean

Loading succeeds exactly on finite inheritance.

A file is loaded if and only if it holds settings and all it builds on are loaded
with one level less (`Config.exists_loadWithin_succ_iff`).  By induction on the
depth, a load succeeds exactly when all files that are reached hold settings and
no chain of files that build on each other is longer than the depth
(`Config.exists_loadWithin_eq_ok_iff`).

A cycle need not come back to the same path: `conf/app.yaml` may build on
`../conf/app.yaml`, and every round makes the path longer.  But two paths to one
place hold the same settings, and their entries lead to the same places again
(`Config.BuildsOn.of_samePlace`), so a chain that comes back to a place can be
continued for ever.
-/
import TreeLint.Proofs.Config.Layers
import TreeLint.Proofs.Scan
import Mathlib.Logic.Relation

namespace TreeLint

open Relation

namespace Config

variable {tree : FileTree} {depth : Nat} {p q r : Path} {content : String} {c config : Config}
  {e : ConfigError}

/-! ### Files that hold settings -/

/-- A file stands at `p`, its extension is one of those for settings, and it parses. -/
def Readable (tree : FileTree) (p : Path) : Prop :=
  ∃ content ext, tree.read p = .ok content ∧ p.extension? = some ext ∧
    ((ext = "yaml" ∨ ext = "yml") ∧ (∃ v, Yaml.parse content = some v ∧ (ofYaml? v).isSome) ∨
      ext = "json" ∧ ∃ v, Json.parse content = (v, true) ∧ (ofJson? v).isSome)

theorem exists_elim_eq_ok_iff {α ε : Type} {o : Option α} {e : ε} :
    (∃ a, o.elim (Except.error e) Except.ok = .ok a) ↔ o.isSome := by
  cases o with
  | none => simp
  | some a => simp

theorem isSome_bind_iff {α β : Type} {o : Option α} {f : α → Option β} :
    (o.bind f).isSome ↔ ∃ a, o = some a ∧ (f a).isSome := by
  cases o <;> simp

/-- What has an extension has a name. -/
theorem exists_fileName?_of_extension? {ext : String} (h : p.extension? = some ext) :
    ∃ name, p.fileName? = some name := by
  obtain ⟨name, hname, -⟩ := Option.bind_eq_some_iff.mp h
  exact ⟨name, hname⟩

theorem exists_ofText_eq_ok_iff {ext : String} :
    (∃ config, ofText ext content = .ok config) ↔
      (ext = "yaml" ∨ ext = "yml") ∧ (∃ v, Yaml.parse content = some v ∧ (ofYaml? v).isSome) ∨
        ext = "json" ∧ ∃ v, Json.parse content = (v, true) ∧ (ofJson? v).isSome := by
  unfold ofText
  split
  · rw [exists_elim_eq_ok_iff, isSome_bind_iff]
    simp
  · rw [exists_elim_eq_ok_iff, isSome_bind_iff]
    simp
  · rcases hparse : Json.parse content with ⟨v, ended⟩
    cases ended with
    | false => simp
    | true => simp [exists_elim_eq_ok_iff]
  · rename_i hyaml hyml hjson
    constructor
    · rintro ⟨config, hconfig⟩
      cases hconfig
    · rintro (⟨rfl | rfl, -⟩ | ⟨rfl, -⟩)
      · exact absurd rfl hyaml
      · exact absurd rfl hyml
      · exact absurd rfl hjson

theorem readable_iff : Readable tree p ↔ ∃ config, Holds tree p config := by
  constructor
  · rintro ⟨content, ext, hread, hext, hparse⟩
    obtain ⟨config, hconfig⟩ := exists_ofText_eq_ok_iff.mpr hparse
    exact ⟨config, content, hread, by rwa [hext]⟩
  · rintro ⟨config, content, hread, htext⟩
    rcases hext : p.extension? with - | ext
    · rw [hext] at htext
      cases htext
    · rw [hext] at htext
      exact ⟨content, ext, hread, hext, exists_ofText_eq_ok_iff.mp ⟨config, htext⟩⟩

theorem Holds.exists_fileName? (h : Holds tree p config) : ∃ name, p.fileName? = some name := by
  obtain ⟨_, ext, -, hext, -⟩ := readable_iff.mpr ⟨config, h⟩
  exact exists_fileName?_of_extension? hext

theorem buildsOn_iff (h : Holds tree p config) : BuildsOn tree p q ↔
    ∃ entry ∈ config.inherits, preset? entry = none ∧ beside p entry = q := by
  constructor
  · rintro ⟨content, config', hread, htext, hentry⟩
    rwa [h.unique ⟨content, hread, htext⟩]
  · intro hentry
    obtain ⟨content, hread, htext⟩ := h
    exact ⟨content, config, hread, htext, hentry⟩

/-! ### One file -/

/-- Why the file at `p` does not hold settings. -/
def Fault (tree : FileTree) (p : Path) (e : ConfigError) : Prop :=
  (∃ cause, tree.read p = .error cause ∧ e = .file cause) ∨
    ∃ content, tree.read p = .ok content ∧ ofText (p.extension?.getD "") content = .error e

/-- A file that does not hold settings cannot be loaded at any depth. -/
theorem exists_fault (h : ¬ ∃ config, Holds tree p config) :
    ∃ e, Fault tree p e ∧ ∀ depth, loadWithin tree (depth + 1) p = .error e := by
  rcases hread : tree.read p with cause | content
  · refine ⟨.file cause, .inl ⟨cause, hread, rfl⟩, ?_⟩
    intro depth
    rw [loadWithin, hread]
    rfl
  · rcases htext : ofText (p.extension?.getD "") content with e | config
    · refine ⟨e, .inr ⟨content, hread, htext⟩, ?_⟩
      intro depth
      rw [loadWithin, hread]
      show (ofText _ content >>= fun config => _) = _
      rw [htext]
      rfl
    · exact absurd ⟨config, content, hread, htext⟩ h

/-- An entry of a list fails as the file does that it stands for. -/
theorem findsFaults_extend (tree : FileTree) (depth : Nat) (p : Path) :
    FindsFaults
      (fun _ entry e => preset? entry = none ∧ loadWithin tree depth (beside p entry) = .error e)
      (fun _ _ => True) (extend tree depth p) where
  error := by
    intro _ base _ entry e
    rw [extend]
    rcases hpreset : preset? entry with - | preset
    · rcases hload : loadWithin tree depth (beside p entry) with e' | c
      · simp [bind, Except.bind]
      · simp [bind, Except.bind, pure, Except.pure]
    · simp [bind, Except.bind, pure, Except.pure]
  ok _ _ _ _ := trivial

theorem exists_loadWithin_succ_iff_foldlM (h : Holds tree p config) :
    (∃ c, loadWithin tree (depth + 1) p = .ok c) ↔
      ∃ base, config.inherits.foldlM (extend tree depth p) {} = .ok base := by
  obtain ⟨content, hread, htext⟩ := h
  rw [loadWithin_succ hread htext]
  by_cases hinherits : config.inherits = []
  · rw [if_pos (List.isEmpty_iff.mpr hinherits), hinherits]
    exact ⟨fun _ => ⟨{}, rfl⟩, fun _ => ⟨config, rfl⟩⟩
  · rw [if_neg (by simpa using hinherits)]
    cases config.inherits.foldlM (extend tree depth p) {} <;> simp [Except.map]

/-- **One level.**  A file is loaded if all files that it builds on are loaded with one level
less. -/
theorem exists_loadWithin_succ_iff (h : Holds tree p config) :
    (∃ c, loadWithin tree (depth + 1) p = .ok c) ↔
      ∀ q, BuildsOn tree p q → ∃ c, loadWithin tree depth q = .ok c := by
  rw [exists_loadWithin_succ_iff_foldlM h,
    (findsFaults_extend tree depth p).exists_foldlM_eq_ok_iff trivial]
  simp only [buildsOn_iff h]
  constructor
  · rintro hfaultless q ⟨entry, hentry, hpreset, rfl⟩
    obtain ⟨before, after, hsplit⟩ := List.append_of_mem hentry
    rcases hload : loadWithin tree depth (beside p entry) with e | c
    · exact absurd ⟨hpreset, hload⟩ (hfaultless before entry after hsplit e)
    · exact ⟨c, rfl⟩
  · rintro hloads before entry after hsplit e ⟨hpreset, herror⟩
    obtain ⟨c, hc⟩ := hloads _ ⟨entry, by simp [hsplit], hpreset, rfl⟩
    rw [hc] at herror
    cases herror

/-- A file that holds settings fails as one of the files does that it builds on. -/
theorem exists_of_loadWithin_succ_eq_error (h : Holds tree p config)
    (he : loadWithin tree (depth + 1) p = .error e) :
    ∃ q, BuildsOn tree p q ∧ loadWithin tree depth q = .error e := by
  obtain ⟨content, hread, htext⟩ := h
  rw [loadWithin_succ hread htext] at he
  split at he
  · cases he
  · rcases hfold : config.inherits.foldlM (extend tree depth p) {} with e' | base
    · rw [hfold] at he
      obtain rfl := Except.error.inj he
      obtain ⟨before, entry, after, hsplit, -, hpreset, herror⟩ :=
        ((findsFaults_extend tree depth p).foldlM_eq_error_iff trivial).mp hfold
      refine ⟨beside p entry, ?_, herror⟩
      exact (buildsOn_iff ⟨content, hread, htext⟩).mpr ⟨entry, by simp [hsplit], hpreset, rfl⟩
    · rw [hfold] at he
      cases he

/-! ### All files -/

theorem within_succ_iff :
    Within tree (depth + 1) p ↔ ∀ q, BuildsOn tree p q → Within tree depth q :=
  ⟨fun h _ hq => h.of_buildsOn hq, within_succ⟩

theorem not_within_zero : ¬ Within tree 0 p :=
  fun h => absurd (h [] (.singleton p)) (Nat.not_succ_le_zero 0)

/-- All files that are reached from the one at `p` hold settings. -/
def AllHold (tree : FileTree) (p : Path) : Prop :=
  ∀ q, ReflTransGen (BuildsOn tree) p q → ∃ config, Holds tree q config

theorem allHold_iff : AllHold tree p ↔
    (∃ config, Holds tree p config) ∧ ∀ q, BuildsOn tree p q → AllHold tree q := by
  constructor
  · intro h
    exact ⟨h p .refl, fun q hq r hr => h r (.head hq hr)⟩
  · rintro ⟨hp, hnext⟩ q hq
    rcases hq.cases_head with rfl | ⟨r, hr, hrq⟩
    · exact hp
    · exact hnext r hr q hrq

/-- **A load succeeds** exactly if all files that are reached hold settings, and the chains keep
within the depth. -/
theorem exists_loadWithin_eq_ok_iff :
    (∃ c, loadWithin tree depth p = .ok c) ↔ AllHold tree p ∧ Within tree depth p := by
  induction depth generalizing p with
  | zero =>
    refine ⟨?_, fun h => absurd h.2 not_within_zero⟩
    rintro ⟨c, hc⟩
    cases hc
  | succ depth ih =>
    rw [allHold_iff, within_succ_iff]
    -- what a file builds on is known only if it holds settings
    by_cases hholds : ∃ config, Holds tree p config
    · obtain ⟨config, hconfig⟩ := hholds
      simp only [exists_loadWithin_succ_iff hconfig, ih]
      constructor
      · exact fun h => ⟨⟨⟨config, hconfig⟩, fun q hq => (h q hq).1⟩, fun q hq => (h q hq).2⟩
      · exact fun h q hq => ⟨h.1.2 q hq, h.2 q hq⟩
    · refine ⟨?_, fun h => absurd h.1.1 hholds⟩
      rintro ⟨c, hc⟩
      obtain ⟨content, config, hread, htext⟩ := exists_of_loadWithin_eq_ok hc
      exact absurd ⟨config, content, hread, htext⟩ hholds

/-- **A load fails** for want of depth, or as one of the files does that are reached. -/
theorem of_loadWithin_eq_error (h : loadWithin tree depth p = .error e) :
    (e = .tooDeep ∧
        ∃ rest, List.IsChain (BuildsOn tree) (p :: rest) ∧ (p :: rest).length = depth + 1) ∨
      ∃ q, ReflTransGen (BuildsOn tree) p q ∧ Fault tree q e := by
  induction depth generalizing p with
  | zero => exact .inl ⟨(Except.error.inj h).symm, [], .singleton p, rfl⟩
  | succ depth ih =>
    by_cases hholds : ∃ config, Holds tree p config
    · obtain ⟨config, hconfig⟩ := hholds
      obtain ⟨q, hq, herror⟩ := exists_of_loadWithin_succ_eq_error hconfig h
      rcases ih herror with ⟨rfl, rest, hchain, hlength⟩ | ⟨r, hr, hfault⟩
      · exact .inl ⟨rfl, q :: rest, .cons_cons hq hchain, congrArg (· + 1) hlength⟩
      · exact .inr ⟨r, .head hq hr, hfault⟩
    · obtain ⟨e', hfault, herror⟩ := exists_fault hholds
      obtain rfl := Except.error.inj (h.symm.trans (herror depth))
      exact .inr ⟨p, .refl, hfault⟩

/-! ### Cycles -/

/-- The paths lead to one place, or to none for the same reason. -/
def SamePlace (tree : FileTree) (p q : Path) : Prop :=
  tree.resolve tree.here p.steps = tree.resolve tree.here q.steps

/-- What is found at one place holds the same, and goes on to the same places. -/
theorem BuildsOn.of_samePlace (h : BuildsOn tree p r) (hsame : SamePlace tree p q)
    (hq : ∃ config, Holds tree q config) :
    ∃ r', BuildsOn tree q r' ∧ SamePlace tree r r' := by
  obtain ⟨content, config, hread, htext, entry, hentry, hpreset, rfl⟩ := h
  obtain ⟨config', content', hread', htext'⟩ := hq
  obtain ⟨name, hname⟩ := Holds.exists_fileName? ⟨content, hread, htext⟩
  obtain ⟨name', hname'⟩ := Holds.exists_fileName? ⟨content', hread', htext'⟩
  obtain ⟨dir, hplace, hon⟩ := FileTree.exists_resolve_beside_eq hname hread
  obtain ⟨dir', hplace', hon'⟩ := FileTree.exists_resolve_beside_eq hname' hread'
  -- the place ends with the name, and what comes before it is the directory
  have hends : dir ++ [name] = dir' ++ [name'] :=
    Except.ok.inj (hplace.symm.trans (hsame.trans hplace'))
  obtain ⟨rfl, hnames⟩ := List.append_inj' hends rfl
  obtain rfl := (List.cons.inj hnames).1
  have hcontent : content' = content := by
    obtain ⟨-, -, place, hresolve, hfile⟩ := FileTree.read_eq_ok_iff.mp hread
    obtain ⟨-, -, place', hresolve', hfile'⟩ := FileTree.read_eq_ok_iff.mp hread'
    obtain rfl := Except.ok.inj (hresolve.symm.trans (hsame.trans hresolve'))
    have hentries := Option.some.inj (hfile.symm.trans hfile')
    exact (FileTree.Entry.file.inj hentries).symm
  have htext' : ofText (q.extension?.getD "") content' = .ok config := by
    rw [extension?_eq (hname'.trans hname.symm), hcontent]
    exact htext
  refine ⟨beside q entry, ⟨content', config, hread', htext', entry, hentry, hpreset, rfl⟩, ?_⟩
  exact (hon ⟨entry⟩).trans (hon' ⟨entry⟩).symm

/-- A way from one path to a place can be gone from the other one as well. -/
theorem exists_transGen_of_samePlace (h : TransGen (BuildsOn tree) p r)
    (hsame : SamePlace tree p q) (hq : AllHold tree q) :
    ∃ r', TransGen (BuildsOn tree) q r' ∧ SamePlace tree r r' := by
  induction h with
  | single hstep =>
    obtain ⟨r', hr', hsame'⟩ := hstep.of_samePlace hsame (hq q .refl)
    exact ⟨r', .single hr', hsame'⟩
  | tail _ hstep ih =>
    obtain ⟨b', hb', hsame'⟩ := ih
    obtain ⟨r', hr', hsame''⟩ := hstep.of_samePlace hsame' (hq b' hb'.to_reflTransGen)
    exact ⟨r', hb'.tail hr', hsame''⟩

theorem Within.of_reflTransGen (h : Within tree depth p)
    (hq : ReflTransGen (BuildsOn tree) p q) : Within tree depth q := by
  induction hq with
  | refl => exact h
  | tail _ hstep ih =>
    cases depth with
    | zero => exact absurd ih not_within_zero
    | succ depth => exact fun rest hrest => Nat.le_succ_of_le (ih.of_buildsOn hstep rest hrest)

/-- A chain that comes back to a place has no end. -/
theorem not_within_of_samePlace (hp : AllHold tree p) (hq : TransGen (BuildsOn tree) p q)
    (hsame : SamePlace tree p q) : ¬ Within tree depth p := by
  induction depth generalizing p q with
  | zero => exact not_within_zero
  | succ depth ih =>
    intro hwithin
    have hqhold : AllHold tree q := fun r hr => hp r (hq.to_reflTransGen.trans hr)
    obtain ⟨r, hr, hsame'⟩ := exists_transGen_of_samePlace hq hsame hqhold
    -- from the place that was come back to there is one level less, and the same way round
    obtain ⟨next, hnext, hrest⟩ := TransGen.head'_iff.mp hq
    exact ih hqhold hr hsame' ((hwithin.of_buildsOn hnext).of_reflTransGen hrest)

/-! ### Main result -/

/-- **Loading succeeds exactly on finite inheritance.**  Loading a file comes to an end: it succeeds
if every file that is reached can be read and parsed, in a format that its extension names, and no
chain of such files has more than ten.  Otherwise it fails, and that as one of these files does, or
because there is a chain of eleven.  So it fails for every cycle below the file, whatever its
length, and however the way back to the first place is written. -/
theorem exists_load_eq_ok_iff (tree : FileTree) (p : Path) :
    ((∃ c, load tree p = .ok c) ↔
        (∀ q, ReflTransGen (BuildsOn tree) p q → Readable tree q) ∧
          ∀ rest, List.IsChain (BuildsOn tree) (p :: rest) → (p :: rest).length ≤ 10) ∧
      (∀ e, load tree p = .error e →
        (e = .tooDeep ∧
            ∃ rest, List.IsChain (BuildsOn tree) (p :: rest) ∧ (p :: rest).length = 11) ∨
          ∃ q, ReflTransGen (BuildsOn tree) p q ∧ Fault tree q e) ∧
      ∀ q r, ReflTransGen (BuildsOn tree) p q → TransGen (BuildsOn tree) q r →
        SamePlace tree q r → ∃ e, load tree p = .error e := by
  refine ⟨?_, fun e he => of_loadWithin_eq_error he, ?_⟩
  · simp only [readable_iff]
    exact exists_loadWithin_eq_ok_iff
  · intro q r hq hr hsame
    rcases hload : load tree p with e | c
    · exact ⟨e, rfl⟩
    · obtain ⟨hhold, hwithin⟩ := exists_loadWithin_eq_ok_iff.mp ⟨c, hload⟩
      have hqhold : AllHold tree q := fun s hs => hhold s (hq.trans hs)
      exact absurd (hwithin.of_reflTransGen hq) (not_within_of_samePlace hqhold hr hsame)

/-- Settings that build on themselves by a longer path, settings that build on these, and settings
that build on a preset. -/
def roundFiles : FileTree where
  files := [
    (["conf", "app.yaml"], "extends: [../conf/app.yaml]\n"),
    (["tool.yaml"], "extends: [conf/app.yaml]\n"),
    (["base.yaml"], "extends: [strict]\n")]

/-- The way round below `tool.yaml` never comes back to the same path, but to the same place. -/
theorem exists_load_eq_ok_iff_round :
    (∃ e, load roundFiles ⟨"tool.yaml"⟩ = .error e) ∧
      Readable roundFiles ⟨"base.yaml"⟩ ∧
      beside ⟨"conf/app.yaml"⟩ "../conf/app.yaml" = ⟨"conf/../conf/app.yaml"⟩ := by
  have happ : BuildsOn roundFiles ⟨"tool.yaml"⟩ ⟨"conf/app.yaml"⟩ :=
    ⟨"extends: [conf/app.yaml]\n", { inherits := ["conf/app.yaml"] }, by decide +kernel,
      by decide +kernel, "conf/app.yaml", by decide, by decide, by decide +kernel⟩
  have hround : BuildsOn roundFiles ⟨"conf/app.yaml"⟩ ⟨"conf/../conf/app.yaml"⟩ :=
    ⟨"extends: [../conf/app.yaml]\n", { inherits := ["../conf/app.yaml"] }, by decide +kernel,
      by decide +kernel, "../conf/app.yaml", by decide, by decide, by decide +kernel⟩
  have hsame : SamePlace roundFiles ⟨"conf/app.yaml"⟩ ⟨"conf/../conf/app.yaml"⟩ := by
    unfold SamePlace
    decide +kernel
  obtain ⟨-, -, hcycle⟩ := exists_load_eq_ok_iff roundFiles ⟨"tool.yaml"⟩
  obtain ⟨hloads, -, -⟩ := exists_load_eq_ok_iff roundFiles ⟨"base.yaml"⟩
  have hbase : ∃ c, load roundFiles ⟨"base.yaml"⟩ = .ok c :=
    ⟨{ rules := { enabled := ["*"], severity := .single "SC*" .error } }, by decide +kernel⟩
  exact ⟨hcycle _ _ (.single happ) (.single hround) hsame, (hloads.mp hbase).1 _ .refl,
    by decide +kernel⟩

end Config

end TreeLint
