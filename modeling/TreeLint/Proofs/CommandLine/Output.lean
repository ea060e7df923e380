/-
TreeLint/Proofs/CommandLine/Output.lean

Where fixed files are written.

The text of a unit goes along the names of its path, from the output directory
(`components_outputPath`).  What else the path is made of, a root, `.` or `..`,
is left out, so two units go to the same file exactly when their paths have the
same names (`same_outputPath_iff`).

Each write makes directories on the way to its file and then the file, or fails
(`writeFixed_cases`).  All places it changes lie below the output directory, and
so do those that a whole run changes (`WritesBelow`).
-/
import TreeLint.Proofs.CommandLine.Jobs
import TreeLint.Proofs.FileTree.Writing
import TreeLint.Proofs.Path

namespace TreeLint.CommandLine

open TreeLint.Path FileTree

variable {directory p q target : Path} {text : String} {s s' : Session}

/-! ### Targets -/

theorem filter_name_eq (cs : List Component) :
    (cs.filter fun
      | .name _ => true
      | _ => false) = (cs.filterMap Component.name?).map .name := by
  induction cs with
  | nil => rfl
  | cons c cs ih =>
    cases c with
    | root | here | up => exact ih
    | name text => exact congrArg (Component.name text :: ·) ih

theorem outputPath_eq (directory p : Path) :
    outputPath directory p = directory.join (ofNames p.names) :=
  congrArg (fun cs => directory.join (ofComponents cs)) (filter_name_eq p.components)

/-- The components of a target are those of the directory and then the names of the path. -/
theorem components_outputPath (directory p : Path) :
    (outputPath directory p).components = directory.components ++ p.names.map .name := by
  have hnames : ∀ text ∈ p.names, IsName text := fun _ h => isName_of_mem_names h
  rw [outputPath_eq, components_join (start_ofNames hnames).1 (start_ofNames hnames).2,
    components_ofNames hnames]

theorem placeOf_outputPath (start : List String) (directory p : Path) :
    placeOf start (outputPath directory p).steps
      = placeOf start directory.components ++ p.names := by
  rw [placeOf_steps, components_outputPath, placeOf_append, placeOf_names]

theorem map_name_injective : Function.Injective (List.map Component.name) :=
  List.map_injective_iff.mpr fun _ _ h => Component.name.inj h

/-- Two paths have the same target exactly when they have the same names. -/
theorem same_outputPath_iff :
    (outputPath directory p).same (outputPath directory q) = true ↔ p.names = q.names := by
  rw [same_iff, components_outputPath, components_outputPath, List.append_cancel_left_eq,
    map_name_injective.eq_iff]

/-- A path without names has no file for a target. -/
theorem not_writes_outputPath (h : p.names = []) {t t' : FileTree} :
    ¬ t.Writes (outputPath directory p) text t' := by
  intro hwrites
  have hcheck := hwrites.checkPath_eq
  have hopen := hwrites.endsOpen_eq
  have hempty : ofNames [] = ⟨""⟩ := rfl
  rw [outputPath_eq, h, hempty] at hcheck hopen
  by_cases hdirectory : directory.text = ""
  · obtain rfl : directory = ⟨""⟩ := congrArg Path.mk hdirectory
    cases hcheck
  · have hne : directory.text.isEmpty = false := by
      rw [Bool.eq_false_iff, Ne, String.isEmpty_iff]
      exact hdirectory
    have hrelative : (Path.mk "").isAbsolute = false := rfl
    rw [join, hrelative, hne, Bool.false_or, if_neg Bool.false_ne_true] at hopen
    split at hopen
    · rename_i hlast
      rw [endsOpen, String.append_empty, hlast] at hopen
      cases hopen
    · rw [endsOpen, String.append_empty, String.toList_append] at hopen
      have hlast : (directory.text.toList ++ "/".toList).getLast? = some '/' :=
        List.getLast?_concat
      rw [hlast] at hopen
      cases hopen

/-! ### One write -/

/-- Makes the directories that a file is to stand in. -/
def makeRoom (target : Path) : Job Unit :=
  match target.parent? with
  | none => pure ()
  | some parent => do
    let files ← Job.attempt ("failed to create " ++ parent.text) (fun e => [e.message])
      ((← get).files.ensureDirectory parent)
    modify fun s => { s with files }

/-- Writes a file where there is room for it. -/
def store (target : Path) (text : String) : Job Unit := do
  let files ← Job.attempt ("failed to write " ++ target.text) (fun e => [e.message])
    ((← get).files.write target text)
  modify fun s => { s with files, written := s.written ++ [(target, text)] }

theorem writeFixed_eq (directory p : Path) (text : String) :
    writeFixed directory p text = (do
      makeRoom (outputPath directory p)
      store (outputPath directory p) text) := by
  unfold writeFixed makeRoom store
  generalize outputPath directory p = target
  dsimp only
  cases target.parent? with
  | none => simp only [pure_bind]
  | some parent => simp only [bind_assoc]

/-- The files that directories on the way to a place have been added to. -/
def HasRoom (target : Path) (t made : FileTree) : Prop :=
  t.Grows (fun _ => False)
    (fun place => ∃ way, way <+: target.components.dropLast ∧ place = placeOf t.here way) made

theorem makeRoom_cases (target : Path) (s : Session) :
    ∃ made, HasRoom target s.files made ∧
      ((∃ causes, (makeRoom target).exec s = (.error causes, { s with files := made })) ∨
        (makeRoom target).exec s = (.ok (), { s with files := made })) := by
  unfold makeRoom
  split
  · exact ⟨s.files, .refl _, .inr rfl⟩
  · rename_i parent hparent
    rw [Job.exec_get_bind]
    rcases hmade : s.files.ensureDirectory parent with e | made
    · exact ⟨s.files, .refl _, .inl ⟨_, rfl⟩⟩
    · refine ⟨made, ?_, .inr rfl⟩
      have hgrows := grows_ensureDirectory hmade
      rwa [components_of_parent? hparent] at hgrows

theorem store_cases (target : Path) (text : String) (s : Session) :
    (∃ causes, (store target text).exec s = (.error causes, s)) ∨
      ∃ files, s.files.Writes target text files ∧ (store target text).exec s
        = (.ok (), { s with files, written := s.written ++ [(target, text)] }) := by
  unfold store
  rw [Job.exec_get_bind]
  rcases hwrite : s.files.write target text with e | files
  · exact .inl ⟨_, rfl⟩
  · exact .inr ⟨files, writes_of_write hwrite, rfl⟩

/-- A write makes room for its file.  Then it fails, or the file is there. -/
theorem writeFixed_cases (directory p : Path) (text : String) (s : Session) :
    ∃ made, HasRoom (outputPath directory p) s.files made ∧
      ((∃ causes, (writeFixed directory p text).exec s
          = (.error causes, { s with files := made })) ∨
        ∃ files, made.Writes (outputPath directory p) text files ∧
          (writeFixed directory p text).exec s = (.ok (),
            { s with files, written := s.written ++ [(outputPath directory p, text)] })) := by
  obtain ⟨made, hmade, hexec⟩ := makeRoom_cases (outputPath directory p) s
  refine ⟨made, hmade, ?_⟩
  rw [writeFixed_eq]
  rcases hexec with ⟨causes, hexec⟩ | hexec
  · exact .inl ⟨causes, Job.exec_bind_of_error hexec _⟩
  · rw [Job.exec_bind_of_ok hexec]
    rcases store_cases (outputPath directory p) text { s with files := made } with h | h
    · exact .inl h
    · exact .inr h

/-! ### All writes -/

/-- The place is one on the way to the directory, or in it. -/
def LeadsInto (directory : Path) (t : FileTree) (place : List String) : Prop :=
  (∃ way, way <+: directory.components ∧ place = placeOf t.here way) ∨ t.placeAt directory <+: place

/-- Files are written for paths with such names, and directories made for them. -/
structure WritesFor (directory : Path) (allowed : List String → Prop) (s s' : Session) : Prop where
  grows : s.files.Grows
    (fun place => ∃ names, allowed names ∧ place = s.files.placeAt directory ++ names)
    (LeadsInto directory s.files) s'.files
  exists_written : ∃ files, s'.written = s.written ++ files ∧
    ∀ f ∈ files, ∃ p : Path, allowed p.names ∧ f.1 = outputPath directory p

variable {allowed : List String → Prop}

theorem writesFor_of_eq (hfiles : s'.files = s.files) (hwritten : s'.written = s.written) :
    WritesFor directory allowed s s' where
  grows := hfiles ▸ .refl _
  exists_written := ⟨[], by rw [hwritten, List.append_nil], List.forall_mem_nil _⟩

instance : Std.Refl (WritesFor directory allowed) where
  refl _ := writesFor_of_eq rfl rfl

instance : IsTrans Session (WritesFor directory allowed) where
  trans s s' s'' h h' := by
    obtain ⟨files, hfiles, hall⟩ := h.exists_written
    obtain ⟨files', hfiles', hall'⟩ := h'.exists_written
    refine ⟨h.grows.trans ?_, files ++ files', ?_, ?_⟩
    · have hgrows := h'.grows
      unfold LeadsInto placeAt at hgrows
      rwa [h.grows.here_eq] at hgrows
    · rw [hfiles', hfiles, List.append_assoc]
    · exact List.forall_mem_append.mpr ⟨hall, hall'⟩

/-- What leads to the target of a path leads into the directory. -/
theorem leadsInto_of_prefix {way : List Component} (t : FileTree)
    (h : way <+: (outputPath directory p).components) :
    LeadsInto directory t (placeOf t.here way) := by
  rw [components_outputPath] at h
  rcases List.prefix_or_prefix_of_prefix h (List.prefix_append _ _) with hway | ⟨rest, rfl⟩
  · exact .inl ⟨way, hway, rfl⟩
  · rw [List.prefix_append_right_inj, List.prefix_iff_eq_take, ← List.map_take] at h
    rw [placeOf_append, h, placeOf_names]
    exact .inr (List.prefix_append _ _)

theorem HasRoom.grows {t made : FileTree} {changed : List String → Prop}
    (h : HasRoom (outputPath directory p) t made) :
    t.Grows changed (LeadsInto directory t) made := by
  refine h.mono (fun _ h => h.elim) ?_
  rintro place ⟨way, hway, rfl⟩
  exact leadsInto_of_prefix t (hway.trans (List.dropLast_prefix _))

theorem moves_writeFixed (h : p.names ≠ [] → allowed p.names) (text : String) :
    Job.Moves (WritesFor directory allowed) (writeFixed directory p text) := by
  intro s
  obtain ⟨made, hmade, ⟨causes, hexec⟩ | ⟨files, hwrites, hexec⟩⟩ :=
    writeFixed_cases directory p text s
  · rw [hexec]
    exact ⟨hmade.grows, [], (List.append_nil _).symm, List.forall_mem_nil _⟩
  · have hallowed := h fun hnil => not_writes_outputPath hnil hwrites
    rw [hexec]
    refine ⟨hmade.grows.trans (hwrites.grows.mono ?_ fun _ h => h.elim), [(_, text)], rfl, ?_⟩
    · intro place hplace
      refine ⟨p.names, hallowed, ?_⟩
      rw [hplace, placeOf_outputPath, hmade.here_eq]
      rfl
    · intro f hf
      exact ⟨p, hallowed, by rw [List.mem_singleton.mp hf]⟩

theorem moves_emitFixed {fixed : PathMap Tree}
    (h : ∀ e ∈ fixed, e.1.names ≠ [] → allowed e.1.names) :
    Job.Moves (WritesFor directory allowed) (emitFixed (some directory) fixed) :=
  .forM fun e he => moves_writeFixed (h e he) e.2.text

theorem moves_print (text : String) : Job.Moves (WritesFor directory allowed) (Job.print text) :=
  .of_modify fun _ => writesFor_of_eq rfl rfl

theorem moves_tell (line : String) : Job.Moves (WritesFor directory allowed) (Job.tell line) :=
  .of_modify fun _ => writesFor_of_eq rfl rfl

theorem moves_paint (style : Style) (text : String) :
    Job.Moves (WritesFor directory allowed) (Job.paint style text) :=
  .bind .of_get fun _ => .of_pure _

theorem moves_tellResult (r : FixOutcome) :
    Job.Moves (WritesFor directory allowed) (tellResult r) := by
  refine .bind (moves_tell _) fun _ => ?_
  refine .bind (.forM fun error _ => .bind (moves_paint _ _) fun _ => moves_tell _) fun _ => ?_
  split
  · exact .bind (moves_paint _ _) fun _ => moves_tell _
  · exact .of_pure _

theorem moves_loadSnapshot (path : Path) :
    Job.Moves (WritesFor directory allowed) (loadSnapshot path) :=
  .bind .of_get fun _ => .bind (.of_attempt _ _ _) fun _ => .of_attempt _ _ _

theorem moves_fixSnapshot (g : General) (engine : Engine) (plan : FixPlan) (path : Path) :
    Job.Moves (WritesFor directory (· ≠ [])) (fixSnapshot g engine plan (some directory) path) := by
  have hresult : ∀ r : FixOutcome, Job.Moves (WritesFor directory (· ≠ [])) (do
      tellResult r
      return r.tally.applied : Job Nat) := fun r =>
    .bind (moves_tellResult r) fun _ => .of_pure _
  unfold fixSnapshot
  refine .bind (moves_loadSnapshot path) fun compilation => ?_
  dsimp only
  split
  · exact .bind (moves_print _) fun _ => .of_pure _
  · split
    · split
      · exact .bind (moves_tell _) fun _ => .of_pure _
      · exact .of_pure _
    · split
      · exact .bind (moves_print _) fun _ => hresult _
      · exact .bind (moves_emitFixed fun _ _ h => h) fun _ => hresult _

theorem moves_loadConfig (home : Option Path) (g : General) :
    Job.Moves (WritesFor directory allowed) (loadConfig home g) := by
  unfold loadConfig
  refine .bind .of_get fun s => ?_
  dsimp only
  split <;> exact .bind (.of_attempt _ _ _) fun _ => .of_pure _

theorem moves_useColor (g : General) (config : Config) :
    Job.Moves (WritesFor directory allowed) (useColor g config) := by
  unfold useColor
  split
  · exact .of_pure _
  · split
    · exact .of_pure _
    · exact .bind .of_get fun _ => .of_pure _
    · exact .bind (.of_modify fun _ => writesFor_of_eq rfl rfl) fun _ => .of_pure _

theorem moves_snapshotFiles (patterns : List String) :
    Job.Moves (WritesFor directory allowed) (snapshotFiles patterns) := by
  refine .bind .of_get fun s => .bind (.mapM fun _ _ => .of_attempt _ _ _) fun found => ?_
  split
  · exact .of_throw _
  · exact .of_pure _

theorem moves_fix (home : Option Path) (g : General) (patterns : List String)
    (riskyFixes diff showFixes : Bool) : Job.Moves (WritesFor directory (· ≠ []))
      (fix home g patterns riskyFixes diff showFixes (some directory)) := by
  unfold fix
  refine .bind (moves_loadConfig home g) fun config => ?_
  refine .bind (moves_useColor g config) fun _ => ?_
  refine .bind (.of_attempt _ _ _) fun engine => ?_
  refine .bind (moves_snapshotFiles patterns) fun paths => ?_
  refine .bind (.mapM fun path _ => moves_fixSnapshot g engine _ path) fun counts => ?_
  split
  · exact .bind (moves_tell _) fun _ => .of_pure _
  · exact .of_pure _

/-! ### The output directory -/

/-- **Fixed files stay in the output directory.**  The components of a target are those of the
directory and then the names of the path, in order.  Whatever a run is asked to fix, it writes files
with such targets only, in places below the directory, leaves all other files as they are, and makes
directories only on the way to it or in it. -/
theorem fix_writes_below (env : Environment) (g : General) (patterns : List String)
    (riskyFixes diff showFixes : Bool) (directory : Path) :
    (∀ p : Path,
      (outputPath directory p).components = directory.components ++ p.names.map .name) ∧
    let outcome := Request.run env ⟨g, .fix patterns riskyFixes diff showFixes (some directory)⟩
    (∀ file ∈ outcome.written, ∃ p : Path, p.names ≠ [] ∧ file.1 = outputPath directory p) ∧
    env.files.Grows (fun place => ∃ names, names ≠ [] ∧
        place = env.files.placeAt directory ++ names)
      (LeadsInto directory env.files) outcome.files := by
  refine ⟨components_outputPath directory, ?_⟩
  intro outcome
  obtain ⟨hfiles, hwritten⟩ :=
    Request.run_eq env ⟨g, .fix patterns riskyFixes diff showFixes (some directory)⟩
  have hmoves : WritesFor directory (· ≠ []) (env.start g) _ :=
    moves_fix env.home g patterns riskyFixes diff showFixes (env.start g)
  obtain ⟨files, heq, hall⟩ := hmoves.exists_written
  have hfiles' : outcome.written = files := hwritten.trans heq
  refine ⟨fun file hfile => hall file (hfiles' ▸ hfile), ?_⟩
  show env.files.Grows _ _ (Request.run env _).files
  rw [hfiles]
  exact hmoves.grows

/-! ### One file for each path -/

variable {fixed : PathMap Tree} {e : Path × Tree} {causes : List String}

theorem exec_emitFixed_cons (directory : Path) (e : Path × Tree) (fixed : PathMap Tree) :
    emitFixed (some directory) (e :: fixed) = (do
      writeFixed directory e.1 e.2.text
      emitFixed (some directory) fixed) := rfl

/-- What is written, and where. -/
def writtenFor (directory : Path) (fixed : PathMap Tree) : List (Path × String) :=
  fixed.map fun e => (outputPath directory e.1, e.2.text)

/-- Entries are written in order, all of them or those before one that cannot be. -/
theorem exists_written_emitFixed (directory : Path) (fixed : PathMap Tree) (s : Session) :
    ∃ done left, fixed = done ++ left ∧
      ((emitFixed (some directory) fixed).exec s).2.written
        = s.written ++ writtenFor directory done ∧
      (((emitFixed (some directory) fixed).exec s).1 = .ok () ↔ left = []) := by
  induction fixed generalizing s with
  | nil => exact ⟨[], [], rfl, (List.append_nil _).symm, iff_of_true rfl rfl⟩
  | cons e fixed ih =>
    rw [exec_emitFixed_cons]
    obtain ⟨made, -, ⟨causes, hexec⟩ | ⟨files, -, hexec⟩⟩ :=
      writeFixed_cases directory e.1 e.2.text s
    · rw [Job.exec_bind_of_error hexec]
      exact ⟨[], e :: fixed, rfl, (List.append_nil _).symm, by simp⟩
    · rw [Job.exec_bind_of_ok hexec]
      obtain ⟨done, left, rfl, hwritten, hok⟩ :=
        ih { s with files, written := s.written ++ [(outputPath directory e.1, e.2.text)] }
      refine ⟨e :: done, left, rfl, ?_, hok⟩
      rw [hwritten, List.append_assoc]
      rfl

/-- A text that has been written can be read at its target, unless a later one goes there too. -/
theorem read_emitFixed {before after : PathMap Tree}
    (hok : ((emitFixed (some directory) (before ++ e :: after)).exec s).1 = .ok ())
    (hafter : ∀ e' ∈ after, e'.1.names ≠ e.1.names) :
    ((emitFixed (some directory) (before ++ e :: after)).exec s).2.files.read
      (outputPath directory e.1) = .ok e.2.text := by
  induction before generalizing s with
  | nil =>
    rw [List.nil_append, exec_emitFixed_cons] at hok ⊢
    obtain ⟨made, hmade, ⟨causes, hexec⟩ | ⟨files, hwrites, hexec⟩⟩ :=
      writeFixed_cases directory e.1 e.2.text s
    · rw [Job.exec_bind_of_error hexec] at hok
      cases hok
    · rw [Job.exec_bind_of_ok hexec]
      -- the files written after it are other ones
      have hmoves : Job.Moves (WritesFor directory (· ≠ e.1.names))
          (emitFixed (some directory) after) := moves_emitFixed fun e' he' _ => hafter e' he'
      refine read_of_grows (hmoves _).grows hwrites.read_eq ?_
      rintro ⟨names, hne, hplace⟩
      rw [placeOf_outputPath] at hplace
      exact hne (List.append_cancel_left hplace).symm
  | cons e' before ih =>
    rw [List.cons_append, exec_emitFixed_cons] at hok ⊢
    obtain ⟨made, -, ⟨causes, hexec⟩ | ⟨files, -, hexec⟩⟩ :=
      writeFixed_cases directory e'.1 e'.2.text s
    · rw [Job.exec_bind_of_error hexec] at hok
      cases hok
    · rw [Job.exec_bind_of_ok hexec] at hok ⊢
      exact ih hok

/-- **Fixed files are kept apart by their names.**  Paths with the same names have the same target,
and others have different ones.  The fixed units of a compilation are written to their targets in
order; when all have been, each can be read there, save those with a later one of the same names. -/
theorem fixed_apart_by_names (directory : Path) (r : FixOutcome) (s : Session) :
    (∀ p q : Path, p.names = q.names → outputPath directory p = outputPath directory q) ∧
    (∀ p q : Path, p.names ≠ q.names →
      (outputPath directory p).same (outputPath directory q) = false) ∧
    let (result, s') := (emitFixed (some directory) r.fixed).exec s
    (∃ done left, r.fixed = done ++ left ∧ s'.written = s.written ++ writtenFor directory done ∧
      (result = .ok () ↔ left = [])) ∧
    (result = .ok () → ∀ before e after, r.fixed = before ++ e :: after →
      (∀ e' ∈ after, e'.1.names ≠ e.1.names) →
      s'.files.read (outputPath directory e.1) = .ok e.2.text) := by
  refine ⟨?_, ?_, exists_written_emitFixed directory r.fixed s, ?_⟩
  · intro p q hnames
    rw [outputPath_eq, outputPath_eq, hnames]
  · intro p q hnames
    rw [Bool.eq_false_iff, Ne, same_outputPath_iff]
    exact hnames
  · intro hok before e after heq hafter
    rw [heq] at hok ⊢
    exact read_emitFixed hok hafter

/-- Two fixed units, one beside the other's directory. -/
def namesakes : FixOutcome where
  fixed := [
    (⟨"a.cs"⟩, ⟨#[⟨.identifierToken, [], some ⟨"Hue", ""⟩⟩], 0, #[none], _, rfl, rfl⟩),
    (⟨"../a.cs"⟩, ⟨#[⟨.identifierToken, [], some ⟨"Age", ""⟩⟩], 0, #[none], _, rfl, rfl⟩)]

/-- Different paths can have the same names, and then the same target. -/
theorem not_targets_apart : ¬ ∀ (directory : Path) (r : FixOutcome), ∀ e ∈ r.fixed, ∀ e' ∈ r.fixed,
    e.1.same e'.1 = false → outputPath directory e.1 ≠ outputPath directory e'.1 := by
  intro h
  exact h ⟨"out"⟩ namesakes _ List.mem_cons_self _ (List.mem_cons_of_mem _ List.mem_cons_self)
    (by decide) (by decide)

end TreeLint.CommandLine
