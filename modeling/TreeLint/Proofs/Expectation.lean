/-
TreeLint/Proofs/Expectation.lean

When the reports of an analyzer pass the check against expectations.

A check puts the expectations in order and meets them with the reported
diagnostics one by one.  So whatever passes can be paired one to one, but a
pairing need not be found: expectations are sorted by keys of their own, and
those that are level keep the places they were listed in.

Two lists in order of the same expectations are level place by place
(`forall₂_level_of_perm`).  So a pairing is found, however the expectations are
listed, if they are in the order of the diagnostics that meet them (`InStep`) and
level ones can stand in for each other (`Interchangeable`).
-/
import TreeLint.Expectation
import TreeLint.Proofs.Diagnostic
import Mathlib.Data.List.Forall2

namespace TreeLint

open Std

/-! ### Lists in order of the same elements -/

section Ascending

variable {α β : Type} {cmp : α → α → Ordering} {xs ys : List α}

/-- No element comes after one that stands behind it. -/
def Ascending (cmp : α → α → Ordering) (xs : List α) : Prop :=
  xs.Pairwise fun a b => (cmp a b != .gt) = true

/-- Order passes from one list to another that is related to it place by place. -/
theorem pairwise_of_forall₂ {R : α → β → Prop} {S : α → α → Prop} {T : β → β → Prop}
    {bs : List β} (hR : List.Forall₂ R xs bs) (hbs : bs.Pairwise T)
    (hS : ∀ x ∈ xs, ∀ y ∈ xs, ∀ b ∈ bs, ∀ c ∈ bs, R x b → R y c → T b c → S x y) :
    xs.Pairwise S := by
  obtain ⟨hlength, hget⟩ := List.forall₂_iff_get.mp hR
  rw [List.pairwise_iff_getElem] at *
  intro i j hi hj hij
  have hi' : i < bs.length := hlength ▸ hi
  have hj' : j < bs.length := hlength ▸ hj
  exact hS _ (List.getElem_mem hi) _ (List.getElem_mem hj) _ (List.getElem_mem hi') _
    (List.getElem_mem hj') (hget i hi hi') (hget j hj hj') (hbs i j hi' hj' hij)

variable [TransCmp cmp]

/-- The head of a list in order does not come after what is level with an element of it. -/
theorem Ascending.isLE_of_level {x y z : α} (hxs : Ascending cmp (x :: xs)) (hy : y ∈ x :: xs)
    (hlevel : cmp z y = .eq) : (cmp x z).isLE = true := by
  rw [TransCmp.congr_right hlevel]
  rcases List.mem_cons.mp hy with rfl | hy
  · rw [@ReflCmp.compare_self α cmp _ y]
    rfl
  · exact Ordering.isLE_iff_ne_gt.mpr (bne_iff_ne.mp ((List.pairwise_cons.mp hxs).1 y hy))

/-- What is in one list is level with something in a list that has as many of its level. -/
theorem exists_level_of_countP
    (h : ∀ a, xs.countP (fun b => cmp a b == .eq) = ys.countP fun b => cmp a b == .eq)
    {x : α} (hx : x ∈ xs) : ∃ y ∈ ys, cmp x y = .eq := by
  have hpos : 0 < xs.countP fun b => cmp x b == .eq :=
    List.countP_pos_iff.mpr ⟨x, hx, beq_iff_eq.mpr ReflCmp.compare_self⟩
  rw [h x, List.countP_pos_iff] at hpos
  obtain ⟨y, hy, hlevel⟩ := hpos
  exact ⟨y, hy, beq_iff_eq.mp hlevel⟩

/-- Lists in order with as many elements of each level are level place by place. -/
theorem forall₂_level_of_countP (hxs : Ascending cmp xs) (hys : Ascending cmp ys)
    (h : ∀ a, xs.countP (fun b => cmp a b == .eq) = ys.countP fun b => cmp a b == .eq) :
    List.Forall₂ (fun a b => cmp a b = .eq) xs ys := by
  induction xs generalizing ys with
  | nil =>
    cases ys with
    | nil => exact .nil
    | cons y ys =>
      obtain ⟨b, hb, -⟩ := exists_level_of_countP (fun a => (h a).symm) (List.mem_cons_self (a := y))
      cases hb
  | cons x xs ih =>
    obtain ⟨b, hb, hxb⟩ := exists_level_of_countP h List.mem_cons_self
    cases ys with
    | nil => cases hb
    | cons y ys =>
      obtain ⟨a, ha, hya⟩ := exists_level_of_countP (fun a => (h a).symm) List.mem_cons_self
      -- each head is level with an element of the other list, so neither comes after the other
      have hlevel : cmp x y = .eq :=
        OrientedCmp.isLE_antisymm (hxs.isLE_of_level ha hya) (hys.isLE_of_level hb hxb)
      refine .cons hlevel (ih hxs.of_cons hys.of_cons fun a => ?_)
      have ha := h a
      rw [List.countP_cons, List.countP_cons, TransCmp.congr_right hlevel] at ha
      exact Nat.add_right_cancel ha

/-- Two lists in order of the same elements are level place by place. -/
theorem forall₂_level_of_perm (hperm : xs.Perm ys) (hxs : Ascending cmp xs)
    (hys : Ascending cmp ys) : List.Forall₂ (fun a b => cmp a b = .eq) xs ys :=
  forall₂_level_of_countP hxs hys fun _ => hperm.countP_eq _

/-- A list stays in order when two level elements change places. -/
theorem Ascending.swap {i j : Nat} (hxs : Ascending cmp xs)
    (hi : i < xs.length) (hj : j < xs.length)
    (hlevel : cmp xs[i] xs[j] = .eq) : Ascending cmp ((xs.set i xs[j]).set j xs[i]) := by
  have hsame : List.Forall₂ (fun a b => cmp a b = .eq) ((xs.set i xs[j]).set j xs[i]) xs := by
    rw [List.forall₂_iff_get]
    refine ⟨by rw [List.length_set, List.length_set], fun k _ _ => ?_⟩
    rw [List.get_eq_getElem, List.get_eq_getElem, List.getElem_set, List.getElem_set]
    split_ifs with hjk hik
    · subst hjk
      exact hlevel
    · subst hik
      exact OrientedCmp.eq_symm hlevel
    · exact ReflCmp.compare_self
  refine pairwise_of_forall₂ hsame hxs fun a _ b _ c _ d _ hac hbd hcd => ?_
  rwa [TransCmp.congr_left hac, TransCmp.congr_right hbd]

end Ascending

namespace Expectation

variable {es es' : List Expectation} {ds : List Diagnostic} {e e' : Expectation} {d d' : Diagnostic}

/-! ### The order of expectations -/

instance : TransCmp comparePath := by
  let : Ord Path := ⟨Path.compare⟩
  have : TransOrd Path := inferInstanceAs (TransCmp Path.compare)
  have h : comparePath = Ord.compare := by
    funext p q
    cases p <;> cases q <;> rfl
  rw [h]
  infer_instance

/-- The order of the files of expectations. -/
def compareFile (a b : Expectation) : Ordering := comparePath a.path b.path

instance : TransCmp compareFile where
  eq_swap {_ _} := @OrientedCmp.eq_swap _ comparePath _ _ _
  isLE_trans {_ _ _} := @TransCmp.isLE_trans _ comparePath _ _ _ _

/-- Expectations are compared by file, start, end and rule. -/
theorem compare_eq :
    compare = compareLex compareFile (compareLex (compareOn (·.span.start))
      (compareLex (compareOn (·.span.stop)) (compareOn ruleId))) := by
  funext a b
  rw [compare, Diagnostic.compareText_eq]
  rfl

instance : TransCmp compare := by
  rw [compare_eq]
  infer_instance

/-- Files that are level are the files of the same diagnostics. -/
theorem all_same_eq_of_comparePath {p q : Option Path} (h : comparePath p q = .eq) (file : Path) :
    p.all (·.same file) = q.all (·.same file) := by
  cases p with
  | none =>
    cases q with
    | none => rfl
    | some q => cases h
  | some p =>
    cases q with
    | none => cases h
    | some q => exact Path.same_eq_of_same (Path.compare_eq_eq_iff.mp h) file

theorem sort_perm (es : List Expectation) : (sort es).Perm es := List.mergeSort_perm _ _

theorem ascending_sort (es : List Expectation) : Ascending compare (sort es) :=
  List.pairwise_mergeSort noLater_trans noLater_total es

theorem sort_eq_insertionSort (es : List Expectation) :
    sort es = es.insertionSort fun a b => (a.compare b != .gt) = true :=
  mergeSort_eq_insertionSort noLater_trans noLater_total es

theorem sort_eq_of_ascending (h : Ascending compare es) : sort es = es :=
  List.mergeSort_of_pairwise h

/-! ### Meeting expectations one by one -/

theorem isMetBy_iff : e.isMetBy d = true ↔
    (d.ruleId = e.ruleId ∧ d.span = e.span ∧ ∀ p ∈ e.path, p.same d.location.file = true) ∧
      (∀ m ∈ e.message, m = d.message) ∧ ∀ p ∈ e.payload, p = d.payload := by
  simp only [isMetBy, Bool.and_eq_true, beq_iff_eq, Option.all_eq_true, Option.mem_def, and_assoc]

/-- The first diagnostic is as the first expectation says, the second one as the second, and so
on to the end of both. -/
def MetInTurn (es : List Expectation) (ds : List Diagnostic) : Prop :=
  List.Forall₂ (fun e d => e.isMetBy d = true) es ds

theorem firstMismatch?_eq_none_iff {index : Nat} (h : ds.length = es.length) :
    firstMismatch? index es ds = none ↔ MetInTurn es ds := by
  induction es generalizing index ds with
  | nil =>
    obtain rfl := List.eq_nil_of_length_eq_zero h
    exact iff_of_true rfl .nil
  | cons e es ih =>
    obtain ⟨d, ds, rfl⟩ := List.exists_cons_of_length_eq_add_one h
    rw [firstMismatch?, MetInTurn, List.forall₂_cons]
    split
    · rename_i hmet
      rw [ih (Nat.succ.inj h), and_iff_right hmet]
      rfl
    · rename_i hmet
      exact iff_of_false nofun fun hall => hmet hall.1

theorem compareAll_eq_ok_iff : compareAll es ds = .ok () ↔ MetInTurn (sort es) ds := by
  have hlength : (sort es).length = es.length := (sort_perm es).length_eq
  rw [compareAll]
  split
  · rename_i hne
    refine iff_of_false nofun fun hmet => hne ?_
    rw [← hmet.length_eq, hlength]
  · rename_i heq
    rw [← firstMismatch?_eq_none_iff (by rw [hlength, not_ne_iff.mp heq])]
    cases firstMismatch? 0 (sort es) ds with
    | none => exact iff_of_true rfl rfl
    | some error => exact iff_of_false nofun nofun

/-! ### Pairings -/

/-- The diagnostics can be paired one to one with expectations that they meet. -/
def Pairs (es : List Expectation) (ds : List Diagnostic) : Prop :=
  ∃ es', es'.Perm es ∧ MetInTurn es' ds

/-- Expectations come in the order of the diagnostics that meet them. -/
def InStep (es : List Expectation) (ds : List Diagnostic) : Prop :=
  ∀ e ∈ es, ∀ e' ∈ es, ∀ d ∈ ds, ∀ d' ∈ ds, e.isMetBy d = true → e'.isMetBy d' = true →
    e.compare e' = d.compare d'

/-- Expectations that are level are met by the same diagnostics. -/
def Interchangeable (es : List Expectation) (ds : List Diagnostic) : Prop :=
  ∀ e ∈ es, ∀ e' ∈ es, e.compare e' = .eq → ∀ d ∈ ds, e.isMetBy d = true → e'.isMetBy d = true

theorem pairs_of_compareAll (h : compareAll es ds = .ok ()) : Pairs es ds :=
  ⟨sort es, sort_perm es, compareAll_eq_ok_iff.mp h⟩

/-- What is met in turn by diagnostics in order is itself in order, if it is in step. -/
theorem MetInTurn.ascending (h : MetInTurn es ds) (hstep : InStep es ds)
    (hds : Ascending Diagnostic.compare ds) : Ascending compare es := by
  refine pairwise_of_forall₂ h hds fun e he e' he' d hd d' hd' hmet hmet' hcmp => ?_
  rwa [hstep e he e' he' d hd d' hd' hmet hmet']

/-- A pairing is found, whatever the listing. -/
theorem compareAll_of_pairs (hds : Ascending Diagnostic.compare ds) (hstep : InStep es ds)
    (hlevel : Interchangeable es ds) (hpairs : Pairs es ds) (hperm : es'.Perm es) :
    compareAll es' ds = .ok () := by
  obtain ⟨paired, hpaired, hmet⟩ := hpairs
  have hascending : Ascending compare paired := by
    refine hmet.ascending (fun e he e' he' => ?_) hds
    exact hstep e (hpaired.subset he) e' (hpaired.subset he')
  have hsorted : (sort es').Perm es := (sort_perm es').trans hperm
  -- sorting comes to the pairing, but for level expectations
  obtain ⟨hlength, hsame⟩ := List.forall₂_iff_get.mp
    (forall₂_level_of_perm (hpaired.trans hsorted.symm) hascending (ascending_sort es'))
  obtain ⟨hlength', hmet⟩ := List.forall₂_iff_get.mp hmet
  rw [compareAll_eq_ok_iff, MetInTurn, List.forall₂_iff_get]
  refine ⟨hlength.symm.trans hlength', fun i hi hi' => ?_⟩
  have hi'' : i < paired.length := hlength ▸ hi
  exact hlevel _ (hpaired.subset (List.get_mem _ _)) _ (hsorted.subset (List.get_mem _ _))
    (hsame i hi'' hi) _ (List.get_mem _ _) (hmet i hi'' hi')

/-- If every listing passes, whatever is level with an expectation can take its place. -/
theorem isMetBy_of_level {i j : Nat} (h : ∀ es', es'.Perm es → compareAll es' ds = .ok ())
    (hi : i < (sort es).length) (hj : j < (sort es).length) (hi' : i < ds.length)
    (hlevel : compare (sort es)[i] (sort es)[j] = .eq) : (sort es)[j].isMetBy ds[i] = true := by
  -- let the two change places: the list is still in order, so it is met as it is
  have hpass := h _ ((List.set_set_perm hi hj).trans (sort_perm es))
  rw [compareAll_eq_ok_iff, sort_eq_of_ascending ((ascending_sort es).swap hi hj hlevel)] at hpass
  obtain ⟨hlength, hget⟩ := List.forall₂_iff_get.mp hpass
  have hmet := hget i (hlength ▸ hi') hi'
  rw [List.get_eq_getElem, List.getElem_set, List.getElem_set, if_pos rfl] at hmet
  split_ifs at hmet with hji
  · subst hji
    exact hmet
  · exact hmet

/-- If every listing passes, level expectations can stand in for each other. -/
theorem interchangeable_of_compareAll (hstep : InStep es ds)
    (h : ∀ es', es'.Perm es → compareAll es' ds = .ok ()) : Interchangeable es ds := by
  intro e he e' he' hlevel d hd hmet
  obtain ⟨hlength, hget⟩ := List.forall₂_iff_get.mp (compareAll_eq_ok_iff.mp (h es (.refl es)))
  obtain ⟨i, hi, rfl⟩ := List.getElem_of_mem hd
  obtain ⟨j, hj, rfl⟩ := List.getElem_of_mem ((sort_perm es).symm.subset he')
  have hi' : i < (sort es).length := hlength ▸ hi
  -- what the diagnostic has met is level with `e`, as both are in step with the diagnostic
  have hin : compare (sort es)[i] e = .eq := by
    rw [hstep _ ((sort_perm es).subset (List.getElem_mem hi')) e he _ hd _ hd (hget i hi' hi) hmet]
    exact ReflCmp.compare_self
  refine isMetBy_of_level h hi' hj hi ?_
  rwa [TransCmp.congr_left hin]

/-- Expectations with files are in step. -/
theorem inStep_of_isSome (h : ∀ e ∈ es, e.path.isSome = true) : InStep es ds := by
  intro e he e' he' d _ d' _ hmet hmet'
  obtain ⟨p, hp⟩ := Option.isSome_iff_exists.mp (h e he)
  obtain ⟨p', hp'⟩ := Option.isSome_iff_exists.mp (h e' he')
  obtain ⟨⟨hrule, hspan, hfile⟩, -⟩ := isMetBy_iff.mp hmet
  obtain ⟨⟨hrule', hspan', hfile'⟩, -⟩ := isMetBy_iff.mp hmet'
  rw [compare, Diagnostic.compare, hrule, hspan, hrule', hspan', hp, hp', comparePath,
    Path.compare_eq, Path.compare_eq, Path.same_iff.mp (hfile p hp),
    Path.same_iff.mp (hfile' p' hp')]

/-- Expectations without files are in step with diagnostics in one file. -/
theorem inStep_of_eq_none (h : ∀ e ∈ es, e.path = none)
    (hfile : ∀ d ∈ ds, ∀ d' ∈ ds, d.location.file.same d'.location.file = true) :
    InStep es ds := by
  intro e he e' he' d hd d' hd' hmet hmet'
  obtain ⟨⟨hrule, hspan, -⟩, -⟩ := isMetBy_iff.mp hmet
  obtain ⟨⟨hrule', hspan', -⟩, -⟩ := isMetBy_iff.mp hmet'
  rw [compare, Diagnostic.compare, hrule, hspan, hrule', hspan', h e he, h e' he', comparePath,
    Path.compare_eq_eq_iff.mpr (hfile d hd d' hd')]

/-- Expectations of nothing but rules and places can stand in for level ones. -/
theorem interchangeable_of_eq_none (h : ∀ e ∈ es, e.message = none ∧ e.payload = none) :
    Interchangeable es ds := by
  intro e he e' he' hlevel d _ hmet
  rw [compare, Ordering.then_eq_eq, Ordering.then_eq_eq, Ordering.then_eq_eq,
    Diagnostic.compareText_eq, LawfulEqOrd.compare_eq_iff_eq, LawfulEqOrd.compare_eq_iff_eq,
    LawfulEqOrd.compare_eq_iff_eq] at hlevel
  obtain ⟨hpath, hstart, hstop, hrule⟩ := hlevel
  have hspan : e.span = e'.span := congrArg₂ Span.mk hstart hstop
  rwa [isMetBy, ← hrule, ← hspan, ← all_same_eq_of_comparePath hpath, (h e' he').1, (h e' he').2,
    ← (h e he).1, ← (h e he).2]

/-! ### Checks of analyzers -/

/-- A run comes to diagnostics in order. -/
theorem exists_run_eq (a : Analyzer) (c : Compilation) :
    ∃ ds, run a c = .ok ds ∧ Ascending Diagnostic.compare ds := by
  have hglobs : ∃ globs, ({ rules := { enabled := a.rules.map (·.id) } } : Config).generatedGlobs
      = .ok globs := ⟨_, rfl⟩
  obtain ⟨globs, hglobs⟩ := hglobs
  rw [run, Engine.create, hglobs]
  exact ⟨_, rfl, Diagnostic.pairwise_sort _⟩

theorem checkReports_eq {a : Analyzer} {c : Compilation} (h : run a c = .ok ds)
    (es : List Expectation) : checkReports a c es = compareAll es ds := by
  rw [checkReports, h]
  rfl

/-- **Checks find the pairings of what is in step.**  A run comes to a list of diagnostics, and
expectations that pass the check can be paired with them one to one.  The other way round, if the
expectations are in the order of the diagnostics that meet them, they pass in every order in which
they can be listed exactly if there is a pairing and level expectations can stand in for each other.
They are in that order if all of them have a file, and also if none has one and all diagnostics are
in the same file; they can stand in for each other if they ask for no message and no payload. -/
theorem checkReports_pairs (a : Analyzer) (c : Compilation) :
    ∃ ds, run a c = .ok ds ∧ ∀ es : List Expectation,
      (checkReports a c es = .ok () → Pairs es ds) ∧
      (InStep es ds →
        ((∀ es', es'.Perm es → checkReports a c es' = .ok ()) ↔
          Pairs es ds ∧ Interchangeable es ds)) ∧
      ((∀ e ∈ es, e.path.isSome = true) ∨
          (∀ e ∈ es, e.path = none) ∧
            (∀ d ∈ ds, ∀ d' ∈ ds, d.location.file.same d'.location.file = true) →
        InStep es ds) ∧
      ((∀ e ∈ es, e.message = none ∧ e.payload = none) → Interchangeable es ds) := by
  obtain ⟨ds, hrun, hds⟩ := exists_run_eq a c
  refine ⟨ds, hrun, fun es => ?_⟩
  simp only [checkReports_eq hrun]
  refine ⟨pairs_of_compareAll, fun hstep => ⟨fun h => ?_, fun h es' hperm => ?_⟩, ?_,
    interchangeable_of_eq_none⟩
  · exact ⟨pairs_of_compareAll (h es (.refl es)), interchangeable_of_compareAll hstep h⟩
  · exact compareAll_of_pairs hds hstep h.2 h.1 hperm
  · rintro (h | ⟨h, hfile⟩)
    · exact inStep_of_isSome h
    · exact inStep_of_eq_none h hfile

/-- An analyzer that makes the given remarks on every block. -/
def blockRemarks (remarks : List String) : Analyzer :=
  let rule : Rule := default
  { name := "blocks"
    rules := [rule]
    actions :=
      { onNode := [(.block, fun ctx =>
          { reports := remarks.map fun message =>
              { ctx.unit.diagnostic rule ctx.node.span .nothing [] with message } })] } }

/-- A file that is a block with nothing but its opening brace, behind some trivia. -/
def blockFile (name trivia : String) : SourceUnit where
  path := ⟨name⟩
  tree := ⟨#[⟨.block, [1], none⟩, ⟨.openBraceToken, [], some ⟨"\x7b", trivia⟩⟩], 0,
    #[none, some 0], _, rfl, rfl⟩

/-- A remark on the block of such a file. -/
def remark (name trivia message : String) : Diagnostic where
  ruleId := ""
  severity := .info
  message
  location := ⟨⟨name⟩, ⟨trivia.length, trivia.length + 1⟩, 1, trivia.length + 1⟩
  sourceLine := some (trivia ++ "\x7b")
  help := some ""

/-- What is expected of a block. -/
def ofBlock (start : Nat) (path : Option Path) (message : Option String) : Expectation where
  ruleId := ""
  span := ⟨start, start + 1⟩
  path
  message

/-- Two files; the block of the first one is indented. -/
def indentedFirst : Compilation where
  units := [blockFile "a.cs" " ", blockFile "b.cs" ""]

theorem run_indentedFirst : run (blockRemarks [""]) indentedFirst
    = .ok [remark "a.cs" " " "", remark "b.cs" "" ""] := by
  show Except.ok (Diagnostic.sort _) = _
  rw [Diagnostic.sort_eq_insertionSort]
  decide +kernel

/-- With their files, the two blocks are expected in either order. -/
theorem checkReports_pairs_indentedFirst :
    ∀ es', es'.Perm [ofBlock 0 (some ⟨"b.cs"⟩) none, ofBlock 1 (some ⟨"a.cs"⟩) none] →
      checkReports (blockRemarks [""]) indentedFirst es' = .ok () := by
  obtain ⟨ds, hrun, h⟩ := checkReports_pairs (blockRemarks [""]) indentedFirst
  obtain rfl := Except.ok.inj (run_indentedFirst.symm.trans hrun)
  obtain ⟨-, hall, hstep, hlevel⟩ :=
    h [ofBlock 0 (some ⟨"b.cs"⟩) none, ofBlock 1 (some ⟨"a.cs"⟩) none]
  have hmet : MetInTurn [ofBlock 1 (some ⟨"a.cs"⟩) none, ofBlock 0 (some ⟨"b.cs"⟩) none]
      [remark "a.cs" " " "", remark "b.cs" "" ""] :=
    .cons (by decide +kernel) (.cons (by decide +kernel) .nil)
  exact (hall (hstep (.inl (by decide)))).mpr ⟨⟨_, .swap _ _ _, hmet⟩, hlevel (by decide)⟩

theorem run_twoRemarks : run (blockRemarks ["x", "y"]) { units := [blockFile "a.cs" ""] }
    = .ok [remark "a.cs" "" "x", remark "a.cs" "" "y"] := by
  show Except.ok (Diagnostic.sort _) = _
  rw [Diagnostic.sort_eq_insertionSort]
  decide +kernel

/-- Without their files, the two blocks are expected in vain, though in the right order; and of two
remarks on one block, the first one has to be expected first. -/
theorem not_checkReports_of_pairs :
    (∃ ds, run (blockRemarks [""]) indentedFirst = .ok ds ∧
      MetInTurn [ofBlock 1 none none, ofBlock 0 none none] ds ∧
      checkReports (blockRemarks [""]) indentedFirst
        [ofBlock 1 none none, ofBlock 0 none none] ≠ .ok ()) ∧
    checkReports (blockRemarks ["x", "y"]) { units := [blockFile "a.cs" ""] }
      [ofBlock 0 none (some "x"), ofBlock 0 none (some "y")] = .ok () ∧
    checkReports (blockRemarks ["x", "y"]) { units := [blockFile "a.cs" ""] }
      [ofBlock 0 none (some "y"), ofBlock 0 none (some "x")] ≠ .ok () := by
  rw [checkReports_eq run_indentedFirst, checkReports_eq run_twoRemarks,
    checkReports_eq run_twoRemarks]
  simp only [compareAll, sort_eq_insertionSort]
  refine ⟨⟨_, run_indentedFirst, .cons ?_ (.cons ?_ .nil), ?_⟩, ?_, ?_⟩ <;> decide +kernel

end Expectation

end TreeLint
