/-
TreeLint/Proofs/FileTree.lean

A file is found again by its name from its own directory.

A path is a list of *pieces* with separators in between (`Path.pieces`,
`Path.ofPieces`).  Where a file stands, the last piece is its name: a separator
or a `.` behind it would ask for a directory (`FileTree.exists_pieces_eq`).
The directory of the path has the pieces before the name, save those at their
end that stand for no component.  Those are steps on the spot, so going to the
directory and from there to the name leads to the same file
(`FileTree.read_beside`).  What is written for the file may differ, as
`a//b.json` and `a/b.json` do.

Where another path leads to from that directory depends only on the place of the
file, however the path of the file is written
(`FileTree.exists_resolve_beside_eq`).
-/
import TreeLint.FileTree
import Mathlib.Data.List.Basic

namespace TreeLint

namespace Text

theorem splitAt_eq_splitOn (separator : Char) (cs : List Char) :
    splitAt separator cs = cs.splitOn separator := by
  induction cs with
  | nil => rfl
  | cons c cs ih =>
    rw [splitAt, ih, List.splitOn_cons_eq_if_modifyHead]
    rcases hpieces : cs.splitOn separator with - | ⟨piece, pieces⟩
    · exact absurd hpieces (List.splitOn_ne_nil separator cs)
    · by_cases h : c = separator <;> simp [h]

/-- No separator stands in a piece. -/
theorem not_mem_of_mem_splitAt {separator : Char} {cs piece : List Char}
    (h : piece ∈ splitAt separator cs) : separator ∉ piece := by
  rw [splitAt_eq_splitOn] at h
  induction cs generalizing piece with
  | nil =>
    rw [List.splitOn_nil, List.mem_singleton] at h
    rw [h]
    exact List.not_mem_nil
  | cons c cs ih =>
    rw [List.splitOn_cons_eq_if_modifyHead] at h
    rcases hpieces : cs.splitOn separator with - | ⟨first, pieces⟩
    · exact absurd hpieces (List.splitOn_ne_nil separator cs)
    · rw [hpieces] at h ih
      split at h
      · rcases List.mem_cons.mp h with rfl | h
        · exact List.not_mem_nil
        · exact ih h
      · rename_i hc
        rw [List.modifyHead_cons] at h
        rcases List.mem_cons.mp h with rfl | h
        · rw [List.mem_cons, not_or]
          exact ⟨fun heq => hc (beq_iff_eq.mpr heq.symm), ih List.mem_cons_self⟩
        · exact ih (List.mem_cons_of_mem first h)

end Text

theorem intercalate_append {α : Type} (sep : List α) {xs ys : List (List α)} (hxs : xs ≠ [])
    (hys : ys ≠ []) :
    sep.intercalate (xs ++ ys) = sep.intercalate xs ++ sep ++ sep.intercalate ys := by
  induction xs with
  | nil => exact absurd rfl hxs
  | cons x xs ih =>
    rw [List.cons_append,
      List.intercalate_cons_of_ne_nil (List.append_ne_nil_of_right_ne_nil _ hys)]
    rcases xs with - | ⟨x', xs⟩
    · rw [List.nil_append, List.intercalate_singleton]
    · rw [ih (List.cons_ne_nil x' xs), List.intercalate_cons_cons]
      simp only [List.append_assoc]

namespace Path

/-! ### Pieces -/

/-- The pieces of a path. -/
def pieces (p : Path) : List (List Char) := Text.splitAt '/' p.text.toList

/-- The path with the given pieces. -/
def ofPieces (ps : List (List Char)) : Path := ⟨"/".intercalate (ps.map String.ofList)⟩

variable {p : Path} {ps above before : List (List Char)} {piece : List Char} {name : String}

theorem toList_ofPieces (ps : List (List Char)) :
    (ofPieces ps).text.toList = ['/'].intercalate ps := by
  rw [ofPieces, String.toList_intercalate, List.map_map]
  congr 1
  exact List.map_id'' (fun _ => String.toList_ofList) ps

theorem toList_text (p : Path) : p.text.toList = ['/'].intercalate p.pieces := by
  rw [pieces, Text.splitAt_eq_splitOn, List.intercalate_splitOn]

theorem pieces_ofPieces (hne : ps ≠ []) (h : ∀ q ∈ ps, '/' ∉ q) : (ofPieces ps).pieces = ps := by
  rw [pieces, toList_ofPieces, Text.splitAt_eq_splitOn, List.splitOn_intercalate '/' h hne]

theorem pieces_ne_nil (p : Path) : p.pieces ≠ [] := by
  rw [pieces, Text.splitAt_eq_splitOn]
  exact List.splitOn_ne_nil '/' _

theorem not_mem_of_mem_pieces (h : piece ∈ p.pieces) : '/' ∉ piece :=
  Text.not_mem_of_mem_splitAt h

/-- A piece that stands for no component. -/
def IsSilent (piece : List Char) : Prop := piece = [] ∨ piece = ['.']

theorem component?_eq_none_iff : component? piece = none ↔ IsSilent piece := by
  unfold component? IsSilent
  split <;> simp_all

theorem eq_ofList_of_component? {text : String} (h : component? piece = some (.name text)) :
    piece = text.toList := by
  unfold component? at h
  split at h
  · cases h
  · cases h
  · cases h
  · rw [← Component.name.inj (Option.some.inj h), String.toList_ofList]

/-- The piece is written like a name. -/
theorem not_isSilent_of_component? {c : Component} (h : component? piece = some c) :
    ¬ IsSilent piece := by
  rw [← component?_eq_none_iff, h]
  exact Option.some_ne_none c

/-- The components are those of the pieces, after a mark for how the path starts. -/
theorem exists_components_eq (p : Path) :
    ∃ start, (∀ text, .name text ∉ start) ∧
      p.components = start ++ p.pieces.filterMap component? := by
  have hpieces : p.pieces = Text.splitAt '/' p.text.toList := rfl
  rw [components, hpieces]
  split
  · rename_i hroot
    exact ⟨[.root], by simp, by rw [hroot]; rfl⟩
  · rename_i hhere
    exact ⟨[.here], by simp, by rw [hhere]; rfl⟩
  · exact ⟨[], by simp, rfl⟩

/-- The file name is the last piece that stands for a component. -/
theorem exists_pieces_eq_of_fileName? (h : p.fileName? = some name) :
    ∃ before after, p.pieces = before ++ name.toList :: after ∧
      component? name.toList = some (.name name) ∧ ∀ q ∈ after, IsSilent q := by
  obtain ⟨start, hstart, hcomponents⟩ := p.exists_components_eq
  have hlast : p.components.getLast? = some (.name name) := by
    rw [fileName?] at h
    split at h
    · rename_i hlast
      rw [hlast, Option.some.inj h]
    · cases h
  rw [hcomponents, List.getLast?_append, Option.or_eq_some_iff] at hlast
  rcases hlast with hlast | ⟨-, hlast⟩
  · obtain ⟨front, hfront⟩ := List.getLast?_eq_some_iff.mp hlast
    obtain ⟨before, rest, hpieces, -, hrest⟩ := List.filterMap_eq_append_iff.mp hfront
    obtain ⟨between, piece, after, rfl, -, hpiece, hafter⟩ := List.filterMap_eq_cons_iff.mp hrest
    obtain rfl := eq_ofList_of_component? hpiece
    refine ⟨before ++ between, after, by rw [hpieces, List.append_assoc], hpiece, ?_⟩
    intro q hq
    exact component?_eq_none_iff.mp (List.filterMap_eq_nil_iff.mp hafter q hq)
  · exact absurd (List.mem_of_getLast? hlast) (hstart name)

theorem fileName?_of_pieces_eq (hpieces : p.pieces = before ++ [name.toList])
    (hname : component? name.toList = some (.name name)) : p.fileName? = some name := by
  obtain ⟨start, -, hcomponents⟩ := p.exists_components_eq
  rw [fileName?, hcomponents, hpieces, List.filterMap_append, List.filterMap_cons_some hname,
    ← List.append_assoc, List.filterMap_nil, List.getLast?_concat]

/-! ### Directories -/

theorem dropOpenEnd_cons (h : ¬ IsSilent piece) (ps : List (List Char)) :
    dropOpenEnd (piece :: ps) = piece :: ps := by
  cases ps with
  | nil => rfl
  | cons next ps =>
    rw [dropOpenEnd, if_neg]
    exact h

/-- Only silent pieces are dropped, and not the last one there is. -/
theorem exists_eq_append_dropOpenEnd (ps : List (List Char)) :
    ∃ dropped, ps = dropped ++ dropOpenEnd ps ∧ (∀ q ∈ dropped, IsSilent q) ∧
      (dropOpenEnd ps = [] → ps = []) ∧
      ∀ q next rest, dropOpenEnd ps = q :: next :: rest → ¬ IsSilent q := by
  induction ps using dropOpenEnd.induct with
  | case1 piece next ps h ih =>
    obtain ⟨dropped, heq, hdropped, hnil, hhead⟩ := ih
    rw [dropOpenEnd, if_pos h]
    refine ⟨piece :: dropped, by rw [List.cons_append, ← heq], ?_, ?_, hhead⟩
    · intro q hq
      rcases List.mem_cons.mp hq with rfl | hq
      · exact h
      · exact hdropped q hq
    · intro hempty
      cases hnil hempty
  | case2 piece next ps h =>
    rw [dropOpenEnd, if_neg h]
    refine ⟨[], rfl, by simp, id, ?_⟩
    intro q next' rest heq
    obtain rfl := (List.cons.inj heq).1
    exact h
  | case3 ps h =>
    have hps : dropOpenEnd ps = ps := by
      rcases ps with - | ⟨piece, - | ⟨next, ps⟩⟩
      · rfl
      · rfl
      · exact absurd rfl (h piece next ps)
    rw [hps]
    refine ⟨[], rfl, by simp, id, ?_⟩
    intro q next rest heq
    exact absurd heq (h q next rest)

theorem dropOpenEnd_dropOpenEnd (ps : List (List Char)) :
    dropOpenEnd (dropOpenEnd ps) = dropOpenEnd ps := by
  obtain ⟨-, -, -, -, hhead⟩ := exists_eq_append_dropOpenEnd ps
  rcases h : dropOpenEnd ps with - | ⟨piece, - | ⟨next, rest⟩⟩
  · rfl
  · rfl
  · exact dropOpenEnd_cons (hhead piece next rest h) _

/-- The directory with the given pieces. -/
def directory (above : List (List Char)) : Path :=
  if above = [[]] then ⟨"/"⟩ else ofPieces above

/-- The pieces of the directory that a path with `before` in front of its name is in. -/
def trimmed (before : List (List Char)) : List (List Char) :=
  (dropOpenEnd before.reverse).reverse

theorem trimmed_trimmed (before : List (List Char)) :
    trimmed (trimmed before) = trimmed before := by
  rw [trimmed, trimmed, List.reverse_reverse, dropOpenEnd_dropOpenEnd]

/-- What is trimmed stands at the end and is silent; something is left if there was something. -/
theorem exists_eq_trimmed_append (before : List (List Char)) :
    ∃ dropped, before = trimmed before ++ dropped ∧ (∀ q ∈ dropped, IsSilent q) ∧
      (trimmed before = [] → dropped = []) := by
  obtain ⟨dropped, heq, hdropped, hnil, -⟩ := exists_eq_append_dropOpenEnd before.reverse
  have hbefore : before = trimmed before ++ dropped.reverse := by
    rw [trimmed, ← List.reverse_append, ← heq, List.reverse_reverse]
  refine ⟨dropped.reverse, hbefore, ?_, ?_⟩
  · intro q hq
    exact hdropped q (List.mem_reverse.mp hq)
  · intro h
    rw [trimmed, List.reverse_eq_nil_iff] at h
    have hempty := hnil h
    rw [hempty] at heq
    rw [(List.append_eq_nil_iff.mp heq.symm).1, List.reverse_nil]

theorem parent?_of_pieces_eq (hpieces : p.pieces = before ++ [name.toList])
    (hname : component? name.toList = some (.name name)) :
    p.parent? = some (directory (trimmed before)) := by
  have hmem : .name name ∈ p.components := by
    obtain ⟨start, -, hcomponents⟩ := p.exists_components_eq
    rw [hcomponents, hpieces, List.filterMap_append, List.filterMap_cons_some hname]
    simp
  have hsplit : Text.splitAt '/' p.text.toList = before ++ [name.toList] := hpieces
  rw [parent?]
  split
  · rename_i hnil
    rw [hnil] at hmem
    cases hmem
  · rename_i hroot
    rw [hroot] at hmem
    simp at hmem
  · rw [hsplit, List.reverse_append, List.reverse_singleton, List.singleton_append,
      dropOpenEnd_cons (not_isSilent_of_component? hname), directory]
    have habove : (dropOpenEnd before.reverse).reverse = trimmed before := rfl
    simp only [List.tail_cons, habove]
    by_cases hempty : trimmed before = [[]]
    · rw [if_pos hempty, hempty]
    · rw [if_neg hempty]
      split
      · contradiction
      · rfl

/-- A directory ends with a piece that is not silent, unless it is the only one. -/
theorem not_isSilent_of_trimmed_eq {last : List Char} (h : trimmed before = above ++ [last])
    (habove : above ≠ []) : ¬ IsSilent last := by
  obtain ⟨-, -, -, -, hhead⟩ := exists_eq_append_dropOpenEnd before.reverse
  obtain ⟨front, next, rfl⟩ := (List.eq_nil_or_concat above).resolve_left habove
  refine hhead last next front.reverse ?_
  rw [← List.reverse_reverse (dropOpenEnd before.reverse)]
  show (trimmed before).reverse = _
  rw [h]
  simp

theorem eq_ofPieces (h : p.text.toList = ['/'].intercalate ps) : p = ofPieces ps := by
  obtain ⟨text⟩ := p
  rw [← toList_ofPieces, String.toList_inj] at h
  exact congrArg Path.mk h

theorem text_ofPieces_singleton (name : String) : (ofPieces [name.toList]).text = name := by
  rw [← String.toList_inj, toList_ofPieces, List.intercalate_singleton]

theorem text_ofPieces_append {qs : List (List Char)} (hps : ps ≠ []) (hqs : qs ≠ []) :
    (ofPieces (ps ++ qs)).text = (ofPieces ps).text ++ "/" ++ (ofPieces qs).text := by
  rw [← String.toList_inj, toList_ofPieces, intercalate_append ['/'] hps hqs,
    String.toList_append, String.toList_append, toList_ofPieces, toList_ofPieces]
  rfl

theorem text_ofPieces_append_singleton (hps : ps ≠ []) :
    (ofPieces (ps ++ [name.toList])).text = (ofPieces ps).text ++ "/" ++ name := by
  rw [text_ofPieces_append hps (List.cons_ne_nil _ _), text_ofPieces_singleton]

/-- Leaving out pieces on the way leaves out a part of the text. -/
theorem exists_text_eq {dropped : List (List Char)} (name : String)
    (h : above = [] → dropped = []) :
    ∃ front mid, (ofPieces (above ++ dropped ++ [name.toList])).text = front ++ mid ++ name ∧
      (ofPieces (above ++ [name.toList])).text = front ++ name := by
  by_cases habove : above = []
  · rw [h habove, habove]
    exact ⟨"", "", text_ofPieces_singleton name, text_ofPieces_singleton name⟩
  · refine ⟨(ofPieces above).text ++ "/",
      if dropped = [] then "" else (ofPieces dropped).text ++ "/", ?_,
      text_ofPieces_append_singleton habove⟩
    rw [text_ofPieces_append_singleton (List.append_ne_nil_of_left_ne_nil habove _)]
    split
    · rename_i hdropped
      rw [hdropped, List.append_nil, String.append_empty]
    · rename_i hdropped
      rw [text_ofPieces_append habove hdropped]
      simp only [String.append_assoc]

/-- The last character of a path that does not end with an empty piece. -/
theorem getLast?_ofPieces (above : List (List Char)) {last : List Char} (hlast : last ≠ []) :
    (ofPieces (above ++ [last])).text.toList.getLast? = last.getLast? := by
  rw [toList_ofPieces]
  rcases above with - | ⟨q, above⟩
  · rw [List.nil_append, List.intercalate_singleton]
  · rw [intercalate_append ['/'] (List.cons_ne_nil q above) (List.cons_ne_nil last []),
      List.intercalate_singleton, List.getLast?_append_of_ne_nil _ hlast]

/-- A relative path as seen from the directory. -/
theorem join_directory_of_relative (hbefore : ∀ q ∈ before, '/' ∉ q)
    (hrelative : p.isAbsolute = false) :
    (directory (trimmed before)).join p = ofPieces (trimmed before ++ p.pieces) := by
  suffices htext : ((directory (trimmed before)).join p).text
      = (ofPieces (trimmed before ++ p.pieces)).text from congrArg Path.mk htext
  have hp : (ofPieces p.pieces).text = p.text := by rw [← eq_ofPieces p.toList_text]
  have hpieces := p.pieces_ne_nil
  rw [join, hrelative, Bool.false_or]
  rcases List.eq_nil_or_concat (trimmed before) with habove | ⟨above, last, habove⟩
  · rw [habove, directory, if_neg (List.cons_ne_nil [] []).symm, if_pos (by rfl)]
    exact hp.symm
  · rw [List.concat_eq_append] at habove
    have hne : trimmed before ≠ [] := by
      rw [habove]
      exact List.append_ne_nil_of_right_ne_nil _ (List.cons_ne_nil last [])
    by_cases hroot : trimmed before = [[]]
    · rw [text_ofPieces_append hne hpieces, hp, hroot, directory, if_pos rfl, if_neg (by decide),
        if_pos (by decide)]
      rfl
    · -- the last piece of the directory is not empty, so a separator has to be put in
      have hlast : last ≠ [] := by
        rintro rfl
        by_cases h : above = []
        · rw [habove, h] at hroot
          exact hroot rfl
        · exact not_isSilent_of_trimmed_eq habove h (.inl rfl)
      have hmem : last ∈ before := by
        obtain ⟨dropped, hbefore, -⟩ := exists_eq_trimmed_append before
        rw [hbefore, habove]
        simp
      rw [directory, if_neg hroot, if_neg, if_neg, text_ofPieces_append hne hpieces, hp]
      · rw [habove, getLast?_ofPieces above hlast]
        intro h
        exact hbefore last hmem (List.mem_of_getLast? h)
      · rw [String.isEmpty_iff]
        intro h
        have hend := getLast?_ofPieces above hlast
        rw [← habove, h] at hend
        exact hlast (List.getLast?_eq_none_iff.mp hend.symm)

theorem pieces_eq_of_not_mem (h : '/' ∉ p.text.toList) : p.pieces = [p.text.toList] := by
  have hp : p = ofPieces [p.text.toList] :=
    eq_ofPieces List.intercalate_singleton.symm
  nth_rewrite 1 [hp]
  exact pieces_ofPieces (List.cons_ne_nil _ _) (by simpa using h)

/-- The name as seen from the directory. -/
theorem join_directory (hbefore : ∀ q ∈ before, '/' ∉ q) (hslash : '/' ∉ name.toList) :
    (directory (trimmed before)).join ⟨name⟩ = ofPieces (trimmed before ++ [name.toList]) := by
  have hrelative : isAbsolute ⟨name⟩ = false := by
    rw [isAbsolute, beq_eq_false_iff_ne]
    intro h
    exact hslash (List.mem_of_mem_head? h)
  rw [join_directory_of_relative hbefore hrelative, pieces_eq_of_not_mem hslash]

end Path

/-! ### Steps -/

namespace Path

variable {p : Path} {ps before after : List (List Char)} {piece : List Char}

/-- The step that a piece stands for. -/
def step? (piece : List Char) : Option Component :=
  if piece = ['.'] then some .here else component? piece

/-- The steps before those of the pieces: one to the root, where the path starts there. -/
def startSteps : List (List Char) → List Component
  | [] :: _ :: _ => [.root]
  | _ => []

theorem steps_eq (p : Path) : p.steps = startSteps p.pieces ++ p.pieces.filterMap step? := by
  show (match p.pieces with
    | [] :: _ :: _ => Component.root :: p.pieces.filterMap step?
    | _ => p.pieces.filterMap step?) = _
  unfold startSteps
  split
  · rename_i hpieces
    rw [hpieces]
    rfl
  · rw [List.nil_append]

/-- With two pieces at least, the first one alone decides how a path starts. -/
theorem startSteps_cons (h : ps ≠ []) :
    startSteps (piece :: ps) = if piece = [] then [.root] else [] := by
  rcases ps with - | ⟨q, ps⟩
  · exact absurd rfl h
  · unfold startSteps
    cases piece <;> simp

/-- How a path starts does not depend on what stands between its first and its last piece. -/
theorem startSteps_append_append (h : before = [] → ps = []) :
    startSteps (before ++ (ps ++ [piece])) = startSteps (before ++ [piece]) := by
  rcases before with - | ⟨q, before⟩
  · rw [h rfl, List.nil_append]
  · rw [List.cons_append, startSteps_cons (by simp), List.cons_append, startSteps_cons (by simp)]

theorem startSteps_singleton (piece : List Char) : startSteps [piece] = [] := by
  unfold startSteps
  split
  · rename_i h
    cases (List.cons.inj h).2
  · rfl

/-- A relative path has no step to the root. -/
theorem startSteps_of_relative (h : p.isAbsolute = false) : startSteps p.pieces = [] := by
  rcases hpieces : p.pieces with - | ⟨q, - | ⟨q', ps⟩⟩
  · rfl
  · exact startSteps_singleton q
  · have hq : q ≠ [] := by
      rintro rfl
      have htext := p.toList_text
      rw [hpieces, List.intercalate_cons_cons, List.nil_append, List.singleton_append] at htext
      rw [isAbsolute, htext] at h
      cases h
    rw [startSteps_cons (List.cons_ne_nil _ _), if_neg hq]

/-- A silent piece is a step on the spot, or none. -/
theorem eq_here_of_step? {s : Component} (hpiece : IsSilent piece) (h : step? piece = some s) :
    s = .here := by
  rcases hpiece with rfl | rfl
  · cases h
  · exact (Option.some.inj h).symm

theorem forall_mem_steps_of_silent (h : ∀ q ∈ ps, IsSilent q) :
    ∀ s ∈ ps.filterMap step?, s = .here := by
  intro s hs
  obtain ⟨q, hq, hstep⟩ := List.mem_filterMap.mp hs
  exact eq_here_of_step? (h q hq) hstep

theorem step?_of_component? {c : Component} (h : component? piece = some c) :
    step? piece = some c := by
  rw [step?, if_neg, h]
  exact fun hdot => not_isSilent_of_component? h (.inr hdot)

end Path

namespace FileTree

open TreeLint.Path

variable {t : FileTree} {p : Path} {content name : String}

theorem read_eq_ok_iff :
    t.read p = .ok content ↔
      checkPath p = .ok () ∧ endsOpen p = false ∧
        ∃ place, t.resolve t.here p.steps = .ok place ∧ t.entry? place = some (.file content) := by
  rw [read, lookup]
  rcases checkPath p with e | ⟨⟩
  · simp [bind, Except.bind]
  · rcases t.resolve t.here p.steps with e | place
    · simp [bind, Except.bind]
    · rcases hentry : t.entry? place with - | (content' | -) <;>
        rcases hopen : endsOpen p with - | - <;>
        simp [bind, Except.bind, hentry, pure, Except.pure]

theorem resolve_of_forall_here {hs : List Component} (hhs : ∀ s ∈ hs, s = .here)
    (names : List String) (ys : List Component) :
    t.resolve names (hs ++ ys) = t.resolve names ys := by
  induction hs with
  | nil => rfl
  | cons s hs ih =>
    rw [hhs s List.mem_cons_self, List.cons_append, resolve]
    exact ih fun s hs => hhs s (List.mem_cons_of_mem _ hs)

/-- Steps on the spot may be left out on the way. -/
theorem resolve_skip {xs hs ys : List Component} (hhs : ∀ s ∈ hs, s = .here) (hys : ys ≠ [])
    (names : List String) :
    t.resolve names (xs ++ (hs ++ ys)) = t.resolve names (xs ++ ys) := by
  induction xs generalizing names with
  | nil => exact resolve_of_forall_here hhs names ys
  | cons x xs ih =>
    rw [List.cons_append, List.cons_append]
    cases x with
    | root => rw [resolve, resolve, ih]
    | here => rw [resolve, resolve, ih]
    | up => rw [resolve, resolve, ih]
    | name text =>
      -- what counts for a name is whether steps follow, and some do with and without those left out
      have hmore : ∀ zs : List Component, (xs ++ (zs ++ ys)).isEmpty = false := by
        intro zs
        rw [List.isEmpty_eq_false_iff]
        simp [hys]
      rw [resolve, resolve, hmore hs, ih]
      rw [show (xs ++ ys).isEmpty = false from hmore []]

/-- A step on the spot after a name can only be taken in a directory. -/
theorem entry?_of_resolve {xs hs : List Component} (hhs : ∀ s ∈ hs, s = .here) (hne : hs ≠ [])
    {names place : List String} (h : t.resolve names (xs ++ .name name :: hs) = .ok place) :
    t.entry? place = some .directory := by
  induction xs generalizing names with
  | nil =>
    rw [List.nil_append, resolve] at h
    split at h
    · cases h
    · split at h
      · cases h
      · rename_i hentry
        rw [← List.append_nil hs, resolve_of_forall_here hhs, resolve] at h
        rwa [← Except.ok.inj h]
      · rw [if_neg (by simpa using hne)] at h
        cases h
  | cons x xs ih =>
    rw [List.cons_append] at h
    cases x with
    | root => exact ih (by rwa [resolve] at h)
    | here => exact ih (by rwa [resolve] at h)
    | up => exact ih (by rwa [resolve] at h)
    | name text =>
      rw [resolve] at h
      split at h
      · cases h
      · split at h
        · cases h
        · exact ih h
        · rw [if_neg (by simp)] at h
          cases h

/-- Where a file stands, its name is the last piece of the path. -/
theorem exists_pieces_eq (hname : p.fileName? = some name) (h : t.read p = .ok content) :
    ∃ before, p.pieces = before ++ [name.toList] ∧
      component? name.toList = some (.name name) := by
  obtain ⟨before, after, hpieces, hcomponent, hafter⟩ := exists_pieces_eq_of_fileName? hname
  obtain ⟨-, hopen, place, hplace, hentry⟩ := read_eq_ok_iff.mp h
  rcases List.eq_nil_or_concat after with rfl | ⟨front, last, rfl⟩
  · exact ⟨before, hpieces, hcomponent⟩
  · rw [List.concat_eq_append] at hpieces hafter
    exfalso
    rcases hafter last (by simp) with rfl | rfl
    · -- the path ends with a separator
      have htext := p.toList_text
      rw [hpieces, ← List.cons_append, ← List.append_assoc,
        intercalate_append ['/'] (by simp) (List.cons_ne_nil _ _), List.intercalate_singleton,
        List.append_nil] at htext
      rw [endsOpen, htext, List.getLast?_concat] at hopen
      cases hopen
    · -- the path ends with a step on the spot
      have hsteps : p.steps = (startSteps p.pieces ++ before.filterMap step?) ++
          .name name :: (front ++ [['.']]).filterMap step? := by
        rw [steps_eq, List.append_assoc]
        congr 1
        rw [hpieces, List.filterMap_append,
          List.filterMap_cons_some (step?_of_component? hcomponent)]
      have hlast : (front ++ [['.']]).filterMap step? ≠ [] := by
        rw [List.filterMap_append]
        exact List.append_ne_nil_of_right_ne_nil _ (List.cons_ne_nil _ _)
      rw [hsteps] at hplace
      rw [t.entry?_of_resolve (forall_mem_steps_of_silent hafter) hlast hplace] at hentry
      cases hentry

theorem checkPath_eq_ok_iff :
    checkPath p = .ok () ↔
      '\x00' ∉ p.text.toList ∧ p.text ≠ "" ∧ p.text.utf8ByteSize < 4096 := by
  rw [checkPath]
  simp only [List.contains_iff_mem, String.isEmpty_iff]
  split
  · rename_i hnul
    simp [hnul]
  · rename_i hnul
    split
    · rename_i hempty
      simp [hempty]
    · rename_i hempty
      split
      · rename_i hsize
        simp [Nat.not_lt_of_le hsize]
      · rename_i hsize
        simp [hnul, hempty, Nat.lt_of_not_le hsize]

/-- A path remains fine when something in its midst is left out. -/
theorem checkPath_of_append {q : Path} {front mid back : String}
    (hp : p.text = front ++ mid ++ back) (hq : q.text = front ++ back) (hback : back ≠ "")
    (h : checkPath p = .ok ()) : checkPath q = .ok () := by
  rw [checkPath_eq_ok_iff] at h ⊢
  obtain ⟨hnul, -, hsize⟩ := h
  rw [hp] at hnul hsize
  rw [hq]
  simp only [String.toList_append, List.mem_append, String.utf8ByteSize_append, not_or]
    at hnul hsize ⊢
  refine ⟨⟨hnul.1.1, hnul.2⟩, ?_, by omega⟩
  intro hempty
  exact hback (String.append_eq_empty_iff.mp hempty).2

/-- A file is found again by its name from its own directory, and that path is in the same
directory. -/
theorem read_beside (hname : p.fileName? = some name) (h : t.read p = .ok content) :
    ∃ q, (p.parent?.getD ⟨"."⟩).join ⟨name⟩ = q ∧ t.read q = .ok content ∧
      q.parent? = p.parent? ∧ q.fileName? = some name := by
  obtain ⟨before, hpieces, hcomponent⟩ := exists_pieces_eq hname h
  obtain ⟨hcheck, hopen, place, hplace, hentry⟩ := read_eq_ok_iff.mp h
  obtain ⟨dropped, hbefore, hdropped, hnil⟩ := exists_eq_trimmed_append before
  have hslash : ∀ piece ∈ before ++ [name.toList], '/' ∉ piece := fun piece hpiece =>
    not_mem_of_mem_pieces (hpieces ▸ hpiece)
  have hjoin := join_directory (fun piece hpiece => hslash piece (List.mem_append_left _ hpiece))
    (hslash name.toList (by simp))
  have hqpieces : (ofPieces (trimmed before ++ [name.toList])).pieces
      = trimmed before ++ [name.toList] := by
    refine pieces_ofPieces (by simp) ?_
    intro piece hpiece
    refine hslash piece ?_
    rw [hbefore]
    rcases List.mem_append.mp hpiece with hpiece | hpiece
    · exact List.mem_append_left _ (List.mem_append_left _ hpiece)
    · exact List.mem_append_right _ hpiece
  -- the directory of the new path is trimmed already
  have hqparent := parent?_of_pieces_eq hqpieces hcomponent
  rw [trimmed_trimmed] at hqparent
  have hpparent := parent?_of_pieces_eq hpieces hcomponent
  have hptext : p.text = (ofPieces (trimmed before ++ dropped ++ [name.toList])).text := by
    rw [← hbefore, ← hpieces, ← eq_ofPieces p.toList_text]
  refine ⟨_, by rw [hpparent, Option.getD_some, hjoin], ?_, by rw [hqparent, hpparent],
    fileName?_of_pieces_eq hqpieces hcomponent⟩
  refine read_eq_ok_iff.mpr ⟨?_, ?_, place, ?_, hentry⟩
  · obtain ⟨front, mid, hfull, hshort⟩ := exists_text_eq name hnil
    refine checkPath_of_append (hptext.trans hfull) hshort ?_ hcheck
    rintro rfl
    exact not_isSilent_of_component? hcomponent (.inl rfl)
  · rw [endsOpen, getLast?_ofPieces _ fun hempty =>
      not_isSilent_of_component? hcomponent (.inl hempty), beq_eq_false_iff_ne]
    intro hlast
    exact hslash name.toList (by simp) (List.mem_of_getLast? hlast)
  · -- the pieces that are trimmed are steps on the spot
    rw [steps_eq, hpieces] at hplace
    rw [steps_eq, hqpieces, ← hplace]
    have hstart : startSteps (before ++ [name.toList])
        = startSteps (trimmed before ++ [name.toList]) := by
      conv_lhs => rw [hbefore, List.append_assoc]
      exact startSteps_append_append hnil
    have hsteps : (before ++ [name.toList]).filterMap step?
        = (trimmed before).filterMap step? ++ (dropped.filterMap step? ++ [.name name]) := by
      conv_lhs => rw [hbefore]
      rw [List.filterMap_append, List.filterMap_append, List.append_assoc,
        List.filterMap_cons_some (step?_of_component? hcomponent), List.filterMap_nil]
    rw [hstart, hsteps, List.filterMap_append,
      List.filterMap_cons_some (step?_of_component? hcomponent), List.filterMap_nil,
      ← List.append_assoc, ← List.append_assoc]
    exact (resolve_skip (forall_mem_steps_of_silent hdropped) (List.cons_ne_nil _ _) _).symm

/-! ### From the directory of a file -/

/-- The way to a name leads to the directory that the name is in, and from there anywhere. -/
theorem exists_resolve_append_eq {xs : List Component} {names place : List String}
    (h : t.resolve names (xs ++ [.name name]) = .ok place) :
    ∃ dir, place = dir ++ [name] ∧ ∀ ys, t.resolve names (xs ++ ys) = t.resolve dir ys := by
  induction xs generalizing names with
  | nil =>
    refine ⟨names, ?_, fun _ => rfl⟩
    rw [List.nil_append, resolve] at h
    split at h
    · cases h
    · split at h
      · cases h
      · rw [resolve] at h
        exact (Except.ok.inj h).symm
      · rw [if_pos (by rfl)] at h
        exact (Except.ok.inj h).symm
  | cons x xs ih =>
    rw [List.cons_append] at h
    cases x with
    | root | here | up =>
      rw [resolve] at h
      obtain ⟨dir, hplace, hdir⟩ := ih h
      exact ⟨dir, hplace, fun ys => by rw [List.cons_append, resolve, hdir]⟩
    | name text =>
      rw [resolve] at h
      split at h
      · cases h
      · rename_i hlong
        split at h
        · cases h
        · rename_i hentry
          obtain ⟨dir, hplace, hdir⟩ := ih h
          refine ⟨dir, hplace, fun ys => ?_⟩
          rw [List.cons_append, resolve, if_neg hlong, hentry]
          exact hdir ys
        · -- more steps follow, and only a directory can be gone through
          rw [if_neg (by simp)] at h
          cases h

/-- Where a path leads to from the directory of a file depends only on where the file stands. -/
theorem exists_resolve_beside_eq (hname : p.fileName? = some name) (h : t.read p = .ok content) :
    ∃ dir, t.resolve t.here p.steps = .ok (dir ++ [name]) ∧
      ∀ q : Path, t.resolve t.here ((p.parent?.getD ⟨"."⟩).join q).steps
        = t.resolve (if q.isAbsolute then t.here else dir) q.steps := by
  obtain ⟨before, hpieces, hcomponent⟩ := exists_pieces_eq hname h
  obtain ⟨-, -, place, hplace, -⟩ := read_eq_ok_iff.mp h
  obtain ⟨dropped, hbefore, hdropped, hnil⟩ := exists_eq_trimmed_append before
  have hslash : ∀ piece ∈ before, '/' ∉ piece := fun piece hpiece =>
    not_mem_of_mem_pieces (hpieces ▸ List.mem_append_left _ hpiece)
  -- the steps to the directory, without those on the spot at its end
  have hsteps : p.steps = (startSteps (before ++ [name.toList]) ++
      (trimmed before).filterMap step?) ++ (dropped.filterMap step? ++ [.name name]) := by
    rw [steps_eq, hpieces, List.filterMap_append,
      List.filterMap_cons_some (step?_of_component? hcomponent), List.filterMap_nil,
      List.append_assoc, ← List.append_assoc (List.filterMap step? (trimmed before)),
      ← List.filterMap_append, ← hbefore]
  have hplace' := hplace
  rw [hsteps, resolve_skip (forall_mem_steps_of_silent hdropped) (List.cons_ne_nil _ _)] at hplace'
  obtain ⟨dir, rfl, hdir⟩ := exists_resolve_append_eq hplace'
  refine ⟨dir, hplace, ?_⟩
  intro q
  rw [parent?_of_pieces_eq hpieces hcomponent, Option.getD_some]
  by_cases hq : q.isAbsolute = true
  · rw [if_pos hq, join, hq, Bool.true_or, if_pos rfl]
  · have hrelative : q.isAbsolute = false := eq_false_of_ne_true hq
    rw [if_neg hq, join_directory_of_relative hslash hrelative, ← hdir, q.steps_eq,
      startSteps_of_relative hrelative, List.nil_append]
    have hqpieces := q.pieces_ne_nil
    have hall : (ofPieces (trimmed before ++ q.pieces)).pieces = trimmed before ++ q.pieces := by
      refine pieces_ofPieces (List.append_ne_nil_of_right_ne_nil _ hqpieces) ?_
      intro piece hpiece
      rcases List.mem_append.mp hpiece with hpiece | hpiece
      · exact hslash piece (hbefore ▸ List.mem_append_left _ hpiece)
      · exact not_mem_of_mem_pieces hpiece
    have hstart : startSteps (trimmed before ++ q.pieces) = startSteps (before ++ [name.toList]) := by
      rcases habove : trimmed before with - | ⟨piece, above⟩
      · rw [habove, hnil habove] at hbefore
        rw [hbefore, List.nil_append, startSteps_of_relative hrelative]
        exact (startSteps_singleton _).symm
      · rw [hbefore, habove, List.cons_append, startSteps_cons (by simp [hqpieces])]
        simp only [List.cons_append]
        rw [startSteps_cons (by simp)]
    rw [steps_eq, hall, hstart, List.filterMap_append, List.append_assoc]

end FileTree

end TreeLint
