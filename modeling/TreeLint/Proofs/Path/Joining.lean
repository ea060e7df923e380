/-
TreeLint/Proofs/Path/Joining.lean

Components of paths that are put together and taken apart.

The first piece of a path decides how the path starts, and an empty one stands
for the root only if a second one follows.  Joining puts the pieces of a relative
path behind those of a directory (`Path.exists_pieces_join`), so where names are
joined to a directory, its components come first and the names follow
(`Path.components_join`).  Going up leaves the last component out
(`Path.components_of_parent?`).
-/
import TreeLint.Proofs.FileTree

namespace TreeLint

/-- The text of a component that is a name. -/
def Component.name? : Component → Option String
  | .name text => some text
  | _ => none

namespace Path

/-- The names among the components of a path, in order. -/
def names (p : Path) : List String := p.components.filterMap Component.name?

variable {p q : Path} {ps qs front : List (List Char)} {piece : List Char}

/-! ### How a path starts -/

/-- The component that stands for how a path starts, if any does. -/
def startComponents : List (List Char) → List Component
  | [] :: _ :: _ => [.root]
  | ['.'] :: _ => [.here]
  | _ => []

theorem components_eq (p : Path) :
    p.components = startComponents p.pieces ++ p.pieces.filterMap component? := by
  have hpieces : p.pieces = Text.splitAt '/' p.text.toList := rfl
  rw [components, ← hpieces]
  unfold startComponents
  split
  · rename_i hroot
    rw [hroot]
    rfl
  · rename_i hhere
    rw [hhere]
    rfl
  · rename_i hroot hhere
    split
    · rename_i h
      exact absurd h (hroot _ _)
    · rename_i h
      exact absurd h (hhere _)
    · rfl

theorem startComponents_cons (hpiece : piece ≠ []) (ps : List (List Char)) :
    startComponents (piece :: ps) = if piece = ['.'] then [.here] else [] := by
  unfold startComponents
  split
  · rename_i h
    exact absurd (List.cons.inj h).1 hpiece
  · rename_i h
    rw [if_pos (List.cons.inj h).1]
  · rename_i hhere
    rw [if_neg]
    intro h
    exact hhere ps (congrArg (· :: ps) h)

/-- Only the first piece, and whether others follow it, decides how a path starts. -/
theorem startComponents_append_eq (hfront : front ≠ []) (hps : front = [[]] → ps ≠ [])
    (hqs : front = [[]] → qs ≠ []) :
    startComponents (front ++ ps) = startComponents (front ++ qs) := by
  rcases front with - | ⟨piece, front⟩
  · exact absurd rfl hfront
  · by_cases hpiece : piece = []
    · subst hpiece
      rcases front with - | ⟨next, front⟩
      · obtain ⟨p, ps, rfl⟩ := List.exists_cons_of_ne_nil (hps rfl)
        obtain ⟨q, qs, rfl⟩ := List.exists_cons_of_ne_nil (hqs rfl)
        rfl
      · rfl
    · rw [List.cons_append, List.cons_append, startComponents_cons hpiece,
        startComponents_cons hpiece]

theorem startSteps_of_ne_nil (hpiece : piece ≠ []) (ps : List (List Char)) :
    startSteps (piece :: ps) = [] := by
  rcases ps with - | ⟨next, ps⟩
  · exact startSteps_singleton piece
  · rw [startSteps_cons (List.cons_ne_nil next ps), if_neg hpiece]

/-- A path that starts with a piece of its own is relative. -/
theorem isAbsolute_eq_false (h : p.pieces = piece :: ps) (hpiece : piece ≠ []) :
    p.isAbsolute = false := by
  obtain ⟨c, cs, rfl⟩ := List.exists_cons_of_ne_nil hpiece
  have hslash : c ≠ '/' := by
    rintro rfl
    exact not_mem_of_mem_pieces (h ▸ List.mem_cons_self) List.mem_cons_self
  have hhead : p.text.toList.head? = some c := by
    rw [p.toList_text, h]
    rcases ps with - | ⟨next, ps⟩
    · rw [List.intercalate_singleton]
      rfl
    · rw [List.intercalate_cons_cons]
      rfl
  rw [isAbsolute, hhead]
  simpa using hslash

/-! ### Joining -/

/-- Joining puts the pieces of a relative path behind those of a directory.  Where the directory
ends with a separator, its last piece is empty and gives way to them. -/
theorem exists_pieces_join (hp : p.text ≠ "") (hrelative : q.isAbsolute = false) :
    ∃ front rest, front ≠ [] ∧ (front = [[]] → rest ≠ []) ∧ (∀ piece ∈ rest, piece = []) ∧
      p.pieces = front ++ rest ∧ (p.join q).pieces = front ++ q.pieces := by
  have hempty : p.text.isEmpty = false := by
    rw [Bool.eq_false_iff, Ne, String.isEmpty_iff]
    exact hp
  have hq : (ofPieces q.pieces).text = q.text := by rw [← eq_ofPieces q.toList_text]
  have hjoin : ∀ {front : List (List Char)}, front ≠ [] → (∀ piece ∈ front, '/' ∉ piece) →
      (Path.mk ((ofPieces front).text ++ "/" ++ q.text)).pieces = front ++ q.pieces := by
    intro front hne hslash
    rw [← hq, ← text_ofPieces_append hne q.pieces_ne_nil]
    refine pieces_ofPieces (List.append_ne_nil_of_left_ne_nil hne _) fun piece hpiece => ?_
    exact (List.mem_append.mp hpiece).elim (hslash piece) not_mem_of_mem_pieces
  obtain ⟨front, last, hpieces⟩ := (List.eq_nil_or_concat p.pieces).resolve_left p.pieces_ne_nil
  rw [List.concat_eq_append] at hpieces
  have hslash : ∀ piece ∈ front ++ [last], '/' ∉ piece := fun piece hpiece =>
    not_mem_of_mem_pieces (hpieces ▸ hpiece)
  have htext : p.text = (ofPieces (front ++ [last])).text := by
    rw [← hpieces, ← eq_ofPieces p.toList_text]
  rw [join, hrelative, hempty, Bool.false_or, if_neg Bool.false_ne_true]
  by_cases hlast : last = []
  · -- the directory ends with a separator
    subst hlast
    have hfront : front ≠ [] := by
      rintro rfl
      rw [htext] at hp
      exact hp (text_ofPieces_singleton "")
    have htext' : p.text = (ofPieces front).text ++ "/" := by
      rw [htext, text_ofPieces_append hfront (List.cons_ne_nil _ _)]
      exact String.append_empty
    refine ⟨front, [[]], hfront, fun _ => List.cons_ne_nil _ _, ?_, hpieces, ?_⟩
    · exact fun piece hpiece => List.mem_singleton.mp hpiece
    · have hend : p.text.toList.getLast? = some '/' := by
        rw [htext', String.toList_append]
        exact List.getLast?_concat
      rw [if_pos hend, htext']
      exact hjoin hfront fun piece hpiece => hslash piece (List.mem_append_left _ hpiece)
  · have hend : p.text.toList.getLast? ≠ some '/' := by
      rw [htext, getLast?_ofPieces front hlast]
      intro h
      exact hslash last (List.mem_append_right _ List.mem_cons_self) (List.mem_of_getLast? h)
    refine ⟨front ++ [last], [], by simp, ?_, List.forall_mem_nil _, ?_, ?_⟩
    · intro h
      have hsingle : front ++ [last] = [] ++ [[]] := h
      exact absurd (List.append_inj' hsingle rfl).2 (by simpa using hlast)
    · rw [hpieces, List.append_nil]
    · rw [if_neg hend, htext]
      exact hjoin (by simp) hslash

theorem join_empty (q : Path) : (Path.mk "").join q = q := by
  rw [join, if_pos]
  rw [Bool.or_eq_true]
  exact .inr rfl

/-- Empty pieces stand for nothing. -/
theorem filterMap_eq_nil_of_empty {α : Type} {f : List Char → Option α} (hf : f [] = none)
    (h : ∀ piece ∈ ps, piece = []) : ps.filterMap f = [] := by
  rw [List.filterMap_eq_nil_iff]
  intro piece hpiece
  rw [h piece hpiece, hf]

/-- The components of a joined path are those of its parts, if the second part starts neither at the
root nor on the spot. -/
theorem components_join (hrelative : q.isAbsolute = false) (hq : startComponents q.pieces = []) :
    (p.join q).components = p.components ++ q.components := by
  by_cases hp : p.text = ""
  · obtain rfl : p = ⟨""⟩ := congrArg Path.mk hp
    rw [join_empty]
    rfl
  · obtain ⟨front, rest, hfront, hrest, hempty, hpieces, hjoin⟩ := exists_pieces_join hp hrelative
    rw [components_eq, components_eq p, components_eq q, hq, List.nil_append, hjoin, hpieces,
      startComponents_append_eq hfront (fun _ => q.pieces_ne_nil) hrest, List.filterMap_append,
      List.filterMap_append, filterMap_eq_nil_of_empty rfl hempty, List.append_nil,
      List.append_assoc]

/-! ### Paths of names -/

/-- The text can stand for a name in a path. -/
def IsName (text : String) : Prop := component? text.toList = some (.name text) ∧ '/' ∉ text.toList

theorem isName_of_mem_names {text : String} (h : text ∈ p.names) : IsName text := by
  obtain ⟨c, hc, hname⟩ := List.mem_filterMap.mp h
  obtain rfl : c = .name text := by
    cases c <;> cases hname
    rfl
  obtain ⟨start, hstart, hcomponents⟩ := p.exists_components_eq
  rw [hcomponents] at hc
  rcases List.mem_append.mp hc with hc | hc
  · exact absurd hc (hstart text)
  · obtain ⟨piece, hpiece, hcomponent⟩ := List.mem_filterMap.mp hc
    obtain rfl := eq_ofList_of_component? hcomponent
    exact ⟨hcomponent, not_mem_of_mem_pieces hpiece⟩

variable {texts : List String}

/-- The path that goes along names. -/
def ofNames (texts : List String) : Path := ofComponents (texts.map .name)

theorem ofNames_eq (texts : List String) : ofNames texts = ofPieces (texts.map String.toList) := by
  have hnames : ofNames texts = ⟨"/".intercalate (texts.map .name |>.map componentText)⟩ := by
    cases texts <;> rfl
  rw [hnames, ofPieces, List.map_map, List.map_map]
  congr 2
  exact List.map_congr_left fun text _ => (String.ofList_toList).symm

theorem pieces_ofNames (h : ∀ text ∈ texts, IsName text) (hne : texts ≠ []) :
    (ofNames texts).pieces = texts.map String.toList := by
  rw [ofNames_eq, pieces_ofPieces (by simpa using hne)]
  intro piece hpiece
  obtain ⟨text, htext, rfl⟩ := List.mem_map.mp hpiece
  exact (h text htext).2

/-- A path of names starts with a name, if with anything. -/
theorem start_ofNames (h : ∀ text ∈ texts, IsName text) :
    (ofNames texts).isAbsolute = false ∧ startComponents (ofNames texts).pieces = [] := by
  rcases texts with - | ⟨text, texts⟩
  · exact ⟨rfl, rfl⟩
  · have hsilent := not_isSilent_of_component? (h text List.mem_cons_self).1
    have hempty : text.toList ≠ [] := fun hempty => hsilent (.inl hempty)
    have hpieces := pieces_ofNames h (List.cons_ne_nil text texts)
    refine ⟨isAbsolute_eq_false hpieces hempty, ?_⟩
    rw [hpieces, List.map_cons, startComponents_cons hempty, if_neg fun hdot => hsilent (.inr hdot)]

theorem filterMap_component?_names (h : ∀ text ∈ texts, IsName text) :
    (texts.map String.toList).filterMap component? = texts.map .name := by
  rw [List.filterMap_map, ← List.filterMap_eq_map]
  exact List.filterMap_congr fun text htext => (h text htext).1

theorem components_ofNames (h : ∀ text ∈ texts, IsName text) :
    (ofNames texts).components = texts.map .name := by
  by_cases hne : texts = []
  · subst hne
    rfl
  · rw [components_eq, (start_ofNames h).2, pieces_ofNames h hne, filterMap_component?_names h]
    rfl

/-! ### Going up -/

/-- Silent pieces stand for no component. -/
theorem filterMap_component?_of_silent (h : ∀ piece ∈ ps, IsSilent piece) :
    ps.filterMap component? = [] :=
  List.filterMap_eq_nil_iff.mpr fun piece hpiece => component?_eq_none_iff.mpr (h piece hpiece)

theorem filterMap_component?_trimmed (before : List (List Char)) :
    (trimmed before).filterMap component? = before.filterMap component? := by
  obtain ⟨dropped, hbefore, hdropped, -⟩ := exists_eq_trimmed_append before
  have hnone : dropped.filterMap component? = [] :=
    filterMap_component?_of_silent hdropped
  conv_rhs => rw [hbefore, List.filterMap_append, hnone, List.append_nil]

/-- The directory that some pieces lead to. -/
theorem components_directory {before : List (List Char)} (hbefore : before ≠ [])
    (hslash : ∀ piece ∈ before, '/' ∉ piece) (last : List Char) :
    (directory (trimmed before)).components
      = startComponents (before ++ [last]) ++ before.filterMap component? := by
  obtain ⟨dropped, hdropped, hsilent, hnil⟩ := exists_eq_trimmed_append before
  have hne : trimmed before ≠ [] := by
    intro h
    rw [h, hnil h] at hdropped
    exact hbefore hdropped
  have hstart : startComponents (before ++ [last])
      = startComponents (trimmed before ++ [last]) := by
    conv_lhs => rw [hdropped, List.append_assoc]
    exact startComponents_append_eq hne (fun _ => by simp) (fun _ => by simp)
  rw [hstart, ← filterMap_component?_trimmed, directory]
  by_cases hroot : trimmed before = [[]]
  · rw [if_pos hroot, hroot]
    rfl
  · have hpieces : (ofPieces (trimmed before)).pieces = trimmed before := by
      refine pieces_ofPieces hne fun piece hpiece => hslash piece ?_
      rw [hdropped]
      exact List.mem_append_left _ hpiece
    rw [if_neg hroot, components_eq, hpieces]
    congr 1
    rw [← List.append_nil (trimmed before)]
    conv_rhs => rw [List.append_nil]
    exact startComponents_append_eq hne (fun h => absurd h hroot) (fun _ => by simp)

/-- A path that can be left has pieces before its last one that counts, and leads to the directory
with these. -/
theorem exists_pieces_of_parent? (h : p.parent? = some q) :
    ∃ before last rest, p.pieces = before ++ last :: rest ∧ (∀ piece ∈ rest, IsSilent piece) ∧
      (before ≠ [] → ¬ IsSilent last) ∧ q = directory (trimmed before) := by
  have hpieces : p.pieces = Text.splitAt '/' p.text.toList := rfl
  obtain ⟨dropped, heq, hdropped, hnil, hhead⟩ := exists_eq_append_dropOpenEnd p.pieces.reverse
  have hne : dropOpenEnd p.pieces.reverse ≠ [] := fun hempty =>
    p.pieces_ne_nil (List.reverse_eq_nil_iff.mp (hnil hempty))
  obtain ⟨last, before, hkept⟩ := List.exists_cons_of_ne_nil hne
  refine ⟨before.reverse, last, dropped.reverse, ?_, ?_, ?_, ?_⟩
  · rw [← List.reverse_reverse p.pieces, heq, hkept]
    simp
  · exact fun piece hpiece => hdropped piece (List.mem_reverse.mp hpiece)
  · intro hbefore
    obtain ⟨next, before, rfl⟩ := List.exists_cons_of_ne_nil (by simpa using hbefore)
    exact hhead last next before hkept
  · rw [parent?, ← hpieces, hkept] at h
    have habove : (dropOpenEnd before).reverse = trimmed before.reverse := by
      rw [trimmed, List.reverse_reverse]
    rw [directory]
    split at h
    · cases h
    · cases h
    · simp only [List.tail_cons, habove] at h
      split at h
      · rename_i hroot
        rw [if_pos hroot]
        exact (Option.some.inj h).symm
      · rename_i hroot
        rw [if_neg hroot]
        exact (Option.some.inj h).symm

/-- The directory of a path has all its components but the last one. -/
theorem components_of_parent? (h : p.parent? = some q) : q.components = p.components.dropLast := by
  obtain ⟨before, last, rest, hpieces, hrest, hlast, rfl⟩ := exists_pieces_of_parent? h
  have hnone : rest.filterMap component? = [] :=
    filterMap_component?_of_silent hrest
  rw [p.components_eq, hpieces]
  by_cases hbefore : before = []
  · -- there is one component at most
    subst hbefore
    have hempty : (directory (trimmed [])).components = [] := rfl
    rw [hempty, List.nil_append, List.filterMap_cons, hnone]
    by_cases hempty : last = []
    · subst hempty
      rcases rest with - | ⟨next, rest⟩ <;> rfl
    · rw [startComponents_cons hempty]
      by_cases hdot : last = ['.']
      · subst hdot
        rfl
      · rw [if_neg hdot]
        cases component? last <;> rfl
  · obtain ⟨c, hc⟩ : ∃ c, component? last = some c :=
      Option.ne_none_iff_exists'.mp fun hnone => hlast hbefore (component?_eq_none_iff.mp hnone)
    have hslash : ∀ piece ∈ before, '/' ∉ piece := fun piece hpiece =>
      not_mem_of_mem_pieces (hpieces ▸ List.mem_append_left _ hpiece)
    have hstart : startComponents (before ++ last :: rest) = startComponents (before ++ [last]) :=
      startComponents_append_eq hbefore (fun _ => by simp) (fun _ => by simp)
    rw [components_directory hbefore hslash last, hstart, List.filterMap_append,
      List.filterMap_cons_some hc, hnone, ← List.append_assoc, List.dropLast_concat]

end Path

end TreeLint
