/-
TreeLint/Proofs/Text/LineIndex.lean

What positions count, and what the lines of a text are.

The starts of the lines are the offsets behind line feeds, so they increase, and
characters in front of an offset have as many line feeds as there are starts up to
it but the first.  Bisection ends at the last start up to the offset, at a hit or
one before a miss (`bisect_eq`); everything else about positions is said with the
characters in front of the offset (`position_ofText`).

A line is given with what stands before and behind it (`IsLine`): its start is the
number of bytes before it, and the next start, if there is one, is just behind its
line feed.
-/
import TreeLint.Proofs.FileTree
import TreeLint.Text.LineIndex
import Mathlib.Data.List.DropRight
import Mathlib.Data.String.Basic

namespace TreeLint.Text

open String (utf8Len)

/-! ### Parts of a text -/

theorem dropBytes?_cons {c : Char} {n : Nat} (h : c.utf8Size ≤ n) (rest : List Char) :
    dropBytes? n (c :: rest) = dropBytes? (n - c.utf8Size) rest := by
  obtain ⟨m, rfl⟩ := Nat.exists_eq_add_one.mpr (Nat.lt_of_lt_of_le c.utf8Size_pos h)
  rw [dropBytes?, if_pos h]

theorem takeBytes?_cons {c : Char} {n : Nat} (h : c.utf8Size ≤ n) (rest : List Char) :
    takeBytes? n (c :: rest) = (takeBytes? (n - c.utf8Size) rest).map (c :: ·) := by
  obtain ⟨m, rfl⟩ := Nat.exists_eq_add_one.mpr (Nat.lt_of_lt_of_le c.utf8Size_pos h)
  rw [takeBytes?, if_pos h]

/-- No characters take up only some bytes of the first one. -/
theorem takeBytes?_eq_none {c : Char} {n : Nat} (hpos : 0 < n) (h : n < c.utf8Size)
    (rest : List Char) : takeBytes? n (c :: rest) = none := by
  obtain ⟨m, rfl⟩ := Nat.exists_eq_add_one.mpr hpos
  rw [takeBytes?, if_neg (Nat.not_le.mpr h)]

theorem dropBytes?_append (front rest : List Char) :
    dropBytes? (utf8Len front) (front ++ rest) = some rest := by
  induction front with
  | nil => rw [List.nil_append, String.utf8Len_nil, dropBytes?]
  | cons c front ih =>
    rw [List.cons_append, String.utf8Len_cons, dropBytes?_cons (Nat.le_add_left _ _),
      Nat.add_sub_cancel, ih]

theorem takeBytes?_append (front rest : List Char) (k : Nat) :
    takeBytes? (utf8Len front + k) (front ++ rest) = (takeBytes? k rest).map (front ++ ·) := by
  induction front with
  | nil =>
    rw [List.nil_append, String.utf8Len_nil, Nat.zero_add]
    exact Option.map_id'.symm
  | cons c front ih =>
    have hle : c.utf8Size ≤ utf8Len (c :: front) + k := by rw [String.utf8Len_cons]; omega
    have hrest : utf8Len (c :: front) + k - c.utf8Size = utf8Len front + k := by
      rw [String.utf8Len_cons]
      omega
    rw [List.cons_append, takeBytes?_cons hle, hrest, ih, Option.map_map]
    rfl

theorem slice?_append (front line rest : List Char) (k : Nat) :
    slice? (String.ofList (front ++ (line ++ rest))) (utf8Len front)
        (utf8Len front + (utf8Len line + k))
      = (takeBytes? k rest).map (line ++ ·) := by
  rw [slice?, if_pos (Nat.le_add_right _ _), String.toList_ofList, dropBytes?_append,
    Option.bind_some, Nat.add_sub_cancel_left, takeBytes?_append]

/-! ### Bisection -/

section Bisection

variable {values : Array Nat} {value k : Nat}

/-- In increasing values, the search ends at the last one that is not above what is searched for:
at a hit, or just before the place of a miss. -/
theorem bisect_eq (hvalues : ∀ i j (hi : i < values.size) (hj : j < values.size),
      i < j → values[i] < values[j])
    (hk : k < values.size) (hle : values[k] ≤ value)
    (hlt : ∀ i (hi : i < values.size), k < i → value < values[i])
    {low high : Nat} (hlow : low ≤ k + 1) (hhigh : high ≤ values.size) (hkhigh : k + 1 ≤ high) :
    bisect values value low high hhigh = .hit k ∨
      bisect values value low high hhigh = .miss (k + 1) := by
  fun_induction bisect values value low high hhigh with
  | case1 low high hhigh hwindow middle hmiddle heq =>
    left
    rcases Nat.lt_trichotomy middle k with h | h | h
    · have := hvalues middle k (Nat.lt_of_lt_of_le hmiddle hhigh) hk h
      omega
    · rw [h]
    · have := hlt middle (Nat.lt_of_lt_of_le hmiddle hhigh) h
      omega
  | case2 low high hhigh hwindow middle hmiddle hne hless ih =>
    -- what lies behind the last value up to the one searched for is above it
    have hmk : middle ≤ k := by
      refine Nat.le_of_not_lt fun h => ?_
      have := hlt middle (Nat.lt_of_lt_of_le hmiddle hhigh) h
      omega
    exact ih (Nat.succ_le_succ hmk) hkhigh
  | case3 low high hhigh hwindow middle hmiddle hne hnless ih =>
    have hkm : k < middle := by
      refine Nat.lt_of_not_le fun h => ?_
      rcases Nat.lt_or_eq_of_le h with h | h
      · have := hvalues middle k (Nat.lt_of_lt_of_le hmiddle hhigh) hk h
        omega
      · subst h
        omega
    exact ih hlow hkm
  | case4 low high hhigh hwindow =>
    right
    rw [show low = k + 1 by omega]

end Bisection

/-! ### Starts -/

theorem startsFrom_append (offset : Nat) (front rest : List Char) :
    startsFrom offset (front ++ rest)
      = startsFrom offset front ++ startsFrom (offset + utf8Len front) rest := by
  induction front generalizing offset with
  | nil => rfl
  | cons c front ih =>
    have hoffset : offset + c.utf8Size + utf8Len front = offset + utf8Len (c :: front) := by
      rw [String.utf8Len_cons]
      omega
    rw [List.cons_append, startsFrom, startsFrom, ih, hoffset]
    split
    · rw [List.cons_append]
    · rfl

theorem length_startsFrom (offset : Nat) (cs : List Char) :
    (startsFrom offset cs).length = cs.count '\n' := by
  induction cs generalizing offset with
  | nil => rfl
  | cons c cs ih =>
    rw [startsFrom, List.count_cons]
    split
    · rename_i hc
      rw [List.length_cons, ih, hc, if_pos (beq_self_eq_true _)]
    · rename_i hc
      rw [ih, if_neg (by rwa [beq_iff_eq]), Nat.add_zero]

/-- The starts in characters lie behind the first of them. -/
theorem le_of_mem_startsFrom {offset s : Nat} {c : Char} {rest : List Char}
    (h : s ∈ startsFrom offset (c :: rest)) : offset + c.utf8Size ≤ s := by
  induction rest generalizing offset c with
  | nil =>
    rw [startsFrom] at h
    split at h
    · exact Nat.le_of_eq (List.mem_singleton.mp h).symm
    · cases h
  | cons d rest ih =>
    have hlater : s ∈ startsFrom (offset + c.utf8Size) (d :: rest) → offset + c.utf8Size ≤ s :=
      fun hs => Nat.le_of_add_right_le (ih hs)
    rw [startsFrom] at h
    split at h
    · rcases List.mem_cons.mp h with rfl | h
      · exact Nat.le_refl _
      · exact hlater h
    · exact hlater h

theorem lt_of_mem_startsFrom {offset s : Nat} {cs : List Char} (h : s ∈ startsFrom offset cs) :
    offset < s := by
  cases cs with
  | nil => cases h
  | cons c rest =>
    exact Nat.lt_of_lt_of_le (Nat.lt_add_of_pos_right c.utf8Size_pos) (le_of_mem_startsFrom h)

theorem pairwise_startsFrom (offset : Nat) (cs : List Char) :
    (startsFrom offset cs).Pairwise (· < ·) := by
  induction cs generalizing offset with
  | nil => exact .nil
  | cons c cs ih =>
    rw [startsFrom]
    split
    · exact .cons (fun _ => lt_of_mem_startsFrom) (ih _)
    · exact ih _

/-! ### Lines -/

/-- The line of number `n` of the characters, counted from 0 and without its line feed, with what
stands before it and behind it. -/
structure IsLine (cs : List Char) (n : Nat) (front line rest : List Char) : Prop where
  eq_append : cs = front ++ (line ++ rest)
  count_front : front.count '\n' = n
  ends : front = [] ∨ ∃ front', front = front' ++ ['\n']
  not_mem : '\n' ∉ line
  starts : rest = [] ∨ ∃ rest', rest = '\n' :: rest'

/-- There are as many lines as there are line feeds, and one more. -/
theorem exists_isLine {cs : List Char} {n : Nat} (h : n ≤ cs.count '\n') :
    ∃ front line rest, IsLine cs n front line rest ∧ (splitAt '\n' cs)[n]? = some line := by
  induction cs generalizing n with
  | nil =>
    obtain rfl := Nat.le_zero.mp h
    exact ⟨[], [], [], ⟨rfl, rfl, .inl rfl, List.not_mem_nil, .inl rfl⟩, rfl⟩
  | cons c cs ih =>
    by_cases hc : c = '\n'
    · subst hc
      rw [splitAt, if_pos rfl]
      cases n with
      | zero =>
        exact ⟨[], [], '\n' :: cs, ⟨rfl, rfl, .inl rfl, List.not_mem_nil, .inr ⟨cs, rfl⟩⟩, rfl⟩
      | succ n =>
        rw [List.count_cons_self] at h
        obtain ⟨front, line, rest, hline, hpiece⟩ := ih (Nat.le_of_succ_le_succ h)
        refine ⟨'\n' :: front, line, rest, ⟨?_, ?_, .inr ?_, hline.not_mem, hline.starts⟩, hpiece⟩
        · rw [List.cons_append, ← hline.eq_append]
        · rw [List.count_cons_self, hline.count_front]
        · rcases hline.ends with rfl | ⟨front', rfl⟩
          · exact ⟨[], rfl⟩
          · exact ⟨'\n' :: front', rfl⟩
    · rw [List.count_cons_of_ne hc] at h
      obtain ⟨front, line, rest, hline, hpiece⟩ := ih h
      have hsplit : splitAt '\n' (c :: cs) = (splitAt '\n' cs).modifyHead (c :: ·) := by
        rw [splitAt, if_neg hc]
        rcases hpieces : splitAt '\n' cs with - | ⟨piece, pieces⟩
        · rw [splitAt_eq_splitOn] at hpieces
          exact absurd hpieces (List.splitOn_ne_nil '\n' cs)
        · rfl
      rw [hsplit]
      cases n with
      | zero =>
        -- before the first line there is nothing, so the character belongs to the line
        obtain rfl : front = [] := by
          rcases hline.ends with h | ⟨front', rfl⟩
          · exact h
          · have := hline.count_front
            simp at this
        refine ⟨[], c :: line, rest, ⟨?_, rfl, .inl rfl, ?_, hline.starts⟩, ?_⟩
        · rw [hline.eq_append]
          rfl
        · rw [List.mem_cons, not_or]
          exact ⟨Ne.symm hc, hline.not_mem⟩
        · rw [List.getElem?_modifyHead, if_pos rfl, hpiece]
          rfl
      | succ n =>
        refine ⟨c :: front, line, rest, ⟨?_, ?_, .inr ?_, hline.not_mem, hline.starts⟩, ?_⟩
        · rw [List.cons_append, ← hline.eq_append]
        · rw [List.count_cons_of_ne hc, hline.count_front]
        · rcases hline.ends with rfl | ⟨front', rfl⟩
          · cases hline.count_front
          · exact ⟨c :: front', rfl⟩
        · rw [List.getElem?_modifyHead, if_neg (Nat.succ_ne_zero n), hpiece]

namespace IsLine

variable {cs front line rest : List Char} {n : Nat}

/-- The last line of the characters is what stands behind the last line feed. -/
theorem rtakeWhile_eq (h : IsLine cs n front line []) : cs.rtakeWhile (· != '\n') = line := by
  have hline : ∀ c ∈ line.reverse, (c != '\n') = true := by
    intro c hc
    rw [bne_iff_ne]
    rintro rfl
    exact h.not_mem (List.mem_reverse.mp hc)
  have hfront : front.reverse.takeWhile (· != '\n') = [] := by
    rcases h.ends with rfl | ⟨front', rfl⟩
    · rfl
    · rw [List.reverse_append]
      rfl
  rw [List.rtakeWhile, h.eq_append, List.append_nil, List.reverse_append,
    List.takeWhile_append_of_pos hline, hfront, List.append_nil, List.reverse_reverse]

/-- The last line is the one with as many line feeds before it as there are. -/
theorem rest_eq_nil (h : IsLine cs (cs.count '\n') front line rest) : rest = [] := by
  rcases h.starts with h' | ⟨rest', rfl⟩
  · exact h'
  · have hcount := congrArg (List.count '\n') h.eq_append
    rw [List.count_append, List.count_append, List.count_cons_self, h.count_front] at hcount
    omega

/-- What comes behind the characters comes behind their last line. -/
theorem append_eq (h : IsLine cs n front line []) (post : List Char) :
    cs ++ post = front ++ (line ++ post) := by
  rw [h.eq_append, List.append_nil, List.append_assoc]

theorem utf8Len_eq (h : IsLine cs n front line []) :
    utf8Len cs = utf8Len front + utf8Len line := by
  rw [h.eq_append, List.append_nil, String.utf8Len_append]

end IsLine

/-- What stands in front of an offset ends with a line of its own. -/
theorem exists_lastLine (pre : List Char) :
    ∃ front, IsLine pre (pre.count '\n') front (pre.rtakeWhile (· != '\n')) [] := by
  obtain ⟨front, line, rest, hline, -⟩ := exists_isLine (Nat.le_refl (pre.count '\n'))
  obtain rfl := hline.rest_eq_nil
  rw [hline.rtakeWhile_eq]
  exact ⟨front, hline⟩

namespace LineIndex

/-- The starts of an index, as a list. -/
theorem toList_starts (text : String) :
    (ofText text).starts.toList = 0 :: startsFrom 0 text.toList := rfl

/-- Later lines start later. -/
theorem starts_lt_starts (text : String) (i j : Nat) (hi : i < (ofText text).starts.size)
    (hj : j < (ofText text).starts.size) (hij : i < j) :
    (ofText text).starts[i] < (ofText text).starts[j] := by
  have hpairwise : (ofText text).starts.toList.Pairwise (· < ·) :=
    .cons (fun _ => lt_of_mem_startsFrom) (pairwise_startsFrom 0 _)
  have h := List.pairwise_iff_getElem.mp hpairwise i j hi hj hij
  simpa only [Array.getElem_toList] using h

theorem size_starts (text : String) :
    (ofText text).starts.size = text.toList.count '\n' + 1 := by
  rw [← Array.length_toList, toList_starts, List.length_cons, length_startsFrom]

variable {front rest : List Char}

/-- The starts, in two parts: those up to a place in the characters, and those behind it. -/
theorem toList_starts_append (front rest : List Char) :
    (ofText (String.ofList (front ++ rest))).starts.toList
      = (0 :: startsFrom 0 front) ++ startsFrom (utf8Len front) rest := by
  rw [toList_starts, String.toList_ofList, startsFrom_append, Nat.zero_add, List.cons_append]

/-- A line starts where the characters before it end. -/
theorem getElem?_starts (hends : front = [] ∨ ∃ front', front = front' ++ ['\n'])
    (rest : List Char) :
    (ofText (String.ofList (front ++ rest))).starts[front.count '\n']? = some (utf8Len front) := by
  have hlength : (0 :: startsFrom 0 front).length = front.count '\n' + 1 := by
    rw [List.length_cons, length_startsFrom]
  rw [← Array.getElem?_toList, toList_starts_append,
    List.getElem?_append_left (by rw [hlength]; exact Nat.lt_succ_self _)]
  rcases hends with rfl | ⟨front', rfl⟩
  · rfl
  · have hcount : (front' ++ ['\n']).count '\n' = (startsFrom 0 front').length + 1 := by
      rw [List.count_append, length_startsFrom]
      rfl
    rw [hcount, List.getElem?_cons_succ, startsFrom_append,
      List.getElem?_append_right (Nat.le_refl _), Nat.sub_self]
    simp [startsFrom, Nat.add_comm]

/-- The line that characters end with starts where it does in them, whatever comes behind. -/
theorem getElem?_starts_lastLine {pre line : List Char}
    (h : IsLine pre (pre.count '\n') front line []) (post : List Char) :
    (ofText (String.ofList (pre ++ post))).starts[pre.count '\n']? = some (utf8Len front) := by
  have hget := getElem?_starts h.ends (line ++ post)
  rwa [← h.append_eq, h.count_front] at hget

/-- The start that is at a place behind the lines of `pre` is one of those behind `pre`. -/
theorem mem_startsFrom_of_lt {pre post : List Char} {i : Nat}
    (hi : i < (ofText (String.ofList (pre ++ post))).starts.size) (hlt : pre.count '\n' < i) :
    (ofText (String.ofList (pre ++ post))).starts[i] ∈ startsFrom (utf8Len pre) post := by
  have hlength : (0 :: startsFrom 0 pre).length ≤ i := by
    rw [List.length_cons, length_startsFrom]
    exact hlt
  have hget := Array.getElem?_eq_getElem hi
  rw [← Array.getElem?_toList, toList_starts_append, List.getElem?_append_right hlength] at hget
  exact List.mem_of_getElem? hget

end LineIndex

/-! ### Positions -/

/-- `k` more bytes do not get past the first of the characters. -/
def Reaches (k : Nat) (post : List Char) : Prop :=
  k = 0 ∨ ∃ c rest, post = c :: rest ∧ k < c.utf8Size

/-- Every offset up to the end is behind some of the characters and not past the next one. -/
theorem exists_reaches {cs : List Char} {offset : Nat} (h : offset ≤ utf8Len cs) :
    ∃ pre post k, cs = pre ++ post ∧ offset = utf8Len pre + k ∧ Reaches k post := by
  induction cs generalizing offset with
  | nil => exact ⟨[], [], 0, rfl, Nat.le_zero.mp h, .inl rfl⟩
  | cons c cs ih =>
    by_cases hc : offset < c.utf8Size
    · exact ⟨[], c :: cs, offset, rfl, (Nat.zero_add _).symm, .inr ⟨c, cs, rfl, hc⟩⟩
    · rw [String.utf8Len_cons] at h
      have hrest : offset - c.utf8Size ≤ utf8Len cs := Nat.sub_le_of_le_add h
      obtain ⟨pre, post, k, rfl, hoffset, hk⟩ := ih hrest
      refine ⟨c :: pre, post, k, rfl, ?_, hk⟩
      rw [String.utf8Len_cons]
      omega

namespace LineIndex

variable {pre post : List Char} {k : Nat}

/-- The starts behind an offset are behind the character that it is in. -/
theorem lt_of_reaches (hk : Reaches k post) {s : Nat} (hs : s ∈ startsFrom (utf8Len pre) post) :
    utf8Len pre + k < s := by
  rcases hk with rfl | ⟨c, rest, rfl, hlt⟩
  · exact lt_of_mem_startsFrom hs
  · exact Nat.lt_of_lt_of_le (Nat.add_lt_add_left hlt _) (le_of_mem_startsFrom hs)

/-- The line of an offset is that of the last start up to it. -/
theorem lineOf_ofText (pre : List Char) (hk : Reaches k post) :
    (ofText (String.ofList (pre ++ post))).lineOf (utf8Len pre + k) = .ok (pre.count '\n') := by
  obtain ⟨front, hlast⟩ := exists_lastLine pre
  obtain ⟨hcount, hget⟩ := Array.getElem?_eq_some_iff.mp (getElem?_starts_lastLine hlast post)
  have hstart : (ofText (String.ofList (pre ++ post))).starts[pre.count '\n']
      ≤ utf8Len pre + k := by
    rw [hget, hlast.utf8Len_eq]
    omega
  rw [lineOf]
  rcases bisect_eq (starts_lt_starts _) hcount hstart
    (fun i hi hlt => lt_of_reaches hk (mem_startsFrom_of_lt hi hlt)) (Nat.zero_le _)
    (Nat.le_refl _) hcount with h | h
  · rw [h]
  · rw [h]
    show difference _ _ = _
    rw [difference, if_pos (Nat.le_add_left 1 _), Nat.add_sub_cancel]

/-- A position is found when a line, its start and the bytes from there on are. -/
theorem position_eq {x : LineIndex} {offset line start bytes : Nat}
    (hsize : offset ≤ x.text.utf8ByteSize) (hline : x.lineOf offset = .ok line)
    (hstart : x.start line = .ok start) (hbytes : difference offset start = .ok bytes) :
    x.position offset
      = .ok ⟨line + 1, ((slice? x.text start offset).map List.length).getD bytes + 1⟩ := by
  rw [position, Nat.min_eq_left hsize, hline]
  show (x.start line >>= _) = _
  rw [hstart]
  show (difference offset start >>= _) = _
  rw [hbytes]
  rfl

/-- The column of an offset, counted from 0: the characters from the start of the line on, or the
bytes if the offset is inside a character. -/
def columnOf (pre : List Char) (k : Nat) : Nat :=
  let line := pre.rtakeWhile (· != '\n')
  if k = 0 then line.length else utf8Len line + k

/-- What is cut out between the start of the line and an offset is as long as the column says. -/
theorem column_eq {pre front : List Char} {n : Nat}
    (h : IsLine pre n front (pre.rtakeWhile (· != '\n')) []) (hk : Reaches k post) :
    ((slice? (String.ofList (pre ++ post)) (utf8Len front) (utf8Len pre + k)).map
      List.length).getD (utf8Len (pre.rtakeWhile (· != '\n')) + k) = columnOf pre k := by
  rw [h.append_eq, h.utf8Len_eq, Nat.add_assoc, slice?_append, columnOf]
  rcases Nat.eq_zero_or_pos k with rfl | hpos
  · rw [takeBytes?, if_pos rfl, Option.map_some, Option.map_some, List.append_nil,
      Option.getD_some]
  · obtain ⟨c, rest, rfl, hlt⟩ := hk.resolve_left (Nat.ne_of_gt hpos)
    rw [takeBytes?_eq_none hpos hlt, if_neg (Nat.ne_of_gt hpos)]
    rfl

theorem position_ofText (pre : List Char) (hk : Reaches k post) :
    (ofText (String.ofList (pre ++ post))).position (utf8Len pre + k)
      = .ok ⟨pre.count '\n' + 1, columnOf pre k + 1⟩ := by
  obtain ⟨front, hlast⟩ := exists_lastLine pre
  have hsize : utf8Len pre + k ≤ (String.ofList (pre ++ post)).utf8ByteSize := by
    rw [String.utf8ByteSize_ofList, String.utf8Len_append]
    rcases hk with rfl | ⟨c, rest, rfl, hlt⟩
    · omega
    · rw [String.utf8Len_cons]
      omega
  have hstart : (ofText (String.ofList (pre ++ post))).start (pre.count '\n')
      = .ok (utf8Len front) := by
    rw [start, getElem?_starts_lastLine hlast]
  have hbytes : difference (utf8Len pre + k) (utf8Len front)
      = .ok (utf8Len (pre.rtakeWhile (· != '\n')) + k) := by
    have hlen := hlast.utf8Len_eq
    rw [difference, if_pos (by omega), hlen, Nat.add_assoc, Nat.add_sub_cancel_left]
  rw [position_eq hsize (lineOf_ofText pre hk) hstart hbytes]
  exact congrArg (fun column => Except.ok (Position.mk _ (column + 1))) (column_eq hlast hk)

/-- An offset past the end is read as the end. -/
theorem position_min (x : LineIndex) (offset : Nat) :
    x.position (min offset x.text.utf8ByteSize) = x.position offset := by
  rw [position, position, Nat.min_assoc, Nat.min_self]

/-! ### The texts of lines -/

/-- A line ends where it does in the characters, at its line feed or at the end of the text. -/
theorem stop_ofText {cs front line rest : List Char} {n : Nat} (h : IsLine cs n front line rest) :
    (ofText (String.ofList cs)).stop n = .ok (utf8Len front + utf8Len line) := by
  have hline : line.count '\n' = 0 := List.count_eq_zero.mpr h.not_mem
  rcases h.starts with rfl | ⟨rest', rfl⟩
  · have hcs : cs.count '\n' = n := by
      rw [h.eq_append, List.append_nil, List.count_append, h.count_front, hline, Nat.add_zero]
    have hnone : (ofText (String.ofList cs)).starts[n + 1]? = none := by
      rw [Array.getElem?_eq_none_iff, size_starts, String.toList_ofList, hcs]
    have hlen : (String.ofList cs).utf8ByteSize = utf8Len front + utf8Len line := by
      rw [String.utf8ByteSize_ofList, h.eq_append, String.utf8Len_append, List.append_nil]
    rw [stop, hnone, ← hlen]
    rfl
  · -- what stands before the next line ends with the line feed of this one
    have hends : front ++ (line ++ ['\n']) = [] ∨
        ∃ front', front ++ (line ++ ['\n']) = front' ++ ['\n'] :=
      .inr ⟨front ++ line, (List.append_assoc ..).symm⟩
    have hget := getElem?_starts hends rest'
    have hcount : (front ++ (line ++ ['\n'])).count '\n' = n + 1 := by
      rw [List.count_append, List.count_append, h.count_front, hline]
      rfl
    have hlen : utf8Len (front ++ (line ++ ['\n'])) = utf8Len front + utf8Len line + 1 := by
      rw [String.utf8Len_append, String.utf8Len_append, Nat.add_assoc]
      rfl
    have hnext : front ++ (line ++ ['\n']) ++ rest' = cs := by
      rw [h.eq_append, List.append_assoc, List.append_assoc]
      rfl
    rw [hcount, hnext, hlen] at hget
    rw [stop, hget]
    show difference _ _ = _
    rw [difference, if_pos (Nat.le_add_left 1 _), Nat.add_sub_cancel]

theorem lineText_ofText {cs front line rest : List Char} {n : Nat}
    (h : IsLine cs n front line rest) :
    (ofText (String.ofList cs)).lineText (n + 1)
      = .ok (some (String.ofList (trimEnd (· == '\r') line))) := by
  have hstart : (ofText (String.ofList cs)).starts[n]? = some (utf8Len front) := by
    have hget := getElem?_starts h.ends (line ++ rest)
    rwa [← h.eq_append, h.count_front] at hget
  have hslice : slice? (String.ofList cs) (utf8Len front) (utf8Len front + utf8Len line)
      = some line := by
    have hslice := slice?_append front line rest 0
    rw [← h.eq_append, takeBytes?, Option.map_some, List.append_nil] at hslice
    exact hslice
  rw [lineText, hstart]
  show ((ofText (String.ofList cs)).stop n >>= _) = _
  rw [stop_ofText h]
  show Except.ok ((slice? (String.ofList cs) _ _).map _) = _
  rw [hslice, Option.map_some]

/-- A number past that of the last line names no line. -/
theorem lineText_eq_none {cs : List Char} {n : Nat} (h : cs.count '\n' < n) :
    (ofText (String.ofList cs)).lineText (n + 1) = .ok none := by
  have hnone : (ofText (String.ofList cs)).starts[n]? = none := by
    rw [Array.getElem?_eq_none_iff, size_starts, String.toList_ofList]
    exact h
  rw [lineText, hnone]

end LineIndex

theorem trimEnd_eq_rdropWhile (p : Char → Bool) (cs : List Char) :
    trimEnd p cs = cs.rdropWhile p := by
  induction cs with
  | nil => rfl
  | cons c cs ih =>
    rw [trimEnd, ih, List.rdropWhile, List.rdropWhile, List.reverse_cons, List.dropWhile_append]
    rcases hkept : cs.reverse.dropWhile p with - | ⟨d, ds⟩
    · by_cases hc : p c = true <;> simp [hc]
    · simp

theorem length_splitAt (separator : Char) (cs : List Char) :
    (splitAt separator cs).length = cs.count separator + 1 := by
  induction cs with
  | nil => rfl
  | cons c cs ih =>
    rw [splitAt]
    split
    · rename_i hc
      rw [hc, List.length_cons, ih, List.count_cons_self]
    · rename_i hc
      rw [List.count_cons_of_ne hc, ← ih]
      rcases hpieces : splitAt separator cs with - | ⟨piece, pieces⟩
      · rw [hpieces] at ih
        cases ih
      · rfl

/-! ### Positions and lines -/

/-- The number of line feeds in a text. -/
def feeds (text : String) : Nat := text.toList.count '\n'

/-- What stands behind the last line feed of a text. -/
def lastLine (text : String) : String := String.ofList (text.toList.rtakeWhile (· != '\n'))

/-- The piece of a number, counted from 1, when a text is split at line feeds; the carriage returns
at its end are left out. -/
def piece? (text : String) : Nat → Option String
  | 0 => none
  | n + 1 => (text.toList.splitOn '\n')[n]?.map fun piece =>
      String.ofList (piece.rdropWhile (· == '\r'))

/-- The position is before the other one, by line and then by column. -/
def Position.Before (p q : Position) : Prop :=
  p.line < q.line ∨ p.line = q.line ∧ p.column < q.column

section

variable (text : String)

/-- Nothing that must not happen does: every offset has a position. -/
theorem position_ok (offset : Nat) :
    (LineIndex.ofText text).position offset = .ok (position text offset) := by
  obtain ⟨p, hp⟩ : ∃ p, (LineIndex.ofText text).position offset = .ok p := by
    have hle : min offset text.utf8ByteSize ≤ utf8Len text.toList := by
      rw [String.utf8Len_toList]
      exact Nat.min_le_right _ _
    obtain ⟨pre, post, k, htext, hoffset, hk⟩ := exists_reaches hle
    have hposition := LineIndex.position_ofText pre hk
    rw [← htext, ← hoffset, String.ofList_toList] at hposition
    exact ⟨_, ((LineIndex.ofText text).position_min offset).symm.trans hposition⟩
  rw [position, hp]
  rfl

theorem position_of_min_eq {offset offset' : Nat}
    (h : min offset text.utf8ByteSize = min offset' text.utf8ByteSize) :
    position text offset = position text offset' := by
  have hclamp := (LineIndex.ofText text).position_min
  rw [position, position, ← hclamp offset, ← hclamp offset']
  show (LineIndex.position _ (min offset text.utf8ByteSize)).toOption.getD _ = _
  rw [h]
  rfl

theorem lineText_eq (n : Nat) : (LineIndex.ofText text).lineText n = .ok (piece? text n) := by
  cases n with
  | zero => rfl
  | succ n =>
    rw [piece?, ← splitAt_eq_splitOn]
    by_cases h : n ≤ text.toList.count '\n'
    · obtain ⟨front, line, rest, hline, hpiece⟩ := exists_isLine h
      have hok := LineIndex.lineText_ofText hline
      rw [String.ofList_toList, trimEnd_eq_rdropWhile] at hok
      rw [hok, hpiece, Option.map_some]
    · have hnone := LineIndex.lineText_eq_none (Nat.lt_of_not_le h)
      have hpiece : (splitAt '\n' text.toList)[n]? = none := by
        rw [List.getElem?_eq_none_iff, length_splitAt]
        exact Nat.lt_of_not_le h
      rw [String.ofList_toList] at hnone
      rw [hnone, hpiece, Option.map_none]

theorem lineText?_eq (n : Nat) : lineText? text n = piece? text n := by
  rw [lineText?, lineText_eq]
  rfl

theorem piece?_eq_none_iff (n : Nat) : piece? text n = none ↔ n = 0 ∨ feeds text + 1 < n := by
  cases n with
  | zero => exact iff_of_true rfl (.inl rfl)
  | succ n =>
    rw [piece?, ← splitAt_eq_splitOn, Option.map_eq_none_iff, List.getElem?_eq_none_iff,
      length_splitAt, feeds]
    omega

end

theorem position_of_reaches (pre : List Char) {post : List Char} {k : Nat} (hk : Reaches k post) :
    position (String.ofList (pre ++ post)) (utf8Len pre + k)
      = ⟨pre.count '\n' + 1, LineIndex.columnOf pre k + 1⟩ := by
  rw [position, LineIndex.position_ofText pre hk]
  rfl

variable (before after : String)

theorem position_append :
    position (before ++ after) before.utf8ByteSize
      = ⟨feeds before + 1, (lastLine before).length + 1⟩ := by
  have hreaches : Reaches 0 after.toList := .inl rfl
  have h := position_of_reaches before.toList hreaches
  rw [Nat.add_zero, String.utf8Len_toList, ← String.toList_append, String.ofList_toList] at h
  rw [h, lastLine, String.length_ofList]
  rfl

theorem position_inside (c : Char) {k : Nat} (hpos : 0 < k) (hlt : k < c.utf8Size) :
    position (before ++ String.singleton c ++ after) (before.utf8ByteSize + k)
      = ⟨feeds before + 1, (lastLine before).utf8ByteSize + k + 1⟩ := by
  have hreaches : Reaches k (c :: after.toList) := .inr ⟨c, after.toList, rfl, hlt⟩
  have h := position_of_reaches before.toList hreaches
  have htext : String.ofList (before.toList ++ c :: after.toList)
      = before ++ String.singleton c ++ after := by
    rw [← String.toList_inj]
    simp
  rw [htext, String.utf8Len_toList] at h
  rw [h, lastLine, String.utf8ByteSize_ofList, LineIndex.columnOf, if_neg (Nat.ne_of_gt hpos)]
  rfl

/-- The line of what stands in front goes on up to the next line feed. -/
theorem lineText?_append :
    lineText? (before ++ after) (feeds before + 1)
      = some (String.ofList (((lastLine before).toList
        ++ after.toList.takeWhile (· != '\n')).rdropWhile (· == '\r'))) := by
  obtain ⟨front, hlast⟩ := exists_lastLine before.toList
  have hline : IsLine (before.toList ++ after.toList) (feeds before) front
      ((lastLine before).toList ++ after.toList.takeWhile (· != '\n'))
      (after.toList.dropWhile (· != '\n')) := by
    refine ⟨?_, hlast.count_front, hlast.ends, ?_, ?_⟩
    · rw [lastLine, String.toList_ofList, List.append_assoc, List.takeWhile_append_dropWhile,
        hlast.append_eq]
    · rw [lastLine, String.toList_ofList, List.mem_append, not_or]
      refine ⟨hlast.not_mem, fun h => ?_⟩
      exact absurd (List.mem_takeWhile_imp h) (by decide)
    · rcases hrest : after.toList.dropWhile (· != '\n') with - | ⟨c, rest⟩
      · exact .inl rfl
      · have hc := List.head?_dropWhile_not (· != '\n') after.toList
        rw [hrest] at hc
        obtain rfl : c = '\n' := by simpa using hc
        exact .inr ⟨rest, rfl⟩
  have hok := LineIndex.lineText_ofText hline
  rw [← String.toList_append, String.ofList_toList, trimEnd_eq_rdropWhile] at hok
  rw [lineText?, hok]
  rfl

/-- More text in front makes for a later position. -/
theorem before_of_append {piece : String} (h : piece ≠ "") :
    (position (before ++ (piece ++ after)) before.utf8ByteSize).Before
      (position (before ++ (piece ++ after)) (before ++ piece).utf8ByteSize) := by
  have hlater := position_append (before ++ piece) after
  rw [String.append_assoc] at hlater
  rw [position_append, hlater]
  have hfeeds : feeds (before ++ piece) = feeds before + feeds piece := by
    rw [feeds, String.toList_append, List.count_append]
    rfl
  rcases Nat.eq_zero_or_pos (feeds piece) with hzero | hpos
  · -- without a line feed in between, the line goes on
    right
    have hnone : ∀ c ∈ piece.toList, (c != '\n') = true := by
      intro c hc
      rw [bne_iff_ne]
      rintro rfl
      exact List.count_eq_zero.mp hzero hc
    have hlast : lastLine (before ++ piece) = lastLine before ++ piece := by
      rw [lastLine, lastLine, String.toList_append, List.rtakeWhile, List.reverse_append,
        List.takeWhile_append_of_pos (by simpa using hnone), List.reverse_append,
        List.reverse_reverse, String.ofList_append, String.ofList_toList]
      rfl
    have hpiece : 0 < piece.length := by
      rw [Nat.pos_iff_ne_zero]
      exact fun h' => h (String.length_eq_zero_iff.mp h')
    refine ⟨?_, ?_⟩
    · show feeds before + 1 = feeds (before ++ piece) + 1
      rw [hfeeds, hzero, Nat.add_zero]
    · show (lastLine before).length + 1 < (lastLine (before ++ piece)).length + 1
      rw [hlast, String.length_append]
      omega
  · left
    show feeds before + 1 < feeds (before ++ piece) + 1
    omega

/-- An offset is at the end of what stands in front of it. -/
theorem position_eq_of_min_eq {text before after : String} {offset : Nat}
    (htext : text = before ++ after)
    (hoffset : min offset text.utf8ByteSize = before.utf8ByteSize) :
    position text offset = ⟨feeds before + 1, (lastLine before).length + 1⟩ := by
  subst htext
  rw [← position_append before after]
  apply position_of_min_eq
  rw [hoffset, String.utf8ByteSize_append, Nat.min_eq_left (Nat.le_add_right _ _)]

/-- Of two parts in front, the one with more bytes has the other one in front of it. -/
theorem exists_eq_append {before after before' after' : String}
    (h : before ++ after = before' ++ after') (hlt : before.utf8ByteSize < before'.utf8ByteSize) :
    ∃ piece, piece ≠ "" ∧ before' = before ++ piece ∧ after = piece ++ after' := by
  have hlist : before.toList ++ after.toList = before'.toList ++ after'.toList := by
    rw [← String.toList_append, h, String.toList_append]
  rcases List.append_eq_append_iff.mp hlist with ⟨cs, hbefore, hafter⟩ | ⟨cs, hbefore, -⟩
  · have hbefore : before' = before ++ String.ofList cs := by
      rw [← String.toList_inj, hbefore, String.toList_append, String.toList_ofList]
    have hafter : after = String.ofList cs ++ after' := by
      rw [← String.toList_inj, hafter, String.toList_append, String.toList_ofList]
    refine ⟨String.ofList cs, ?_, hbefore, hafter⟩
    intro hempty
    rw [hempty, String.append_empty] at hbefore
    rw [hbefore] at hlt
    exact Nat.lt_irrefl _ hlt
  · have hbefore : before = before' ++ String.ofList cs := by
      rw [← String.toList_inj, hbefore, String.toList_append, String.toList_ofList]
    rw [hbefore, String.utf8ByteSize_append] at hlt
    omega

/-- **Positions count, and lines are pieces.**  An offset at the end of characters is on the line
after as many line feeds as there are in them, in the column after as many characters as there are
behind the last one; inside a character bytes are counted instead.  So later offsets have later
positions.  A line is a piece of the text between line feeds.  On the way no start is missing and no
difference lies below zero. -/
theorem positions_and_lines (text : String) :
    (∀ offset, (LineIndex.ofText text).position offset = .ok (position text offset)) ∧
    (∀ n, (LineIndex.ofText text).lineText n = .ok (lineText? text n)) ∧
    (∀ before after offset, text = before ++ after →
      min offset text.utf8ByteSize = before.utf8ByteSize →
      position text offset = ⟨feeds before + 1, (lastLine before).length + 1⟩) ∧
    (∀ before c after k, text = before ++ String.singleton c ++ after → 0 < k →
      k < c.utf8Size →
      position text (before.utf8ByteSize + k)
        = ⟨feeds before + 1, (lastLine before).utf8ByteSize + k + 1⟩) ∧
    (∀ before after before' after', text = before ++ after → text = before' ++ after' →
      before.utf8ByteSize < before'.utf8ByteSize →
      (position text before.utf8ByteSize).Before (position text before'.utf8ByteSize)) ∧
    (∀ n, lineText? text n = piece? text n) ∧
    ∀ n, lineText? text n = none ↔ n = 0 ∨ feeds text + 1 < n := by
  refine ⟨position_ok text, ?_, ?_, ?_, ?_, lineText?_eq text, ?_⟩
  · intro n
    rw [lineText_eq, lineText?_eq]
  · intro before after offset htext hoffset
    exact position_eq_of_min_eq htext hoffset
  · intro before c after k htext hpos hlt
    rw [htext, position_inside before after c hpos hlt]
  · intro before after before' after' htext htext' hlt
    obtain ⟨piece, hpiece, rfl, rfl⟩ := exists_eq_append (htext.symm.trans htext') hlt
    rw [htext]
    exact before_of_append before after' hpiece
  · intro n
    rw [lineText?_eq, piece?_eq_none_iff]

/-- A text with a character of two bytes, carriage returns before a line feed, and an empty line. -/
theorem positions_and_lines_accented :
    position "é\r\r\n\nb" 1 = ⟨1, 2⟩ ∧ position "é\r\r\n\nb" 6 = ⟨3, 1⟩ ∧
      (position "é\r\r\n\nb" 2).Before (position "é\r\r\n\nb" 5) ∧
      lineText? "é\r\r\n\nb" 1 = some "é" ∧ lineText? "é\r\r\n\nb" 4 = none := by
  obtain ⟨-, -, hend, hinside, hlater, hline, hnone⟩ := positions_and_lines "é\r\r\n\nb"
  refine ⟨?_, ?_, ?_, ?_, ?_⟩
  · have h := hinside "" 'é' "\r\r\n\nb" 1 (by decide) (by decide) (by decide)
    exact h.trans (by decide)
  · have h := hend "é\r\r\n\n" "b" 6 (by decide) (by decide)
    exact h.trans (by decide)
  · exact hlater "é" "\r\r\n\nb" "é\r\r\n" "\nb" (by decide) (by decide) (by decide)
  · exact (hline 1).trans (by decide)
  · exact (hnone 4).mpr (.inr (by decide))

end TreeLint.Text
