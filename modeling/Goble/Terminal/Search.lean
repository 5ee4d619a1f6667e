import Goble.Lib.Leftmost
import Goble.Terminal.Cell

/-!
# Searching the rows of a screen

`search_lines` finds a query in the text of each row and reports where in cell columns. Each
character of the text is noted with the column of the cell it came from and how many columns that
cell is wide (`charColumns`), and a match spans from the column of its first character to the end
of its last (`searchLine`).

The `regex` crate is a parameter: how a pattern is built and searched for (`RegexCrate`), and what
its documentation says of that (`RegexCrate.Lawful`). A match is given by the positions of its
characters in the text, which is what the source counts out of its byte offsets.
-/

namespace Goble.Terminal

/-- How a search compares its lines. -/
structure SearchOptions where
  regex : Bool := false
  /-- `none` is smart case. -/
  caseSensitive : Option Bool := none
deriving DecidableEq, Repr

/-- One match in the screen's content. `col` and `len` are cell columns. -/
structure SearchMatch where
  line : Nat
  col : Nat
  len : Nat
  text : List Char
deriving DecidableEq, Repr

inductive SearchError where
  | invalidRegex (message : String)
deriving DecidableEq, Repr

/-- A built pattern: its leftmost match from a position of a text on. -/
abbrev Pattern := List Char → Nat → Option (Nat × Nat)

structure RegexCrate where
  escape : List Char → List Char
  /-- `RegexBuilder`, with whether case is ignored. -/
  build : List Char → Bool → Except String Pattern

/-- A cell that is not in the text of its row. -/
def ScreenCell.isSpacer (cell : ScreenCell) : Bool :=
  cell.attrs.wideSpacer || cell.attrs.leadingWideSpacer

def cellColumns (column : Nat) (cell : ScreenCell) : List (Char × Nat × Nat) :=
  if cell.isSpacer then []
  else (cell.ch, column, if cell.attrs.wide then 2 else 1) ::
    cell.zerowidth.map fun mark => (mark, column, 0)

def columnsFrom (column : Nat) : List ScreenCell → List (Char × Nat × Nat)
  | [] => []
  | cell :: cells => cellColumns column cell ++ columnsFrom (column + 1) cells

/-- The text the search compares, and the cell column each character starts in: the three vectors
of the source as one. -/
def charColumns (line : ScreenLine) : List (Char × Nat × Nat) :=
  let all := columnsFrom 0 line.cells
  all.take (trimEnd (all.map Prod.fst)).length

def searchText (line : ScreenLine) : List Char := (charColumns line).map Prod.fst

def report (index : Nat) (line : ScreenLine) : Nat × Nat → Option SearchMatch
  | (first, last) =>
    if first = last then none
    else
      match (charColumns line)[first]? with
      | none => none
      | some (_, col, _) =>
        let end' := (((charColumns line)[last - 1]?.map fun c => c.2.1).getD col) +
          (((charColumns line)[last - 1]?.map fun c => c.2.2).getD 1)
        some {
          line := index
          col
          len := end' - col
          text := ((searchText line).take last).drop first }

def searchLine (pattern : Pattern) (index : Nat) (line : ScreenLine) : List SearchMatch :=
  (findIter pattern (searchText line)).filterMap (report index line)

def queryPattern (crate : RegexCrate) (query : List Char) (options : SearchOptions) : List Char :=
  if options.regex then query else crate.escape query

/-- Smart case, unless the caller has chosen. `isUppercase` is the property of the character. -/
def caseSensitive (isUppercase : Char → Bool) (query : List Char) (options : SearchOptions) :
    Bool :=
  options.caseSensitive.getD (query.any isUppercase)

def searchLines (crate : RegexCrate) (isUppercase : Char → Bool) (lines : List ScreenLine)
    (query : List Char) (options : SearchOptions) : Except SearchError (List SearchMatch) :=
  if query = [] then .ok []
  else
    match crate.build (queryPattern crate query options)
        (!caseSensitive isUppercase query options) with
    | .error message => .error (.invalidRegex message)
    | .ok pattern => .ok (lines.zipIdx.flatMap fun (line, index) => searchLine pattern index line)

/-! ### Columns -/

variable {entry : Char × Nat × Nat}

theorem mem_columnsFrom {start : Nat} {cells : List ScreenCell}
    (h : entry ∈ columnsFrom start cells) :
    ∃ k cell, entry.2.1 = start + k ∧ cells[k]? = some cell ∧ cell.isSpacer = false ∧
      (entry.2.2 = 2 ∧ cell.attrs.wide ∨ entry.2.2 = 1 ∨ entry.2.2 = 0) := by
  induction cells generalizing start with
  | nil => cases h
  | cons cell cells ih =>
    obtain hcell | hrest := List.mem_append.mp h
    · rw [cellColumns] at hcell
      split at hcell
      · cases hcell
      · next hspacer =>
        have hspacer := Bool.eq_false_iff.mpr hspacer
        obtain hch | hmark := List.mem_cons.mp hcell
        · cases hch
          refine ⟨0, cell, rfl, rfl, hspacer, ?_⟩
          by_cases hwide : cell.attrs.wide
          · exact .inl ⟨if_pos hwide, hwide⟩
          · exact .inr (.inl (if_neg hwide))
        · obtain ⟨mark, -, hmark⟩ := List.mem_map.mp hmark
          cases hmark
          exact ⟨0, cell, rfl, rfl, hspacer, .inr (.inr rfl)⟩
    · obtain ⟨k, cell', hcolumn, hget, hspec⟩ := ih hrest
      exact ⟨k + 1, cell', by omega, hget, hspec⟩

theorem own_mem_columnsFrom (start : Nat) {k : Nat} {cells : List ScreenCell} {cell : ScreenCell}
    (h : cells[k]? = some cell) (hspacer : cell.isSpacer = false) :
    ∃ width, (cell.ch, start + k, width) ∈ columnsFrom start cells := by
  induction cells generalizing start k with
  | nil => cases h
  | cons first cells ih =>
    cases k with
    | zero =>
      cases h
      refine ⟨if cell.attrs.wide then 2 else 1, List.mem_append_left _ ?_⟩
      rw [cellColumns, if_neg (by rw [hspacer]; exact Bool.false_ne_true)]
      exact List.mem_cons_self
    | succ k =>
      obtain ⟨width, hmem⟩ := ih (start + 1) h
      refine ⟨width, List.mem_append_right _ ?_⟩
      rwa [Nat.add_right_comm] at hmem

theorem pairwise_columnsFrom (start : Nat) (cells : List ScreenCell) :
    (columnsFrom start cells).Pairwise (·.2.1 ≤ ·.2.1) := by
  induction cells generalizing start with
  | nil => exact List.Pairwise.nil
  | cons cell cells ih =>
    have hcell : ∀ entry ∈ cellColumns start cell, entry.2.1 = start := by
      intro entry hentry
      rw [cellColumns] at hentry
      split at hentry
      · cases hentry
      · obtain rfl | hmark := List.mem_cons.mp hentry
        · rfl
        · obtain ⟨mark, -, rfl⟩ := List.mem_map.mp hmark
          rfl
    refine List.pairwise_append.mpr ⟨?_, ih (start + 1), ?_⟩
    · refine List.pairwise_of_forall_mem_list fun a ha b hb => ?_
      exact Nat.le_of_eq ((hcell a ha).trans (hcell b hb).symm)
    · intro a ha b hb
      obtain ⟨k, -, hcolumn, -⟩ := mem_columnsFrom hb
      rw [hcell a ha, hcolumn]
      omega

theorem length_searchText (line : ScreenLine) :
    (searchText line).length = (charColumns line).length := List.length_map _

variable {line : ScreenLine}

theorem getElem?_charColumns {k : Nat} (h : (charColumns line)[k]? = some entry) :
    (columnsFrom 0 line.cells)[k]? = some entry := by
  rw [charColumns, List.getElem?_take] at h
  split at h
  · exact h
  · cases h

/-- What comes before a character of the text is in the text. -/
theorem getElem?_charColumns_of_le {k k' : Nat} {entry' : Char × Nat × Nat} (hle : k ≤ k')
    (h : (columnsFrom 0 line.cells)[k]? = some entry) (h' : (charColumns line)[k']? = some entry') :
    (charColumns line)[k]? = some entry := by
  rw [charColumns, List.getElem?_take] at h' ⊢
  split at h'
  · rw [if_pos (by omega), h]
  · cases h'

theorem column_le {k k' : Nat} {entry' : Char × Nat × Nat} (hle : k ≤ k')
    (h : (columnsFrom 0 line.cells)[k]? = some entry)
    (h' : (columnsFrom 0 line.cells)[k']? = some entry') : entry.2.1 ≤ entry'.2.1 := by
  obtain rfl | hlt := Nat.eq_or_lt_of_le hle
  · cases h.symm.trans h'
    exact Nat.le_refl _
  · obtain ⟨hk, rfl⟩ := List.getElem?_eq_some_iff.mp h
    obtain ⟨hk', rfl⟩ := List.getElem?_eq_some_iff.mp h'
    exact List.pairwise_iff_getElem.mp (pairwise_columnsFrom 0 line.cells) k k' hk hk' hlt

/-! ### Spans -/

structure SearchMatch.Of (found : SearchMatch) (line : ScreenLine) (first last : Nat) : Prop where
  lt : first < last
  le : last ≤ (searchText line).length
  text_eq : found.text = ((searchText line).take last).drop first

/-- The cell in this column added one of the characters. -/
def Contributes (line : ScreenLine) (first last column : Nat) : Prop :=
  ∃ k c width, first ≤ k ∧ k < last ∧ (charColumns line)[k]? = some (c, column, width)

/-- The last character is a cell's own, not a combining mark on it. -/
def EndsInCell (line : ScreenLine) (last : Nat) : Prop :=
  ∃ c column width, (charColumns line)[last - 1]? = some (c, column, width) ∧ width ≠ 0

/-- What a span is to be. Beside the cells of its characters there are only spacers in it, and the
column after a wide cell. -/
structure SearchMatch.Spans (found : SearchMatch) (line : ScreenLine) (first last : Nat) :
    Prop where
  len_pos : 0 < found.len
  covers : ∀ column, Contributes line first last column →
    found.col ≤ column ∧ column < found.col + found.len
  only : ∀ column, found.col ≤ column → column < found.col + found.len →
    Contributes line first last column ∨
      (∃ cell, line.cells[column]? = some cell ∧ cell.isSpacer) ∨
      ∃ before cell, column = before + 1 ∧ line.cells[before]? = some cell ∧ cell.attrs.wide ∧
        Contributes line first last before
  inside : (∀ cell, line.cells.getLast? = some cell → cell.attrs.wide = false) →
    found.col + found.len ≤ line.cells.length

theorem report_eq_some {index first last : Nat} {found : SearchMatch}
    (h : report index line (first, last) = some found) :
    first ≠ last ∧ ∃ c col width, (charColumns line)[first]? = some (c, col, width) ∧
      found.line = index ∧ found.col = col ∧
      found.text = ((searchText line).take last).drop first ∧
      ∀ c' column' width', (charColumns line)[last - 1]? = some (c', column', width') →
        found.len = column' + width' - col := by
  rw [report] at h
  split at h
  · cases h
  · next hne =>
    split at h
    · cases h
    · next c col width hfirst =>
      cases h
      refine ⟨hne, c, col, width, hfirst, rfl, rfl, rfl, fun c' column' width' hlast => ?_⟩
      show _ - col = _
      rw [hlast]
      rfl

theorem spans_of_report {index first last : Nat} {found : SearchMatch}
    (h : report index line (first, last) = some found) (hle : first ≤ last)
    (hends : EndsInCell line last) : found.Spans line first last := by
  obtain ⟨hne, c, col, width, hfirst, -, hcol, -, hlen⟩ := report_eq_some h
  obtain ⟨c', column', width', hlast, hwidth⟩ := hends
  have hlen := hlen c' column' width' hlast
  have hlt : first < last := Nat.lt_of_le_of_ne hle hne
  have hfirst' := getElem?_charColumns hfirst
  have hlast' := getElem?_charColumns hlast
  have hcolumns : col ≤ column' := column_le (by omega) hfirst' hlast'
  obtain ⟨k, cell, hk, hcell, -, hwide⟩ := mem_columnsFrom (List.mem_of_getElem? hlast')
  replace hk : column' = k := hk.trans (Nat.zero_add k)
  subst hk
  have hcells := (List.getElem?_eq_some_iff.mp hcell).1
  refine ⟨by omega, ?_, ?_, ?_⟩
  · rintro column ⟨k, c, width, hk, hk', hget⟩
    have hget' := getElem?_charColumns hget
    have hlow : col ≤ column := column_le hk hfirst' hget'
    have hhigh : column ≤ column' := column_le (by omega) hget' hlast'
    omega
  · intro column hlow hhigh
    rw [hcol] at hlow
    by_cases hcolumn : column' < column
    · -- the second column of a wide cell
      obtain ⟨rfl, hwide⟩ | rfl | rfl := hwide
      · refine .inr (.inr ⟨column', cell, by omega, hcell, hwide, last - 1, c', 2, ?_⟩)
        exact ⟨by omega, by omega, hlast⟩
      · omega
      · omega
    · have hlen : column < line.cells.length := by omega
      by_cases hspacer : line.cells[column].isSpacer
      · exact .inr (.inl ⟨_, List.getElem?_eq_getElem hlen, hspacer⟩)
      · -- the cell's own character stands between the first and the last of the match
        obtain ⟨width'', hmem⟩ := own_mem_columnsFrom 0
          (List.getElem?_eq_getElem hlen) (Bool.eq_false_iff.mpr hspacer)
        rw [Nat.zero_add] at hmem
        obtain ⟨k, hk⟩ := List.mem_iff_getElem?.mp hmem
        left
        obtain hafter | hbefore := Nat.lt_or_ge k first
        · have hle : column ≤ col := column_le (Nat.le_of_lt hafter) hk hfirst'
          obtain rfl : column = col := Nat.le_antisymm hle hlow
          exact ⟨first, c, width, Nat.le_refl _, hlt, hfirst⟩
        · obtain hwithin | hbeyond := Nat.lt_or_ge k last
          · exact ⟨k, _, width'', hbefore, hwithin,
              getElem?_charColumns_of_le (by omega) hk hlast⟩
          · have hle : column' ≤ column := column_le (by omega) hlast' hk
            obtain rfl : column = column' := Nat.le_antisymm (Nat.not_lt.mp hcolumn) hle
            exact ⟨last - 1, c', width', by omega, by omega, hlast⟩
  · intro hnotwide
    obtain ⟨rfl, hwide⟩ | rfl | rfl := hwide
    · have hnotlast : column' + 1 ≠ line.cells.length := by
        intro hend
        have hgetLast : line.cells.getLast? = some cell := by
          rw [List.getLast?_eq_getElem?, ← hend]
          exact hcell
        rw [hnotwide cell hgetLast] at hwide
        cases hwide
      omega
    · omega
    · omega

/-! ### Texts -/

theorem trimEnd_isPrefix (text : List Char) : trimEnd text <+: text := by
  rw [trimEnd, ← List.reverse_suffix, List.reverse_reverse]
  exact List.dropWhile_suffix _

theorem searchText_eq_trimEnd (line : ScreenLine) :
    searchText line = trimEnd ((columnsFrom 0 line.cells).map Prod.fst) := by
  rw [searchText, charColumns, List.map_take]
  exact (List.prefix_iff_eq_take.mp (trimEnd_isPrefix _)).symm

theorem map_columnsFrom (start : Nat) {cells : List ScreenCell}
    (h : ∀ cell ∈ cells, cell.isSpacer → cell.zerowidth = []) :
    (columnsFrom start cells).map Prod.fst = cells.flatMap ScreenCell.text := by
  induction cells generalizing start with
  | nil => rfl
  | cons cell cells ih =>
    obtain ⟨hcell, hcells⟩ := List.forall_mem_cons.mp h
    rw [columnsFrom, List.map_append, ih (start + 1) hcells, List.flatMap_cons]
    congr 1
    rw [cellColumns, ScreenCell.text]
    by_cases hspacer : cell.isSpacer
    · rw [if_pos hspacer, hcell hspacer, ← ScreenCell.isSpacer, if_pos hspacer]
      rfl
    · rw [if_neg hspacer, ← ScreenCell.isSpacer, if_neg hspacer, List.map_cons, List.map_map]
      show cell.ch :: cell.zerowidth.map id = _
      rw [List.map_id]
      rfl

theorem searchText_eq (h : ∀ cell ∈ line.cells, cell.isSpacer → cell.zerowidth = []) :
    searchText line = line.text := by
  rw [searchText_eq_trimEnd, map_columnsFrom 0 h, ScreenLine.text]

/-! ### Searches -/

/-- The query stands there, up to what `fold` makes of its characters. -/
def LiteralAt (fold : Char → Char) (query text : List Char) (first last : Nat) : Prop :=
  last = first + query.length ∧ last ≤ text.length ∧
    ((text.take last).drop first).map fold = query.map fold

instance (fold : Char → Char) (query text : List Char) (first last : Nat) :
    Decidable (LiteralAt fold query text first last) := inferInstanceAs (Decidable (_ ∧ _ ∧ _))

theorem not_literalAt_self {fold : Char → Char} {query text : List Char} {i : Nat}
    (hquery : query ≠ []) : ¬ LiteralAt fold query text i i := by
  intro h
  have hlength := List.length_pos_iff.mpr hquery
  have := h.1
  omega

theorem LiteralAt.lt_length {fold : Char → Char} {query text : List Char} {i j : Nat}
    (h : LiteralAt fold query text i j) (hquery : query ≠ []) : i < text.length := by
  have hlength := List.length_pos_iff.mpr hquery
  have hlast := h.1
  have hle := h.2.1
  omega

structure RegexCrate.Lawful (crate : RegexCrate)
    (occurs : List Char → Bool → List Char → Nat → Nat → Prop) (fold : Char → Char) :
    Prop where
  leftmost : ∀ query ignoreCase pattern, crate.build query ignoreCase = .ok pattern →
    Leftmost (occurs query ignoreCase) pattern
  literal : ∀ query ignoreCase text first last,
    occurs (crate.escape query) ignoreCase text first last ↔
      LiteralAt (if ignoreCase then fold else id) query text first last

variable {crate : RegexCrate} {occurs : List Char → Bool → List Char → Nat → Nat → Prop}
  {fold : Char → Char} {isUppercase : Char → Bool} {lines : List ScreenLine}
  {query : List Char} {options : SearchOptions} {matches' : List SearchMatch}

theorem searchLines_eq (hquery : query ≠ [])
    (h : searchLines crate isUppercase lines query options = .ok matches') :
    ∃ pattern, crate.build (queryPattern crate query options)
        (!caseSensitive isUppercase query options) = .ok pattern ∧
      matches' = lines.zipIdx.flatMap fun (line, index) => searchLine pattern index line := by
  rw [searchLines, if_neg hquery] at h
  split at h
  · cases h
  · next pattern hpattern =>
    cases h
    exact ⟨pattern, hpattern, rfl⟩

theorem report_of_mem {pattern : Pattern} (index : Nat) {first last : Nat}
    (hlt : first < last) (hle : last ≤ (searchText line).length)
    (hmem : (first, last) ∈ findIter pattern (searchText line)) :
    ∃ found ∈ searchLine pattern index line, found.line = index ∧ found.Of line first last := by
  have hfirst : first < (charColumns line).length := by
    rw [length_searchText] at hle
    omega
  have hreport : ∃ found, report index line (first, last) = some found := by
    rw [report, if_neg (Nat.ne_of_lt hlt), List.getElem?_eq_getElem hfirst]
    exact ⟨_, rfl⟩
  obtain ⟨found, hfound⟩ := hreport
  obtain ⟨-, -, -, -, -, hline, -, htext, -⟩ := report_eq_some hfound
  exact ⟨found, List.mem_filterMap.mpr ⟨_, hmem, hfound⟩, hline, hlt, hle, htext⟩

/-- **What a search reports.** A match that ends in a cell's own character spans its cells. An
occurrence of the query in a row is reported or starts within one that is and that starts before
it; so does one of a pattern that does not match the empty text. -/
theorem searchLines_spans (hcrate : crate.Lawful occurs fold) (hquery : query ≠ [])
    (h : searchLines crate isUppercase lines query options = .ok matches') :
    (∀ found ∈ matches', ∃ line first last, lines[found.line]? = some line ∧
      found.Of line first last ∧
      occurs (queryPattern crate query options) (!caseSensitive isUppercase query options)
        (searchText line) first last ∧
      (EndsInCell line last → found.Spans line first last)) ∧
    ∀ index line, lines[index]? = some line →
      (∀ cell ∈ line.cells, cell.isSpacer → cell.zerowidth = []) →
      (options.regex = false → ∀ i j,
        LiteralAt (if caseSensitive isUppercase query options then id else fold) query line.text
          i j →
        ∃ found ∈ matches', found.line = index ∧ ∃ first last, found.Of line first last ∧
          (first = i ∧ last = j ∨ first < i ∧ i < last)) ∧
      (options.regex → (∀ i, ¬ occurs query (!caseSensitive isUppercase query options) line.text
          i i) →
        ∀ i j, i < line.text.length →
          occurs query (!caseSensitive isUppercase query options) line.text i j →
          ∃ found ∈ matches', found.line = index ∧ ∃ first last, found.Of line first last ∧
            first ≤ i ∧ i < last) := by
  obtain ⟨pattern, hbuild, rfl⟩ := searchLines_eq hquery h
  have hleftmost := hcrate.leftmost _ _ _ hbuild
  constructor
  · intro found hfound
    obtain ⟨⟨line, index⟩, hmem, hfound⟩ := List.mem_flatMap.mp hfound
    obtain ⟨⟨first, last⟩, hiter, hreport⟩ := List.mem_filterMap.mp hfound
    obtain ⟨hle, hle', hoccurs⟩ := mem_findIter hleftmost hiter
    obtain ⟨hne, -, -, -, -, hline, -, htext, -⟩ := report_eq_some hreport
    refine ⟨line, first, last, ?_, ⟨Nat.lt_of_le_of_ne hle hne, hle', htext⟩, hoccurs,
      spans_of_report hreport hle⟩
    rw [hline]
    exact List.mem_zipIdx_iff_getElem?.mp hmem
  · intro index line hline hmarks
    -- an occurrence starts within what is found
    have hcovered (hne : ∀ i, ¬ occurs (queryPattern crate query options)
          (!caseSensitive isUppercase query options) line.text i i) (i j : Nat)
        (hi : i < line.text.length)
        (hoccurs : occurs (queryPattern crate query options)
          (!caseSensitive isUppercase query options) line.text i j) :
        ∃ found ∈ lines.zipIdx.flatMap fun (line, index) => searchLine pattern index line,
          found.line = index ∧ ∃ first last, found.Of line first last ∧
            occurs (queryPattern crate query options)
              (!caseSensitive isUppercase query options) line.text first last ∧
            first ≤ i ∧ i < last := by
      rw [← searchText_eq hmarks] at hne hi hoccurs ⊢
      obtain ⟨⟨first, last⟩, hmem, hle, hlt⟩ := findIter_covers hleftmost hne hi hoccurs
      obtain ⟨-, hle', hoccurs'⟩ := mem_findIter hleftmost hmem
      obtain ⟨found, hfound, hindex, hof⟩ :=
        report_of_mem index (Nat.lt_of_le_of_lt hle hlt) hle' hmem
      refine ⟨found, List.mem_flatMap.mpr ⟨(line, index), ?_, hfound⟩, hindex, first, last, hof,
        hoccurs', hle, hlt⟩
      exact List.mem_zipIdx_iff_getElem?.mpr hline
    constructor
    · intro hliteral i j hoccurs
      have hpattern : queryPattern crate query options = crate.escape query :=
        if_neg (by rw [hliteral]; exact Bool.false_ne_true)
      have hsame : (if (!caseSensitive isUppercase query options) then fold else id) =
          if caseSensitive isUppercase query options then id else fold := by
        cases caseSensitive isUppercase query options with
        | false => rfl
        | true => rfl
      have hiff := hcrate.literal query (!caseSensitive isUppercase query options) line.text
      rw [hpattern] at hcovered
      simp only [hiff, hsame] at hcovered
      obtain ⟨found, hfound, hindex, first, last, hof, hoccurs', hle, hlt⟩ :=
        hcovered (fun i => not_literalAt_self hquery) i j (hoccurs.lt_length hquery) hoccurs
      refine ⟨found, hfound, hindex, first, last, hof, ?_⟩
      obtain rfl | hbefore := Nat.eq_or_lt_of_le hle
      · exact .inl ⟨rfl, hoccurs'.1.trans hoccurs.1.symm⟩
      · exact .inr ⟨hbefore, hlt⟩
    · intro hregex hne i j hi hoccurs
      have hpattern : queryPattern crate query options = query := if_pos hregex
      rw [hpattern] at hcovered
      obtain ⟨found, hfound, hindex, first, last, hof, -, hle, hlt⟩ := hcovered hne i j hi hoccurs
      exact ⟨found, hfound, hindex, first, last, hof, hle, hlt⟩

/-! ### A crate of literals -/

/-- Patterns without operators: each is searched for as it is. -/
def literalCrate : RegexCrate where
  escape := id
  build := fun query ignoreCase => .ok fun text start =>
    ((List.range' start (text.length + 1 - start)).find? fun i => decide (LiteralAt
      (if ignoreCase then Char.toLower else id) query text i (i + query.length))).map
        fun i => (i, i + query.length)

theorem literalCrate_lawful : literalCrate.Lawful
    (fun query ignoreCase => LiteralAt (if ignoreCase then Char.toLower else id) query)
    Char.toLower where
  leftmost := by
    rintro query ignoreCase pattern ⟨⟩
    constructor
    · intro text start i j h
      obtain ⟨k, hfind, hk⟩ := Option.map_eq_some_iff.mp h
      obtain ⟨rfl, rfl⟩ := Prod.mk.inj hk
      obtain ⟨hat, hmem, -⟩ := List.find?_range'_eq_some.mp hfind
      have hat := of_decide_eq_true hat
      exact ⟨(List.mem_range'_1.mp hmem).1, Nat.le_add_right _ _, hat.2.1, hat⟩
    · intro text start i j h i' j' hstart hat
      obtain ⟨k, hfind, hk⟩ := Option.map_eq_some_iff.mp h
      obtain ⟨rfl, rfl⟩ := Prod.mk.inj hk
      obtain ⟨-, -, hbefore⟩ := List.find?_range'_eq_some.mp hfind
      refine Nat.not_lt.mp fun hlt => ?_
      have hnot := hbefore i' hstart hlt
      rw [Bool.not_eq_true', decide_eq_false_iff_not, ← hat.1] at hnot
      exact hnot hat
    · intro text start h i j hstart hat
      have hnone := List.find?_range'_eq_none.mp (Option.map_eq_none_iff.mp h) i hstart
        (by have := hat.1; have := hat.2.1; omega)
      rw [Bool.not_eq_true', decide_eq_false_iff_not, ← hat.1] at hnone
      exact hnone hat
  literal := fun _ _ _ _ _ => Iff.rfl

def narrowRow (text : List Char) : ScreenLine := ⟨text.map fun ch => { ch }⟩

def wideRow : ScreenLine :=
  ⟨[{ ch := 'a' }, { ch := '日', attrs := { wide := true } },
    { attrs := { wideSpacer := true } }, { ch := 'b' }]⟩

/-- The wide cell and the one after its spacer. -/
theorem searchLines_wideRow :
    searchLines literalCrate Char.isUpper [wideRow] ['日', 'b'] {} =
        .ok [⟨0, 1, 3, ['日', 'b']⟩] ∧
      ∀ found ∈ [(⟨0, 1, 3, ['日', 'b']⟩ : SearchMatch)], ∃ line first last,
        [wideRow][found.line]? = some line ∧ found.Of line first last ∧
        (EndsInCell line last → found.Spans line first last) := by
  have hsearch : searchLines literalCrate Char.isUpper [wideRow] ['日', 'b'] {} =
      .ok [⟨0, 1, 3, ['日', 'b']⟩] := by decide +kernel
  refine ⟨hsearch, fun found hfound => ?_⟩
  obtain ⟨line, first, last, hline, hof, -, hspans⟩ :=
    (searchLines_spans literalCrate_lawful (List.cons_ne_nil _ _) hsearch).1 found hfound
  exact ⟨line, first, last, hline, hof, hspans⟩

def emptyOrA : Pattern := fun text start =>
  if start ≤ text.length then some (start, start) else none

/-- Where a span is not its cells, or an occurrence is not covered: a match that ends in a combining
mark has no length; a second occurrence that overlaps the first; a wide cell in the last column; a
spacer that follows no wide cell; a mark on a spacer, which is in the text of the row; and a pattern
that matches the empty text first. -/
theorem not_spans :
    searchLines literalCrate Char.isUpper [⟨[{ ch := 'e', zerowidth := ['\u0301'] }]⟩]
        ['e', '\u0301'] {} = .ok [⟨0, 0, 0, ['e', '\u0301']⟩] ∧
      (searchLines literalCrate Char.isUpper [narrowRow ['a', 'a', 'a']] ['a', 'a'] {} =
          .ok [⟨0, 0, 2, ['a', 'a']⟩] ∧
        LiteralAt id ['a', 'a'] (narrowRow ['a', 'a', 'a']).text 1 3) ∧
      searchLines literalCrate Char.isUpper [⟨[{ ch := '日', attrs := { wide := true } }]⟩] ['日']
        {} = .ok [⟨0, 0, 2, ['日']⟩] ∧
      searchLines literalCrate Char.isUpper
        [⟨[{ ch := 'a' }, { attrs := { wideSpacer := true } }, { ch := 'b' }]⟩] ['a', 'b'] {} =
          .ok [⟨0, 0, 3, ['a', 'b']⟩] ∧
      (searchLines literalCrate Char.isUpper
          [⟨[{ ch := 'a' }, { attrs := { wideSpacer := true }, zerowidth := ['b'] }]⟩] ['b'] {} =
            .ok [] ∧
        (⟨[{ ch := 'a' }, { attrs := { wideSpacer := true }, zerowidth := ['b'] }]⟩ :
          ScreenLine).text = ['a', 'b']) ∧
      searchLine emptyOrA 0 (narrowRow ['a']) = [] := by
  decide +kernel

end Goble.Terminal
