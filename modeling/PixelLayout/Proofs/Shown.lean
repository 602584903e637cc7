import Mathlib.Data.List.Forall2
import PixelLayout.Proofs.Emission
import PixelLayout.Proofs.Indentation
import PixelLayout.Proofs.Literal
import PixelLayout.Proofs.Numeral

/-!
# What a preview shows of its texts

A preview is read row by row, a row being what stands between two line feeds. Its rectangles are
what stands between the rows that open and close one, and those with a text element are the tiles.

The blocks of the document are tables of named values (`Entry`), and the window puts its margin in
front of each row of them. So the rectangles read off a document are the tables that it was made of
(`tileRectangles_of_render`), whatever the values are: none of them holds a line feed.

**The text of a tile** is one row among them. It is the row that was meant exactly if the text has
no line boundary but those that are escaped (`render_showsText_iff`). Behind any other boundary, a
form feed say, the margin is put in too, and there it stands inside the literal.
-/

namespace PixelLayout.Preview

open Text

/-! ## Reading a document -/

abbrev Row := List Char

/-- What stands between the line feeds of a document. -/
def rows (document : String) : List Row := document.toList.splitOn '\n'

def opening : Row := "    Rectangle \x7b".toList

def closing : Row := "    \x7d".toList

/-- The rows inside each rectangle, in document order. -/
def rectangles : List Row → List (List Row)
  | [] => []
  | row :: rows =>
    if row = opening then rows.takeWhile (· != closing) :: rectangles rows else rectangles rows

/-- The row of a tile that opens its text. -/
def textOpening : Row := "        Text \x7b".toList

/-- The rectangles that hold a text: those of the tiles and items of lists. -/
def tileRectangles (document : String) : List (List Row) :=
  (rectangles (rows document)).filter (·.contains textOpening)

/-- What the row with the text of a tile begins with. -/
def textName : Row := "            text: ".toList

/-- The rows of a rectangle that give a text. -/
def textRows (rectangle : List Row) : List Row := rectangle.filter (textName.isPrefixOf ·)

/-- The row that gives `content` as a text. -/
def textRow (content : String) : Row := textName ++ (quoted content ++ ";").toList

/-! ## Blocks as tables -/

/-- A row of a block: what it begins with on every screen, and the rest. -/
structure Entry where
  front : Row
  value : Row

def Entry.row (e : Entry) : Row := e.front ++ e.value

/-- The row that gives a property its value. -/
def Entry.property (margin name value : String) : Entry :=
  ⟨(margin ++ name ++ ": ").toList, (value ++ ";").toList⟩

/-- A row that is the same on every screen. -/
def Entry.fixed (text : String) : Entry := ⟨text.toList, []⟩

/-- The rows of a rectangle with the given rows inside it. -/
def rectangle (entries : List Entry) : List Row :=
  "Rectangle \x7b".toList :: (entries.map Entry.row ++ ["\x7d".toList])

def placementEntries (r : Rect) : List Entry :=
  [.property "    " "x" (pixels r.x.repr), .property "    " "y" (pixels r.y.repr),
    .property "    " "width" (pixels r.width.repr), .property "    " "height" (pixels r.height.repr)]

def colourEntries (background : String) : List Entry :=
  [.property "    " "background" background, .property "    " "border-color" "black",
    .property "    " "border-width" "0px"]

/-- The row with the text of a tile. -/
def textEntry (content : String) : Entry := .property "        " "text" (quoted content)

/-- The rows of the element that holds a text, in front of the text. -/
def entriesBefore (offset : Offset) : List Entry :=
  [.fixed "    Text \x7b", .property "        " "y" (pixels offset.y.repr),
    .property "        " "width" "100%", .property "        " "height" "100%"]

/-- The rows of the element that holds a text, behind the text. -/
def entriesBehind (p : Profile) (text : TileText) : List Entry :=
  [.property "        " "font-size" (pixels (Artifact.sizeText text.resolvedFontSize)),
    .property "        " "font-family" (quoted p.previewFontFamily),
    .property "        " "horizontal-alignment" "center", .fixed "    \x7d"]

/-- The rows inside the rectangle of a tile that has its place. -/
def tileEntries (p : Profile) (t : Tile) : List Entry :=
  placementEntries (t.rect.getD default) ++ colourEntries "silver" ++
    entriesBefore (t.text.offset.getD default) ++
      textEntry t.text.content :: entriesBehind p t.text

/-- The rows inside the rectangle of a rule that has its place. -/
def ruleEntries (rule : Axis × Option Rect) : List Entry :=
  placementEntries (rule.2.getD default) ++ colourEntries "black"

theorem toList_property (margin name value : String) :
    (property margin name value).toList = ended [(Entry.property margin name value).row] := by
  have stop : ";\n".toList = ";".toList ++ ['\n'] := rfl
  simp only [property, Entry.property, Entry.row, String.toList_append, stop, List.append_assoc,
    ended, List.flatMap_cons, List.flatMap_nil, List.append_nil]

theorem toList_placement (r : Rect) :
    (placement r).toList = ended ((placementEntries r).map Entry.row) := by
  simp only [placement, String.toList_append, toList_property, ← ended_append]
  rfl

theorem toList_colours (background : String) :
    (colours background).toList = ended ((colourEntries background).map Entry.row) := by
  simp only [colours, String.toList_append, toList_property, ← ended_append]
  rfl

theorem toList_opening : "Rectangle \x7b\n".toList = ended ["Rectangle \x7b".toList] := rfl

theorem toList_closing : "\x7d\n".toList = ended ["\x7d".toList] := rfl

theorem toList_textElement (p : Profile) (text : TileText) (offset : Offset) :
    (textElement text offset p.previewFontFamily).toList =
      ended ((entriesBefore offset ++ textEntry text.content :: entriesBehind p text).map
        Entry.row) := by
  have first : "    Text \x7b\n".toList = ended [(Entry.fixed "    Text \x7b").row] := rfl
  have last : "    \x7d\n".toList = ended [(Entry.fixed "    \x7d").row] := rfl
  unfold textElement
  simp only [String.toList_append, toList_property, first, last, ← ended_append]
  rfl

/-- The block of a tile is a table. -/
theorem toList_of_tileBlock {p : Profile} {t : Tile} {block : String}
    (h : tileBlock p t = .ok block) : block.toList = ended (rectangle (tileEntries p t)) := by
  obtain ⟨⟨r, offset⟩, hplaced, h⟩ := bind_eq_ok.mp h
  obtain ⟨hrect, hoffset⟩ := Artifact.requirePlaced_eq_ok.mp hplaced
  rw [← Except.ok.inj h]
  simp only [String.toList_append, toList_placement, toList_colours, toList_opening, toList_closing,
    toList_textElement, ← ended_append, rectangle, tileEntries, hrect, hoffset, Option.getD_some]
  rfl

theorem toList_of_ruleBlock {rule : Axis × Option Rect} {block : String}
    (h : ruleBlock rule = .ok block) : block.toList = ended (rectangle (ruleEntries rule)) := by
  obtain ⟨r, hplaced, h⟩ := bind_eq_ok.mp h
  have hrect := Artifact.requireRect_eq_ok.mp hplaced
  rw [← Except.ok.inj h]
  simp only [String.toList_append, toList_placement, toList_colours, toList_opening, toList_closing,
    ← ended_append, rectangle, ruleEntries, hrect, Option.getD_some, List.map_append]
  rfl

/-- Blocks that are tables, one behind the other. -/
theorem toList_join_of_tables {α : Type} {f : α → Except Fault String} {table : α → List Entry}
    (hf : ∀ a block, f a = .ok block → block.toList = ended (rectangle (table a))) {l : List α}
    {blocks : List String} (h : l.mapM f = .ok blocks) :
    (String.join blocks).toList = ended ((l.map table).flatMap rectangle) := by
  rw [toList_join_of_mapM hf h, List.flatMap_map, ended, List.flatMap_assoc]
  rfl

/-! ## Rows that neither open nor close a rectangle -/

theorem lineFeed_not_mem_repr (n : Int) : '\n' ∉ n.repr.toList :=
  not_mem_repr (by decide) (by decide) n

theorem lineFeed_not_mem_sizeText (size : Option Int) :
    '\n' ∉ (Artifact.sizeText size).toList :=
  not_mem_sizeText (by decide) (by decide) size

theorem lineFeed_not_mem_pixels {length : String} (h : '\n' ∉ length.toList) :
    '\n' ∉ (pixels length).toList := by
  rw [pixels, String.toList_append]
  exact fun hmem => (List.mem_append.mp hmem).elim h (by decide)

theorem lineFeed_not_mem_quoted (text : String) : '\n' ∉ (quoted text).toList := by
  intro h
  simp only [quoted, String.toList_append] at h
  rcases List.mem_append.mp h with h | h
  · rcases List.mem_append.mp h with h | h
    · revert h
      decide
    · exact Literal.lineFeed_not_mem_escape _ h
  · revert h
    decide

/-- The margin of a rectangle in its window. -/
def margin : Row := List.replicate 4 ' '

/-- The row as it stands in its window. -/
def Entry.shown (e : Entry) : Row := indentChars margin e.row

/-- Neither row begins with the other, so they do not become equal by what is put behind them. -/
def differs (a b : Row) : Bool := !a.isPrefixOf b && !b.isPrefixOf a

theorem append_ne_append {a b : Row} (h : differs a b = true) (u v : Row) : a ++ u ≠ b ++ v := by
  intro same
  simp only [differs, Bool.and_eq_true, Bool.not_eq_true', ← Bool.not_eq_true,
    List.isPrefixOf_iff_prefix] at h
  rcases List.prefix_or_prefix_of_prefix (List.prefix_append a u) (same ▸ List.prefix_append b v)
    with hab | hba
  · exact h.1 hab
  · exact h.2 hba

/-- The front of a row inside a rectangle: it has no boundary, is not blank, and with its margin it
neither opens nor closes a rectangle. -/
def isInner (front : Row) : Bool :=
  front.all (!isLineBoundary ·) && !front.all isBlank && differs (margin ++ front) opening &&
    differs (margin ++ front) closing

theorem isInner_iff {front : Row} : isInner front = true ↔
    (∀ c ∈ front, isLineBoundary c = false) ∧ front.all isBlank = false ∧
      differs (margin ++ front) opening = true ∧ differs (margin ++ front) closing = true := by
  simp only [isInner, Bool.and_eq_true, Bool.not_eq_true', List.all_eq_true, and_assoc]

/-- A row inside a rectangle. -/
structure Entry.Inner (e : Entry) : Prop where
  front : isInner e.front = true
  value : '\n' ∉ e.value

namespace Entry

theorem lineFeed_not_mem_property {indent name value : String} (h : '\n' ∉ value.toList) :
    '\n' ∉ (Entry.property indent name value).value := by
  intro hmem
  simp only [property, String.toList_append] at hmem
  exact (List.mem_append.mp hmem).elim h (by decide)

theorem inner_property {indent name value : String}
    (hfront : isInner (indent ++ name ++ ": ").toList = true) (hvalue : '\n' ∉ value.toList) :
    (Entry.property indent name value).Inner :=
  ⟨hfront, lineFeed_not_mem_property hvalue⟩

theorem inner_fixed {text : String} (h : isInner text.toList = true) : (fixed text).Inner :=
  ⟨h, List.not_mem_nil⟩

variable {e : Entry}

/-- What a row begins with stands behind the margin. -/
theorem Inner.exists_shown (h : e.Inner) : ∃ rest, e.shown = margin ++ e.front ++ rest := by
  obtain ⟨unbroken, inked, _⟩ := isInner_iff.mp h.front
  exact ⟨_, indentChars_append unbroken inked e.value⟩

theorem Inner.not_prefix_shown (h : e.Inner) {row : Row}
    (hd : differs (margin ++ e.front) row = true) : ¬ row <+: e.shown := by
  rintro ⟨rest, hrest⟩
  obtain ⟨behind, hshown⟩ := h.exists_shown
  exact append_ne_append hd behind rest (hshown.symm.trans hrest.symm)

theorem Inner.shown_ne (h : e.Inner) {row : Row} (hd : differs (margin ++ e.front) row = true) :
    e.shown ≠ row := by
  rintro rfl
  exact h.not_prefix_shown hd List.prefix_rfl

theorem Inner.lineFeed_not_mem_shown (h : e.Inner) : '\n' ∉ e.shown := by
  intro hmem
  rcases mem_indentChars hmem with hmem | hmem
  · revert hmem
    decide
  · rcases List.mem_append.mp hmem with hmem | hmem
    · exact absurd ((isInner_iff.mp h.front).1 _ hmem) (by decide)
    · exact h.value hmem

end Entry

theorem inner_placementEntries (r : Rect) : ∀ e ∈ placementEntries r, e.Inner := by
  simp only [placementEntries, List.forall_mem_cons, List.not_mem_nil, false_implies, implies_true,
    and_true]
  exact ⟨Entry.inner_property (by decide) (lineFeed_not_mem_pixels (lineFeed_not_mem_repr _)),
    Entry.inner_property (by decide) (lineFeed_not_mem_pixels (lineFeed_not_mem_repr _)),
    Entry.inner_property (by decide) (lineFeed_not_mem_pixels (lineFeed_not_mem_repr _)),
    Entry.inner_property (by decide) (lineFeed_not_mem_pixels (lineFeed_not_mem_repr _))⟩

theorem inner_colourEntries {background : String} (h : '\n' ∉ background.toList) :
    ∀ e ∈ colourEntries background, e.Inner := by
  simp only [colourEntries, List.forall_mem_cons, List.not_mem_nil, false_implies, implies_true,
    and_true]
  exact ⟨Entry.inner_property (by decide) h, Entry.inner_property (by decide) (by decide),
    Entry.inner_property (by decide) (by decide)⟩

theorem inner_textEntry (content : String) : (textEntry content).Inner :=
  Entry.inner_property (by decide) (lineFeed_not_mem_quoted content)

theorem inner_entriesBefore (offset : Offset) : ∀ e ∈ entriesBefore offset, e.Inner := by
  simp only [entriesBefore, List.forall_mem_cons, List.not_mem_nil, false_implies, implies_true,
    and_true]
  exact ⟨Entry.inner_fixed (by decide),
    Entry.inner_property (by decide) (lineFeed_not_mem_pixels (lineFeed_not_mem_repr _)),
    Entry.inner_property (by decide) (by decide), Entry.inner_property (by decide) (by decide)⟩

theorem inner_entriesBehind (p : Profile) (text : TileText) :
    ∀ e ∈ entriesBehind p text, e.Inner := by
  simp only [entriesBehind, List.forall_mem_cons, List.not_mem_nil, false_implies, implies_true,
    and_true]
  exact ⟨Entry.inner_property (by decide) (lineFeed_not_mem_pixels (lineFeed_not_mem_sizeText _)),
    Entry.inner_property (by decide) (lineFeed_not_mem_quoted _),
    Entry.inner_property (by decide) (by decide), Entry.inner_fixed (by decide)⟩

theorem inner_tileEntries (p : Profile) (t : Tile) : ∀ e ∈ tileEntries p t, e.Inner := by
  simp only [tileEntries, List.forall_mem_append, List.forall_mem_cons]
  exact ⟨⟨⟨inner_placementEntries _, inner_colourEntries (by decide)⟩, inner_entriesBefore _⟩,
    inner_textEntry _, inner_entriesBehind p t.text⟩

theorem inner_ruleEntries (rule : Axis × Option Rect) : ∀ e ∈ ruleEntries rule, e.Inner := by
  simp only [ruleEntries, List.forall_mem_append]
  exact ⟨inner_placementEntries _, inner_colourEntries (by decide)⟩

/-! ## Rectangles read back -/

/-- A rectangle as it stands in its window. -/
def shownRectangle (entries : List Entry) : List Row :=
  opening :: (entries.map Entry.shown ++ [closing])

theorem map_indentChars_rectangle (entries : List Entry) :
    (rectangle entries).map (indentChars margin) = shownRectangle entries := by
  rw [rectangle, List.map_cons, List.map_append, List.map_map]
  rfl

theorem lineFeed_not_mem_shownRectangle {entries : List Entry} (h : ∀ e ∈ entries, e.Inner) :
    ∀ row ∈ shownRectangle entries, '\n' ∉ row := by
  intro row hrow
  rcases List.mem_cons.mp hrow with rfl | hrow
  · decide
  rcases List.mem_append.mp hrow with hrow | hrow
  · obtain ⟨e, he, rfl⟩ := List.mem_map.mp hrow
    exact (h e he).lineFeed_not_mem_shown
  · rw [List.mem_singleton.mp hrow]
    decide

theorem rectangles_append_of_not_mem {front : List Row} (h : opening ∉ front) (rest : List Row) :
    rectangles (front ++ rest) = rectangles rest := by
  induction front with
  | nil => rfl
  | cons row front ih =>
    obtain ⟨hrow, hfront⟩ := List.ne_and_not_mem_of_not_mem_cons h
    rw [List.cons_append, rectangles, if_neg hrow.symm, ih hfront]

theorem rectangles_shownRectangle {entries : List Entry} (h : ∀ e ∈ entries, e.Inner)
    (rest : List Row) :
    rectangles (shownRectangle entries ++ rest) = entries.map Entry.shown :: rectangles rest := by
  have unopened : opening ∉ entries.map Entry.shown ++ [closing] := by
    intro hmem
    rcases List.mem_append.mp hmem with hmem | hmem
    · obtain ⟨e, he, hshown⟩ := List.mem_map.mp hmem
      exact (h e he).shown_ne (isInner_iff.mp (h e he).front).2.2.1 hshown
    · revert hmem
      decide
  have unclosed : ∀ row ∈ entries.map Entry.shown, (row != closing) = true := by
    intro row hrow
    obtain ⟨e, he, rfl⟩ := List.mem_map.mp hrow
    exact bne_iff_ne.mpr ((h e he).shown_ne (isInner_iff.mp (h e he).front).2.2.2)
  have body : (entries.map Entry.shown ++ [closing] ++ rest).takeWhile (· != closing) =
      entries.map Entry.shown := by
    rw [List.append_assoc, List.takeWhile_append_of_pos unclosed, List.singleton_append,
      List.takeWhile_cons_of_neg (by rw [bne_self_eq_false]; exact Bool.false_ne_true),
      List.append_nil]
  rw [shownRectangle, List.cons_append, rectangles, if_pos rfl, body,
    rectangles_append_of_not_mem unopened]

theorem rectangles_flatMap {tables : List (List Entry)} (h : ∀ table ∈ tables, ∀ e ∈ table, e.Inner)
    (rest : List Row) :
    rectangles (tables.flatMap shownRectangle ++ rest) =
      tables.map (·.map Entry.shown) ++ rectangles rest := by
  induction tables with
  | nil => rfl
  | cons table tables ih =>
    obtain ⟨htable, htables⟩ := List.forall_mem_cons.mp h
    rw [List.flatMap_cons, List.append_assoc, rectangles_shownRectangle htable, ih htables]
    rfl

theorem splitOn_ended {rows : List Row} (h : ∀ row ∈ rows, '\n' ∉ row) :
    (ended rows).splitOn '\n' = rows ++ [[]] := by
  induction rows with
  | nil => rfl
  | cons row rows ih =>
    obtain ⟨hrow, hrows⟩ := List.forall_mem_cons.mp h
    rw [ended_cons, List.splitOn_append_cons_self_of_not_mem hrow, ih hrows]
    rfl

/-! ## The rows of a document -/

/-- The indented blocks, and the line feed behind them. Without blocks there is an empty row. -/
theorem toList_indentBlock {text : String} {tables : List (List Entry)}
    (h : text.toList = ended (tables.flatMap rectangle)) :
    ∃ pad : List Row, (∀ row ∈ pad, row = []) ∧
      (indentBlock 4 text).toList ++ ['\n'] = ended (pad ++ tables.flatMap shownRectangle) := by
  rcases List.eq_nil_or_concat' tables with rfl | ⟨tables, table, rfl⟩
  · refine ⟨[[]], by simp, ?_⟩
    rw [indentBlock, h]
    rfl
  · refine ⟨[], by simp, ?_⟩
    let front := ended (tables.flatMap rectangle) ++
      ended ("Rectangle \x7b".toList :: table.map Entry.row)
    have last : ended ((tables ++ [table]).flatMap rectangle) = front ++ ['\x7d'] ++ ['\n'] := by
      rw [List.flatMap_append, ended_append, List.append_assoc, List.append_assoc]
      simp only [List.flatMap_cons, List.flatMap_nil, List.append_nil, rectangle,
        ← List.cons_append, ended_append]
      rfl
    have chomped : dropFinalNewlines (front ++ ['\x7d'] ++ ['\n']) = front ++ ['\x7d'] := by
      simp [dropFinalNewlines]
    have each : (fun table => (rectangle table).map (indentChars (List.replicate 4 ' '))) =
        shownRectangle := funext map_indentChars_rectangle
    rw [indentBlock, String.toList_ofList, h, last, chomped, ← indentChars_append_lineFeed, ← last,
      indentChars_ended, List.map_flatMap, each, List.nil_append]

def headerEntries (bounds : Rect) : List Entry :=
  [.fixed "MainWindow := Window \x7b", .property "    " "width" (pixels bounds.width.repr),
    .property "    " "height" (pixels bounds.height.repr), .property "    " "background" "white"]

theorem toList_window (bounds : Rect) (tiles rules : List String) :
    (window bounds tiles rules).toList =
      ended ((headerEntries bounds).map Entry.row ++ [[]]) ++
        ((indentBlock 4 (String.join tiles)).toList ++ ['\n']) ++
          (ended [[]] ++ ((indentBlock 4 (String.join rules)).toList ++ ['\n'])) ++
            ended ["\x7d".toList] := by
  have first : "MainWindow := Window \x7b\n".toList =
      ended [(Entry.fixed "MainWindow := Window \x7b").row] := rfl
  have gap : "\n\n".toList = ['\n'] ++ ended [[]] := rfl
  have last : "\n\x7d\n".toList = ['\n'] ++ ended ["\x7d".toList] := rfl
  have empty : "\n".toList = ended [[]] := rfl
  unfold window
  simp only [String.toList_append, toList_property, first, gap, last, empty, ← ended_append,
    List.append_assoc]
  simp only [← List.append_assoc]
  rfl

/-- A row outside the rectangles. -/
def Outer (row : Row) : Prop := row ≠ opening ∧ '\n' ∉ row

theorem outer_nil : Outer [] := ⟨by decide, List.not_mem_nil⟩

theorem outer_row {e : Entry} (hd : differs e.front opening = true) (hf : '\n' ∉ e.front)
    (hv : '\n' ∉ e.value) : Outer e.row := by
  refine ⟨?_, fun h => (List.mem_append.mp h).elim hf hv⟩
  have := append_ne_append hd e.value []
  rwa [List.append_nil] at this

theorem outer_property {indent name value : String}
    (hd : differs (indent ++ name ++ ": ").toList opening = true)
    (hf : '\n' ∉ (indent ++ name ++ ": ").toList) (hv : '\n' ∉ value.toList) :
    Outer (Entry.property indent name value).row :=
  outer_row hd hf (Entry.lineFeed_not_mem_property hv)

theorem outer_headerEntries (bounds : Rect) :
    ∀ row ∈ (headerEntries bounds).map Entry.row, Outer row := by
  simp only [headerEntries, List.map_cons, List.map_nil, List.forall_mem_cons, List.not_mem_nil,
    false_implies, implies_true, and_true]
  exact ⟨outer_row (by decide) (by decide) (by decide),
    outer_property (by decide) (by decide) (lineFeed_not_mem_pixels (lineFeed_not_mem_repr _)),
    outer_property (by decide) (by decide) (lineFeed_not_mem_pixels (lineFeed_not_mem_repr _)),
    outer_property (by decide) (by decide) (by decide)⟩

/-- Between other rows, the rectangles of two lists of tables are read back. -/
theorem rectangles_rows {document : String} {header gap footer : List Row}
    {first second : List (List Entry)}
    (h : document.toList = ended (header ++ first.flatMap shownRectangle ++
      (gap ++ second.flatMap shownRectangle) ++ footer))
    (hheader : ∀ row ∈ header, Outer row) (hgap : ∀ row ∈ gap, Outer row)
    (hfooter : ∀ row ∈ footer, Outer row) (hfirst : ∀ table ∈ first, ∀ e ∈ table, e.Inner)
    (hsecond : ∀ table ∈ second, ∀ e ∈ table, e.Inner) :
    rectangles (rows document) =
      first.map (·.map Entry.shown) ++ second.map (·.map Entry.shown) := by
  have unbroken (tables : List (List Entry)) (ht : ∀ table ∈ tables, ∀ e ∈ table, e.Inner) :
      ∀ row ∈ tables.flatMap shownRectangle, '\n' ∉ row := by
    intro row hrow
    obtain ⟨table, htable, hrow⟩ := List.mem_flatMap.mp hrow
    exact lineFeed_not_mem_shownRectangle (ht table htable) row hrow
  have plain {rows : List Row} (hr : ∀ row ∈ rows, Outer row) : opening ∉ rows :=
    fun hmem => (hr opening hmem).1 rfl
  rw [rows, h, splitOn_ended]
  · simp only [List.append_assoc]
    rw [rectangles_append_of_not_mem (plain hheader), rectangles_flatMap hfirst,
      rectangles_append_of_not_mem (plain hgap), rectangles_flatMap hsecond,
      rectangles_append_of_not_mem (plain hfooter)]
    exact congrArg _ (List.append_nil _)
  · simp only [List.forall_mem_append]
    exact ⟨⟨⟨fun row hr => (hheader row hr).2, unbroken first hfirst⟩,
      fun row hr => (hgap row hr).2, unbroken second hsecond⟩, fun row hr => (hfooter row hr).2⟩

/-- **The rectangles of a document are those of its tiles and of its rules.** -/
theorem rectangles_of_render {root : Node} {bounds : Rect} {p : Profile} {document : String}
    (h : render root bounds p = .ok document) :
    rectangles (rows document) =
      (root.tiles.map (tileEntries p)).map (·.map Entry.shown) ++
        (root.rules.map ruleEntries).map (·.map Entry.shown) := by
  obtain ⟨tiles, rules, htiles, hrules, rfl⟩ := window_of_render h
  obtain ⟨pad, hpad, htiles⟩ := toList_indentBlock
    (toList_join_of_tables (fun _ _ => toList_of_tileBlock) htiles)
  obtain ⟨pad', hpad', hrules⟩ := toList_indentBlock
    (toList_join_of_tables (fun _ _ => toList_of_ruleBlock) hrules)
  have text : (window bounds tiles rules).toList =
      ended ((headerEntries bounds).map Entry.row ++ [[]] ++ pad ++
        (root.tiles.map (tileEntries p)).flatMap shownRectangle ++
          ([[]] ++ pad' ++ (root.rules.map ruleEntries).flatMap shownRectangle) ++
            ["\x7d".toList]) := by
    rw [toList_window, htiles, hrules]
    simp only [ended_append, List.append_assoc]
  have blank {rows : List Row} (hr : ∀ row ∈ rows, row = []) : ∀ row ∈ rows, Outer row :=
    fun row hmem => hr row hmem ▸ outer_nil
  apply rectangles_rows text
  · simp only [List.forall_mem_append]
    exact ⟨⟨outer_headerEntries bounds, blank (by simp)⟩, blank hpad⟩
  · rw [List.forall_mem_append]
    exact ⟨blank (by simp), blank hpad'⟩
  · intro row hrow
    rw [List.mem_singleton.mp hrow]
    exact ⟨by decide, by decide⟩
  · intro table htable
    obtain ⟨t, _, rfl⟩ := List.mem_map.mp htable
    exact inner_tileEntries p t
  · intro table htable
    obtain ⟨rule, _, rfl⟩ := List.mem_map.mp htable
    exact inner_ruleEntries rule

/-! ## The rectangles of tiles and their texts -/

theorem contains_shown_tileEntries (p : Profile) (t : Tile) :
    ((tileEntries p t).map Entry.shown).contains textOpening = true := by
  rw [List.contains_iff_mem, List.mem_map]
  refine ⟨.fixed "    Text \x7b", ?_, rfl⟩
  simp only [tileEntries, entriesBefore, List.mem_append, List.mem_cons, true_or, or_true]

theorem not_contains_shown_ruleEntries (rule : Axis × Option Rect) :
    ¬ ((ruleEntries rule).map Entry.shown).contains textOpening = true := by
  have apart : (ruleEntries rule).all (fun e => differs (margin ++ e.front) textOpening) = true :=
    rfl
  rw [List.contains_iff_mem, List.mem_map]
  rintro ⟨e, he, hshown⟩
  exact (inner_ruleEntries rule e he).shown_ne (List.all_eq_true.mp apart e he) hshown

/-- **The rectangles of the tiles are read off a document as they were put in.** -/
theorem tileRectangles_of_render {root : Node} {bounds : Rect} {p : Profile} {document : String}
    (h : render root bounds p = .ok document) :
    tileRectangles document = root.tiles.map fun t => (tileEntries p t).map Entry.shown := by
  rw [tileRectangles, rectangles_of_render h, List.filter_append, List.map_map, List.map_map]
  have tiles : (root.tiles.map ((·.map Entry.shown) ∘ tileEntries p)).filter
      (·.contains textOpening) = root.tiles.map ((·.map Entry.shown) ∘ tileEntries p) := by
    rw [List.filter_eq_self, List.forall_mem_map]
    exact fun t _ => contains_shown_tileEntries p t
  have rules : (root.rules.map ((·.map Entry.shown) ∘ ruleEntries)).filter
      (·.contains textOpening) = [] := by
    rw [List.filter_eq_nil_iff, List.forall_mem_map]
    exact fun rule _ => not_contains_shown_ruleEntries rule
  rw [tiles, rules, List.append_nil]
  rfl

theorem textRows_eq_nil {entries : List Entry} (h : ∀ e ∈ entries, e.Inner)
    (hd : entries.all (fun e => differs (margin ++ e.front) textName) = true) :
    textRows (entries.map Entry.shown) = [] := by
  rw [textRows, List.filter_eq_nil_iff, List.forall_mem_map]
  intro e he hname
  exact (h e he).not_prefix_shown (List.all_eq_true.mp hd e he)
    (List.isPrefixOf_iff_prefix.mp hname)

/-- One row of the rectangle of a tile gives a text. -/
theorem textRows_tileEntries (p : Profile) (t : Tile) :
    textRows ((tileEntries p t).map Entry.shown) = [(textEntry t.text.content).shown] := by
  have inner := inner_tileEntries p t
  simp only [tileEntries, List.forall_mem_append, List.forall_mem_cons] at inner
  obtain ⟨⟨⟨placement, colours⟩, before⟩, text, behind⟩ := inner
  have named : textName.isPrefixOf (textEntry t.text.content).shown = true := by
    obtain ⟨rest, hrest⟩ := text.exists_shown
    rw [List.isPrefixOf_iff_prefix, hrest]
    exact ⟨rest, rfl⟩
  have cut (a b : List Row) : textRows (a ++ b) = textRows a ++ textRows b := List.filter_append ..
  have keep (rows : List Row) : textRows ((textEntry t.text.content).shown :: rows) =
      (textEntry t.text.content).shown :: textRows rows := List.filter_cons_of_pos named
  rw [tileEntries, List.map_append, List.map_append, List.map_append, List.map_cons, cut, cut, cut,
    keep, textRows_eq_nil placement rfl, textRows_eq_nil colours rfl, textRows_eq_nil before rfl,
    textRows_eq_nil behind rfl]
  rfl

/-- A text has no boundary but those that a literal escapes. -/
def Unbroken (content : String) : Prop :=
  ∀ c ∈ content.toList, isLineBoundary c = true → c = '\n' ∨ c = '\r'

instance (content : String) : Decidable (Unbroken content) :=
  List.decidableBAll (fun c => isLineBoundary c = true → c = '\n' ∨ c = '\r') content.toList

theorem row_textEntry (content : String) :
    (textEntry content).row =
      "        text: \"".toList ++ Literal.escapeChars content.toList ++ "\";".toList := by
  simp only [textEntry, Entry.property, Entry.row, quoted, Literal.escape, String.toList_append,
    String.toList_ofList, List.append_assoc]
  rfl

theorem textRow_eq (content : String) : textRow content = margin ++ (textEntry content).row := by
  have name : textName = margin ++ ("        " ++ "text" ++ ": ").toList := by decide
  rw [textRow, name, List.append_assoc, textEntry, Entry.property, Entry.row]

theorem shown_textEntry_of_unbroken {content : String} (h : Unbroken content) :
    (textEntry content).shown = textRow content := by
  rw [textRow_eq, Entry.shown]
  apply indentChars_of_not_boundary
  · rw [row_textEntry, List.forall_mem_append, List.forall_mem_append]
    refine ⟨⟨not_boundary_of_all (by decide), ?_⟩, not_boundary_of_all (by decide)⟩
    intro c hc
    rcases Literal.mem_escapeChars hc with hc | ⟨hc, plain⟩
    · exact not_boundary_of_all (by decide) c hc
    · rw [← Bool.not_eq_true]
      intro boundary
      rcases h c hc boundary with rfl | rfl
      · exact plain (.inr (.inr (.inl rfl)))
      · exact plain (.inr (.inr (.inr rfl)))
  · rw [row_textEntry, List.all_eq_false]
    exact ⟨'t', by simp, by decide⟩

theorem shown_textEntry_ne {content : String} (h : ¬ Unbroken content) :
    (textEntry content).shown ≠ textRow content := by
  obtain ⟨c, hc, boundary, hne⟩ : ∃ c ∈ content.toList, isLineBoundary c = true ∧
      ¬ (c = '\n' ∨ c = '\r') := by
    simpa only [Unbroken, not_forall, exists_prop] using h
  have plain : ¬ Literal.Special c := by
    rintro (rfl | rfl | rfl | rfl)
    · exact absurd boundary (by decide)
    · exact absurd boundary (by decide)
    · exact hne (.inl rfl)
    · exact hne (.inr rfl)
  obtain ⟨before, behind, hcontent⟩ := List.append_of_mem hc
  have torn : (textEntry content).row =
      ("        text: \"".toList ++ Literal.escapeChars before) ++
        c :: (Literal.escapeChars behind ++ "\";".toList) := by
    rw [row_textEntry, hcontent, Literal.escapeChars_append_cons plain]
    simp only [List.append_assoc, List.cons_append]
  rw [textRow_eq, Entry.shown, torn]
  exact indentChars_ne_append (by decide) boundary (fun h => hne (.inr h))
    (x := 't') (y := ';') (by simp) (by decide) (by simp) (by decide)

example : (textEntry "a\x0cb").shown = "            text: \"a\x0c    b\";".toList := by decide

/-- The rectangle gives the text of the tile, and nothing else, as a text. -/
def ShowsText (t : Tile) (rectangle : List Row) : Prop :=
  textRows rectangle = [textRow t.text.content]

theorem showsText_tileEntries_iff {p : Profile} {t : Tile} :
    ShowsText t ((tileEntries p t).map Entry.shown) ↔ Unbroken t.text.content := by
  rw [ShowsText, textRows_tileEntries, List.cons.injEq, and_iff_left rfl]
  constructor
  · intro shown
    by_contra broken
    exact shown_textEntry_ne broken shown
  · exact shown_textEntry_of_unbroken

/-- **Which texts a preview shows as they were declared.** Its rectangles with texts are those of
the tiles, one for each in document order. Each gives the text of its tile if and only if the text
has no boundary but those that are escaped. The literal that is meant is always read back. -/
theorem render_showsText_iff {root : Node} (h : ∀ n ∈ root.walk, n.isResolved = true)
    (bounds : Rect) (p : Profile) :
    ∃ document, render root bounds p = .ok document ∧
      List.Forall₂ (fun t rectangle =>
          (ShowsText t rectangle ↔ Unbroken t.text.content) ∧
            Literal.unescape (Literal.escape t.text.content) = some t.text.content)
        root.tiles (tileRectangles document) := by
  obtain ⟨document, hdocument⟩ := Node.exists_preview h bounds p
  refine ⟨document, hdocument, ?_⟩
  rw [tileRectangles_of_render hdocument, List.forall₂_map_right_iff, List.forall₂_same]
  intro t _
  exact ⟨showsText_tileEntries_iff, Literal.unescape_escape _⟩

/-- A label that was laid out, with a quote, a backslash and a line feed in its text. -/
def quotedLabel : Tile := ⟨⟨"\"a\\b\"\n", none, none, some ⟨2, 3⟩, some 12⟩, some ⟨0, 0, 90, 20⟩⟩

/-- A label that was laid out, with a form feed in its text. -/
def formFeedLabel : Tile := ⟨⟨"a\x0cb", none, none, some ⟨2, 3⟩, some 12⟩, some ⟨0, 20, 90, 20⟩⟩

theorem render_showsText_iff_labels :
    ∃ document first second,
      render (.stack .vertical [.tile quotedLabel, .tile formFeedLabel] none) ⟨0, 0, 90, 40⟩
        Profile.waveshare2in9 = .ok document ∧
      tileRectangles document = [first, second] ∧
      ShowsText quotedLabel first ∧ ¬ ShowsText formFeedLabel second := by
  have resolved : ∀ n ∈ (Node.stack .vertical [.tile quotedLabel, .tile formFeedLabel] none).walk,
      n.isResolved = true := by
    decide
  obtain ⟨document, hdocument, shown⟩ :=
    render_showsText_iff resolved ⟨0, 0, 90, 40⟩ Profile.waveshare2in9
  obtain ⟨first, _, hfirst, rest, hdoc⟩ := List.forall₂_cons_left_iff.mp shown
  obtain ⟨second, _, hsecond, none, rfl⟩ := List.forall₂_cons_left_iff.mp rest
  rw [List.forall₂_nil_left_iff.mp none] at hdoc
  refine ⟨document, first, second, hdocument, hdoc, hfirst.1.mpr (by decide), ?_⟩
  exact fun h => absurd (hsecond.1.mp h) (by decide)

/-- A form feed is not escaped, and the margin of the row behind it gets into the literal. -/
theorem not_forall_showsText :
    ¬ ∀ (root : Node) (bounds : Rect) (p : Profile), (∀ n ∈ root.walk, n.isResolved = true) →
      ∃ document, render root bounds p = .ok document ∧
        List.Forall₂ ShowsText root.tiles (tileRectangles document) := by
  intro claim
  obtain ⟨document, hdocument, shown⟩ :=
    claim (.tile formFeedLabel) ⟨0, 0, 90, 40⟩ Profile.waveshare2in9 (by decide)
  rw [tileRectangles_of_render hdocument, List.forall₂_map_right_iff, List.forall₂_same] at shown
  have unbroken : Unbroken formFeedLabel.text.content :=
    showsText_tileEntries_iff.mp (shown formFeedLabel (by decide))
  exact absurd unbroken (by decide)

end PixelLayout.Preview
