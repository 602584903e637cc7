import PixelLayout.Node.Build
import PixelLayout.Proofs.Lossless
import PixelLayout.Proofs.Resolved

/-!
# The comment above a block

Each block of the draw code starts with a comment that shows the content of its text, and the
statement that draws begins in the line below. A compiler first deletes every backslash in front of
a line feed together with the line feed (`splice`), and then drops each comment up to the end of its
line (`uncommented`). What is left is the code (`codeLines`).

The content stands in the comment as the inside of a literal. That keeps it on one line, but a
literal may end in a backslash where a line may not: **the first line of the statement is code if
and only if the content does not end in a backslash** (`drawCall_enqueues_iff`). Behind one, the
line below is a part of the comment.

No other line of a block passes for the first line of the statement. That line has a `>`, which the
settings cannot have, because they are printed as markup, and begins at the margin, which the
statement with the texts of the author does not.
-/

namespace PixelLayout.DrawCode

open Text

/-- Deletes each backslash that is directly followed by a line feed, and the line feed. -/
def splice : List Char → List Char
  | '\\' :: '\n' :: cs => splice cs
  | c :: cs => c :: splice cs
  | [] => []

/-- A line up to its comment. -/
def uncommented : List Char → List Char
  | '/' :: '/' :: _ => []
  | c :: cs => c :: uncommented cs
  | [] => []

/-- The lines of a text as a compiler reads them. -/
def codeLines (text : List Char) : List (List Char) :=
  ((splice text).splitOn '\n').map uncommented

/-- The comment above a block. -/
def labelLine (content : String) : List Char := "// ".toList ++ (Literal.escape content).toList

/-- The first line of the statement that draws. -/
def enqueueLine : List Char := "display_->enqueueDraw(".toList

/-! ## Splicing -/

theorem splice_cons {c : Char} {cs : List Char} (h : ¬ (c = '\\' ∧ cs.head? = some '\n')) :
    splice (c :: cs) = c :: splice cs := by
  rw [splice]
  rintro rest rfl rfl
  exact h ⟨rfl, rfl⟩

/-- Parts that do not meet at a backslash and a line feed are spliced one by one. -/
theorem splice_append {a b : List Char}
    (h : ¬ (a.getLast? = some '\\' ∧ b.head? = some '\n')) :
    splice (a ++ b) = splice a ++ splice b := by
  fun_induction splice a with
  | case1 cs ih =>
    rw [List.cons_append, List.cons_append, splice]
    apply ih
    rintro ⟨hlast, hhead⟩
    exact h ⟨by simp only [List.getLast?_cons, hlast, Option.getD_some], hhead⟩
  | case2 c cs plain ih =>
    rw [List.cons_append, splice_cons, ih, List.cons_append]
    · rintro ⟨hlast, hhead⟩
      exact h ⟨by simp only [List.getLast?_cons, hlast, Option.getD_some], hhead⟩
    · rintro ⟨rfl, hhead⟩
      cases cs with
      | nil => exact h ⟨rfl, hhead⟩
      | cons d cs =>
        cases hhead
        exact plain cs rfl rfl
  | case3 => rfl

/-- A line feed stays where no backslash stands before it. -/
theorem splice_lineFeed {a : List Char} (h : a.getLast? ≠ some '\\') (b : List Char) :
    splice (a ++ '\n' :: b) = splice a ++ '\n' :: splice b := by
  rw [splice_append fun both => h both.1, splice_cons fun both => absurd both.1 (by decide)]

/-- Nothing is spliced on one line. -/
theorem splice_line {a : List Char} (h : '\n' ∉ a) : splice a = a := by
  fun_induction splice a with
  | case1 cs ih => exact absurd (List.mem_cons_of_mem _ List.mem_cons_self) h
  | case2 c cs plain ih => rw [ih fun hmem => h (List.mem_cons_of_mem c hmem)]
  | case3 => rfl

theorem splice_sublist (a : List Char) : (splice a).Sublist a := by
  fun_induction splice a with
  | case1 cs ih => exact (ih.cons '\n').cons '\\'
  | case2 c cs plain ih => exact ih.cons_cons c
  | case3 => exact .slnil

theorem isPrefix_uncommented (a : List Char) : uncommented a <+: a := by
  fun_induction uncommented a with
  | case1 cs => exact List.nil_prefix
  | case2 c cs plain ih => exact List.cons_prefix_cons.mpr ⟨rfl, ih⟩
  | case3 => exact List.prefix_rfl

/-! ## Lines of code -/

theorem mem_codeLines_append {line a b : List Char} (h : a.getLast? ≠ some '\\') :
    line ∈ codeLines (a ++ '\n' :: b) ↔ line ∈ codeLines a ∨ line ∈ codeLines b := by
  unfold codeLines
  rw [splice_lineFeed h, List.splitOn_append_cons_self, List.map_append, List.mem_append]

theorem codeLines_line {a : List Char} (h : '\n' ∉ a) : codeLines a = [uncommented a] := by
  rw [codeLines, splice_line h, List.splitOn_eq_singleton h, List.map_singleton]

theorem sublist_of_mem_splitOn {row a : List Char} (h : row ∈ a.splitOn '\n') : row.Sublist a := by
  induction a generalizing row with
  | nil =>
    rw [List.splitOn_nil, List.mem_singleton] at h
    rw [h]
  | cons c a ih =>
    rw [List.splitOn_cons_eq_if_modifyHead] at h
    split at h
    · rcases List.mem_cons.mp h with rfl | h
      · exact List.nil_sublist _
      · exact (ih h).cons c
    · cases hrows : a.splitOn '\n' with
      | nil => exact absurd hrows (List.splitOn_ne_nil _ _)
      | cons first rows =>
        rw [hrows, List.modifyHead_cons] at h
        rw [hrows] at ih
        rcases List.mem_cons.mp h with rfl | h
        · exact (ih List.mem_cons_self).cons_cons c
        · exact (ih (List.mem_cons_of_mem first h)).cons c

/-- The code has no character that the text does not have. -/
theorem mem_of_mem_codeLines {line a : List Char} {c : Char} (h : line ∈ codeLines a)
    (hc : c ∈ line) : c ∈ a := by
  obtain ⟨row, hrow, rfl⟩ := List.mem_map.mp h
  have hsub := (isPrefix_uncommented row).sublist.trans
    ((sublist_of_mem_splitOn hrow).trans (splice_sublist a))
  exact hsub.subset hc

/-! ## The lines of a block -/

/-- What stands between the first line of the statement and the printing of the text, but for the
last line feed. -/
def bufferLines (options : Options) : List Char :=
  ("    [&](Paint &paint) \x7b\n" ++
    "        const int msg_size = " ++ Markup.escape options.messageBufferSize.settingText ++ ";\n" ++
    "        char message[msg_size];\n").toList

/-- The line that prints the text of a tile into the message. -/
def printLine (text : TileText) : List Char := ("        " ++ printStatement text).toList

/-- What stands behind that line. -/
def drawLines (text : TileText) (r : Rect) (offset : Offset) : List Char :=
  ("        paint.DrawStringAt(" ++ (r.x + offset.x).repr ++ ", " ++ (r.y + offset.y).repr ++
    ", message, &Font" ++ Artifact.sizeText text.resolvedFontSize ++ ", COLORED);\n" ++
    "    \x7d,\n" ++
    "    \x7b" ++ (refresh r).left.repr ++ ", " ++ (refresh r).top.repr ++ ", " ++
      (refresh r).right.repr ++ ", " ++ (refresh r).bottom.repr ++ "\x7d);\n\n").toList

theorem toList_block_lines (text : TileText) (r : Rect) (offset : Offset) (options : Options) :
    (block text r offset options).toList = labelLine text.content ++ '\n' :: (enqueueLine ++
      '\n' :: (bufferLines options ++ '\n' :: (printLine text ++
        '\n' :: drawLines text r offset))) := by
  unfold block labelLine enqueueLine bufferLines printLine drawLines
  have lineFeed (cs : List Char) : '\n' :: cs = "\n".toList ++ cs := rfl
  have enqueue : "display_->enqueueDraw(\n".toList =
      "display_->enqueueDraw(".toList ++ "\n".toList := rfl
  simp only [lineFeed, String.toList_append, enqueue, List.append_assoc]

/-- The settings are printed without a `>`. -/
theorem greater_not_mem_bufferLines (options : Options) : '>' ∉ bufferLines options := by
  unfold bufferLines
  simp only [String.toList_append, List.mem_append, not_or]
  refine ⟨⟨⟨⟨by decide, by decide⟩, ?_⟩, by decide⟩, by decide⟩
  rw [Markup.escape, String.toList_ofList]
  intro h
  obtain ⟨c, _, hc⟩ := List.mem_flatMap.mp h
  unfold Markup.escapeChar at hc
  split at hc
  · exact absurd hc (by decide)
  · exact absurd hc (by decide)
  · exact absurd hc (by decide)
  · exact absurd hc (by decide)
  · next plain => exact plain (List.mem_singleton.mp hc).symm

theorem greater_not_mem_drawLines (text : TileText) (r : Rect) (offset : Offset) :
    '>' ∉ drawLines text r offset := by
  have number (n : Int) : '>' ∉ n.repr.toList := not_mem_repr (by decide) (by decide) n
  have size : '>' ∉ (Artifact.sizeText text.resolvedFontSize).toList :=
    not_mem_sizeText (by decide) (by decide) _
  unfold drawLines
  simp only [String.toList_append, List.mem_append, not_or, number, size, not_false_eq_true,
    and_true]
  decide

theorem getLast?_bufferLines (options : Options) : (bufferLines options).getLast? = some '\n' := by
  unfold bufferLines
  rw [String.toList_append, List.getLast?_append]
  rfl

theorem getLast?_printLine (text : TileText) : (printLine text).getLast? = some ';' := by
  unfold printLine printStatement
  split
  all_goals
    rw [String.toList_append, String.toList_append, List.getLast?_append, List.getLast?_append]
    rfl

theorem head?_printLine (text : TileText) : (printLine text).head? = some ' ' := by
  rw [printLine, String.toList_append]
  rfl

theorem lineFeed_not_mem_printLine (text : TileText) : '\n' ∉ printLine text := by
  rw [printLine, String.toList_append, List.mem_append, not_or]
  exact ⟨by decide, lineFeed_not_mem_printStatement text⟩

/-- No line behind the first line of the statement passes for it. -/
theorem enqueueLine_not_mem_behind (text : TileText) (r : Rect) (offset : Offset)
    (options : Options) :
    enqueueLine ∉ codeLines
      (bufferLines options ++ '\n' :: (printLine text ++ '\n' :: drawLines text r offset)) := by
  have greater : '>' ∈ enqueueLine := by decide
  rw [mem_codeLines_append (by rw [getLast?_bufferLines]; decide),
    mem_codeLines_append (by rw [getLast?_printLine]; decide),
    codeLines_line (lineFeed_not_mem_printLine text), List.mem_singleton]
  rintro (h | h | h)
  · exact greater_not_mem_bufferLines options (mem_of_mem_codeLines h greater)
  · obtain ⟨rest, hrest⟩ := isPrefix_uncommented (printLine text)
    rw [← h] at hrest
    have head := head?_printLine text
    rw [← hrest] at head
    cases head
  · exact greater_not_mem_drawLines text r offset (mem_of_mem_codeLines h greater)

/-! ## The label -/

/-- The inside of a literal ends in a backslash exactly where its text does. -/
theorem getLast?_escapeChars (cs : List Char) :
    (Literal.escapeChars cs).getLast? = some '\\' ↔ cs.getLast? = some '\\' := by
  rcases List.eq_nil_or_concat' cs with rfl | ⟨front, c, rfl⟩
  · rfl
  · rw [Literal.escapeChars, List.flatMap_append, List.flatMap_singleton]
    by_cases special : Literal.Special c
    · rcases special with rfl | rfl | rfl | rfl <;>
        simp only [Literal.escapeChar, List.getLast?_append, List.getLast?_cons, List.getLast?_nil,
          Option.getD_some, Option.getD_none, Option.some_or] <;>
        decide
    · rw [Literal.escapeChar_of_not_special special, List.getLast?_concat, List.getLast?_concat]

theorem getLast?_labelLine (content : String) :
    (labelLine content).getLast? = some '\\' ↔ content.toList.getLast? = some '\\' := by
  rw [labelLine, List.getLast?_append, Literal.escape, String.toList_ofList, ← getLast?_escapeChars]
  cases (Literal.escapeChars content.toList).getLast? with
  | none => decide
  | some c => rfl

theorem lineFeed_not_mem_labelLine (content : String) : '\n' ∉ labelLine content := by
  rw [labelLine, List.mem_append, not_or]
  exact ⟨by decide, Literal.lineFeed_not_mem_escape content⟩

theorem codeLines_enqueueLine : codeLines enqueueLine = [enqueueLine] := by
  decide

/-- A label whose content ends in a backslash ends in two. -/
theorem labelLine_of_backslash {content : String} (h : content.toList.getLast? = some '\\') :
    ∃ shown, labelLine content = '/' :: '/' :: shown ++ ['\\'] := by
  obtain ⟨front, hfront⟩ := List.getLast?_eq_some_iff.mp h
  have inside : (Literal.escape content).toList = Literal.escapeChars front ++ ['\\', '\\'] := by
    rw [Literal.escape, String.toList_ofList, hfront, Literal.escapeChars, List.flatMap_append]
    rfl
  refine ⟨' ' :: (Literal.escapeChars front ++ ['\\']), ?_⟩
  rw [labelLine, inside, List.cons_append, List.cons_append, List.cons_append, List.append_assoc]
  rfl

/-- Behind a label that ends in a backslash, the line below is a part of the comment. -/
theorem codeLines_swallowed {content : String} (h : content.toList.getLast? = some '\\')
    {line : List Char} (hline : '\n' ∉ line) (hlast : line.getLast? ≠ some '\\') (b : List Char) :
    codeLines (labelLine content ++ '\n' :: (line ++ '\n' :: b)) = [] :: codeLines b := by
  obtain ⟨shown, hshown⟩ := labelLine_of_backslash h
  have hlabel : '\n' ∉ '/' :: '/' :: shown := by
    intro hmem
    have unbroken := lineFeed_not_mem_labelLine content
    rw [hshown] at unbroken
    exact unbroken (List.mem_append_left _ hmem)
  have spliced : splice ('/' :: '/' :: shown ++ '\\' :: '\n' :: (line ++ '\n' :: b)) =
      ('/' :: '/' :: shown ++ line) ++ '\n' :: splice b := by
    rw [splice_append fun both => absurd both.2 (by simp), splice_line hlabel, splice,
      splice_lineFeed hlast, splice_line hline, List.append_assoc]
  have joined : '\n' ∉ '/' :: '/' :: shown ++ line := by
    rw [List.mem_append, not_or]
    exact ⟨hlabel, hline⟩
  rw [hshown, List.append_assoc, List.singleton_append, codeLines, spliced,
    List.splitOn_append_cons_self_of_not_mem joined, List.map_cons]
  rfl

/-! ## Blocks as a compiler reads them -/

theorem enqueueLine_mem_codeLines_iff (text : TileText) (r : Rect) (offset : Offset)
    (options : Options) :
    enqueueLine ∈ codeLines (block text r offset options).toList ↔
      text.content.toList.getLast? ≠ some '\\' := by
  have unbroken : '\n' ∉ enqueueLine := by decide
  have plain : enqueueLine.getLast? ≠ some '\\' := by decide
  rw [toList_block_lines]
  by_cases swallowed : text.content.toList.getLast? = some '\\'
  · rw [codeLines_swallowed swallowed unbroken plain, List.mem_cons]
    refine iff_of_false ?_ (not_not_intro swallowed)
    rintro (h | h)
    · cases h
    · exact enqueueLine_not_mem_behind text r offset options h
  · refine iff_of_true ?_ swallowed
    have own : enqueueLine ∈ codeLines enqueueLine := by
      rw [codeLines_enqueueLine]
      exact List.mem_cons_self
    have label := mt (getLast?_labelLine text.content).mp swallowed
    exact (mem_codeLines_append label).mpr (.inr ((mem_codeLines_append plain).mpr (.inl own)))

/-- **The statement of a block is code exactly if the content does not end in a backslash.** The
block of a resolved tile, whatever its content and its format are and with all settings, begins with
the label, which ends in a backslash exactly where the content does; and where it does not, and only
there, the first line of the statement below it is among the lines that a compiler reads. -/
theorem drawCall_enqueues_iff {t : Tile} (h : t.isResolved = true) (options : Options) :
    ∃ code, drawCall options t = .ok code ∧
      (code.toList.splitOn '\n').head? = some (labelLine t.text.content) ∧
      ((labelLine t.text.content).getLast? = some '\\' ↔
        t.text.content.toList.getLast? = some '\\') ∧
      (enqueueLine ∈ codeLines code.toList ↔ t.text.content.toList.getLast? ≠ some '\\') := by
  obtain ⟨⟨r, offset⟩, hplaced⟩ := Artifact.exists_requirePlaced h
  refine ⟨block t.text r offset options, ?_, ?_, getLast?_labelLine t.text.content,
    enqueueLine_mem_codeLines_iff t.text r offset options⟩
  · rw [drawCall, hplaced]
    rfl
  · rw [toList_block_lines,
      List.splitOn_append_cons_self_of_not_mem (lineFeed_not_mem_labelLine t.text.content)]
    rfl

/-- A backslash inside the content does no harm. -/
theorem drawCall_enqueues_iff_inside :
    ∃ code, drawCall defaultOptions
        ⟨⟨"C:\\maps", none, none, some ⟨20, 36⟩, some 56⟩, some ⟨0, 0, 296, 128⟩⟩ = .ok code ∧
      enqueueLine ∈ codeLines code.toList := by
  obtain ⟨code, hcode, _, _, enqueues⟩ := drawCall_enqueues_iff
    (t := ⟨⟨"C:\\maps", none, none, some ⟨20, 36⟩, some 56⟩, some ⟨0, 0, 296, 128⟩⟩) rfl
    defaultOptions
  exact ⟨code, hcode, enqueues.mpr (by decide)⟩

/-- A label whose content ends in a backslash takes the statement below it into the comment. -/
theorem not_forall_drawCall_enqueues :
    ¬ ∀ (root out : Node) (bounds : Rect) (p : Profile) (t : Tile) (options : Options)
      (code : String), root.resolve bounds p = .ok out → t ∈ out.tiles →
        drawCall options t = .ok code → enqueueLine ∈ codeLines code.toList := by
  intro enqueues
  have laid : (Node.label "a\\").resolve Profile.waveshare2in9.bounds Profile.waveshare2in9 =
      .ok (.tile ⟨⟨"a\\", none, none, some ⟨116, 36⟩, some 56⟩, some ⟨0, 0, 296, 128⟩⟩) := rfl
  have mem := enqueues _ _ _ _ _ defaultOptions _ laid (List.mem_singleton.mpr rfl) rfl
  exact (enqueueLine_mem_codeLines_iff _ _ _ _).mp mem rfl

end PixelLayout.DrawCode
