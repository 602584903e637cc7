import PixelLayout.Proofs.LabelLine
import PixelLayout.Proofs.Replacement

/-!
# What the device prints

The text of a tile reaches the display through two readers. A compiler reads the literal of the
statement up to the first quote that no backslash stands before (`Literal.untilQuote`) and puts a
character in the place of each escape. The formatted print then reads what the literal spells: two
percent signs print one, and any other percent sign would ask for an argument (`printPlain`).

The escape and the doubling of percent signs are done in the other order: the doubling runs over the
escaped text. They do not meet, as no escape holds a percent sign and a percent sign has no escape
(`Literal.double_escapeChars`), so the two readers undo them one after the other. **The device
prints the content of a text without a format as it stands, and reads a format as it stands**
(`drawCall_printsDeclared`).

What this does not say: whether the statement is code at all, which the comment above its block has
a say in (`PixelLayout.Proofs.LabelLine`), and how much of a long text the message has room for.
-/

namespace PixelLayout

open Text

namespace Text.Literal

/-! ## The end of a literal -/

/-- The inside of a literal and what stands behind its closing quote, read from behind the opening
one. -/
def untilQuote : List Char → Option (List Char × List Char)
  | [] => none
  | '"' :: behind => some ([], behind)
  | '\\' :: c :: cs => (untilQuote cs).map fun read => ('\\' :: c :: read.1, read.2)
  | c :: cs => (untilQuote cs).map fun read => (c :: read.1, read.2)

theorem untilQuote_cons_of_not_special {c : Char} (h : ¬ Special c) (cs : List Char) :
    untilQuote (c :: cs) = (untilQuote cs).map fun read => (c :: read.1, read.2) := by
  rw [untilQuote]
  · rintro rfl
    exact h (.inr (.inl rfl))
  · rintro _ _ rfl
    exact absurd (.inl rfl) h

/-- **A literal ends at its closing quote and not before.** -/
theorem untilQuote_escapeChars (cs behind : List Char) :
    untilQuote (escapeChars cs ++ '"' :: behind) = some (escapeChars cs, behind) := by
  unfold escapeChars
  induction cs with
  | nil => rfl
  | cons c cs ih =>
    rw [List.flatMap_cons, List.append_assoc]
    by_cases special : Special c
    · rcases special with rfl | rfl | rfl | rfl <;>
        simp only [escapeChar, List.cons_append, List.nil_append, untilQuote, ih, Option.map_some]
    · rw [escapeChar_of_not_special special, List.singleton_append,
        untilQuote_cons_of_not_special special, ih, Option.map_some, List.singleton_append]

/-! ## Percent signs -/

/-- The characters with every percent sign doubled. -/
def double (cs : List Char) : List Char := substitute '%' ['%', '%'] cs

theorem toList_doublePercent (text : String) :
    (doublePercent text).toList = double text.toList :=
  String.toList_ofList

theorem doublePercent_eq_replace (text : String) : doublePercent text = text.replace '%' "%%" := by
  rw [← String.toList_inj, toList_replace, toList_doublePercent]
  rfl

/-- Percent signs are doubled in an escaped text as they are in the text. -/
theorem double_escapeChars (cs : List Char) :
    double (escapeChars cs) = escapeChars (double cs) := by
  unfold double substitute escapeChars
  rw [List.flatMap_assoc, List.flatMap_assoc]
  congr 1
  funext c
  by_cases special : Special c
  · rcases special with rfl | rfl | rfl | rfl <;> rfl
  · rw [escapeChar_of_not_special special, List.flatMap_singleton]
    split
    · next percent => rfl
    · rw [List.flatMap_singleton, escapeChar_of_not_special special]

end Text.Literal

namespace DrawCode

/-! ## Printing without arguments -/

/-- What a formatted print shows that has no argument: nothing, if a percent sign asks for one. -/
def printPlain : List Char → Option (List Char)
  | [] => some []
  | '%' :: '%' :: cs => (printPlain cs).map ('%' :: ·)
  | c :: cs => if c = '%' then none else (printPlain cs).map (c :: ·)

theorem printPlain_cons {c : Char} (h : c ≠ '%') (cs : List Char) :
    printPlain (c :: cs) = (printPlain cs).map (c :: ·) := by
  rw [printPlain, if_neg h]
  rintro _ rfl
  exact absurd rfl h

/-- **A text with its percent signs doubled is printed as it stands.** -/
theorem printPlain_double (cs : List Char) : printPlain (Literal.double cs) = some cs := by
  unfold Literal.double substitute
  induction cs with
  | nil => rfl
  | cons c cs ih =>
    rw [List.flatMap_cons]
    split
    · next percent =>
      rw [percent, List.cons_append, List.cons_append, List.nil_append, printPlain, ih,
        Option.map_some]
    · next plain => rw [List.singleton_append, printPlain_cons plain, ih, Option.map_some]

/-! ## The statement that prints -/

/-- The head of the line that prints, up to the quote that opens its literal. -/
def printHead : List Char := "        snprintf(message, msg_size, \"".toList

/-- The characters that the literal of the statement spells. -/
def spelled (text : TileText) : List Char :=
  match text.format with
  | some format => format.toList
  | none => Literal.double text.content.toList

/-- What stands in the statement behind the quote that closes its literal. -/
def printTail (text : TileText) : List Char :=
  match text.format with
  | some _ => " /* , runtime args */);".toList
  | none => ");".toList

theorem printLine_eq (text : TileText) :
    printLine text =
      printHead ++ (Literal.escapeChars (spelled text) ++ '"' :: printTail text) := by
  have head : printHead = "        ".toList ++ "snprintf(message, msg_size, \"".toList := rfl
  unfold printLine printStatement spelled printTail
  cases text.format with
  | some format =>
    have closed : "\" /* , runtime args */);".toList = '"' :: " /* , runtime args */);".toList :=
      rfl
    simp only [String.toList_append, Literal.escape, String.toList_ofList, head, closed,
      List.append_assoc]
  | none =>
    have closed : "\");".toList = '"' :: ");".toList := rfl
    simp only [String.toList_append, Literal.toList_doublePercent, Literal.escape,
      String.toList_ofList, Literal.double_escapeChars, head, closed, List.append_assoc]

/-- The inside of a literal brings the declared text of a tile to the display: the content, if it
is printed without arguments, or else the format that the arguments are printed by. -/
def PrintsDeclared (text : TileText) (inside : List Char) : Prop :=
  match text.format with
  | some format => Literal.unescapeChars inside = some format.toList
  | none => (Literal.unescapeChars inside).bind printPlain = some text.content.toList

theorem printsDeclared_escapeChars (text : TileText) :
    PrintsDeclared text (Literal.escapeChars (spelled text)) := by
  unfold PrintsDeclared spelled
  cases text.format with
  | some format => exact Literal.unescapeChars_escapeChars _
  | none =>
    rw [Literal.unescapeChars_escapeChars]
    exact printPlain_double _

/-! ## The line in its block -/

theorem length_splitOn (c : Char) (cs : List Char) : (cs.splitOn c).length = cs.count c + 1 := by
  induction cs with
  | nil => rfl
  | cons d cs ih =>
    rw [List.splitOn_cons_eq_if_modifyHead]
    split
    · next same => rw [List.length_cons, ih, eq_of_beq same, List.count_cons_self]
    · next other =>
      rw [List.length_modifyHead, ih, List.count_cons_of_ne fun same => other (beq_iff_eq.mpr same)]

theorem length_splitOn_drawLines (text : TileText) (r : Rect) (offset : Offset) :
    ((drawLines text r offset).splitOn '\n').length = 5 := by
  have number (n : Int) : n.repr.toList.count '\n' = 0 :=
    List.count_eq_zero.mpr (not_mem_repr (by decide) (by decide) n)
  have size : (Artifact.sizeText text.resolvedFontSize).toList.count '\n' = 0 :=
    List.count_eq_zero.mpr (not_mem_sizeText (by decide) (by decide) _)
  rw [length_splitOn]
  simp only [drawLines, String.toList_append, List.count_append, number, size]
  rfl

/-- The line that prints is the sixth row of its block from behind. -/
theorem exists_rows_block (text : TileText) (r : Rect) (offset : Offset) (options : Options) :
    ∃ front back, (block text r offset options).toList.splitOn '\n' =
      front ++ printLine text :: back ∧ back.length = 5 := by
  refine ⟨(labelLine text.content ++ '\n' :: (enqueueLine ++ '\n' :: bufferLines options)).splitOn
    '\n', (drawLines text r offset).splitOn '\n', ?_, length_splitOn_drawLines text r offset⟩
  have parted : (block text r offset options).toList =
      (labelLine text.content ++ '\n' :: (enqueueLine ++ '\n' :: bufferLines options)) ++
        '\n' :: (printLine text ++ '\n' :: drawLines text r offset) := by
    rw [toList_block_lines]
    simp only [List.append_assoc, List.cons_append]
  rw [parted, List.splitOn_append_cons_self,
    List.splitOn_append_cons_self_of_not_mem (lineFeed_not_mem_printLine text)]

/-- **The device prints exactly the declared text.** In the block of each placed tile, whatever its
texts are and with all settings, one row holds the statement that prints. Its literal is one row
that ends at its closing quote and brings the declared text to the display. The escape that makes it
is four replacements in turn and the doubling of percent signs is a fifth; the four are one pass
over the characters, and tell every two texts apart. -/
theorem drawCall_printsDeclared {t : Tile} {r : Rect} {offset : Offset} (hrect : t.rect = some r)
    (hoffset : t.text.offset = some offset) (options : Options) :
    (∃ code front inside back, drawCall options t = .ok code ∧
      code.toList.splitOn '\n' =
        front ++ (printHead ++ (inside ++ '"' :: printTail t.text)) :: back ∧ back.length = 5 ∧
      Literal.untilQuote (inside ++ '"' :: printTail t.text) = some (inside, printTail t.text) ∧
      '\n' ∉ inside ∧ '\r' ∉ inside ∧ PrintsDeclared t.text inside) ∧
    (∀ text, Literal.escapeInTurn text = Literal.escape text) ∧
    (∀ text, Literal.doublePercent text = text.replace '%' "%%") ∧
    Function.Injective Literal.escapeInTurn := by
  refine ⟨?_, Literal.escapeInTurn_eq_escape, Literal.doublePercent_eq_replace, ?_⟩
  · obtain ⟨front, back, rows, behind⟩ := exists_rows_block t.text r offset options
    rw [printLine_eq] at rows
    have drawn : drawCall options t = .ok (block t.text r offset options) := by
      rw [drawCall, Artifact.requirePlaced, hrect, hoffset]
      rfl
    exact ⟨_, front, _, back, drawn, rows, behind, Literal.untilQuote_escapeChars _ _,
      Literal.lineBreak_not_mem_escapeChars (.inl rfl) _,
      Literal.lineBreak_not_mem_escapeChars (.inr rfl) _, printsDeclared_escapeChars t.text⟩
  · intro a b h
    rw [Literal.escapeInTurn_eq_escape, Literal.escapeInTurn_eq_escape] at h
    exact Literal.escape_inj.mp h

/-- A content with all that is escaped and a percent sign. -/
theorem drawCall_printsDeclared_special :
    ∃ code inside, drawCall defaultOptions
        ⟨⟨"\"5%\"\\\r\n", none, none, some ⟨20, 36⟩, some 56⟩, some ⟨0, 0, 296, 128⟩⟩ = .ok code ∧
      printHead ++ (inside ++ "\");".toList) ∈ code.toList.splitOn '\n' ∧
      (Literal.unescapeChars inside).bind printPlain = some "\"5%\"\\\r\n".toList := by
  obtain ⟨⟨code, front, inside, back, drawn, rows, -, -, -, -, declared⟩, -⟩ :=
    drawCall_printsDeclared
      (t := ⟨⟨"\"5%\"\\\r\n", none, none, some ⟨20, 36⟩, some 56⟩, some ⟨0, 0, 296, 128⟩⟩) rfl rfl
      defaultOptions
  refine ⟨code, inside, drawn, ?_, declared⟩
  rw [rows]
  exact List.mem_append_right front List.mem_cons_self

end DrawCode

end PixelLayout
