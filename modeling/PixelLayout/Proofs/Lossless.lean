import Mathlib.Data.List.Basic
import PixelLayout.Pass
import PixelLayout.Proofs.Emission
import PixelLayout.Proofs.Literal
import PixelLayout.Proofs.Numeral

/-!
# The streams of the draw code are read back

A block of the draw code is a template with texts filled in: the content and the format of a tile,
both escaped, and numerals. Behind each place of the template stands a character that no text at
that place holds (`Field.Ends`): a line feed behind an escaped text, a comma or a closing brace
behind a numeral. So a block is read off the front of a stream place by place, whatever the texts
spell, and what is left is the rest of the stream (`fields_append_inj`).

The areas are printed as their corners, and a text that is printed as it stands is told from a
format by the end of its statement, so nothing of a tile is lost but the font size that its author
asked for. **Two trees have the same dynamic stream exactly if their tiles show the same, and the
same static stream exactly if their rules are drawn the same** (`streams_lossless`).
-/

namespace PixelLayout

/-! ## Filled templates -/

/-- A place of a template: the text that is filled in, and what the template has behind it. -/
structure Field where
  value : List Char
  behind : List Char

namespace Field

def chars (f : Field) : List Char := f.value ++ f.behind

/-- The template goes on with a character that the text does not hold. -/
def Ends (f : Field) : Prop := ∃ mark rest, f.behind = mark :: rest ∧ mark ∉ f.value

/-- A text in the template, and the lines of the template behind it. -/
def filled (value : String) (lines : List String) : Field :=
  ⟨value.toList, lines.flatMap String.toList⟩

theorem Ends.filled {value line : String} {lines : List String} {mark : Char}
    (h : line.toList.head? = some mark) (hvalue : mark ∉ value.toList) :
    (Field.filled value (line :: lines)).Ends := by
  obtain ⟨rest, hrest⟩ := List.head?_eq_some_iff.mp h
  exact ⟨mark, rest ++ lines.flatMap String.toList,
    by rw [Field.filled, List.flatMap_cons, hrest, List.cons_append], hvalue⟩

end Field

/-- A word that does not hold the mark behind it is read off the front of a text. -/
theorem append_mark_inj {mark : Char} {a b x y : List Char} (ha : mark ∉ a) (hb : mark ∉ b)
    (h : a ++ mark :: x = b ++ mark :: y) : a = b ∧ x = y := by
  have word {w : List Char} (hw : mark ∉ w) (rest : List Char) :
      (w ++ mark :: rest).takeWhile (· != mark) = w := by
    rw [List.takeWhile_append_of_pos, List.takeWhile_cons_of_neg, List.append_nil]
    · simp
    · intro c hc
      exact bne_iff_ne.mpr fun same => hw (same ▸ hc)
  have words : a = b := by
    rw [← word ha x, h, word hb y]
  subst words
  exact ⟨rfl, (List.cons.inj (List.append_cancel_left h)).2⟩

/-- **A filled template is read off the front of a text**, and so are the texts filled into it. -/
theorem fields_append_inj {fs gs : List Field} {x y : List Char}
    (template : fs.map Field.behind = gs.map Field.behind) (hf : ∀ f ∈ fs, f.Ends)
    (hg : ∀ g ∈ gs, g.Ends)
    (h : fs.flatMap Field.chars ++ x = gs.flatMap Field.chars ++ y) :
    fs.map Field.value = gs.map Field.value ∧ x = y := by
  induction fs generalizing gs with
  | nil =>
    obtain rfl : gs = [] := List.map_eq_nil_iff.mp template.symm
    exact ⟨rfl, h⟩
  | cons f fs ih =>
    cases gs with
    | nil => cases template
    | cons g gs =>
      -- both first texts end at the same mark, which neither of them holds
      obtain ⟨hbehind, template⟩ := List.cons.inj template
      obtain ⟨⟨mark, rest, hmark, hvalue⟩, hf⟩ := List.forall_mem_cons.mp hf
      obtain ⟨⟨mark', rest', hmark', hvalue'⟩, hg⟩ := List.forall_mem_cons.mp hg
      obtain ⟨rfl, rfl⟩ : mark = mark' ∧ rest = rest' := by
        rw [hmark, hmark'] at hbehind
        exact List.cons.inj hbehind
      simp only [List.flatMap_cons, Field.chars, hmark, hmark', List.append_assoc,
        List.cons_append] at h
      obtain ⟨values, h⟩ := append_mark_inj hvalue hvalue' h
      obtain ⟨others, left⟩ := ih template hf hg (List.append_cancel_left h)
      exact ⟨congrArg₂ List.cons values others, left⟩

/-- Items are told from a text that spells them one behind the other, if each is told from the front
of it. -/
theorem map_eq_of_flatMap_eq {α κ : Type} {code : α → List Char} {key : α → κ} {as bs : List α}
    (filled : ∀ a, code a ≠ [])
    (read : ∀ a ∈ as, ∀ b ∈ bs, ∀ x y, code a ++ x = code b ++ y → key a = key b ∧ x = y)
    (h : as.flatMap code = bs.flatMap code) : as.map key = bs.map key := by
  induction as generalizing bs with
  | nil =>
    cases bs with
    | nil => rfl
    | cons b bs => exact absurd (List.append_eq_nil_iff.mp h.symm).1 (filled b)
  | cons a as ih =>
    cases bs with
    | nil => exact absurd (List.append_eq_nil_iff.mp h).1 (filled a)
    | cons b bs =>
      rw [List.flatMap_cons, List.flatMap_cons] at h
      obtain ⟨keys, h⟩ := read a List.mem_cons_self b List.mem_cons_self _ _ h
      have rest : as.map key = bs.map key := by
        apply ih _ h
        intro a' ha' b' hb'
        exact read a' (List.mem_cons_of_mem a ha') b' (List.mem_cons_of_mem b hb')
      exact congrArg₂ List.cons keys rest

/-- Items with the same keys are spelled the same, if the key settles how an item is spelled. -/
theorem flatMap_eq_of_map_eq {α κ : Type} {code : α → List Char} {key : α → κ} {as bs : List α}
    (spelled : ∀ a b, key a = key b → code a = code b) (h : as.map key = bs.map key) :
    as.flatMap code = bs.flatMap code := by
  induction as generalizing bs with
  | nil => rw [List.map_eq_nil_iff.mp h.symm]
  | cons a as ih =>
    cases bs with
    | nil => cases h
    | cons b bs =>
      obtain ⟨keys, h⟩ := List.cons.inj h
      rw [List.flatMap_cons, List.flatMap_cons, spelled a b keys, ih h]

/-- **A text is as good as the keys of the items that it spells**, if a key settles how its item is
spelled and is read off the front of a text. -/
theorem flatMap_eq_iff_map_eq {α κ : Type} {code : α → List Char} {key : α → κ} {as bs : List α}
    (filled : ∀ a, code a ≠ []) (spelled : ∀ a b, key a = key b → code a = code b)
    (read : ∀ a ∈ as, ∀ b ∈ bs, ∀ x y, code a ++ x = code b ++ y → key a = key b ∧ x = y) :
    as.flatMap code = bs.flatMap code ↔ as.map key = bs.map key :=
  ⟨map_eq_of_flatMap_eq filled read, flatMap_eq_of_map_eq spelled⟩

namespace DrawCode

open Text

/-! ## The blocks of tiles -/

theorem repr_ne_empty (n : Int) : n.repr ≠ "" := by
  cases n with
  | ofNat k => exact Nat.repr_ne_empty
  | negSucc k => simp [Int.repr]

/-- Every size is told from every other, and from one that is not settled. -/
theorem sizeText_inj {size size' : Option Int} :
    Artifact.sizeText size = Artifact.sizeText size' ↔ size = size' := by
  refine ⟨?_, fun h => h ▸ rfl⟩
  intro h
  cases size with
  | none =>
    cases size' with
    | none => rfl
    | some m => exact absurd h.symm (repr_ne_empty m)
  | some n =>
    cases size' with
    | none => exact absurd h (repr_ne_empty n)
    | some m => exact congrArg some (repr_inj.mp h)

theorem lineFeed_not_mem_doublePercent {text : String} (h : '\n' ∉ text.toList) :
    '\n' ∉ (Literal.doublePercent text).toList := by
  rw [Literal.doublePercent, String.toList_ofList]
  intro hmem
  obtain ⟨c, hc, hmem⟩ := List.mem_flatMap.mp hmem
  split at hmem
  · revert hmem
    decide
  · exact h (List.mem_singleton.mp hmem ▸ hc)

theorem lineFeed_not_mem_printStatement (text : TileText) :
    '\n' ∉ (printStatement text).toList := by
  rw [printStatement]
  split
  all_goals
    simp only [String.toList_append, List.mem_append, not_or]
    refine ⟨⟨by decide, ?_⟩, by decide⟩
  · exact Literal.lineFeed_not_mem_escape _
  · exact lineFeed_not_mem_doublePercent (Literal.lineFeed_not_mem_escape _)

/-- A comment stands behind the text of a format only, so no text that is printed as it stands
passes for a format, whatever it spells. -/
theorem printStatement_inj {text text' : TileText}
    (h : printStatement text = printStatement text') : text.format = text'.format := by
  have commented (front front' : List Char) :
      front ++ "\" /* , runtime args */);".toList ≠ front' ++ "\");".toList := by
    intro same
    -- the third character from the end is a slash on one side and a quote on the other
    have third := congrArg (fun cs => cs.reverse[2]?) same
    simp at third
  have spelled := congrArg String.toList h
  cases hf : text.format with
  | none =>
    cases hf' : text'.format with
    | none => rfl
    | some format' =>
      simp only [printStatement, hf, hf', String.toList_append] at spelled
      exact absurd spelled.symm (commented _ _)
  | some format =>
    cases hf' : text'.format with
    | none =>
      simp only [printStatement, hf, hf', String.toList_append] at spelled
      exact absurd spelled (commented _ _)
    | some format' =>
      simp only [printStatement, hf, hf', String.toList_append] at spelled
      have escaped := List.append_cancel_left (List.append_cancel_right spelled)
      rw [Literal.escape_inj.mp (String.toList_inj.mp escaped)]

/-- What a block is filled with. -/
def blockFields (text : TileText) (r : Rect) (offset : Offset) (options : Options) : List Field :=
  [.filled "" ["// "],
    .filled (Literal.escape text.content)
      ["\n", "display_->enqueueDraw(\n", "    [&](Paint &paint) \x7b\n",
        "        const int msg_size = ", Markup.escape options.messageBufferSize.settingText, ";\n",
        "        char message[msg_size];\n", "\n", "        "],
    .filled (printStatement text) ["\n", "        paint.DrawStringAt("],
    .filled (r.x + offset.x).repr [", "],
    .filled (r.y + offset.y).repr [", message, &Font"],
    .filled (Artifact.sizeText text.resolvedFontSize) [", COLORED);\n", "    \x7d,\n", "    \x7b"],
    .filled (refresh r).left.repr [", "],
    .filled (refresh r).top.repr [", "],
    .filled (refresh r).right.repr [", "],
    .filled (refresh r).bottom.repr ["\x7d);\n\n"]]

theorem toList_block (text : TileText) (r : Rect) (offset : Offset) (options : Options) :
    (block text r offset options).toList =
      (blockFields text r offset options).flatMap Field.chars := by
  have empty : "".toList = [] := rfl
  unfold block blockFields
  simp only [List.flatMap_cons, List.flatMap_nil, Field.chars, Field.filled, String.toList_append,
    empty, List.append_assoc, List.append_nil, List.nil_append]

theorem ends_blockFields (text : TileText) (r : Rect) (offset : Offset) (options : Options) :
    ∀ f ∈ blockFields text r offset options, f.Ends := by
  have comma (n : Int) : ',' ∉ n.repr.toList := not_mem_repr (by decide) (by decide) n
  have brace (n : Int) : '\x7d' ∉ n.repr.toList := not_mem_repr (by decide) (by decide) n
  have size : ',' ∉ (Artifact.sizeText text.resolvedFontSize).toList :=
    not_mem_sizeText (by decide) (by decide) _
  simp only [blockFields, List.forall_mem_cons, List.not_mem_nil, false_implies, implies_true,
    and_true]
  exact ⟨.filled rfl List.not_mem_nil, .filled rfl (Literal.lineFeed_not_mem_escape _),
    .filled rfl (lineFeed_not_mem_printStatement _), .filled rfl (comma _), .filled rfl (comma _),
    .filled rfl size, .filled rfl (comma _), .filled rfl (comma _), .filled rfl (comma _),
    .filled rfl (brace _)⟩

/-- **A block is read off the front of a stream**, and it gives the content, the format and the size
of its text, the rectangle and the offset. -/
theorem block_append_inj {text text' : TileText} {r r' : Rect} {offset offset' : Offset}
    {options : Options} {x y : List Char}
    (h : (block text r offset options).toList ++ x = (block text' r' offset' options).toList ++ y) :
    (text.content = text'.content ∧ text.format = text'.format ∧
      text.resolvedFontSize = text'.resolvedFontSize ∧ r = r' ∧ offset = offset') ∧ x = y := by
  have template : (blockFields text r offset options).map Field.behind =
      (blockFields text' r' offset' options).map Field.behind := by
    simp only [blockFields, Field.filled, List.map_cons, List.map_nil]
  rw [toList_block, toList_block] at h
  obtain ⟨values, left⟩ := fields_append_inj template (ends_blockFields text r offset options)
    (ends_blockFields text' r' offset' options) h
  simp only [blockFields, Field.filled, List.map_cons, List.map_nil, List.cons.injEq, true_and,
    and_true, String.toList_inj, Literal.escape_inj, repr_inj, sizeText_inj] at values
  obtain ⟨content, statement, textX, textY, size, firstX, firstY, lastX, lastY⟩ := values
  have place : r = r' ∧ offset = offset' := by
    cases r
    cases r'
    cases offset
    cases offset'
    simp only [refresh, Rect.right, Rect.bottom] at textX textY firstX firstY lastX lastY
    simp only [Rect.mk.injEq, Offset.mk.injEq]
    omega
  exact ⟨⟨content, printStatement_inj statement, size, place⟩, left⟩

/-! ## The calls of rules -/

/-- What the name of the function for a rule has for its axis. -/
def axisWord : Axis → String
  | .horizontal => "Horizontal"
  | .vertical => "Vertical"

/-- What the call of a rule is filled with. -/
def lineFields (axis : Axis) (r : Rect) : List Field :=
  [.filled "" ["paint.Draw"], .filled (axisWord axis) ["Line("], .filled r.x.repr [", "],
    .filled r.y.repr [", "], .filled (Pass.extent axis r).repr [", COLORED);\n"]]

theorem toList_lineCall (axis : Axis) (r : Rect) :
    (lineCall axis r).toList = (lineFields axis r).flatMap Field.chars := by
  have empty : "".toList = [] := rfl
  have horizontal : "paint.DrawHorizontalLine(".toList =
      "paint.Draw".toList ++ ("Horizontal".toList ++ "Line(".toList) := rfl
  have vertical : "paint.DrawVerticalLine(".toList =
      "paint.Draw".toList ++ ("Vertical".toList ++ "Line(".toList) := rfl
  unfold lineCall lineFields axisWord Pass.extent
  cases axis <;>
    simp only [List.flatMap_cons, List.flatMap_nil, Field.chars, Field.filled, String.toList_append,
      empty, horizontal, vertical, List.append_assoc, List.append_nil, List.nil_append]

theorem ends_lineFields (axis : Axis) (r : Rect) : ∀ f ∈ lineFields axis r, f.Ends := by
  have comma (n : Int) : ',' ∉ n.repr.toList := not_mem_repr (by decide) (by decide) n
  have word : 'L' ∉ (axisWord axis).toList := by cases axis <;> decide
  simp only [lineFields, List.forall_mem_cons, List.not_mem_nil, false_implies, implies_true,
    and_true]
  exact ⟨.filled rfl List.not_mem_nil, .filled rfl word, .filled rfl (comma _),
    .filled rfl (comma _), .filled rfl (comma _)⟩

theorem axisWord_inj {axis axis' : Axis} : axisWord axis = axisWord axis' ↔ axis = axis' := by
  cases axis <;> cases axis' <;> decide

/-- **The call of a rule is read off the front of a stream**, and it gives the axis, the place and
the length along the axis. -/
theorem lineCall_append_inj {axis axis' : Axis} {r r' : Rect} {x y : List Char}
    (h : (lineCall axis r).toList ++ x = (lineCall axis' r').toList ++ y) :
    (axis = axis' ∧ r.x = r'.x ∧ r.y = r'.y ∧ Pass.extent axis r = Pass.extent axis' r') ∧
      x = y := by
  have template :
      (lineFields axis r).map Field.behind = (lineFields axis' r').map Field.behind := by
    simp only [lineFields, Field.filled, List.map_cons, List.map_nil]
  rw [toList_lineCall, toList_lineCall] at h
  obtain ⟨values, left⟩ := fields_append_inj template (ends_lineFields axis r)
    (ends_lineFields axis' r') h
  simp only [lineFields, Field.filled, List.map_cons, List.map_nil, List.cons.injEq, true_and,
    and_true, String.toList_inj, axisWord_inj, repr_inj] at values
  exact ⟨values, left⟩

end DrawCode

/-! ## The streams -/

/-- What the dynamic stream shows of a tile: all of it but the font size that its author asked
for. -/
def Tile.drawn (t : Tile) : String × Option String × Option Int × Option Rect × Option Offset :=
  (t.text.content, t.text.format, t.text.resolvedFontSize, t.rect, t.text.offset)

namespace DrawCode

/-- What the static stream shows of a rule: its axis, where it begins and how long it is. -/
def drawnRule (rule : Axis × Option Rect) : Axis × Option (Int × Int × Int) :=
  (rule.1, rule.2.map fun r => (r.x, r.y, Pass.extent rule.1 r))

/-- The block of a tile, if the tile has its place. -/
def tileChars (options : Options) (t : Tile) : List Char :=
  (block t.text (t.rect.getD default) (t.text.offset.getD default) options).toList

/-- The call of a rule, if the rule has its place. -/
def ruleChars (rule : Axis × Option Rect) : List Char :=
  (lineCall rule.1 (rule.2.getD default)).toList

theorem toList_of_drawCall {options : Options} {t : Tile} {text : String}
    (h : drawCall options t = .ok text) : text.toList = tileChars options t := by
  obtain ⟨⟨r, offset⟩, hplaced, h⟩ := bind_eq_ok.mp h
  obtain ⟨hr, hoffset⟩ := Artifact.requirePlaced_eq_ok.mp hplaced
  rw [tileChars, hr, hoffset, ← Except.ok.inj h]
  rfl

theorem toList_of_ruleCall {rule : Axis × Option Rect} {text : String}
    (h : ruleCall rule = .ok text) : text.toList = ruleChars rule := by
  obtain ⟨r, hplaced, h⟩ := bind_eq_ok.mp h
  rw [ruleChars, Artifact.requireRect_eq_ok.mp hplaced, ← Except.ok.inj h]
  rfl

theorem dynamic_toList {root : Node} {options : Options} {s : Streams}
    (h : streams root options = .ok s) :
    s.dynamic.toList = root.tiles.flatMap (tileChars options) := by
  obtain ⟨blocks, hblocks, hs⟩ := dynamic_of_streams h
  rw [hs, toList_join_of_mapM (fun _ _ => toList_of_drawCall) hblocks]

theorem static_toList {root : Node} {options : Options} {s : Streams}
    (h : streams root options = .ok s) : s.static.toList = root.rules.flatMap ruleChars := by
  obtain ⟨calls, hcalls, hs⟩ := static_of_streams h
  rw [hs, toList_join_of_mapM (fun _ _ => toList_of_ruleCall) hcalls]

theorem tileChars_ne_nil (options : Options) (t : Tile) : tileChars options t ≠ [] := by
  rw [tileChars, toList_block]
  exact List.cons_ne_nil _ _

theorem ruleChars_ne_nil (rule : Axis × Option Rect) : ruleChars rule ≠ [] := by
  rw [ruleChars, toList_lineCall]
  exact List.cons_ne_nil _ _

/-- The block of a tile shows all that there is to tell, and tells it. -/
theorem tileChars_append_inj {options : Options} {t u : Tile} (ht : t.isResolved = true)
    (hu : u.isResolved = true) {x y : List Char}
    (h : tileChars options t ++ x = tileChars options u ++ y) : t.drawn = u.drawn ∧ x = y := by
  obtain ⟨⟨r, offset⟩, hplaced⟩ := Artifact.exists_requirePlaced ht
  obtain ⟨⟨r', offset'⟩, hplaced'⟩ := Artifact.exists_requirePlaced hu
  obtain ⟨hr, hoffset⟩ := Artifact.requirePlaced_eq_ok.mp hplaced
  obtain ⟨hr', hoffset'⟩ := Artifact.requirePlaced_eq_ok.mp hplaced'
  obtain ⟨⟨content, format, size, rect, offset⟩, left⟩ := block_append_inj h
  rw [hr, hr', Option.getD_some, Option.getD_some] at rect
  rw [hoffset, hoffset', Option.getD_some, Option.getD_some] at offset
  refine ⟨?_, left⟩
  rw [Tile.drawn, Tile.drawn, content, format, size, hr, hr', hoffset, hoffset', rect, offset]

theorem tileChars_of_drawn (options : Options) {t u : Tile} (h : t.drawn = u.drawn) :
    tileChars options t = tileChars options u := by
  simp only [Tile.drawn, Prod.mk.injEq] at h
  obtain ⟨content, format, size, rect, offset⟩ := h
  have statement : printStatement t.text = printStatement u.text := by
    rw [printStatement, printStatement, content, format]
  unfold tileChars block
  rw [content, statement, size, rect, offset]

theorem ruleChars_append_inj {rule rule' : Axis × Option Rect} (h : rule.2.isSome = true)
    (h' : rule'.2.isSome = true) {x y : List Char}
    (heq : ruleChars rule ++ x = ruleChars rule' ++ y) :
    drawnRule rule = drawnRule rule' ∧ x = y := by
  obtain ⟨r, hr⟩ := Option.isSome_iff_exists.mp h
  obtain ⟨r', hr'⟩ := Option.isSome_iff_exists.mp h'
  rw [ruleChars, ruleChars, hr, hr'] at heq
  obtain ⟨⟨axis, atX, atY, length⟩, left⟩ := lineCall_append_inj heq
  simp only [Option.getD_some] at atX atY length
  refine ⟨?_, left⟩
  rw [drawnRule, drawnRule, hr, hr', Option.map_some, Option.map_some, atX, atY, length, axis]

theorem ruleChars_of_drawn {rule rule' : Axis × Option Rect}
    (h : drawnRule rule = drawnRule rule') : ruleChars rule = ruleChars rule' := by
  obtain ⟨axis, r⟩ := rule
  obtain ⟨axis', r'⟩ := rule'
  simp only [drawnRule, Prod.mk.injEq] at h
  obtain ⟨rfl, places⟩ := h
  cases r with
  | none =>
    cases r' with
    | none => rfl
    | some r' => cases places
  | some r =>
    cases r' with
    | none => cases places
    | some r' =>
      simp only [Option.map_some, Option.some.injEq, Prod.mk.injEq] at places
      obtain ⟨atX, atY, length⟩ := places
      simp only [ruleChars, Option.getD_some, toList_lineCall, lineFields, atX, atY, length]

variable {a b : Node}

/-- **The streams lose nothing of what they show**: of two trees that lack no geometry, the dynamic
streams are equal exactly if the tiles show the same, one after the other in document order, and the
static streams are equal exactly if the rules are drawn the same. No content and no format joins two
blocks, parts one or passes for another. -/
theorem streams_lossless (ha : ∀ n ∈ a.walk, n.isResolved = true)
    (hb : ∀ n ∈ b.walk, n.isResolved = true) (options : Options) :
    ∃ s s', streams a options = .ok s ∧ streams b options = .ok s' ∧
      (s.dynamic = s'.dynamic ↔ a.tiles.map Tile.drawn = b.tiles.map Tile.drawn) ∧
      (s.static = s'.static ↔ a.rules.map drawnRule = b.rules.map drawnRule) := by
  obtain ⟨s, hs⟩ := Node.exists_streams ha options
  obtain ⟨s', hs'⟩ := Node.exists_streams hb options
  refine ⟨s, s', hs, hs', ?_, ?_⟩
  · rw [← String.toList_inj, dynamic_toList hs, dynamic_toList hs']
    apply flatMap_eq_iff_map_eq (tileChars_ne_nil options) fun t u => tileChars_of_drawn options
    intro t ht u hu x y
    exact tileChars_append_inj (Node.isResolved_of_mem_tiles ha ht)
      (Node.isResolved_of_mem_tiles hb hu)
  · rw [← String.toList_inj, static_toList hs, static_toList hs']
    apply flatMap_eq_iff_map_eq ruleChars_ne_nil fun rule rule' => ruleChars_of_drawn
    intro rule hr rule' hr' x y
    exact ruleChars_append_inj (Node.isSome_of_mem_rules ha hr) (Node.isSome_of_mem_rules hb hr')

/-- A tile with its place, of a text in size 8. -/
def placedTile (content : String) (r : Rect) : Node :=
  .tile ⟨⟨content, none, none, some ⟨1, 1⟩, some 8⟩, some r⟩

/-- Two tiles, one above the other, and a rule below them. -/
def twoLabels : Node :=
  .stack .vertical
    [placedTile "A" ⟨0, 0, 90, 10⟩, placedTile "B" ⟨0, 10, 90, 10⟩,
      .separator .horizontal (some ⟨4, 20, 82, 1⟩)] none

/-- One tile whose text spells the code between the texts of `twoLabels`, and the same rule. -/
def imitation : Node :=
  .stack .vertical
    [placedTile ("A\");\n        paint.DrawStringAt(1, 1, message, &Font8, COLORED);\n    \x7d,\n" ++
        "    \x7b1, 1, 89, 9\x7d);\n\n// B") ⟨0, 0, 90, 20⟩,
      .separator .horizontal (some ⟨4, 20, 82, 1⟩)] none

/-- A text that spells the code of two tiles is still drawn as one. -/
theorem streams_lossless_imitation :
    ∃ s s', streams imitation defaultOptions = .ok s ∧ streams twoLabels defaultOptions = .ok s' ∧
      s.dynamic ≠ s'.dynamic ∧ s.static = s'.static := by
  obtain ⟨s, s', hs, hs', dynamic, static⟩ := streams_lossless
    (show ∀ n ∈ imitation.walk, n.isResolved = true by decide +kernel)
    (show ∀ n ∈ twoLabels.walk, n.isResolved = true by decide +kernel) defaultOptions
  refine ⟨s, s', hs, hs', ?_, static.mpr (by decide +kernel)⟩
  intro same
  exact absurd (congrArg List.length (dynamic.mp same)) (by decide +kernel)

end DrawCode

end PixelLayout
