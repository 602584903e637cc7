import PixelLayout.Text.Lines

/-!
# What a margin does to a text

A text is cut at every line boundary, and each line that is not blank gets a margin. So the row of a
text that ends at a line feed is indented on its own (`indentChars_ended`), and a row without a
boundary gets one margin in front (`indentChars_of_not_boundary`).

A row can hold boundaries that are no line feeds. Then each of its lines gets a margin, and the
margins can be counted (`length_indentChars`): a row with a boundary between two characters that are
not blank grows by two margins at least (`indentChars_ne_append`).
-/

namespace PixelLayout.Text

/-! ## The lines of a text -/

theorem not_boundary_of_all {cs : List Char} (h : cs.all (!isLineBoundary ·) = true) :
    ∀ c ∈ cs, isLineBoundary c = false := by
  intro c hc
  exact (Bool.not_eq_true' _).mp (List.all_eq_true.mp h c hc)

theorem splitLines_cons_of_boundary {c : Char} {cs : List Char} (h : isLineBoundary c = true)
    (hcrlf : ∀ rest, c = '\r' → cs ≠ '\n' :: rest) :
    splitLines (c :: cs) = [c] :: splitLines cs := by
  rw [splitLines, if_pos h]
  exact hcrlf

theorem splitLines_cons_of_not_boundary {c : Char} (h : isLineBoundary c = false) (cs : List Char) :
    splitLines (c :: cs) = (c :: (splitLines cs).headD []) :: (splitLines cs).tail := by
  have hcr : c ≠ '\r' := by
    rintro rfl
    cases h
  rw [splitLines, if_neg (by rw [h]; exact Bool.false_ne_true)]
  · cases splitLines cs <;> rfl
  · exact fun _ hc _ => hcr hc

/-- The lines put together are the text again. -/
theorem flatten_splitLines (cs : List Char) : (splitLines cs).flatten = cs := by
  fun_induction splitLines cs <;> simp_all

theorem splitLines_ne_nil {cs : List Char} (h : cs ≠ []) : splitLines cs ≠ [] := by
  intro hnil
  have := flatten_splitLines cs
  rw [hnil] at this
  exact h this.symm

/-- Characters that are no boundaries stand in front of the first line of what follows them. -/
theorem splitLines_append_of_not_boundary {a : List Char} (ha : a ≠ [])
    (h : ∀ c ∈ a, isLineBoundary c = false) (b : List Char) :
    splitLines (a ++ b) = (a ++ (splitLines b).headD []) :: (splitLines b).tail := by
  induction a with
  | nil => exact absurd rfl ha
  | cons c a ih =>
    obtain ⟨hc, ha'⟩ := List.forall_mem_cons.mp h
    rw [List.cons_append, splitLines_cons_of_not_boundary hc]
    by_cases hnil : a = []
    · rw [hnil, List.nil_append, List.singleton_append]
    · rw [ih hnil ha', List.headD_cons, List.tail_cons, List.cons_append]

/-- A text is cut behind each of its boundaries. A carriage return is cut off with what follows. -/
theorem splitLines_append_boundary {c : Char} (hc : isLineBoundary c = true) (hcr : c ≠ '\r')
    (a b : List Char) : splitLines (a ++ c :: b) = splitLines (a ++ [c]) ++ splitLines b := by
  have alone (b : List Char) : splitLines (c :: b) = [c] :: splitLines b :=
    splitLines_cons_of_boundary hc fun _ h => absurd h hcr
  induction a using splitLines.induct with
  | case1 => rw [List.nil_append, List.nil_append, alone, alone]; rfl
  | case2 rest ih =>
    simp only [List.cons_append, splitLines, ih]
  | case3 x rest hrest hx ih =>
    by_cases crlf : x = '\r' ∧ rest = [] ∧ c = '\n'
    · obtain ⟨rfl, rfl, rfl⟩ := crlf
      rfl
    · have apart (b : List Char) (r : List Char) (hxr : x = '\r') : rest ++ c :: b ≠ '\n' :: r := by
        cases rest with
        | nil => exact fun h => crlf ⟨hxr, rfl, (List.cons.inj h).1⟩
        | cons y ys => exact fun h => hrest ys hxr (by rw [(List.cons.inj h).1])
      rw [List.cons_append, List.cons_append, splitLines_cons_of_boundary hx (apart b),
        splitLines_cons_of_boundary hx (apart []), ih, List.cons_append]
  | case4 x rest _ hx _ ih | case5 x rest _ hx _ _ _ ih =>
    have hx := Bool.not_eq_true _ ▸ hx
    obtain ⟨line, lines, hlines⟩ :=
      List.exists_cons_of_ne_nil (splitLines_ne_nil (List.append_ne_nil_of_right_ne_nil rest
        (List.cons_ne_nil c [])))
    rw [List.cons_append, List.cons_append, splitLines_cons_of_not_boundary hx,
      splitLines_cons_of_not_boundary hx, ih, hlines]
    rfl

/-- A line feed at the end of a text ends its last line, or is a line. -/
theorem splitLines_append_lineFeed (cs : List Char) :
    splitLines (cs ++ ['\n']) = splitLines cs ++ [['\n']] ∨
      ∃ lines last, splitLines cs = lines ++ [last] ∧
        splitLines (cs ++ ['\n']) = lines ++ [last ++ ['\n']] := by
  induction cs using splitLines.induct with
  | case1 => exact .inl rfl
  | case2 rest ih =>
    simp only [List.cons_append, splitLines]
    rcases ih with ih | ⟨lines, last, hcs, ih⟩
    · exact .inl (by rw [ih])
    · exact .inr ⟨_ :: lines, last, by rw [hcs]; rfl, by rw [ih]; rfl⟩
  | case3 x rest hrest hx ih =>
    by_cases cr : x = '\r' ∧ rest = []
    · obtain ⟨rfl, rfl⟩ := cr
      exact .inr ⟨[], ['\r'], rfl, rfl⟩
    · have apart (r : List Char) (hxr : x = '\r') : rest ++ ['\n'] ≠ '\n' :: r := by
        cases rest with
        | nil => exact fun _ => cr ⟨hxr, rfl⟩
        | cons y ys => exact fun h => hrest ys hxr (by rw [(List.cons.inj h).1])
      rw [List.cons_append, splitLines_cons_of_boundary hx apart,
        splitLines_cons_of_boundary hx hrest]
      rcases ih with ih | ⟨lines, last, hcs, ih⟩
      · exact .inl (by rw [ih]; rfl)
      · exact .inr ⟨[x] :: lines, last, by rw [hcs]; rfl, by rw [ih]; rfl⟩
  | case4 x rest _ hx _ ih | case5 x rest _ hx _ _ _ ih =>
    have hx := Bool.not_eq_true _ ▸ hx
    rw [List.cons_append, splitLines_cons_of_not_boundary hx, splitLines_cons_of_not_boundary hx]
    rcases ih with ih | ⟨lines, last, hcs, ih⟩
    · cases hrest : splitLines rest with
      | nil => exact .inr ⟨[], [x], rfl, by rw [ih, hrest]; rfl⟩
      | cons line lines => exact .inl (by rw [ih, hrest]; rfl)
    · rw [hcs, ih]
      cases lines with
      | nil => exact .inr ⟨[], x :: last, rfl, rfl⟩
      | cons line lines => exact .inr ⟨(x :: line) :: lines, last, rfl, rfl⟩

/-! ## Margins -/

variable {margin : List Char}

theorem isBlank_lineFeed : isBlank '\n' = true := by decide

theorem indentLine_append_lineFeed (line : List Char) :
    indentLine margin (line ++ ['\n']) = indentLine margin line ++ ['\n'] := by
  simp only [indentLine, List.all_append, List.all_cons, isBlank_lineFeed, List.all_nil,
    Bool.and_true]
  split
  · rfl
  · rw [List.append_assoc]

/-- A line feed at the end of a text never gets a margin. -/
theorem indentChars_append_lineFeed (cs : List Char) :
    indentChars margin (cs ++ ['\n']) = indentChars margin cs ++ ['\n'] := by
  unfold indentChars
  rcases splitLines_append_lineFeed cs with h | ⟨lines, last, hcs, h⟩
  · rw [h, List.flatMap_append]
    rfl
  · rw [h, hcs, List.flatMap_append, List.flatMap_append, List.append_assoc]
    simp only [List.flatMap_cons, List.flatMap_nil, List.append_nil, indentLine_append_lineFeed]

/-- Rows, each ended by a line feed. -/
def ended (rows : List (List Char)) : List Char := rows.flatMap (· ++ ['\n'])

theorem ended_append (a b : List (List Char)) : ended (a ++ b) = ended a ++ ended b :=
  List.flatMap_append

theorem ended_cons (row : List Char) (rows : List (List Char)) :
    ended (row :: rows) = row ++ '\n' :: ended rows := by
  rw [ended, List.flatMap_cons, List.append_assoc, List.singleton_append, ended]

/-- **Rows that end at line feeds are indented one by one.** -/
theorem indentChars_ended (rows : List (List Char)) :
    indentChars margin (ended rows) = ended (rows.map (indentChars margin)) := by
  induction rows with
  | nil => rfl
  | cons row rows ih =>
    have cut : splitLines (row ++ '\n' :: ended rows) =
        splitLines (row ++ ['\n']) ++ splitLines (ended rows) :=
      splitLines_append_boundary (by decide) (by decide) _ _
    have here : indentChars margin (row ++ '\n' :: ended rows) =
        indentChars margin (row ++ ['\n']) ++ indentChars margin (ended rows) := by
      rw [indentChars, cut, List.flatMap_append, indentChars, indentChars]
    rw [ended_cons, here, indentChars_append_lineFeed, ih, List.map_cons, ended_cons,
      List.append_assoc, List.singleton_append]

/-- What a margin adds to a text is made of the margin. -/
theorem mem_indentChars {c : Char} {cs : List Char} (h : c ∈ indentChars margin cs) :
    c ∈ margin ∨ c ∈ cs := by
  obtain ⟨line, hline, hc⟩ := List.mem_flatMap.mp h
  have below (hc : c ∈ line) : c ∈ cs := by
    rw [← flatten_splitLines cs]
    exact List.mem_flatten.mpr ⟨line, hline, hc⟩
  unfold indentLine at hc
  split at hc
  · exact .inr (below hc)
  · exact (List.mem_append.mp hc).imp_right below

/-- A front without a boundary, not blank, stands behind the margin as it is. -/
theorem indentChars_append {a : List Char} (h : ∀ c ∈ a, isLineBoundary c = false)
    (hb : a.all isBlank = false) (b : List Char) :
    indentChars margin (a ++ b) =
      margin ++ a ++ ((splitLines b).headD [] ++ (splitLines b).tail.flatMap (indentLine margin)) := by
  have ha : a ≠ [] := by
    rintro rfl
    cases hb
  rw [indentChars, splitLines_append_of_not_boundary ha h, List.flatMap_cons, indentLine,
    List.all_append, hb, Bool.false_and, if_neg Bool.false_ne_true]
  simp only [List.append_assoc]

theorem indentChars_of_not_boundary {a : List Char} (h : ∀ c ∈ a, isLineBoundary c = false)
    (hb : a.all isBlank = false) : indentChars margin a = margin ++ a := by
  have whole : indentChars margin (a ++ []) = _ := indentChars_append h hb []
  rwa [List.append_nil, splitLines, List.headD_nil, List.tail_nil, List.flatMap_nil,
    List.append_nil, List.append_nil] at whole

/-- The lines of a text that get a margin. -/
def inkLines (cs : List Char) : Nat := (splitLines cs).countP fun line => !line.all isBlank

theorem length_indentChars (margin cs : List Char) :
    (indentChars margin cs).length = cs.length + margin.length * inkLines cs := by
  have lines (ls : List (List Char)) : (ls.flatMap (indentLine margin)).length =
      ls.flatten.length + margin.length * ls.countP fun line => !line.all isBlank := by
    induction ls with
    | nil => rfl
    | cons line ls ih =>
      rw [List.flatMap_cons, List.length_append, ih, List.flatten_cons, List.length_append,
        List.countP_cons, indentLine]
      cases line.all isBlank with
      | true =>
        simp only [↓reduceIte, Bool.not_true, Bool.false_eq_true, Nat.add_zero]
        omega
      | false =>
        simp only [Bool.false_eq_true, ↓reduceIte, Bool.not_false, List.length_append, Nat.mul_add]
        omega
  rw [indentChars, lines, flatten_splitLines, inkLines]

theorem inkLines_pos {c : Char} {cs : List Char} (hc : c ∈ cs) (hb : isBlank c = false) :
    0 < inkLines cs := by
  rw [← flatten_splitLines cs] at hc
  obtain ⟨line, hline, hc⟩ := List.mem_flatten.mp hc
  refine List.countP_pos_iff.mpr ⟨line, hline, ?_⟩
  rw [Bool.not_eq_true', List.all_eq_false]
  exact ⟨c, hc, by rw [hb]; exact Bool.false_ne_true⟩

theorem inkLines_append_boundary {c : Char} (hc : isLineBoundary c = true) (hcr : c ≠ '\r')
    (a b : List Char) : inkLines (a ++ c :: b) = inkLines (a ++ [c]) + inkLines b := by
  rw [inkLines, splitLines_append_boundary hc hcr, List.countP_append, inkLines, inkLines]

/-- A boundary inside a row tears it apart: more is put in than the margin in front of it. -/
theorem indentChars_ne_append (hm : margin ≠ []) {c : Char} (hc : isLineBoundary c = true)
    (hcr : c ≠ '\r') {a b : List Char} {x y : Char} (hx : x ∈ a) (hxb : isBlank x = false)
    (hy : y ∈ b) (hyb : isBlank y = false) :
    indentChars margin (a ++ c :: b) ≠ margin ++ (a ++ c :: b) := by
  intro h
  have before := inkLines_pos (List.mem_append_left [c] hx) hxb
  have behind := inkLines_pos hy hyb
  have grown := length_indentChars margin (a ++ c :: b)
  rw [h, List.length_append, inkLines_append_boundary hc hcr] at grown
  have two : margin.length * 2 ≤ margin.length * (inkLines (a ++ [c]) + inkLines b) :=
    Nat.mul_le_mul_left _ (by omega)
  have := List.length_pos_iff.mpr hm
  omega

end PixelLayout.Text
