import PixelLayout.Text.Literal

/-!
# Literals are read back

Each of the four escaped characters becomes a backslash and a character of its own, and no other
character becomes anything that begins with a backslash. So a literal is read back from the left
(`unescape_escape`). It is also one row of its document: it holds no line feed and no carriage
return (`lineBreak_not_mem_escapeChars`).
-/

namespace PixelLayout.Text.Literal

/-- The character has an escape of its own. -/
def Special (c : Char) : Prop := c = '\\' ∨ c = '"' ∨ c = '\n' ∨ c = '\r'

instance (c : Char) : Decidable (Special c) :=
  inferInstanceAs (Decidable (c = '\\' ∨ c = '"' ∨ c = '\n' ∨ c = '\r'))

theorem escapeChar_of_not_special {c : Char} (h : ¬ Special c) : escapeChar c = [c] := by
  unfold escapeChar
  split
  · exact absurd (.inl rfl) h
  · exact absurd (.inr (.inl rfl)) h
  · exact absurd (.inr (.inr (.inl rfl))) h
  · exact absurd (.inr (.inr (.inr rfl))) h
  · rfl

theorem unescapeChars_cons_of_not_special {c : Char} (h : ¬ Special c) (cs : List Char) :
    unescapeChars (c :: cs) = (unescapeChars cs).map (c :: ·) := by
  rw [unescapeChars]
  · exact if_neg h
  all_goals
    rintro _ rfl
    exact absurd (.inl rfl) h

theorem unescapeChars_escapeChars (cs : List Char) : unescapeChars (escapeChars cs) = some cs := by
  unfold escapeChars
  induction cs with
  | nil => rfl
  | cons c cs ih =>
    rw [List.flatMap_cons]
    by_cases h : Special c
    · rcases h with rfl | rfl | rfl | rfl <;>
        simp only [escapeChar, List.cons_append, List.nil_append, unescapeChars, ih, Option.map_some]
    · rw [escapeChar_of_not_special h, List.singleton_append, unescapeChars_cons_of_not_special h,
        ih, Option.map_some]

/-- **A literal spells the text that it was made of.** -/
theorem unescape_escape (text : String) : unescape (escape text) = some text := by
  rw [unescape, escape, String.toList_ofList, unescapeChars_escapeChars, Option.map_some,
    String.ofList_toList]

/-- Two texts with one literal are one text. -/
theorem escape_inj {a b : String} : escape a = escape b ↔ a = b := by
  refine ⟨?_, fun h => h ▸ rfl⟩
  intro h
  apply Option.some.inj
  rw [← unescape_escape a, h, unescape_escape]

/-- A literal holds the characters of its text that are not escaped, backslashes, quotes and the
letters behind them. -/
theorem mem_escapeChars {c : Char} {cs : List Char} (h : c ∈ escapeChars cs) :
    c ∈ ['\\', '"', 'n', 'r'] ∨ (c ∈ cs ∧ ¬ Special c) := by
  obtain ⟨d, hd, hc⟩ := List.mem_flatMap.mp h
  by_cases special : Special d
  · left
    rcases special with rfl | rfl | rfl | rfl <;>
      simp only [escapeChar, List.mem_cons, List.not_mem_nil, or_false] at hc <;>
      rcases hc with rfl | rfl <;> decide
  · rw [escapeChar_of_not_special special, List.mem_singleton] at hc
    exact .inr (hc ▸ ⟨hd, special⟩)

theorem lineBreak_not_mem_escapeChars {c : Char} (lineBreak : c = '\n' ∨ c = '\r')
    (cs : List Char) : c ∉ escapeChars cs := by
  intro h
  rcases mem_escapeChars h with h | h
  · rcases lineBreak with rfl | rfl <;> revert h <;> decide
  · exact h.2 (.inr (.inr lineBreak))

theorem lineFeed_not_mem_escape (text : String) : '\n' ∉ (escape text).toList := by
  rw [escape, String.toList_ofList]
  exact lineBreak_not_mem_escapeChars (.inl rfl) text.toList

/-- A character that is not escaped parts the literal as it parts the text. -/
theorem escapeChars_append_cons {c : Char} (h : ¬ Special c) (a b : List Char) :
    escapeChars (a ++ c :: b) = escapeChars a ++ c :: escapeChars b := by
  rw [escapeChars, List.flatMap_append, List.flatMap_cons, escapeChar_of_not_special h]
  rfl

end PixelLayout.Text.Literal
