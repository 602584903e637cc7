import PixelLayout.Proofs.Literal

/-!
# Escaping by replacements one after another

`String.replace` searches a whole text for a character and puts a word in the place of each one that
it finds. What stands between two of them holds none (`not_mem_of_not_matchesAt`), so a replacement
does to each character what it does to any other (`toList_replace`).

Replacements one after another search what the earlier ones have put in. The escape of a literal can
be done in this way, with the backslash first (`escapeInTurn`): the later ones then put in
backslashes that nothing searches for any more, and none puts in a character that a later one
searches for. **So four replacements are one pass over the characters** (`escapeInTurn_eq_escape`).
-/

namespace PixelLayout.Text

open String.Slice.Pattern String.Slice.Pattern.Model

/-- The characters with a word in the place of each `old`. -/
def substitute (old : Char) (word cs : List Char) : List Char :=
  cs.flatMap fun c => if c = old then word else [c]

theorem substitute_append (old : Char) (word a b : List Char) :
    substitute old word (a ++ b) = substitute old word a ++ substitute old word b :=
  List.flatMap_append

theorem substitute_of_not_mem {old : Char} {cs : List Char} (h : old ∉ cs) (word : List Char) :
    substitute old word cs = cs := by
  unfold substitute
  induction cs with
  | nil => rfl
  | cons c cs ih =>
    obtain ⟨hc, hcs⟩ := not_or.mp (mt List.mem_cons.mpr h)
    rw [List.flatMap_cons, if_neg (Ne.symm hc), ih hcs, List.singleton_append]

/-! ## What a search leaves out -/

/-- Between two positions where a search for a character finds nothing, there is none. -/
theorem not_mem_of_not_matchesAt {s : String.Slice} {old : Char} {start stop : s.Pos}
    (h : start ≤ stop) (unmatched : ∀ pos, start ≤ pos → pos < stop → ¬ MatchesAt old pos) :
    old ∉ (s.slice start stop h).copy.toList := by
  obtain ⟨before, behind, hstart, hstop⟩ := String.Slice.copy_slice_eq_iff_splits.mp ⟨h, rfl⟩
  generalize (s.slice start stop h).copy = part at hstart hstop ⊢
  intro hold
  obtain ⟨a, b, hab⟩ := List.append_of_mem hold
  have hpart : part = String.ofList a ++ (String.singleton old ++ String.ofList b) := by
    rw [← String.toList_inj, hab]
    simp only [String.toList_append, String.toList_ofList, String.toList_singleton,
      List.singleton_append]
  subst hpart
  -- the position right before the character is one of those that were searched
  have whole : s.copy =
      before ++ String.ofList a ++ (String.singleton old ++ (String.ofList b ++ behind)) := by
    rw [hstart.eq_append]
    simp only [String.append_assoc]
  have here := String.Slice.Pos.splits_ofEqAppend whole
  refine unmatched _ ?_ ?_ (Char.matchesAt_iff_splits.mpr ⟨_, _, here⟩)
  · rw [hstart.le_iff_exists_eq_append here]
    exact ⟨String.ofList a, rfl, by simp only [String.append_assoc]⟩
  · rw [here.lt_iff_exists_eq_append hstop]
    refine ⟨String.singleton old ++ String.ofList b, ?_, by simp only [String.append_assoc],
      by simp only [String.append_assoc]⟩
    intro empty
    have length := congrArg String.length empty
    simp only [String.length_append, String.length_singleton, String.length_empty] at length
    omega

/-! ## One replacement -/

/-- What a replacement adds to its result at one step of its search. -/
def replaceStep (s : String.Slice) (word : String) (sofar : String) : SearchStep s → String
  | .matched .. => sofar ++ word.toSlice
  | .rejected start stop => sofar ++ s.slice! start stop

/-- The steps of a search from a position on replace all that stands behind it. By induction on the
steps: each is a match, or a part without one. -/
theorem toList_foldl_replaceStep {s : String.Slice} {old : Char} (word : String) {pos : s.Pos}
    {steps : List (SearchStep s)} (h : IsValidSearchFrom old pos steps) {before behind : String}
    (hpos : pos.Splits before behind) (sofar : String) :
    (steps.foldl (replaceStep s word) sofar).toList =
      sofar.toList ++ substitute old word.toList behind.toList := by
  induction h generalizing before behind sofar with
  | endPos =>
    rw [hpos.eq_right s.splits_endPos]
    exact (List.append_nil _).symm
  | matched found rest ih =>
    obtain ⟨more, rfl, hget⟩ := Char.isLongestMatchAt_iff.mp found
    obtain ⟨behind, rfl⟩ := hpos.exists_eq_singleton_append more
    rw [List.foldl_cons, ih hpos.next, String.toList_append, substitute_append, hget,
      String.toList_singleton, ← List.append_assoc]
    simp only [replaceStep, substitute, String.appendSlice_eq, String.copy_toSlice,
      String.toList_append, List.flatMap_singleton, if_pos]
  | mismatched further unmatched rest ih =>
    have ordered := Std.le_of_lt further
    obtain ⟨a, b, hstart, hstop⟩ := String.Slice.copy_slice_eq_iff_splits.mp ⟨ordered, rfl⟩
    have nothing := substitute_of_not_mem (not_mem_of_not_matchesAt ordered unmatched) word.toList
    rw [List.foldl_cons, ih hstop, hpos.eq_right hstart, String.toList_append, substitute_append,
      nothing, ← List.append_assoc]
    simp only [replaceStep, ← String.Slice.slice_eq_slice! (h := ordered), String.appendSlice_eq,
      String.toList_append]

/-- **A replacement puts the word in the place of each character that it searches for.** -/
theorem toList_replace (text : String) (old : Char) (word : String) :
    (text.replace old word).toList = substitute old word.toList text.toList := by
  have search : IsValidSearchFrom old text.toSlice.startPos
      (ToForwardSearcher.toSearcher old text.toSlice).toList :=
    LawfulToForwardSearcherModel.isValidSearchFrom_toList text.toSlice
  have replaced := toList_foldl_replaceStep word search text.toSlice.splits_startPos ""
  have fold : text.replace old word = Std.Iter.fold (replaceStep text.toSlice word) ""
      (ToForwardSearcher.toSearcher old text.toSlice) := by
    unfold String.replace String.Slice.replace
    congr 1
    funext sofar step
    cases step <;> rfl
  rw [Std.Iter.foldl_toList, ← fold, String.copy_toSlice] at replaced
  exact replaced

/-! ## Four replacements -/

namespace Literal

/-- The inside of a literal that spells `text`, by four replacements one after another. -/
def escapeInTurn (text : String) : String :=
  (((text.replace '\\' "\\\\").replace '"' "\\\"").replace '\n' "\\n").replace '\r' "\\r"

/-- **Four replacements escape each character once.** -/
theorem escapeInTurn_eq_escape (text : String) : escapeInTurn text = escape text := by
  rw [← String.toList_inj, escape, String.toList_ofList, escapeChars]
  simp only [escapeInTurn, toList_replace, substitute, List.flatMap_assoc]
  congr 1
  funext c
  by_cases special : Special c
  · rcases special with rfl | rfl | rfl | rfl <;> rfl
  · rw [escapeChar_of_not_special special]
    simp only [Special, not_or] at special
    simp only [if_neg special.1, if_neg special.2.1, if_neg special.2.2.1, if_neg special.2.2.2,
      List.flatMap_singleton]

end Literal

end PixelLayout.Text
