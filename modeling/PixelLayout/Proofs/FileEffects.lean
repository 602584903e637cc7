import PixelLayout.Files.Tree

/-!
# What an operation on files changes

Both operations on a file tree put one entry at one place (`makeDirectory_eq_ok`, `write_eq_ok`). A
path without a part of two dots leads to the place that it spells (`placeFor_eq_some`), so the place
is known before the operation is.

Making a directory with all directories around it may be refused half-way. Wherever it stops, each
place is as it was, or else the directory goes through it, nothing was there, and a directory is
there now. `FileTree.Kept` says this of one place. It holds step by step, since a chain of such
changes is one (`Kept.trans`).
-/

namespace PixelLayout.FileTree

/-- The place is as it was, or it became a directory on the way to a directory that was made. -/
def Kept (directory : RelativePath) (before after : FileTree) (place : RelativePath) : Prop :=
  after.entry? place = before.entry? place ∨
    (place <+: directory ∧ before.entry? place = none ∧ after.entry? place = some .directory)

variable {files files' : FileTree} {place other here : RelativePath} {entry : FileEntry}

/-! ## Putting an entry -/

theorem entry?_put_self (files : FileTree) (h : place ≠ []) (entry : FileEntry) :
    entry? (files.put place entry) place = some entry := by
  unfold put entry?
  rw [if_neg h]
  by_cases there : (files.entries.any fun e => e.1 == place) = true
  · rw [if_pos there, List.find?_map]
    -- what is found is the entry that took the place of an earlier one
    cases found : files.entries.find?
        ((fun e => e.1 == place) ∘ fun e => if e.1 == place then (place, entry) else e) with
    | none =>
      obtain ⟨e, he, hplace⟩ := List.any_eq_true.mp there
      have := List.find?_eq_none.mp found e he
      simp only [Function.comp_apply, if_pos hplace, beq_self_eq_true, not_true_eq_false] at this
    | some e =>
      have hplace : (e.1 == place) = true := by
        by_cases hplace : (e.1 == place) = true
        · exact hplace
        · have := List.find?_some found
          simp only [Function.comp_apply, if_neg hplace] at this
          exact absurd this hplace
      simp only [Option.map_some, if_pos hplace]
  · have absent : (files.entries.find? fun e => e.1 == place) = none := by
      rw [List.find?_eq_none]
      intro e he hplace
      exact there (List.any_eq_true.mpr ⟨e, he, hplace⟩)
    rw [if_neg there, List.find?_append, absent, Option.none_or]
    simp only [List.find?_cons, beq_self_eq_true, Option.map_some]

theorem entry?_put_ne (files : FileTree) (h : other ≠ place) (entry : FileEntry) :
    entry? (files.put place entry) other = files.entry? other := by
  have apart : (place == other) = false := beq_eq_false_iff_ne.mpr h.symm
  unfold put entry?
  by_cases outermost : other = []
  · rw [if_pos outermost, if_pos outermost]
  · rw [if_neg outermost, if_neg outermost]
    by_cases there : (files.entries.any fun e => e.1 == place) = true
    · rw [if_pos there]
      dsimp only
      induction files.entries with
      | nil => rfl
      | cons e entries ih =>
        rw [List.map_cons, List.find?_cons, List.find?_cons]
        by_cases hplace : (e.1 == place) = true
        · rw [if_pos hplace, apart, beq_iff_eq.mp hplace, apart]
          exact ih
        · rw [if_neg hplace]
          cases e.1 == other with
          | true => rfl
          | false => exact ih
    · rw [if_neg there, List.find?_append, List.find?_cons_of_neg (by rw [apart]; decide),
        List.find?_nil, Option.or_none]

/-! ## Places -/

/-- Parts without two dots lead where they spell. -/
theorem enterAll_eq_ok {parts : List String} (dots : ".." ∉ parts)
    (h : files.enterAll here parts = .ok place) : place = here ++ parts := by
  induction parts generalizing here with
  | nil =>
    rw [enterAll, Except.ok.injEq] at h
    rw [List.append_nil, h]
  | cons part parts ih =>
    rw [List.mem_cons, not_or] at dots
    have next : ∀ {next}, files.enter here part = .ok next → next = here ++ [part] := by
      intro next hnext
      unfold enter at hnext
      rw [if_neg (Ne.symm dots.1)] at hnext
      split at hnext
      · cases hnext
      · split at hnext
        · cases hnext
        · cases hnext
          rfl
    rw [enterAll] at h
    cases hnext : files.enter here part with
    | error cause =>
      rw [hnext] at h
      cases h
    | ok there =>
      rw [hnext] at h
      dsimp only at h
      split at h
      · rw [ih dots.2 h, next hnext, List.append_assoc]
        rfl
      · cases h

/-- A path without two dots leads to the place that it spells. -/
theorem placeFor_eq_some {path : RelativePath} (dots : ".." ∉ path)
    (h : files.placeFor path = .ok (some place)) : place = path ∧ path ≠ [] := by
  unfold placeFor at h
  split at h
  · cases h
  · cases hlast : path.getLast? with
    | none =>
      rw [hlast] at h
      cases h
    | some name =>
      obtain ⟨front, rfl⟩ := List.getLast?_eq_some_iff.mp hlast
      rw [hlast, List.dropLast_concat] at h
      rw [List.mem_append, not_or] at dots
      dsimp only at h
      cases hfront : files.enterAll [] front with
      | error cause =>
        rw [hfront] at h
        cases h
      | ok around =>
        rw [hfront] at h
        dsimp only at h
        split at h
        · cases h
        · split at h
          · cases h
          · cases h
            rw [enterAll_eq_ok dots.1 hfront]
            exact ⟨rfl, List.append_ne_nil_of_right_ne_nil _ (List.cons_ne_nil _ _)⟩

/-! ## One operation -/

/-- A directory is made where nothing was. -/
theorem makeDirectory_eq_ok {path : RelativePath} (dots : ".." ∉ path)
    (h : files.makeDirectory path = .ok files') :
    path ≠ [] ∧ files.entry? path = none ∧ files' = files.put path .directory := by
  unfold makeDirectory at h
  split at h
  · cases h
  · cases h
  · next place hplace =>
    obtain ⟨rfl, outer⟩ := placeFor_eq_some dots hplace
    split at h
    · cases h
    · next empty =>
      cases h
      exact ⟨outer, empty, rfl⟩

/-- A text is written where no directory is. -/
theorem write_eq_ok {path : RelativePath} {content : String} (dots : ".." ∉ path)
    (h : files.write path content = .ok files') :
    path ≠ [] ∧ files.entry? path ≠ some .directory ∧ files' = files.put path (.text content) := by
  unfold write at h
  split at h
  · cases h
  · cases h
  · next place hplace =>
    obtain ⟨rfl, outer⟩ := placeFor_eq_some dots hplace
    split at h
    · cases h
    · next free =>
      cases h
      exact ⟨outer, free, rfl⟩

/-! ## Making a directory and all around it -/

theorem Kept.refl (directory : RelativePath) (files : FileTree) (place : RelativePath) :
    Kept directory files files place := .inl rfl

theorem Kept.trans {directory : RelativePath} {first second third : FileTree}
    (h : Kept directory first second place) (h' : Kept directory second third place) :
    Kept directory first third place := by
  rcases h with same | ⟨through, empty, made⟩
  · rcases h' with same' | ⟨through, empty, made⟩
    · exact .inl (same'.trans same)
    · exact .inr ⟨through, same ▸ empty, made⟩
  · rcases h' with same' | ⟨_, empty', _⟩
    · exact .inr ⟨through, empty, same'.trans made⟩
    · rw [made] at empty'
      cases empty'

theorem Kept.mono {around directory : RelativePath} {before after : FileTree}
    (h : Kept around before after place) (inside : around <+: directory) :
    Kept directory before after place :=
  h.imp_right fun ⟨through, made⟩ => ⟨through.trans inside, made⟩

/-- A place that the directory does not go through is as it was. -/
theorem Kept.entry?_eq {directory : RelativePath} {before after : FileTree}
    (h : Kept directory before after place) (apart : ¬ place <+: directory) :
    after.entry? place = before.entry? place :=
  h.resolve_right fun made => apart made.1

/-- A text is as it was. -/
theorem Kept.text {directory : RelativePath} {before after : FileTree} {content : String}
    (h : Kept directory before after place) (there : before.entry? place = some (.text content)) :
    after.entry? place = some (.text content) := by
  rcases h with same | ⟨_, empty, _⟩
  · exact same.trans there
  · rw [there] at empty
    cases empty

theorem kept_makeDirectory {path : RelativePath} (dots : ".." ∉ path)
    (h : files.makeDirectory path = .ok files') (place : RelativePath) :
    Kept path files files' place := by
  obtain ⟨outer, empty, rfl⟩ := makeDirectory_eq_ok dots h
  by_cases here : place = path
  · subst here
    exact .inr ⟨List.prefix_rfl, empty, entry?_put_self files outer .directory⟩
  · exact .inl (entry?_put_ne files here .directory)

/-- By induction on the parts, from the inside out: if the directory around is not there, it is made
first, with all around it. -/
theorem kept_ensureInsideOut (files : FileTree) {parts : List String} (dots : ".." ∉ parts)
    (place : RelativePath) :
    Kept parts.reverse files (files.ensureInsideOut parts).1 place := by
  induction parts with
  | nil => exact .refl _ files place
  | cons part around ih =>
    have plain : ".." ∉ (part :: around).reverse := mt List.mem_reverse.mp dots
    have inside : around.reverse <+: (part :: around).reverse := by
      rw [List.reverse_cons]
      exact List.prefix_append _ _
    have outer := (ih fun hmem => dots (List.mem_cons_of_mem part hmem)).mono inside
    -- a directory that is there already and a refusal change nothing
    have same : ∀ (files : FileTree) (fault : FileFault),
        (if files.isDirectory (part :: around).reverse then (files, none)
          else (files, some fault)).1 = files := by
      intro files fault
      split <;> rfl
    unfold ensureInsideOut
    dsimp only
    cases hmake : files.makeDirectory (part :: around).reverse with
    | ok made => exact kept_makeDirectory plain hmake place
    | error cause =>
      cases cause with
      | notFound =>
        dsimp only
        cases haround : files.ensureInsideOut around with
        | mk between fault =>
          rw [haround] at outer
          cases fault with
          | some fault => exact outer
          | none =>
            dsimp only
            cases hagain : between.makeDirectory (part :: around).reverse with
            | ok made => exact outer.trans (kept_makeDirectory plain hagain place)
            | error cause =>
              dsimp only
              rw [same]
              exact outer
      | _ =>
        dsimp only
        rw [same]
        exact .refl _ files place

/-- **Making a directory changes nothing but that.** -/
theorem kept_ensureDirectory (files : FileTree) {directory : RelativePath} (dots : ".." ∉ directory)
    (place : RelativePath) : Kept directory files (files.ensureDirectory directory).1 place := by
  have kept := kept_ensureInsideOut files (mt List.mem_reverse.mp dots) place
  rw [List.reverse_reverse] at kept
  exact kept

end PixelLayout.FileTree
