import PixelLayout.Cli.Run
import PixelLayout.Proofs.FileEffects
import PixelLayout.Proofs.Generated

/-!
# What a render command changes

A render command generates the wanted screens one after the other and delivers each, until a screen
is refused or the file system refuses to save it. `effect` is that and nothing else: the files
afterwards, and the fault that ended the command if one did. What a run prints and logs has no part
in it (`renderAll_effect`).

**The law** (`run_touches_own_files`): a run that ends with exit code 0 leaves the two files of each
wanted screen with the screen's documents. A run that stops at a screen leaves the files of the
screens before it so, of that screen at most the preview, and no file of a later screen. All other
places are as they were, but for directories that were missing on the way to the output directory. A
run that prints changes nothing at all.

Saving one screen is one step (`save_cases`). The steps do not get in each other's way because the
screens of the catalogue have different names, each of which is one part of a path
(`plainName_of_screen`).
-/

namespace PixelLayout

/-- The name with either ending is one part of a path, and no two dots. -/
def PlainName (name : String) : Prop :=
  ∀ ending ∈ [".60", ".inc"],
    RelativePath.ofText (name ++ ending) = [name ++ ending] ∧ name ++ ending ≠ ".."

instance : DecidablePred PlainName := fun _ =>
  inferInstanceAs (Decidable (∀ _ ∈ _, _ ∧ _))

/-- Where the preview of a screen is saved. -/
def previewPlace (directory : RelativePath) (name : String) : RelativePath :=
  directory ++ [name ++ ".60"]

/-- Where the draw code of a screen is saved. -/
def codePlace (directory : RelativePath) (name : String) : RelativePath :=
  directory ++ [name ++ ".inc"]

/-- The place is neither of the two where a screen is saved. -/
def Beside (directory : RelativePath) (name : String) (place : RelativePath) : Prop :=
  place ≠ previewPlace directory name ∧ place ≠ codePlace directory name

theorem plainName_of_screen : ∀ s ∈ Catalogue.screens, PlainName s.name := by
  decide +kernel

theorem nodup_screenNames : (Catalogue.screens.map Screen.name).Nodup := by
  decide +kernel

/-! ## Places of screens -/

section Places

variable {directory : RelativePath} {name other : String}

theorem not_through (directory : RelativePath) (part : String) :
    ¬ directory ++ [part] <+: directory := by
  intro h
  have := h.length_le
  rw [List.length_append, List.length_singleton] at this
  omega

theorem codePlace_ne_previewPlace (directory : RelativePath) (name other : String) :
    codePlace directory name ≠ previewPlace directory other := by
  intro h
  have parts := List.append_cancel_left h
  rw [List.cons.injEq, ← String.toList_inj, String.toList_append, String.toList_append] at parts
  -- the last characters differ
  have last := congrArg List.getLast? parts.1
  rw [List.getLast?_append, List.getLast?_append] at last
  cases last

theorem beside_previewPlace (h : name ≠ other) :
    Beside directory other (previewPlace directory name) := by
  refine ⟨?_, (codePlace_ne_previewPlace directory other name).symm⟩
  intro same
  have parts := List.append_cancel_left same
  rw [List.cons.injEq, String.append_left_inj] at parts
  exact h parts.1

theorem beside_codePlace (h : name ≠ other) :
    Beside directory other (codePlace directory name) := by
  refine ⟨codePlace_ne_previewPlace directory name other, ?_⟩
  intro same
  have parts := List.append_cancel_left same
  rw [List.cons.injEq, String.append_left_inj] at parts
  exact h parts.1

end Places

/-! ## Saving one screen -/

namespace Generated

variable {g : Generated} {directory : RelativePath}

/-- No part of the place of a file is two dots. -/
theorem no_dots {name ending : String} (plain : PlainName name) (hending : ending ∈ [".60", ".inc"])
    (dots : ".." ∉ directory) : ".." ∉ directory ++ [name ++ ending] := by
  rw [List.mem_append, not_or, List.mem_singleton]
  exact ⟨dots, (plain ending hending).2.symm⟩

/-- Either the first document is not written and nothing changes, or it stands at its place and the
others are written after it. -/
theorem writeAll_cons {name ending content : String} (plain : PlainName name)
    (hending : ending ∈ [".60", ".inc"]) (dots : ".." ∉ directory) (files : FileTree)
    (rest : List (String × String)) {saved : Saved}
    (h : writeAll name directory files ((ending, content) :: rest) = saved) :
    (saved.fault ≠ none ∧ saved.files = files) ∨
      ∃ later, writeAll name directory (files.put (directory ++ [name ++ ending]) (.text content))
        rest = later ∧ saved.fault = later.fault ∧ saved.files = later.files := by
  rw [writeAll, (plain ending hending).1] at h
  dsimp only at h
  split at h
  · cases h
    exact .inl ⟨nofun, rfl⟩
  · split at h
    · cases h
      exact .inl ⟨nofun, rfl⟩
    · next written hwrite =>
      obtain ⟨_, _, rfl⟩ := FileTree.write_eq_ok (no_dots plain hending dots) hwrite
      cases h
      exact .inr ⟨_, rfl, rfl, rfl⟩

/-- What the files of a screen hold after an attempt to save it: both their documents, or after a
fault what they held before, but for the preview. -/
def LeftBy (g : Generated) (directory : RelativePath) (before : FileTree) (saved : Saved) : Prop :=
  (saved.fault = none ∧
    saved.files.entry? (previewPlace directory g.name) = some (.text g.preview) ∧
    saved.files.entry? (codePlace directory g.name) = some (.text g.drawCode)) ∨
  (saved.fault ≠ none ∧
    (saved.files.entry? (previewPlace directory g.name) =
        before.entry? (previewPlace directory g.name) ∨
      saved.files.entry? (previewPlace directory g.name) = some (.text g.preview)) ∧
    saved.files.entry? (codePlace directory g.name) = before.entry? (codePlace directory g.name))

theorem leftBy_writeAll {saved : Saved} {files : FileTree} (plain : PlainName g.name)
    (dots : ".." ∉ directory) (h : writeAll g.name directory files g.documents = saved) :
    (∀ place, Beside directory g.name place → saved.files.entry? place = files.entry? place) ∧
      LeftBy g directory files saved := by
  have nonempty (part : String) : directory ++ [part] ≠ [] :=
    List.append_ne_nil_of_right_ne_nil _ (List.cons_ne_nil _ _)
  have apart := codePlace_ne_previewPlace directory g.name g.name
  rcases writeAll_cons plain List.mem_cons_self dots files _ h with
    ⟨ended, same⟩ | ⟨half, hhalf, hfault, hfiles⟩
  · rw [LeftBy, same]
    exact ⟨fun _ _ => rfl, .inr ⟨ended, .inl rfl, rfl⟩⟩
  rw [LeftBy, hfault, hfiles]
  rcases writeAll_cons plain (List.mem_cons_of_mem _ List.mem_cons_self) dots _ _ hhalf with
    ⟨ended, same⟩ | ⟨whole, hwhole, hfault', hfiles'⟩
  · rw [same]
    refine ⟨fun place beside => FileTree.entry?_put_ne files beside.1 _, .inr ⟨ended, .inr ?_, ?_⟩⟩
    · exact FileTree.entry?_put_self files (nonempty _) _
    · exact FileTree.entry?_put_ne files apart _
  · cases hwhole
    rw [hfault', hfiles', writeAll]
    refine ⟨?_, .inl ⟨rfl, ?_, ?_⟩⟩
    · intro place beside
      exact (FileTree.entry?_put_ne _ beside.2 _).trans (FileTree.entry?_put_ne _ beside.1 _)
    · exact (FileTree.entry?_put_ne _ apart.symm _).trans
        (FileTree.entry?_put_self _ (nonempty _) _)
    · exact FileTree.entry?_put_self _ (nonempty _) _

/-- **What saving a screen changes**: its two files, and beside them missing directories. -/
theorem leftBy_save {saved : Saved} {files : FileTree} (plain : PlainName g.name)
    (dots : ".." ∉ directory) (h : g.save directory files = saved) :
    (∀ place, Beside directory g.name place →
      FileTree.Kept directory files saved.files place) ∧ LeftBy g directory files saved := by
  unfold save at h
  split at h
  · cases h
    exact ⟨fun place _ => .refl directory files place, .inr ⟨nofun, .inl rfl, rfl⟩⟩
  · cases hmade : files.ensureDirectory directory with
    | mk between fault =>
      have kept := FileTree.kept_ensureDirectory files dots
      rw [hmade] at h kept
      have preview := (kept (previewPlace directory g.name)).entry?_eq (not_through directory _)
      have code := (kept (codePlace directory g.name)).entry?_eq (not_through directory _)
      cases fault with
      | some fault =>
        cases h
        exact ⟨fun place _ => kept place, .inr ⟨nofun, .inl preview, code⟩⟩
      | none =>
        obtain ⟨same, left⟩ := leftBy_writeAll plain dots h
        refine ⟨fun place beside => (kept place).trans (.inl (same place beside)), ?_⟩
        rwa [LeftBy, preview, code] at left

end Generated

/-! ## A command as its effect -/

namespace Cli

/-- What ends a render command at a screen. -/
inductive RenderFault where
  /-- The screen is not known, or its documents cannot be generated. -/
  | generation (fault : Fault)
  | saving (fault : SaveFault)

/-- How a run ends with a fault: with exit code 1, but for a path that cannot be asked for. -/
def RenderFault.ending : RenderFault → Ending
  | saving (.unusablePath path) => .aborted path
  | _ => .exit 1

/-- The generated screen of a name. -/
def generateNamed (p : Option Profile) (name : String) : Except Fault Generated := do
  let s ← (Catalogue.named name).mapError .configuration
  s.generate p DrawCode.defaultOptions

/-- The files after the documents of a screen went where they go, and the fault of that. -/
def Target.deliver (target : Target) (g : Generated) (files : FileTree) :
    FileTree × Option SaveFault :=
  match target with
  | print => (files, none)
  | save directory => ((g.save directory files).files, (g.save directory files).fault)

/-- What rendering one screen changes: the files afterwards, and the fault that ends the command
there, if one does. -/
def step (p : Option Profile) (target : Target) (name : String) (files : FileTree) :
    FileTree × Option RenderFault :=
  match generateNamed p name with
  | .error fault => (files, some (.generation fault))
  | .ok g => ((target.deliver g files).1, (target.deliver g files).2.map .saving)

/-- What a render command changes: the files after its steps, up to the first with a fault. -/
def effect (p : Option Profile) (target : Target) :
    List String → FileTree → FileTree × Option RenderFault
  | [], files => (files, none)
  | name :: names, files =>
    match step p target name files with
    | (files, some fault) => (files, some fault)
    | (files, none) => effect p target names files

variable {p : Option Profile} {target : Target}

theorem generateNamed_of_named {name : String} {s : Screen} (h : Catalogue.named name = .ok s) :
    generateNamed p name = s.generate p DrawCode.defaultOptions := by
  rw [generateNamed, h]
  rfl

/-- Rendering a screen changes what its step changes, and ends the run as the fault of the step. -/
theorem renderOne_step (p : Option Profile) (target : Target) (name : String)
    (before : Transcript) :
    (renderOne p target name before).2.files = (step p target name before.files).1 ∧
      (renderOne p target name before).1 =
        (step p target name before.files).2.map RenderFault.ending := by
  unfold renderOne step
  cases hnamed : Catalogue.named name with
  | error fault =>
    rw [generateNamed, hnamed]
    exact ⟨rfl, rfl⟩
  | ok s =>
    rw [generateNamed_of_named hnamed]
    dsimp only
    cases s.generate p DrawCode.defaultOptions with
    | error fault => exact ⟨rfl, rfl⟩
    | ok g =>
      cases target with
      | print => exact ⟨rfl, rfl⟩
      | save directory =>
        dsimp only [Target.deliver]
        cases (g.save directory before.files).fault with
        | none => exact ⟨rfl, rfl⟩
        | some fault => cases fault <;> exact ⟨rfl, rfl⟩

/-- **A render command changes what its effect says**, and ends with exit code 0 if no step has a
fault, and otherwise as the first fault does. -/
theorem renderAll_effect (p : Option Profile) (target : Target) (names : List String)
    (before : Transcript) :
    (renderAll p target names before).2.files = (effect p target names before.files).1 ∧
      (renderAll p target names before).1 =
        ((effect p target names before.files).2.map RenderFault.ending).getD (.exit 0) := by
  induction names generalizing before with
  | nil => exact ⟨rfl, rfl⟩
  | cons name names ih =>
    obtain ⟨hfiles, hending⟩ := renderOne_step p target name before
    rw [renderAll, effect]
    cases hone : renderOne p target name before with
    | mk ending after =>
      cases hstep : step p target name before.files with
      | mk files fault =>
        rw [hone, hstep] at hfiles hending
        dsimp only at hfiles hending
        cases fault with
        | some fault =>
          rw [hending]
          exact ⟨hfiles, rfl⟩
        | none =>
          rw [hending, ← hfiles]
          exact ih after

/-! ## The effect of a command that saves -/

/-- The two files of a screen hold its documents. -/
def Holds (p : Option Profile) (directory : RelativePath) (files : FileTree) (name : String) :
    Prop :=
  ∃ g, generateNamed p name = .ok g ∧
    files.entry? (previewPlace directory name) = some (.text g.preview) ∧
    files.entry? (codePlace directory name) = some (.text g.drawCode)

/-- All screens are saved, and nothing else changed. -/
structure Complete (p : Option Profile) (directory : RelativePath) (names : List String)
    (before after : FileTree) : Prop where
  holds : ∀ name ∈ names, Holds p directory after name
  kept : ∀ place, (∀ name ∈ names, Beside directory name place) →
    FileTree.Kept directory before after place

/-- The screens before one are saved, of that one at most the preview, and nothing else changed. -/
structure StoppedAt (p : Option Profile) (directory : RelativePath) (done : List String)
    (failing : String) (later : List String) (before after : FileTree) : Prop where
  holds : ∀ name ∈ done, Holds p directory after name
  preview : after.entry? (previewPlace directory failing) =
      before.entry? (previewPlace directory failing) ∨
    ∃ g, generateNamed p failing = .ok g ∧
      after.entry? (previewPlace directory failing) = some (.text g.preview)
  code : after.entry? (codePlace directory failing) = before.entry? (codePlace directory failing)
  later : ∀ name ∈ later,
    after.entry? (previewPlace directory name) = before.entry? (previewPlace directory name) ∧
      after.entry? (codePlace directory name) = before.entry? (codePlace directory name)
  kept : ∀ place, (∀ name ∈ done, Beside directory name place) →
    Beside directory failing place → FileTree.Kept directory before after place

variable {directory : RelativePath} {names done later : List String} {name failing : String}
  {first second third : FileTree}

/-- What is beside a screen's files on the way to no directory is as it was: the files of another
screen. -/
theorem others_kept (kept : ∀ place, Beside directory name place →
      FileTree.Kept directory first second place) {other : String} (h : other ≠ name) :
    second.entry? (previewPlace directory other) = first.entry? (previewPlace directory other) ∧
      second.entry? (codePlace directory other) = first.entry? (codePlace directory other) :=
  ⟨(kept _ (beside_previewPlace h)).entry?_eq (not_through directory _),
    (kept _ (beside_codePlace h)).entry?_eq (not_through directory _)⟩

/-- Files that hold their documents still hold them after changes beside them. -/
theorem Holds.kept (h : Holds p directory second name)
    (preview : FileTree.Kept directory second third (previewPlace directory name))
    (code : FileTree.Kept directory second third (codePlace directory name)) :
    Holds p directory third name := by
  obtain ⟨g, hg, hpreview, hcode⟩ := h
  exact ⟨g, hg, preview.text hpreview, code.text hcode⟩

theorem name_of_generate {s : Screen} {options : DrawCode.Options} {g : Generated}
    (h : s.generate p options = .ok g) : g.name = s.name := by
  cases p with
  | some p => exact (Node.generate_eq_ok_iff.mp h).2.2.2.2.1
  | none =>
    obtain ⟨target, _, h⟩ := bind_eq_ok.mp h
    exact (Node.generate_eq_ok_iff.mp h).2.2.2.2.1

/-- A screen that is generated has the name that was asked for, which is plain. -/
theorem plainName_of_generateNamed {g : Generated} (h : generateNamed p name = .ok g) :
    g.name = name ∧ PlainName name := by
  obtain ⟨s, hnamed, h⟩ := bind_eq_ok.mp h
  have hname := name_of_generate h
  unfold Catalogue.named at hnamed
  cases found : Catalogue.screens.find? fun s => s.name == name with
  | none =>
    rw [found] at hnamed
    cases hnamed
  | some s' =>
    rw [found] at hnamed
    cases hnamed
    have same : s.name = name := by simpa only [beq_iff_eq] using List.find?_some found
    rw [hname, same]
    exact ⟨rfl, same ▸ plainName_of_screen s (List.mem_of_find?_eq_some found)⟩

/-- **One step saves its screen or stops at it**, and does not touch the files of another one. -/
theorem step_save (p : Option Profile) (dots : ".." ∉ directory) (fresh : name ∉ later)
    (files : FileTree) :
    ((step p (.save directory) name files).2 = none →
        Complete p directory [name] files (step p (.save directory) name files).1) ∧
      ((step p (.save directory) name files).2 ≠ none →
        StoppedAt p directory [] name later files (step p (.save directory) name files).1) := by
  unfold step
  cases hg : generateNamed p name with
  | error fault =>
    refine ⟨nofun, fun _ => ⟨nofun, .inl rfl, rfl, fun _ _ => ⟨rfl, rfl⟩, ?_⟩⟩
    intro place _ _
    exact .refl directory files place
  | ok g =>
    obtain ⟨hname, plain⟩ := plainName_of_generateNamed hg
    obtain ⟨kept, left⟩ := Generated.leftBy_save (hname ▸ plain) dots
      (rfl : g.save directory files = g.save directory files)
    unfold Generated.LeftBy at left
    rw [hname] at kept left
    dsimp only [Target.deliver]
    rw [Option.map_eq_none_iff, ne_eq, Option.map_eq_none_iff]
    rcases left with ⟨hfault, preview, code⟩ | ⟨hfault, preview, code⟩
    · refine ⟨fun _ => ⟨?_, ?_⟩, fun h => absurd hfault h⟩
      · intro other hother
        rw [List.mem_singleton.mp hother]
        exact ⟨g, hg, preview, code⟩
      · intro place beside
        exact kept place (beside name List.mem_cons_self)
    · refine ⟨fun h => absurd h hfault, fun _ => ⟨nofun, ?_, code, ?_, fun place _ => kept place⟩⟩
      · exact preview.imp_right fun written => ⟨g, hg, written⟩
      · intro other hother
        exact others_kept kept fun same => fresh (same ▸ hother)

/-- A saved screen in front of screens that are all saved. -/
theorem Complete.cons (h : Complete p directory [name] first second)
    (h' : Complete p directory names second third) (fresh : name ∉ names) :
    Complete p directory (name :: names) first third := by
  have apart : ∀ other ∈ names, name ≠ other := fun other hother same => fresh (same ▸ hother)
  refine ⟨List.forall_mem_cons.mpr ⟨?_, h'.holds⟩, ?_⟩
  · refine (h.holds name List.mem_cons_self).kept (h'.kept _ ?_) (h'.kept _ ?_)
    · exact fun other hother => beside_previewPlace (apart other hother)
    · exact fun other hother => beside_codePlace (apart other hother)
  · intro place beside
    obtain ⟨own, others⟩ := List.forall_mem_cons.mp beside
    exact (h.kept place fun other hother => List.mem_singleton.mp hother ▸ own).trans
      (h'.kept place others)

/-- A saved screen in front of screens that stop at one of them. -/
theorem StoppedAt.cons (h : Complete p directory [name] first second)
    (h' : StoppedAt p directory done failing later second third)
    (fresh : name ∉ done ++ failing :: later) :
    StoppedAt p directory (name :: done) failing later first third := by
  simp only [List.mem_append, List.mem_cons, not_or] at fresh
  obtain ⟨hdone, hfailing, hlater⟩ := fresh
  have apart : ∀ other ∈ done, name ≠ other := fun other hother same => hdone (same ▸ hother)
  have kept : ∀ place, Beside directory name place →
      FileTree.Kept directory first second place := by
    intro place beside
    exact h.kept place fun other hother => List.mem_singleton.mp hother ▸ beside
  have same : ∀ {other}, other ≠ name → _ := fun hother => others_kept kept hother
  refine ⟨List.forall_mem_cons.mpr ⟨?_, h'.holds⟩, ?_, ?_, ?_, ?_⟩
  · refine (h.holds name List.mem_cons_self).kept (h'.kept _ ?_ ?_) (h'.kept _ ?_ ?_)
    · exact fun other hother => beside_previewPlace (apart other hother)
    · exact beside_previewPlace hfailing
    · exact fun other hother => beside_codePlace (apart other hother)
    · exact beside_codePlace hfailing
  · exact h'.preview.imp_left fun unchanged => unchanged.trans (same (Ne.symm hfailing)).1
  · exact h'.code.trans (same (Ne.symm hfailing)).2
  · intro other hother
    have hne : other ≠ name := fun hsame => hlater (hsame ▸ hother)
    exact ⟨(h'.later other hother).1.trans (same hne).1,
      (h'.later other hother).2.trans (same hne).2⟩
  · intro place beside own
    obtain ⟨hname, others⟩ := List.forall_mem_cons.mp beside
    exact (kept place hname).trans (h'.kept place others own)

/-- **A command that saves leaves all screens saved, or those before the one that it stopped at.** By
induction on the screens, one step at a time. -/
theorem effect_save (p : Option Profile) (dots : ".." ∉ directory) (single : names.Nodup)
    (files : FileTree) :
    ((effect p (.save directory) names files).2 = none →
        Complete p directory names files (effect p (.save directory) names files).1) ∧
      ((effect p (.save directory) names files).2 ≠ none →
        ∃ done failing later, names = done ++ failing :: later ∧
          StoppedAt p directory done failing later files
            (effect p (.save directory) names files).1) := by
  induction names generalizing files with
  | nil =>
    refine ⟨fun _ => ⟨nofun, ?_⟩, fun h => absurd rfl h⟩
    intro place _
    exact .refl directory files place
  | cons name names ih =>
    obtain ⟨fresh, single⟩ := List.nodup_cons.mp single
    obtain ⟨saved, stopped⟩ := step_save p dots fresh files
    rw [effect]
    cases hstep : step p (.save directory) name files with
    | mk between fault =>
      rw [hstep] at saved stopped
      cases fault with
      | some fault => exact ⟨nofun, fun h => ⟨[], name, names, rfl, stopped h⟩⟩
      | none =>
        obtain ⟨complete, stops⟩ := ih single between
        refine ⟨fun h => (saved rfl).cons (complete h) fresh, ?_⟩
        intro h
        obtain ⟨done, failing, later, rfl, hstopped⟩ := stops h
        exact ⟨name :: done, failing, later, rfl, hstopped.cons (saved rfl) fresh⟩

/-- A command that prints changes no file. -/
theorem effect_print (p : Option Profile) (names : List String) (files : FileTree) :
    (effect p .print names files).1 = files := by
  induction names generalizing files with
  | nil => rfl
  | cons name names ih =>
    rw [effect, step]
    cases generateNamed p name with
    | error fault => rfl
    | ok g => exact ih files

/-! ## Runs -/

section Runs

variable {argv : List String} {a : Arguments} {e : Environment} {files : FileTree}

/-- No screen is wanted twice. -/
theorem nodup_of_wantedScreens (h : wantedScreens a = some names) : names.Nodup := by
  unfold wantedScreens at h
  split at h
  · cases h
    exact nodup_screenNames
  · obtain ⟨screen, _, rfl⟩ := Option.map_eq_some_iff.mp h
    exact List.nodup_singleton screen

/-- A run that only informs about the program. -/
theorem run_informed (hparse : Arguments.parse argv = .ok a)
    (informed : a.showHelp = true ∨ a.showVersion = true) :
    (run argv e files).ending = .informed ∧ (run argv e files).files = files := by
  unfold run perform
  rw [hparse]
  dsimp only
  by_cases help : a.showHelp = true
  · rw [if_pos help]
    exact ⟨rfl, rfl⟩
  · rw [if_neg help, if_pos (informed.resolve_left help)]
    exact ⟨rfl, rfl⟩

/-- A run with a render command. -/
theorem run_render (hparse : Arguments.parse argv = .ok a) (hcommand : a.command = some .render)
    (hhelp : a.showHelp = false) (hversion : a.showVersion = false) (e : Environment)
    (files : FileTree) :
    (run argv e files).ending = (render a e files).1 ∧
      (run argv e files).files = (render a e files).2.files := by
  unfold run perform
  rw [hparse]
  dsimp only
  rw [hhelp, hversion, hcommand, if_neg Bool.false_ne_true, if_neg Bool.false_ne_true]
  exact ⟨rfl, rfl⟩

/-- A render command that does not say what to render, or for which display, changes nothing. -/
theorem render_unclear
    (h : wantedScreens a = none ∨ ∃ fault, wantedProfile a e = .error fault) (files : FileTree) :
    (render a e files).1 = .exit 1 ∧ (render a e files).2.files = files := by
  unfold render
  cases hscreens : wantedScreens a with
  | none => exact ⟨rfl, rfl⟩
  | some names =>
    obtain ⟨fault, hfault⟩ := h.resolve_left (by rw [hscreens]; exact Option.some_ne_none names)
    rw [hfault]
    exact ⟨rfl, rfl⟩

theorem render_effect (hprofile : wantedProfile a e = .ok p)
    (hscreens : wantedScreens a = some names) (files : FileTree) :
    (render a e files).2.files = (effect p (wantedTarget a e) names files).1 ∧
      (render a e files).1 =
        ((effect p (wantedTarget a e) names files).2.map RenderFault.ending).getD (.exit 0) := by
  unfold render
  rw [hscreens, hprofile]
  exact renderAll_effect p (wantedTarget a e) names ⟨"", [], files⟩

/-- A render command is unclear, or it has its effect. -/
theorem render_cases (a : Arguments) (e : Environment) :
    (wantedScreens a = none ∨ ∃ fault, wantedProfile a e = .error fault) ∨
      ∃ p names, wantedProfile a e = .ok p ∧ wantedScreens a = some names := by
  cases wantedScreens a with
  | none => exact .inl (.inl rfl)
  | some names =>
    cases wantedProfile a e with
    | error fault => exact .inl (.inr ⟨fault, rfl⟩)
    | ok p => exact .inr ⟨p, names, rfl, rfl⟩

theorem ending_eq_exit_zero {fault : Option RenderFault} :
    (fault.map RenderFault.ending).getD (.exit 0) = .exit 0 ↔ fault = none := by
  cases fault with
  | none => exact iff_of_true rfl rfl
  | some fault =>
    refine iff_of_false ?_ nofun
    cases fault with
    | generation fault => nofun
    | saving fault => cases fault <;> nofun

/-- A render command that prints changes nothing. -/
theorem render_print (htarget : wantedTarget a e = .print) (files : FileTree) :
    (render a e files).2.files = files := by
  rcases render_cases a e with unclear | ⟨p, names, hprofile, hscreens⟩
  · exact (render_unclear unclear files).2
  · rw [(render_effect hprofile hscreens files).1, htarget, effect_print]

/-- A render command that saves and ends with exit code 0 leaves all wanted screens saved. One that
ends in another way was unclear, or stopped at one of the wanted screens. -/
theorem render_save (htarget : wantedTarget a e = .save directory) (dots : ".." ∉ directory)
    (files : FileTree) :
    ((render a e files).1 = .exit 0 → ∃ p names, wantedProfile a e = .ok p ∧
        wantedScreens a = some names ∧
        Complete p directory names files (render a e files).2.files) ∧
      ((render a e files).1 ≠ .exit 0 →
        ((wantedScreens a = none ∨ ∃ fault, wantedProfile a e = .error fault) ∧
          (render a e files).2.files = files) ∨
        ∃ p done failing later, wantedProfile a e = .ok p ∧
          wantedScreens a = some (done ++ failing :: later) ∧
          StoppedAt p directory done failing later files (render a e files).2.files) := by
  rcases render_cases a e with unclear | ⟨p, names, hprofile, hscreens⟩
  · obtain ⟨hone, hsame⟩ := render_unclear unclear files
    rw [hone]
    exact ⟨nofun, fun _ => .inl ⟨unclear, hsame⟩⟩
  · obtain ⟨hrender, hend⟩ := render_effect hprofile hscreens files
    obtain ⟨complete, stopped⟩ := effect_save p dots (nodup_of_wantedScreens hscreens) files
    rw [hend, hrender, htarget, ne_eq, ending_eq_exit_zero]
    refine ⟨fun h => ⟨p, names, hprofile, hscreens, complete h⟩, fun h => .inr ?_⟩
    obtain ⟨done, failing, later, rfl, hstopped⟩ := stopped h
    exact ⟨p, done, failing, later, hprofile, hscreens, hstopped⟩

/-- A fault ends a render command with exit code 1, but for a path that cannot be asked for. -/
theorem render_fault {fault : RenderFault} (hprofile : wantedProfile a e = .ok p)
    (hscreens : wantedScreens a = some names)
    (hfault : (effect p (wantedTarget a e) names files).2 = some fault)
    (usable : ∀ path, fault ≠ .saving (.unusablePath path)) : (render a e files).1 = .exit 1 := by
  rw [(render_effect hprofile hscreens files).2, hfault]
  cases fault with
  | generation fault => rfl
  | saving fault =>
    cases fault with
    | refused fault => rfl
    | unusablePath path => exact absurd rfl (usable path)

/-- **A render run touches its own files only.** Let the arguments of a run ask to render, in any
environment and with any files.

If they ask to print, or for help or the version, the run changes nothing. Otherwise let the output
directory be a path without two dots. If the run ends with exit code 0, all wanted screens are saved
there, and nothing else changed, but that missing directories on the way there were made. If it ends
in another way, then it was not clear what to render and nothing changed, or the run stopped at one
of the wanted screens: those before it are saved, of that one at most the preview, no file of a later
one changed, and nothing else did.

A run that is not clear what to render ends with exit code 1, and so does one with a screen that is
refused or that the file system refuses to save. -/
theorem run_touches_own_files (hparse : Arguments.parse argv = .ok a)
    (hcommand : a.command = some .render) (e : Environment) (files : FileTree) :
    (a.stdout = true ∨ a.showHelp = true ∨ a.showVersion = true →
      (run argv e files).files = files) ∧
    (a.showHelp = false → a.showVersion = false →
      (∀ directory, wantedTarget a e = .save directory → ".." ∉ directory →
        ((run argv e files).ending = .exit 0 → ∃ p names, wantedProfile a e = .ok p ∧
          wantedScreens a = some names ∧
          Complete p directory names files (run argv e files).files) ∧
        ((run argv e files).ending ≠ .exit 0 →
          ((wantedScreens a = none ∨ ∃ fault, wantedProfile a e = .error fault) ∧
            (run argv e files).files = files) ∨
          ∃ p done failing later, wantedProfile a e = .ok p ∧
            wantedScreens a = some (done ++ failing :: later) ∧
            StoppedAt p directory done failing later files (run argv e files).files)) ∧
      ((wantedScreens a = none ∨ ∃ fault, wantedProfile a e = .error fault) →
        (run argv e files).ending = .exit 1) ∧
      ∀ p names fault, wantedProfile a e = .ok p → wantedScreens a = some names →
        (effect p (wantedTarget a e) names files).2 = some fault →
          (∀ path, fault ≠ .saving (.unusablePath path)) →
            (run argv e files).ending = .exit 1) := by
  constructor
  · intro printed
    by_cases informed : a.showHelp = true ∨ a.showVersion = true
    · exact (run_informed hparse informed).2
    · obtain ⟨hhelp, hversion⟩ := not_or.mp informed
      rw [(run_render hparse hcommand (Bool.eq_false_iff.mpr hhelp)
        (Bool.eq_false_iff.mpr hversion) e files).2]
      exact render_print (if_pos (printed.resolve_right informed)) files
  · intro hhelp hversion
    obtain ⟨hending, hfiles⟩ := run_render hparse hcommand hhelp hversion e files
    rw [hending, hfiles]
    refine ⟨?_, fun unclear => (render_unclear unclear files).1, ?_⟩
    · intro directory htarget dots
      exact render_save htarget dots files
    · intro p names fault hprofile hscreens hfault usable
      exact render_fault hprofile hscreens hfault usable

end Runs

/-- A run that saves one screen next to a note, and the same run where a directory has the name of
the draw code. -/
theorem run_touches_own_files_gpsStatus :
    let argv := ["render", "gps_status", "--output", "build/ui"]
    let free : FileTree := ⟨[(["note"], .text "keep")]⟩
    let taken : FileTree := FileTree.ofEntries [(["build", "ui", "gps_status.inc"], .directory)]
    Complete none ["build", "ui"] ["gps_status"] free
        (run argv ⟨none, none, none⟩ free).files ∧
      (run argv ⟨none, none, none⟩ taken).ending = .exit 1 ∧
      StoppedAt none ["build", "ui"] [] "gps_status" [] taken
        (run argv ⟨none, none, none⟩ taken).files := by
  intro argv free taken
  have hparse : Arguments.parse argv = .ok ⟨some .render, some "gps_status", false, none,
      some "build/ui", false, false, false⟩ := by
    decide
  have htarget : wantedTarget ⟨some .render, some "gps_status", false, none, some "build/ui", false,
      false, false⟩ ⟨none, none, none⟩ = .save ["build", "ui"] := by
    rfl
  have saved : (run argv ⟨none, none, none⟩ free).ending = .exit 0 := by decide +kernel
  have stopped : (run argv ⟨none, none, none⟩ taken).ending = .exit 1 := by decide +kernel
  have law := fun files =>
    ((run_touches_own_files hparse rfl ⟨none, none, none⟩ files).2 rfl rfl).1 _ htarget (by decide)
  refine ⟨?_, stopped, ?_⟩
  · obtain ⟨p, names, hprofile, hscreens, complete⟩ := (law free).1 saved
    cases hprofile
    cases hscreens
    exact complete
  · rcases (law taken).2 (by rw [stopped]; decide) with
      ⟨nothing | ⟨fault, hfault⟩, _⟩ | ⟨p, done, failing, later, hprofile, hscreens, stopped⟩
    · cases nothing
    · cases hfault
    · cases hprofile
      have wanted : ["gps_status"] = done ++ failing :: later := Option.some.inj hscreens
      obtain ⟨rfl, rfl, rfl⟩ : done = [] ∧ failing = "gps_status" ∧ later = [] := by
        cases done with
        | nil =>
          cases wanted
          exact ⟨rfl, rfl, rfl⟩
        | cons first done =>
          have rest := (List.cons.inj wanted).2
          exact absurd rest.symm (List.append_ne_nil_of_right_ne_nil _ (List.cons_ne_nil _ _))
      exact stopped

end Cli

end PixelLayout
