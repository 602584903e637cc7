import PixelLayout.Cli.Run
import PixelLayout.Proofs.Emission

/-!
# The grammar of the arguments

The arguments of a run are options and words in any order. `ArgumentItem` says what the two are, an
option with its value where it takes one, and `spell` how they are written. The words have to name a
command, and after `render` perhaps a screen (`Words`); the options set what they name, the last
value of each winning (`Means`).

**The law** (`parse_grammar`): a list of arguments is read exactly if it is spelled by such items,
and then with their meaning; otherwise the run ends with exit code 1 and touches no file. Reading
goes from left to right, but no option looks at a word and no word at an option, so all words may as
well be read before all options (`foldlM_take`). So it does not matter where among the words an
option stands, not even for the fault that refuses the words.
-/

namespace PixelLayout

/-- Something that the arguments set, with its value if it takes one. -/
inductive ArgumentOption where
  | profile (name : String)
  | output (directory : String)
  | all
  | stdout
  | help (short : Bool)
  | version (short : Bool)

/-- A piece of the arguments. A word does not start like an option. -/
inductive ArgumentItem where
  | option (o : ArgumentOption)
  | word (text : String) (plain : text.toList.head? ≠ some '-')

/-- How an option is written. A value is an argument of its own, whatever it looks like. -/
def ArgumentOption.spell : ArgumentOption → List String
  | profile name => ["--profile", name]
  | output directory => ["--output", directory]
  | all => ["--all"]
  | stdout => ["--stdout"]
  | help short => [if short then "-h" else "--help"]
  | version short => [if short then "-v" else "--version"]

/-- The display that an option names. -/
def ArgumentOption.profile? : ArgumentOption → Option String
  | profile name => some name
  | _ => none

/-- The directory that an option names. -/
def ArgumentOption.output? : ArgumentOption → Option String
  | output directory => some directory
  | _ => none

namespace ArgumentItem

/-- How an item is written. -/
def spell : ArgumentItem → List String
  | option o => o.spell
  | word text _ => [text]

/-- The word that an item is. -/
def word? : ArgumentItem → Option String
  | word text _ => some text
  | option _ => none

/-- The option that an item is. -/
def option? : ArgumentItem → Option ArgumentOption
  | option o => some o
  | word .. => none

/-- How several items are written. -/
def spellAll (items : List ArgumentItem) : List String := items.flatMap spell

/-- The words among several items. -/
def words (items : List ArgumentItem) : List String := items.filterMap word?

/-- The options among several items. -/
def options (items : List ArgumentItem) : List ArgumentOption := items.filterMap option?

end ArgumentItem

namespace Arguments

open ArgumentItem

/-- What words ask for: nothing, a command, or a screen to render. -/
inductive Words : List String → Option Command → Option String → Prop where
  | nothing : Words [] .none .none
  | command (c : Command) : Words [c.word] (some c) .none
  | screen (name : String) : Words [Command.render.word, name] (some .render) (some name)

/-- What items mean: their words name the command and the screen, the last value of an option is the
one that counts, and a flag is set if it occurs. -/
structure Means (items : List ArgumentItem) (a : Arguments) : Prop where
  words : Words (words items) a.command a.screen
  profile : a.profile = ((options items).filterMap ArgumentOption.profile?).getLast?
  output : a.output = ((options items).filterMap ArgumentOption.output?).getLast?
  all : a.all = true ↔ .all ∈ options items
  stdout : a.stdout = true ↔ .stdout ∈ options items
  showHelp : a.showHelp = true ↔ ∃ short, .help short ∈ options items
  showVersion : a.showVersion = true ↔ ∃ short, .version short ∈ options items

/-- The arguments are spelled by items whose words ask for something. -/
def Grammatical (arguments : List String) : Prop :=
  ∃ items, spellAll items = arguments ∧ ∃ command screen, Words (words items) command screen

/-- The arguments with an option set. -/
def set (a : Arguments) : ArgumentOption → Arguments
  | .profile name => { a with profile := some name }
  | .output directory => { a with output := some directory }
  | .all => { a with all := true }
  | .stdout => { a with stdout := true }
  | .help _ => { a with showHelp := true }
  | .version _ => { a with showVersion := true }

/-- The arguments after one more item. -/
def take (a : Arguments) : ArgumentItem → Except ArgumentFault Arguments
  | .option o => .ok (a.set o)
  | .word text _ => a.setWord text

/-! ## Reading one item -/

/-- An argument that no value belongs to is read alone. -/
theorem read_cons {argument : String} (hprofile : argument ≠ "--profile")
    (houtput : argument ≠ "--output") (a : Arguments) (rest : List String) :
    a.read (argument :: rest) = a.setOne argument >>= fun b => b.read rest := by
  cases rest with
  | nil =>
    rw [read, if_neg hprofile, if_neg houtput]
    cases a.setOne argument <;> rfl
  | cons next rest => rw [read, if_neg hprofile, if_neg houtput]

/-- A word is none of the options. -/
theorem setOne_word {text : String} (plain : text.toList.head? ≠ some '-') (a : Arguments) :
    a.setOne text = a.setWord text := by
  have other (s : String) (h : s.toList.head? = some '-') : text ≠ s := fun same => plain (same ▸ h)
  have noFlag : a.setFlag? text = .none := by
    simp only [setFlag?, other "--all" rfl, other "--stdout" rfl, other "--help" rfl,
      other "-h" rfl, other "--version" rfl, other "-v" rfl, or_self, if_false]
  rw [setOne, noFlag]
  exact if_neg plain

/-- **Items are read one after the other.** -/
theorem read_append_spell (a : Arguments) (item : ArgumentItem) (rest : List String) :
    a.read (item.spell ++ rest) = a.take item >>= fun b => b.read rest := by
  cases item with
  | word text plain =>
    have other (s : String) (h : s.toList.head? = some '-') : text ≠ s :=
      fun same => plain (same ▸ h)
    rw [spell, List.singleton_append, read_cons (other "--profile" rfl) (other "--output" rfl),
      setOne_word plain, take]
  | option o =>
    cases o with
    | profile name => rfl
    | output directory => rfl
    | all => exact read_cons (by decide) (by decide) a rest
    | stdout => exact read_cons (by decide) (by decide) a rest
    | help short => cases short <;> exact read_cons (by decide) (by decide) a rest
    | version short => cases short <;> exact read_cons (by decide) (by decide) a rest

theorem read_spellAll (a : Arguments) (items : List ArgumentItem) :
    a.read (spellAll items) = items.foldlM take a := by
  induction items generalizing a with
  | nil => rfl
  | cons item items ih =>
    rw [spellAll, List.flatMap_cons, read_append_spell, List.foldlM_cons]
    exact bind_congr fun b => ih b

/-! ## What is read is spelled by items -/

theorem exists_item_of_setOne {a b : Arguments} {argument : String}
    (h : a.setOne argument = .ok b) : ∃ item : ArgumentItem, item.spell = [argument] := by
  by_cases plain : argument.toList.head? = some '-'
  · rw [setOne, setFlag?] at h
    split at h
    · next found =>
      split at found
      · next same => exact ⟨.option .all, same ▸ rfl⟩
      split at found
      · next same => exact ⟨.option .stdout, same ▸ rfl⟩
      split at found
      · next same =>
        rcases same with same | same
        · exact ⟨.option (.help false), same ▸ rfl⟩
        · exact ⟨.option (.help true), same ▸ rfl⟩
      split at found
      · next same =>
        rcases same with same | same
        · exact ⟨.option (.version false), same ▸ rfl⟩
        · exact ⟨.option (.version true), same ▸ rfl⟩
      · cases found
    · rw [if_pos plain] at h
      cases h
  · exact ⟨.word argument plain, rfl⟩

theorem exists_items_of_read {a b : Arguments} {arguments : List String}
    (h : a.read arguments = .ok b) : ∃ items, spellAll items = arguments := by
  fun_induction read a arguments with
  | case1 a => exact ⟨[], rfl⟩
  | case2 => cases h
  | case3 => cases h
  | case4 a argument =>
    obtain ⟨item, hitem⟩ := exists_item_of_setOne h
    exact ⟨[item], by rw [spellAll, List.flatMap_singleton, hitem]⟩
  | case5 a next rest ih =>
    obtain ⟨items, hitems⟩ := ih h
    exact ⟨.option (.profile next) :: items, by rw [spellAll, List.flatMap_cons, ← hitems]; rfl⟩
  | case6 a next rest hne ih =>
    obtain ⟨items, hitems⟩ := ih h
    exact ⟨.option (.output next) :: items, by rw [spellAll, List.flatMap_cons, ← hitems]; rfl⟩
  | case7 a argument next rest hprofile houtput ih =>
    obtain ⟨c, hc, h⟩ := bind_eq_ok.mp h
    obtain ⟨item, hitem⟩ := exists_item_of_setOne hc
    obtain ⟨items, hitems⟩ := ih c h
    exact ⟨item :: items, by rw [spellAll, List.flatMap_cons, hitem, ← hitems]; rfl⟩

/-! ## Words and options -/

/-- An option and a word may change places. -/
theorem setWord_set (a : Arguments) (o : ArgumentOption) (text : String) :
    (a.set o).setWord text = (a.setWord text).map fun b => b.set o := by
  have command : (a.set o).command = a.command := by cases o <;> rfl
  have screen : (a.set o).screen = a.screen := by cases o <;> rfl
  unfold setWord
  rw [command, screen]
  split
  · cases o <;> rfl
  · split
    · cases o <;> rfl
    · rfl

theorem foldlM_setWord_set (a : Arguments) (o : ArgumentOption) (texts : List String) :
    texts.foldlM setWord (a.set o) = (texts.foldlM setWord a).map fun b => b.set o := by
  induction texts generalizing a with
  | nil => rfl
  | cons text texts ih =>
    rw [List.foldlM_cons, List.foldlM_cons, setWord_set]
    cases a.setWord text with
    | error fault => rfl
    | ok b => exact ih b

/-- **All words may be read before all options.** -/
theorem foldlM_take (a : Arguments) (items : List ArgumentItem) :
    items.foldlM take a =
      ((words items).foldlM setWord a).map fun b => (options items).foldl set b := by
  induction items generalizing a with
  | nil => rfl
  | cons item items ih =>
    rw [List.foldlM_cons]
    cases item with
    | option o =>
      show items.foldlM take (a.set o) =
        ((words items).foldlM setWord a).map fun b => (options items).foldl set (b.set o)
      rw [ih, foldlM_setWord_set]
      cases (words items).foldlM setWord a <;> rfl
    | word text plain =>
      show (a.setWord text >>= fun b => items.foldlM take b) =
        ((text :: words items).foldlM setWord a).map fun b => (options items).foldl set b
      rw [List.foldlM_cons]
      cases a.setWord text with
      | error fault => rfl
      | ok b => exact ih b

/-- Arguments that are spelled by items are read as their words, and then their options. -/
theorem parse_spellAll (items : List ArgumentItem) :
    parse (spellAll items) =
      ((words items).foldlM setWord none).map fun b => (options items).foldl set b := by
  rw [parse, read_spellAll, foldlM_take]

/-! ## What words mean -/

theorem command?_word (c : Command) : command? c.word = some c := by cases c <;> rfl

theorem word_of_command? {text : String} {c : Command} (h : command? text = some c) :
    text = c.word := by
  unfold command? at h
  split at h
  · next same => cases h; exact same
  · split at h
    · next same => cases h; exact same
    · cases h

/-- **All that a word can do**: it is the command, or the screen behind `render`. -/
theorem setWord_eq_ok {a b : Arguments} {text : String} :
    a.setWord text = .ok b ↔
      (a.command = .none ∧ ∃ c : Command, text = c.word ∧ b = { a with command := some c }) ∨
        (a.command = some .render ∧ a.screen = .none ∧ b = { a with screen := some text }) := by
  constructor
  · intro h
    unfold setWord at h
    split at h
    · next c hcommand hword =>
      cases h
      exact .inl ⟨hcommand, c, word_of_command? hword, rfl⟩
    · split at h
      · next vacant =>
        cases h
        exact .inr ⟨vacant.1, vacant.2, rfl⟩
      · cases h
  · rintro (⟨hcommand, c, rfl, rfl⟩ | ⟨hcommand, hscreen, rfl⟩)
    · simp only [setWord, hcommand, command?_word]
    · simp only [setWord, hcommand, hscreen, and_self, if_true]

/-- Words are read if they ask for something, and set nothing but the command and the screen. -/
theorem foldlM_setWord_eq_ok {texts : List String} {b : Arguments} :
    texts.foldlM setWord none = .ok b ↔
      Words texts b.command b.screen ∧
        b = { none with command := b.command, screen := b.screen } := by
  constructor
  · intro h
    match texts with
    | [] =>
      cases h
      exact ⟨.nothing, rfl⟩
    | text :: texts =>
      obtain ⟨b₁, hfirst, h⟩ := bind_eq_ok.mp h
      obtain ⟨-, c, rfl, rfl⟩ | ⟨hcommand, -⟩ := setWord_eq_ok.mp hfirst
      · match texts with
        | [] =>
          cases h
          exact ⟨.command c, rfl⟩
        | name :: texts =>
          obtain ⟨b₂, hsecond, h⟩ := bind_eq_ok.mp h
          obtain ⟨hcommand, -⟩ | ⟨hcommand, -, rfl⟩ := setWord_eq_ok.mp hsecond
          · cases hcommand
          · cases hcommand
            match texts with
            | [] =>
              cases h
              exact ⟨.screen name, rfl⟩
            | _ :: _ =>
              -- no third word has a place
              obtain ⟨b₃, hthird, -⟩ := bind_eq_ok.mp h
              obtain ⟨hcommand, -⟩ | ⟨-, hscreen, -⟩ := setWord_eq_ok.mp hthird
              · cases hcommand
              · cases hscreen
      · cases hcommand
  · rintro ⟨asked, hb⟩
    rw [hb]
    clear hb
    generalize b.command = command at asked ⊢
    generalize b.screen = screen at asked ⊢
    cases asked with
    | nothing => rfl
    | command c =>
      refine bind_eq_ok.mpr ⟨_, setWord_eq_ok.mpr (.inl ⟨rfl, c, rfl, rfl⟩), rfl⟩
    | screen name =>
      refine bind_eq_ok.mpr ⟨_, setWord_eq_ok.mpr (.inl ⟨rfl, .render, rfl, rfl⟩), ?_⟩
      exact bind_eq_ok.mpr ⟨_, setWord_eq_ok.mpr (.inr ⟨rfl, rfl, rfl⟩), rfl⟩

/-! ## What options mean -/

/-- A field of the arguments that each option keeps, or else sets to its own value, ends with the
last value of all. -/
theorem foldl_set_value {α : Type} (field : Arguments → Option α)
    (value? : ArgumentOption → Option α)
    (step : ∀ a o, field (a.set o) = (value? o).or (field a)) (a : Arguments)
    (os : List ArgumentOption) :
    field (os.foldl set a) = (os.filterMap value?).getLast?.or (field a) := by
  induction os generalizing a with
  | nil => rfl
  | cons o os ih =>
    rw [List.foldl_cons, ih, step, List.filterMap_cons]
    cases value? o with
    | none => rfl
    | some value =>
      rw [List.getLast?_cons]
      cases (os.filterMap value?).getLast? <;> rfl

/-- A flag of the arguments that some options set, and no option takes back, ends as set if such an
option occurs. -/
theorem foldl_set_flag (field : Arguments → Bool) (sets : ArgumentOption → Prop)
    (step : ∀ a o, field (a.set o) = true ↔ field a = true ∨ sets o) (a : Arguments)
    (os : List ArgumentOption) :
    field (os.foldl set a) = true ↔ field a = true ∨ ∃ o ∈ os, sets o := by
  induction os generalizing a with
  | nil => simp only [List.foldl_nil, List.not_mem_nil, false_and, exists_false, or_false]
  | cons o os ih =>
    simp only [List.foldl_cons, ih, step, or_assoc, List.mem_cons, exists_eq_or_imp]

/-- Options leave the command and the screen alone. -/
theorem foldl_set_words (a : Arguments) (os : List ArgumentOption) :
    (os.foldl set a).command = a.command ∧ (os.foldl set a).screen = a.screen := by
  induction os generalizing a with
  | nil => exact ⟨rfl, rfl⟩
  | cons o os ih =>
    rw [List.foldl_cons, (ih _).1, (ih _).2]
    cases o <;> exact ⟨rfl, rfl⟩

/-- What the words ask for, with the options set, is what the items mean. -/
theorem means_foldl_set {items : List ArgumentItem} {command : Option Command}
    {screen : Option String} (asked : Words (words items) command screen) :
    Means items
      ((options items).foldl set { none with command := command, screen := screen }) := by
  constructor
  · rw [(foldl_set_words _ _).1, (foldl_set_words _ _).2]
    exact asked
  · rw [foldl_set_value Arguments.profile ArgumentOption.profile? fun a o => by cases o <;> rfl]
    exact Option.or_none
  · rw [foldl_set_value Arguments.output ArgumentOption.output? fun a o => by cases o <;> rfl]
    exact Option.or_none
  · rw [foldl_set_flag Arguments.all (fun o => o = .all) fun a o => by cases o <;> simp [set]]
    simp only [none, Bool.false_eq_true, false_or, exists_eq_right]
  · rw [foldl_set_flag Arguments.stdout (fun o => o = .stdout)
      fun a o => by cases o <;> simp [set]]
    simp only [none, Bool.false_eq_true, false_or, exists_eq_right]
  · rw [foldl_set_flag Arguments.showHelp (fun o => ∃ short, o = .help short)
      fun a o => by cases o <;> simp [set]]
    simp only [none, Bool.false_eq_true, false_or]
    constructor
    · rintro ⟨_, ho, short, rfl⟩
      exact ⟨short, ho⟩
    · rintro ⟨short, ho⟩
      exact ⟨.help short, ho, short, rfl⟩
  · rw [foldl_set_flag Arguments.showVersion (fun o => ∃ short, o = .version short)
      fun a o => by cases o <;> simp [set]]
    simp only [none, Bool.false_eq_true, false_or]
    constructor
    · rintro ⟨_, ho, short, rfl⟩
      exact ⟨short, ho⟩
    · rintro ⟨short, ho⟩
      exact ⟨.version short, ho, short, rfl⟩

/-- Items have one meaning for each way to understand their words. -/
theorem Means.unique {items : List ArgumentItem} {a b : Arguments} (ha : Means items a)
    (hb : Means items b) (command : a.command = b.command) (screen : a.screen = b.screen) :
    a = b := by
  have all : a.all = b.all := Bool.eq_iff_iff.mpr (ha.all.trans hb.all.symm)
  have stdout : a.stdout = b.stdout := Bool.eq_iff_iff.mpr (ha.stdout.trans hb.stdout.symm)
  have help : a.showHelp = b.showHelp := Bool.eq_iff_iff.mpr (ha.showHelp.trans hb.showHelp.symm)
  have version : a.showVersion = b.showVersion :=
    Bool.eq_iff_iff.mpr (ha.showVersion.trans hb.showVersion.symm)
  have profile : a.profile = b.profile := ha.profile.trans hb.profile.symm
  have output : a.output = b.output := ha.output.trans hb.output.symm
  cases a
  cases b
  simp only [mk.injEq]
  exact ⟨command, screen, all, profile, output, stdout, help, version⟩

/-- **What items mean is what reading them gives.** -/
theorem parse_spellAll_eq_ok {items : List ArgumentItem} {a : Arguments} :
    parse (spellAll items) = .ok a ↔ Means items a := by
  rw [parse_spellAll]
  constructor
  · intro h
    cases hwords : (words items).foldlM setWord none with
    | error fault =>
      rw [hwords] at h
      cases h
    | ok b =>
      rw [hwords] at h
      cases h
      obtain ⟨asked, hb⟩ := foldlM_setWord_eq_ok.mp hwords
      rw [hb]
      exact means_foldl_set asked
  · intro h
    have hwords : (words items).foldlM setWord none =
        .ok { none with command := a.command, screen := a.screen } :=
      foldlM_setWord_eq_ok.mpr ⟨h.words, rfl⟩
    rw [hwords]
    apply congrArg Except.ok
    apply (means_foldl_set h.words).unique h
    · rw [(foldl_set_words _ _).1]
    · rw [(foldl_set_words _ _).2]

theorem exists_parse_iff {arguments : List String} :
    (∃ a, parse arguments = .ok a) ↔ Grammatical arguments := by
  constructor
  · rintro ⟨a, h⟩
    obtain ⟨items, rfl⟩ := exists_items_of_read h
    exact ⟨items, rfl, a.command, a.screen, (parse_spellAll_eq_ok.mp h).words⟩
  · rintro ⟨items, rfl, command, screen, asked⟩
    exact ⟨_, parse_spellAll_eq_ok.mpr (means_foldl_set asked)⟩

/-- **Arguments are read exactly if they follow the grammar**, and then with the meaning of the
items that spell them; otherwise the run ends with exit code 1, says why, and touches no file. Where
among the words the options stand makes no difference. -/
theorem parse_grammar (arguments : List String) :
    ((∃ a, parse arguments = .ok a) ↔ Grammatical arguments) ∧
      (∀ items, spellAll items = arguments → ∀ a, parse arguments = .ok a ↔ Means items a) ∧
      (¬ Grammatical arguments → ∃ fault, parse arguments = .error fault ∧
        ∀ e files, Cli.run arguments e files = ⟨.exit 1, Cli.lines fault.lines, [], files⟩) ∧
      ∀ items items', spellAll items = arguments → words items = words items' →
        options items = options items' → parse (spellAll items') = parse arguments := by
  refine ⟨exists_parse_iff, ?_, ?_, ?_⟩
  · rintro items rfl a
    exact parse_spellAll_eq_ok
  · intro refused
    cases h : parse arguments with
    | ok a => exact absurd (exists_parse_iff.mp ⟨a, h⟩) refused
    | error fault =>
      refine ⟨fault, rfl, ?_⟩
      intro e files
      rw [Cli.run, h]
  · rintro items items' rfl sameWords sameOptions
    rw [parse_spellAll, parse_spellAll, sameWords, sameOptions]

/-- A value that looks like an option, a screen that is named like a command, and options on all
sides of the words. -/
example : parse ["--stdout", "render", "--profile", "--all", "list", "-h", "--profile", ""] =
    .ok ⟨some .render, some "list", false, some "", .none, true, true, false⟩ := by rfl

end Arguments

end PixelLayout
