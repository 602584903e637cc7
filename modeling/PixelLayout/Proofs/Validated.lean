import PixelLayout.Profile.Reading
import PixelLayout.Proofs.Refresh

/-!
# Which profiles can be read

A profile is a plain record, and what its numbers have to be is checked only where one is read from
a configuration. `Profile.Valid` says it of the profile itself: **a profile is valid exactly if some
configuration is read as it** (`valid_iff_exists_readFields`), so what holds of every valid profile
holds of every display that an author can configure, and of no other.
-/

namespace PixelLayout

namespace Reading

variable {α β : Type}

theorem map_eq_ok {f : α → β} {r : Reading α} {b : β} :
    r.map f = .ok b ↔ ∃ a, r = .ok a ∧ f a = b := by
  cases r <;> simp only [map, ok.injEq, reduceCtorEq, exists_eq_left', false_and, exists_false]

theorem both_eq_ok {f : Reading (α → β)} {r : Reading α} {b : β} :
    f.both r = .ok b ↔ ∃ g a, f = .ok g ∧ r = .ok a ∧ g a = b := by
  cases f <;> cases r <;>
    simp only [both, ok.injEq, reduceCtorEq, exists_eq_left', exists_and_left, false_and, and_false,
      exists_false]

theorem within_eq_ok {step : Step} {r : Reading α} {a : α} : r.within step = .ok a ↔ r = .ok a := by
  cases r <;> simp only [within, ok.injEq, reduceCtorEq]

theorem check_eq_ok {fault : FieldFault} {test : α → Bool} {r : Reading α} {a : α} :
    r.check fault test = .ok a ↔ r = .ok a ∧ test a = true := by
  cases r with
  | ok b =>
    rw [check]
    split
    · next passes =>
      rw [ok.injEq]
      exact ⟨fun h => ⟨h, h ▸ passes⟩, And.left⟩
    · next fails =>
      rw [ok.injEq]
      exact ⟨nofun, fun ⟨h, passes⟩ => absurd (h ▸ passes) fails⟩
  | faults first rest => exact ⟨nofun, nofun⟩

end Reading

namespace Value

variable {α : Type} {fields : List (String × Value)}

/-- A field that has to be there is read if it is there and can be read. -/
theorem readField_eq_ok {name : String} {read : Value → Reading α} {a : α} :
    readField fields name read = .ok a ↔ ∃ v, lookup fields name = some v ∧ read v = .ok a := by
  rw [readField, Reading.within_eq_ok]
  cases lookup fields name with
  | none => exact ⟨nofun, nofun⟩
  | some v => exact ⟨fun h => ⟨v, rfl, h⟩, fun ⟨_, h, hread⟩ => Option.some.inj h ▸ hread⟩

/-- What is read from a field that may be absent passes the test of its reader, if what stands for
the absent field does. -/
theorem of_readFieldOr {name : String} {absent a : α} {read : Value → Reading α} {P : α → Prop}
    (h : readFieldOr fields name absent read = .ok a) (habsent : P absent)
    (hread : ∀ v a, read v = .ok a → P a) : P a := by
  unfold readFieldOr at h
  cases hfield : lookup fields name with
  | none =>
    rw [hfield] at h
    cases h
    exact habsent
  | some v =>
    rw [hfield] at h
    exact hread v a (Reading.within_eq_ok.mp h)

theorem readFieldOr_of_lookup {name : String} {absent a : α} {read : Value → Reading α} {v : Value}
    (hfield : lookup fields name = some v) (hread : read v = .ok a) :
    readFieldOr fields name absent read = .ok a := by
  rw [readFieldOr, hfield]
  exact Reading.within_eq_ok.mpr hread

theorem readPositive_whole {n : Int} (h : 0 < n) : (whole n).readPositive = .ok n :=
  Reading.check_eq_ok.mpr ⟨rfl, decide_eq_true h⟩

theorem readNonnegative_whole {n : Int} (h : 0 ≤ n) : (whole n).readNonnegative = .ok n :=
  Reading.check_eq_ok.mpr ⟨rfl, decide_eq_true h⟩

theorem readPositive_pos {v : Value} {n : Int} (h : v.readPositive = .ok n) : 0 < n :=
  of_decide_eq_true (Reading.check_eq_ok.mp h).2

theorem readNonnegative_nonneg {v : Value} {n : Int} (h : v.readNonnegative = .ok n) : 0 ≤ n :=
  of_decide_eq_true (Reading.check_eq_ok.mp h).2

theorem eq_ok_of_refuseOthers {known : List String} {r : Reading α} {a : α}
    (h : refuseOthers fields known r = .ok a) : r = .ok a := by
  simp only [refuseOthers] at h
  split at h
  · exact h
  · obtain ⟨_, _, hfaults, _⟩ := Reading.both_eq_ok.mp h
    cases hfaults

end Value

/-! ## Font tables -/

theorem neighboursDescend_of_pairwise :
    ∀ {ns : List Int}, ns.Pairwise (fun a b => b < a) → neighboursDescend ns = true
  | [], _ => rfl
  | [_], _ => rfl
  | a :: b :: rest, h => by
    obtain ⟨ha, hrest⟩ := List.pairwise_cons.mp h
    rw [neighboursDescend, neighboursDescend_of_pairwise hrest, Bool.and_true]
    exact decide_eq_true (ha b List.mem_cons_self)

namespace FontTable

/-- A font table is made of its own entries. -/
theorem ofEntries_entries (t : FontTable) : ofEntries t.entries = .ok t := by
  unfold ofEntries
  rw [dif_neg t.nonempty]
  split
  · next f hf =>
    have outOfRange := List.find?_some hf
    rw [decide_eq_true_eq] at outOfRange
    have inRange := t.positive f (List.mem_of_find?_eq_some hf)
    omega
  · rw [dif_pos (neighboursDescend_of_pairwise t.descending)]

/-- One font, as a pair of numbers. -/
def fontValue (f : BitmapFont) : Value := .list [.whole f.size, .whole f.glyphWidth]

/-- A list of fonts as a configuration gives it. -/
def entriesValue (entries : List BitmapFont) : Value :=
  .record [("entries", .list (entries.map fontValue))]

/-- A font table as a configuration gives it. -/
def toValue (t : FontTable) : Value := .record [("entries", .list (t.entries.map fontValue))]

theorem readFonts_map (i : Nat) (fonts : List BitmapFont) :
    readFonts i (fonts.map fontValue) = (fonts, []) := by
  induction fonts generalizing i with
  | nil => rfl
  | cons f fonts ih =>
    rw [List.map_cons, readFonts, ih]
    rfl

theorem readEntries_map {entries : List BitmapFont} {t : FontTable} :
    readEntries (.list (entries.map fontValue)) = .ok t ↔ ofEntries entries = .ok t := by
  simp only [readEntries, readFonts_map]
  cases ofEntries entries with
  | ok u => simp only [Reading.ok.injEq, Except.ok.injEq]
  | error fault => cases fault <;> exact ⟨nofun, nofun⟩

/-- Where every font is a pair of numbers, the table is all that can be at fault. -/
theorem read_entriesValue {entries : List BitmapFont} {t : FontTable} :
    read (entriesValue entries) = .ok t ↔ ofEntries entries = .ok t := by
  have known : read (entriesValue entries) =
      Value.readField [("entries", .list (entries.map fontValue))] "entries" readEntries := rfl
  rw [known, Value.readField_eq_ok, ← readEntries_map]
  constructor
  · rintro ⟨v, found, h⟩
    exact (congrArg readEntries (Option.some.inj found)).trans h
  · intro h
    exact ⟨_, rfl, h⟩

theorem read_toValue (t : FontTable) : read t.toValue = .ok t :=
  read_entriesValue.mpr t.ofEntries_entries

end FontTable

namespace Profile

/-- The name of a profile may hold the character. -/
def NameChar (c : Char) : Bool := ('a' ≤ c && c ≤ 'z') || ('0' ≤ c && c ≤ '9') || c == '_'

/-- The numbers and the name of the profile are such as a configuration can give them. -/
structure Valid (p : Profile) : Prop where
  name_ne : p.name ≠ ""
  name_chars : p.name.toList.all NameChar = true
  width_pos : 0 < p.width
  height_pos : 0 < p.height
  margins : p.MarginsNonNeg
  band_pos : 0 < p.staticBandHeight

/-- **What is read from a configuration is valid.** -/
theorem valid_of_readFields {fields : List (String × Value)} {p : Profile}
    (h : readFields fields = .ok p) : p.Valid := by
  obtain ⟨_, _, toBand, _, rfl⟩ := Reading.both_eq_ok.mp (Value.eq_ok_of_refuseOthers h)
  obtain ⟨_, _, toItem, hband, rfl⟩ := Reading.both_eq_ok.mp toBand
  obtain ⟨_, _, toVertical, hitem, rfl⟩ := Reading.both_eq_ok.mp toItem
  obtain ⟨_, _, toHorizontal, hvertical, rfl⟩ := Reading.both_eq_ok.mp toVertical
  obtain ⟨_, _, toTable, hhorizontal, rfl⟩ := Reading.both_eq_ok.mp toHorizontal
  obtain ⟨_, _, toHeight, _, rfl⟩ := Reading.both_eq_ok.mp toTable
  obtain ⟨_, _, toWidth, hheight, rfl⟩ := Reading.both_eq_ok.mp toHeight
  obtain ⟨_, _, toName, hwidth, rfl⟩ := Reading.both_eq_ok.mp toWidth
  obtain ⟨_, hname, rfl⟩ := Reading.map_eq_ok.mp toName
  obtain ⟨_, _, hname⟩ := Value.readField_eq_ok.mp hname
  obtain ⟨hname, chars⟩ := Reading.check_eq_ok.mp hname
  obtain ⟨_, filled⟩ := Reading.check_eq_ok.mp hname
  obtain ⟨_, _, hwidth⟩ := Value.readField_eq_ok.mp hwidth
  obtain ⟨_, _, hheight⟩ := Value.readField_eq_ok.mp hheight
  have nonneg {field : String} {absent n : Int} (habsent : 0 ≤ absent)
      (h : Value.readFieldOr fields field absent Value.readNonnegative = .ok n) : 0 ≤ n :=
    Value.of_readFieldOr h habsent fun _ _ => Value.readNonnegative_nonneg
  exact
    { name_ne := bne_iff_ne.mp filled
      name_chars := chars
      width_pos := Value.readPositive_pos hwidth
      height_pos := Value.readPositive_pos hheight
      margins := ⟨nonneg (by decide) hhorizontal, nonneg (by decide) hvertical,
        nonneg (by decide) hitem⟩
      band_pos := Value.of_readFieldOr hband (by decide) fun _ _ => Value.readPositive_pos }

/-- A profile as a configuration gives it, with no field left out. -/
def toFields (p : Profile) : List (String × Value) :=
  [("name", .text p.name), ("width", .whole p.width), ("height", .whole p.height),
    ("font_table", p.fontTable.toValue),
    ("horizontal_separator_margin", .whole p.horizontalSeparatorMargin),
    ("vertical_separator_margin", .whole p.verticalSeparatorMargin),
    ("list_item_margin", .whole p.listItemMargin),
    ("static_band_height", .whole p.staticBandHeight),
    ("preview_font_family", .text p.previewFontFamily)]

theorem readFields_toFields {p : Profile} (h : p.Valid) : readFields p.toFields = .ok p := by
  obtain ⟨horizontal, vertical, item⟩ := h.margins
  have name : Value.readField p.toFields "name" Value.readName = .ok p.name :=
    Value.readField_eq_ok.mpr ⟨_, rfl, Reading.check_eq_ok.mpr
      ⟨Reading.check_eq_ok.mpr ⟨rfl, bne_iff_ne.mpr h.name_ne⟩, h.name_chars⟩⟩
  have width : Value.readField p.toFields "width" Value.readPositive = .ok p.width :=
    Value.readField_eq_ok.mpr ⟨_, rfl, Value.readPositive_whole h.width_pos⟩
  have height : Value.readField p.toFields "height" Value.readPositive = .ok p.height :=
    Value.readField_eq_ok.mpr ⟨_, rfl, Value.readPositive_whole h.height_pos⟩
  have table : Value.readField p.toFields "font_table" FontTable.read = .ok p.fontTable :=
    Value.readField_eq_ok.mpr ⟨_, rfl, p.fontTable.read_toValue⟩
  have margin (field : String) {absent n : Int}
      (hfield : Value.lookup p.toFields field = some (.whole n)) (hn : 0 ≤ n) :
      Value.readFieldOr p.toFields field absent Value.readNonnegative = .ok n :=
    Value.readFieldOr_of_lookup hfield (Value.readNonnegative_whole hn)
  have band : Value.readFieldOr p.toFields "static_band_height" 13 Value.readPositive =
      .ok p.staticBandHeight :=
    Value.readFieldOr_of_lookup rfl (Value.readPositive_whole h.band_pos)
  have family : Value.readFieldOr p.toFields "preview_font_family" defaultPreviewFontFamily
      Value.readText = .ok p.previewFontFamily :=
    Value.readFieldOr_of_lookup rfl rfl
  have known : (p.toFields.filter fun f => !fieldNames.contains f.1) = [] := rfl
  simp only [readFields, Value.refuseOthers, known, List.map_nil, name, width, height, table,
    margin "horizontal_separator_margin" rfl horizontal,
    margin "vertical_separator_margin" rfl vertical, margin "list_item_margin" rfl item, band,
    family]
  rfl

/-- **The valid profiles are those that a configuration can be read as.** -/
theorem valid_iff_exists_readFields {p : Profile} :
    p.Valid ↔ ∃ fields, readFields fields = .ok p :=
  ⟨fun h => ⟨p.toFields, readFields_toFields h⟩, fun ⟨_, h⟩ => valid_of_readFields h⟩

theorem valid_of_mem_builtIn : ∀ p ∈ builtIn, p.Valid := by
  simp only [builtIn, List.forall_mem_cons, List.not_mem_nil, false_implies, implies_true, and_true]
  exact ⟨⟨by decide, by decide, by decide, by decide, by decide, by decide⟩,
    ⟨by decide, by decide, by decide, by decide, by decide, by decide⟩⟩

end Profile

end PixelLayout
