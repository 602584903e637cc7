import PixelLayout.Artifact.Generated
import PixelLayout.Proofs.Cut
import PixelLayout.Proofs.Emission
import PixelLayout.Proofs.Findings
import PixelLayout.Proofs.Stopped
import PixelLayout.Proofs.Validated

/-!
# What becomes of a screen

A screen is checked, laid out on the whole display, and emitted. A check that finds nothing
(`Node.Sound`) leaves a pass little to stop at: the shares are proper, so every split cuts inside its
height, and no node offends but by a margin that its area has no room for (`resolve_of_sound`). What
a pass has laid out is always emitted. So **a screen whose shares are doubles is generated, or
refused with what the check found, or refused for one margin, or a number in such a refusal is too
long to be written** (`generate_cases_iff`), and nothing else goes wrong on the way: no cut is asked
of a share that is no number or of a height that is no double, no font lacks its glyphs, and no tile
its place.

Of a generated screen every refresh is known: its area is the rectangle of a tile, which lies on the
display, without the outermost pixels. **Along an axis the area is in order exactly if the tile is
at least two pixels long there** (`refreshes_of_generate`). Checks and passes accept thinner tiles,
and of those a refresh ends before it starts (`not_forall_refreshes_spansIn`).
-/

namespace PixelLayout

/-- A visit that cuts inside its height halts with its offence. -/
theorem Visit.halt_of_cutsInside {p : Profile} {v : Visit} (cuts : v.CutsInside) :
    v.halt p = (v.offence p).map .layout := by
  rcases halt_eq_offence p v with h | ⟨e, h⟩
  · exact h
  · obtain ⟨n, d⟩ := v
    cases n with
    | split a s b t r =>
      obtain ⟨up, hup, _⟩ := cuts
      cases hcut : s.cut d.height with
      | ok up' => simp only [halt, hcut, reduceCtorEq] at h
      | error e' =>
        rw [hcut] at hup
        cases hup
    | _ =>
      rw [halt, Option.map_eq_some_iff] at h
      obtain ⟨_, _, h⟩ := h
      cases h

namespace Node

open Check

/-- A check of the tree on the display finds nothing. -/
def Sound (root : Node) (p : Profile) : Prop := root.check (some p) = .ok []

variable {root : Node} {p : Profile}

theorem Sound.nodeProblems (h : root.Sound p) {n : Node} (hn : n ∈ root.walk) :
    Check.nodeProblems (some p) n = .ok [] := by
  obtain ⟨problems, hproblems⟩ := exists_check_iff.mp ⟨[], h⟩ n hn
  rw [← sites_node root "root"] at hn
  obtain ⟨q, hq, rfl⟩ := List.mem_map.mp hn
  cases problems with
  | nil => exact hproblems
  | cons x problems =>
    have found : (⟨q.path, x⟩ : Finding) ∈ ([] : List Finding) :=
      (mem_check h _).mpr ⟨q, hq, rfl, _, hproblems, List.mem_cons_self⟩
    cases found

theorem Sound.not_violates (h : root.Sound p) {n : Node} (hn : n ∈ root.walk) (x : Problem) :
    ¬ Violates (some p) n x := by
  intro violates
  cases ((violations_of_nodeProblems (h.nodeProblems hn)).2.1.mem_iff x).mpr violates

/-- The shares of a sound tree are proper. -/
theorem Sound.properCut (h : root.Sound p) {bounds : Rect} :
    ∀ v ∈ Pass.visits p root bounds, v.ProperCut := by
  intro v hv a s b t r hnode
  have hwalk := Pass.visit_node_mem hv
  rw [hnode] at hwalk
  by_contra improper
  exact h.not_violates hwalk (.improperShare .first s)
    (.firstShare fun inside => improper (Share.isProper_iff.mpr inside))

theorem Sound.cutsInside (h : root.Sound p) {bounds : Rect} (nonneg : 0 ≤ bounds.height)
    (exact : bounds.height ≤ 2 ^ 53) : ∀ v ∈ Pass.visits p root bounds, v.CutsInside :=
  Pass.visits_cutInside p root bounds nonneg exact h.properCut

/-- Where a sound tree offends, it is by a margin. -/
theorem Sound.ofMargin (h : root.Sound p) (known : ∀ n ∈ root.walk, n.kind ≠ .bare) {v : Visit}
    {bounds : Rect} (hv : v ∈ Pass.visits p root bounds) {e : LayoutFault}
    (he : v.offence p = some e) : e.ofMargin = true := by
  have hwalk := Pass.visit_node_mem hv
  by_contra other
  obtain ⟨x, violates, _⟩ := (Visit.offence_iff_violates (known _ hwalk)).mp
    ⟨e, he, Bool.eq_false_iff.mpr other⟩
  exact h.not_violates hwalk x violates

/-- **All that a pass over a sound tree can stop at is a margin.** -/
theorem resolve_of_sound (h : root.Sound p) (known : ∀ n ∈ root.walk, n.kind ≠ .bare)
    {bounds : Rect} (nonneg : 0 ≤ bounds.height) (exact : bounds.height ≤ 2 ^ 53) :
    (∃ out, root.resolve bounds p = .ok out) ∨
      ∃ e, e.ofMargin = true ∧ (root.resolveInPlace bounds p).fault = some (.layout e) := by
  cases stopped : (root.resolveInPlace bounds p).fault with
  | none => exact .inl (exists_resolve_iff.mpr stopped)
  | some fault =>
    rw [resolveInPlace_fault] at stopped
    obtain ⟨v, hv, halts⟩ := List.exists_of_findSome?_eq_some stopped
    rw [Visit.halt_of_cutsInside (h.cutsInside nonneg exact v hv)] at halts
    obtain ⟨e, he, rfl⟩ := Option.map_eq_some_iff.mp halts
    exact .inr ⟨e, h.ofMargin known hv he, rfl⟩

/-! ## The three steps -/

variable {name : String} {options : DrawCode.Options}

theorem requireSound_of_sound (h : root.Sound p) : root.requireSound p name = .ok () := by
  rw [requireSound, h]
  rfl

/-- A tree with findings is refused with all of them. -/
theorem generate_of_findings {f : Finding} {fs : List Finding}
    (h : root.check (some p) = .ok (f :: fs)) :
    root.generate p name options =
      .error (.layout (.notValid name p.name ((f :: fs).map Finding.message))) := by
  rw [generate, requireSound, h]
  rfl

/-- What stops the check stops the screen. -/
theorem generate_of_numberFault {e : NumberFault} (h : root.check (some p) = .error e) :
    root.generate p name options = .error (.number e) := by
  rw [generate, requireSound, h]
  rfl

/-- What stops the pass stops the screen, in words if these can be written. -/
theorem generate_of_fault (h : root.Sound p) {fault : Fault}
    (stopped : (root.resolveInPlace p.bounds p).fault = some fault) :
    root.generate p name options = .error fault.raised := by
  rw [generate, requireSound_of_sound h, resolve_of_fault stopped]
  rfl

theorem sound_of_requireSound (h : root.requireSound p name = .ok ()) : root.Sound p := by
  obtain ⟨findings, hfindings, h⟩ := bind_eq_ok.mp h
  rw [Sound]
  cases hcheck : root.check (some p) with
  | error e =>
    rw [hcheck] at hfindings
    cases hfindings
  | ok fs =>
    rw [hcheck] at hfindings
    obtain rfl := Except.ok.inj hfindings
    cases fs with
    | nil => rfl
    | cons f fs => cases h

theorem sound_of_isEmpty
    (h : (root.check (some p)).toOption.map List.isEmpty = some true) : root.Sound p := by
  rw [Sound]
  cases hcheck : root.check (some p) with
  | error e =>
    rw [hcheck] at h
    cases h
  | ok fs =>
    rw [hcheck] at h
    rw [List.isEmpty_iff.mp (Option.some.inj h)]

/-- A screen is generated of a sound tree that is laid out and emitted. -/
theorem generate_eq_ok_iff {g : Generated} :
    root.generate p name options = .ok g ↔
      root.Sound p ∧ root.resolve p.bounds p = .ok g.layout ∧
        Preview.render g.layout p.bounds p = .ok g.preview ∧
          DrawCode.render g.layout p.bounds p options = .ok g.drawCode ∧
            g.name = name ∧ g.profile = p := by
  constructor
  · intro h
    obtain ⟨_, sound, h⟩ := bind_eq_ok.mp h
    obtain ⟨out, hresolve, h⟩ := bind_eq_ok.mp h
    obtain ⟨preview, hpreview, h⟩ := bind_eq_ok.mp h
    obtain ⟨drawCode, hdrawCode, h⟩ := bind_eq_ok.mp h
    cases h
    exact ⟨sound_of_requireSound sound, hresolve, hpreview, hdrawCode, rfl, rfl⟩
  · rintro ⟨sound, hresolve, hpreview, hdrawCode, rfl, rfl⟩
    refine bind_eq_ok.mpr ⟨(), requireSound_of_sound sound, ?_⟩
    refine bind_eq_ok.mpr ⟨_, hresolve, ?_⟩
    refine bind_eq_ok.mpr ⟨_, hpreview, ?_⟩
    exact bind_eq_ok.mpr ⟨_, hdrawCode, rfl⟩

/-- What is laid out is emitted. -/
theorem exists_generate (h : root.Sound p) {out : Node}
    (hresolve : root.resolve p.bounds p = .ok out) (name : String) (options : DrawCode.Options) :
    ∃ g, root.generate p name options = .ok g := by
  obtain ⟨⟨preview, hpreview⟩, _, ⟨drawCode, hdrawCode⟩⟩ :=
    emitted_of_resolved (isResolved_of_resolve hresolve) p.bounds p options
  exact ⟨⟨name, p, out, preview, drawCode⟩,
    generate_eq_ok_iff.mpr ⟨h, hresolve, hpreview, hdrawCode, rfl, rfl⟩⟩

/-! ## How a screen ends -/

/-- Whatever a screen is refused for can be written. -/
theorem sayable_of_generate {fault : Fault} (h : root.generate p name options = .error fault) :
    fault.Sayable := by
  cases hcheck : root.check (some p) with
  | error e =>
    rw [generate_of_numberFault hcheck] at h
    cases h
    exact allWritable_nil
  | ok fs =>
    cases fs with
    | cons f fs =>
      rw [generate_of_findings hcheck] at h
      cases h
      exact allWritable_nil
    | nil =>
      cases stopped : (root.resolveInPlace p.bounds p).fault with
      | none =>
        obtain ⟨out, hresolve⟩ := exists_resolve_iff.mpr stopped
        obtain ⟨g, hg⟩ := exists_generate hcheck hresolve name options
        rw [hg] at h
        cases h
      | some met =>
        rw [generate_of_fault hcheck stopped] at h
        cases h
        exact met.sayable_raised

/-- **How a screen ends**, whatever doubles its shares are, whatever its lists show and whatever font
sizes its tiles ask for: it is generated, or refused with all that the check found, or the check
finds nothing and the pass is stopped by one margin; or a number is too long for the words of one of
these refusals. The last is so exactly if the check cannot write all that is wrong, or finds nothing
and the fault of the pass cannot be written. -/
theorem generate_cases_iff (hp : p.Valid) (exact : p.height ≤ 2 ^ 53)
    (known : ∀ n ∈ root.walk, n.kind ≠ .bare) (reals : root.SharesReal) (name : String)
    (options : DrawCode.Options) :
    ((∃ g, root.generate p name options = .ok g) ∨
      (∃ fs, fs ≠ [] ∧ root.check (some p) = .ok fs ∧ root.generate p name options =
        .error (.layout (.notValid name p.name (fs.map Finding.message)))) ∨
      (∃ e, e.ofMargin = true ∧ root.Sound p ∧
        (root.resolveInPlace p.bounds p).fault = some (.layout e) ∧
          root.generate p name options = .error (.layout e)) ∨
      root.generate p name options = .error (.number .tooManyDigits)) ∧
    (root.generate p name options = .error (.number .tooManyDigits) ↔
      ¬ root.Sayable (some p) ∨ root.Sound p ∧
        ∃ e, (root.resolveInPlace p.bounds p).fault = some (.layout e) ∧
          ¬ (Fault.layout e).Sayable) := by
  by_cases sayable : root.Sayable (some p)
  · obtain ⟨fs, hfs⟩ := exists_check_iff_sayable.mpr ⟨reals.sums, sayable⟩
    simp only [sayable, not_true_eq_false, false_or]
    cases fs with
    | cons f fs =>
      have refused : root.generate p name options =
          .error (.layout (.notValid name p.name ((f :: fs).map Finding.message))) :=
        generate_of_findings hfs
      refine ⟨.inr (.inl ⟨f :: fs, List.cons_ne_nil f fs, hfs, refused⟩), ?_⟩
      rw [refused, Sound, hfs]
      exact ⟨nofun, fun h => (nomatch h.1)⟩
    | nil =>
      have nonneg : 0 ≤ p.bounds.height := Int.le_of_lt hp.height_pos
      rcases resolve_of_sound hfs known nonneg exact with ⟨out, hresolve⟩ | ⟨e, he, stopped⟩
      · obtain ⟨g, hg⟩ := exists_generate hfs hresolve name options
        refine ⟨.inl ⟨g, hg⟩, ?_⟩
        rw [hg, exists_resolve_iff.mp ⟨out, hresolve⟩]
        exact ⟨nofun, fun ⟨_, _, h, _⟩ => (nomatch h)⟩
      · have ended : root.generate p name options = .error (Fault.layout e).raised :=
          generate_of_fault hfs stopped
        by_cases short : (Fault.layout e).Sayable
        · rw [Fault.raised_of_sayable short] at ended
          refine ⟨.inr (.inr (.inl ⟨e, he, hfs, stopped, ended⟩)), ?_⟩
          rw [ended, stopped]
          refine ⟨nofun, ?_⟩
          rintro ⟨_, e', h, long⟩
          cases h
          exact absurd short long
        · rw [Fault.raised_of_not_sayable short] at ended
          exact ⟨.inr (.inr (.inr ended)), fun _ => ⟨hfs, e, stopped, short⟩, fun _ => ended⟩
  · have ended : root.generate p name options = .error (.number .tooManyDigits) :=
      generate_of_numberFault (reals.check_of_not_sayable sayable)
    exact ⟨.inr (.inr (.inr ended)), fun _ => .inl sayable, fun _ => ended⟩

/-- Shares that are no numbers are found by the check. -/
theorem generate_cases_iff_notANumber :
    let root : Node := .split (.tile (.ofContent "A")) (.real .nan) (.tile (.ofContent "B"))
      (.real (.infinite false)) none
    ∃ fs, fs ≠ [] ∧ root.check (some Profile.waveshare2in9) = .ok fs ∧
      root.generate Profile.waveshare2in9 "screen" DrawCode.defaultOptions =
        .error (.layout (.notValid "screen" "waveshare_2in9" (fs.map Finding.message))) := by
  intro root
  have findings : (root.check (some Profile.waveshare2in9)).toOption.map List.isEmpty =
      some false := by
    decide +kernel
  have reals : root.SharesReal := by
    intro a s b t r h
    simp only [root, walk, List.mem_cons, List.mem_append, List.not_mem_nil, reduceCtorEq, or_false,
      split.injEq] at h
    obtain ⟨-, rfl, -, rfl, -⟩ := h
    exact ⟨⟨_, rfl⟩, _, rfl⟩
  have returns : (root.check (some Profile.waveshare2in9)).toOption.isSome = true := by
    decide +kernel
  have sayable := (exists_check_iff_sayable.mp (exists_ok_of_isSome returns)).2
  have valid : Profile.waveshare2in9.Valid := Profile.valid_of_mem_builtIn _ List.mem_cons_self
  obtain ⟨ends, long⟩ :=
    generate_cases_iff valid (by decide) (by decide) reals "screen" DrawCode.defaultOptions
  rcases ends with ⟨g, hg⟩ | refused | ⟨e, _, sound, _⟩ | unsaid
  · rw [(generate_eq_ok_iff.mp hg).1] at findings
    cases findings
  · exact refused
  · rw [sound] at findings
    cases findings
  · rcases long.mp unsaid with h | ⟨sound, _⟩
    · exact absurd sayable h
    · rw [sound] at findings
      cases findings

/-- A screen with a list that shows less than can be said is neither generated nor refused as a
layout. -/
theorem not_forall_generated_or_refused :
    ¬ ∀ (root : Node) (p : Profile) (name : String) (options : DrawCode.Options),
      p.Valid → p.height ≤ 2 ^ 53 → (∀ n ∈ root.walk, n.kind ≠ .bare) → root.SharesReal →
        (∃ g, root.generate p name options = .ok g) ∨
          ∃ e, root.generate p name options = .error (.layout e) := by
  intro ends
  have ended : overlongList.generate Profile.waveshare2in9 "screen" DrawCode.defaultOptions =
      .error (.number .tooManyDigits) :=
    generate_of_numberFault
      (overlongList_sharesReal.check_of_not_sayable (overlongList_not_sayable _))
  rcases ends overlongList Profile.waveshare2in9 "screen" DrawCode.defaultOptions
      (Profile.valid_of_mem_builtIn _ List.mem_cons_self) (by decide) (by decide)
      overlongList_sharesReal with ⟨g, hg⟩ | ⟨e, he⟩
  · rw [ended] at hg
    cases hg
  · rw [ended] at he
    cases he

end Node

/-! ## The refreshes of a screen -/

namespace DrawCode.Refresh

/-- The number at which the area starts along an axis. -/
def first (area : Refresh) : Axis → Int
  | .horizontal => area.left
  | .vertical => area.top

/-- The number at which the area ends along an axis. -/
def last (area : Refresh) : Axis → Int
  | .horizontal => area.right
  | .vertical => area.bottom

/-- Along an axis the area starts on the display and does not end before it starts, nor behind the
display. -/
def SpansIn (area : Refresh) (p : Profile) (axis : Axis) : Prop :=
  0 ≤ area.first axis ∧ area.first axis ≤ area.last axis ∧
    area.last axis ≤ Pass.extent axis p.bounds

/-- A rectangle on the display has a refresh in order along an axis exactly if it is at least two
pixels long there. -/
theorem spansIn_iff {p : Profile} {r : Rect} (hr : p.bounds.Contains r) (axis : Axis) :
    (refresh r).SpansIn p axis ↔ 2 ≤ Pass.extent axis r := by
  simp only [Rect.Contains, Profile.bounds, Rect.right, Rect.bottom] at hr
  cases axis
  all_goals
    simp only [SpansIn, first, last, refresh, Pass.extent, Profile.bounds, Rect.right, Rect.bottom]
    omega

end DrawCode.Refresh

namespace Node

variable {root : Node} {p : Profile} {name : String} {options : DrawCode.Options}

/-- **What each refresh of a screen redraws**: the blocks of the draw code are those of the tiles,
each ends with the rectangle of its tile without the outermost pixels, that rectangle lies on the
display, and the area is in order along an axis exactly if the tile is at least two pixels long
there. -/
theorem refreshes_of_generate (hp : p.Valid) (exact : p.height ≤ 2 ^ 53)
    (fits : ∀ n ∈ root.walk, n.ItemsFit) {g : Generated}
    (h : root.generate p name options = .ok g) :
    (∃ blocks static, g.layout.tiles.mapM (DrawCode.drawCall options) = .ok blocks ∧
        g.drawCode = DrawCode.source ⟨String.join blocks, static⟩ p.bounds p options) ∧
      ∀ t ∈ g.layout.tiles, ∃ r, t.rect = some r ∧ r.NonNeg ∧ p.bounds.Contains r ∧
        (∃ head, DrawCode.drawCall options t =
          .ok (head ++ DrawCode.refreshLine (DrawCode.refresh r))) ∧
        ∀ axis, (DrawCode.refresh r).SpansIn p axis ↔ 2 ≤ Pass.extent axis r := by
  obtain ⟨sound, hresolve, _, hdrawCode, _⟩ := generate_eq_ok_iff.mp h
  refine ⟨?_, ?_⟩
  · obtain ⟨s, hs, hsource⟩ := bind_eq_ok.mp hdrawCode
    obtain ⟨blocks, hblocks, hdynamic⟩ := DrawCode.dynamic_of_streams hs
    refine ⟨blocks, s.static, hblocks, ?_⟩
    rw [← hdynamic]
    exact (Except.ok.inj hsource).symm
  · have nonneg : p.bounds.NonNeg := ⟨Int.le_of_lt hp.width_pos, Int.le_of_lt hp.height_pos⟩
    have regular := regular_of_resolve hresolve (sound.cutsInside nonneg.2 exact) fits
    intro t ht
    obtain ⟨v, hv, htile, hrect, resolved⟩ := mem_tiles_of_resolve hresolve ht
    obtain ⟨size, inside⟩ :=
      Pass.visits_within hp.margins.2.2 root p.bounds nonneg regular v hv htile.not_separator
    exact ⟨v.area, hrect, size, inside, DrawCode.drawCall_eq_refreshLine hrect resolved options,
      DrawCode.Refresh.spansIn_iff inside⟩

/-- A screen of the catalogue with splits, stacks, rules and a list meets all the conditions. -/
theorem refreshes_of_generate_cooperTest :
    ∃ g, Catalogue.cooperTest.generate Profile.waveshare2in9 "cooper" DrawCode.defaultOptions =
        .ok g ∧
      ∀ t ∈ g.layout.tiles, ∃ r, t.rect = some r ∧
        ∀ axis, (DrawCode.refresh r).SpansIn Profile.waveshare2in9 axis ↔
          2 ≤ Pass.extent axis r := by
  have sound : Catalogue.cooperTest.Sound Profile.waveshare2in9 :=
    sound_of_isEmpty (by decide +kernel)
  obtain ⟨out, hout⟩ := exists_resolve Catalogue.cooperTest Profile.waveshare2in9.bounds
    Profile.waveshare2in9 (by decide +kernel)
  obtain ⟨g, hg⟩ := exists_generate sound hout "cooper" DrawCode.defaultOptions
  refine ⟨g, hg, ?_⟩
  intro t ht
  obtain ⟨r, hr, _, _, _, spans⟩ := (refreshes_of_generate
    (Profile.valid_of_mem_builtIn _ List.mem_cons_self) (by decide) (by decide +kernel) hg).2 t ht
  exact ⟨r, hr, spans⟩

/-- A tile whose split gives it none of the height, above one that gets all of it. -/
def flatTile : Node :=
  .split (.tile (.ofContent "A")) (.whole 0) (.tile (.ofContent "B")) (.real .one) none

/-- A screen is generated of a tile without height, and its refresh ends above its start. -/
theorem not_forall_refreshes_spansIn :
    ¬ ∀ (root : Node) (p : Profile) (name : String) (options : DrawCode.Options) (g : Generated),
      p.Valid → p.height ≤ 2 ^ 53 → (∀ n ∈ root.walk, n.ItemsFit) →
        root.generate p name options = .ok g →
          ∀ t ∈ g.layout.tiles, ∃ r, t.rect = some r ∧
            ∀ axis, (DrawCode.refresh r).SpansIn p axis := by
  intro spans
  have sound : flatTile.Sound Profile.waveshare2in9 := sound_of_isEmpty (by decide +kernel)
  obtain ⟨out, hout⟩ := exists_resolve flatTile Profile.waveshare2in9.bounds Profile.waveshare2in9
    (by decide +kernel)
  obtain ⟨g, hg⟩ := exists_generate sound hout "screen" DrawCode.defaultOptions
  have rects : (flatTile.resolve Profile.waveshare2in9.bounds Profile.waveshare2in9).toOption.map
      (fun out => out.tiles.map Tile.rect) = some [some ⟨0, 0, 296, 0⟩, some ⟨0, 0, 296, 128⟩] := by
    decide +kernel
  rw [(generate_eq_ok_iff.mp hg).2.1] at rects
  have tiles : g.layout.tiles.map Tile.rect = [some ⟨0, 0, 296, 0⟩, some ⟨0, 0, 296, 128⟩] :=
    Option.some.inj rects
  cases htiles : g.layout.tiles with
  | nil =>
    rw [htiles] at tiles
    cases tiles
  | cons t ts =>
    obtain ⟨r, hr, ordered⟩ := spans flatTile Profile.waveshare2in9 "screen"
      DrawCode.defaultOptions g (Profile.valid_of_mem_builtIn _ List.mem_cons_self) (by decide)
      (by decide) hg t (htiles ▸ List.mem_cons_self)
    rw [htiles, List.map_cons, hr, List.cons.injEq, Option.some.injEq] at tiles
    rw [tiles.1] at ordered
    exact absurd (ordered .vertical).2.1 (by decide)

end Node

end PixelLayout
