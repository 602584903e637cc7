import PixelLayout.Artifact.DrawCode
import PixelLayout.Artifact.Preview

/-!
# Which trees are emitted

Both documents ask one question before anything else: does any node of the tree lack geometry. A
tree with such a node is **refused**, by each emitter for the same reason (`refused_of_mem`); any
other tree is **emitted** by each of them, which then finds every rectangle and every offset that it
asks for (`emitted_of_resolved`).
-/

namespace PixelLayout

/-- No document is made of the tree, because it lacks geometry. -/
def Node.Refused (root : Node) : Prop :=
  ∃ e : RenderFault, ∀ (bounds : Rect) (p : Profile) (options : DrawCode.Options),
    Preview.render root bounds p = .error (.render e) ∧
      DrawCode.streams root options = .error (.render e) ∧
      DrawCode.render root bounds p options = .error (.render e)

/-- Every document is made of the tree, on every display and with all settings. -/
def Node.Emitted (root : Node) : Prop :=
  ∀ (bounds : Rect) (p : Profile) (options : DrawCode.Options),
    (∃ preview, Preview.render root bounds p = .ok preview) ∧
      (∃ s, DrawCode.streams root options = .ok s) ∧
      ∃ drawCode, DrawCode.render root bounds p options = .ok drawCode

theorem exists_mapM_ok {α β ε : Type} {f : α → Except ε β} {l : List α}
    (h : ∀ a ∈ l, ∃ b, f a = .ok b) : ∃ bs, l.mapM f = .ok bs := by
  induction l with
  | nil => exact ⟨[], rfl⟩
  | cons a l ih =>
    obtain ⟨ha, hl⟩ := List.forall_mem_cons.mp h
    obtain ⟨b, hb⟩ := ha
    obtain ⟨bs, hbs⟩ := ih hl
    exact ⟨b :: bs, by rw [List.mapM_cons, hb, hbs]; rfl⟩

/-- A tile that lacks nothing has what a document asks of it. -/
theorem Artifact.exists_requirePlaced {t : Tile} (h : t.isResolved = true) :
    ∃ placed, requirePlaced t = .ok placed := by
  simp only [Tile.isResolved, Bool.and_eq_true] at h
  obtain ⟨r, hr⟩ := Option.isSome_iff_exists.mp h.1.1
  obtain ⟨offset, hoffset⟩ := Option.isSome_iff_exists.mp h.1.2
  exact ⟨(r, offset), by rw [requirePlaced, hr, hoffset]⟩

theorem Artifact.exists_requireRect {r : Option Rect} (h : r.isSome = true) :
    ∃ placed, requireRect r = .ok placed := by
  obtain ⟨r', rfl⟩ := Option.isSome_iff_exists.mp h
  exact ⟨r', rfl⟩

theorem Artifact.requirePlaced_eq_ok {t : Tile} {r : Rect} {offset : Offset} :
    requirePlaced t = .ok (r, offset) ↔ t.rect = some r ∧ t.text.offset = some offset := by
  rw [requirePlaced]
  cases t.rect <;> cases t.text.offset <;>
    simp only [reduceCtorEq, Except.ok.injEq, Prod.mk.injEq, Option.some.injEq, and_false,
      false_and]

theorem Artifact.requireRect_eq_ok {r : Option Rect} {placed : Rect} :
    requireRect r = .ok placed ↔ r = some placed := by
  cases r <;> simp only [requireRect, reduceCtorEq, Except.ok.injEq, Option.some.injEq]

/-! ## What the documents are made of -/

theorem bind_eq_ok {α β ε : Type} {x : Except ε α} {f : α → Except ε β} {b : β} :
    x >>= f = .ok b ↔ ∃ a, x = .ok a ∧ f a = .ok b := by
  cases x with
  | error e => exact ⟨nofun, nofun⟩
  | ok a => exact ⟨fun h => ⟨a, rfl, h⟩, fun ⟨_, ha, h⟩ => Except.ok.inj ha ▸ h⟩

/-- Texts one behind the other, each spelled by what it is made of. -/
theorem toList_join_of_mapM {α ε : Type} {f : α → Except ε String} {code : α → List Char}
    (hf : ∀ a text, f a = .ok text → text.toList = code a) {l : List α} {texts : List String}
    (h : l.mapM f = .ok texts) : (String.join texts).toList = l.flatMap code := by
  rw [String.toList_join]
  induction l generalizing texts with
  | nil =>
    cases h
    rfl
  | cons a l ih =>
    rw [List.mapM_cons] at h
    obtain ⟨text, htext, h⟩ := bind_eq_ok.mp h
    obtain ⟨rest, hrest, h⟩ := bind_eq_ok.mp h
    cases h
    rw [List.flatMap_cons, List.flatMap_cons, hf a text htext, ih hrest]

/-- The dynamic stream is the blocks of the tiles, one after the other. -/
theorem DrawCode.dynamic_of_streams {root : Node} {options : Options} {s : Streams}
    (h : streams root options = .ok s) :
    ∃ blocks, root.tiles.mapM (drawCall options) = .ok blocks ∧
      s.dynamic = String.join blocks := by
  obtain ⟨_, _, h⟩ := bind_eq_ok.mp h
  obtain ⟨blocks, hblocks, h⟩ := bind_eq_ok.mp h
  obtain ⟨_, _, h⟩ := bind_eq_ok.mp h
  cases h
  exact ⟨blocks, hblocks, rfl⟩

/-- The static stream is the calls of the rules, one after the other. -/
theorem DrawCode.static_of_streams {root : Node} {options : Options} {s : Streams}
    (h : streams root options = .ok s) :
    ∃ calls, root.rules.mapM ruleCall = .ok calls ∧ s.static = String.join calls := by
  obtain ⟨_, _, h⟩ := bind_eq_ok.mp h
  obtain ⟨_, _, h⟩ := bind_eq_ok.mp h
  obtain ⟨calls, hcalls, h⟩ := bind_eq_ok.mp h
  cases h
  exact ⟨calls, hcalls, rfl⟩

/-- The preview is the window around the blocks of the tiles and of the rules. -/
theorem Preview.window_of_render {root : Node} {bounds : Rect} {p : Profile} {document : String}
    (h : render root bounds p = .ok document) :
    ∃ tiles rules, root.tiles.mapM (tileBlock p) = .ok tiles ∧
      root.rules.mapM ruleBlock = .ok rules ∧ document = window bounds tiles rules := by
  obtain ⟨_, _, h⟩ := bind_eq_ok.mp h
  obtain ⟨tiles, htiles, h⟩ := bind_eq_ok.mp h
  obtain ⟨rules, hrules, h⟩ := bind_eq_ok.mp h
  cases h
  exact ⟨tiles, rules, htiles, hrules, rfl⟩

namespace Node

variable {root : Node}

theorem ensureResolved_of_resolved (h : ∀ n ∈ root.walk, n.isResolved = true) :
    root.ensureResolved = .ok () := by
  have complete : root.unresolved = [] := by
    rw [unresolved, List.filter_eq_nil_iff]
    intro n hn
    rw [h n hn]
    exact Bool.false_ne_true
  rw [ensureResolved, complete]

theorem ensureResolved_of_mem {n : Node} (hn : n ∈ root.walk) (h : n.isResolved = false) :
    ∃ e, root.ensureResolved = .error e := by
  have missing : n ∈ root.unresolved := List.mem_filter.mpr ⟨hn, by rw [h]; rfl⟩
  unfold ensureResolved
  cases hmissing : root.unresolved with
  | nil =>
    rw [hmissing] at missing
    cases missing
  | cons m ms => exact ⟨_, rfl⟩

/-- **One node without geometry is enough for every emitter to refuse the tree.** -/
theorem refused_of_mem {n : Node} (hn : n ∈ root.walk) (h : n.isResolved = false) :
    root.Refused := by
  obtain ⟨e, he⟩ := ensureResolved_of_mem hn h
  have hstreams (options : DrawCode.Options) :
      DrawCode.streams root options = .error (.render e) := by
    rw [DrawCode.streams, he]
    rfl
  refine ⟨e, fun bounds p options => ⟨?_, hstreams options, ?_⟩⟩
  · rw [Preview.render, he]
    rfl
  · rw [DrawCode.render, hstreams]
    rfl

/-! ## What a resolved tree has for its documents -/

theorem isResolved_of_mem_tiles (h : ∀ n ∈ root.walk, n.isResolved = true) {t : Tile}
    (ht : t ∈ root.tiles) : t.isResolved = true := by
  obtain ⟨n, hn, htile⟩ := List.mem_filterMap.mp ht
  cases n <;> simp only [tile?, reduceCtorEq, Option.some.injEq] at htile
  subst htile
  exact h _ hn

theorem isSome_of_mem_rules (h : ∀ n ∈ root.walk, n.isResolved = true) {rule : Axis × Option Rect}
    (hr : rule ∈ root.rules) : rule.2.isSome = true := by
  obtain ⟨n, hn, hrule⟩ := List.mem_filterMap.mp hr
  cases n <;> simp only [rule?, reduceCtorEq, Option.some.injEq] at hrule
  subst hrule
  exact h _ hn

/-- A document gets all its blocks of tiles if it makes one of each tile with its place. -/
theorem exists_blocks_of_tiles (h : ∀ n ∈ root.walk, n.isResolved = true)
    {f : Tile → Except Fault String}
    (hf : ∀ t placed, Artifact.requirePlaced t = .ok placed → ∃ b, f t = .ok b) :
    ∃ bs, root.tiles.mapM f = .ok bs := by
  apply exists_mapM_ok
  intro t ht
  obtain ⟨placed, hplaced⟩ := Artifact.exists_requirePlaced (isResolved_of_mem_tiles h ht)
  exact hf t placed hplaced

/-- A document gets all its blocks of rules if it makes one of each rule with its rectangle. -/
theorem exists_blocks_of_rules (h : ∀ n ∈ root.walk, n.isResolved = true)
    {f : Axis × Option Rect → Except Fault String}
    (hf : ∀ rule r, Artifact.requireRect rule.2 = .ok r → ∃ b, f rule = .ok b) :
    ∃ bs, root.rules.mapM f = .ok bs := by
  apply exists_mapM_ok
  intro rule hr
  obtain ⟨placed, hplaced⟩ := Artifact.exists_requireRect (isSome_of_mem_rules h hr)
  exact hf rule placed hplaced

theorem exists_preview (h : ∀ n ∈ root.walk, n.isResolved = true) (bounds : Rect) (p : Profile) :
    ∃ preview, Preview.render root bounds p = .ok preview := by
  have checked := ensureResolved_of_resolved h
  obtain ⟨tiles, htiles⟩ : ∃ bs, root.tiles.mapM (Preview.tileBlock p) = .ok bs := by
    apply exists_blocks_of_tiles h
    intro t placed hplaced
    exact ⟨_, by rw [Preview.tileBlock, hplaced]; rfl⟩
  obtain ⟨rules, hrules⟩ : ∃ bs, root.rules.mapM Preview.ruleBlock = .ok bs := by
    apply exists_blocks_of_rules h
    intro rule r hr
    exact ⟨_, by rw [Preview.ruleBlock, hr]; rfl⟩
  exact ⟨Preview.window bounds tiles rules, by rw [Preview.render, checked, htiles, hrules]; rfl⟩

theorem exists_streams (h : ∀ n ∈ root.walk, n.isResolved = true) (options : DrawCode.Options) :
    ∃ s, DrawCode.streams root options = .ok s := by
  have checked := ensureResolved_of_resolved h
  obtain ⟨dynamic, hdynamic⟩ : ∃ bs, root.tiles.mapM (DrawCode.drawCall options) = .ok bs := by
    apply exists_blocks_of_tiles h
    intro t placed hplaced
    exact ⟨_, by rw [DrawCode.drawCall, hplaced]; rfl⟩
  obtain ⟨static, hstatic⟩ : ∃ bs, root.rules.mapM DrawCode.ruleCall = .ok bs := by
    apply exists_blocks_of_rules h
    intro rule r hr
    exact ⟨_, by rw [DrawCode.ruleCall, hr]; rfl⟩
  exact ⟨⟨String.join dynamic, String.join static⟩,
    by rw [DrawCode.streams, checked, hdynamic, hstatic]; rfl⟩

/-- **Every emitter makes its document of a tree without a node that lacks geometry.** -/
theorem emitted_of_resolved (h : ∀ n ∈ root.walk, n.isResolved = true) : root.Emitted := by
  intro bounds p options
  obtain ⟨s, hs⟩ := exists_streams h options
  exact ⟨exists_preview h bounds p, ⟨s, hs⟩,
    ⟨DrawCode.source s bounds p options, by rw [DrawCode.render, hs]; rfl⟩⟩

/-- A tree is never refused and emitted. -/
theorem Refused.not_emitted (h : root.Refused) : ¬ root.Emitted := by
  intro emitted
  obtain ⟨e, he⟩ := h
  obtain ⟨_, ⟨s, hs⟩, _⟩ := emitted default Profile.waveshare2in9 DrawCode.defaultOptions
  rw [(he default Profile.waveshare2in9 DrawCode.defaultOptions).2.1] at hs
  cases hs

/-- **There is no third way**: what is not refused is emitted in full. -/
theorem emitted_iff : root.Emitted ↔ ¬ root.Refused := by
  refine ⟨fun emitted refused => refused.not_emitted emitted, ?_⟩
  intro accepted
  apply emitted_of_resolved
  intro n hn
  cases h : n.isResolved with
  | true => rfl
  | false => exact absurd (refused_of_mem hn h) accepted

theorem refused_iff : root.Refused ↔ (root.walk.any fun n => !n.isResolved) = true := by
  rw [List.any_eq_true]
  refine ⟨?_, fun ⟨n, hn, h⟩ => refused_of_mem hn ((Bool.not_eq_true' _).mp h)⟩
  intro refused
  by_cases missing : ∃ n ∈ root.walk, (!n.isResolved) = true
  · exact missing
  · refine absurd (emitted_of_resolved ?_) refused.not_emitted
    intro n hn
    cases h : n.isResolved with
    | true => rfl
    | false => exact absurd ⟨n, hn, by rw [h]; rfl⟩ missing

end Node

end PixelLayout
