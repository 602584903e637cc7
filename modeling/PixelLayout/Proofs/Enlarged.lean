import PixelLayout.Node.Build
import PixelLayout.Proofs.Prefix

/-!
# Larger areas

Two passes over one tree, in two areas of which the second is at least as wide and as high. Every rule
of the layout is monotone in the size of its area: the whole quotient that is the length of a slot or
of an item, the margins that come off a rule or an item, and the size that fitting picks. So is every
check, which asks for a length that suffices. Where the areas lie plays no part.

**The law** (`resolve_enlarged`): a tree without splits that is laid out in an area is laid out in
every larger one, no rectangle gets smaller, and no text gets a smaller font.

Splits are left out. A share may be any number, and a larger height may leave less for the second
node: a share of two takes twice the height, and what is left is negative.
-/

namespace PixelLayout

/-- The rectangle `s` is at least as wide and as high as `r`. -/
def Rect.SizeLe (r s : Rect) : Prop := r.width ≤ s.width ∧ r.height ≤ s.height

/-- One visit to a node that is no split, and another one in no smaller an area. -/
structure Visit.Enlarged (v w : Visit) : Prop where
  node : w.node = v.node
  unsplit : v.node.kind ≠ .split
  size : v.area.SizeLe w.area

/-- A node of a layout, and its counterpart in a layout of the same tree that is nowhere smaller. -/
structure Node.Outgrown (m n : Node) : Prop where
  same : n.SameDeclaration m
  rect : m.takesGeometry = true → ∃ r s, m.rect? = some r ∧ n.rect? = some s ∧ r.SizeLe s
  font : ∀ t u, m = .tile t → n = .tile u → ∃ size size', t.text.resolvedFontSize = some size ∧
    u.text.resolvedFontSize = some size' ∧ size ≤ size'

namespace Pass

variable {d e : Rect}

/-! ## Areas -/

theorem extent_mono (h : d.SizeLe e) (axis : Axis) : extent axis d ≤ extent axis e := by
  cases axis
  · exact h.2
  · exact h.1

theorem slot_length_mono (h : d.SizeLe e) (axis : Axis) {count : Int} (hcount : 0 < count) :
    extent axis d / count ≤ extent axis e / count :=
  Int.ediv_le_ediv hcount (extent_mono h axis)

theorem slot_sizeLe (h : d.SizeLe e) {length length' : Int} (hlength : length ≤ length')
    (axis : Axis) (k : Nat) (n : Node) :
    (slot axis d length k n).SizeLe (slot axis e length' k n) := by
  cases axis
  · exact ⟨h.1, hlength⟩
  · exact ⟨hlength, h.2⟩

theorem itemArea_sizeLe (h : d.SizeLe e) {length length' : Int} (hlength : length ≤ length')
    (margin : Int) (k : Nat) :
    (itemArea d margin length k).SizeLe (itemArea e margin length' k) :=
  ⟨Int.sub_le_sub_right h.1 _, hlength⟩

/-! ## Visits -/

theorem visitItems_enlarged (p : Profile) (h : d.SizeLe e) {length length' : Int}
    (hlength : length ≤ length') (k : Nat) (ts : List Tile) :
    List.Forall₂ Visit.Enlarged (visitItems p d length k ts) (visitItems p e length' k ts) := by
  induction ts generalizing k with
  | nil => exact .nil
  | cons t ts ih =>
    exact .cons ⟨rfl, nofun, itemArea_sizeLe h hlength p.listItemMargin k⟩ (ih (k + 1))

mutual
/-- **In a larger area a pass visits the same nodes in larger areas**, by induction on the tree. A
list has to be laid out in the smaller area: only a list that shows an item has a height to divide. -/
theorem visits_enlarged (p : Profile) : ∀ (n : Node) {d e : Rect}, d.SizeLe e →
    (∀ m ∈ n.walk, m.kind ≠ .split) → (∀ v ∈ visits p n d, v.halt p = none) →
      List.Forall₂ Visit.Enlarged (visits p n d) (visits p n e)
  | .stack axis nodes r, d, e, h, unsplit, goes => by
    rw [visits] at goes ⊢
    rw [visits]
    obtain ⟨own, below⟩ := List.forall_mem_cons.mp goes
    have slots : (0 : Int) < slotCount nodes :=
      Int.natCast_pos.mpr (Nat.pos_of_ne_zero (halt_stack.mp own))
    exact .cons ⟨rfl, nofun, h⟩ (visitsAll_enlarged p axis h (slot_length_mono h axis slots) 0 nodes
      (List.forall_mem_cons.mp unsplit).2 below)
  | .split a s b t r, _, _, _, unsplit, _ => absurd rfl (unsplit _ List.mem_cons_self)
  | .list items k r, d, e, h, _, goes => by
    rw [visits] at goes ⊢
    rw [visits]
    obtain ⟨shows, _⟩ := halt_list.mp (goes _ List.mem_cons_self)
    exact .cons ⟨rfl, nofun, h⟩
      (visitItems_enlarged p h (Int.ediv_le_ediv shows h.2) 0 items)
  | .tile t, _, _, h, _, _ => .cons ⟨rfl, nofun, h⟩ .nil
  | .separator axis r, _, _, h, _, _ => .cons ⟨rfl, nofun, h⟩ .nil
  | .bare r, _, _, h, _, _ => .cons ⟨rfl, nofun, h⟩ .nil
termination_by structural n => n

theorem visitsAll_enlarged (p : Profile) (axis : Axis) {d e : Rect} (h : d.SizeLe e)
    {length length' : Int} (hlength : length ≤ length') : ∀ (k : Nat) (ns : List Node),
      (∀ m ∈ Node.walkAll ns, m.kind ≠ .split) →
      (∀ v ∈ visitsAll p axis d length k ns, v.halt p = none) →
        List.Forall₂ Visit.Enlarged (visitsAll p axis d length k ns)
          (visitsAll p axis e length' k ns)
  | _, [], _, _ => .nil
  | k, n :: ns, unsplit, goes => by
    rw [visitsAll] at goes ⊢
    rw [visitsAll]
    obtain ⟨here, behind⟩ := List.forall_mem_append.mp unsplit
    obtain ⟨goesHere, goesBehind⟩ := List.forall_mem_append.mp goes
    exact List.rel_append
      (visits_enlarged p n (slot_sizeLe h hlength axis k n) here goesHere)
      (visitsAll_enlarged p axis h hlength _ ns behind goesBehind)
termination_by structural _ ns => ns
end

end Pass

/-! ## What becomes of the nodes -/

/-- A tile gets no smaller a font in a larger area. -/
theorem Tile.sizeIn_mono {p : Profile} {t u : Tile} (same : t.SameDeclaration u) {d e : Rect}
    (h : d.SizeLe e) : t.sizeIn p d ≤ u.sizeIn p e := by
  obtain ⟨content, _, size⟩ := same
  unfold sizeIn
  rw [content, size]
  cases u.text.fontSize with
  | none => exact FontTable.fit_mono (Nat.le_refl _) h.1 h.2
  | some size => exact Int.le_refl size

namespace Visit.Enlarged

variable {p : Profile} {v w : Visit}

/-- What goes on in an area goes on in a larger one. -/
theorem goes (h : v.Enlarged w) (goes : v.halt p = none) : w.halt p = none := by
  obtain ⟨n, d⟩ := v
  obtain ⟨n', e⟩ := w
  obtain ⟨same, unsplit, size⟩ := h
  cases same
  cases n with
  | stack axis nodes r => exact goes
  | split a s b t r => exact absurd rfl unsplit
  | tile t => exact goes
  | separator axis r =>
    rw [Pass.halt_separator] at goes ⊢
    exact Int.le_trans goes (Pass.extent_mono size axis)
  | list items k r =>
    rw [Pass.halt_list] at goes ⊢
    exact ⟨goes.1, Int.le_trans goes.2 size.1⟩
  | bare r => cases goes

/-- A node that is laid out in an area outgrows that in a larger one, by the rule for its kind. -/
theorem outgrown (h : v.Enlarged w) {m n : Node} (hm : v.LaidOut p m) (hn : w.LaidOut p n) :
    m.Outgrown n := by
  obtain ⟨declared, geometry⟩ := hm
  obtain ⟨declared', geometry'⟩ := hn
  rw [h.node] at declared'
  have same : n.SameDeclaration m := declared'.trans declared.symm
  have kinds := same
  cases m <;> cases n <;> simp only [Node.SameDeclaration] at kinds
  case stack.stack => exact ⟨same, nofun, fun _ _ tile => by cases tile⟩
  case split.split => exact ⟨same, nofun, fun _ _ tile => by cases tile⟩
  case tile.tile t u =>
    refine ⟨same, fun _ => ⟨_, _, geometry.1, geometry'.1, h.size⟩, ?_⟩
    rintro _ _ ⟨⟩ ⟨⟩
    exact ⟨_, _, geometry.2.1, geometry'.2.1, Tile.sizeIn_mono same.symm h.size⟩
  case separator.separator axis r axis' r' =>
    subst kinds
    refine ⟨same, fun _ => ?_, fun _ _ tile => by cases tile⟩
    cases axis' with
    | vertical =>
      exact ⟨_, _, geometry, geometry', Int.le_refl 1, Int.sub_le_sub_right h.size.2 _⟩
    | horizontal =>
      exact ⟨_, _, geometry, geometry', Int.sub_le_sub_right h.size.1 _, Int.le_refl 1⟩
  case list.list =>
    exact ⟨same, fun _ => ⟨_, _, geometry, geometry', h.size⟩, fun _ _ tile => by cases tile⟩
  case bare.bare => exact geometry.elim

end Visit.Enlarged

/-- A pass that goes on at every visit goes on in a larger area. -/
theorem Pass.goes_enlarged {p : Profile} {vs ws : List Visit}
    (h : List.Forall₂ Visit.Enlarged vs ws) (goes : ∀ v ∈ vs, v.halt p = none) :
    ∀ w ∈ ws, w.halt p = none := by
  induction h with
  | nil => exact goes
  | cons here _ ih =>
    obtain ⟨own, below⟩ := List.forall_mem_cons.mp goes
    exact List.forall_mem_cons.mpr ⟨here.goes own, ih below⟩

namespace Node

variable {root out : Node} {d e : Rect} {p : Profile}

/-- **A larger area never breaks a layout.** Take a tree without splits that is laid out in an area,
and any area at least as wide and as high, wherever the two lie. The tree is laid out there too. Node
by node in document order, each tile, separator and list is at least as wide and as high, and each
text, fitted or not, has at least its size. -/
theorem resolve_enlarged (unsplit : ∀ n ∈ root.walk, n.kind ≠ .split) (wider : d.width ≤ e.width)
    (higher : d.height ≤ e.height) (h : root.resolve d p = .ok out) :
    ∃ out', root.resolve e p = .ok out' ∧ List.Forall₂ Node.Outgrown out.walk out'.walk := by
  obtain ⟨goes, hwalk⟩ := walk_of_resolve h
  have enlarged := Pass.visits_enlarged p root ⟨wider, higher⟩ unsplit goes
  have goes' := Pass.goes_enlarged enlarged goes
  obtain ⟨out', h'⟩ : ∃ out', root.resolve e p = .ok out' := by
    rw [exists_resolve_iff, resolveInPlace_fault, List.findSome?_eq_none_iff]
    exact goes'
  refine ⟨out', h', ?_⟩
  rw [hwalk, (walk_of_resolve h').2, List.forall₂_map_left_iff, List.forall₂_map_right_iff]
  refine ((List.forall₂_and_left _ _).mpr ⟨goes, enlarged⟩).imp ?_
  rintro v w ⟨hv, hvw⟩
  exact hvw.outgrown (Visit.laidOut_placed_clear hv) (Visit.laidOut_placed_clear (hvw.goes hv))

/-- Stacks in both directions with a rule in each, and a list whose items fit at no size in the smaller
area. -/
def ruledMenu : Node :=
  .stack .vertical [.stack .horizontal [label "A", .separator .vertical none,
    .tile ((Tile.ofContent "12").setFontSize 24)] none, .separator .horizontal none,
    listOf ["Log", "Map"]] none

theorem resolve_enlarged_ruledMenu :
    ∃ out out', ruledMenu.resolve ⟨0, 0, 60, 40⟩ Profile.waveshare2in9 = .ok out ∧
      ruledMenu.resolve ⟨7, -5, 296, 128⟩ Profile.waveshare2in9 = .ok out' ∧
      List.Forall₂ Node.Outgrown out.walk out'.walk ∧
      out.tiles.map (fun t => t.text.resolvedFontSize) = [some 19, some 24, some 19, some 19] ∧
      out'.tiles.map (fun t => t.text.resolvedFontSize) = [some 56, some 24, some 31, some 31] := by
  have laid : ruledMenu.resolve ⟨0, 0, 60, 40⟩ Profile.waveshare2in9 = .ok _ := rfl
  obtain ⟨out', laid', outgrown⟩ := resolve_enlarged (e := ⟨7, -5, 296, 128⟩) (by decide) (by decide)
    (by decide) laid
  refine ⟨_, out', laid, laid', outgrown, rfl, ?_⟩
  cases laid'
  rfl

end Node

end PixelLayout
