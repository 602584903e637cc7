import PixelLayout.Proofs.Declared

/-!
# The two axes of a layout

Vertical and horizontal stacks, and rules along either axis, each have their own formulas. They are
mirror images: **a pass over the tree with its axes exchanged, in the bounds with their axes
exchanged, is the pass over the tree with its axes exchanged** (`place_transpose`). It stops where
the first one stops and for the same reason, and otherwise it leaves each node with the rectangle of
its counterpart, transposed (`resolve_transpose`).

Fonts are left out (`Node.frame`): glyphs are higher than wide, so the text of a tile is fitted in
another way when its rectangle lies on its side. Trees with splits, lists or bare nodes are left out
too: a split cuts a height and a list stacks its items, and neither has a counterpart that goes from
left to right.
-/

namespace PixelLayout

/-! ## Exchanging the axes -/

/-- The rectangle with its axes exchanged. -/
def Rect.transpose (r : Rect) : Rect := ⟨r.y, r.x, r.height, r.width⟩

/-- The profile with the margins of its two kinds of rules exchanged. -/
def Profile.transpose (p : Profile) : Profile :=
  { p with
    horizontalSeparatorMargin := p.verticalSeparatorMargin
    verticalSeparatorMargin := p.horizontalSeparatorMargin }

/-- The tile with the axes of its rectangle exchanged. -/
def Tile.transpose (t : Tile) : Tile := { t with rect := t.rect.map Rect.transpose }

mutual
/-- The tree with its axes exchanged. Splits and lists have one direction only, and keep it. -/
def Node.transpose : Node → Node
  | .stack axis nodes r => .stack axis.swap (transposeAll nodes) (r.map Rect.transpose)
  | .split a s b t r => .split a.transpose s b.transpose t (r.map Rect.transpose)
  | .tile t => .tile t.transpose
  | .separator axis r => .separator axis.swap (r.map Rect.transpose)
  | .list items k r => .list (items.map Tile.transpose) k (r.map Rect.transpose)
  | .bare r => .bare (r.map Rect.transpose)

/-- Several trees with their axes exchanged. -/
def Node.transposeAll : List Node → List Node
  | [] => []
  | n :: ns => n.transpose :: transposeAll ns
end

/-- The fault with its axis exchanged. -/
def LayoutFault.transpose : LayoutFault → LayoutFault
  | .noSlots axis => .noSlots axis.swap
  | .ruleMargin axis margin extent => .ruleMargin axis.swap margin extent
  | e => e

/-- The fault with its axis exchanged. -/
def Fault.transpose : Fault → Fault
  | .layout e => .layout e.transpose
  | fault => fault

theorem Fault.numbers_transpose (fault : Fault) : fault.transpose.numbers = fault.numbers := by
  cases fault with
  | layout e => cases e <;> rfl
  | _ => rfl

/-- The words of a fault can be written on either axis or on none. -/
theorem Fault.raised_transpose (fault : Fault) : fault.transpose.raised = fault.raised.transpose := by
  by_cases sayable : fault.Sayable
  · have sayable' : fault.transpose.Sayable := by rwa [Sayable, numbers_transpose]
    rw [raised_of_sayable sayable, raised_of_sayable sayable']
  · have long : ¬ fault.transpose.Sayable := by rwa [Sayable, numbers_transpose]
    rw [raised_of_not_sayable sayable, raised_of_not_sayable long]
    rfl

/-- The node is of a kind that has a counterpart on the other axis, or needs none. -/
def Node.HasMirror : Node → Prop
  | .stack .. | .tile _ | .separator .. => True
  | .split .. | .list .. | .bare _ => False

instance : DecidablePred Node.HasMirror
  | .stack .. | .tile _ | .separator .. => .isTrue trivial
  | .split .. | .list .. | .bare _ => .isFalse id

/-- The tile without what is fitted to its rectangle. -/
def Tile.frame (t : Tile) : Tile :=
  { t with text := { t.text with offset := none, resolvedFontSize := none } }

mutual
/-- The tree with its rectangles, without what is fitted to them. -/
def Node.frame : Node → Node
  | .stack axis nodes r => .stack axis (frameAll nodes) r
  | .split a s b t r => .split a.frame s b.frame t r
  | .tile t => .tile t.frame
  | .separator axis r => .separator axis r
  | .list items k r => .list (items.map Tile.frame) k r
  | .bare r => .bare r

/-- Several trees with their rectangles, without what is fitted to them. -/
def Node.frameAll : List Node → List Node
  | [] => []
  | n :: ns => n.frame :: frameAll ns
end

namespace Pass

/-! ## The formulas of the two axes -/

theorem separatorMargin_transpose (p : Profile) (axis : Axis) :
    p.transpose.separatorMargin axis.swap = p.separatorMargin axis := by
  cases axis <;> rfl

theorem extent_transpose (axis : Axis) (d : Rect) :
    extent axis.swap d.transpose = extent axis d := by
  cases axis <;> rfl

theorem isSeparator_transpose (n : Node) : n.transpose.isSeparator = n.isSeparator := by
  cases n <;> rfl

theorem transposeAll_eq_map (ns : List Node) : Node.transposeAll ns = ns.map Node.transpose := by
  induction ns with
  | nil => rfl
  | cons n ns ih => rw [Node.transposeAll, ih, List.map_cons]

theorem slotCount_transposeAll (ns : List Node) :
    slotCount (Node.transposeAll ns) = slotCount ns := by
  rw [transposeAll_eq_map, slotCount, List.countP_map, slotCount]
  congr 1
  funext n
  rw [Function.comp_apply, isSeparator_transpose]

/-- The slots of a stack are those of its counterpart, and so is the middle of the other axis. -/
theorem slot_transpose (axis : Axis) (d : Rect) (length : Int) (k : Nat) (n : Node) :
    slot axis.swap d.transpose length k n.transpose = (slot axis d length k n).transpose := by
  cases axis
  all_goals
    cases n with
    | separator along r => cases along <;> rfl
    | _ => rfl

/-- The rule in an area is that of its counterpart, and fits where that one fits. -/
theorem rule_transpose (axis : Axis) (margin : Int) (d : Rect) :
    rule axis.swap margin d.transpose =
      ((rule axis margin d).map Rect.transpose).mapError LayoutFault.transpose := by
  rw [rule_eq, rule_eq, extent_transpose]
  by_cases short : extent axis d < 2 * margin
  · rw [if_pos short, if_pos short]
    rfl
  · rw [if_neg short, if_neg short]
    cases axis <;> rfl

/-! ## What becomes of leaves -/

/-- What is wrong with a tile has no axis. -/
theorem offence_tile_transpose (p : Profile) (t : Tile) (d : Rect) :
    (Visit.mk (.tile t.transpose) d.transpose).offence p.transpose =
        (Visit.mk (.tile t) d).offence p ∧
      ((Visit.mk (.tile t) d).offence p).map LayoutFault.transpose =
        (Visit.mk (.tile t) d).offence p := by
  refine ⟨rfl, ?_⟩
  simp only [Visit.offence]
  split
  · rfl
  · split <;> rfl

theorem placeTile_transpose (p : Profile) (t : Tile) (d : Rect) :
    (t.transpose.place p.transpose d.transpose).result.frame =
        (t.place p d).result.transpose.frame ∧
      (t.transpose.place p.transpose d.transpose).fault =
        (t.place p d).fault.map Fault.transpose := by
  obtain ⟨same, unturned⟩ := offence_tile_transpose p t d
  rcases placeTile_cases p t d with ⟨hnone, _, _, hplace⟩ | ⟨e, he, hplace⟩
  · rcases placeTile_cases p.transpose t.transpose d.transpose with
      ⟨_, _, _, hplace'⟩ | ⟨e', he', _⟩
    · rw [hplace, hplace']
      exact ⟨rfl, rfl⟩
    · rw [same, hnone] at he'
      cases he'
  · rcases placeTile_cases p.transpose t.transpose d.transpose with
      ⟨hnone', _⟩ | ⟨e', he', hplace'⟩
    · rw [same, he] at hnone'
      cases hnone'
    · rw [same, he] at he'
      cases he'
      rw [he, Option.map_some, Option.some.injEq] at unturned
      rw [hplace, hplace']
      refine ⟨rfl, ?_⟩
      rw [Option.map_some, Fault.transpose, unturned]

theorem placeSeparator_transpose (p : Profile) (axis : Axis) (r : Option Rect) (d : Rect) :
    placeSeparator p.transpose axis.swap (r.map Rect.transpose) d.transpose =
      ⟨(placeSeparator p axis r d).result.transpose,
        (placeSeparator p axis r d).fault.map Fault.transpose⟩ := by
  rw [placeSeparator, placeSeparator, separatorMargin_transpose, rule_transpose]
  cases rule axis (p.separatorMargin axis) d <;> rfl

/-! ## A pass over the tree -/

mutual
/-- **A pass over the mirror image is the mirror image of the pass**, by induction on the tree: each
formula has its counterpart on the other axis. -/
theorem place_transpose (p : Profile) : ∀ (n : Node) (d : Rect), (∀ m ∈ n.walk, m.HasMirror) →
    (place p.transpose n.transpose d.transpose).result.frame =
        (place p n d).result.transpose.frame ∧
      (place p.transpose n.transpose d.transpose).fault =
        (place p n d).fault.map Fault.transpose
  | .stack axis nodes r, d, mirror => by
    have below := (List.forall_mem_cons.mp mirror).2
    rw [Node.transpose, place, place, slotCount_transposeAll, extent_transpose]
    by_cases none : slotCount nodes = 0
    · rw [if_pos none, if_pos none]
      exact ⟨rfl, rfl⟩
    · rw [if_neg none, if_neg none]
      obtain ⟨results, faults⟩ :=
        placeAll_transpose p axis d (extent axis d / slotCount nodes) 0 nodes below
      refine ⟨?_, faults⟩
      simp only [Node.frame, Node.transpose, results]
  | .tile t, d, _ => by
    obtain ⟨result, fault⟩ := placeTile_transpose p t d
    rw [Node.transpose, place, place]
    exact ⟨congrArg Node.tile result, fault⟩
  | .separator axis r, d, _ => by
    rw [Node.transpose, place, place, placeSeparator_transpose]
    exact ⟨rfl, rfl⟩
  | .split _ _ _ _ _, _, mirror => absurd (mirror _ List.mem_cons_self) id
  | .list _ _ _, _, mirror => absurd (mirror _ List.mem_cons_self) id
  | .bare _, _, mirror => absurd (mirror _ List.mem_cons_self) id
termination_by structural n => n

theorem placeAll_transpose (p : Profile) (axis : Axis) (d : Rect) (length : Int) :
    ∀ (k : Nat) (ns : List Node), (∀ m ∈ Node.walkAll ns, m.HasMirror) →
      Node.frameAll
          (placeAll p.transpose axis.swap d.transpose length k (Node.transposeAll ns)).result =
          Node.frameAll (Node.transposeAll (placeAll p axis d length k ns).result) ∧
        (placeAll p.transpose axis.swap d.transpose length k (Node.transposeAll ns)).fault =
          (placeAll p axis d length k ns).fault.map Fault.transpose
  | _, [], _ => ⟨rfl, rfl⟩
  | k, n :: ns, mirror => by
    obtain ⟨hhere, hrest⟩ := List.forall_mem_append.mp mirror
    obtain ⟨result, fault⟩ := place_transpose p n (slot axis d length k n) hhere
    obtain ⟨results, faults⟩ :=
      placeAll_transpose p axis d length (if n.isSeparator then k else k + 1) ns hrest
    rw [Node.transposeAll, placeAll, placeAll, slot_transpose, isSeparator_transpose]
    cases stopped : (place p n (slot axis d length k n)).fault with
    | some e =>
      rw [stopped, Option.map_some] at fault
      simp only [fault, Node.transposeAll, Node.frameAll, result, Option.map_some, and_self]
    | none =>
      rw [stopped, Option.map_none] at fault
      simp only [fault, Node.transposeAll, Node.frameAll, result, results, faults, and_self]
termination_by structural _ ns => ns
end

end Pass

namespace Node

mutual
theorem clear_transpose : ∀ n : Node, n.transpose.clear = n.clear.transpose
  | .stack axis nodes r => by
    rw [transpose, clear, clear, transpose, clearAll_transposeAll nodes, Option.map_none]
  | .split a s b t r => by
    rw [transpose, clear, clear, transpose, clear_transpose a, clear_transpose b, Option.map_none]
  | .tile t => rfl
  | .separator axis r => rfl
  | .list items k r => by
    rw [transpose, clear, clear, transpose, List.map_map, List.map_map]
    rfl
  | .bare r => rfl
termination_by structural n => n

theorem clearAll_transposeAll :
    ∀ ns : List Node, clearAll (transposeAll ns) = transposeAll (clearAll ns)
  | [] => rfl
  | n :: ns => by
    rw [transposeAll, clearAll, clearAll, transposeAll, clear_transpose n, clearAll_transposeAll ns]
termination_by structural ns => ns
end

/-! ## Which node has which rectangle -/

mutual
theorem rects_frame : ∀ n : Node, n.frame.walk.map rect? = n.walk.map rect?
  | .stack axis nodes r => by
    rw [frame, walk, walk, List.map_cons, List.map_cons, rectsAll_frameAll nodes]
    rfl
  | .split a s b t r => by
    rw [frame, walk, walk, List.map_cons, List.map_cons, List.map_append, List.map_append,
      rects_frame a, rects_frame b]
    rfl
  | .tile t => rfl
  | .separator axis r => rfl
  | .list items k r => by
    rw [frame, walk, walk, List.map_cons, List.map_cons, List.map_map, List.map_map, List.map_map]
    rfl
  | .bare r => rfl
termination_by structural n => n

theorem rectsAll_frameAll : ∀ ns : List Node,
    (walkAll (frameAll ns)).map rect? = (walkAll ns).map rect?
  | [] => rfl
  | n :: ns => by
    rw [frameAll, walkAll, walkAll, List.map_append, List.map_append, rects_frame n,
      rectsAll_frameAll ns]
termination_by structural ns => ns
end

mutual
theorem rects_transpose : ∀ n : Node,
    n.transpose.walk.map rect? = n.walk.map fun m => m.rect?.map Rect.transpose
  | .stack axis nodes r => by
    rw [transpose, walk, walk, List.map_cons, List.map_cons, rectsAll_transposeAll nodes]
    rfl
  | .split a s b t r => by
    rw [transpose, walk, walk, List.map_cons, List.map_cons, List.map_append, List.map_append,
      rects_transpose a, rects_transpose b]
    rfl
  | .tile t => rfl
  | .separator axis r => rfl
  | .list items k r => by
    rw [transpose, walk, walk, List.map_cons, List.map_cons, List.map_map, List.map_map,
      List.map_map]
    rfl
  | .bare r => rfl
termination_by structural n => n

theorem rectsAll_transposeAll : ∀ ns : List Node,
    (walkAll (transposeAll ns)).map rect? =
      (walkAll ns).map fun m => m.rect?.map Rect.transpose
  | [] => rfl
  | n :: ns => by
    rw [transposeAll, walkAll, walkAll, List.map_append, List.map_append, rects_transpose n,
      rectsAll_transposeAll ns]
termination_by structural ns => ns
end

theorem hasMirror_clear {n : Node} (h : n.HasMirror) : n.clear.HasMirror := by
  cases n <;> exact h

variable {root : Node}

/-- A whole pass over the mirror image ends like the pass, wherever that ends. -/
theorem resolveInPlace_transpose (mirror : ∀ n ∈ root.walk, n.HasMirror) (bounds : Rect)
    (p : Profile) :
    (root.transpose.resolveInPlace bounds.transpose p.transpose).result.frame =
        (root.resolveInPlace bounds p).result.transpose.frame ∧
      (root.transpose.resolveInPlace bounds.transpose p.transpose).fault =
        (root.resolveInPlace bounds p).fault.map Fault.transpose := by
  have cleared : ∀ n ∈ root.clear.walk, n.HasMirror := by
    intro n hn
    rw [walk_clear] at hn
    obtain ⟨m, hm, rfl⟩ := List.mem_map.mp hn
    exact hasMirror_clear (mirror m hm)
  rw [resolveInPlace, resolveInPlace, clear_transpose]
  exact Pass.place_transpose p root.clear bounds cleared

/-- **Horizontal stacks are the mirror image of vertical ones.** Of a tree of stacks, tiles and
rules, a pass over the mirror image succeeds exactly if the pass over the tree does, and fails with
the fault on the other axis if that fails. If they succeed, the second result is the mirror image of
the first but for how the texts are fitted, and so each of its nodes has the transposed rectangle of
its counterpart. -/
theorem resolve_transpose (mirror : ∀ n ∈ root.walk, n.HasMirror) (bounds : Rect) (p : Profile) :
    ((∃ out, root.resolve bounds p = .ok out) ↔
        ∃ out, root.transpose.resolve bounds.transpose p.transpose = .ok out) ∧
      (∀ fault, root.resolve bounds p = .error fault →
        root.transpose.resolve bounds.transpose p.transpose = .error fault.transpose) ∧
      ∀ out out', root.resolve bounds p = .ok out →
        root.transpose.resolve bounds.transpose p.transpose = .ok out' →
          out'.frame = out.transpose.frame ∧
            out'.walk.map rect? = out.walk.map fun n => n.rect?.map Rect.transpose := by
  obtain ⟨results, faults⟩ := resolveInPlace_transpose mirror bounds p
  refine ⟨?_, ?_, ?_⟩
  · rw [exists_resolve_iff, exists_resolve_iff, faults, Option.map_eq_none_iff]
  · intro fault h
    obtain ⟨cause, hcause, rfl⟩ := Option.map_eq_some_iff.mp (resolve_eq_error_iff.mp h)
    rw [← Fault.raised_transpose]
    exact resolve_of_fault (by rw [faults, hcause, Option.map_some])
  · intro out out' h h'
    rw [resolve_eq_ok_iff.mp h, resolve_eq_ok_iff.mp h'] at results
    refine ⟨results, ?_⟩
    rw [← rects_frame, results, rects_frame, rects_transpose]

/-- Stacks along both axes, one inside the other, each with rules along both axes. -/
def crossedRules : Node :=
  .stack .vertical
    [.tile (.ofContent "A"), .separator .horizontal none,
      .stack .horizontal
        [.tile (.ofContent "B"), .separator .vertical none, .tile (.ofContent "C"),
          .separator .horizontal none] none,
      .separator .vertical none, .tile (.ofContent "D")] none

theorem resolve_transpose_crossedRules :
    ∃ out out', crossedRules.resolve Profile.waveshare2in9.bounds Profile.waveshare2in9 = .ok out ∧
      crossedRules.transpose.resolve Profile.waveshare2in9.bounds.transpose
        Profile.waveshare2in9.transpose = .ok out' ∧
      out'.walk.map rect? = out.walk.map fun n => n.rect?.map Rect.transpose := by
  obtain ⟨out, hout⟩ := exists_resolve crossedRules Profile.waveshare2in9.bounds
    Profile.waveshare2in9 (by decide +kernel)
  obtain ⟨succeeds, _, mirrored⟩ := resolve_transpose
    (show ∀ n ∈ crossedRules.walk, n.HasMirror by decide) Profile.waveshare2in9.bounds
    Profile.waveshare2in9
  obtain ⟨out', hout'⟩ := succeeds.mp ⟨out, hout⟩
  exact ⟨out, out', hout, hout', (mirrored out out' hout hout').2⟩

end Node

end PixelLayout
