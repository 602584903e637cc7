import PixelLayout.Catalogue
import PixelLayout.Proofs.Declared

/-!
# Moving the bounds

Every rectangle of a layout is made from the origin of an area by adding lengths to it, and every
decision of a pass, its faults and its fonts included, is made from the lengths alone. So where the
bounds lie on the display decides where the layout lies, and nothing else.

**The law** (`place_move`): a pass over a moved tree in a moved area is the moved pass, by induction
on the tree. It stops where the other one stops and for the same reason. A cleared tree has nothing
to move (`move_clear`), so a whole pass in moved bounds is the moved pass over the tree as it was
given, whatever geometry that holds (`resolveInPlace_move`).
-/

namespace PixelLayout

/-! ## Moving a tree -/

/-- The rectangle `dx` columns further to the right and `dy` rows further down. -/
def Rect.move (dx dy : Int) (r : Rect) : Rect := ⟨r.x + dx, r.y + dy, r.width, r.height⟩

/-- The tile with its rectangle moved. The place of its text is relative to that. -/
def Tile.move (dx dy : Int) (t : Tile) : Tile := { t with rect := t.rect.map (Rect.move dx dy) }

mutual
/-- The tree with every rectangle moved. -/
def Node.move (dx dy : Int) : Node → Node
  | .stack axis nodes r => .stack axis (moveAll dx dy nodes) (r.map (Rect.move dx dy))
  | .split a s b t r => .split (a.move dx dy) s (b.move dx dy) t (r.map (Rect.move dx dy))
  | .tile t => .tile (t.move dx dy)
  | .separator axis r => .separator axis (r.map (Rect.move dx dy))
  | .list items k r => .list (items.map (Tile.move dx dy)) k (r.map (Rect.move dx dy))
  | .bare r => .bare (r.map (Rect.move dx dy))

/-- Several trees with every rectangle moved. -/
def Node.moveAll (dx dy : Int) : List Node → List Node
  | [] => []
  | n :: ns => n.move dx dy :: moveAll dx dy ns
end

/-- The geometry of one node with its rectangle moved. -/
def PlacedNode.move (dx dy : Int) (g : PlacedNode) : PlacedNode :=
  { g with rect := g.rect.move dx dy }

variable (dx dy : Int)

namespace Pass

/-! ## Areas of a moved area -/

theorem extent_move (axis : Axis) (d : Rect) : extent axis (d.move dx dy) = extent axis d := by
  cases axis <;> rfl

theorem isSeparator_move (n : Node) : (n.move dx dy).isSeparator = n.isSeparator := by
  cases n <;> rfl

theorem moveAll_eq_map (ns : List Node) : Node.moveAll dx dy ns = ns.map (Node.move dx dy) := by
  induction ns with
  | nil => rfl
  | cons n ns ih => rw [Node.moveAll, ih, List.map_cons]

theorem slotCount_moveAll (ns : List Node) : slotCount (Node.moveAll dx dy ns) = slotCount ns := by
  simp only [slotCount, moveAll_eq_map, List.countP_map, Function.comp_def, isSeparator_move]

/-- The slots of a moved stack are the moved slots, and so is the middle of the other axis. -/
theorem slot_move (axis : Axis) (d : Rect) (length : Int) (k : Nat) (n : Node) :
    slot axis (d.move dx dy) length k (n.move dx dy) = (slot axis d length k n).move dx dy := by
  cases axis
  all_goals
    cases n with
    | separator along r =>
      cases along <;> simp only [slot, Node.move, Rect.move, Int.add_right_comm]
    | _ => simp only [slot, Node.move, Rect.move, Int.add_right_comm]

theorem itemArea_move (d : Rect) (margin length : Int) (k : Nat) :
    itemArea (d.move dx dy) margin length k = (itemArea d margin length k).move dx dy := by
  simp only [itemArea, Rect.move, Int.add_right_comm]

/-- A rule fits into a moved area where it fits into the area, and is the moved rule. -/
theorem rule_move (axis : Axis) (margin : Int) (d : Rect) :
    rule axis margin (d.move dx dy) = (rule axis margin d).map (Rect.move dx dy) := by
  rw [rule_eq, rule_eq, extent_move]
  by_cases short : extent axis d < 2 * margin
  · rw [if_pos short, if_pos short]
    rfl
  · rw [if_neg short, if_neg short]
    cases axis <;> simp only [Except.map, Rect.move, Int.add_right_comm]

/-! ## Leaves -/

theorem placeTile_move (p : Profile) (t : Tile) (d : Rect) :
    (t.move dx dy).place p (d.move dx dy) =
      ⟨(t.place p d).result.move dx dy, (t.place p d).fault⟩ := by
  -- neither check looks at the origin: the size is the author's or fitted, the offset is relative
  have checked : Tile.checkSize ⟨t.text, some (d.move dx dy)⟩ p =
      Tile.checkSize ⟨t.text, some d⟩ p := rfl
  have applied : Tile.applyFont ⟨t.text, some (d.move dx dy)⟩ p.fontTable =
      (Tile.applyFont ⟨t.text, some d⟩ p.fontTable).map (Tile.move dx dy) := by
    simp only [Tile.applyFont, Rect.move]
    cases p.fontTable.textOffset t.text.content.length _ d.width d.height <;> rfl
  simp only [Tile.place, Tile.move, checked, applied]
  cases Tile.checkSize ⟨t.text, some d⟩ p with
  | error e => rfl
  | ok _ => cases Tile.applyFont ⟨t.text, some d⟩ p.fontTable <;> rfl

theorem placeItems_move (p : Profile) (d : Rect) (length : Int) (k : Nat) (ts : List Tile) :
    placeItems p (d.move dx dy) length k (ts.map (Tile.move dx dy)) =
      ⟨(placeItems p d length k ts).result.map (Tile.move dx dy),
        (placeItems p d length k ts).fault⟩ := by
  induction ts generalizing k with
  | nil => rfl
  | cons t ts ih =>
    rw [List.map_cons, placeItems, placeItems, itemArea_move, placeTile_move, ih]
    cases (t.place p (itemArea d p.listItemMargin length k)).fault <;> rfl

theorem placeList_move (p : Profile) (items : List Tile) (k : Int) (r : Option Rect) (d : Rect) :
    placeList p (items.map (Tile.move dx dy)) k (r.map (Rect.move dx dy)) (d.move dx dy) =
      ⟨(placeList p items k r d).result.move dx dy, (placeList p items k r d).fault⟩ := by
  have width : (d.move dx dy).width = d.width := rfl
  have height : (d.move dx dy).height = d.height := rfl
  rw [placeList, placeList, width, height, placeItems_move]
  split
  · rfl
  · split <;> rfl

theorem placeSeparator_move (p : Profile) (axis : Axis) (r : Option Rect) (d : Rect) :
    placeSeparator p axis (r.map (Rect.move dx dy)) (d.move dx dy) =
      ⟨(placeSeparator p axis r d).result.move dx dy, (placeSeparator p axis r d).fault⟩ := by
  rw [placeSeparator, placeSeparator, rule_move]
  cases rule axis (p.separatorMargin axis) d <;> rfl

/-! ## A pass over the tree -/

mutual
/-- **A pass in a moved area is the moved pass**, by induction on the tree. -/
theorem place_move (p : Profile) : ∀ (n : Node) (d : Rect),
    place p (n.move dx dy) (d.move dx dy) =
      ⟨(place p n d).result.move dx dy, (place p n d).fault⟩
  | .stack axis nodes r, d => by
    rw [Node.move, place, place, slotCount_moveAll, extent_move, placeAll_move]
    split <;> rfl
  | .split a s b t r, d => by
    have height : (d.move dx dy).height = d.height := rfl
    rw [Node.move, place, place, height]
    cases s.cut d.height with
    | error e => rfl
    | ok up =>
      have upper : (⟨(d.move dx dy).x, (d.move dx dy).y, (d.move dx dy).width, up⟩ : Rect) =
          Rect.move dx dy ⟨d.x, d.y, d.width, up⟩ := rfl
      have lower : (⟨(d.move dx dy).x, (d.move dx dy).y + up, (d.move dx dy).width,
          d.height - up⟩ : Rect) =
          Rect.move dx dy ⟨d.x, d.y + up, d.width, d.height - up⟩ := by
        simp only [Rect.move, Int.add_right_comm]
      simp only [upper, lower, place_move p a, place_move p b]
      cases (place p a ⟨d.x, d.y, d.width, up⟩).fault <;> rfl
  | .tile t, d => by rw [Node.move, place, place, placeTile_move]; rfl
  | .separator axis r, d => by rw [Node.move, place, place, placeSeparator_move]
  | .list items k r, d => by rw [Node.move, place, place, placeList_move]
  | .bare r, d => rfl
termination_by structural n => n

theorem placeAll_move (p : Profile) (axis : Axis) (d : Rect) (length : Int) :
    ∀ (k : Nat) (ns : List Node),
      placeAll p axis (d.move dx dy) length k (Node.moveAll dx dy ns) =
        ⟨Node.moveAll dx dy (placeAll p axis d length k ns).result,
          (placeAll p axis d length k ns).fault⟩
  | _, [] => rfl
  | k, n :: ns => by
    rw [Node.moveAll, placeAll, placeAll, slot_move, isSeparator_move, place_move p n,
      placeAll_move p axis d length _ ns]
    cases (place p n (slot axis d length k n)).fault <;> rfl
termination_by structural _ ns => ns
end

end Pass

namespace Node

/-! ## What moving keeps -/

mutual
/-- A tree without geometry has nothing to move. -/
theorem move_clear : ∀ n : Node, n.clear.move dx dy = n.clear
  | .stack axis ns r => by rw [clear, move, moveAll_clearAll ns, Option.map_none]
  | .split a s b t r => by rw [clear, move, move_clear a, move_clear b, Option.map_none]
  | .tile t => rfl
  | .separator axis r => rfl
  | .list items k r => by
    rw [clear, move, List.map_map, Option.map_none]
    rfl
  | .bare r => rfl
termination_by structural n => n

theorem moveAll_clearAll : ∀ ns : List Node, moveAll dx dy (clearAll ns) = clearAll ns
  | [] => rfl
  | n :: ns => by rw [clearAll, moveAll, move_clear n, moveAll_clearAll ns]
termination_by structural ns => ns
end

mutual
theorem clear_move : ∀ n : Node, (n.move dx dy).clear = n.clear
  | .stack axis ns r => by rw [move, clear, clear, clearAll_moveAll ns]
  | .split a s b t r => by rw [move, clear, clear, clear_move a, clear_move b]
  | .tile t => rfl
  | .separator axis r => rfl
  | .list items k r => by
    rw [move, clear, clear, List.map_map]
    rfl
  | .bare r => rfl
termination_by structural n => n

theorem clearAll_moveAll : ∀ ns : List Node, clearAll (moveAll dx dy ns) = clearAll ns
  | [] => rfl
  | n :: ns => by rw [moveAll, clearAll, clearAll, clear_move n, clearAll_moveAll ns]
termination_by structural ns => ns
end

theorem sameDeclaration_move (n : Node) : (n.move dx dy).SameDeclaration n :=
  sameDeclaration_iff.mpr (clear_move dx dy n)

mutual
theorem walk_move : ∀ n : Node, (n.move dx dy).walk = n.walk.map (Node.move dx dy)
  | .stack axis ns r => by rw [move, walk, walk, walkAll_moveAll ns, List.map_cons, move]
  | .split a s b t r => by
    rw [move, walk, walk, walk_move a, walk_move b, List.map_cons, List.map_append, move]
  | .tile t => rfl
  | .separator axis r => rfl
  | .list items k r => by
    rw [move, walk, walk, List.map_cons, List.map_map, List.map_map, move]
    rfl
  | .bare r => rfl
termination_by structural n => n

theorem walkAll_moveAll : ∀ ns : List Node,
    walkAll (moveAll dx dy ns) = (walkAll ns).map (Node.move dx dy)
  | [] => rfl
  | n :: ns => by
    rw [moveAll, walkAll, walkAll, walk_move n, walkAll_moveAll ns, List.map_append]
termination_by structural ns => ns
end

/-- Of the geometry of a node, moving changes the rectangle alone. -/
theorem placed?_move (n : Node) :
    (n.move dx dy).placed? = n.placed?.map (PlacedNode.move dx dy) := by
  cases n with
  | stack axis ns r => cases r <;> rfl
  | split a s b t r => cases r <;> rfl
  | tile t =>
    obtain ⟨text, r⟩ := t
    cases r <;> rfl
  | separator axis r => cases r <;> rfl
  | list items k r =>
    -- the label counts the items
    cases r <;> simp only [placed?, move, rect?, describe, List.length_map, Option.map_none,
      Option.map_some, PlacedNode.move]
  | bare r => cases r <;> rfl

theorem geometry_move (n : Node) :
    (n.move dx dy).geometry = n.geometry.map (PlacedNode.move dx dy) := by
  rw [geometry, geometry, walk_move, List.filterMap_map, List.map_filterMap]
  exact List.filterMap_congr fun m _ => placed?_move dx dy m

/-! ## A pass over a whole tree -/

/-- A pass in moved bounds ends like the pass, wherever that ends. -/
theorem resolveInPlace_move (root : Node) (bounds : Rect) (p : Profile) :
    root.resolveInPlace (bounds.move dx dy) p =
      ⟨(root.resolveInPlace bounds p).result.move dx dy, (root.resolveInPlace bounds p).fault⟩ := by
  have moved := Pass.place_move dx dy p root.clear bounds
  rw [move_clear] at moved
  exact moved

/-- **A layout does not depend on where its bounds lie.** In moved bounds a pass succeeds exactly if
it does in the bounds, and fails with the same fault otherwise. If it succeeds, the resolved tree is
the moved one: it declares the same, every rectangle has its size and is moved, and every text has
its offset and its font size. -/
theorem resolve_move (root : Node) (bounds : Rect) (p : Profile) :
    ((∃ out, root.resolve (bounds.move dx dy) p = .ok out) ↔
        ∃ out, root.resolve bounds p = .ok out) ∧
      (∀ fault, root.resolve (bounds.move dx dy) p = .error fault ↔
        root.resolve bounds p = .error fault) ∧
      ∀ out, root.resolve bounds p = .ok out →
        root.resolve (bounds.move dx dy) p = .ok (out.move dx dy) ∧
          (out.move dx dy).SameDeclaration out ∧
          (out.move dx dy).geometry = out.geometry.map (PlacedNode.move dx dy) := by
  have moved := resolveInPlace_move dx dy root bounds p
  refine ⟨?_, ?_, ?_⟩
  · rw [exists_resolve_iff, exists_resolve_iff, moved]
  · intro fault
    rw [resolve_eq_error_iff, resolve_eq_error_iff, moved]
  · intro out h
    have hpass := resolve_eq_ok_iff.mp h
    refine ⟨?_, sameDeclaration_move dx dy out, geometry_move dx dy out⟩
    rw [resolve_eq_ok_iff, moved, hpass]

/-- A screen with splits, rules and a list, laid out beyond the left edge of its display. -/
theorem resolve_move_cooperTest :
    ∃ out,
      Catalogue.cooperTest.resolve Profile.waveshare2in9.bounds Profile.waveshare2in9 = .ok out ∧
      Catalogue.cooperTest.resolve ⟨-40, 7, 296, 128⟩ Profile.waveshare2in9 =
        .ok (out.move (-40) 7) ∧
      (out.move (-40) 7).geometry = out.geometry.map (PlacedNode.move (-40) 7) := by
  obtain ⟨out, hout⟩ := exists_resolve Catalogue.cooperTest Profile.waveshare2in9.bounds
    Profile.waveshare2in9 (by decide +kernel)
  obtain ⟨_, _, moved⟩ :=
    resolve_move (-40) 7 Catalogue.cooperTest Profile.waveshare2in9.bounds Profile.waveshare2in9
  obtain ⟨hmoved, _, geometry⟩ := moved out hout
  exact ⟨out, hout, hmoved, geometry⟩

end Node

end PixelLayout
