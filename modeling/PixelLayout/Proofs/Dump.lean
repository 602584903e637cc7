import PixelLayout.Node.Build
import PixelLayout.Proofs.Prefix

/-!
# Comparing layouts by their dumps

The dump of a tree's geometry is flat: it leaves out every node without a rectangle, and tells nodes
apart by their labels alone. Of two trees in any state it says little: a rectangle that has gone
from one rule to the next leaves the same dump. Of two layouts of one tree it says everything. In
both of them exactly the nodes that take geometry have a rectangle (`Node.RectDue`), so the entries
of the dumps belong to the same nodes one by one.

**The law** (`geometry_append_inj`): of two trees that declare the same, the dumps with anything
behind them are equal only if the trees are, and what is behind is too. The dumps are read off the
front, one tree after the other, so nothing has to be known of their lengths or of the labels in
them.
-/

namespace PixelLayout

/-- The node has a rectangle exactly if it takes geometry of its own. -/
def Node.RectDue (n : Node) : Prop := n.rect?.isSome = n.takesGeometry

namespace Node

theorem RectDue.exists_rect {n : Node} (h : n.RectDue) (takes : n.takesGeometry = true) :
    ∃ r, n.rect? = some r :=
  Option.isSome_iff_exists.mp (h.trans takes)

/-- Every node of a resolved tree has its rectangle or takes none. -/
theorem rectDue_of_resolve {root out : Node} {bounds : Rect} {p : Profile}
    (h : root.resolve bounds p = .ok out) : ∀ n ∈ out.walk, n.RectDue := by
  obtain ⟨goes, hwalk⟩ := walk_of_resolve h
  intro n hn
  rw [hwalk] at hn
  obtain ⟨v, hv, rfl⟩ := List.mem_map.mp hn
  obtain ⟨-, laid⟩ := Visit.laidOut_placed_clear (goes v hv)
  unfold RectDue
  revert laid
  cases v.clear.placed p with
  | stack axis ns r => rintro rfl; rfl
  | split a s b t r => rintro rfl; rfl
  | tile t => rintro ⟨hrect, -⟩; simp only [rect?, hrect]; rfl
  | separator axis r => cases axis <;> · rintro rfl; rfl
  | list items k r => rintro rfl; rfl
  | bare r => exact False.elim

/-! ## Reading a dump from the front -/

theorem placed?_isSome (n : Node) : n.placed?.isSome = n.rect?.isSome := Option.isSome_map

theorem rect?_eq_of_placed? {m n : Node} (h : m.placed? = n.placed?) : m.rect? = n.rect? := by
  have rects := congrArg (Option.map PlacedNode.rect) h
  simpa only [placed?, Option.map_map, Function.comp_def, Option.map_id'] using rects

/-- If two nodes both take geometry or both take none, the dumps of what is behind them start at the
same place. -/
theorem placed?_cons_append_inj {m n : Node} (hm : m.RectDue) (hn : n.RectDue)
    (same : m.takesGeometry = n.takesGeometry) {ms ns : List Node} {rest rest' : List PlacedNode}
    (h : (m :: ms).filterMap placed? ++ rest = (n :: ns).filterMap placed? ++ rest') :
    m.placed? = n.placed? ∧ ms.filterMap placed? ++ rest = ns.filterMap placed? ++ rest' := by
  have aligned : m.placed?.isSome = n.placed?.isSome := by
    rw [placed?_isSome, placed?_isSome, hm, hn, same]
  rw [List.filterMap_cons, List.filterMap_cons] at h
  revert h aligned
  cases m.placed? with
  | none =>
    cases n.placed? with
    | none => exact fun h _ => ⟨rfl, h⟩
    | some g' => exact nofun
  | some g =>
    cases n.placed? with
    | none => exact nofun
    | some g' =>
      intro h _
      obtain ⟨rfl, later⟩ := List.cons.inj h
      exact ⟨rfl, later⟩

/-- A tile with a rectangle is told by its declaration and its entry. -/
theorem tile_eq_of_placed? {t u : Tile} (same : t.SameDeclaration u) (ht : (tile t).RectDue)
    (h : (tile t).placed? = (tile u).placed?) : t = u := by
  obtain ⟨⟨content, format, fontSize, offset, size⟩, r⟩ := t
  obtain ⟨⟨content', format', fontSize', offset', size'⟩, r'⟩ := u
  obtain ⟨rfl, rfl, rfl⟩ := same
  obtain ⟨r, rfl⟩ := ht.exists_rect rfl
  obtain rfl : some r = r' := rect?_eq_of_placed? h
  cases h
  rfl

theorem items_append_inj {ts us : List Tile} (same : List.Forall₂ Tile.SameDeclaration ts us)
    (hts : ∀ n ∈ ts.map tile, n.RectDue) (hus : ∀ n ∈ us.map tile, n.RectDue)
    {rest rest' : List PlacedNode}
    (h : (ts.map tile).filterMap placed? ++ rest = (us.map tile).filterMap placed? ++ rest') :
    ts = us ∧ rest = rest' := by
  induction same with
  | nil => exact ⟨rfl, h⟩
  | cons declared _ ih =>
    obtain ⟨ht, behind⟩ := List.forall_mem_cons.mp hts
    obtain ⟨hu, behind'⟩ := List.forall_mem_cons.mp hus
    obtain ⟨here, later⟩ := placed?_cons_append_inj ht hu rfl h
    obtain rfl := tile_eq_of_placed? declared ht here
    obtain ⟨rfl, rest⟩ := ih behind behind' later
    exact ⟨rfl, rest⟩

mutual
/-- **A dump is read off the front in one way only**, by induction on the tree: each node's own
entry comes first, if it has one, and then what is below it. -/
theorem geometry_append_inj : ∀ {m n : Node}, m.SameDeclaration n → (∀ k ∈ m.walk, k.RectDue) →
    (∀ k ∈ n.walk, k.RectDue) → ∀ {rest rest' : List PlacedNode},
      m.geometry ++ rest = n.geometry ++ rest' → m = n ∧ rest = rest'
  | .stack axis ms r, n, same, hm, hn, rest, rest', h => by
    cases n <;> simp only [SameDeclaration] at same
    case stack axis' ns r' =>
      obtain ⟨rfl, same⟩ := same
      obtain ⟨own, below⟩ := List.forall_mem_cons.mp hm
      obtain ⟨own', below'⟩ := List.forall_mem_cons.mp hn
      obtain ⟨here, later⟩ := placed?_cons_append_inj own own' rfl h
      obtain rfl : r = r' := rect?_eq_of_placed? here
      obtain ⟨rfl, rest⟩ := geometryAll_append_inj same below below' later
      exact ⟨rfl, rest⟩
  | .split a s b t r, n, same, hm, hn, rest, rest', h => by
    cases n <;> simp only [SameDeclaration] at same
    case split a' s' b' t' r' =>
      obtain ⟨first, rfl, second, rfl⟩ := same
      obtain ⟨own, halves⟩ := List.forall_mem_cons.mp hm
      obtain ⟨own', halves'⟩ := List.forall_mem_cons.mp hn
      obtain ⟨ha, hb⟩ := List.forall_mem_append.mp halves
      obtain ⟨ha', hb'⟩ := List.forall_mem_append.mp halves'
      obtain ⟨here, later⟩ := placed?_cons_append_inj own own' rfl h
      rw [List.filterMap_append, List.filterMap_append, List.append_assoc, List.append_assoc]
        at later
      obtain rfl : r = r' := rect?_eq_of_placed? here
      obtain ⟨rfl, lower⟩ := geometry_append_inj first ha ha' later
      obtain ⟨rfl, rest⟩ := geometry_append_inj second hb hb' lower
      exact ⟨rfl, rest⟩
  | .tile t, n, same, hm, hn, rest, rest', h => by
    cases n <;> simp only [SameDeclaration] at same
    case tile u =>
      have own := hm _ List.mem_cons_self
      have own' := hn _ List.mem_cons_self
      obtain ⟨here, rest⟩ := placed?_cons_append_inj own own' rfl h
      obtain rfl := tile_eq_of_placed? same own here
      exact ⟨rfl, rest⟩
  | .separator axis r, n, same, hm, hn, rest, rest', h => by
    cases n <;> simp only [SameDeclaration] at same
    case separator axis' r' =>
      obtain rfl := same
      obtain ⟨here, rest⟩ := placed?_cons_append_inj (hm _ List.mem_cons_self)
        (hn _ List.mem_cons_self) rfl h
      obtain rfl : r = r' := rect?_eq_of_placed? here
      exact ⟨rfl, rest⟩
  | .list ts k r, n, same, hm, hn, rest, rest', h => by
    cases n <;> simp only [SameDeclaration] at same
    case list us k' r' =>
      obtain ⟨same, rfl⟩ := same
      obtain ⟨own, below⟩ := List.forall_mem_cons.mp hm
      obtain ⟨own', below'⟩ := List.forall_mem_cons.mp hn
      obtain ⟨here, later⟩ := placed?_cons_append_inj own own' rfl h
      obtain rfl : r = r' := rect?_eq_of_placed? here
      obtain ⟨rfl, rest⟩ := items_append_inj same below below' later
      exact ⟨rfl, rest⟩
  | .bare r, n, same, hm, hn, rest, rest', h => by
    cases n <;> simp only [SameDeclaration] at same
    case bare r' =>
      obtain ⟨here, rest⟩ := placed?_cons_append_inj (hm _ List.mem_cons_self)
        (hn _ List.mem_cons_self) rfl h
      obtain rfl : r = r' := rect?_eq_of_placed? here
      exact ⟨rfl, rest⟩
termination_by structural m => m

theorem geometryAll_append_inj : ∀ {ms ns : List Node}, SameDeclarations ms ns →
    (∀ k ∈ walkAll ms, k.RectDue) → (∀ k ∈ walkAll ns, k.RectDue) →
      ∀ {rest rest' : List PlacedNode}, (walkAll ms).filterMap placed? ++ rest =
        (walkAll ns).filterMap placed? ++ rest' → ms = ns ∧ rest = rest'
  | [], ns, same, _, _, rest, rest', h => by
    cases ns <;> simp only [SameDeclarations] at same
    exact ⟨rfl, h⟩
  | m :: ms, ns, same, hms, hns, rest, rest', h => by
    cases ns <;> simp only [SameDeclarations] at same
    case cons n ns =>
      obtain ⟨first, others⟩ := same
      obtain ⟨hm, behind⟩ := List.forall_mem_append.mp hms
      obtain ⟨hn, behind'⟩ := List.forall_mem_append.mp hns
      rw [walkAll, walkAll, List.filterMap_append, List.filterMap_append, List.append_assoc,
        List.append_assoc] at h
      obtain ⟨rfl, later⟩ := geometry_append_inj first hm hn h
      obtain ⟨rfl, rest⟩ := geometryAll_append_inj others behind behind' later
      exact ⟨rfl, rest⟩
termination_by structural ms => ms
end

/-- Two trees that declare the same, with rectangles where geometry is taken and nowhere else, are
equal if their dumps are. -/
theorem eq_of_geometry {m n : Node} (same : m.SameDeclaration n) (hm : ∀ k ∈ m.walk, k.RectDue)
    (hn : ∀ k ∈ n.walk, k.RectDue) (h : m.geometry = n.geometry) : m = n :=
  (geometry_append_inj same hm hn (congrArg (· ++ []) h)).1

/-! ## Two layouts of one tree -/

/-- **The dump is a faithful test of equality.** Two layouts of one tree, in any bounds and for any
displays, have equal dumps if and only if they are the same tree, with every rectangle, every offset
and every font size, however many of its nodes have the same label. -/
theorem geometry_eq_iff {t a b : Node} {d e : Rect} {p q : Profile} (ha : t.resolve d p = .ok a)
    (hb : t.resolve e q = .ok b) : a.geometry = b.geometry ↔ a = b := by
  constructor
  · have same := (sameDeclaration_of_resolve ha).trans (sameDeclaration_of_resolve hb).symm
    exact eq_of_geometry same (rectDue_of_resolve ha) (rectDue_of_resolve hb)
  · rintro rfl
    rfl

/-- Two labels of one text, each with a rule of one kind above it. -/
def twins : Node :=
  .stack .vertical [.separator .horizontal none, label "A", .separator .horizontal none, label "A"]
    none

/-- One pixel more is left over by two slots, and the layout is the same tree. Two pixels more are
not. -/
theorem geometry_eq_iff_twins :
    ∃ a b c, twins.resolve ⟨0, 0, 60, 60⟩ Profile.waveshare2in9 = .ok a ∧
      twins.resolve ⟨0, 0, 60, 61⟩ Profile.waveshare2in9 = .ok b ∧
      twins.resolve ⟨0, 0, 60, 62⟩ Profile.waveshare2in9 = .ok c ∧ a = b ∧ a ≠ c := by
  have ha : twins.resolve ⟨0, 0, 60, 60⟩ Profile.waveshare2in9 = .ok _ := rfl
  have hb : twins.resolve ⟨0, 0, 60, 61⟩ Profile.waveshare2in9 = .ok _ := rfl
  have hc : twins.resolve ⟨0, 0, 60, 62⟩ Profile.waveshare2in9 = .ok _ := rfl
  refine ⟨_, _, _, ha, hb, hc, (geometry_eq_iff ha hb).mp (by decide), ?_⟩
  exact mt (geometry_eq_iff ha hc).mpr (by decide)

end Node

end PixelLayout
