import PixelLayout.Pass
import PixelLayout.Proofs.Font

/-!
# The visits of a pass

A pass meets each node of a tree once, in document order, together with the area that the layout
rules give that node. `Pass.visits` lists these meetings without laying anything out, and
`Visit.halt` says what one of them does to the pass, from the node and its area alone.

**The law** (`sweep_visits`): a pass is a sweep over its visits. It lays out one node after the
other, stops at the first that halts it, and leaves all later ones as they were. Three readings of
it are used throughout: the fault of a pass is the first halt of its visits (`place_fault`), a pass
without a fault has laid out every visit (`walk_of_place`), and a pass with a fault has laid out the
visits up to that halt and no other (`walk_of_stopped`).

A pass starts from a tree without geometry, and the visits do not depend on geometry
(`visits_clear`).
-/

namespace PixelLayout

/-- A node and the area that a pass lays it out in. -/
structure Visit where
  node : Node
  area : Rect

namespace Pass

/-- The height of the first node of a split in an area. A share that yields no height stops the
pass, and stands here for no height. -/
def upper (s : Share) (d : Rect) : Int :=
  match s.cut d.height with
  | .ok up => up
  | .error _ => 0

/-- The area of the first node of a split. -/
def upperPart (s : Share) (d : Rect) : Rect := ⟨d.x, d.y, d.width, upper s d⟩

/-- The area of the second node of a split: all that the first one leaves. -/
def lowerPart (s : Share) (d : Rect) : Rect :=
  ⟨d.x, d.y + upper s d, d.width, d.height - upper s d⟩

/-- The visits to the items of a list, from item `k` on. -/
def visitItems (p : Profile) (d : Rect) (length : Int) : Nat → List Tile → List Visit
  | _, [] => []
  | k, t :: ts =>
    ⟨.tile t, itemArea d p.listItemMargin length k⟩ :: visitItems p d length (k + 1) ts

mutual
/-- The visits to a tree in an area, in document order. -/
def visits (p : Profile) : Node → Rect → List Visit
  | .stack axis nodes r, d =>
    ⟨.stack axis nodes r, d⟩ :: visitsAll p axis d (extent axis d / slotCount nodes) 0 nodes
  | .split a s b t r, d =>
    ⟨.split a s b t r, d⟩ :: (visits p a (upperPart s d) ++ visits p b (lowerPart s d))
  | .list items k r, d => ⟨.list items k r, d⟩ :: visitItems p d (d.height / k) 0 items
  | .tile t, d => [⟨.tile t, d⟩]
  | .separator axis r, d => [⟨.separator axis r, d⟩]
  | .bare r, d => [⟨.bare r, d⟩]

/-- The visits to the children of a stack, from the child that comes after `k` slots on. -/
def visitsAll (p : Profile) (axis : Axis) (d : Rect) (length : Int) : Nat → List Node → List Visit
  | _, [] => []
  | k, n :: ns =>
    visits p n (slot axis d length k n) ++
      visitsAll p axis d length (if n.isSeparator then k else k + 1) ns
end

end Pass

namespace Visit

/-- Why a node cannot be laid out in its area, if there is a reason. Shares are apart, because what
they lead to is no layout fault. -/
def offence (p : Profile) (v : Visit) : Option LayoutFault :=
  match v.node with
  | .stack axis nodes _ => if nodes.all Node.isSeparator then some (.noSlots axis) else none
  | .split .. => none
  | .tile t =>
    match t.text.fontSize with
    | none => none
    | some size =>
      if p.fontTable.hasSize size then none
      else some (.sizeNotOffered t.text.content size p.name p.fontTable.sizes)
  | .separator axis _ =>
    if Pass.extent axis v.area < 2 * p.separatorMargin axis then
      some (.ruleMargin axis (p.separatorMargin axis) (Pass.extent axis v.area))
    else none
  | .list _ k _ =>
    if k ≤ 0 then some (.visibleCount k)
    else if v.area.width < 2 * p.listItemMargin then
      some (.itemMargin p.listItemMargin v.area.width)
    else none
  | .bare _ => some (.unknownKind .bare)

/-- The fault with which a visit stops a pass, if it does. -/
def halt (p : Profile) (v : Visit) : Option Fault :=
  match v.node with
  | .split _ s _ _ _ =>
    match s.cut v.area.height with
    | .ok _ => none
    | .error e => some (.number e)
  | _ => (v.offence p).map .layout

/-- The node as a pass over it leaves it. -/
def placed (p : Profile) (v : Visit) : Node := (Pass.place p v.node v.area).result

/-- The visit to the node without geometry. -/
def clear (v : Visit) : Visit := ⟨v.node.clear, v.area⟩

end Visit

namespace Pass

/-- A pass as its visits describe it: each node as a pass over it leaves it, up to the first one
that halts, and then every node as it was. -/
def sweep (p : Profile) : List Visit → Progress (List Node)
  | [] => ⟨[], none⟩
  | v :: vs =>
    match v.halt p with
    | some fault => ⟨v.placed p :: vs.map Visit.node, some fault⟩
    | none => ⟨v.placed p :: (sweep p vs).result, (sweep p vs).fault⟩

/-! ## Sweeps -/

variable {p : Profile}

theorem sweep_cons_halt {v : Visit} {fault : Fault} (h : v.halt p = some fault) (vs : List Visit) :
    sweep p (v :: vs) = ⟨v.placed p :: vs.map Visit.node, some fault⟩ := by
  simp only [sweep, h]

theorem sweep_cons_none {v : Visit} (h : v.halt p = none) (vs : List Visit) :
    sweep p (v :: vs) = ⟨v.placed p :: (sweep p vs).result, (sweep p vs).fault⟩ := by
  simp only [sweep, h]

/-- A sweep goes on behind visits that do not halt. -/
theorem sweep_append_none {vs : List Visit} (h : (sweep p vs).fault = none) (ws : List Visit) :
    sweep p (vs ++ ws) = ⟨(sweep p vs).result ++ (sweep p ws).result, (sweep p ws).fault⟩ := by
  induction vs with
  | nil => rfl
  | cons v vs ih =>
    cases hv : v.halt p with
    | some fault => simp only [sweep_cons_halt hv, reduceCtorEq] at h
    | none =>
      simp only [sweep_cons_none hv] at h ⊢
      simp only [List.cons_append, sweep_cons_none hv, ih h]

/-- A sweep that halts leaves everything behind as it was. -/
theorem sweep_append_some {vs : List Visit} {fault : Fault} (h : (sweep p vs).fault = some fault)
    (ws : List Visit) :
    sweep p (vs ++ ws) = ⟨(sweep p vs).result ++ ws.map Visit.node, some fault⟩ := by
  induction vs with
  | nil => simp only [sweep, reduceCtorEq] at h
  | cons v vs ih =>
    cases hv : v.halt p with
    | some other =>
      simp only [sweep_cons_halt hv, Option.some.injEq] at h
      subst h
      simp only [List.cons_append, sweep_cons_halt hv, List.map_append]
    | none =>
      simp only [sweep_cons_none hv] at h ⊢
      simp only [List.cons_append, sweep_cons_none hv, ih h]

/-- The fault of a sweep is its first halt. -/
theorem sweep_fault (vs : List Visit) : (sweep p vs).fault = vs.findSome? (Visit.halt p) := by
  induction vs with
  | nil => rfl
  | cons v vs ih =>
    cases hv : v.halt p with
    | some fault => rw [sweep_cons_halt hv, List.findSome?_cons, hv]
    | none => rw [sweep_cons_none hv, List.findSome?_cons, hv, ← ih]

/-- A sweep without a halt lays out everything. -/
theorem sweep_result {vs : List Visit} (h : (sweep p vs).fault = none) :
    (sweep p vs).result = vs.map (Visit.placed p) := by
  induction vs with
  | nil => rfl
  | cons v vs ih =>
    cases hv : v.halt p with
    | some fault => simp only [sweep_cons_halt hv, reduceCtorEq] at h
    | none =>
      simp only [sweep_cons_none hv] at h ⊢
      rw [ih h, List.map_cons]

/-- A sweep with a halt lays out everything up to the first halt, and nothing behind it. -/
theorem sweep_stopped {vs : List Visit} {fault : Fault} (h : (sweep p vs).fault = some fault) :
    ∃ before v after, vs = before ++ v :: after ∧ (∀ w ∈ before, w.halt p = none) ∧
      v.halt p = some fault ∧
      (sweep p vs).result = before.map (Visit.placed p) ++ v.placed p :: after.map Visit.node := by
  rw [sweep_fault] at h
  obtain ⟨before, v, after, rfl, hv, hbefore⟩ := List.findSome?_eq_some_iff.mp h
  have clean : (sweep p before).fault = none := by
    rw [sweep_fault]
    exact List.findSome?_eq_none_iff.mpr hbefore
  refine ⟨before, v, after, rfl, hbefore, hv, ?_⟩
  rw [sweep_append_none clean, sweep_result clean, sweep_cons_halt hv]

/-! ## What one visit does -/

/-- A tile gets its area, and then either all that its text lacks or the fault of its font size. -/
theorem placeTile_cases (p : Profile) (t : Tile) (d : Rect) :
    ((Visit.mk (.tile t) d).offence p = none ∧ ∃ offset size, t.place p d =
      ⟨⟨{ t.text with offset := some offset, resolvedFontSize := some size }, some d⟩, none⟩) ∨
    (∃ e, (Visit.mk (.tile t) d).offence p = some e ∧
      t.place p d = ⟨{ t with rect := some d }, some (.layout e)⟩) := by
  cases hsize : t.text.fontSize with
  | none =>
    obtain ⟨offset, hoffset⟩ := FontTable.exists_textOffset
      (FontTable.hasSize_fit p.fontTable t.text.content.length d.width d.height)
      t.text.content.length d.width d.height
    refine .inl ⟨by simp only [Visit.offence, hsize], offset,
      p.fontTable.fit t.text.content.length d.width d.height, ?_⟩
    simp only [Tile.place, Tile.checkSize, Tile.applyFont, hsize, Option.getD_none, hoffset,
      Except.map]
  | some size =>
    by_cases offered : p.fontTable.hasSize size = true
    · obtain ⟨offset, hoffset⟩ :=
        FontTable.exists_textOffset offered t.text.content.length d.width d.height
      refine .inl ⟨by simp only [Visit.offence, hsize, if_pos offered], offset, size, ?_⟩
      simp only [Tile.place, Tile.checkSize, Tile.applyFont, hsize, if_pos offered,
        Option.getD_some, hoffset, Except.map]
    · refine .inr ⟨.sizeNotOffered t.text.content size p.name p.fontTable.sizes,
        by simp only [Visit.offence, hsize, if_neg offered], ?_⟩
      simp only [Tile.place, Tile.checkSize, hsize, if_neg offered]

theorem placeTile_fault (p : Profile) (t : Tile) (d : Rect) :
    (t.place p d).fault = (Visit.mk (.tile t) d).halt p := by
  rcases placeTile_cases p t d with ⟨h, offset, size, hplace⟩ | ⟨e, h, hplace⟩ <;>
    rw [hplace, Visit.halt, h] <;> rfl

/-- A rule fits into its area between its margins, unless the area is too short for them. -/
theorem rule_eq (axis : Axis) (margin : Int) (d : Rect) :
    rule axis margin d =
      if extent axis d < 2 * margin then .error (.ruleMargin axis margin (extent axis d))
      else .ok (match axis with
        | .horizontal => ⟨d.x + margin, d.y, d.width - 2 * margin, 1⟩
        | .vertical => ⟨d.x, d.y + margin, 1, d.height - 2 * margin⟩) := by
  by_cases short : extent axis d < 2 * margin
  · rw [if_pos short]
    cases axis <;> simp only [extent] at short <;> exact if_pos (by omega)
  · rw [if_neg short]
    cases axis <;> simp only [extent] at short <;> exact if_neg (by omega)

theorem placeSeparator_fault (p : Profile) (axis : Axis) (r : Option Rect) (d : Rect) :
    (placeSeparator p axis r d).fault = (Visit.mk (.separator axis r) d).halt p := by
  unfold placeSeparator Visit.halt Visit.offence
  rw [rule_eq]
  by_cases short : extent axis d < 2 * p.separatorMargin axis
  · simp only [if_pos short, Option.map_some]
  · simp only [if_neg short, Option.map_none]

/-- A separator stays a separator, whatever becomes of its rule. -/
theorem walk_placeSeparator (p : Profile) (axis : Axis) (r : Option Rect) (d : Rect) :
    (placeSeparator p axis r d).result.walk = [(placeSeparator p axis r d).result] := by
  unfold placeSeparator
  split <;> rfl

/-- No slots are taken exactly where every child is a separator. -/
theorem slotCount_eq_zero (nodes : List Node) :
    slotCount nodes = 0 ↔ nodes.all Node.isSeparator = true := by
  simp only [slotCount, List.countP_eq_zero, List.all_eq_true, Bool.not_eq_true', Bool.not_eq_false]

/-- A stack goes on if a child takes a slot. -/
theorem halt_stack {p : Profile} {axis : Axis} {nodes : List Node} {r : Option Rect} {d : Rect} :
    (Visit.mk (.stack axis nodes r) d).halt p = none ↔ slotCount nodes ≠ 0 := by
  rw [ne_eq, slotCount_eq_zero]
  by_cases empty : nodes.all Node.isSeparator = true <;>
    simp only [Visit.halt, Visit.offence, empty, ↓reduceIte, Option.map_some, Option.map_none,
      reduceCtorEq, not_true_eq_false, not_false_eq_true, Bool.false_eq_true]

/-- A list goes on if it shows an item and is wide enough for the margins of its items. -/
theorem halt_list {p : Profile} {items : List Tile} {k : Int} {r : Option Rect} {d : Rect} :
    (Visit.mk (.list items k r) d).halt p = none ↔ 0 < k ∧ 2 * p.listItemMargin ≤ d.width := by
  simp only [Visit.halt, Visit.offence]
  by_cases hcount : k ≤ 0
  · simp only [if_pos hcount, Option.map_some, reduceCtorEq, false_iff]
    omega
  · by_cases narrow : d.width < 2 * p.listItemMargin
    · simp only [if_neg hcount, if_pos narrow, Option.map_some, reduceCtorEq, false_iff]
      omega
    · simp only [if_neg hcount, if_neg narrow, Option.map_none, true_iff]
      omega

/-- A separator goes on if its area is long enough for its margins. -/
theorem halt_separator {p : Profile} {axis : Axis} {r : Option Rect} {d : Rect} :
    (Visit.mk (.separator axis r) d).halt p = none ↔
      2 * p.separatorMargin axis ≤ extent axis d := by
  simp only [Visit.halt, Visit.offence]
  by_cases short : extent axis d < 2 * p.separatorMargin axis
  · simp only [if_pos short, Option.map_some, reduceCtorEq, false_iff]
    omega
  · simp only [if_neg short, Option.map_none, true_iff]
    omega

/-! ## The nodes of the visits -/

theorem visitItems_node (p : Profile) (d : Rect) (length : Int) (k : Nat) (ts : List Tile) :
    (visitItems p d length k ts).map Visit.node = ts.map .tile := by
  induction ts generalizing k with
  | nil => rfl
  | cons t ts ih => rw [visitItems, List.map_cons, ih, List.map_cons]

/-- Each visit to an item of a list is one to a tile, in the area of its place in the list. -/
theorem mem_visitItems {p : Profile} {d : Rect} {length : Int} {k : Nat} {ts : List Tile}
    {v : Visit} (hv : v ∈ visitItems p d length k ts) :
    (∃ t, v.node = .tile t) ∧
      ∃ i, k ≤ i ∧ i < k + ts.length ∧ v.area = itemArea d p.listItemMargin length i := by
  induction ts generalizing k with
  | nil => cases hv
  | cons t ts ih =>
    rw [visitItems] at hv
    rw [List.length_cons]
    rcases List.mem_cons.mp hv with rfl | hv
    · exact ⟨⟨t, rfl⟩, k, Nat.le_refl k, by omega, rfl⟩
    · obtain ⟨htile, i, hlo, hhi, harea⟩ := ih hv
      exact ⟨htile, i, by omega, by omega, harea⟩

mutual
/-- A pass visits each node once, in document order. -/
theorem visits_node (p : Profile) :
    ∀ (n : Node) (d : Rect), (visits p n d).map Visit.node = n.walk
  | .stack axis nodes r, d => by
    rw [visits, List.map_cons, visitsAll_node, Node.walk]
  | .split a s b t r, d => by
    rw [visits, List.map_cons, List.map_append, visits_node p a, visits_node p b, Node.walk]
  | .list items k r, d => by
    rw [visits, List.map_cons, visitItems_node, Node.walk]
  | .tile _, _ => rfl
  | .separator _ _, _ => rfl
  | .bare _, _ => rfl
termination_by structural n => n

/-- A pass visits each node below a stack once, in document order. -/
theorem visitsAll_node (p : Profile) (axis : Axis) (d : Rect) (length : Int) :
    ∀ (k : Nat) (ns : List Node), (visitsAll p axis d length k ns).map Visit.node = Node.walkAll ns
  | _, [] => rfl
  | k, n :: ns => by
    rw [visitsAll, List.map_append, visits_node p n, visitsAll_node p axis d length _ ns,
      Node.walkAll]
termination_by structural _ ns => ns
end

theorem visit_node_mem {p : Profile} {n : Node} {d : Rect} {v : Visit} (hv : v ∈ visits p n d) :
    v.node ∈ n.walk := by
  rw [← visits_node p n d]
  exact List.mem_map_of_mem hv

mutual
/-- The visits to a node below are among the visits to the tree. -/
theorem mem_visits_trans (p : Profile) : ∀ (n : Node) (d : Rect), ∀ v ∈ visits p n d,
    ∀ w ∈ visits p v.node v.area, w ∈ visits p n d
  | .stack axis nodes r, d, v, hv, w, hw => by
    rw [visits] at hv ⊢
    rcases List.mem_cons.mp hv with rfl | hv
    · rwa [visits] at hw
    · exact List.mem_cons_of_mem _ (mem_visitsAll_trans p axis d _ 0 nodes v hv w hw)
  | .split a s b t r, d, v, hv, w, hw => by
    rw [visits] at hv ⊢
    rcases List.mem_cons.mp hv with rfl | hv
    · rwa [visits] at hw
    · refine List.mem_cons_of_mem _ (List.mem_append.mpr ?_)
      rcases List.mem_append.mp hv with hv | hv
      · exact .inl (mem_visits_trans p a _ v hv w hw)
      · exact .inr (mem_visits_trans p b _ v hv w hw)
  | .list items k r, d, v, hv, w, hw => by
    rw [visits] at hv ⊢
    rcases List.mem_cons.mp hv with rfl | hv
    · rwa [visits] at hw
    · obtain ⟨⟨t, ht⟩, _⟩ := mem_visitItems hv
      rw [ht, visits, List.mem_singleton, ← ht] at hw
      rw [hw]
      exact List.mem_cons_of_mem _ hv
  | .tile t, d, v, hv, w, hw => by
    rw [visits, List.mem_singleton] at hv
    rwa [hv] at hw
  | .separator axis r, d, v, hv, w, hw => by
    rw [visits, List.mem_singleton] at hv
    rwa [hv] at hw
  | .bare r, d, v, hv, w, hw => by
    rw [visits, List.mem_singleton] at hv
    rwa [hv] at hw
termination_by structural n => n

theorem mem_visitsAll_trans (p : Profile) (axis : Axis) (d : Rect) (length : Int) :
    ∀ (k : Nat) (ns : List Node), ∀ v ∈ visitsAll p axis d length k ns,
      ∀ w ∈ visits p v.node v.area, w ∈ visitsAll p axis d length k ns
  | _, [], _, hv, _, _ => absurd hv List.not_mem_nil
  | k, n :: ns, v, hv, w, hw => by
    rw [visitsAll] at hv ⊢
    refine List.mem_append.mpr ?_
    rcases List.mem_append.mp hv with hv | hv
    · exact .inl (mem_visits_trans p n _ v hv w hw)
    · exact .inr (mem_visitsAll_trans p axis d length _ ns v hv w hw)
termination_by structural _ ns => ns
end

/-! ## A pass is a sweep -/

theorem sweep_visitItems (p : Profile) (d : Rect) (length : Int) (k : Nat) (ts : List Tile) :
    sweep p (visitItems p d length k ts) =
      ⟨(placeItems p d length k ts).result.map .tile, (placeItems p d length k ts).fault⟩ := by
  induction ts generalizing k with
  | nil => rfl
  | cons t ts ih =>
    have hplaced : (Visit.mk (.tile t) (itemArea d p.listItemMargin length k)).placed p =
        .tile (t.place p (itemArea d p.listItemMargin length k)).result := rfl
    have hfault := placeTile_fault p t (itemArea d p.listItemMargin length k)
    rw [visitItems, placeItems]
    cases here : (t.place p (itemArea d p.listItemMargin length k)).fault with
    | some fault =>
      rw [sweep_cons_halt (hfault.symm.trans here), hplaced, visitItems_node]
      simp only [List.map_cons]
    | none =>
      rw [sweep_cons_none (hfault.symm.trans here), hplaced, ih]
      simp only [List.map_cons]

/-- A list is laid out before its items, each of which is visited in turn. -/
theorem sweep_list (p : Profile) (items : List Tile) (k : Int) (r : Option Rect) (d : Rect) :
    sweep p (visits p (.list items k r) d) =
      ⟨(place p (.list items k r) d).result.walk, (place p (.list items k r) d).fault⟩ := by
  have hplaced : (Visit.mk (.list items k r) d).placed p = (placeList p items k r d).result := rfl
  have hplace : place p (.list items k r) d = placeList p items k r d := by rw [place]
  rw [visits, hplace]
  by_cases hcount : k ≤ 0
  · have halts : (Visit.mk (.list items k r) d).halt p = some (.layout (.visibleCount k)) := by
      simp only [Visit.halt, Visit.offence, if_pos hcount, Option.map_some]
    rw [sweep_cons_halt halts, hplaced, visitItems_node]
    simp only [placeList, if_pos hcount, Node.walk]
  · by_cases narrow : d.width < 2 * p.listItemMargin
    · have halts : (Visit.mk (.list items k r) d).halt p =
          some (.layout (.itemMargin p.listItemMargin d.width)) := by
        simp only [Visit.halt, Visit.offence, if_neg hcount, if_pos narrow, Option.map_some]
      rw [sweep_cons_halt halts, hplaced, visitItems_node]
      have hwidth : d.width - 2 * p.listItemMargin < 0 := by omega
      simp only [placeList, if_neg hcount, if_pos hwidth, Node.walk]
    · have goes : (Visit.mk (.list items k r) d).halt p = none := by
        simp only [Visit.halt, Visit.offence, if_neg hcount, if_neg narrow, Option.map_none]
      rw [sweep_cons_none goes, hplaced, sweep_visitItems]
      have hwidth : ¬ d.width - 2 * p.listItemMargin < 0 := by omega
      simp only [placeList, if_neg hcount, if_neg hwidth, Node.walk]

mutual
/-- **A pass over a tree is the sweep over its visits.** By induction on the tree, along the
recursion of the pass. -/
theorem sweep_visits (p : Profile) : ∀ (n : Node) (d : Rect),
    sweep p (visits p n d) = ⟨(place p n d).result.walk, (place p n d).fault⟩
  | .stack axis nodes r, d => by
    have hplaced : (Visit.mk (.stack axis nodes r) d).placed p =
        (place p (.stack axis nodes r) d).result := rfl
    rw [visits]
    by_cases empty : nodes.all Node.isSeparator = true
    · have halts : (Visit.mk (.stack axis nodes r) d).halt p = some (.layout (.noSlots axis)) := by
        simp only [Visit.halt, Visit.offence, if_pos empty, Option.map_some]
      rw [sweep_cons_halt halts, hplaced, visitsAll_node]
      simp only [place, if_pos ((slotCount_eq_zero nodes).mpr empty), Node.walk]
    · have goes : (Visit.mk (.stack axis nodes r) d).halt p = none := by
        simp only [Visit.halt, Visit.offence, if_neg empty, Option.map_none]
      rw [sweep_cons_none goes, hplaced, sweep_visitsAll p axis d _ 0 nodes]
      simp only [place, if_neg (mt (slotCount_eq_zero nodes).mp empty), Node.walk]
  | .split a s b t r, d => by
    have hplaced : (Visit.mk (.split a s b t r) d).placed p =
        (place p (.split a s b t r) d).result := rfl
    rw [visits]
    cases hcut : s.cut d.height with
    | error e =>
      have halts : (Visit.mk (.split a s b t r) d).halt p = some (.number e) := by
        simp only [Visit.halt, hcut]
      rw [sweep_cons_halt halts, hplaced, List.map_append, visits_node, visits_node]
      simp only [place, hcut, Node.walk]
    | ok up =>
      have goes : (Visit.mk (.split a s b t r) d).halt p = none := by
        simp only [Visit.halt, hcut]
      have hup : upper s d = up := by simp only [upper, hcut]
      have hfirst := sweep_visits p a (upperPart s d)
      have hsecond := sweep_visits p b (lowerPart s d)
      rw [sweep_cons_none goes, hplaced]
      simp only [upperPart, lowerPart, hup] at hfirst hsecond ⊢
      cases first : (place p a ⟨d.x, d.y, d.width, up⟩).fault with
      | some fault =>
        rw [sweep_append_some (by rw [hfirst]; exact first), hfirst, visits_node]
        simp only [place, hcut, first, Node.walk]
      | none =>
        rw [sweep_append_none (by rw [hfirst]; exact first), hfirst, hsecond]
        simp only [place, hcut, first, Node.walk]
  | .list items k r, d => sweep_list p items k r d
  | .tile t, d => by
    have hfault := placeTile_fault p t d
    rw [visits]
    cases here : (t.place p d).fault with
    | some fault =>
      rw [sweep_cons_halt (hfault.symm.trans here)]
      simp only [Visit.placed, place, here, Node.walk, List.map_nil]
    | none =>
      rw [sweep_cons_none (hfault.symm.trans here)]
      simp only [Visit.placed, place, here, Node.walk, sweep]
  | .separator axis r, d => by
    have hfault := placeSeparator_fault p axis r d
    rw [visits, place, walk_placeSeparator]
    cases here : (placeSeparator p axis r d).fault with
    | some fault =>
      rw [sweep_cons_halt (hfault.symm.trans here)]
      simp only [Visit.placed, place, List.map_nil]
    | none =>
      rw [sweep_cons_none (hfault.symm.trans here)]
      simp only [Visit.placed, place, sweep]
  | .bare r, d => rfl
termination_by structural n => n

/-- The pass over the children of a stack is the sweep over their visits. -/
theorem sweep_visitsAll (p : Profile) (axis : Axis) (d : Rect) (length : Int) :
    ∀ (k : Nat) (ns : List Node), sweep p (visitsAll p axis d length k ns) =
      ⟨Node.walkAll (placeAll p axis d length k ns).result, (placeAll p axis d length k ns).fault⟩
  | _, [] => rfl
  | k, n :: ns => by
    have hhere := sweep_visits p n (slot axis d length k n)
    rw [visitsAll]
    cases here : (place p n (slot axis d length k n)).fault with
    | some fault =>
      rw [sweep_append_some (by rw [hhere]; exact here), hhere, visitsAll_node]
      simp only [placeAll, here, Node.walkAll]
    | none =>
      rw [sweep_append_none (by rw [hhere]; exact here), hhere,
        sweep_visitsAll p axis d length _ ns]
      simp only [placeAll, here, Node.walkAll]
termination_by structural _ ns => ns
end

/-- The fault of a pass is the first halt of its visits. -/
theorem place_fault (p : Profile) (n : Node) (d : Rect) :
    (place p n d).fault = (visits p n d).findSome? (Visit.halt p) := by
  rw [← sweep_fault, sweep_visits]

/-- A pass without a fault meets no node whose own pass has one. -/
theorem place_fault_of_mem {p : Profile} {n : Node} {d : Rect}
    (h : ∀ v ∈ visits p n d, v.halt p = none) {v : Visit} (hv : v ∈ visits p n d) :
    (place p v.node v.area).fault = none := by
  rw [place_fault, List.findSome?_eq_none_iff]
  exact fun w hw => h w (mem_visits_trans p n d v hv w hw)

/-- A pass without a fault leaves every node as the pass over that node alone does. -/
theorem walk_of_place {p : Profile} {n : Node} {d : Rect} (h : (place p n d).fault = none) :
    (place p n d).result.walk = (visits p n d).map (Visit.placed p) := by
  have hsweep := sweep_visits p n d
  rw [← sweep_result (by rw [hsweep]; exact h), hsweep]

/-- A pass with a fault has laid out what it visited up to the first halt, and nothing behind. -/
theorem walk_of_stopped {p : Profile} {n : Node} {d : Rect} {fault : Fault}
    (h : (place p n d).fault = some fault) :
    ∃ before v after, visits p n d = before ++ v :: after ∧ (∀ w ∈ before, w.halt p = none) ∧
      v.halt p = some fault ∧
      (place p n d).result.walk =
        before.map (Visit.placed p) ++ v.placed p :: after.map Visit.node := by
  have hsweep := sweep_visits p n d
  have hfault : (sweep p (visits p n d)).fault = some fault := by
    rw [hsweep]
    exact h
  obtain ⟨before, v, after, hvisits, hbefore, hv, hresult⟩ := sweep_stopped hfault
  rw [hsweep] at hresult
  exact ⟨before, v, after, hvisits, hbefore, hv, hresult⟩

/-! ## Geometry that was there before -/

theorem isSeparator_clear (n : Node) : n.clear.isSeparator = n.isSeparator := by
  cases n <;> simp only [Node.clear, Node.isSeparator]

theorem clearAll_eq_map : ∀ ns : List Node, Node.clearAll ns = ns.map Node.clear
  | [] => rfl
  | n :: ns => by rw [Node.clearAll, clearAll_eq_map ns, List.map_cons]

theorem slotCount_clearAll (ns : List Node) : slotCount (Node.clearAll ns) = slotCount ns := by
  simp only [slotCount, clearAll_eq_map, List.countP_map, Function.comp_def, isSeparator_clear]

theorem slot_clear (axis : Axis) (d : Rect) (length : Int) (k : Nat) (n : Node) :
    slot axis d length k n.clear = slot axis d length k n := by
  cases axis <;> cases n <;> simp only [slot, Node.clear]
  all_goals rename_i along _; cases along <;> rfl

theorem visitItems_clear (p : Profile) (d : Rect) (length : Int) (k : Nat) (ts : List Tile) :
    visitItems p d length k (ts.map Tile.clear) = (visitItems p d length k ts).map Visit.clear := by
  induction ts generalizing k with
  | nil => rfl
  | cons t ts ih => simp only [List.map_cons, visitItems, ih, Visit.clear, Node.clear]

mutual
/-- Which areas a pass visits does not depend on geometry that was there before. -/
theorem visits_clear (p : Profile) : ∀ (n : Node) (d : Rect),
    visits p n.clear d = (visits p n d).map Visit.clear
  | .stack axis nodes r, d => by
    simp only [Node.clear, visits, List.map_cons, slotCount_clearAll, visitsAll_clear p axis,
      Visit.clear]
  | .split a s b t r, d => by
    simp only [Node.clear, visits, List.map_cons, List.map_append, visits_clear p a,
      visits_clear p b, Visit.clear]
  | .list items k r, d => by
    simp only [Node.clear, visits, List.map_cons, visitItems_clear, Visit.clear]
  | .tile _, _ => rfl
  | .separator _ _, _ => rfl
  | .bare _, _ => rfl
termination_by structural n => n

theorem visitsAll_clear (p : Profile) (axis : Axis) (d : Rect) (length : Int) :
    ∀ (k : Nat) (ns : List Node),
      visitsAll p axis d length k (Node.clearAll ns) =
        (visitsAll p axis d length k ns).map Visit.clear
  | _, [] => rfl
  | k, n :: ns => by
    simp only [Node.clearAll, visitsAll, List.map_append, isSeparator_clear, slot_clear,
      visits_clear p n, visitsAll_clear p axis d length _ ns]
termination_by structural _ ns => ns
end

end Pass

theorem Visit.offence_clear (p : Profile) (v : Visit) : v.clear.offence p = v.offence p := by
  obtain ⟨n, d⟩ := v
  cases n with
  | stack axis nodes r =>
    simp only [Visit.clear, Node.clear, Visit.offence, Pass.clearAll_eq_map, List.all_map,
      Function.comp_def, Pass.isSeparator_clear]
  | _ => rfl

theorem Visit.halt_clear (p : Profile) (v : Visit) : v.clear.halt p = v.halt p := by
  have hoffence := v.offence_clear p
  obtain ⟨n, d⟩ := v
  cases n <;> simp only [Visit.clear, Node.clear, Visit.halt] at hoffence ⊢ <;> rw [hoffence]

end PixelLayout
