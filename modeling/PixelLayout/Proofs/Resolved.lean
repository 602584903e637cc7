import Mathlib.Data.List.Basic
import PixelLayout.Artifact.Contents
import PixelLayout.Proofs.Visit

/-!
# What a resolved tree holds

A pass over a whole tree first clears it, and the visits do not see what was cleared. So everything
about the outcome can be said of the visits to the tree as it was given: its fault is their first
halt (`resolveInPlace_fault`), and a resolved tree has, in document order, what the pass makes of
each of them (`walk_of_resolve`): each tile its area (`tiles_of_resolve`), each separator the rule
inside its area (`mem_rules_of_resolve`), each list its area and each item of it a part of that
(`mem_walk_list_of_resolve`).
-/

namespace PixelLayout

theorem exists_ok_of_isSome {α ε : Type} {x : Except ε α} (h : x.toOption.isSome = true) :
    ∃ a, x = .ok a := by
  cases x with
  | ok a => exact ⟨a, rfl⟩
  | error e => cases h

/-- The node of a visit is a tile, perhaps an item of a list. -/
def Visit.IsTile (v : Visit) : Prop := ∃ t, v.node = .tile t

theorem Visit.IsTile.not_separator {v : Visit} (h : v.IsTile) : v.node.isSeparator = false := by
  obtain ⟨t, ht⟩ := h
  rw [ht]
  rfl

theorem Visit.isTile_of_tile? {v : Visit} {t : Tile} (h : v.node.tile? = some t) : v.IsTile := by
  obtain ⟨n, d⟩ := v
  cases n <;> simp only [Node.tile?, reduceCtorEq] at h
  exact ⟨_, rfl⟩

namespace Pass

/-- A tile keeps the area it is laid out in, whatever becomes of its text. -/
theorem placeTile_rect (p : Profile) (t : Tile) (d : Rect) :
    (t.place p d).result.rect = some d := by
  rcases placeTile_cases p t d with ⟨_, _, _, hplace⟩ | ⟨_, _, hplace⟩ <;> rw [hplace]

/-- A tile that is laid out without a fault lacks nothing. -/
theorem isResolved_placeTile {p : Profile} {t : Tile} {d : Rect} (h : (t.place p d).fault = none) :
    (t.place p d).result.isResolved = true := by
  rcases placeTile_cases p t d with ⟨_, _, _, hplace⟩ | ⟨_, _, hplace⟩
  · rw [hplace]
    rfl
  · rw [hplace] at h
    cases h

/-- Item `i` of a list that is laid out from item `k` on has the area of item `k + i`. -/
theorem placeItems_rect {p : Profile} {d : Rect} {length : Int} {k : Nat} {ts : List Tile}
    (h : (placeItems p d length k ts).fault = none) {i : Nat} {t : Tile}
    (ht : (placeItems p d length k ts).result[i]? = some t) :
    i < ts.length ∧ t.rect = some (itemArea d p.listItemMargin length (k + i)) := by
  induction ts generalizing k i with
  | nil => simp only [placeItems, List.getElem?_nil, reduceCtorEq] at ht
  | cons u us ih =>
    rw [placeItems] at h ht
    cases here : (u.place p (itemArea d p.listItemMargin length k)).fault with
    | some fault => simp only [here, reduceCtorEq] at h
    | none =>
      simp only [here] at h ht
      cases i with
      | zero =>
        rw [List.getElem?_cons_zero, Option.some.injEq] at ht
        exact ⟨Nat.zero_lt_succ _, by rw [← ht, placeTile_rect, Nat.add_zero]⟩
      | succ i =>
        rw [List.getElem?_cons_succ] at ht
        obtain ⟨hi, hrect⟩ := ih h ht
        refine ⟨Nat.succ_lt_succ hi, ?_⟩
        rw [hrect, Nat.succ_add_eq_add_succ]

/-! ## A pass keeps the kind of a node -/

theorem place_stack (p : Profile) (axis : Axis) (nodes : List Node) (r : Option Rect) (d : Rect) :
    ∃ nodes', (place p (.stack axis nodes r) d).result = .stack axis nodes' r := by
  rw [place]
  split
  · exact ⟨nodes, rfl⟩
  · exact ⟨_, rfl⟩

theorem place_split (p : Profile) (a : Node) (s : Share) (b : Node) (t : Share) (r : Option Rect)
    (d : Rect) : ∃ a' b', (place p (.split a s b t r) d).result = .split a' s b' t r := by
  rw [place]
  cases s.cut d.height with
  | error e => exact ⟨a, b, rfl⟩
  | ok up =>
    simp only
    cases (place p a ⟨d.x, d.y, d.width, up⟩).fault with
    | some fault => exact ⟨_, b, rfl⟩
    | none => exact ⟨_, _, rfl⟩

theorem place_separator (p : Profile) (axis : Axis) (r : Option Rect) (d : Rect) :
    ∃ r', (place p (.separator axis r) d).result = .separator axis r' := by
  rw [place, placeSeparator]
  split
  · exact ⟨_, rfl⟩
  · exact ⟨r, rfl⟩

theorem place_list (p : Profile) (items : List Tile) (k : Int) (r : Option Rect) (d : Rect) :
    ∃ items' r', (place p (.list items k r) d).result = .list items' k r' := by
  rw [place, placeList]
  split
  · exact ⟨items, r, rfl⟩
  · split
    · exact ⟨items, r, rfl⟩
    · exact ⟨_, some d, rfl⟩

/-! ## What becomes of leaves that are laid out -/

/-- A separator that is laid out has its rule. -/
theorem place_separator_of_halt {p : Profile} {axis : Axis} {r : Option Rect} {d : Rect}
    (h : (Visit.mk (.separator axis r) d).halt p = none) :
    ∃ rule', rule axis (p.separatorMargin axis) d = .ok rule' ∧
      (place p (.separator axis r) d).result = .separator axis (some rule') := by
  have long : ¬ extent axis d < 2 * p.separatorMargin axis := Int.not_lt.mpr (halt_separator.mp h)
  have hrule := rule_eq axis (p.separatorMargin axis) d
  rw [if_neg long] at hrule
  exact ⟨_, hrule, by rw [place, placeSeparator, hrule]⟩

/-- A list that is laid out has its area. -/
theorem place_list_of_halt {p : Profile} {items : List Tile} {k : Int} {r : Option Rect} {d : Rect}
    (h : (Visit.mk (.list items k r) d).halt p = none) :
    place p (.list items k r) d =
      ⟨.list (placeItems p d (d.height / k) 0 items).result k (some d),
        (placeItems p d (d.height / k) 0 items).fault⟩ := by
  obtain ⟨hcount, hwidth⟩ := halt_list.mp h
  have shows : ¬ k ≤ 0 := Int.not_le.mpr hcount
  have wide : ¬ d.width - 2 * p.listItemMargin < 0 := by omega
  rw [place, placeList, if_neg shows, if_neg wide]

end Pass

namespace Node

variable {n : Node}

theorem tile?_eq_none_iff : n.tile? = none ↔ n.kind ≠ .tile := by
  cases n <;> simp only [tile?, kind, ne_eq, reduceCtorEq, not_true_eq_false, not_false_eq_true]

theorem rule?_eq_none_iff : n.rule? = none ↔ ∀ axis, n.kind ≠ .separator axis := by
  cases n <;> simp only [rule?, kind, ne_eq, reduceCtorEq, not_false_eq_true, implies_true,
    NodeKind.separator.injEq, forall_eq']

theorem exists_list_of_kind (h : n.kind = .list) : ∃ items k r, n = .list items k r := by
  cases n <;> simp only [kind, reduceCtorEq] at h
  exact ⟨_, _, _, rfl⟩

end Node

namespace Visit

variable {p : Profile} {v : Visit}

theorem kind_placed (p : Profile) (v : Visit) : (v.placed p).kind = v.node.kind := by
  obtain ⟨n, d⟩ := v
  unfold placed
  cases n with
  | stack axis nodes r =>
    obtain ⟨_, h⟩ := Pass.place_stack p axis nodes r d
    rw [h, Node.kind, Node.kind]
  | split a s b t r =>
    obtain ⟨_, _, h⟩ := Pass.place_split p a s b t r d
    rw [h, Node.kind, Node.kind]
  | tile t => rw [Pass.place, Node.kind, Node.kind]
  | separator axis r =>
    obtain ⟨_, h⟩ := Pass.place_separator p axis r d
    rw [h, Node.kind, Node.kind]
  | list items k r =>
    obtain ⟨_, _, h⟩ := Pass.place_list p items k r d
    rw [h, Node.kind, Node.kind]
  | bare r => rw [Pass.place]

theorem kind_clear (v : Visit) : v.clear.node.kind = v.node.kind := by
  obtain ⟨n, d⟩ := v
  cases n <;> simp only [clear, Node.clear, Node.kind]

/-- A pass makes a tile of each tile, and of nothing else. -/
theorem tile?_placed (p : Profile) (v : Visit) :
    (v.placed p).tile? = v.node.tile?.map fun t => (t.place p v.area).result := by
  obtain ⟨n, d⟩ := v
  by_cases h : n.kind = .tile
  · cases n <;> simp only [Node.kind, reduceCtorEq] at h
    simp only [placed, Pass.place, Node.tile?, Option.map_some]
  · rw [Node.tile?_eq_none_iff.mpr h, Option.map_none, Node.tile?_eq_none_iff, kind_placed]
    exact h

/-- A pass that goes on makes a rule of each separator, and of nothing else. -/
theorem rule?_placed (h : v.halt p = none) :
    (v.placed p).rule? = v.node.rule?.map fun q =>
      (q.1, (Pass.rule q.1 (p.separatorMargin q.1) v.area).toOption) := by
  obtain ⟨n, d⟩ := v
  by_cases hn : ∀ axis, n.kind ≠ .separator axis
  · rw [Node.rule?_eq_none_iff.mpr hn, Option.map_none, Node.rule?_eq_none_iff, kind_placed]
    exact hn
  · cases n <;> simp only [Node.kind, ne_eq, reduceCtorEq, not_false_eq_true, implies_true,
      not_true_eq_false] at hn
    obtain ⟨rule, hrule, hresult⟩ := Pass.place_separator_of_halt h
    rw [placed, hresult]
    simp only [Node.rule?, Option.map_some, hrule, Except.toOption]

theorem tile?_clear (v : Visit) : v.clear.node.tile? = v.node.tile?.map Tile.clear := by
  obtain ⟨n, d⟩ := v
  cases n <;> simp only [clear, Node.clear, Node.tile?, Option.map_some, Option.map_none]

theorem rule?_clear (v : Visit) :
    v.clear.node.rule? = v.node.rule?.map fun q => (q.1, none) := by
  obtain ⟨n, d⟩ := v
  cases n <;> simp only [clear, Node.clear, Node.rule?, Option.map_some, Option.map_none]

end Visit

namespace Node

variable {root out : Node} {bounds : Rect} {p : Profile}

/-! ## The outcome of a pass over a whole tree -/

theorem resolve_eq_ok_iff :
    root.resolve bounds p = .ok out ↔ root.resolveInPlace bounds p = ⟨out, none⟩ := by
  unfold resolve Progress.toExcept
  obtain ⟨result, fault⟩ := root.resolveInPlace bounds p
  cases fault <;> simp only [Except.ok.injEq, Progress.mk.injEq, and_true, reduceCtorEq, and_false]

/-- A pass fails with the fault it met, as far as the words of this can be written. -/
theorem resolve_eq_error_iff {fault : Fault} :
    root.resolve bounds p = .error fault ↔
      (root.resolveInPlace bounds p).fault.map Fault.raised = some fault := by
  unfold resolve Progress.toExcept
  cases (root.resolveInPlace bounds p).fault <;>
    simp only [Option.map_none, Option.map_some, reduceCtorEq, Except.error.injEq,
      Option.some.injEq]

theorem resolve_of_fault {fault : Fault}
    (stopped : (root.resolveInPlace bounds p).fault = some fault) :
    root.resolve bounds p = .error fault.raised := by
  rw [resolve_eq_error_iff, stopped, Option.map_some]

theorem exists_resolve_iff :
    (∃ out, root.resolve bounds p = .ok out) ↔ (root.resolveInPlace bounds p).fault = none := by
  constructor
  · rintro ⟨out, hout⟩
    rw [resolve_eq_ok_iff.mp hout]
  · intro h
    exact ⟨_, resolve_eq_ok_iff.mpr (by rw [← h])⟩

theorem exists_resolve (root : Node) (bounds : Rect) (p : Profile)
    (h : (root.resolve bounds p).toOption.isSome = true) :
    ∃ out, root.resolve bounds p = .ok out :=
  exists_ok_of_isSome h

/-- The fault of a pass over a tree with any earlier geometry is the first halt of its visits. -/
theorem resolveInPlace_fault (root : Node) (bounds : Rect) (p : Profile) :
    (root.resolveInPlace bounds p).fault =
      (Pass.visits p root bounds).findSome? (Visit.halt p) := by
  rw [resolveInPlace, Pass.place_fault, Pass.visits_clear, List.findSome?_map]
  congr
  exact funext (Visit.halt_clear p)

/-- A resolved tree holds what the pass makes of each visit, and no visit halted. -/
theorem walk_of_resolve (h : root.resolve bounds p = .ok out) :
    (∀ v ∈ Pass.visits p root bounds, v.halt p = none) ∧
      out.walk = (Pass.visits p root bounds).map fun v => v.clear.placed p := by
  have hpass := resolve_eq_ok_iff.mp h
  have hfault : (root.resolveInPlace bounds p).fault = none := by rw [hpass]
  refine ⟨?_, ?_⟩
  · rwa [resolveInPlace_fault, List.findSome?_eq_none_iff] at hfault
  · have hwalk := Pass.walk_of_place hfault
    rw [Pass.visits_clear, List.map_map] at hwalk
    rw [resolveInPlace] at hpass
    rw [hpass] at hwalk
    exact hwalk

/-- The tiles of a resolved tree, in document order. -/
theorem tiles_of_resolve (h : root.resolve bounds p = .ok out) :
    out.tiles = (Pass.visits p root bounds).filterMap fun v =>
      v.node.tile?.map fun t => (t.clear.place p v.area).result := by
  rw [tiles, (walk_of_resolve h).2, List.filterMap_map]
  congr
  funext v
  simp only [Function.comp_apply, Visit.tile?_placed, Visit.tile?_clear, Option.map_map]
  rfl

/-- Each tile of a resolved tree was laid out in the area of a visit, and that went well. -/
theorem exists_visit_of_mem_tiles (h : root.resolve bounds p = .ok out) {t : Tile}
    (ht : t ∈ out.tiles) :
    ∃ u d, (Visit.mk (.tile u) d).halt p = none ∧ t = (u.place p d).result ∧
      ∃ v ∈ Pass.visits p root bounds, v.IsTile ∧ v.area = d := by
  rw [tiles_of_resolve h] at ht
  obtain ⟨⟨n, d⟩, hv, hplaced⟩ := List.mem_filterMap.mp ht
  obtain ⟨u, hu, rfl⟩ := Option.map_eq_some_iff.mp hplaced
  have goes := (walk_of_resolve h).1 _ hv
  rw [← Visit.halt_clear] at goes
  cases n <;> simp only [tile?, reduceCtorEq, Option.some.injEq] at hu
  subst hu
  exact ⟨_, d, goes, rfl, _, hv, ⟨_, rfl⟩, rfl⟩

/-- Each tile of a resolved tree has the area of its visit, and its text has all it needs. -/
theorem mem_tiles_of_resolve (h : root.resolve bounds p = .ok out) {t : Tile} (ht : t ∈ out.tiles) :
    ∃ v ∈ Pass.visits p root bounds, v.IsTile ∧ t.rect = some v.area ∧ t.isResolved = true := by
  obtain ⟨u, _, goes, rfl, v, hv, htile, rfl⟩ := exists_visit_of_mem_tiles h ht
  exact ⟨v, hv, htile, Pass.placeTile_rect p u v.area,
    Pass.isResolved_placeTile ((Pass.placeTile_fault p u v.area).trans goes)⟩

/-- The rules of a resolved tree, in document order. -/
theorem rules_of_resolve (h : root.resolve bounds p = .ok out) :
    out.rules = (Pass.visits p root bounds).filterMap fun v =>
      v.node.rule?.map fun q =>
        (q.1, (Pass.rule q.1 (p.separatorMargin q.1) v.area).toOption) := by
  obtain ⟨hgoes, hwalk⟩ := walk_of_resolve h
  rw [rules, hwalk, List.filterMap_map]
  apply List.filterMap_congr
  intro v hv
  have goes : v.clear.halt p = none := by rw [Visit.halt_clear, hgoes v hv]
  simp only [Function.comp_apply, Visit.rule?_placed goes, Visit.rule?_clear, Option.map_map]
  rfl

/-- Each separator of a resolved tree has the rule inside the area of its visit. -/
theorem mem_rules_of_resolve (h : root.resolve bounds p = .ok out) {axis : Axis} {q : Option Rect}
    (hq : (axis, q) ∈ out.rules) :
    ∃ v ∈ Pass.visits p root bounds, ∃ r rule, v.node = .separator axis r ∧ q = some rule ∧
      Pass.rule axis (p.separatorMargin axis) v.area = .ok rule := by
  rw [rules_of_resolve h] at hq
  obtain ⟨⟨n, d⟩, hv, hrule⟩ := List.mem_filterMap.mp hq
  obtain ⟨⟨axis', r⟩, hu, hrule⟩ := Option.map_eq_some_iff.mp hrule
  cases n <;> simp only [rule?, reduceCtorEq, Option.some.injEq] at hu
  cases hu
  have goes := (walk_of_resolve h).1 _ hv
  obtain ⟨rule, hrule', _⟩ := Pass.place_separator_of_halt goes
  simp only [hrule', Except.toOption, Prod.mk.injEq] at hrule
  obtain ⟨rfl, rfl⟩ := hrule
  exact ⟨_, hv, r, rule, rfl, rfl, hrule'⟩

/-- Each list of a resolved tree has the area of its visit, and each of its items has its part of
that. -/
theorem mem_walk_list_of_resolve (h : root.resolve bounds p = .ok out) {items : List Tile} {k : Int}
    {q : Option Rect} (hq : .list items k q ∈ out.walk) :
    ∃ v ∈ Pass.visits p root bounds, ∃ items' r, v.node = .list items' k r ∧ q = some v.area ∧
      ∀ (i : Nat) (t : Tile), items[i]? = some t → i < items'.length ∧
        t.rect = some (Pass.itemArea v.area p.listItemMargin (v.area.height / k) i) := by
  obtain ⟨hgoes, hwalk⟩ := walk_of_resolve h
  rw [hwalk] at hq
  obtain ⟨⟨n, d⟩, hv, hplaced⟩ := List.mem_map.mp hq
  have hkind : n.kind = .list := by
    rw [← (Visit.mk n d).kind_clear, ← Visit.kind_placed p, hplaced, kind]
  obtain ⟨items', k', r, rfl⟩ := exists_list_of_kind hkind
  -- the list alone is laid out without a fault too, and so are its items
  have clean : (Pass.place p (.list (items'.map Tile.clear) k' none) d).fault = none := by
    have := Pass.place_fault_of_mem (p := p) (n := root.clear) (d := bounds)
      (by
        rw [Pass.visits_clear]
        intro v hv
        obtain ⟨w, hw, rfl⟩ := List.mem_map.mp hv
        rw [Visit.halt_clear, hgoes w hw])
      (by rw [Pass.visits_clear]; exact List.mem_map_of_mem hv)
    exact this
  have goes : (Visit.mk (.list (items'.map Tile.clear) k' none) d).halt p = none :=
    (Visit.halt_clear p ⟨.list items' k' r, d⟩).trans (hgoes _ hv)
  have hplace := Pass.place_list_of_halt goes
  rw [hplace] at clean
  have hresult : .list items k q =
      (Pass.place p (.list (items'.map Tile.clear) k' none) d).result := hplaced.symm
  rw [hplace, list.injEq] at hresult
  obtain ⟨rfl, rfl, rfl⟩ := hresult
  refine ⟨_, hv, items', r, rfl, rfl, ?_⟩
  intro i t ht
  obtain ⟨hi, hrect⟩ := Pass.placeItems_rect clean ht
  rw [List.length_map] at hi
  rw [Nat.zero_add] at hrect
  exact ⟨hi, hrect⟩

end Node

end PixelLayout
