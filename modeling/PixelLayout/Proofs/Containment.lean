import PixelLayout.Catalogue
import PixelLayout.Proofs.Declared
import PixelLayout.Proofs.Region

/-!
# Every area lies where it belongs

A pass cuts an area into smaller ones in four ways: into the slots of a stack, into the two parts of
a split, into the items of a list, and not at all. Each of them keeps what it cuts off inside the
area it cuts from, as long as splits cut at a height that their area has and lists hold no more
items than they show (`Visit.Regular`). So all areas of a tree lie inside its bounds
(`visits_within`), and tiles, which are at the ends of the cuts, lie apart from each other
(`visits_apart`).

Separators are left out of the first: one that comes last in its stack lies at the far edge of the
last slot.
-/

namespace PixelLayout

/-- A split cuts its height somewhere between nothing and all of it. -/
def Visit.CutsInside (v : Visit) : Prop :=
  match v.node with
  | .split _ s _ _ _ =>
    ∃ up ∈ (s.cut v.area.height).toOption, 0 ≤ up ∧ up ≤ v.area.height
  | _ => True

instance : DecidablePred Visit.CutsInside
  | ⟨.split _ s _ _ _, d⟩ =>
    inferInstanceAs (Decidable (∃ up ∈ (s.cut d.height).toOption, 0 ≤ up ∧ up ≤ d.height))
  | ⟨.stack .., _⟩ | ⟨.tile _, _⟩ | ⟨.separator .., _⟩ | ⟨.list .., _⟩ | ⟨.bare _, _⟩ =>
    .isTrue trivial

/-- A list holds no more items than it shows. -/
def Node.ItemsFit : Node → Prop
  | .list items k _ => (items.length : Int) ≤ k
  | _ => True

instance : DecidablePred Node.ItemsFit
  | .list items k _ => inferInstanceAs (Decidable ((items.length : Int) ≤ k))
  | .stack .. | .split .. | .tile _ | .separator .. | .bare _ => .isTrue trivial

/-- A visit at which nothing leaves its area: it does not halt the pass, a split cuts inside its
height, and the items of a list fit. -/
structure Visit.Regular (p : Profile) (v : Visit) : Prop where
  goes : v.halt p = none
  cut : ∀ {a s b t r}, v.node = .split a s b t r →
    0 ≤ Pass.upper s v.area ∧ Pass.upper s v.area ≤ v.area.height
  fits : ∀ {items k r}, v.node = .list items k r → (items.length : Int) ≤ k

theorem Visit.CutsInside.upper {v : Visit} (h : v.CutsInside) {a b : Node} {s t : Share}
    {r : Option Rect} (hnode : v.node = .split a s b t r) :
    0 ≤ Pass.upper s v.area ∧ Pass.upper s v.area ≤ v.area.height := by
  unfold CutsInside at h
  rw [hnode] at h
  obtain ⟨up, hup, hcut⟩ := h
  unfold Pass.upper
  cases hshare : s.cut v.area.height with
  | ok up' =>
    rw [hshare, Except.toOption, Option.mem_some] at hup
    rwa [← hup] at hcut
  | error e =>
    rw [hshare, Except.toOption] at hup
    cases hup

theorem Visit.Regular.of_checks {p : Profile} {v : Visit} (goes : v.halt p = none)
    (cuts : v.CutsInside) (fits : v.node.ItemsFit) : v.Regular p := by
  refine ⟨goes, cuts.upper, ?_⟩
  intro items k r hnode
  rw [hnode] at fits
  exact fits

theorem Node.exists_of_isSeparator {n : Node} (h : n.isSeparator = true) :
    ∃ axis r, n = .separator axis r := by
  cases n with
  | separator axis r => exact ⟨axis, r, rfl⟩
  | _ => cases h

namespace Pass

/-! ## Slots -/

theorem slotCount_cons_separator {n : Node} (hn : n.isSeparator = true) (ns : List Node) :
    slotCount (n :: ns) = slotCount ns := by
  rw [slotCount, List.countP_cons_of_neg (by simp only [hn, Bool.not_true, Bool.false_eq_true,
    not_false_eq_true]), slotCount]

theorem slotCount_cons_slot {n : Node} (hn : n.isSeparator = false) (ns : List Node) :
    slotCount (n :: ns) = slotCount ns + 1 := by
  rw [slotCount, List.countP_cons_of_pos (by simp only [hn, Bool.not_false]), slotCount]

/-- The slot of a child that takes one is a band of its stack's area. -/
theorem slot_eq_band (axis : Axis) (d : Rect) (length : Int) (k : Nat) {n : Node}
    (hn : n.isSeparator = false) :
    slot axis d length k n = d.band axis (k * length) ((k + 1) * length) := by
  have hlength : ((k : Int) + 1) * length - k * length = length := by
    rw [Int.add_mul, Int.one_mul]
    omega
  cases n <;> cases axis <;>
    simp only [slot, Rect.band, hlength, Node.isSeparator, reduceCtorEq] at hn ⊢

/-- A separator among the children of a stack is visited alone, and takes no slot. -/
theorem visitsAll_cons_separator (p : Profile) (axis : Axis) (d : Rect) (length : Int) (k : Nat)
    (along : Axis) (r : Option Rect) (ns : List Node) :
    visitsAll p axis d length k (.separator along r :: ns) =
      ⟨.separator along r, slot axis d length k (.separator along r)⟩ ::
        visitsAll p axis d length k ns := rfl

/-- Any other child is visited in the next slot, with all that is below it. -/
theorem visitsAll_cons_slot (p : Profile) (axis : Axis) (d : Rect) (length : Int) (k : Nat)
    {n : Node} (hn : n.isSeparator = false) (ns : List Node) :
    visitsAll p axis d length k (n :: ns) =
      visits p n (d.band axis (k * length) ((k + 1) * length)) ++
        visitsAll p axis d length (k + 1) ns := by
  rw [visitsAll, slot_eq_band axis d length k hn, hn]
  rfl

/-- Slots are in order. -/
theorem slot_le {length : Int} (hlength : 0 ≤ length) {j k : Nat} (h : j ≤ k) :
    (j : Int) * length ≤ k * length :=
  Int.mul_le_mul_of_nonneg_right (by omega) hlength

/-- A slot ends where the next one starts, or before. -/
theorem slot_end_le {length : Int} (hlength : 0 ≤ length) {j k : Nat} (h : j < k) :
    ((j : Int) + 1) * length ≤ k * length :=
  Int.mul_le_mul_of_nonneg_right (by omega) hlength

/-- All slots of a stack together are no longer than its area. -/
theorem slots_le_extent (axis : Axis) (d : Rect) {n : Nat} (hn : n ≠ 0) :
    (n : Int) * (extent axis d / n) ≤ extent axis d :=
  Int.mul_ediv_self_le (by omega)

theorem extent_nonneg {d : Rect} (hd : d.NonNeg) (axis : Axis) : 0 ≤ extent axis d := by
  cases axis
  · exact hd.2
  · exact hd.1

/-- A slot has a size. -/
theorem slot_nonNeg (axis : Axis) {d : Rect} (hd : d.NonNeg) {length : Int} (hlength : 0 ≤ length)
    (k : Nat) : (d.band axis (k * length) ((k + 1) * length)).NonNeg := by
  have hslot := Rect.band_nonNeg axis hd (slot_le hlength (Nat.le_succ k))
  rwa [Int.natCast_succ] at hslot

theorem slot_length_nonneg {d : Rect} (hd : d.NonNeg) (axis : Axis) (n : Nat) :
    0 ≤ extent axis d / n :=
  Int.ediv_nonneg (extent_nonneg hd axis) (by omega)

/-! ## Items of a list -/

/-- The area of an item lies in a band of its list, one band for each item. -/
theorem band_contains_itemArea (d : Rect) {margin : Int} (hmargin : 0 ≤ margin) (length : Int)
    (k : Nat) :
    (d.band .vertical (k * length) ((k + 1) * length)).Contains (itemArea d margin length k) := by
  rw [Int.add_mul, Int.one_mul]
  simp only [Rect.band, itemArea, Rect.Contains, Rect.right, Rect.bottom]
  omega

/-- The area of an item that its list shows lies inside the area of the list. -/
theorem contains_itemArea {d : Rect} (hd : d.NonNeg) {margin : Int} (hmargin : 0 ≤ margin)
    {count : Int} {i : Nat} (hi : (i : Int) < count) :
    d.Contains (itemArea d margin (d.height / count) i) := by
  have hlength : 0 ≤ d.height / count := Int.ediv_nonneg hd.2 (by omega)
  have hend : ((i : Int) + 1) * (d.height / count) ≤ d.height :=
    Int.le_trans (Int.mul_le_mul_of_nonneg_right (by omega) hlength)
      (Int.mul_ediv_self_le (by omega : count ≠ 0))
  exact (Rect.contains_band (Int.mul_nonneg (by omega) hlength) hend).trans
    (band_contains_itemArea d hmargin _ i)

/-- Items do not share a row. -/
theorem itemArea_apart (d : Rect) (margin : Int) {length : Int} (hlength : 0 ≤ length) {i j : Nat}
    (h : i < j) : (itemArea d margin length i).Apart (itemArea d margin length j) := by
  have rows := slot_end_le hlength h
  rw [Int.add_mul, Int.one_mul] at rows
  refine .inr (.inr (.inl ?_))
  simp only [itemArea, Rect.bottom]
  omega

/-! ## Parts of a split -/

/-- The two parts of a split lie inside its area, and none has a negative size. -/
theorem split_parts {s : Share} {d : Rect} (hd : d.NonNeg)
    (hcut : 0 ≤ upper s d ∧ upper s d ≤ d.height) :
    ((upperPart s d).NonNeg ∧ d.Contains (upperPart s d)) ∧
      (lowerPart s d).NonNeg ∧ d.Contains (lowerPart s d) := by
  obtain ⟨hwidth, _⟩ := hd
  simp only [Rect.NonNeg, Rect.Contains, upperPart, lowerPart, Rect.right, Rect.bottom]
  omega

/-- The second part of a split starts where the first one ends. -/
theorem parts_apart (s : Share) (d : Rect) : (upperPart s d).Apart (lowerPart s d) :=
  .inr (.inr (.inl (Int.le_refl _)))

/-! ## Inside the bounds -/

mutual
/-- **All areas of a tree lie inside its bounds**, and none has a negative size. By induction on the
tree; what carries it over a stack is the band of each child. -/
theorem visits_within {p : Profile} (hmargin : 0 ≤ p.listItemMargin) : ∀ (n : Node) (d : Rect),
    d.NonNeg → (∀ v ∈ visits p n d, v.Regular p) →
      ∀ v ∈ visits p n d, v.node.isSeparator = false → v.area.NonNeg ∧ d.Contains v.area
  | .stack axis nodes r, d, hd, regular, v, hv, hsep => by
    rw [visits] at regular hv
    obtain ⟨own, below⟩ := List.forall_mem_cons.mp regular
    have hslots : slotCount nodes ≠ 0 := halt_stack.mp own.goes
    have hlength := slot_length_nonneg hd axis (slotCount nodes)
    rcases List.mem_cons.mp hv with rfl | hv
    · exact ⟨hd, .refl d⟩
    · obtain ⟨hsize, j, _, hj, hband⟩ :=
        visitsAll_band hmargin axis d _ hd hlength 0 nodes below v hv hsep
      rw [Nat.zero_add] at hj
      refine ⟨hsize, (Rect.contains_band ?_ ?_).trans hband⟩
      · exact Int.mul_nonneg (by omega) hlength
      · exact Int.le_trans (slot_end_le hlength hj) (slots_le_extent axis d hslots)
  | .split a s b t r, d, hd, regular, v, hv, hsep => by
    rw [visits] at regular hv
    obtain ⟨own, below⟩ := List.forall_mem_cons.mp regular
    obtain ⟨hfirst, hsecond⟩ := List.forall_mem_append.mp below
    obtain ⟨⟨hupper, hin⟩, hlower, hin'⟩ := split_parts hd (own.cut rfl)
    rcases List.mem_cons.mp hv with rfl | hv
    · exact ⟨hd, .refl d⟩
    rcases List.mem_append.mp hv with hv | hv
    · obtain ⟨hsize, hv⟩ := visits_within hmargin a _ hupper hfirst v hv hsep
      exact ⟨hsize, hin.trans hv⟩
    · obtain ⟨hsize, hv⟩ := visits_within hmargin b _ hlower hsecond v hv hsep
      exact ⟨hsize, hin'.trans hv⟩
  | .list items k r, d, hd, regular, v, hv, _ => by
    rw [visits] at regular hv
    have own := regular _ List.mem_cons_self
    obtain ⟨_, hwidth⟩ := halt_list.mp own.goes
    have hfits := own.fits rfl
    rcases List.mem_cons.mp hv with rfl | hv
    · exact ⟨hd, .refl d⟩
    · obtain ⟨_, i, _, hi, harea⟩ := mem_visitItems hv
      rw [harea]
      refine ⟨⟨?_, Int.ediv_nonneg hd.2 (by omega)⟩,
        contains_itemArea hd hmargin (by omega : (i : Int) < k)⟩
      simp only [itemArea]
      omega
  | .tile t, d, hd, _, v, hv, _ => by
    rw [List.mem_singleton.mp hv]
    exact ⟨hd, .refl d⟩
  | .separator axis r, d, _, _, v, hv, hsep => by
    rw [List.mem_singleton.mp hv, Node.isSeparator] at hsep
    cases hsep
  | .bare r, d, hd, _, v, hv, _ => by
    rw [List.mem_singleton.mp hv]
    exact ⟨hd, .refl d⟩
termination_by structural n => n

/-- All areas below a child of a stack lie in the band of one slot. -/
theorem visitsAll_band {p : Profile} (hmargin : 0 ≤ p.listItemMargin) (axis : Axis) (d : Rect)
    (length : Int) (hd : d.NonNeg) (hlength : 0 ≤ length) : ∀ (k : Nat) (ns : List Node),
      (∀ v ∈ visitsAll p axis d length k ns, v.Regular p) →
      ∀ v ∈ visitsAll p axis d length k ns, v.node.isSeparator = false →
        v.area.NonNeg ∧ ∃ j : Nat, k ≤ j ∧ j < k + slotCount ns ∧
          (d.band axis (j * length) ((j + 1) * length)).Contains v.area
  | _, [], _, v, hv, _ => absurd hv List.not_mem_nil
  | k, n :: ns, regular, v, hv, hsep => by
    cases hn : n.isSeparator with
    | true =>
      obtain ⟨along, r, rfl⟩ := Node.exists_of_isSeparator hn
      rw [visitsAll_cons_separator] at regular hv
      rw [slotCount_cons_separator hn]
      rcases List.mem_cons.mp hv with rfl | hv
      · cases hsep
      · exact visitsAll_band hmargin axis d length hd hlength k ns
          (List.forall_mem_cons.mp regular).2 v hv hsep
    | false =>
      rw [visitsAll_cons_slot p axis d length k hn] at regular hv
      rw [slotCount_cons_slot hn]
      obtain ⟨hhere, hrest⟩ := List.forall_mem_append.mp regular
      rcases List.mem_append.mp hv with hv | hv
      · have hslot := slot_nonNeg axis hd hlength k
        obtain ⟨hsize, hin⟩ := visits_within hmargin n _ hslot hhere v hv hsep
        exact ⟨hsize, k, Nat.le_refl k, by omega, hin⟩
      · obtain ⟨hsize, j, hlo, hhi, hin⟩ :=
          visitsAll_band hmargin axis d length hd hlength (k + 1) ns hrest v hv hsep
        exact ⟨hsize, j, by omega, by omega, hin⟩
termination_by structural _ ns => ns
end

/-! ## Tiles apart -/

theorem visitItems_apart (p : Profile) (d : Rect) {length : Int} (hlength : 0 ≤ length) (k : Nat)
    (ts : List Tile) :
    (visitItems p d length k ts).Pairwise fun v w => v.area.Apart w.area := by
  induction ts generalizing k with
  | nil => exact .nil
  | cons t ts ih =>
    rw [visitItems]
    refine .cons ?_ (ih (k + 1))
    intro w hw
    obtain ⟨_, j, hj, _, harea⟩ := mem_visitItems hw
    rw [harea]
    exact itemArea_apart d p.listItemMargin hlength hj

mutual
/-- **No two tiles of a tree overlap**, wherever in the tree they are. -/
theorem visits_apart {p : Profile} (hmargin : 0 ≤ p.listItemMargin) : ∀ (n : Node) (d : Rect),
    d.NonNeg → (∀ v ∈ visits p n d, v.Regular p) →
      (visits p n d).Pairwise fun v w => v.IsTile → w.IsTile → v.area.Apart w.area
  | .stack axis nodes r, d, hd, regular => by
    rw [visits] at regular ⊢
    refine .cons (fun w _ ⟨t, ht⟩ => by cases ht) ?_
    exact visitsAll_apart hmargin axis d _ hd (slot_length_nonneg hd axis _) 0 nodes
      (List.forall_mem_cons.mp regular).2
  | .split a s b t r, d, hd, regular => by
    rw [visits] at regular ⊢
    obtain ⟨own, below⟩ := List.forall_mem_cons.mp regular
    obtain ⟨hfirst, hsecond⟩ := List.forall_mem_append.mp below
    obtain ⟨⟨hupper, _⟩, hlower, _⟩ := split_parts hd (own.cut rfl)
    refine .cons (fun w _ ⟨t, ht⟩ => by cases ht) (List.pairwise_append.mpr
      ⟨visits_apart hmargin a _ hupper hfirst, visits_apart hmargin b _ hlower hsecond, ?_⟩)
    intro v hv w hw htile htile'
    have hv := (visits_within hmargin a _ hupper hfirst v hv htile.not_separator).2
    have hw := (visits_within hmargin b _ hlower hsecond w hw htile'.not_separator).2
    exact (parts_apart s d).mono hv hw
  | .list items k r, d, hd, regular => by
    rw [visits] at regular ⊢
    obtain ⟨hcount, _⟩ := halt_list.mp (regular _ List.mem_cons_self).goes
    have hlength : 0 ≤ d.height / k := Int.ediv_nonneg hd.2 (by omega)
    refine .cons (fun w _ ⟨t, ht⟩ => by cases ht) ?_
    exact (visitItems_apart p d hlength 0 items).imp fun h _ _ => h
  | .tile t, d, _, _ => List.pairwise_singleton _ _
  | .separator axis r, d, _, _ => List.pairwise_singleton _ _
  | .bare r, d, _, _ => List.pairwise_singleton _ _
termination_by structural n => n

theorem visitsAll_apart {p : Profile} (hmargin : 0 ≤ p.listItemMargin) (axis : Axis) (d : Rect)
    (length : Int) (hd : d.NonNeg) (hlength : 0 ≤ length) : ∀ (k : Nat) (ns : List Node),
      (∀ v ∈ visitsAll p axis d length k ns, v.Regular p) →
      (visitsAll p axis d length k ns).Pairwise fun v w =>
        v.IsTile → w.IsTile → v.area.Apart w.area
  | _, [], _ => .nil
  | k, n :: ns, regular => by
    cases hn : n.isSeparator with
    | true =>
      obtain ⟨along, r, rfl⟩ := Node.exists_of_isSeparator hn
      rw [visitsAll_cons_separator] at regular ⊢
      exact .cons (fun w _ ⟨t, ht⟩ => by cases ht)
        (visitsAll_apart hmargin axis d length hd hlength k ns (List.forall_mem_cons.mp regular).2)
    | false =>
      rw [visitsAll_cons_slot p axis d length k hn] at regular ⊢
      obtain ⟨hhere, hrest⟩ := List.forall_mem_append.mp regular
      have hslot := slot_nonNeg axis hd hlength k
      refine List.pairwise_append.mpr ⟨visits_apart hmargin n _ hslot hhere,
        visitsAll_apart hmargin axis d length hd hlength (k + 1) ns hrest, ?_⟩
      intro v hv w hw htile htile'
      have hv := (visits_within hmargin n _ hslot hhere v hv htile.not_separator).2
      obtain ⟨_, j, hj, _, hw⟩ :=
        visitsAll_band hmargin axis d length hd hlength (k + 1) ns hrest w hw htile'.not_separator
      exact (Rect.band_apart axis d (slot_end_le hlength hj)).mono hv hw
termination_by structural _ ns => ns
end

end Pass

/-- The tiles and lists of a tree have rectangles inside the bounds, and no two tiles overlap. -/
structure Node.LaidOutInside (bounds : Rect) (out : Node) : Prop where
  tiles : ∀ t ∈ out.tiles, ∃ r, t.rect = some r ∧ r.NonNeg ∧ bounds.Contains r
  lists : ∀ items k q, .list items k q ∈ out.walk → ∃ r, q = some r ∧ r.NonNeg ∧
    bounds.Contains r ∧ ∀ t ∈ items, ∃ s, t.rect = some s ∧ r.Contains s
  apart : out.tiles.Pairwise fun t u =>
    ∀ r s, t.rect = some r → u.rect = some s → ¬ r.Overlaps s

namespace Node

variable {root out : Node} {bounds : Rect} {p : Profile}

theorem regular_of_resolve (h : root.resolve bounds p = .ok out)
    (cuts : ∀ v ∈ Pass.visits p root bounds, v.CutsInside) (fits : ∀ n ∈ root.walk, n.ItemsFit) :
    ∀ v ∈ Pass.visits p root bounds, v.Regular p := by
  intro v hv
  exact .of_checks ((walk_of_resolve h).1 v hv) (cuts v hv) (fits v.node (Pass.visit_node_mem hv))

/-- **A resolved tree stays inside its bounds, and its tiles stay clear of each other**: when every
split that the pass meets cuts inside its height and no list holds more items than it shows, every
tile, list and item of a list has a rectangle without a negative size inside the bounds, every item
lies inside its list, and no two tiles or items overlap, wherever in the tree they are. These are the
tiles and lists that were declared. -/
theorem laidOutInside_of_resolve (hbounds : bounds.NonNeg) (hmargin : 0 ≤ p.listItemMargin)
    (cuts : ∀ v ∈ Pass.visits p root bounds, v.CutsInside) (fits : ∀ n ∈ root.walk, n.ItemsFit)
    (h : root.resolve bounds p = .ok out) :
    out.LaidOutInside bounds ∧ out.SameDeclaration root := by
  refine ⟨?_, sameDeclaration_of_resolve h⟩
  have regular := regular_of_resolve h cuts fits
  have within := Pass.visits_within hmargin root bounds hbounds regular
  refine ⟨?_, ?_, ?_⟩
  · intro t ht
    obtain ⟨v, hv, htile, hrect, _⟩ := mem_tiles_of_resolve h ht
    exact ⟨v.area, hrect, within v hv htile.not_separator⟩
  · intro items k q hq
    obtain ⟨v, hv, items', r, hnode, rfl, hitems⟩ := mem_walk_list_of_resolve h hq
    obtain ⟨hsize, hin⟩ := within v hv (by rw [hnode]; rfl)
    refine ⟨v.area, rfl, hsize, hin, ?_⟩
    intro t ht
    obtain ⟨i, hi⟩ := List.mem_iff_getElem?.mp ht
    obtain ⟨hlen, hrect⟩ := hitems i t hi
    have hcount := (regular v hv).fits hnode
    exact ⟨_, hrect, Pass.contains_itemArea hsize hmargin (by omega)⟩
  · rw [tiles_of_resolve h, List.pairwise_filterMap]
    refine (Pass.visits_apart hmargin root bounds hbounds regular).imp ?_
    rintro v w hapart t ht u hu r s hr hs
    obtain ⟨t', ht', rfl⟩ := Option.map_eq_some_iff.mp ht
    obtain ⟨u', hu', rfl⟩ := Option.map_eq_some_iff.mp hu
    rw [Pass.placeTile_rect, Option.some.injEq] at hr hs
    subst hr hs
    exact (hapart (Visit.isTile_of_tile? ht') (Visit.isTile_of_tile? hu')).not_overlaps

/-- A screen of the catalogue with splits, stacks, rules and a list meets all the conditions. -/
theorem laidOutInside_cooperTest :
    ∃ out,
      Catalogue.cooperTest.resolve Profile.waveshare2in9.bounds Profile.waveshare2in9 = .ok out ∧
      out.LaidOutInside Profile.waveshare2in9.bounds ∧
      out.SameDeclaration Catalogue.cooperTest := by
  obtain ⟨out, hout⟩ := exists_resolve Catalogue.cooperTest Profile.waveshare2in9.bounds
    Profile.waveshare2in9 (by decide +kernel)
  exact ⟨out, hout, laidOutInside_of_resolve (by decide) (by decide) (by decide +kernel)
    (by decide +kernel) hout⟩

end Node

end PixelLayout
