import Mathlib.Logic.Function.Basic
import PixelLayout.Proofs.Generated
import PixelLayout.Proofs.Slots
import PixelLayout.Proofs.SplitCut

/-!
# The screens of the catalogue fit every display

Tiles, lists and items stay inside the bounds of a pass, and so does the edge of each rule. What can
leave the bounds is the one pixel of a rule's thickness, where the edge is that of the bounds.

An area **starts in** the bounds if it starts before they end, even if it has no length there
(`Rect.StartsIn`). A rule lies where the next slot starts, or would start, so it stays on the
display if something starts in the bounds behind it: a later slot of its stack, or what comes behind
the stack. All slots of an area that starts in the bounds do so too; and so do both halves of a
split if the first one gets at most one half, since of a height of one pixel such a share takes
nothing.

`Node.rulesBacked` goes down a tree with the axes along which something starts behind it, and looks
whether each rule is backed in this way. It is computed from the tree alone, and the trees of the
catalogue pass (`Catalogue.regular_of_mem_screens`).

**The law** (`rules_start`): in a tree with backed rules each rule starts before the bounds end.
With what is known of tiles and edges, a screen of the catalogue that is generated at all lies on
its display, whatever size, fonts and margins that has (`Catalogue.onDisplay_of_generate`).
-/

namespace PixelLayout

open Binary64

namespace Share

/-- The share stands for a number between zero and one half. -/
def AtMostHalf (s : Share) : Prop := ∃ v ∈ s.value?, 0 ≤ v ∧ 2 * v ≤ 1

instance : DecidablePred AtMostHalf := fun s =>
  inferInstanceAs (Decidable (∃ v ∈ s.value?, 0 ≤ v ∧ 2 * v ≤ 1))

theorem AtMostHalf.isProper {s : Share} (h : s.AtMostHalf) : s.isProper = true := by
  obtain ⟨v, value, nonneg, half⟩ := h
  exact isProper_iff.mpr ⟨v, value, nonneg, by linarith⟩

/-- A share of at most one half takes at most one half of a height. -/
theorem AtMostHalf.two_mul_cut_le {s : Share} (h : s.AtMostHalf) {n : Nat} (hn : n ≤ 2 ^ 53) :
    ∃ up : Nat, s.cut n = .ok up ∧ 2 * up ≤ n := by
  obtain ⟨u, units⟩ := exists_hasUnits h.isProper
  obtain ⟨v, value, -, half⟩ := h
  obtain rfl : (u : ℚ) / unitsPerOne = v := Option.some.inj (units.value.symm.trans value)
  have one : unitsPerOne = 2 * (1 <<< 1073) := by decide +kernel
  have most : u ≤ 1 <<< 1073 := by
    rw [← mul_div_assoc, div_le_one (Nat.cast_pos.mpr unitsPerOne_pos)] at half
    have doubled : 2 * u ≤ unitsPerOne := by exact_mod_cast half
    omega
  -- the half of the height is a double, so the product is not rounded above it
  obtain ⟨r, -, hr⟩ := exists_unitsAt_of_le (s := 1073) hn (by decide)
  have rounded : unitsAt (nearestRank (n * u) 1) ≤ n * (1 <<< 1073) := by
    rw [← hr, unitsAt_le_iff]
    apply nearestRank_le Nat.one_pos
    rw [hr, Nat.mul_one]
    exact Nat.mul_le_mul_left n most
  refine ⟨_, units.cut n hn, ?_⟩
  have positive : 0 < 1 <<< 1073 := by
    rw [Nat.one_shiftLeft]
    exact Nat.two_pow_pos 1073
  apply Nat.le_of_mul_le_mul_right _ positive
  calc 2 * (unitsAt (nearestRank (n * u) 1) / unitsPerOne) * (1 <<< 1073)
      = unitsAt (nearestRank (n * u) 1) / unitsPerOne * unitsPerOne := by
        rw [one]
        ring
    _ ≤ unitsAt (nearestRank (n * u) 1) := Nat.div_mul_le_self _ _
    _ ≤ n * (1 <<< 1073) := rounded

end Share

theorem Axis.swap_swap (axis : Axis) : axis.swap.swap = axis := by
  cases axis <;> rfl

theorem Axis.eq_or_eq_swap (along axis : Axis) : along = axis ∨ along = axis.swap := by
  cases along <;> cases axis <;> decide

namespace Rect

theorem near_band (axis along : Axis) (d : Rect) (lo hi : Int) :
    (d.band axis lo hi).near along = if along = axis then d.near axis + lo else d.near along := by
  cases axis <;> cases along <;> rfl

theorem far_band (axis along : Axis) (d : Rect) (lo hi : Int) :
    (d.band axis lo hi).far along = if along = axis then d.near axis + hi else d.far along := by
  cases axis <;> cases along <;> simp [band, near, far, Pass.extent]

theorem Contains.far_le {r s : Rect} (h : r.Contains s) (axis : Axis) :
    s.far axis ≤ r.far axis := by
  cases axis
  · exact h.2.2.2
  · exact h.2.2.1

end Rect

/-- The area lies inside the bounds and starts before they end, and along the axes that have
something behind them it ends before they do. -/
structure Rect.StartsIn (bounds d : Rect) (behind : Axis → Bool) : Prop where
  nonNeg : d.NonNeg
  inside : bounds.Contains d
  near_lt : ∀ axis, d.near axis < bounds.far axis
  far_lt : ∀ axis, behind axis = true → d.far axis < bounds.far axis

namespace Rect.StartsIn

variable {bounds d : Rect} {behind : Axis → Bool}

/-- Bounds with a pixel start before they end, and have nothing behind them. -/
theorem self (hwidth : 0 < bounds.width) (hheight : 0 < bounds.height) :
    bounds.StartsIn bounds fun _ => false := by
  refine ⟨⟨Int.le_of_lt hwidth, Int.le_of_lt hheight⟩, .refl bounds, ?_, nofun⟩
  intro axis
  cases axis <;> simp only [Rect.near, Rect.far, Pass.extent] <;> omega

/-- Each slot of a stack starts before the bounds end, also if it has no length. -/
theorem slot_lt (h : bounds.StartsIn d behind) (axis : Axis) {length : Int} (hlength : 0 ≤ length)
    {k : Nat} (hk : ((k + 1 : Nat) : Int) * length ≤ Pass.extent axis d) :
    d.near axis + k * length < bounds.far axis := by
  have near := h.near_lt axis
  have far := h.inside.far_le axis
  rcases Int.lt_or_eq_of_le hlength with some | none
  · rw [Int.natCast_succ, Int.add_mul, Int.one_mul] at hk
    rw [Rect.far] at far
    omega
  · rw [← none, Int.mul_zero]
    omega

/-- No slot ends behind the stack, so along the axes behind the stack all end before the bounds. -/
theorem end_lt (h : bounds.StartsIn d behind) {axis : Axis} (last : behind axis = true)
    {reached : Int} (hreached : reached ≤ Pass.extent axis d) :
    d.near axis + reached < bounds.far axis := by
  have far := h.far_lt axis last
  rw [Rect.far] at far
  omega

/-- The slot of a stack has behind it what the stack has, and along the stack also later slots. -/
theorem slot (h : bounds.StartsIn d behind) (axis : Axis) {length : Int} (hlength : 0 ≤ length)
    {k : Nat} (hk : ((k + 1 : Nat) : Int) * length ≤ Pass.extent axis d) {more : Bool}
    (hmore : more = true →
      ((k + 1 + 1 : Nat) : Int) * length ≤ Pass.extent axis d ∨ behind axis = true) :
    bounds.StartsIn (d.band axis (k * length) ((k + 1) * length))
      (Function.update behind axis more) := by
  have start := h.slot_lt axis hlength hk
  have far (ended : more = true) : d.near axis + (k + 1) * length < bounds.far axis := by
    rw [← Int.natCast_succ]
    rcases hmore ended with later | last
    · exact h.slot_lt axis hlength later
    · exact h.end_lt last hk
  have nonneg : 0 ≤ (k : Int) * length := Int.mul_nonneg (Int.natCast_nonneg k) hlength
  rw [Int.natCast_succ] at hk
  have within := h.inside.trans (contains_band nonneg hk)
  refine ⟨Pass.slot_nonNeg axis h.nonNeg hlength k, within, ?_, ?_⟩
  · intro along
    rw [near_band]
    split
    · next same => rwa [same]
    · exact h.near_lt along
  · intro along ended
    rw [far_band]
    split
    · next same =>
      rw [same, Function.update_self] at ended
      rw [same]
      exact far ended
    · next other =>
      rw [Function.update_of_ne other] at ended
      exact h.far_lt along ended

/-- The halves of a split start before the bounds end if the first one gets at most one half of the
height, even if it gets nothing. The second one is behind the first. -/
theorem halves (h : bounds.StartsIn d behind) (exact : bounds.height ≤ 2 ^ 53) {s : Share}
    (half : s.AtMostHalf) :
    bounds.StartsIn (Pass.upperPart s d) (Function.update behind .vertical true) ∧
      bounds.StartsIn (Pass.lowerPart s d) behind := by
  obtain ⟨height, hheight⟩ := Int.eq_ofNat_of_zero_le h.nonNeg.2
  have top := h.near_lt .vertical
  have left := h.near_lt .horizontal
  have bottom := h.inside.far_le .vertical
  have lower := h.inside.2.1
  simp only [Rect.near, Rect.far, Pass.extent] at top left bottom
  obtain ⟨up, cut, most⟩ := half.two_mul_cut_le (n := height) (by omega)
  have upper : Pass.upper s d = up := by rw [Pass.upper, hheight, cut]
  obtain ⟨⟨hupper, hin⟩, hlower, hin'⟩ := Pass.split_parts h.nonNeg (s := s) (by omega)
  refine ⟨⟨hupper, h.inside.trans hin, ?_, ?_⟩, ⟨hlower, h.inside.trans hin', ?_, ?_⟩⟩
  · intro axis
    cases axis
    · exact top
    · exact left
  · intro axis ended
    cases axis
    · simp only [Rect.near, Rect.far, Pass.extent, Pass.upperPart]
      omega
    · exact h.far_lt .horizontal ended
  · intro axis
    cases axis
    · simp only [Rect.near, Rect.far, Pass.extent, Pass.lowerPart]
      omega
    · exact left
  · intro axis ended
    have far := h.far_lt axis ended
    cases axis
    · simp only [Rect.near, Rect.far, Pass.extent, Pass.lowerPart] at far ⊢
      omega
    · exact far

end Rect.StartsIn

mutual
/-- Each crosswise rule of the tree has something behind it, and no split gives its first half more
than the second one. The axes that have something behind the whole tree are known. -/
def Node.rulesBacked (behind : Axis → Bool) : Node → Bool
  | .stack axis nodes _ => rulesBackedAll axis behind nodes
  | .split a s b _ _ =>
    decide s.AtMostHalf &&
      (a.rulesBacked (Function.update behind .vertical true) && b.rulesBacked behind)
  | _ => true

/-- The same for some children of a stack. A child has later slots behind it along the stack. -/
def Node.rulesBackedAll (axis : Axis) (behind : Axis → Bool) : List Node → Bool
  | [] => true
  | n :: ns =>
    let more := decide (0 < Pass.slotCount ns) || behind axis
    (n.kind != .separator axis.swap || more) &&
      (n.rulesBacked (Function.update behind axis more) && rulesBackedAll axis behind ns)
end

namespace Pass

/-- A crosswise rule lies where its slot starts. -/
theorem near_slot_crosswise (axis : Axis) (d : Rect) (length : Int) (k : Nat) (r : Option Rect) :
    (slot axis d length k (.separator axis.swap r)).near axis = d.near axis + k * length := by
  cases axis <;> rfl

/-- A lengthwise rule lies in the middle of its stack. -/
theorem near_slot_lengthwise (axis : Axis) (d : Rect) (length : Int) (k : Nat) (r : Option Rect) :
    (slot axis d length k (.separator axis r)).near axis.swap =
      d.near axis.swap + extent axis.swap d / 2 := by
  cases axis <;> rfl

theorem middle_lt {bounds d : Rect} {behind : Axis → Bool} (h : bounds.StartsIn d behind)
    (axis : Axis) : d.near axis + extent axis d / 2 < bounds.far axis := by
  have near := h.near_lt axis
  have far := h.inside.far_le axis
  have size := extent_nonneg h.nonNeg axis
  rw [Rect.far] at far
  omega

mutual
/-- **Each rule of a tree with backed rules starts before the bounds end.** By induction on the
tree; what carries it is that every area below starts there too. -/
theorem rules_start {p : Profile} {bounds : Rect} (exact : bounds.height ≤ 2 ^ 53) :
    ∀ (n : Node) (d : Rect) (behind : Axis → Bool), bounds.StartsIn d behind →
      n.rulesBacked behind = true → ∀ v ∈ visits p n d, ∀ along r, v.node = .separator along r →
        v.area.near along.swap < bounds.far along.swap
  | .stack axis nodes r, d, behind, starts, backed, v, hv, along, r', hnode => by
    rw [visits] at hv
    rcases List.mem_cons.mp hv with rfl | hv
    · cases hnode
    · have room : ((0 + slotCount nodes : Nat) : Int) * (extent axis d / slotCount nodes) ≤
          extent axis d := by
        rw [Nat.zero_add]
        by_cases none : slotCount nodes = 0
        · rw [none, Int.natCast_zero, Int.zero_mul]
          exact extent_nonneg starts.nonNeg axis
        · exact slots_le_extent axis d none
      exact rulesAll_start exact axis d behind starts _ (slot_length_nonneg starts.nonNeg axis _) 0
        nodes room backed v hv along r' hnode
  | .split a s b t r, d, behind, starts, backed, v, hv, along, r', hnode => by
    rw [visits] at hv
    simp only [Node.rulesBacked, Bool.and_eq_true, decide_eq_true_eq] at backed
    obtain ⟨half, first, second⟩ := backed
    obtain ⟨upper, lower⟩ := starts.halves exact half
    rcases List.mem_cons.mp hv with rfl | hv
    · cases hnode
    rcases List.mem_append.mp hv with hv | hv
    · exact rules_start exact a _ _ upper first v hv along r' hnode
    · exact rules_start exact b _ _ lower second v hv along r' hnode
  | .list items k r, d, behind, _, _, v, hv, along, r', hnode => by
    rw [visits] at hv
    rcases List.mem_cons.mp hv with rfl | hv
    · cases hnode
    · obtain ⟨⟨t, ht⟩, _⟩ := mem_visitItems hv
      rw [ht] at hnode
      cases hnode
  | .tile t, d, behind, _, _, v, hv, along, r', hnode => by
    rw [visits, List.mem_singleton] at hv
    subst hv
    cases hnode
  | .separator axis r, d, behind, starts, _, v, hv, along, r', hnode => by
    rw [visits, List.mem_singleton] at hv
    subst hv
    exact starts.near_lt along.swap
  | .bare r, d, behind, _, _, v, hv, along, r', hnode => by
    rw [visits, List.mem_singleton] at hv
    subst hv
    cases hnode
termination_by structural n => n

theorem rulesAll_start {p : Profile} {bounds : Rect} (exact : bounds.height ≤ 2 ^ 53) (axis : Axis)
    (d : Rect) (behind : Axis → Bool) (starts : bounds.StartsIn d behind) (length : Int)
    (hlength : 0 ≤ length) : ∀ (k : Nat) (ns : List Node),
      ((k + slotCount ns : Nat) : Int) * length ≤ extent axis d →
      Node.rulesBackedAll axis behind ns = true →
      ∀ v ∈ visitsAll p axis d length k ns, ∀ along r, v.node = .separator along r →
        v.area.near along.swap < bounds.far along.swap
  | _, [], _, _, v, hv, _, _, _ => absurd hv List.not_mem_nil
  | k, n :: ns, room, backed, v, hv, along, r', hnode => by
    simp only [Node.rulesBackedAll, Bool.and_eq_true] at backed
    obtain ⟨own, below, backed⟩ := backed
    have reach {j : Nat} (hj : j ≤ k + slotCount (n :: ns)) : (j : Int) * length ≤ extent axis d :=
      Int.le_trans (slot_le hlength hj) room
    cases hn : n.isSeparator with
    | true =>
      obtain ⟨along', r, rfl⟩ := Node.exists_of_isSeparator hn
      rw [visitsAll_cons_separator] at hv
      rw [slotCount_cons_separator hn] at room reach
      rcases List.mem_cons.mp hv with rfl | hv
      · cases hnode
        rcases along.eq_or_eq_swap axis with rfl | rfl
        · rw [near_slot_lengthwise]
          exact middle_lt starts _
        · rw [Axis.swap_swap, near_slot_crosswise]
          have more : (decide (0 < slotCount ns) || behind axis) = true := by
            simpa only [Node.kind, bne_self_eq_false, Bool.false_or] using own
          rcases (Bool.or_eq_true _ _).mp more with later | last
          · have slots : 0 < slotCount ns := of_decide_eq_true later
            exact starts.slot_lt axis hlength (reach (by omega))
          · exact starts.end_lt last (reach (Nat.le_add_right k _))
      · exact rulesAll_start exact axis d behind starts length hlength k ns room backed v hv along
          r' hnode
    | false =>
      rw [visitsAll_cons_slot p axis d length k hn] at hv
      rw [slotCount_cons_slot hn] at room reach
      rcases List.mem_append.mp hv with hv | hv
      · refine rules_start exact n _ _ (starts.slot axis hlength (reach (by omega)) ?_) below v hv
          along r' hnode
        intro more
        rcases (Bool.or_eq_true _ _).mp more with later | last
        · have slots : 0 < slotCount ns := of_decide_eq_true later
          exact .inl (reach (by omega))
        · exact .inr last
      · refine rulesAll_start exact axis d behind starts length hlength (k + 1) ns ?_ backed v hv
          along r' hnode
        rwa [Nat.add_right_comm]
termination_by structural _ ns => ns
end

/-! ## Rectangles on the display -/

/-- A rule whose edge lies inside the bounds lies there itself if it starts before they end. -/
theorem contains_rule {axis : Axis} {margin : Int} {d s bounds : Rect}
    (h : rule axis margin d = .ok s) (hin : bounds.Contains (s.edge axis))
    (start : d.near axis.swap < bounds.far axis.swap) : bounds.Contains s := by
  obtain ⟨-, rfl⟩ := rule_eq_ok_iff.mp h
  cases axis <;>
    simp only [Rect.edge, Rect.Contains, Rect.right, Rect.bottom, Rect.near, Rect.far, extent,
      Axis.swap] at hin start ⊢ <;> omega

theorem rule_nonNeg {axis : Axis} {margin : Int} {d s : Rect} (h : rule axis margin d = .ok s) :
    s.NonNeg := by
  have size := rule_size h
  cases axis <;> simp only [extent, Axis.swap, Rect.NonNeg] at size ⊢ <;> omega

end Pass

/-- Every tile, list, item and rule of the tree has a rectangle, and every rectangle in the tree has
no negative size and lies inside the bounds. -/
structure Node.OnDisplay (bounds : Rect) (out : Node) : Prop where
  placed : ∀ n ∈ out.walk, (∀ axis, n.kind ≠ .stack axis) → n.kind ≠ .split → n.rect?.isSome = true
  inside : ∀ n ∈ out.walk, ∀ r, n.rect? = some r → r.NonNeg ∧ bounds.Contains r

/-- Stacks and splits have no rectangle after a pass. -/
theorem Visit.rect?_placed_clear {p : Profile} {v : Visit}
    (h : (∃ axis, v.node.kind = .stack axis) ∨ v.node.kind = .split) :
    (v.clear.placed p).rect? = none := by
  obtain ⟨n, d⟩ := v
  cases n with
  | stack axis nodes r =>
    obtain ⟨_, hplaced⟩ := Pass.place_stack p axis (Node.clearAll nodes) none d
    exact congrArg Node.rect? hplaced
  | split a s b t r =>
    obtain ⟨_, _, hplaced⟩ := Pass.place_split p a.clear s b.clear t none d
    exact congrArg Node.rect? hplaced
  | _ => rcases h with ⟨_, h⟩ | h <;> cases h

namespace Node

variable {root out : Node} {bounds : Rect} {p : Profile}

/-- Each node of a resolved tree is what a visit that goes on makes of a node of its kind. -/
theorem exists_visit_of_mem_walk (h : root.resolve bounds p = .ok out) {n : Node}
    (hn : n ∈ out.walk) :
    ∃ v ∈ Pass.visits p root bounds, v.halt p = none ∧ n = v.clear.placed p ∧
      n.kind = v.node.kind := by
  obtain ⟨goes, hwalk⟩ := walk_of_resolve h
  rw [hwalk] at hn
  obtain ⟨v, hv, rfl⟩ := List.mem_map.mp hn
  exact ⟨v, hv, goes v hv, rfl, by rw [Visit.kind_placed, Visit.kind_clear]⟩

/-- A stack or a split has no rectangle after a pass, and any other node the area of its visit or,
if it is a separator, the rule there. -/
theorem rect?_of_mem_walk (h : root.resolve bounds p = .ok out) {n : Node} (hn : n ∈ out.walk) :
    ((∃ axis, n.kind = .stack axis) ∨ n.kind = .split) ∧ n.rect? = none ∨
      ∃ v ∈ Pass.visits p root bounds, ∃ r, n.rect? = some r ∧
        (v.node.isSeparator = false ∧ r = v.area ∨
          ∃ axis q, v.node = .separator axis q ∧
            Pass.rule axis (p.separatorMargin axis) v.area = .ok r) := by
  cases n with
  | tile t =>
    have ht : t ∈ out.tiles := List.mem_filterMap.mpr ⟨_, hn, rfl⟩
    obtain ⟨v, hv, htile, hrect, -⟩ := mem_tiles_of_resolve h ht
    exact .inr ⟨v, hv, v.area, hrect, .inl ⟨htile.not_separator, rfl⟩⟩
  | separator axis q =>
    have hr : (axis, q) ∈ out.rules := List.mem_filterMap.mpr ⟨_, hn, rfl⟩
    obtain ⟨v, hv, q', r, hnode, rfl, hrule⟩ := mem_rules_of_resolve h hr
    exact .inr ⟨v, hv, r, rfl, .inr ⟨axis, q', hnode, hrule⟩⟩
  | list items k q =>
    obtain ⟨v, hv, items', q', hnode, rfl, -⟩ := mem_walk_list_of_resolve h hn
    exact .inr ⟨v, hv, v.area, rfl, .inl ⟨by rw [hnode]; rfl, rfl⟩⟩
  | stack axis nodes q =>
    obtain ⟨v, -, -, hplaced, hkind⟩ := exists_visit_of_mem_walk h hn
    refine .inl ⟨.inl ⟨axis, rfl⟩, ?_⟩
    rw [hplaced]
    exact Visit.rect?_placed_clear (.inl ⟨axis, hkind.symm⟩)
  | split a s b t q =>
    obtain ⟨v, -, -, hplaced, hkind⟩ := exists_visit_of_mem_walk h hn
    refine .inl ⟨.inr rfl, ?_⟩
    rw [hplaced]
    exact Visit.rect?_placed_clear (.inr hkind.symm)
  | bare q =>
    obtain ⟨⟨m, d⟩, -, goes, -, hkind⟩ := exists_visit_of_mem_walk h hn
    cases m <;> cases hkind
    cases goes

/-- **All of a tree with backed rules lies on the display**, if its splits cut inside their height,
its lists show all their items, and each lengthwise rule has a slot to lie in. -/
theorem onDisplay_of_resolve (hwidth : 0 < bounds.width) (hheight : 0 < bounds.height)
    (exact : bounds.height ≤ 2 ^ 53) (hp : p.MarginsNonNeg)
    (cuts : ∀ v ∈ Pass.visits p root bounds, v.CutsInside)
    (fits : ∀ n ∈ root.walk, n.ItemsFit) (followed : ∀ n ∈ root.walk, n.RulesFollowed)
    (backed : root.rulesBacked (fun _ => false) = true) (h : root.resolve bounds p = .ok out) :
    out.OnDisplay bounds := by
  have nonneg : bounds.NonNeg := ⟨Int.le_of_lt hwidth, Int.le_of_lt hheight⟩
  have regular := regular_of_resolve h cuts fits
  have steady : ∀ v ∈ Pass.visits p root bounds, v.Steady p := by
    intro v hv
    exact ⟨(regular v hv).goes, (regular v hv).cut, followed v.node (Pass.visit_node_mem hv)⟩
  constructor
  · intro n hn notStack notSplit
    rcases rect?_of_mem_walk h hn with ⟨⟨axis, hkind⟩ | hkind, -⟩ | ⟨v, -, r, hrect, -⟩
    · exact absurd hkind (notStack axis)
    · exact absurd hkind notSplit
    · rw [hrect, Option.isSome_some]
  · intro n hn r hr
    rcases rect?_of_mem_walk h hn with ⟨-, none⟩ | ⟨v, hv, r', hrect, placed⟩
    · rw [none] at hr
      cases hr
    obtain rfl : r' = r := Option.some.inj (hrect.symm.trans hr)
    rcases placed with ⟨hsep, rfl⟩ | ⟨axis, q, hnode, hrule⟩
    · exact Pass.visits_within hp.2.2 root bounds nonneg regular v hv hsep
    · have edge := Pass.edges_within hp.separator root bounds nonneg steady v hv axis r'
        ⟨⟨q, hnode⟩, hrule⟩
      have start := Pass.rules_start exact root bounds _ (.self hwidth hheight) backed v hv axis q
        hnode
      exact ⟨Pass.rule_nonNeg hrule, Pass.contains_rule hrule edge start⟩

end Node

namespace Catalogue

/-- What the trees of the catalogue have in common. -/
theorem regular_of_mem_screens : ∀ s ∈ screens, s.root.rulesBacked (fun _ => false) = true ∧
    ∀ n ∈ s.root.walk, n.ItemsFit ∧ n.RulesFollowed := by
  decide +kernel

/-- **A screen of the catalogue lies on every display that it is generated on**, whatever size,
fonts and margins the display has. -/
theorem onDisplay_of_generate {s : Screen} (hs : s ∈ screens) {p : Profile} (hp : p.Valid)
    (exact : p.height ≤ 2 ^ 53) {options : DrawCode.Options} {g : Generated}
    (h : s.generate (some p) options = .ok g) : g.layout.OnDisplay p.bounds := by
  obtain ⟨backed, regular⟩ := regular_of_mem_screens s hs
  obtain ⟨sound, hresolve, -⟩ := Node.generate_eq_ok_iff.mp h
  exact Node.onDisplay_of_resolve hp.width_pos hp.height_pos exact hp.margins
    (sound.cutsInside (Int.le_of_lt hp.height_pos) exact) (fun n hn => (regular n hn).1)
    (fun n hn => (regular n hn).2) backed hresolve

/-- A display of one pixel, without margins. -/
def onePixel : Profile :=
  { Profile.waveshare2in9 with
    width := 1, height := 1, horizontalSeparatorMargin := 0, verticalSeparatorMargin := 0 }

/-- A screen with a rule that comes last in its stack fits a display of one pixel. -/
theorem onDisplay_of_generate_onePixel :
    ∃ s ∈ screens, s.root = cooperTestView ∧ ∃ g,
      s.generate (some onePixel) DrawCode.defaultOptions = .ok g ∧
        g.layout.OnDisplay onePixel.bounds := by
  obtain ⟨s, hs, hroot⟩ : ∃ s ∈ screens, s.root = cooperTestView :=
    ⟨onPaper "cooper_test_view" "Cooper test steps" cooperTestView, by simp [screens], rfl⟩
  have sound : s.root.Sound onePixel := by
    rw [hroot]
    exact Node.sound_of_isEmpty (by decide +kernel)
  obtain ⟨out, hout⟩ := Node.exists_resolve s.root onePixel.bounds onePixel (by
    rw [hroot]
    decide +kernel)
  obtain ⟨g, hg⟩ := Node.exists_generate sound hout s.name DrawCode.defaultOptions
  have paper : Profile.waveshare2in9.Valid := Profile.valid_of_mem_builtIn _ List.mem_cons_self
  have valid : onePixel.Valid := { paper with
    width_pos := by decide
    height_pos := by decide
    margins := by decide }
  exact ⟨s, hs, hroot, g, hg, onDisplay_of_generate hs valid (by decide) hg⟩

end Catalogue

end PixelLayout
