import PixelLayout.Proofs.Locality
import PixelLayout.Proofs.Refresh

/-!
# Slots in closed form

A pass walks over the children of a stack and counts the slots that it has given away. So where a
child comes to lie depends on all children before it, in whatever order separators stand between
them. The count has a closed form, the number `k` of children before that are no separators, and
with it every area does (`placeAll_child`):

* a child that is no separator gets the slot of index `k`, and is laid out there as a pass over it
  alone does it. The slots are of one length and follow each other without a gap; what the division
  leaves is less than a pixel for each slot, and stays unused at the far edge.
* a separator takes no slot. It lies in the slot of index `k`, at its near edge or, if it runs along
  the stack, in the middle of the stack. That slot may be the one behind the last.

**The law** (`inSlots_of_resolve`) says this of both kinds of stacks at once.
-/

namespace PixelLayout

namespace Rect

/-- Where a rectangle starts along an axis. -/
def near (axis : Axis) (r : Rect) : Int :=
  match axis with
  | .vertical => r.y
  | .horizontal => r.x

/-- Where a rectangle ends along an axis. -/
def far (axis : Axis) (r : Rect) : Int := r.near axis + Pass.extent axis r

end Rect

namespace Pass

/-- The area of slot `k` of a stack: its length along the stack is the whole quotient of the stack's
length by the number of slots, and across the stack it is as long as the stack. -/
def slotArea (axis : Axis) (d : Rect) (slots k : Nat) : Rect := (Descent.child axis slots k).enter d

/-- The rule of a separator of a stack that lies in a slot: at its near edge, or in the middle of
the stack; and shorter than the slot by the margin at both ends. -/
def ruleInSlot (axis along : Axis) (margin : Int) (d s : Rect) : Rect :=
  match axis, along with
  | .vertical, .horizontal => ⟨s.x + margin, s.y, s.width - 2 * margin, 1⟩
  | .vertical, .vertical => ⟨d.x + d.width / 2, s.y + margin, 1, s.height - 2 * margin⟩
  | .horizontal, .vertical => ⟨s.x, s.y + margin, 1, s.height - 2 * margin⟩
  | .horizontal, .horizontal => ⟨s.x + margin, d.y + d.height / 2, s.width - 2 * margin, 1⟩

/-- The children of a stack in an area are laid out in closed form. -/
structure InSlots (p : Profile) (axis : Axis) (d : Rect) (nodes placed : List Node) : Prop where
  length : placed.length = nodes.length
  /-- A child that takes a slot is laid out in the slot as a pass over it alone does it. -/
  child : ∀ (i : Nat) (n : Node), nodes[i]? = some n → n.isSeparator = false →
    ∃ m : Node, placed[i]? = some m ∧
      n.resolve (slotArea axis d (slotCount nodes) (slotCount (nodes.take i))) p = .ok m
  /-- A separator is a rule in the slot of the child behind it. -/
  separator : ∀ (i : Nat) (along : Axis) (r : Option Rect),
    nodes[i]? = some (Node.separator along r) →
      placed[i]? = some (Node.separator along (some (ruleInSlot axis along
        (p.separatorMargin along) d
          (slotArea axis d (slotCount nodes) (slotCount (nodes.take i))))))
  /-- The slots follow each other without a gap, from the near edge of the stack on. -/
  first : (slotArea axis d (slotCount nodes) 0).near axis = d.near axis
  abut : ∀ k, (slotArea axis d (slotCount nodes) k).far axis =
    (slotArea axis d (slotCount nodes) (k + 1)).near axis
  /-- Less than a pixel for each slot stays unused behind the last one. -/
  unused : ∀ last, last + 1 = slotCount nodes →
    0 ≤ d.far axis - (slotArea axis d (slotCount nodes) last).far axis ∧
      d.far axis - (slotArea axis d (slotCount nodes) last).far axis < slotCount nodes

/-! ## Areas of slots -/

theorem near_slotArea (axis : Axis) (d : Rect) (slots k : Nat) :
    (slotArea axis d slots k).near axis = d.near axis + k * (extent axis d / slots) := by
  cases axis <;> rfl

theorem extent_slotArea (axis : Axis) (d : Rect) (slots k : Nat) :
    extent axis (slotArea axis d slots k) = extent axis d / slots := by
  cases axis <;> rfl

theorem far_slotArea (axis : Axis) (d : Rect) (slots k : Nat) :
    (slotArea axis d slots k).far axis = d.near axis + (k + 1) * (extent axis d / slots) := by
  rw [Rect.far, near_slotArea, extent_slotArea, Int.add_mul, Int.one_mul, Int.add_assoc]

/-- What the slots leave of a stack is what the division of its length leaves. -/
theorem unused_slots {axis : Axis} {d : Rect} {slots last : Nat} (hlast : last + 1 = slots) :
    d.far axis - (slotArea axis d slots last).far axis = extent axis d % slots := by
  have division := Int.mul_ediv_add_emod (extent axis d) slots
  have length : ((last : Int) + 1) * (extent axis d / slots) = slots * (extent axis d / slots) := by
    rw [← hlast, Int.natCast_succ]
  rw [far_slotArea, Rect.far, length]
  omega

/-! ## The count of slots -/

/-- **One child of a stack in closed form**: a pass over some children lays each of them out in the
slot that comes after those that the children before it take. -/
theorem placeAll_child {p : Profile} {axis : Axis} {d : Rect} {length : Int} {k : Nat}
    {before after out : List Node} {n : Node}
    (h : (placeAll p axis d length k (before ++ n :: after)).toExcept = .ok out) :
    ∃ m, (place p n (slot axis d length (k + slotCount before) n)).toExcept = .ok m ∧
      out[before.length]? = some m := by
  rw [toExcept_placeAll_append, toExcept_placeAll_cons] at h
  obtain ⟨ahead, hahead, h⟩ := bind_eq_ok.mp h
  obtain ⟨behind, hbehind, h⟩ := bind_eq_ok.mp h
  obtain ⟨m, hm, hbehind⟩ := bind_eq_ok.mp hbehind
  obtain ⟨rest, _, hbehind⟩ := bind_eq_ok.mp hbehind
  cases hbehind
  cases h
  refine ⟨m, hm, ?_⟩
  rw [← length_placeAll hahead, List.getElem?_append_right (Nat.le_refl _), Nat.sub_self]
  rfl

/-- A separator of a stack becomes the rule of its slot. -/
theorem eq_ruleInSlot {p : Profile} {axis along : Axis} {r r' : Option Rect} {d : Rect}
    {slots k : Nat} {m : Node}
    (h : (place p (.separator along r)
      (slot axis d (extent axis d / slots) k (.separator along r'))).toExcept = .ok m) :
    m = .separator along (some (ruleInSlot axis along (p.separatorMargin along) d
      (slotArea axis d slots k))) := by
  rw [place, placeSeparator] at h
  cases hrule : rule along (p.separatorMargin along)
      (slot axis d (extent axis d / slots) k (.separator along r')) with
  | error e =>
    rw [hrule] at h
    cases h
  | ok s =>
    rw [hrule] at h
    cases h
    rw [(rule_eq_ok_iff.mp hrule).2]
    cases axis <;> cases along <;> rfl

/-- The children of a stack that is laid out are laid out in closed form. -/
theorem inSlots_of_place {p : Profile} {axis : Axis} {d : Rect} {nodes placed : List Node}
    (hslots : slotCount nodes ≠ 0) (h : (placeAll p axis d (extent axis d / slotCount nodes) 0
      (Node.clearAll nodes)).toExcept = .ok placed) : InSlots p axis d nodes placed := by
  have reached {i : Nat} {n : Node} (hn : nodes[i]? = some n) :
      ∃ m, (place p n.clear (slot axis d (extent axis d / slotCount nodes)
        (slotCount (nodes.take i)) n)).toExcept = .ok m ∧ placed[i]? = some m := by
    obtain ⟨before, after, rfl, rfl⟩ := Node.exists_append_of_getElem? hn
    rw [clearAll_eq_map, List.map_append, List.map_cons] at h
    obtain ⟨m, hm, hplaced⟩ := placeAll_child h
    rw [← clearAll_eq_map, slotCount_clearAll, slot_clear, Nat.zero_add] at hm
    rw [List.take_left]
    rw [List.length_map] at hplaced
    exact ⟨m, hm, hplaced⟩
  refine ⟨?_, ?_, ?_, ?_, ?_, ?_⟩
  · rw [length_placeAll h, clearAll_eq_map, List.length_map]
  · intro i n hn stands
    obtain ⟨m, hm, hplaced⟩ := reached hn
    rw [slot_eq_enter stands] at hm
    exact ⟨m, hplaced, hm⟩
  · intro i along r hn
    obtain ⟨m, hm, hplaced⟩ := reached hn
    rw [hplaced, eq_ruleInSlot (r := none) hm]
  · rw [near_slotArea, Int.natCast_zero, Int.zero_mul, Int.add_zero]
  · intro k
    rw [far_slotArea, near_slotArea, Int.natCast_succ]
  · intro last hlast
    rw [unused_slots hlast]
    exact ⟨Int.emod_nonneg _ (by omega), Int.emod_lt_of_pos _ (by omega)⟩

end Pass

namespace Node

/-- **Stack slots have their closed form.** Take any stack, its children in any order with any
number of separators among them, and any area and profile. If the stack is laid out, it has a slot,
and all its children are laid out in closed form. -/
theorem inSlots_of_resolve {axis : Axis} {nodes : List Node} {r : Option Rect} {d : Rect}
    {p : Profile} {out : Node} (h : (stack axis nodes r).resolve d p = .ok out) :
    0 < Pass.slotCount nodes ∧
      ∃ placed, out = stack axis placed none ∧ Pass.InSlots p axis d nodes placed := by
  have goes : (Visit.mk (.stack axis nodes r) d).halt p = none :=
    (walk_of_resolve h).1 _ List.mem_cons_self
  have slots : Pass.slotCount nodes ≠ 0 := Pass.halt_stack.mp goes
  have slots' : Pass.slotCount (clearAll nodes) ≠ 0 := by
    rwa [Pass.slotCount_clearAll]
  rw [resolve, resolveInPlace, clear, Pass.toExcept_place_stack slots',
    Pass.slotCount_clearAll] at h
  obtain ⟨placed, hplaced, h⟩ := bind_eq_ok.mp h
  cases h
  exact ⟨Nat.pos_of_ne_zero slots, placed, rfl, Pass.inSlots_of_place slots hplaced⟩

/-- Two labels among separators, the last of which lies at the far edge of the stack. -/
theorem inSlots_of_resolve_interleaved :
    ∃ placed, (stack .vertical [.separator .vertical none, label "A", .separator .horizontal none,
        label "B", .separator .horizontal none] none).resolve ⟨0, 0, 296, 128⟩
          Profile.waveshare2in9 = .ok (stack .vertical placed none) ∧
      placed[0]? = some (.separator .vertical (some ⟨148, 3, 1, 58⟩)) ∧
      placed[2]? = some (.separator .horizontal (some ⟨13, 64, 270, 1⟩)) ∧
      placed[4]? = some (.separator .horizontal (some ⟨13, 128, 270, 1⟩)) := by
  obtain ⟨out, hout⟩ := exists_resolve (stack .vertical [.separator .vertical none, label "A",
    .separator .horizontal none, label "B", .separator .horizontal none] none) ⟨0, 0, 296, 128⟩
    Profile.waveshare2in9 (by decide +kernel)
  obtain ⟨_, placed, rfl, closed⟩ := inSlots_of_resolve hout
  exact ⟨placed, hout, closed.separator 0 .vertical none rfl,
    closed.separator 2 .horizontal none rfl, closed.separator 4 .horizontal none rfl⟩

end Node

end PixelLayout
