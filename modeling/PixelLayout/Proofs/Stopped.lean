import Mathlib.Data.List.TakeWhile
import PixelLayout.Proofs.Emission
import PixelLayout.Proofs.Resolved

/-!
# After a pass that stopped

A pass that stops leaves behind a tree that is laid out up to one node and bare of geometry behind
it. Whether documents are still made of that tree depends on what lies at that node and behind it:
stacks and splits have no geometry of their own, so nothing is missing where only these are left.

**The law** (`refused_or_emitted_of_pass`): a tree is refused after a pass if and only if a visit
that the pass did not complete is one to a node that takes geometry. Otherwise every document is
made of it, be it after a fault: a tree that ends in an empty stack is emitted, with all its labels
(`not_forall_refused`).
-/

namespace PixelLayout

/-- The node takes geometry of its own in a pass. Stacks and splits do not. -/
def Node.takesGeometry : Node → Bool
  | .stack .. | .split .. => false
  | _ => true

/-- Without geometry, exactly the nodes that take none are resolved. -/
theorem Node.isResolved_clear (n : Node) : n.clear.isResolved = !n.takesGeometry := by
  cases n <;> rfl

namespace Visit

variable {p : Profile} {v : Visit}

theorem takesGeometry_clear (v : Visit) :
    v.clear.node.takesGeometry = v.node.takesGeometry := by
  obtain ⟨n, d⟩ := v
  cases n <;> rfl

/-- What takes no geometry lacks none, whatever a pass makes of it. -/
theorem isResolved_placed_of_frame (h : v.node.takesGeometry = false) :
    (v.placed p).isResolved = true := by
  obtain ⟨n, d⟩ := v
  cases n <;> simp only [Node.takesGeometry, Bool.true_eq_false] at h
  case stack axis nodes r =>
    obtain ⟨_, hplace⟩ := Pass.place_stack p axis nodes r d
    rw [placed, hplace, Node.isResolved]
  case split a s b t r =>
    obtain ⟨_, _, hplace⟩ := Pass.place_split p a s b t r d
    rw [placed, hplace, Node.isResolved]

/-- A visit that does not halt leaves its node with all its geometry. -/
theorem isResolved_placed_of_goes (goes : v.halt p = none) : (v.placed p).isResolved = true := by
  obtain ⟨n, d⟩ := v
  cases n with
  | stack axis nodes r => exact isResolved_placed_of_frame rfl
  | split a s b t r => exact isResolved_placed_of_frame rfl
  | tile t =>
    rw [placed, Pass.place, Node.isResolved]
    exact Pass.isResolved_placeTile ((Pass.placeTile_fault p t d).trans goes)
  | separator axis r =>
    obtain ⟨rule, _, hresult⟩ := Pass.place_separator_of_halt goes
    rw [placed, hresult]
    rfl
  | list items k r =>
    rw [placed, Pass.place_list_of_halt goes]
    rfl
  | bare r => cases goes

/-- A visit that halts leaves a node without geometry as it was, if the node takes any. -/
theorem isResolved_placed_of_halts {fault : Fault} (halts : v.clear.halt p = some fault)
    (h : v.node.takesGeometry = true) : (v.clear.placed p).isResolved = false := by
  obtain ⟨n, d⟩ := v
  cases n with
  | stack axis nodes r => cases h
  | split a s b t r => cases h
  | tile t =>
    have hfault := (Pass.placeTile_fault p t.clear d).trans halts
    rcases Pass.placeTile_cases p t.clear d with ⟨_, _, _, hplace⟩ | ⟨_, _, hplace⟩
    · rw [hplace] at hfault
      cases hfault
    · simp only [placed, clear, Node.clear, Pass.place]
      rw [hplace]
      rfl
  | separator axis r =>
    have hfault := (Pass.placeSeparator_fault p axis none d).trans halts
    simp only [placed, clear, Node.clear, Pass.place, Pass.placeSeparator] at hfault ⊢
    split
    next rule hrule =>
      rw [hrule] at hfault
      cases hfault
    next => rfl
  | list items k r =>
    simp only [placed, clear, Node.clear, Pass.place, Pass.placeList]
    by_cases hcount : k ≤ 0
    · rw [if_pos hcount]
      rfl
    · by_cases hwidth : d.width - 2 * p.listItemMargin < 0
      · rw [if_neg hcount, if_pos hwidth]
        rfl
      · have goes : (Visit.mk (.list items k r) d).clear.halt p = none := by
          rw [halt_clear, Pass.halt_list]
          omega
        rw [goes] at halts
        cases halts
  | bare r => rfl

/-- What a visit that halts leaves unresolved is a node that takes geometry. -/
theorem isResolved_placed_clear {fault : Fault} (halts : v.halt p = some fault) :
    (v.clear.placed p).isResolved = !v.node.takesGeometry := by
  cases h : v.node.takesGeometry with
  | false => exact isResolved_placed_of_frame (v.takesGeometry_clear.trans h)
  | true => exact isResolved_placed_of_halts (v.halt_clear p ▸ halts) h

end Visit

namespace Pass

/-- The visits that a pass does not complete: the one that stops it, and all behind that one. -/
def pending (p : Profile) (root : Node) (bounds : Rect) : List Visit :=
  (visits p root bounds).dropWhile fun v => (v.halt p).isNone

theorem pending_eq_nil {p : Profile} {root : Node} {bounds : Rect}
    (h : ∀ v ∈ visits p root bounds, v.halt p = none) : pending p root bounds = [] := by
  rw [pending, List.dropWhile_eq_nil_iff]
  intro v hv
  rw [h v hv]
  rfl

theorem pending_eq_cons {p : Profile} {root : Node} {bounds : Rect} {before after : List Visit}
    {v : Visit} {fault : Fault} (h : visits p root bounds = before ++ v :: after)
    (hbefore : ∀ w ∈ before, w.halt p = none) (hv : v.halt p = some fault) :
    pending p root bounds = v :: after := by
  rw [pending, h, List.dropWhile_append_of_pos fun w hw => by rw [hbefore w hw]; rfl]
  exact List.dropWhile_cons_of_neg (by rw [hv]; exact Bool.false_ne_true)

end Pass

namespace Node

variable {root : Node} {bounds : Rect} {p : Profile}

/-- A pass without a fault leaves nothing unresolved. -/
theorem resolved_of_pass (h : (root.resolveInPlace bounds p).fault = none) :
    Pass.pending p root bounds = [] ∧
      ∀ n ∈ (root.resolveInPlace bounds p).result.walk, n.isResolved = true := by
  obtain ⟨hgoes, hwalk⟩ := walk_of_resolve (resolve_eq_ok_iff.mpr (by rw [← h]))
  refine ⟨Pass.pending_eq_nil hgoes, ?_⟩
  intro n hn
  rw [hwalk] at hn
  obtain ⟨v, hv, rfl⟩ := List.mem_map.mp hn
  exact Visit.isResolved_placed_of_goes (v.halt_clear p ▸ hgoes v hv)

theorem isResolved_of_resolve {out : Node} (h : root.resolve bounds p = .ok out) :
    ∀ n ∈ out.walk, n.isResolved = true := by
  have hpass := resolve_eq_ok_iff.mp h
  have resolved := (resolved_of_pass (by rw [hpass])).2
  rwa [hpass] at resolved

/-- After a fault, the nodes of the tree in document order are those before the fault, laid out; the
node at the fault; and those behind it, without geometry. -/
theorem walk_of_fault {fault : Fault} (h : (root.resolveInPlace bounds p).fault = some fault) :
    ∃ before v after, Pass.visits p root bounds = before ++ v :: after ∧
      (∀ w ∈ before, w.halt p = none) ∧ v.halt p = some fault ∧
      (root.resolveInPlace bounds p).result.walk =
        before.map (fun w => w.clear.placed p) ++
          v.clear.placed p :: after.map fun w => w.node.clear := by
  obtain ⟨before', v', after', hvisits, hbefore, hv, hwalk⟩ := Pass.walk_of_stopped h
  rw [Pass.visits_clear] at hvisits
  obtain ⟨before, rest, hall, rfl, hrest⟩ := List.map_eq_append_iff.mp hvisits
  obtain ⟨v, after, rfl, rfl, rfl⟩ := List.map_eq_cons_iff.mp hrest
  refine ⟨before, v, after, hall, ?_, ?_, ?_⟩
  · intro w hw
    rw [← w.halt_clear]
    exact hbefore _ (List.mem_map_of_mem hw)
  · rwa [v.halt_clear] at hv
  · rw [List.map_map, List.map_map] at hwalk
    exact hwalk

/-- What a pass leaves unresolved is what takes geometry among the visits it does not complete. -/
theorem any_unresolved_of_pass :
    ((root.resolveInPlace bounds p).result.walk.any fun n => !n.isResolved) =
      (Pass.pending p root bounds).any fun v => v.node.takesGeometry := by
  cases hfault : (root.resolveInPlace bounds p).fault with
  | none =>
    obtain ⟨hpending, hresolved⟩ := resolved_of_pass hfault
    rw [hpending, List.any_nil, List.any_eq_false]
    intro n hn
    rw [hresolved n hn]
    exact Bool.false_ne_true
  | some fault =>
    obtain ⟨before, v, after, hvisits, hbefore, hv, hwalk⟩ := walk_of_fault hfault
    have complete : (before.any fun w => !(w.clear.placed p).isResolved) = false := by
      rw [List.any_eq_false]
      intro w hw
      rw [Visit.isResolved_placed_of_goes (w.halt_clear p ▸ hbefore w hw)]
      exact Bool.false_ne_true
    rw [hwalk, Pass.pending_eq_cons hvisits hbefore hv, List.any_append, List.any_map,
      List.any_cons, List.any_map, List.any_cons, Visit.isResolved_placed_clear hv, Bool.not_not]
    simp only [Function.comp_def, complete, isResolved_clear, Bool.not_not, Bool.false_or]

/-- The fault of a pass is that of the first visit that it does not complete. -/
theorem resolveInPlace_fault_pending (root : Node) (bounds : Rect) (p : Profile) :
    (root.resolveInPlace bounds p).fault =
      (Pass.pending p root bounds).head?.bind (Visit.halt p) := by
  cases hfault : (root.resolveInPlace bounds p).fault with
  | none => rw [(resolved_of_pass hfault).1, List.head?_nil, Option.bind_none]
  | some fault =>
    obtain ⟨before, v, after, hvisits, hbefore, hv, _⟩ := walk_of_fault hfault
    rw [Pass.pending_eq_cons hvisits hbefore hv, List.head?_cons, Option.bind_some, hv]

/-- **After a pass, a tree is refused exactly where something is left to lay out**: the node at the
fault, or one behind it, takes geometry of its own. Any other tree is emitted, even after a
fault. -/
theorem refused_or_emitted_of_pass (root : Node) (bounds : Rect) (p : Profile) :
    (root.resolveInPlace bounds p).fault =
        (Pass.pending p root bounds).head?.bind (Visit.halt p) ∧
      ((root.resolveInPlace bounds p).result.Refused ↔
        ∃ v ∈ Pass.pending p root bounds, v.node.takesGeometry = true) ∧
      ((root.resolveInPlace bounds p).result.Emitted ↔
        ∀ v ∈ Pass.pending p root bounds, v.node.takesGeometry = false) := by
  refine ⟨resolveInPlace_fault_pending root bounds p, ?_, ?_⟩
  · rw [refused_iff, any_unresolved_of_pass, List.any_eq_true]
  · rw [emitted_iff, refused_iff, any_unresolved_of_pass, Bool.not_eq_true, List.any_eq_false]
    simp only [Bool.not_eq_true]

/-- A fault alone does not make a tree refused. Here the label has been laid out when the pass stops
at the stack behind it, and that stack has no geometry that would be missing. -/
theorem not_forall_refused :
    ¬ ∀ (root : Node) (bounds : Rect) (p : Profile) (fault : Fault),
      (root.resolveInPlace bounds p).fault = some fault →
        (root.resolveInPlace bounds p).result.Refused := by
  intro refused
  have missing := refused_iff.mp
    (refused (.stack .vertical [.tile (.ofContent "A"), .stack .horizontal [] none] none)
      Profile.waveshare2in9.bounds Profile.waveshare2in9 (.layout (.noSlots .horizontal))
      (by rfl))
  revert missing
  decide +kernel

end Node

end PixelLayout
