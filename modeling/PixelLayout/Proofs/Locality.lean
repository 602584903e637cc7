import PixelLayout.Catalogue
import PixelLayout.Proofs.Emission
import PixelLayout.Proofs.History

/-!
# Every part of a tree is laid out by itself

The way from the root of a tree down to one of its nodes through stacks and splits is a list of
`Descent`s. A descent is all that the layout rules look at there: the axis of a stack, how many
slots it has and which of them the way takes; or the share of a split and the half that the way
takes. Following the descents from the bounds gives the area of the node (`Descent.enter`).

**The law** (`resolve_local`): if a tree is laid out, the node at the end of the way is laid out as
the pass over that node alone does it in that area. Another tree in its place is laid out or refused
by itself too, and changes nothing outside: the texts, lists and rules inside one part of a screen
are no concern of any other part.

A separator takes no slot, so to put one in the place of another node moves the nodes behind it; both
nodes have to be no separators.
-/

namespace PixelLayout

/-- One step down a tree, with what decides the area that it leads to. -/
inductive Descent where
  /-- To the child of a stack that takes slot `slot` of `slots`, the first being slot 0. -/
  | child (axis : Axis) (slots slot : Nat)
  /-- To the first node of a split, which gets its share of the height. -/
  | upper (share : Share)
  /-- To the second node of a split, which gets what the first one leaves. -/
  | lower (share : Share)

/-- The area that a step leads to from an area. -/
def Descent.enter (d : Rect) : Descent → Rect
  | child .vertical slots k => ⟨d.x, d.y + k * (d.height / slots), d.width, d.height / slots⟩
  | child .horizontal slots k => ⟨d.x + k * (d.width / slots), d.y, d.width / slots, d.height⟩
  | upper share => Pass.upperPart share d
  | lower share => Pass.lowerPart share d

namespace Node

/-- The step to the child at a place. Only stacks and splits have one. -/
def step? (n : Node) (i : Nat) : Option Descent :=
  match n with
  | stack axis nodes _ =>
    some (.child axis (Pass.slotCount nodes) (Pass.slotCount (nodes.take i)))
  | split _ s _ _ _ => some (if i = 0 then .upper s else .lower s)
  | _ => none

/-- The steps along a path that keeps to stacks and splits. -/
def descents : List Nat → Node → Option (List Descent)
  | [], _ => some []
  | i :: path, n =>
    match n.step? i, n.children[i]? with
    | some step, some child => (descents path child).map (step :: ·)
    | _, _ => none

/-- The node at a path. -/
def at? (root : Node) (path : List Nat) : Option Node := (root.focus path).map Prod.fst

/-- The trees have the same nodes outside the position of a path, as far as geometry tells: at every
path that does not lead through the position there is a node in both or in none, with the same
label, rectangle, offset and font size. -/
def SameOutside (path : List Nat) (m n : Node) : Prop :=
  ∀ other, ¬ path <+: other → (m.at? other).map placed? = (n.at? other).map placed?

variable {root n s : Node} {i : Nat} {path : List Nat} {put : Node → Node} {steps : List Descent}

/-! ## Paths -/

theorem at?_cons (n : Node) (i : Nat) (path : List Nat) :
    n.at? (i :: path) = n.children[i]?.bind fun child => child.at? path := by
  unfold at?
  rw [focus]
  cases n.children[i]? with
  | none => rfl
  | some child =>
    rw [Option.bind_some, Option.map_map]
    rfl

theorem focus_cons (h : root.focus (i :: path) = some (n, put)) :
    ∃ child put', root.children[i]? = some child ∧ child.focus path = some (n, put') ∧
      put = fun m => root.setChild i (put' m) := by
  rw [focus] at h
  cases hchild : root.children[i]? with
  | none =>
    rw [hchild] at h
    cases h
  | some child =>
    rw [hchild] at h
    obtain ⟨⟨m, put'⟩, hfocus, heq⟩ := Option.map_eq_some_iff.mp h
    cases heq
    exact ⟨child, put', rfl, hfocus, rfl⟩

theorem descents_cons {child : Node} (hchild : root.children[i]? = some child)
    (h : root.descents (i :: path) = some steps) :
    ∃ step rest, root.step? i = some step ∧ child.descents path = some rest ∧
      steps = step :: rest := by
  rw [descents, hchild] at h
  cases hstep : root.step? i with
  | none =>
    rw [hstep] at h
    cases h
  | some step =>
    rw [hstep] at h
    obtain ⟨rest, hrest, heq⟩ := Option.map_eq_some_iff.mp h
    exact ⟨step, rest, rfl, hrest, heq.symm⟩

/-! ## Another child -/

theorem isSeparator_setChild (n : Node) (i : Nat) (c : Node) :
    (n.setChild i c).isSeparator = n.isSeparator := by
  cases n with
  | split a s b t r => rcases i with _ | _ | i <;> rfl
  | list items k r => cases c <;> rfl
  | _ => rfl

/-- A node with a child is no separator. -/
theorem isSeparator_of_children {child : Node} (h : n.children[i]? = some child) :
    n.isSeparator = false := by
  cases n with
  | separator axis r => cases h
  | _ => rfl

/-- Neither a tree nor the tree with another node in it is a separator, if the nodes are none. -/
theorem isSeparator_of_focus (h : root.focus path = some (n, put)) (hn : n.isSeparator = false)
    (hs : s.isSeparator = false) : root.isSeparator = false ∧ (put s).isSeparator = false := by
  cases path with
  | nil =>
    cases h
    exact ⟨hn, hs⟩
  | cons i path =>
    obtain ⟨child, put', hchild, _, rfl⟩ := focus_cons h
    have stands := isSeparator_of_children hchild
    exact ⟨stands, (isSeparator_setChild root i _).trans stands⟩

/-- The geometry of a node does not tell what its children are. -/
theorem placed?_setChild (n : Node) (i : Nat) (c : Node) :
    (n.setChild i c).placed? = n.placed? := by
  cases n with
  | split a s b t r => rcases i with _ | _ | i <;> rfl
  | list items k r =>
    cases c with
    | tile t => simp only [setChild, placed?, rect?, describe, List.length_set]
    | _ => rfl
  | _ => rfl

theorem children_setChild_ne {j : Nat} (h : j ≠ i) (n c : Node) :
    (n.setChild i c).children[j]? = n.children[j]? := by
  cases n with
  | stack axis nodes r => exact List.getElem?_set_ne (Ne.symm h)
  | split a s b t r =>
    rcases i with _ | _ | i
    · rcases j with _ | j
      · exact absurd rfl h
      · rfl
    · rcases j with _ | _ | j
      · rfl
      · exact absurd rfl h
      · rfl
    · rfl
  | list items k r =>
    cases c with
    | tile t =>
      simp only [setChild, children, List.map_set]
      exact List.getElem?_set_ne (Ne.symm h)
    | _ => rfl
  | _ => rfl

/-- A stack or a split takes any node as its child. -/
theorem children_setChild_self {step : Descent} {child : Node} (hstep : n.step? i = some step)
    (h : n.children[i]? = some child) (c : Node) : (n.setChild i c).children[i]? = some c := by
  cases n with
  | stack axis nodes r =>
    obtain ⟨hi, _⟩ := List.getElem?_eq_some_iff.mp h
    exact List.getElem?_set_self hi
  | split a s b t r =>
    rcases i with _ | _ | i
    · rfl
    · rfl
    · cases h
  | _ => cases hstep

theorem exists_append_of_getElem? {nodes : List Node} {child : Node}
    (h : nodes[i]? = some child) :
    ∃ before after, nodes = before ++ child :: after ∧ before.length = i := by
  obtain ⟨hi, rfl⟩ := List.getElem?_eq_some_iff.mp h
  refine ⟨nodes.take i, nodes.drop (i + 1), ?_, List.length_take_of_le (Nat.le_of_lt hi)⟩
  rw [← List.drop_eq_getElem_cons hi, List.take_append_drop]

/-- A child that takes a slot takes one, whatever it is. -/
theorem slotCount_child {c : Node} (stands : c.isSeparator = false) (before after : List Node) :
    Pass.slotCount (before ++ c :: after) = Pass.slotCount before + 1 + Pass.slotCount after := by
  simp only [Pass.slotCount, List.countP_append, List.countP_cons, stands, Bool.not_false,
    if_true]
  omega

theorem setChild_stack (axis : Axis) (before after : List Node) (n c : Node) (r : Option Rect) :
    (stack axis (before ++ n :: after) r).setChild before.length c =
      stack axis (before ++ c :: after) r := by
  rw [setChild, List.set_append_right _ _ (Nat.le_refl _), Nat.sub_self, List.set_cons_zero]

/-- The step to a child that takes a slot stays the same when another node takes the slot. -/
theorem step?_setChild {child c : Node} (h : n.children[i]? = some child)
    (hchild : child.isSeparator = false) (hc : c.isSeparator = false) :
    (n.setChild i c).step? i = n.step? i := by
  cases n with
  | stack axis nodes r =>
    obtain ⟨before, after, rfl, rfl⟩ := exists_append_of_getElem? h
    rw [setChild_stack]
    simp only [step?, slotCount_child hc, slotCount_child hchild, List.take_left]
  | split a s b t r => rcases i with _ | _ | i <;> rfl
  | list items k r => cases c <;> rfl
  | _ => rfl

/-! ## Another node at a path -/

/-- The same steps lead to a node and to another one in its place. -/
theorem descents_put (hsteps : root.descents path = some steps)
    (h : root.focus path = some (n, put)) (hn : n.isSeparator = false)
    (hs : s.isSeparator = false) : (put s).descents path = some steps := by
  induction path generalizing root put steps with
  | nil => exact hsteps
  | cons i path ih =>
    obtain ⟨child, put', hchild, hfocus, rfl⟩ := focus_cons h
    obtain ⟨step, rest, hstep, hrest, rfl⟩ := descents_cons hchild hsteps
    obtain ⟨old, new⟩ := isSeparator_of_focus hfocus hn hs
    rw [descents, step?_setChild hchild old new, hstep, children_setChild_self hstep hchild]
    simp only [ih hrest hfocus, Option.map_some]

/-- The other node stands where the path leads. -/
theorem at?_put (hsteps : root.descents path = some steps) (h : root.focus path = some (n, put))
    (s : Node) : (put s).at? path = some s := by
  induction path generalizing root put steps with
  | nil =>
    cases h
    rfl
  | cons i path ih =>
    obtain ⟨child, put', hchild, hfocus, rfl⟩ := focus_cons h
    obtain ⟨step, rest, hstep, hrest, rfl⟩ := descents_cons hchild hsteps
    rw [at?_cons, children_setChild_self hstep hchild, Option.bind_some, ih hrest hfocus]

/-- Nothing outside the position changes. By induction on the path: another path leaves it at a node
on the way, or leads to one. -/
theorem sameOutside_put (hsteps : root.descents path = some steps)
    (h : root.focus path = some (n, put)) (s : Node) : root.SameOutside path (put s) := by
  intro other outside
  induction path generalizing root put steps other with
  | nil => exact absurd List.nil_prefix outside
  | cons i path ih =>
    obtain ⟨child, put', hchild, hfocus, rfl⟩ := focus_cons h
    obtain ⟨step, rest, hstep, hrest, rfl⟩ := descents_cons hchild hsteps
    cases other with
    | nil => exact congrArg some (placed?_setChild root i (put' s)).symm
    | cons j other =>
      rw [at?_cons, at?_cons]
      by_cases hj : j = i
      · subst hj
        rw [hchild, children_setChild_self hstep hchild, Option.bind_some, Option.bind_some]
        apply ih hrest hfocus
        intro hprefix
        exact outside (List.cons_prefix_cons.mpr ⟨rfl, hprefix⟩)
      · rw [children_setChild_ne hj]

/-! ## Paths and geometry that was there before -/

theorem step?_clear (n : Node) (i : Nat) : n.clear.step? i = n.step? i := by
  cases n with
  | stack axis nodes r =>
    simp only [clear, step?, Pass.clearAll_eq_map, ← List.map_take]
    rw [← Pass.clearAll_eq_map, ← Pass.clearAll_eq_map, Pass.slotCount_clearAll,
      Pass.slotCount_clearAll]
  | _ => rfl

theorem descents_clear (path : List Nat) (n : Node) : n.clear.descents path = n.descents path := by
  induction path generalizing n with
  | nil => rfl
  | cons i path ih =>
    rw [descents, descents, step?_clear, children_clear, List.getElem?_map]
    cases n.step? i with
    | none => rfl
    | some step =>
      cases n.children[i]? with
      | none => rfl
      | some child => exact congrArg (Option.map (step :: ·)) (ih child)

theorem setChild_clear (n : Node) (i : Nat) (c : Node) :
    n.clear.setChild i c.clear = (n.setChild i c).clear := by
  cases n with
  | stack axis nodes r => simp only [clear, setChild, Pass.clearAll_eq_map, List.map_set]
  | split a s b t r => rcases i with _ | _ | i <;> rfl
  | list items k r =>
    cases c with
    | tile t => simp only [clear, setChild, List.map_set]
    | _ => rfl
  | _ => rfl

/-- Clearing a tree clears the node at a path and what may be put in its place. -/
theorem focus_of_clear (h : root.focus path = some (n, put)) :
    ∃ put', root.clear.focus path = some (n.clear, put') ∧
      ∀ s : Node, put' s.clear = (put s).clear := by
  induction path generalizing root put with
  | nil =>
    cases h
    exact ⟨_, rfl, fun _ => rfl⟩
  | cons i path ih =>
    obtain ⟨child, put', hchild, hfocus, rfl⟩ := focus_cons h
    obtain ⟨put'', hfocus', same⟩ := ih hfocus
    refine ⟨fun m => root.clear.setChild i (put'' m), ?_, ?_⟩
    · rw [focus, children_clear, List.getElem?_map, hchild]
      simp only [Option.map_some, hfocus']
    · intro s
      show root.clear.setChild i (put'' s.clear) = (root.setChild i (put' s)).clear
      rw [same, setChild_clear]

end Node

/-! ## One step of a pass

In the results of passes that go through, a part of the tree is one step of a chain, and all other
steps of the chain are the same for another part in its place. -/

namespace Pass

variable {p : Profile}

theorem toExcept_place_stack {nodes : List Node} (hslots : slotCount nodes ≠ 0) (axis : Axis)
    (r : Option Rect) (d : Rect) :
    (place p (.stack axis nodes r) d).toExcept = do
      let placed ← (placeAll p axis d (extent axis d / slotCount nodes) 0 nodes).toExcept
      return .stack axis placed r := by
  rw [place, if_neg hslots]
  generalize placeAll p axis d (extent axis d / slotCount nodes) 0 nodes = placed
  obtain ⟨result, fault⟩ := placed
  cases fault <;> rfl

theorem toExcept_place_split {share : Share} {d : Rect} {up : Int}
    (hcut : share.cut d.height = .ok up) (a b : Node) (t : Share) (r : Option Rect) :
    (place p (.split a share b t r) d).toExcept = do
      let first ← (place p a (upperPart share d)).toExcept
      let second ← (place p b (lowerPart share d)).toExcept
      return .split first share second t r := by
  rw [place, upperPart, lowerPart, upper, hcut]
  dsimp only
  generalize place p a ⟨d.x, d.y, d.width, up⟩ = first
  generalize place p b ⟨d.x, d.y + up, d.width, d.height - up⟩ = second
  obtain ⟨a', fault⟩ := first
  obtain ⟨b', fault'⟩ := second
  cases fault <;> cases fault' <;> rfl

theorem toExcept_placeAll_cons (axis : Axis) (d : Rect) (length : Int) (k : Nat) (n : Node)
    (ns : List Node) :
    (placeAll p axis d length k (n :: ns)).toExcept = do
      let here ← (place p n (slot axis d length k n)).toExcept
      let rest ← (placeAll p axis d length (if n.isSeparator then k else k + 1) ns).toExcept
      return here :: rest := by
  rw [placeAll]
  generalize place p n (slot axis d length k n) = here
  generalize placeAll p axis d length (if n.isSeparator then k else k + 1) ns = rest
  obtain ⟨m, fault⟩ := here
  obtain ⟨ms, fault'⟩ := rest
  cases fault <;> cases fault' <;> rfl

/-- The nodes behind others come after as many slots as the others take. -/
theorem toExcept_placeAll_append (axis : Axis) (d : Rect) (length : Int) (k : Nat)
    (ms ns : List Node) :
    (placeAll p axis d length k (ms ++ ns)).toExcept = do
      let before ← (placeAll p axis d length k ms).toExcept
      let behind ← (placeAll p axis d length (k + slotCount ms) ns).toExcept
      return before ++ behind := by
  induction ms generalizing k with
  | nil => exact (bind_pure _).symm
  | cons m ms ih =>
    have count : (if m.isSeparator then k else k + 1) + slotCount ms = k + slotCount (m :: ms) := by
      unfold slotCount
      cases h : m.isSeparator
      · rw [List.countP_cons_of_pos (by rw [h]; rfl), if_neg Bool.false_ne_true]
        omega
      · rw [List.countP_cons_of_neg (by rw [h]; exact Bool.false_ne_true), if_pos rfl]
    rw [List.cons_append, toExcept_placeAll_cons, toExcept_placeAll_cons, ih, count]
    simp only [bind_assoc, pure_bind, List.cons_append]

theorem length_placeAll {axis : Axis} {d : Rect} {length : Int} {k : Nat} {ns out : List Node}
    (h : (placeAll p axis d length k ns).toExcept = .ok out) : out.length = ns.length := by
  induction ns generalizing k out with
  | nil =>
    cases h
    rfl
  | cons n ns ih =>
    rw [toExcept_placeAll_cons] at h
    obtain ⟨here, _, h⟩ := bind_eq_ok.mp h
    obtain ⟨rest, hrest, h⟩ := bind_eq_ok.mp h
    cases h
    rw [List.length_cons, List.length_cons, ih hrest]

/-- A child that takes a slot gets the slot whole. -/
theorem slot_eq_enter {c : Node} (stands : c.isSeparator = false) (axis : Axis) (d : Rect)
    (slots k : Nat) :
    slot axis d (extent axis d / slots) k c = (Descent.child axis slots k).enter d := by
  cases c with
  | separator across r => cases stands
  | _ => cases axis <;> rfl

/-- A stack with a child that takes a slot: the others are laid out the same whatever child it
is. -/
theorem toExcept_place_stack_child {c : Node} (stands : c.isSeparator = false) (axis : Axis)
    (before after : List Node) (r : Option Rect) (d : Rect) :
    let slots := slotCount before + 1 + slotCount after
    (place p (.stack axis (before ++ c :: after) r) d).toExcept = do
      let ahead ← (placeAll p axis d (extent axis d / slots) 0 before).toExcept
      let here ← (place p c ((Descent.child axis slots (slotCount before)).enter d)).toExcept
      let behind ← (placeAll p axis d (extent axis d / slots) (slotCount before + 1) after).toExcept
      return .stack axis (ahead ++ here :: behind) r := by
  have count := Node.slotCount_child stands before after
  rw [toExcept_place_stack (by omega), toExcept_placeAll_append, toExcept_placeAll_cons,
    slot_eq_enter stands, stands, Nat.zero_add, if_neg Bool.false_ne_true, count]
  simp only [bind_assoc, pure_bind]

/-- **One step of a pass leads to one child and reads nothing else for it.** If a stack or a split
is laid out, the child at a place is laid out in the area that the step leads to. Another node in
its place makes no difference but there: the node is laid out with that one's result in the child's
place, or stops at that one's fault. -/
theorem place_child {n child out : Node} {i : Nat} {d : Rect} {step : Descent}
    (hstep : n.step? i = some step) (hchild : n.children[i]? = some child)
    (stands : child.isSeparator = false) (h : (place p n d).toExcept = .ok out) :
    ∃ m, (place p child (step.enter d)).toExcept = .ok m ∧ out.children[i]? = some m ∧
      ∀ c : Node, c.isSeparator = false → (place p (n.setChild i c) d).toExcept =
        (place p c (step.enter d)).toExcept.map (out.setChild i) := by
  cases n with
  | stack axis nodes r =>
    obtain ⟨before, after, rfl, rfl⟩ := Node.exists_append_of_getElem? hchild
    cases hstep
    rw [List.take_left, Node.slotCount_child stands]
    rw [toExcept_place_stack_child stands] at h
    obtain ⟨ahead, hahead, h⟩ := bind_eq_ok.mp h
    obtain ⟨here, hhere, h⟩ := bind_eq_ok.mp h
    obtain ⟨behind, hbehind, h⟩ := bind_eq_ok.mp h
    cases h
    have same : ahead.length = before.length := length_placeAll hahead
    refine ⟨here, hhere, ?_, ?_⟩
    · rw [Node.children, ← same, List.getElem?_append_right (Nat.le_refl _), Nat.sub_self]
      rfl
    · intro c hc
      rw [Node.setChild_stack, toExcept_place_stack_child hc, hahead, hbehind]
      cases (place p c ((Descent.child axis _ _).enter d)).toExcept with
      | error fault => rfl
      | ok m =>
        have there := Node.setChild_stack axis ahead behind here m r
        rw [same] at there
        exact congrArg Except.ok there.symm
  | split a share b t r =>
    cases hstep
    cases hcut : share.cut d.height with
    | error e =>
      rw [Pass.place, hcut] at h
      cases h
    | ok up =>
      rw [toExcept_place_split hcut] at h
      obtain ⟨first, hfirst, h⟩ := bind_eq_ok.mp h
      obtain ⟨second, hsecond, h⟩ := bind_eq_ok.mp h
      cases h
      rcases i with _ | _ | i
      · cases hchild
        refine ⟨first, hfirst, rfl, ?_⟩
        intro c _
        rw [Node.setChild, toExcept_place_split hcut, hsecond]
        rfl
      · cases hchild
        refine ⟨second, hsecond, rfl, ?_⟩
        intro c _
        rw [Node.setChild, toExcept_place_split hcut, hfirst]
        rfl
      · cases hchild
  | _ => cases hstep

/-- **A pass reaches a node along the steps that lead to it.** By induction on the path, one step at
a time: the pass over the whole tree is the pass over the node in the area that the steps lead to,
for this node and for any other in its place. -/
theorem place_at {root n out : Node} {path : List Nat} {put : Node → Node} {steps : List Descent}
    {d : Rect} (hsteps : root.descents path = some steps)
    (hfocus : root.focus path = some (n, put)) (hn : n.isSeparator = false)
    (h : (place p root d).toExcept = .ok out) :
    ∃ m put', (place p n (steps.foldl Descent.enter d)).toExcept = .ok m ∧
      out.focus path = some (m, put') ∧ ∀ s : Node, s.isSeparator = false →
        (place p (put s) d).toExcept =
          (place p s (steps.foldl Descent.enter d)).toExcept.map put' := by
  induction path generalizing root put steps d out with
  | nil =>
    cases hfocus
    cases hsteps
    refine ⟨out, fun m => m, h, rfl, ?_⟩
    intro s _
    exact (id_map _).symm
  | cons i path ih =>
    obtain ⟨child, put₁, hchild, hbelow, rfl⟩ := Node.focus_cons hfocus
    obtain ⟨step, rest, hstep, hrest, rfl⟩ := Node.descents_cons hchild hsteps
    have stands := (Node.isSeparator_of_focus hbelow hn hn).1
    obtain ⟨m₁, hm₁, hout, others⟩ := place_child hstep hchild stands h
    obtain ⟨m, put₂, hm, hfound, below⟩ := ih hrest hbelow hm₁
    refine ⟨m, fun l => out.setChild i (put₂ l), hm, ?_, ?_⟩
    · rw [Node.focus, hout]
      simp only [hfound, Option.map_some]
    · intro s hs
      have stands' := (Node.isSeparator_of_focus hbelow hn hs).2
      simp only [others _ stands', below s hs, List.foldl_cons]
      cases (place p s (rest.foldl Descent.enter (step.enter d))).toExcept <;> rfl

end Pass

namespace Node

variable {root n s out : Node} {path : List Nat} {put : Node → Node} {steps : List Descent}
  {bounds : Rect} {p : Profile}

/-- A tree that is laid out has the steps that it had before. -/
theorem descents_of_resolve (h : root.resolve bounds p = .ok out) (path : List Nat) :
    out.descents path = root.descents path := by
  have kept := sameDeclaration_iff.mp (sameDeclaration_of_resolve h)
  rw [← descents_clear, kept, descents_clear]

/-- **Layout is local.** Take a tree that is laid out, a position in it that is reached through
stacks and splits and holds a node that is no separator, and the area that the steps along the way
lead to from the bounds. The node at the position is laid out as a pass over it alone does it in
that area. With another node that is no separator in its place, the same steps lead to the position,
so to the same area. If that tree is laid out too, the other node is laid out there as a pass over
it alone does it, and all nodes outside the position have the same geometry in both trees; and it is
not laid out exactly where the other node alone is refused in that area, for the same fault. -/
theorem resolve_local (hfocus : root.focus path = some (n, put))
    (hsteps : root.descents path = some steps) (hn : n.isSeparator = false)
    (hs : s.isSeparator = false) (h : root.resolve bounds p = .ok out) :
    (∃ m, n.resolve (steps.foldl Descent.enter bounds) p = .ok m ∧ out.at? path = some m) ∧
      (put s).descents path = some steps ∧
      (∀ out', (put s).resolve bounds p = .ok out' →
        (∃ m, s.resolve (steps.foldl Descent.enter bounds) p = .ok m ∧ out'.at? path = some m) ∧
          out.SameOutside path out') ∧
      ∀ fault, (put s).resolve bounds p = .error fault ↔
        s.resolve (steps.foldl Descent.enter bounds) p = .error fault := by
  -- a pass starts from the cleared tree, where the way and the steps are the same
  obtain ⟨putClear, hclear, same⟩ := focus_of_clear hfocus
  obtain ⟨m, put', hm, hfound, others⟩ := Pass.place_at ((descents_clear path root).trans hsteps)
    hclear ((Pass.isSeparator_clear n).trans hn) h
  have swap : (put s).resolve bounds p =
      (s.resolve (steps.foldl Descent.enter bounds) p).map put' := by
    have swapped := others s.clear ((Pass.isSeparator_clear s).trans hs)
    rw [same] at swapped
    exact swapped
  have way : out.descents path = some steps := (descents_of_resolve h path).trans hsteps
  refine ⟨⟨m, hm, by rw [at?, hfound, Option.map_some]⟩, descents_put hsteps hfocus hn hs, ?_, ?_⟩
  · intro out' hout'
    rw [swap] at hout'
    cases hresult : s.resolve (steps.foldl Descent.enter bounds) p with
    | error fault =>
      rw [hresult] at hout'
      cases hout'
    | ok m' =>
      rw [hresult] at hout'
      cases hout'
      exact ⟨⟨m', rfl, at?_put way hfound m'⟩, sameOutside_put way hfound m'⟩
  · intro fault
    rw [swap]
    cases s.resolve (steps.foldl Descent.enter bounds) p <;>
      simp only [Except.map, reduceCtorEq, Except.error.injEq]

/-- One entry more in the menu of a screen: the menu has its area to itself. -/
theorem resolve_local_cooperTest :
    ∃ out out' m, Catalogue.cooperTest.resolve Profile.waveshare2in9.bounds Profile.waveshare2in9 =
        .ok out ∧
      (Catalogue.menu "Running" "Cooper Test" ["Do It", "View", "Log"] 19).resolve
        Profile.waveshare2in9.bounds Profile.waveshare2in9 = .ok out' ∧
      (Catalogue.menuList 19 ["Do It", "View", "Log"]).resolve ⟨148, 12, 148, 116⟩
        Profile.waveshare2in9 = .ok m ∧
      out'.at? [1, 2, 1] = some m ∧ out.SameOutside [1, 2, 1] out' := by
  obtain ⟨out, hout⟩ := exists_resolve Catalogue.cooperTest Profile.waveshare2in9.bounds
    Profile.waveshare2in9 (by decide +kernel)
  obtain ⟨out', hout'⟩ := exists_resolve
    (Catalogue.menu "Running" "Cooper Test" ["Do It", "View", "Log"] 19)
    Profile.waveshare2in9.bounds Profile.waveshare2in9 (by decide +kernel)
  have area : (Catalogue.cooperTest.descents [1, 2, 1]).map
      (fun steps => steps.foldl Descent.enter Profile.waveshare2in9.bounds) =
        some ⟨148, 12, 148, 116⟩ := by
    decide +kernel
  obtain ⟨steps, hsteps, harea⟩ := Option.map_eq_some_iff.mp area
  obtain ⟨put, hfocus, hput⟩ : ∃ put, Catalogue.cooperTest.focus [1, 2, 1] =
        some (Catalogue.menuList 19 ["Do It", "View"], put) ∧
      put (Catalogue.menuList 19 ["Do It", "View", "Log"]) =
        Catalogue.menu "Running" "Cooper Test" ["Do It", "View", "Log"] 19 :=
    ⟨_, rfl, rfl⟩
  rw [← hput] at hout'
  obtain ⟨_, _, both, _⟩ := resolve_local hfocus hsteps rfl
    (s := Catalogue.menuList 19 ["Do It", "View", "Log"]) rfl hout
  obtain ⟨⟨m, hm, hplace⟩, outside⟩ := both out' hout'
  rw [harea] at hm
  rw [hput] at hout'
  exact ⟨out, out', m, hout, hout', hm, hplace, outside⟩

end Node

end PixelLayout
