import Mathlib.Data.List.InsertIdx
import PixelLayout.Node.Edit
import PixelLayout.Proofs.Declared

/-!
# Which pass counts

Between its building and its emission a tree may go through much: its author edits it, sets geometry
by hand, and makes passes over it or over a part of it, in other bounds and for other displays, some
of which stop at a fault. An `Event` is one of these at the node of a path, and `Node.after` is the
tree after a history of them.

An event is **authored** if it changes what is declared. All other events, passes among them, leave
no trace that a later pass could see: a history can be cut down to its authored events
(`sameDeclaration_after`). So the last pass alone settles the outcome
(`pass_depends_on_declaration_only`).

The proof is one square for each operation on trees: clearing first and clearing afterwards give one
result.
-/

namespace PixelLayout

/-- What may be done to a node. -/
inductive Action where
  | edit (change : Edit)
  | pass (bounds : Rect) (p : Profile)

/-- An action at the node of a path. -/
structure Event where
  path : List Nat
  action : Action

/-- The edit changes what the author declares. The other edits set geometry by hand. -/
def Edit.isAuthored : Edit → Bool
  | .rect _ | .offset _ | .resolvedFontSize _ => false
  | _ => true

/-- The event changes what the author declares. -/
def Event.isAuthored (e : Event) : Bool :=
  match e.action with
  | .edit change => change.isAuthored
  | .pass .. => false

namespace Node

/-- The node after an action: a refused edit leaves it as it was, and a pass that stops leaves what
it has done so far. -/
def act (n : Node) : Action → Node
  | .edit change =>
    match n.edit change with
    | .ok changed => changed
    | .error _ => n
  | .pass bounds p => (n.resolveInPlace bounds p).result

/-- The tree after an event. A path that leads nowhere leaves it as it was. -/
def happen (root : Node) (e : Event) : Node :=
  match root.focus e.path with
  | some (n, back) => back (n.act e.action)
  | none => root

/-- The tree after a history of events. -/
def after (root : Node) (history : List Event) : Node := history.foldl happen root

/-! ## Edits and clearing

Each edit is refused alike on a tree and on the cleared tree, and where it is not refused both
become the same up to geometry. -/

theorem clear_setRect (r : Option Rect) (n : Node) : (n.setRect r).clear = n.clear := by
  cases n <;> rfl

theorem clear_mapText {f : TileText → TileText} (n : Node)
    (hf : ∀ t : Tile, Tile.clear { t with text := f t.text } =
      Tile.clear { t.clear with text := f t.clear.text }) :
    (n.mapText f).clear = (n.clear.mapText f).clear := by
  cases n with
  | tile t => exact congrArg tile (hf t)
  | _ => exact (clear_clear _).symm

theorem clear_withFormat (n : Node) (f : Option String) :
    (n.withFormat f).map clear = (n.clear.withFormat f).map clear := by
  cases n <;> simp only [withFormat, clear, Except.map, kind, List.map_map]
  all_goals rfl

theorem clear_withFontSize (n : Node) (given : Value) :
    (n.withFontSize given).map clear = (n.clear.withFontSize given).map clear := by
  cases hsize : fontSizeOf given <;> cases n <;>
    simp only [withFontSize, hsize, clear, Except.map, kind, bind, pure, Except.bind, Except.pure,
      List.map_map]
  all_goals rfl

theorem clear_insertChild (n : Node) (place : Nat) (child : Node) :
    (n.insertChild place child).clear = (n.clear.insertChild place child).clear := by
  cases n with
  | stack axis nodes r =>
    simp only [insertChild, clear, Pass.clearAll_eq_map, List.map_append, List.map_cons,
      List.map_take, List.map_drop, List.map_map, Function.comp_def, clear_clear]
  | list items k r =>
    cases child <;> simp only [insertChild, clear, List.map_append, List.map_cons, List.map_take,
      List.map_drop, List.map_map, Function.comp_def, Tile.clear_clear]
  | _ => exact (clear_clear _).symm

theorem clear_removeChild (n : Node) (place : Nat) :
    (n.removeChild place).clear = (n.clear.removeChild place).clear := by
  cases n with
  | stack axis nodes r =>
    simp only [removeChild, clear, Pass.clearAll_eq_map, List.eraseIdx_map, List.map_map,
      Function.comp_def, clear_clear]
  | list items k r =>
    simp only [removeChild, clear, List.eraseIdx_map, List.map_map, Function.comp_def,
      Tile.clear_clear]
  | _ => exact (clear_clear _).symm

theorem clear_edit (n : Node) (e : Edit) : (n.edit e).map clear = (n.clear.edit e).map clear := by
  cases e with
  | format f => exact clear_withFormat n f
  | fontSize given => exact clear_withFontSize n given
  | clearFontSize => exact congrArg Except.ok (clear_mapText n fun _ => rfl)
  | content c => exact congrArg Except.ok (clear_mapText n fun _ => rfl)
  | rect r =>
    refine congrArg Except.ok ?_
    rw [clear_setRect, clear_setRect, clear_clear]
  | offset o => exact congrArg Except.ok (clear_mapText n fun _ => rfl)
  | resolvedFontSize size => exact congrArg Except.ok (clear_mapText n fun _ => rfl)
  | visibleCount count =>
    cases n with
    | list items k r =>
      refine congrArg Except.ok ?_
      simp only [clear, List.map_map, Function.comp_def, Tile.clear_clear]
    | _ => exact congrArg Except.ok (clear_clear _).symm
  | shares s t =>
    cases n with
    | split a s' b t' r =>
      refine congrArg Except.ok ?_
      simp only [clear, clear_clear]
    | _ => exact congrArg Except.ok (clear_clear _).symm
  | insert place child => exact congrArg Except.ok (clear_insertChild n place child)
  | remove place => exact congrArg Except.ok (clear_removeChild n place)

/-- Setting geometry by hand changes nothing that is declared. -/
theorem clear_edit_of_not_authored {n changed : Node} {e : Edit} (h : e.isAuthored = false)
    (hchanged : n.edit e = .ok changed) : changed.clear = n.clear := by
  cases e <;> simp only [Edit.isAuthored, Bool.true_eq_false] at h <;>
    simp only [edit, Except.ok.injEq] at hchanged <;> subst hchanged
  case rect r => exact clear_setRect r n
  all_goals cases n <;> rfl

/-! ## Actions, paths and clearing -/

theorem clear_act (n : Node) (action : Action) : (n.act action).clear = (n.clear.act action).clear := by
  cases action with
  | edit change =>
    have square := clear_edit n change
    simp only [act]
    cases hn : n.edit change <;> cases hclear : n.clear.edit change <;>
      simp only [hn, hclear, Except.map, Except.ok.injEq, reduceCtorEq] at square
    · exact n.clear_clear.symm
    · exact square
  | pass bounds p =>
    have hn := sameDeclaration_iff.mp (n.sameDeclaration_resolveInPlace bounds p)
    have hclear := sameDeclaration_iff.mp (n.clear.sameDeclaration_resolveInPlace bounds p)
    exact hn.trans (hclear.trans n.clear_clear).symm

theorem children_clear (n : Node) : n.clear.children = n.children.map clear := by
  cases n with
  | stack axis nodes r => simp only [clear, children, Pass.clearAll_eq_map]
  | list items k r =>
    simp only [clear, children, List.map_map]
    rfl
  | _ => rfl

theorem clear_setChild (n : Node) (i : Nat) {m m' : Node} (h : m.clear = m'.clear) :
    (n.setChild i m).clear = (n.clear.setChild i m').clear := by
  cases n with
  | stack axis nodes r =>
    simp only [setChild, clear, Pass.clearAll_eq_map, List.map_set, List.map_map, Function.comp_def,
      clear_clear, h]
  | split a s b t r =>
    rcases i with _ | _ | i <;> simp only [setChild, clear, clear_clear, h]
  | list items k r =>
    cases m <;> cases m' <;> simp only [clear, reduceCtorEq, tile.injEq] at h <;>
      simp only [setChild, clear, List.map_set, List.map_map, Function.comp_def, Tile.clear_clear, h]
  | _ => exact (clear_clear _).symm

/-- A path leads to the same node of a tree and of the cleared tree, and what is put in its place
goes to the same place. By induction on the path. -/
theorem focus_clear (path : List Nat) (n : Node) :
    match n.focus path with
    | none => n.clear.focus path = none
    | some (m, back) => ∃ back', n.clear.focus path = some (m.clear, back') ∧
        ∀ l l' : Node, l.clear = l'.clear → (back l).clear = (back' l').clear := by
  induction path generalizing n with
  | nil => exact ⟨fun m => m, rfl, fun _ _ h => h⟩
  | cons i path ih =>
    simp only [focus, children_clear, List.getElem?_map]
    cases hchild : n.children[i]? with
    | none => simp only [Option.map_none]
    | some child =>
      simp only [Option.map_some]
      have below := ih child
      cases hfocus : child.focus path with
      | none =>
        simp only [hfocus] at below
        simp only [below, Option.map_none]
      | some found =>
        simp only [hfocus] at below
        obtain ⟨back', hback', hsame⟩ := below
        simp only [hback', Option.map_some]
        exact ⟨_, rfl, fun l l' h => clear_setChild n i (hsame l l' h)⟩

/-! ## Histories -/

/-- **What one event does to a declaration depends on the declaration alone.** -/
theorem clear_happen (root : Node) (e : Event) :
    (root.happen e).clear = (root.clear.happen e).clear := by
  have hfocus := focus_clear e.path root
  unfold happen
  cases found : root.focus e.path with
  | none =>
    simp only [found] at hfocus
    simp only [hfocus, clear_clear]
  | some focused =>
    simp only [found] at hfocus
    obtain ⟨back', hback', hsame⟩ := hfocus
    simp only [hback']
    exact hsame _ _ (clear_act _ e.action)

/-- Nothing changes if the node that is there is put in its place. -/
theorem setChild_self {n child : Node} {i : Nat} (h : n.children[i]? = some child) :
    n.setChild i child = n := by
  cases n with
  | stack axis nodes r =>
    obtain ⟨hi, rfl⟩ := List.getElem?_eq_some_iff.mp h
    exact congrArg (stack axis · r) (List.set_getElem_self hi)
  | split a s b t r =>
    rcases i with _ | _ | i
    · cases h
      rfl
    · cases h
      rfl
    · cases h
  | list items k r =>
    simp only [children, List.getElem?_map, Option.map_eq_some_iff] at h
    obtain ⟨t, ht, rfl⟩ := h
    obtain ⟨hi, rfl⟩ := List.getElem?_eq_some_iff.mp ht
    exact congrArg (list · k r) (List.set_getElem_self hi)
  | _ => rfl

theorem focus_self {path : List Nat} {root n : Node} {back : Node → Node}
    (h : root.focus path = some (n, back)) : back n = root := by
  induction path generalizing root n back with
  | nil =>
    cases h
    rfl
  | cons i path ih =>
    rw [focus] at h
    cases hchild : root.children[i]? with
    | none => simp only [hchild, reduceCtorEq] at h
    | some child =>
      simp only [hchild, Option.map_eq_some_iff] at h
      obtain ⟨⟨m, back'⟩, hfound, heq⟩ := h
      cases heq
      show root.setChild i (back' m) = root
      rw [ih hfound, setChild_self hchild]

/-- An event that is not authored leaves the declaration as it was. -/
theorem clear_happen_of_not_authored (root : Node) {e : Event} (h : e.isAuthored = false) :
    (root.happen e).clear = root.clear := by
  have hfocus := focus_clear e.path root
  unfold happen
  cases found : root.focus e.path with
  | none => rfl
  | some focused =>
    obtain ⟨n, back⟩ := focused
    simp only [found] at hfocus
    obtain ⟨back', _, hsame⟩ := hfocus
    -- the node keeps its declaration, and so does the tree around it
    have kept : (n.act e.action).clear = n.clear := by
      obtain ⟨path, action⟩ := e
      cases action with
      | edit change =>
        simp only [act]
        cases hchanged : n.edit change with
        | ok changed => exact clear_edit_of_not_authored h hchanged
        | error _ => rfl
      | pass bounds p => exact sameDeclaration_iff.mp (n.sameDeclaration_resolveInPlace bounds p)
    calc (back (n.act e.action)).clear
        = (back' n).clear := hsame _ _ kept
      _ = (back n).clear := (hsame _ _ rfl).symm
      _ = root.clear := by rw [focus_self found]

theorem clear_after {m n : Node} (h : m.clear = n.clear) (history : List Event) :
    (m.after history).clear = (n.after history).clear := by
  induction history generalizing m n with
  | nil => exact h
  | cons e history ih =>
    apply ih
    rw [clear_happen m, clear_happen n, h]

/-- **A history declares what its authored events declare.** By induction on the history. -/
theorem sameDeclaration_after (root : Node) (history : List Event) :
    (root.after history).SameDeclaration (root.after (history.filter Event.isAuthored)) := by
  rw [sameDeclaration_iff]
  induction history generalizing root with
  | nil => rfl
  | cons e history ih =>
    cases h : e.isAuthored with
    | true =>
      rw [List.filter_cons_of_pos h]
      exact ih (root.happen e)
    | false =>
      rw [List.filter_cons_of_neg (by rw [h]; exact Bool.false_ne_true)]
      have unseen := clear_happen_of_not_authored root h
      exact (clear_after unseen history).trans (ih root)

/-- **Only the last pass counts.** A pass over a tree in any state of geometry ends in the tree and
with the outcome of the pass over that tree without any geometry; more generally, passes over two
trees end alike if and only if the trees declare the same. It keeps all that is declared, with a
fault or without one, so that a second pass changes nothing. And after any history of edits,
geometry set by hand and passes, over the whole tree or parts of it, it ends as it would have ended
after the authored edits alone. -/
theorem pass_depends_on_declaration_only (root : Node) (bounds : Rect) (p : Profile) :
    (∃ plain : Node, plain.SameDeclaration root ∧ (∀ n ∈ plain.walk, n.LacksGeometry) ∧
        root.resolveInPlace bounds p = plain.resolveInPlace bounds p) ∧
      (∀ other : Node, other.resolveInPlace bounds p = root.resolveInPlace bounds p ↔
        other.SameDeclaration root) ∧
      (root.resolveInPlace bounds p).result.SameDeclaration root ∧
      (root.resolveInPlace bounds p).result.resolveInPlace bounds p =
        root.resolveInPlace bounds p ∧
      ∀ history : List Event, (root.after history).resolveInPlace bounds p =
        (root.after (history.filter Event.isAuthored)).resolveInPlace bounds p := by
  have kept := root.sameDeclaration_resolveInPlace bounds p
  refine ⟨⟨root.clear, root.sameDeclaration_clear, fun n hn => lacksGeometry_of_mem_walk_clear hn,
    resolveInPlace_eq_iff.mpr root.sameDeclaration_clear.symm⟩, fun other => resolveInPlace_eq_iff,
    kept, resolveInPlace_eq_iff.mpr kept, ?_⟩
  intro history
  exact resolveInPlace_eq_iff.mpr (root.sameDeclaration_after history)

end Node

end PixelLayout
