import Mathlib.Data.List.Forall2
import PixelLayout.Proofs.Resolved

/-!
# What an author declares and what a pass adds

A tree carries two kinds of data: what its author declared, and the geometry that a pass adds.
`Node.SameDeclaration` compares the first kind alone, node by node; `Node.LacksGeometry` says of one
node that it has nothing of the second kind.

`Node.clear` is the tree that declares the same and lacks all geometry, so two trees declare the
same if and only if they are cleared to one tree (`sameDeclaration_iff`). A pass writes geometry and
nothing else, wherever it stops (`sameDeclaration_resolveInPlace`).
-/

namespace PixelLayout

/-- Two tiles of the same text, with the same format and the same font size of the author's
choice. -/
def Tile.SameDeclaration (t u : Tile) : Prop :=
  t.text.content = u.text.content ∧ t.text.format = u.text.format ∧
    t.text.fontSize = u.text.fontSize

mutual
/-- Two trees of the same nodes in the same order that agree in everything an author declares. -/
def Node.SameDeclaration : Node → Node → Prop
  | .stack axis ms _, .stack axis' ns _ => axis = axis' ∧ Node.SameDeclarations ms ns
  | .split a s b t _, .split a' s' b' t' _ =>
    a.SameDeclaration a' ∧ s = s' ∧ b.SameDeclaration b' ∧ t = t'
  | .tile t, .tile u => t.SameDeclaration u
  | .separator axis _, .separator axis' _ => axis = axis'
  | .list ts k _, .list us k' _ => List.Forall₂ Tile.SameDeclaration ts us ∧ k = k'
  | .bare _, .bare _ => True
  | _, _ => False

/-- As many trees on both sides, and each declares the same as its counterpart. -/
def Node.SameDeclarations : List Node → List Node → Prop
  | [], [] => True
  | m :: ms, n :: ns => m.SameDeclaration n ∧ Node.SameDeclarations ms ns
  | _, _ => False
end

/-- The node itself has nothing that a pass adds, whatever is below it. -/
def Node.LacksGeometry (n : Node) : Prop :=
  n.rect? = none ∧ ∀ t, n.tile? = some t → t.text.offset = none ∧ t.text.resolvedFontSize = none

/-! ## Clearing -/

theorem Tile.sameDeclaration_iff {t u : Tile} : t.SameDeclaration u ↔ t.clear = u.clear := by
  obtain ⟨⟨content, format, fontSize, offset, resolved⟩, r⟩ := t
  obtain ⟨⟨content', format', fontSize', offset', resolved'⟩, r'⟩ := u
  simp only [SameDeclaration, clear, Tile.mk.injEq, TileText.mk.injEq, and_true]

theorem Tile.clear_clear (t : Tile) : t.clear.clear = t.clear := rfl

theorem Tile.forall₂_sameDeclaration_iff {ts us : List Tile} :
    List.Forall₂ Tile.SameDeclaration ts us ↔ ts.map Tile.clear = us.map Tile.clear := by
  induction ts generalizing us with
  | nil => cases us <;> simp
  | cons t ts ih =>
    cases us with
    | nil => simp
    | cons u us => simp only [List.forall₂_cons, ih, sameDeclaration_iff, List.map_cons,
        List.cons.injEq]

namespace Node

mutual
/-- **Two trees declare the same if and only if they are alike without their geometry.** -/
theorem sameDeclaration_iff : ∀ {m n : Node}, m.SameDeclaration n ↔ m.clear = n.clear
  | .stack axis ms _, n => by
    cases n <;> simp only [SameDeclaration, clear, reduceCtorEq, stack.injEq, and_true]
    rw [sameDeclarations_iff]
  | .split a s b t _, n => by
    cases n <;> simp only [SameDeclaration, clear, reduceCtorEq, split.injEq, and_true]
    rw [sameDeclaration_iff, sameDeclaration_iff]
  | .tile t, n => by
    cases n <;> simp only [SameDeclaration, clear, reduceCtorEq, tile.injEq]
    exact Tile.sameDeclaration_iff
  | .separator axis _, n => by
    cases n <;> simp only [SameDeclaration, clear, reduceCtorEq, separator.injEq, and_true]
  | .list ts k _, n => by
    cases n <;> simp only [SameDeclaration, clear, reduceCtorEq, list.injEq, and_true]
    rw [Tile.forall₂_sameDeclaration_iff]
  | .bare _, n => by
    cases n <;> simp only [SameDeclaration, clear, reduceCtorEq]
termination_by structural m => m

theorem sameDeclarations_iff : ∀ {ms ns : List Node},
    SameDeclarations ms ns ↔ clearAll ms = clearAll ns
  | [], ns => by cases ns <;> simp only [SameDeclarations, clearAll, reduceCtorEq]
  | m :: ms, ns => by
    cases ns <;> simp only [SameDeclarations, clearAll, reduceCtorEq, List.cons.injEq]
    rw [sameDeclaration_iff, sameDeclarations_iff]
termination_by structural ms => ms
end

theorem SameDeclaration.refl (n : Node) : n.SameDeclaration n := sameDeclaration_iff.mpr rfl

theorem SameDeclaration.symm {m n : Node} (h : m.SameDeclaration n) : n.SameDeclaration m :=
  sameDeclaration_iff.mpr (sameDeclaration_iff.mp h).symm

theorem SameDeclaration.trans {l m n : Node} (h : l.SameDeclaration m) (h' : m.SameDeclaration n) :
    l.SameDeclaration n :=
  sameDeclaration_iff.mpr ((sameDeclaration_iff.mp h).trans (sameDeclaration_iff.mp h'))

mutual
theorem clear_clear : ∀ n : Node, n.clear.clear = n.clear
  | .stack axis ns r => by rw [clear, clear, clearAll_clearAll ns]
  | .split a s b t r => by rw [clear, clear, clear_clear a, clear_clear b]
  | .tile t => rfl
  | .separator axis r => rfl
  | .list ts k r => by
    rw [clear, clear, List.map_map]
    rfl
  | .bare r => rfl
termination_by structural n => n

theorem clearAll_clearAll : ∀ ns : List Node, clearAll (clearAll ns) = clearAll ns
  | [] => rfl
  | n :: ns => by rw [clearAll, clearAll, clear_clear n, clearAll_clearAll ns]
termination_by structural ns => ns
end

theorem sameDeclaration_clear (n : Node) : n.clear.SameDeclaration n :=
  sameDeclaration_iff.mpr n.clear_clear

mutual
theorem walk_clear : ∀ n : Node, n.clear.walk = n.walk.map clear
  | .stack axis ns r => by rw [clear, walk, walkAll_clearAll ns, walk, List.map_cons, clear]
  | .split a s b t r => by
    rw [clear, walk, walk_clear a, walk_clear b, walk, List.map_cons, List.map_append, clear]
  | .tile t => rfl
  | .separator axis r => rfl
  | .list ts k r => by
    rw [clear, walk, walk, List.map_cons, List.map_map, List.map_map, clear]
    rfl
  | .bare r => rfl
termination_by structural n => n

theorem walkAll_clearAll : ∀ ns : List Node, walkAll (clearAll ns) = (walkAll ns).map clear
  | [] => rfl
  | n :: ns => by
    rw [clearAll, walkAll, walk_clear n, walkAll_clearAll ns, walkAll, List.map_append]
termination_by structural ns => ns
end

theorem lacksGeometry_clear (n : Node) : n.clear.LacksGeometry := by
  refine ⟨by cases n <;> rfl, ?_⟩
  intro t ht
  cases n <;> simp only [clear, tile?, reduceCtorEq, Option.some.injEq] at ht
  subst ht
  exact ⟨rfl, rfl⟩

/-- A cleared tree has no geometry anywhere. -/
theorem lacksGeometry_of_mem_walk_clear {n m : Node} (hm : m ∈ n.clear.walk) :
    m.LacksGeometry := by
  rw [walk_clear] at hm
  obtain ⟨n', _, rfl⟩ := List.mem_map.mp hm
  exact n'.lacksGeometry_clear

end Node

/-! ## A pass adds geometry and changes nothing else -/

namespace Pass

variable (p : Profile)

theorem clear_placeTile (t : Tile) (d : Rect) : (t.place p d).result.clear = t.clear := by
  rcases placeTile_cases p t d with ⟨_, _, _, hplace⟩ | ⟨_, _, hplace⟩ <;> rw [hplace] <;> rfl

theorem clear_placeItems (d : Rect) (length : Int) (k : Nat) (ts : List Tile) :
    (placeItems p d length k ts).result.map Tile.clear = ts.map Tile.clear := by
  induction ts generalizing k with
  | nil => rfl
  | cons t ts ih =>
    rw [placeItems]
    cases (t.place p (itemArea d p.listItemMargin length k)).fault with
    | some fault => simp only [List.map_cons, clear_placeTile]
    | none => simp only [List.map_cons, clear_placeTile, ih]

theorem clear_placeList (items : List Tile) (k : Int) (r : Option Rect) (d : Rect) :
    (placeList p items k r d).result.clear = .list (items.map Tile.clear) k none := by
  unfold placeList
  split
  · rfl
  · split
    · rfl
    · rw [Node.clear, clear_placeItems]

theorem clear_placeSeparator (axis : Axis) (r : Option Rect) (d : Rect) :
    (placeSeparator p axis r d).result.clear = .separator axis none := by
  unfold placeSeparator
  split <;> rfl

mutual
/-- By induction on the tree: where a pass stops, it keeps what it has not reached. -/
theorem clear_place : ∀ (n : Node) (d : Rect), (place p n d).result.clear = n.clear
  | .stack axis ns r, d => by
    rw [place]
    split
    · rfl
    · rw [Node.clear, Node.clear, clear_placeAll]
  | .split a s b t r, d => by
    rw [place]
    cases s.cut d.height with
    | error e => rfl
    | ok up =>
      have first := clear_place a ⟨d.x, d.y, d.width, up⟩
      have second := clear_place b ⟨d.x, d.y + up, d.width, d.height - up⟩
      cases hfault : (place p a ⟨d.x, d.y, d.width, up⟩).fault with
      | some fault => simp only [hfault, Node.clear, first]
      | none => simp only [hfault, Node.clear, first, second]
  | .tile t, d => by rw [place, Node.clear, Node.clear, clear_placeTile]
  | .separator axis r, d => by rw [place, clear_placeSeparator, Node.clear]
  | .list items k r, d => by rw [place, clear_placeList, Node.clear]
  | .bare r, d => rfl
termination_by structural n => n

theorem clear_placeAll (axis : Axis) (d : Rect) (length : Int) : ∀ (k : Nat) (ns : List Node),
    Node.clearAll (placeAll p axis d length k ns).result = Node.clearAll ns
  | _, [] => rfl
  | k, n :: ns => by
    have here := clear_place n (slot axis d length k n)
    rw [placeAll]
    cases (place p n (slot axis d length k n)).fault with
    | some fault => simp only [Node.clearAll, here]
    | none =>
      have rest := clear_placeAll axis d length (if n.isSeparator then k else k + 1) ns
      simp only [Node.clearAll, here, rest]
termination_by structural _ ns => ns
end

end Pass

namespace Node

/-- A pass over a whole tree keeps what the author declared, with a fault or without one. -/
theorem sameDeclaration_resolveInPlace (root : Node) (bounds : Rect) (p : Profile) :
    (root.resolveInPlace bounds p).result.SameDeclaration root := by
  have kept := Pass.clear_place p root.clear bounds
  rw [sameDeclaration_iff]
  exact kept.trans root.clear_clear

theorem sameDeclaration_of_resolve {root out : Node} {bounds : Rect} {p : Profile}
    (h : root.resolve bounds p = .ok out) : out.SameDeclaration root := by
  have kept := root.sameDeclaration_resolveInPlace bounds p
  rwa [resolve_eq_ok_iff.mp h] at kept

/-- **A pass sees the declaration of a tree and nothing else of it.** Two trees end in one outcome
if and only if they declare the same. -/
theorem resolveInPlace_eq_iff {m n : Node} {bounds : Rect} {p : Profile} :
    m.resolveInPlace bounds p = n.resolveInPlace bounds p ↔ m.SameDeclaration n := by
  constructor
  · intro h
    have hm := m.sameDeclaration_resolveInPlace bounds p
    have hn := n.sameDeclaration_resolveInPlace bounds p
    rw [h] at hm
    exact hm.symm.trans hn
  · intro h
    rw [resolveInPlace, resolveInPlace, sameDeclaration_iff.mp h]

end Node

end PixelLayout
