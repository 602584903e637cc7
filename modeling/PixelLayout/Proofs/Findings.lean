import PixelLayout.Proofs.Violations

/-!
# A pass and a check of one tree

A pass stops at the first node that it cannot lay out; a check goes through the whole tree and never
computes an area. Both meet the nodes in document order, and each decides for itself what is wrong
with a node: a pass by `Visit.offence`, a check by what the node violates.

**The law** (`pass_agrees_with_check`): a pass fails with the first offence of its visits, and apart
from margins, which only an area can violate, the offending nodes are those under whose path the
check has found a problem that no pass gets past. There are two exceptions. A check adds up the
shares of a split, which no pass does, and it stops where their sum is beyond every double; then it
does not report a problem elsewhere in the tree either (`not_forall_checkAgrees`). And it stops where
it cannot write what it found.
-/

namespace PixelLayout

/-- The fault is about a margin, for which an area was too small. -/
def LayoutFault.ofMargin : LayoutFault → Bool
  | .itemMargin .. | .ruleMargin .. => true
  | _ => false

/-- No pass gets past a node with this problem. -/
def Problem.blocks : Problem → Bool
  | .emptyStack _ | .onlySeparators _ | .visibleCount _ | .sizeNotOffered .. => true
  | _ => false

namespace Visit

variable {p : Profile} {v : Visit}

/-- **Where a pass and a check decide alike**: what is wrong with a node, other than a margin. -/
theorem offence_iff_violates (known : v.node.kind ≠ .bare) :
    (∃ e, v.offence p = some e ∧ e.ofMargin = false) ↔
      ∃ x, Violates (some p) v.node x ∧ x.blocks = true := by
  obtain ⟨n, d⟩ := v
  cases n with
  | stack axis nodes r =>
    constructor
    · rintro ⟨_, he, _⟩
      have separators : nodes.all Node.isSeparator = true := by
        by_contra slots
        simp only [offence, if_neg slots, reduceCtorEq] at he
      cases nodes with
      | nil => exact ⟨_, .emptyStack, rfl⟩
      | cons n ns =>
        exact ⟨_, .onlySeparators (List.cons_ne_nil n ns) (List.all_eq_true.mp separators), rfl⟩
    · rintro ⟨x, violates, _⟩
      refine ⟨.noSlots axis, if_pos ?_, rfl⟩
      cases violates with
      | emptyStack => rfl
      | onlySeparators _ all => exact List.all_eq_true.mpr all
  | split a s b t r =>
    refine ⟨fun ⟨_, he, _⟩ => (nomatch he), ?_⟩
    rintro ⟨x, violates, blocks⟩
    cases violates <;> cases blocks
  | tile t =>
    constructor
    · rintro ⟨e, he, _⟩
      cases hsize : t.text.fontSize with
      | none => simp only [offence, hsize, reduceCtorEq] at he
      | some size =>
        refine ⟨_, .sizeNotOffered rfl hsize ?_, rfl⟩
        intro offered
        have has : p.fontTable.hasSize size = true :=
          FontTable.hasSize_iff.mpr (List.mem_map.mp offered)
        simp only [offence, hsize, has, if_true, reduceCtorEq] at he
    · rintro ⟨x, violates, _⟩
      cases violates with
      | @sizeNotOffered _ size _ given asks missing =>
        cases given
        have lacks : ¬ p.fontTable.hasSize size = true := fun has =>
          missing (List.mem_map.mpr (FontTable.hasSize_iff.mp has))
        exact ⟨.sizeNotOffered t.text.content size p.name p.fontTable.sizes,
          by simp only [offence, asks, if_neg lacks], rfl⟩
  | separator axis r =>
    refine ⟨?_, fun ⟨_, violates, _⟩ => (nomatch violates)⟩
    rintro ⟨e, he, hmargin⟩
    simp only [offence] at he
    split at he
    · cases he
      cases hmargin
    · cases he
  | list items k r =>
    constructor
    · rintro ⟨e, he, hmargin⟩
      by_cases hidden : k ≤ 0
      · exact ⟨_, .visibleCount (by omega), rfl⟩
      · simp only [offence, if_neg hidden] at he
        split at he
        · cases he
          cases hmargin
        · cases he
    · rintro ⟨x, violates, blocks⟩
      cases violates with
      | noItems => cases blocks
      | visibleCount hidden => exact ⟨.visibleCount k, if_pos (by omega), rfl⟩
  | bare r => exact absurd rfl known

/-- A visit halts with its offence, unless a share of a height is no number of pixels. -/
theorem halt_eq_offence (p : Profile) (v : Visit) :
    v.halt p = (v.offence p).map .layout ∨ ∃ e, v.halt p = some (.number e) := by
  obtain ⟨n, d⟩ := v
  cases n with
  | split a s b t r =>
    cases hcut : s.cut d.height with
    | ok up => exact .inl (by simp only [halt, offence, hcut, Option.map_none])
    | error e => exact .inr ⟨e, by simp only [halt, hcut]⟩
  | stack axis nodes r => exact .inl rfl
  | tile t => exact .inl rfl
  | separator axis r => exact .inl rfl
  | list items k r => exact .inl rfl
  | bare r => exact .inl rfl

/-- The first halt of several visits is their first offence. -/
theorem findSome?_halt {vs : List Visit}
    (cuts : ∀ e, vs.findSome? (Visit.halt p) ≠ some (.number e)) :
    vs.findSome? (Visit.halt p) = (vs.findSome? (Visit.offence p)).map .layout := by
  induction vs with
  | nil => rfl
  | cons v vs ih =>
    rw [List.findSome?_cons] at cuts ⊢
    rw [List.findSome?_cons]
    rcases halt_eq_offence p v with h | ⟨e, h⟩
    · rw [h] at cuts ⊢
      cases hoffence : v.offence p with
      | none =>
        rw [hoffence] at cuts
        exact ih cuts
      | some e => rfl
    · rw [h] at cuts
      exact absurd rfl (cuts e)

end Visit

namespace Node

/-- The check returns, and the findings under the path of each node say whether it offends for a
reason other than a margin. -/
def CheckAgrees (root : Node) (bounds : Rect) (p : Profile) : Prop :=
  ∃ fs, root.check (some p) = .ok fs ∧
    ∀ (i : Nat) (v : Visit) (q : Site),
      (Pass.visits p root bounds)[i]? = some v → root.sites[i]? = some q →
        v.node = q.node ∧ ((∃ e, v.offence p = some e ∧ e.ofMargin = false) ↔
          ∃ f ∈ fs, f.path = q.path ∧ f.problem.blocks = true)

variable {root : Node} {bounds : Rect} {p : Profile}

/-- The visits of a pass and the sites of a check are of the same nodes, in the same order. -/
theorem visits_sites_node {i : Nat} {v : Visit} {q : Site}
    (hv : (Pass.visits p root bounds)[i]? = some v) (hq : root.sites[i]? = some q) :
    v.node = q.node := by
  have same : (Pass.visits p root bounds).map Visit.node = root.sites.map Site.node := by
    rw [Pass.visits_node, sites, Check.sites_node]
  have hnode := congrArg (fun nodes => nodes[i]?) same
  simp only [List.getElem?_map, hv, hq, Option.map_some, Option.some.injEq] at hnode
  exact hnode

theorem checkAgrees_iff (known : ∀ n ∈ root.walk, n.kind ≠ .bare) :
    root.CheckAgrees bounds p ↔
      (∀ a s b t r, .split a s b t r ∈ root.walk → s.Sums t) ∧ root.Sayable (some p) := by
  rw [← exists_check_iff_sayable]
  refine ⟨fun ⟨fs, hfs, _⟩ => ⟨fs, hfs⟩, ?_⟩
  rintro ⟨fs, hfs⟩
  refine ⟨fs, hfs, ?_⟩
  intro i v q hv hq
  have same := visits_sites_node hv hq
  have hwalk : v.node ∈ root.walk := Pass.visit_node_mem (List.mem_of_getElem? hv)
  obtain ⟨problems, hproblems⟩ := exists_check_iff.mp ⟨fs, hfs⟩ v.node hwalk
  have violations := (Check.violations_of_nodeProblems hproblems).2.1
  refine ⟨same, ?_⟩
  rw [Visit.offence_iff_violates (known _ hwalk),
    exists_mem_check hfs (List.mem_of_getElem? hq) fun x => x.blocks = true, ← same]
  constructor
  · rintro ⟨x, violates, blocks⟩
    exact ⟨problems, hproblems, x, (violations.mem_iff x).mpr violates, blocks⟩
  · rintro ⟨problems', hproblems', x, hx, blocks⟩
    obtain rfl := Except.ok.inj (hproblems.symm.trans hproblems')
    exact ⟨x, (violations.mem_iff x).mp hx, blocks⟩

/-- If shares are no obstacle, a pass fails with the first offence of its visits. -/
theorem fault_eq_offence (cuts : ∀ e, (root.resolveInPlace bounds p).fault ≠ some (.number e)) :
    (root.resolveInPlace bounds p).fault =
      ((Pass.visits p root bounds).findSome? (Visit.offence p)).map .layout := by
  rw [resolveInPlace_fault]
  exact Visit.findSome?_halt fun e h => cuts e ((resolveInPlace_fault root bounds p).trans h)

/-- **A pass and a check agree about a tree**, as long as no share of a height stops the pass. A
pass lays the tree out if no node offends and otherwise fails with the first offence in document
order, in words if these can be written; and the check finds the offending nodes, apart from those
that only violate a margin, if and only if the shares of each split have a sum that a double can
stand for and everything that is wrong can be written. -/
theorem pass_agrees_with_check (known : ∀ n ∈ root.walk, n.kind ≠ .bare)
    (cuts : ∀ e, (root.resolveInPlace bounds p).fault ≠ some (.number e)) :
    ((∃ out, root.resolve bounds p = .ok out) ↔
        ∀ v ∈ Pass.visits p root bounds, v.offence p = none) ∧
      (∀ e, (Pass.visits p root bounds).findSome? (Visit.offence p) = some e →
        (root.resolveInPlace bounds p).fault = some (.layout e) ∧
          root.resolve bounds p = .error (Fault.layout e).raised) ∧
      (root.CheckAgrees bounds p ↔
        (∀ a s b t r, .split a s b t r ∈ root.walk → s.Sums t) ∧ root.Sayable (some p)) := by
  have hfault := fault_eq_offence cuts
  refine ⟨?_, ?_, checkAgrees_iff known⟩
  · rw [exists_resolve_iff, hfault, Option.map_eq_none_iff, List.findSome?_eq_none_iff]
  · intro e he
    have stopped : (root.resolveInPlace bounds p).fault = some (.layout e) := by
      rw [hfault, he, Option.map_some]
    exact ⟨stopped, resolve_of_fault stopped⟩

/-- A tile asks for a size that the display does not have, behind a split and before a list that
shows nothing: the pass stops at the tile, and the check has found the list too. -/
theorem pass_agrees_with_check_unknownSize :
    let root : Node := .stack .vertical
      [.split (.tile (.ofContent "A")) (.whole 1) (.tile (.ofContent "B")) (.whole 0) none,
        .tile ((Tile.ofContent "C").setFontSize 7), .list [] 0 none] none
    root.resolve ⟨0, 0, 90, 90⟩ Profile.waveshare2in9 =
        .error (.layout (.sizeNotOffered "C" 7 "waveshare_2in9" [56, 42, 31, 24, 19])) ∧
      root.CheckAgrees ⟨0, 0, 90, 90⟩ Profile.waveshare2in9 := by
  intro root
  have stopped : (root.resolveInPlace ⟨0, 0, 90, 90⟩ Profile.waveshare2in9).fault =
      some (.layout (.sizeNotOffered "C" 7 "waveshare_2in9" [56, 42, 31, 24, 19])) := by
    rfl
  have cuts : ∀ e, (root.resolveInPlace ⟨0, 0, 90, 90⟩ Profile.waveshare2in9).fault ≠
      some (.number e) := by
    rw [stopped]
    exact fun e h => (nomatch h)
  obtain ⟨_, first, agrees⟩ := pass_agrees_with_check (by decide) cuts
  have raised := (first (.sizeNotOffered "C" 7 "waveshare_2in9" [56, 42, 31, 24, 19]) (by rfl)).2
  rw [Fault.raised_of_sayable (by decide)] at raised
  refine ⟨raised, agrees.mpr (exists_check_iff_sayable.mp ?_)⟩
  exact exists_ok_of_isSome (by decide +kernel)

/-- A check reports nothing if it stops at a sum of shares. Here the upper half is a stack without
children, which the pass stops at; the lower half has a share beyond every double. -/
theorem not_forall_checkAgrees :
    ¬ ∀ (root : Node) (bounds : Rect) (p : Profile), (∀ n ∈ root.walk, n.kind ≠ .bare) →
      (∀ e, (root.resolveInPlace bounds p).fault ≠ some (.number e)) →
        root.CheckAgrees bounds p := by
  intro agrees
  let root : Node := .split (.stack .vertical [] none) (.whole 1) (.tile (.ofContent "A"))
    (.whole (2 ^ 1024)) none
  have hfault : (root.resolveInPlace ⟨0, 0, 90, 90⟩ Profile.waveshare2in9).fault =
      some (.layout (.noSlots .vertical)) := by
    rfl
  obtain ⟨fs, hfs, _⟩ := agrees root ⟨0, 0, 90, 90⟩ Profile.waveshare2in9 (by decide) (by
    rw [hfault]
    exact fun e h => (nomatch h))
  have stopped : (root.check (some Profile.waveshare2in9)).toOption.isNone = true := by
    decide +kernel
  rw [hfs] at stopped
  cases stopped

end Node

end PixelLayout
