import PixelLayout.Proofs.Complement
import PixelLayout.Proofs.Violations

/-!
# Trees that the builders make

The builders refuse what no tree can carry, one call at a time; a check looks at the whole tree when
it is done. `Node.Built` says that a tree came about by builders alone, in any order and nesting.

**What the builders accept, a check accepts** (`Node.Built.check_gaps`). All that it can find is
something that is not there: a stack without a slot, a list without items (and so with none to
show), a font size that the display does not have; and it returns, unless such a size is too long to
be written. It finds nothing about shares: what a share leaves of one lies between zero and one too,
and the two make one (`Share.exists_complement`).

The induction along the builders carries what they settle about a single node (`Node.AsBuilt`). To
set a format or a font size changes neither shares nor how many items a list has.
-/

namespace PixelLayout

namespace Node

/-- The tree comes about by builders alone. -/
inductive Built : Node → Prop where
  | label (content : String) : Built (.label content)
  | rule (axis : Axis) : Built (.separator axis none)
  | listOf (contents : List String) : Built (.listOf contents)
  | stackOf {axis : Axis} {children : List Child} {n : Node}
      (below : ∀ m, .node m ∈ children → Built m) (accepted : stackOf axis children = .ok n) :
    Built n
  | splitBy {first second : Node} {s : Share} {n : Node} (upper : Built first)
      (lower : Built second) (accepted : splitBy first s second = .ok n) : Built n
  | withFormat {m n : Node} {format : Option String} (before : Built m)
      (accepted : m.withFormat format = .ok n) : Built n
  | withFontSize {m n : Node} {given : Value} (before : Built m)
      (accepted : m.withFontSize given = .ok n) : Built n

/-- What builders settle about a single node. -/
def AsBuilt : Node → Prop
  | .split _ s _ t _ => s.MakeOne t
  | .list items k _ => k = items.length
  | .bare _ => False
  | _ => True

theorem mem_walkAll {n : Node} {ns : List Node} : n ∈ walkAll ns ↔ ∃ m ∈ ns, n ∈ m.walk := by
  induction ns with
  | nil => simp only [walkAll, List.not_mem_nil, false_and, exists_false]
  | cons m ms ih => rw [walkAll, List.mem_append, ih, List.exists_mem_cons_iff]

/-- A list that shows all its items is as builders leave it, and so are the items. -/
theorem asBuilt_list {items : List Tile} {k : Int} (r : Option Rect) (h : k = items.length) :
    ∀ n ∈ (Node.list items k r).walk, n.AsBuilt := by
  refine List.forall_mem_cons.mpr ⟨h, ?_⟩
  intro n hn
  obtain ⟨t, -, rfl⟩ := List.mem_map.mp hn
  trivial

theorem nodesOf_eq_ok {children : List Child} {nodes : List Node}
    (h : nodesOf children = .ok nodes) : children = nodes.map .node := by
  induction children generalizing nodes with
  | nil =>
    cases h
    rfl
  | cons child children ih =>
    cases child with
    | foreign v => cases h
    | node n =>
      obtain ⟨rest, hrest, h⟩ := bind_eq_ok.mp h
      cases h
      rw [ih hrest, List.map_cons]

/-- A split that is accepted holds two shares that make one. -/
theorem makeOne_of_splitBy {first second n : Node} {s : Share}
    (accepted : Node.splitBy first s second = .ok n) :
    ∃ t, s.complement = .ok t ∧ n = .split first s second t none ∧ s.MakeOne t := by
  obtain ⟨proper, rest, complement, rfl⟩ := splitBy_eq_ok accepted
  obtain ⟨c, hc, makeOne⟩ := Share.exists_complement proper
  obtain rfl : rest = .real c := Except.ok.inj (complement.symm.trans hc)
  exact ⟨_, hc, rfl, makeOne⟩

/-- **Every node of a tree that builders made is as they left it.** -/
theorem Built.asBuilt {root : Node} (h : root.Built) : ∀ n ∈ root.walk, n.AsBuilt := by
  induction h with
  | label content => exact List.forall_mem_singleton.mpr trivial
  | rule axis => exact List.forall_mem_singleton.mpr trivial
  | listOf contents => exact asBuilt_list none (congrArg Int.ofNat (List.length_map _).symm)
  | stackOf _ accepted ih =>
    obtain ⟨nodes, hnodes, h⟩ := bind_eq_ok.mp accepted
    cases h
    obtain rfl := nodesOf_eq_ok hnodes
    refine List.forall_mem_cons.mpr ⟨trivial, ?_⟩
    intro n hn
    obtain ⟨m, hm, hn⟩ := mem_walkAll.mp hn
    exact ih m (List.mem_map_of_mem hm) n hn
  | splitBy _ _ accepted upper lower =>
    obtain ⟨t, -, rfl, makeOne⟩ := makeOne_of_splitBy accepted
    exact List.forall_mem_cons.mpr ⟨makeOne, List.forall_mem_append.mpr ⟨upper, lower⟩⟩
  | @withFormat m n format _ accepted ih =>
    cases m with
    | tile t =>
      cases accepted
      exact List.forall_mem_singleton.mpr trivial
    | list items k r =>
      cases accepted
      have count : k = items.length := ih _ List.mem_cons_self
      exact asBuilt_list r (by rw [List.length_map, count])
    | _ => cases accepted
  | @withFontSize m n given _ accepted ih =>
    cases m with
    | tile t =>
      obtain ⟨size, -, h⟩ := bind_eq_ok.mp accepted
      cases h
      exact List.forall_mem_singleton.mpr trivial
    | list items k r =>
      obtain ⟨size, -, h⟩ := bind_eq_ok.mp accepted
      cases h
      have count : k = items.length := ih _ List.mem_cons_self
      exact asBuilt_list r (by rw [List.length_map, count])
    | _ => cases accepted

/-- Something is missing at the node: a slot, all the items of a list, or a font size. -/
def Gap (p : Option Profile) (n : Node) (x : Problem) : Prop :=
  Violates p n x ∧ match n with
    | .stack .. | .tile _ => True
    | .list items k _ => items = [] ∧ k = 0
    | _ => False

/-- What is wrong with a node that builders left is a gap. -/
theorem AsBuilt.gap {p : Option Profile} {n : Node} (h : n.AsBuilt) {x : Problem}
    (violates : Violates p n x) : Gap p n x := by
  refine ⟨violates, ?_⟩
  cases violates with
  | emptyStack => trivial
  | onlySeparators => trivial
  | firstShare outside => exact outside h.first
  | secondShare outside => exact outside h.second
  | shareSum adds other => cases (h.close _ adds).symm.trans other
  | noItems => exact ⟨rfl, h⟩
  | @visibleCount items k _ hidden =>
    have count : k = items.length := h
    have none : items.length = 0 := by omega
    exact ⟨List.length_eq_zero_iff.mp none, by rw [count, none]; rfl⟩
  | sizeNotOffered => trivial

/-- **What the builders accept, a check accepts**: of a tree that they made it finds nothing but
gaps, and it returns if and only if every gap can be written. In particular it finds nothing about a
split, since every share that is accepted makes one with its complement. -/
theorem Built.check_gaps {root : Node} (built : root.Built) (p : Option Profile) :
    ((∃ fs, root.check p = .ok fs) ↔ ∀ n ∈ root.walk, ∀ x, Gap p n x → x.Sayable) ∧
    (∀ fs, root.check p = .ok fs →
      ∀ f ∈ fs, ∃ q ∈ root.sites, f.path = q.path ∧ Gap p q.node f.problem) ∧
    ∀ first second s n, Node.splitBy first s second = .ok n →
      ∃ t, s.complement = .ok t ∧ n = .split first s second t none ∧ s.MakeOne t := by
  have asBuilt := built.asBuilt
  refine ⟨?_, ?_, fun first second s n accepted => makeOne_of_splitBy accepted⟩
  · have sums : ∀ a s b t r, .split a s b t r ∈ root.walk → s.Sums t :=
      fun a s b t r hn => ⟨_, _, (asBuilt _ hn).sum, rfl⟩
    rw [exists_check_iff_sayable, and_iff_right sums]
    constructor
    · exact fun sayable n hn x gap => sayable n hn x gap.1
    · exact fun sayable n hn x violates => sayable n hn x ((asBuilt n hn).gap violates)
  · intro fs hfs f hf
    obtain ⟨q, hq, path, problems, own, hx⟩ := (mem_check hfs f).mp hf
    have violates := ((Check.violations_of_nodeProblems own).2.1.mem_iff _).mp hx
    exact ⟨q, hq, path, (asBuilt _ (mem_walk_of_mem_sites hq)).gap violates⟩

/-- What seven tenths leave of one, which is a little more than three tenths. -/
def threeTenths : Share := .real (.finite false ⟨0x3FD3333333333334, by decide⟩)

/-- A tree that builders made, with everything missing that they do not ask for. -/
def gappyTree : Node :=
  .split (.stack .horizontal [] none) sevenTenths
    (.stack .vertical
      [.separator .horizontal none, .list [] 0 none, .tile ((Tile.ofContent "A").setFontSize 7)]
      none)
    threeTenths none

theorem Built.check_gaps_gappyTree :
    gappyTree.Built ∧ ∃ fs, gappyTree.check (some Profile.waveshare2in9) = .ok fs ∧
      fs.map Finding.problem =
        [.emptyStack .horizontal, .noItems, .visibleCount 0, .sizeNotOffered 7 "waveshare_2in9"] ∧
      ∀ f ∈ fs, ∃ q ∈ gappyTree.sites, f.path = q.path ∧
        Gap (some Profile.waveshare2in9) q.node f.problem := by
  have upper : Built (.stack .horizontal [] none) :=
    @Built.stackOf .horizontal [] _ (fun _ hm => (nomatch hm)) rfl
  have sized : Built (.tile ((Tile.ofContent "A").setFontSize 7)) :=
    @Built.withFontSize (.label "A") _ (.whole 7) (.label "A") rfl
  have lower : Built (.stack .vertical [.separator .horizontal none, .list [] 0 none,
      .tile ((Tile.ofContent "A").setFontSize 7)] none) := by
    refine @Built.stackOf .vertical [.node (.separator .horizontal none), .node (.list [] 0 none),
      .node (.tile ((Tile.ofContent "A").setFontSize 7))] _ ?_ rfl
    intro m hm
    simp only [List.mem_cons, List.not_mem_nil, or_false, Child.node.injEq] at hm
    rcases hm with rfl | rfl | rfl
    · exact .rule .horizontal
    · exact .listOf []
    · exact sized
  have built : gappyTree.Built := by
    apply Built.splitBy upper lower
    obtain ⟨rest, complement, accepted⟩ :=
      exists_splitBy (s := sevenTenths) (by decide +kernel) _ _
    have three : sevenTenths.complement = .ok threeTenths := by decide +kernel
    obtain rfl : threeTenths = rest := Except.ok.inj (three.symm.trans complement)
    exact accepted
  obtain ⟨fs, hfs⟩ : ∃ fs, gappyTree.check (some Profile.waveshare2in9) = .ok fs :=
    exists_ok_of_isSome (by decide +kernel)
  refine ⟨built, fs, hfs, ?_, (built.check_gaps (some Profile.waveshare2in9)).2.1 fs hfs⟩
  have found := congrArg (fun r => r.toOption.map (List.map Finding.problem)) hfs
  exact (Option.some.inj (Eq.trans (by decide +kernel) found)).symm

end Node

end PixelLayout
