import PixelLayout.Proofs.Sites
import PixelLayout.Proofs.SplitCut

/-!
# What a check reports

`Violates` says, without the check, what can be wrong with a node: a stack has no slot, a share
stands for no number between zero and one, the shares do not add up, a list has nothing to show, a
display lacks the font size of a tile. A node can violate several conditions, and a list of its
problems is in order if the problems follow each other in the `turn` of their kinds (`Violations`).

A check says at each node what the node violates (`Check.exists_nodeProblems_eq_said`), if it can add
up its shares at all. It is stopped by words that hold too long a number. So it returns if and only
if every two shares have a sum that a double can stand for and everything that is wrong can be
written (`Node.exists_check_iff_sayable`).

**The law** (`check_eq_violations_iff`): the shares of a tree being doubles, a check of it returns,
node by node in document order, the list of what that node violates, each problem once and under the
path of its node, if and only if all of these can be written; and no two nodes have one path. So
nothing is lost behind an earlier fault and nothing is reported twice. But a single number that is
too long costs the report on the whole tree (`not_forall_check_eq_violations`).
-/

namespace PixelLayout

/-- A double stands for the sum of the two shares. -/
def Share.Sums (s t : Share) : Prop := ∃ sum x, s.add t = .ok sum ∧ sum.toReal = .ok x

/-- Two doubles have a sum. -/
theorem Share.sums_real (x y : Binary64) : (Share.real x).Sums (.real y) :=
  ⟨.real (x.add y), x.add y, rfl, rfl⟩

/-- The problem is one of the node, on a display if one is given. -/
inductive Violates (p : Option Profile) : Node → Problem → Prop where
  | emptyStack {axis r} : Violates p (.stack axis [] r) (.emptyStack axis)
  | onlySeparators {axis nodes r} (some : nodes ≠ []) (all : ∀ n ∈ nodes, n.isSeparator = true) :
    Violates p (.stack axis nodes r) (.onlySeparators axis)
  | firstShare {a s b t r} (outside : ¬ ∃ v, s.value? = some v ∧ 0 ≤ v ∧ v ≤ 1) :
    Violates p (.split a s b t r) (.improperShare .first s)
  | secondShare {a s b t r} (outside : ¬ ∃ v, t.value? = some v ∧ 0 ≤ v ∧ v ≤ 1) :
    Violates p (.split a s b t r) (.improperShare .second t)
  | shareSum {a s b t r sum} (adds : s.add t = .ok sum) (other : sum.isCloseToOne = .ok false) :
    Violates p (.split a s b t r) (.shareSum sum)
  | noItems {k r} : Violates p (.list [] k r) .noItems
  | visibleCount {items k r} (hidden : k < 1) : Violates p (.list items k r) (.visibleCount k)
  | sizeNotOffered {t size profile} (given : p = some profile) (asks : t.text.fontSize = some size)
      (missing : size ∉ profile.fontTable.sizes) :
    Violates p (.tile t) (.sizeNotOffered size profile.name)

/-- Which of the checks of a node a problem comes from. A stack has one check, so its two problems
exclude each other. -/
def Problem.turn : Problem → Nat
  | emptyStack _ | onlySeparators _ | improperShare .first _ | noItems | sizeNotOffered .. => 0
  | improperShare .second _ | visibleCount _ => 1
  | shareSum _ => 2

/-- The problems are those of the node, each once and in the order of the checks. -/
structure Violations (p : Option Profile) (n : Node) (problems : List Problem) : Prop where
  mem_iff : ∀ x, x ∈ problems ↔ Violates p n x
  inOrder : problems.Pairwise fun x y => x.turn < y.turn

theorem Violations.forall_iff {p : Option Profile} {n : Node} {problems : List Problem}
    (h : Violations p n problems) {P : Problem → Prop} :
    (∀ x ∈ problems, P x) ↔ ∀ x, Violates p n x → P x := by
  simp only [h.mem_iff]

namespace Check

variable {p : Option Profile}

/-! ## Problems in words -/

theorem said_of_sayable {xs : List Problem} (h : ∀ x ∈ xs, x.Sayable) : said xs = .ok xs :=
  if_pos h

theorem said_of_not_sayable {xs : List Problem} (h : ¬ ∀ x ∈ xs, x.Sayable) :
    said xs = .error .tooManyDigits :=
  if_neg h

theorem said_eq_ok {xs ys : List Problem} :
    said xs = .ok ys ↔ (∀ x ∈ xs, x.Sayable) ∧ xs = ys := by
  by_cases h : ∀ x ∈ xs, x.Sayable
  · rw [said_of_sayable h, Except.ok.injEq, and_iff_right h]
  · rw [said_of_not_sayable h]
    exact ⟨nofun, fun ⟨sayable, _⟩ => absurd sayable h⟩

/-- Problems that are said one after the other are said together. -/
theorem said_append (xs ys : List Problem) :
    said (xs ++ ys) = do return (← said xs) ++ (← said ys) := by
  by_cases first : ∀ x ∈ xs, x.Sayable
  · rw [said_of_sayable first]
    by_cases second : ∀ y ∈ ys, y.Sayable
    · rw [said_of_sayable second, said_of_sayable (List.forall_mem_append.mpr ⟨first, second⟩)]
      rfl
    · rw [said_of_not_sayable second,
        said_of_not_sayable fun both => second (List.forall_mem_append.mp both).2]
      rfl
  · rw [said_of_not_sayable first,
      said_of_not_sayable fun both => first (List.forall_mem_append.mp both).1]
    rfl

/-! ## What is wrong with one node -/

theorem violations_stack (axis : Axis) (nodes : List Node) (r : Option Rect) :
    Violations p (.stack axis nodes r) (stackProblems axis nodes) := by
  unfold stackProblems
  cases nodes with
  | nil =>
    refine ⟨?_, List.pairwise_singleton _ _⟩
    intro x
    rw [List.isEmpty_nil, if_pos rfl, List.mem_singleton]
    constructor
    · rintro rfl
      exact .emptyStack
    · intro h
      cases h with
      | emptyStack => rfl
      | onlySeparators some => exact absurd rfl some
  | cons n ns =>
    rw [List.isEmpty_cons, if_neg Bool.false_ne_true]
    constructor
    · intro x
      rw [List.mem_ite_nil_right, List.mem_singleton, List.all_eq_true]
      constructor
      · rintro ⟨all, rfl⟩
        exact .onlySeparators (List.cons_ne_nil n ns) all
      · intro h
        cases h with
        | onlySeparators _ all => exact ⟨all, rfl⟩
    · split
      · exact List.pairwise_singleton _ _
      · exact List.Pairwise.nil

theorem mem_shareProblems {half : Half} {s : Share} {x : Problem} :
    x ∈ shareProblems half s ↔
      (¬ ∃ v, s.value? = some v ∧ 0 ≤ v ∧ v ≤ 1) ∧ x = .improperShare half s := by
  rw [shareProblems, List.mem_ite_nil_left, List.mem_singleton, Share.isProper_iff]

/-- What is wrong with two shares whose sum is known, one after the other. -/
theorem violations_split (a : Node) {s : Share} (b : Node) {t : Share} (r : Option Rect)
    {sum : Share} {y : Binary64} (adds : s.add t = .ok sum) (hy : sum.toReal = .ok y) :
    Violations p (.split a s b t r) (shareProblems .first s ++ shareProblems .second t ++
      if y.isClose Binary64.one then [] else [.shareSum sum]) := by
  have close : sum.isCloseToOne = .ok (y.isClose Binary64.one) := by
    rw [Share.isCloseToOne, hy]
    rfl
  constructor
  · intro x
    rw [List.mem_append, List.mem_append, mem_shareProblems, mem_shareProblems,
      List.mem_ite_nil_left, List.mem_singleton]
    constructor
    · rintro ((⟨outside, rfl⟩ | ⟨outside, rfl⟩) | ⟨other, rfl⟩)
      · exact .firstShare outside
      · exact .secondShare outside
      · exact .shareSum adds (by rw [close, Bool.eq_false_iff.mpr other])
    · intro violates
      cases violates with
      | firstShare outside => exact .inl (.inl ⟨outside, rfl⟩)
      | secondShare outside => exact .inl (.inr ⟨outside, rfl⟩)
      | shareSum adds' other =>
        cases adds.symm.trans adds'
        exact .inr ⟨Bool.eq_false_iff.mp (Except.ok.inj (close.symm.trans other)), rfl⟩
  · unfold shareProblems
    split <;> split <;> split <;> simp [Problem.turn]

theorem violations_list (items : List Tile) (k : Int) (r : Option Rect) :
    Violations p (.list items k r) (listProblems items k) := by
  unfold listProblems
  constructor
  · intro x
    rw [List.mem_append, List.mem_ite_nil_right, List.mem_ite_nil_right, List.mem_singleton,
      List.mem_singleton, List.isEmpty_iff]
    constructor
    · rintro (⟨rfl, rfl⟩ | ⟨hidden, rfl⟩)
      · exact .noItems
      · exact .visibleCount hidden
    · intro h
      cases h with
      | noItems => exact .inl ⟨rfl, rfl⟩
      | visibleCount hidden => exact .inr ⟨hidden, rfl⟩
  · split <;> split <;> simp [Problem.turn]

theorem mem_tileProblems {t : Tile} {x : Problem} :
    x ∈ tileProblems p t ↔ ∃ profile size, p = some profile ∧ t.text.fontSize = some size ∧
      size ∉ profile.fontTable.sizes ∧ x = .sizeNotOffered size profile.name := by
  unfold tileProblems
  cases p with
  | none => exact ⟨nofun, nofun⟩
  | some profile =>
    cases t.text.fontSize with
    | none => exact ⟨nofun, nofun⟩
    | some size =>
      simp only [List.mem_ite_nil_left, List.mem_singleton, FontTable.hasSize_iff, FontTable.sizes,
        List.mem_map, Option.some.injEq, exists_and_left, exists_eq_left']

theorem violations_tile (t : Tile) : Violations p (.tile t) (tileProblems p t) := by
  constructor
  · intro x
    rw [mem_tileProblems]
    constructor
    · rintro ⟨profile, size, given, asks, missing, rfl⟩
      exact .sizeNotOffered given asks missing
    · intro h
      cases h with
      | sizeNotOffered given asks missing => exact ⟨_, _, given, asks, missing, rfl⟩
  · unfold tileProblems
    split
    · split
      · exact .nil
      · exact List.pairwise_singleton _ _
    · exact .nil

/-- The shares of a split are checked only if a double can stand for their sum. -/
theorem sums_of_splitProblems {s t : Share} {problems : List Problem}
    (h : splitProblems s t = .ok problems) : s.Sums t := by
  obtain ⟨_, _, h⟩ := bind_eq_ok.mp h
  obtain ⟨sum, adds, h⟩ := bind_eq_ok.mp h
  obtain ⟨_, close, _⟩ := bind_eq_ok.mp h
  obtain ⟨x, hx, _⟩ := bind_eq_ok.mp close
  exact ⟨sum, x, adds, hx⟩

theorem splitProblems_eq_said {s t sum : Share} {x : Binary64} (adds : s.add t = .ok sum)
    (hx : sum.toReal = .ok x) :
    splitProblems s t = said (shareProblems .first s ++ shareProblems .second t ++
      if x.isClose Binary64.one then [] else [.shareSum sum]) := by
  unfold splitProblems Share.isCloseToOne
  rw [said_append (shareProblems .first s ++ shareProblems .second t), adds]
  cases said (shareProblems .first s ++ shareProblems .second t) with
  | error e => rfl
  | ok each => simp only [bind, Except.bind, pure, Except.pure, hx]

/-- **What a check says of a node is what the node violates**, if it can add up its shares. -/
theorem exists_nodeProblems_eq_said {n : Node}
    (sums : ∀ a s b t r, n = .split a s b t r → s.Sums t) :
    ∃ problems, Violations p n problems ∧ nodeProblems p n = said problems := by
  cases n with
  | stack axis nodes r => exact ⟨_, violations_stack axis nodes r, rfl⟩
  | split a s b t r =>
    obtain ⟨sum, x, adds, hx⟩ := sums a s b t r rfl
    exact ⟨_, violations_split a b r adds hx, splitProblems_eq_said adds hx⟩
  | tile t => exact ⟨_, violations_tile t, rfl⟩
  | list items k r => exact ⟨_, violations_list items k r, rfl⟩
  | separator axis r => exact ⟨[], ⟨fun _ => ⟨nofun, nofun⟩, .nil⟩, rfl⟩
  | bare r => exact ⟨[], ⟨fun _ => ⟨nofun, nofun⟩, .nil⟩, rfl⟩

/-- What a check finds wrong with a node is what the node violates, and it could be said. -/
theorem violations_of_nodeProblems {n : Node} {problems : List Problem}
    (h : nodeProblems p n = .ok problems) :
    (∀ a s b t r, n = .split a s b t r → s.Sums t) ∧ Violations p n problems ∧
      ∀ x ∈ problems, x.Sayable := by
  have sums : ∀ a s b t r, n = .split a s b t r → s.Sums t := by
    rintro a s b t r rfl
    exact sums_of_splitProblems h
  obtain ⟨problems', violations, said⟩ := exists_nodeProblems_eq_said (p := p) sums
  obtain ⟨sayable, rfl⟩ := said_eq_ok.mp (said.symm.trans h)
  exact ⟨sums, violations, sayable⟩

/-- A sum of shares, and a number that is too long, are all that can stop a check at a node. -/
theorem exists_nodeProblems_iff {n : Node} :
    (∃ problems, nodeProblems p n = .ok problems) ↔
      (∀ a s b t r, n = .split a s b t r → s.Sums t) ∧ ∀ x, Violates p n x → x.Sayable := by
  constructor
  · rintro ⟨problems, h⟩
    obtain ⟨sums, violations, sayable⟩ := violations_of_nodeProblems h
    exact ⟨sums, violations.forall_iff.mp sayable⟩
  · rintro ⟨sums, sayable⟩
    obtain ⟨problems, violations, said⟩ := exists_nodeProblems_eq_said (p := p) sums
    exact ⟨problems, said.trans (said_of_sayable (violations.forall_iff.mpr sayable))⟩

/-! ## What is wrong with a tree -/

/-- Where a check says at each site what it has to, it reports all of that or is stopped by the first
problem that it cannot say. -/
theorem report_eq_said {problems : Node → List Problem} {qs : List Site}
    (h : ∀ q ∈ qs, nodeProblems p q.node = said (problems q.node)) :
    report p qs = if ∀ q ∈ qs, ∀ x ∈ problems q.node, x.Sayable then
        .ok (qs.flatMap fun q => (problems q.node).map (Finding.mk q.path))
      else .error .tooManyDigits := by
  induction qs with
  | nil => exact (if_pos nofun).symm
  | cons q qs ih =>
    obtain ⟨own, rest⟩ := List.forall_mem_cons.mp h
    by_cases here : ∀ x ∈ problems q.node, x.Sayable
    · rw [report, nodeFindings, own, said_of_sayable here, ih rest]
      by_cases behind : ∀ r ∈ qs, ∀ x ∈ problems r.node, x.Sayable
      · rw [if_pos behind, if_pos (List.forall_mem_cons.mpr ⟨here, behind⟩)]
        rfl
      · rw [if_neg behind, if_neg fun all => behind (List.forall_mem_cons.mp all).2]
        rfl
    · rw [report, nodeFindings, own, said_of_not_sayable here,
        if_neg fun all => here (List.forall_mem_cons.mp all).1]
      rfl

end Check

namespace Node

open Check

/-- Everything that is wrong with the tree, on a display if one is given, can be written. -/
def Sayable (root : Node) (p : Option Profile) : Prop :=
  ∀ n ∈ root.walk, ∀ x, Violates p n x → x.Sayable

/-- Both shares of every split of the tree are doubles, of any value. -/
def SharesReal (root : Node) : Prop :=
  ∀ a s b t r, .split a s b t r ∈ root.walk → (∃ x, s = .real x) ∧ ∃ y, t = .real y

variable {root : Node}

theorem SharesReal.sums (h : root.SharesReal) :
    ∀ a s b t r, .split a s b t r ∈ root.walk → s.Sums t := by
  intro a s b t r hn
  obtain ⟨⟨x, rfl⟩, y, rfl⟩ := h a s b t r hn
  exact Share.sums_real x y

/-- **When a check returns**: every two shares have a sum that a double can stand for, and everything
that is wrong can be written. -/
theorem exists_check_iff_sayable {p : Option Profile} :
    (∃ fs, root.check p = .ok fs) ↔
      (∀ a s b t r, .split a s b t r ∈ root.walk → s.Sums t) ∧ root.Sayable p := by
  rw [exists_check_iff]
  simp only [exists_nodeProblems_iff]
  constructor
  · intro h
    exact ⟨fun a s b t r hn => (h _ hn).1 a s b t r rfl, fun n hn => (h n hn).2⟩
  · rintro ⟨sums, sayable⟩ n hn
    exact ⟨fun a s b t r hsplit => sums a s b t r (hsplit ▸ hn), sayable n hn⟩

/-- All that a check reports could be written. -/
theorem sayable_of_check {p : Option Profile} {fs : List Finding} (h : root.check p = .ok fs) :
    ∀ f ∈ fs, f.problem.Sayable := by
  intro f hf
  obtain ⟨_, _, _, problems, own, hx⟩ := (mem_check h f).mp hf
  exact (violations_of_nodeProblems own).2.2 _ hx

/-- A check of a tree whose shares add up is its list of violations, or the fault of one that cannot
be said. -/
theorem exists_check_eq (sums : ∀ a s b t r, .split a s b t r ∈ root.walk → s.Sums t)
    (p : Option Profile) :
    ∃ problems : Node → List Problem, (∀ n ∈ root.walk, Violations p n (problems n)) ∧
      root.check p = if ∀ n ∈ root.walk, ∀ x ∈ problems n, x.Sayable then
          .ok (root.sites.flatMap fun q => (problems q.node).map (Finding.mk q.path))
        else .error .tooManyDigits := by
  have known (n : Node) : ∃ problems, n ∈ root.walk →
      Violations p n problems ∧ nodeProblems p n = said problems := by
    by_cases hn : n ∈ root.walk
    · obtain ⟨problems, h⟩ := exists_nodeProblems_eq_said (p := p) fun a s b t r hsplit =>
        sums a s b t r (hsplit ▸ hn)
      exact ⟨problems, fun _ => h⟩
    · exact ⟨[], fun h => absurd h hn⟩
  choose problems hproblems using known
  refine ⟨problems, fun n hn => (hproblems n hn).1, ?_⟩
  have own : ∀ q ∈ root.sites, nodeProblems p q.node = said (problems q.node) :=
    fun q hq => (hproblems q.node (mem_walk_of_mem_sites hq)).2
  have everywhere : (∀ n ∈ root.walk, ∀ x ∈ problems n, x.Sayable) ↔
      ∀ q ∈ root.sites, ∀ x ∈ problems q.node, x.Sayable := by
    rw [← sites_node root "root", List.forall_mem_map, sites]
  rw [check, findings_eq_report, ← sites, report_eq_said own]
  simp only [everywhere]

/-- A check of a tree whose shares are doubles is stopped by nothing but a number that is too long. -/
theorem SharesReal.check_of_not_sayable (h : root.SharesReal) {p : Option Profile}
    (long : ¬ root.Sayable p) : root.check p = .error .tooManyDigits := by
  obtain ⟨problems, violations, hcheck⟩ := exists_check_eq h.sums p
  rw [hcheck, if_neg]
  exact fun sayable => long fun n hn => (violations n hn).forall_iff.mp (sayable n hn)

/-- **A check is complete and its paths tell nodes apart**, as far as it can be put into words. If
and only if everything that is wrong can be, it reports, node by node in document order and under
the path of each node, what that node violates, each problem once; otherwise it reports nothing. No
two nodes of the tree have one path. -/
theorem check_eq_violations_iff (reals : root.SharesReal) (p : Option Profile) :
    ∃ problems : Node → List Problem, (∀ n ∈ root.walk, Violations p n (problems n)) ∧
      (root.check p =
          .ok (root.sites.flatMap fun q => (problems q.node).map (Finding.mk q.path)) ↔
        ∀ n ∈ root.walk, ∀ x ∈ problems n, x.Sayable) ∧
      ((∃ n ∈ root.walk, ∃ x ∈ problems n, ¬ x.Sayable) →
        root.check p = .error .tooManyDigits) ∧
      root.sites.map Site.node = root.walk ∧ (root.sites.map Site.path).Nodup := by
  obtain ⟨problems, violations, hcheck⟩ := exists_check_eq reals.sums p
  refine ⟨problems, violations, ?_, ?_, sites_node root "root", nodup_sites root "root"⟩
  · rw [hcheck]
    constructor
    · intro reported
      by_contra long
      rw [if_neg long] at reported
      cases reported
    · exact fun sayable => if_pos sayable
  · rintro ⟨n, hn, x, hx, long⟩
    rw [hcheck, if_neg]
    exact fun sayable => long (sayable n hn x hx)

/-- A tree with something wrong in every place, below a node that has nothing wrong itself, and with
contents that look like parts of a path. -/
def faultyTree : Node :=
  .stack .vertical
    [.split (.stack .horizontal [] none) (.real .nan) (.tile (.ofContent "0/0:b")) (.real .one)
        none,
      .stack .horizontal [.separator .vertical none] none,
      .list [] 0 none,
      .tile ((Tile.ofContent "0:Horizontal").setFontSize 7)] none

/-- Each fault of the tree is reported, behind all the others. -/
theorem check_eq_violations_iff_faultyTree :
    ∃ problems : Node → List Problem,
      (∀ n ∈ faultyTree.walk, Violations (some Profile.waveshare2in9) n (problems n)) ∧
      (∀ n ∈ faultyTree.walk, ∀ x ∈ problems n, x.Sayable) ∧
      (faultyTree.sites.map Site.path).Nodup ∧
      faultyTree.sites.flatMap (fun q => (problems q.node).map (Finding.mk q.path)) =
        [⟨"root/0:Split", .improperShare .first (.real .nan)⟩,
          ⟨"root/0:Split", .shareSum (.real .nan)⟩,
          ⟨"root/0:Split/0:Horizontal", .emptyStack .horizontal⟩,
          ⟨"root/1:Horizontal", .onlySeparators .horizontal⟩,
          ⟨"root/2:ListWidget(0 items)", .noItems⟩,
          ⟨"root/2:ListWidget(0 items)", .visibleCount 0⟩,
          ⟨"root/3:Tile('0:Horizontal')", .sizeNotOffered 7 "waveshare_2in9"⟩] := by
  have reals : faultyTree.SharesReal := by
    intro a s b t r h
    simp only [faultyTree, walk, walkAll, List.mem_cons, List.mem_append, List.not_mem_nil,
      List.map_nil, reduceCtorEq, or_false, false_or, split.injEq] at h
    obtain ⟨-, rfl, -, rfl, -⟩ := h
    exact ⟨⟨_, rfl⟩, _, rfl⟩
  obtain ⟨problems, violations, complete, stopped, -, paths⟩ :=
    check_eq_violations_iff reals (some Profile.waveshare2in9)
  have returns : (faultyTree.check (some Profile.waveshare2in9)).toOption.isSome = true := by
    decide +kernel
  have sayable : ∀ n ∈ faultyTree.walk, ∀ x ∈ problems n, x.Sayable := by
    intro n hn x hx
    by_contra long
    rw [stopped ⟨n, hn, x, hx, long⟩] at returns
    cases returns
  refine ⟨problems, violations, sayable, paths, ?_⟩
  have found := congrArg Except.toOption (complete.mpr sayable)
  exact (Option.some.inj (Eq.trans (by decide +kernel) found)).symm

/-- A list that is to show fewer items than can be said. -/
def overlongList : Node := .list [.ofContent "a"] (-(Nat.pow 10 mostDigits : Nat)) none

theorem overlongList_not_sayable (p : Option Profile) : ¬ overlongList.Sayable p := by
  intro sayable
  have hidden : (-(Nat.pow 10 mostDigits : Nat) : Int) < 1 :=
    Int.lt_of_le_of_lt (Int.neg_nonpos_of_nonneg (Int.natCast_nonneg _)) Int.zero_lt_one
  have short : Writable (-(Nat.pow 10 mostDigits : Nat)) :=
    sayable overlongList List.mem_cons_self _ (.visibleCount hidden) _ List.mem_cons_self
  rw [writable_iff, Int.natAbs_neg, Int.natAbs_natCast] at short
  exact Nat.lt_irrefl _ short

theorem overlongList_sharesReal : overlongList.SharesReal := by
  intro a s b t r h
  simp only [overlongList, walk, List.map_cons, List.map_nil, List.mem_cons, List.not_mem_nil,
    reduceCtorEq, or_false] at h

/-- Of a list that shows less than can be said a check reports nothing, not even that. -/
theorem not_forall_check_eq_violations :
    ¬ ∀ (root : Node) (p : Option Profile), root.SharesReal →
      ∃ problems : Node → List Problem, (∀ n ∈ root.walk, Violations p n (problems n)) ∧
        root.check p =
          .ok (root.sites.flatMap fun q => (problems q.node).map (Finding.mk q.path)) := by
  intro complete
  obtain ⟨problems, _, hcheck⟩ := complete overlongList none overlongList_sharesReal
  rw [overlongList_sharesReal.check_of_not_sayable (overlongList_not_sayable none)] at hcheck
  cases hcheck

end Node

end PixelLayout
