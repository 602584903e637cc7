import Mathlib.Data.List.Nodup
import PixelLayout.Check

/-!
# The sites of a check

A check meets each node of a tree once, in document order, and knows it by a path from the root.
`Check.sites` lists the nodes with their paths, and `Check.report` puts together what is wrong with
each of them, one after the other.

**The law** (`findings_eq_report`): a check is the report on its sites. Paths do not repeat within a
tree (`nodup_sites`), though they hold the contents of tiles: the places on the way are numbers, and
a number ends at the first colon behind it. So a finding belongs to one node, and what is wrong with
a node can be read off the findings under its path (`exists_mem_check`).
-/

namespace PixelLayout

/-- A node and the path that leads to it. -/
structure Site where
  path : String
  node : Node

namespace Check

/-- The sites of the items of a list, from a place on. -/
def siteItems (path : String) : Nat → List Tile → List Site
  | _, [] => []
  | i, t :: ts => ⟨childPath path i (.tile t), .tile t⟩ :: siteItems path (i + 1) ts

mutual
/-- The sites of a node and all below it, in document order. -/
def sites : Node → String → List Site
  | .stack axis nodes r, path => ⟨path, .stack axis nodes r⟩ :: sitesAll path 0 nodes
  | .split a s b t r, path =>
    ⟨path, .split a s b t r⟩ :: (sites a (childPath path 0 a) ++ sites b (childPath path 1 b))
  | .list items k r, path => ⟨path, .list items k r⟩ :: siteItems path 0 items
  | .tile t, path => [⟨path, .tile t⟩]
  | .separator axis r, path => [⟨path, .separator axis r⟩]
  | .bare r, path => [⟨path, .bare r⟩]

/-- The sites of the children of a node from a place on, in document order. -/
def sitesAll (path : String) : Nat → List Node → List Site
  | _, [] => []
  | i, n :: ns => sites n (childPath path i n) ++ sitesAll path (i + 1) ns
end

/-- What is wrong with the nodes of several sites. -/
def report (p : Option Profile) : List Site → Except NumberFault (List Finding)
  | [] => .ok []
  | q :: qs => do
    let own ← nodeFindings p q.path q.node
    return own ++ (← report p qs)

end Check

/-- The sites of a tree, in document order. -/
def Node.sites (root : Node) : List Site := Check.sites root "root"

namespace Check

/-! ## The nodes of the sites -/

theorem siteItems_node (path : String) (i : Nat) (ts : List Tile) :
    (siteItems path i ts).map Site.node = ts.map .tile := by
  induction ts generalizing i with
  | nil => rfl
  | cons t ts ih => rw [siteItems, List.map_cons, ih, List.map_cons]

mutual
/-- A check meets each node once, in document order. -/
theorem sites_node : ∀ (n : Node) (path : String), (sites n path).map Site.node = n.walk
  | .stack axis nodes r, path => by
    rw [sites, List.map_cons, sitesAll_node, Node.walk]
  | .split a s b t r, path => by
    rw [sites, List.map_cons, List.map_append, sites_node a, sites_node b, Node.walk]
  | .list items k r, path => by
    rw [sites, List.map_cons, siteItems_node, Node.walk]
  | .tile _, _ => rfl
  | .separator _ _, _ => rfl
  | .bare _, _ => rfl
termination_by structural n => n

/-- A check meets each node below a node once, in document order. -/
theorem sitesAll_node (path : String) :
    ∀ (i : Nat) (ns : List Node), (sitesAll path i ns).map Site.node = Node.walkAll ns
  | _, [] => rfl
  | i, n :: ns => by
    rw [sitesAll, List.map_append, sites_node n, sitesAll_node path _ ns, Node.walkAll]
termination_by structural _ ns => ns
end

/-! ## The paths of the sites -/

/-- A path that leads through child `i` of the node at `path`. -/
def Below (path : String) (i : Nat) (q : Site) : Prop :=
  ∃ rest, q.path.toList = path.toList ++ '/' :: (Nat.toDigits 10 i ++ ':' :: rest)

/-- The digits of a number end at a colon. -/
theorem toDigits_append_colon_inj {i j : Nat} {s t : List Char}
    (h : Nat.toDigits 10 i ++ ':' :: s = Nat.toDigits 10 j ++ ':' :: t) : i = j := by
  have digits (n : Nat) (rest : List Char) :
      (Nat.toDigits 10 n ++ ':' :: rest).takeWhile Char.isDigit = Nat.toDigits 10 n := by
    rw [List.takeWhile_append_of_pos fun c hc =>
      Nat.isDigit_of_mem_toDigits (by decide) (by decide) hc]
    exact List.append_nil _
  rw [← toDigits_inj, ← digits i s, h, digits]

theorem Below.index_eq {path : String} {i j : Nat} {q r : Site} (hq : Below path i q)
    (hr : Below path j r) (h : q.path = r.path) : i = j := by
  obtain ⟨s, hs⟩ := hq
  obtain ⟨t, ht⟩ := hr
  rw [h, ht] at hs
  exact (toDigits_append_colon_inj (List.cons.inj (List.append_cancel_left hs)).2).symm

theorem Below.path_ne {path : String} {i : Nat} {q : Site} (hq : Below path i q) :
    q.path ≠ path := by
  intro h
  obtain ⟨s, hs⟩ := hq
  rw [h] at hs
  exact List.cons_ne_nil _ _ (List.append_right_eq_self.mp hs.symm)

/-- What lies at the path of child `i`, or below it, is below the node through child `i`. -/
theorem below_of_prefix {path : String} {i : Nat} {n : Node} {q : Site}
    (h : (childPath path i n).toList <+: q.path.toList) : Below path i q := by
  obtain ⟨rest, hrest⟩ := h
  refine ⟨n.describe.toList ++ rest, ?_⟩
  rw [← hrest]
  simp only [childPath, String.toList_append, Nat.toList_repr, List.append_assoc]
  rfl

theorem below_of_mem_siteItems {path : String} {i : Nat} {ts : List Tile} {q : Site}
    (hq : q ∈ siteItems path i ts) : ∃ j, i ≤ j ∧ Below path j q := by
  induction ts generalizing i with
  | nil => cases hq
  | cons t ts ih =>
    rcases List.mem_cons.mp hq with rfl | hq
    · exact ⟨i, Nat.le_refl i, below_of_prefix List.prefix_rfl⟩
    · obtain ⟨j, hj, hbelow⟩ := ih hq
      exact ⟨j, Nat.le_of_succ_le hj, hbelow⟩

mutual
/-- The paths of all sites of a node begin with the path of the node. -/
theorem prefix_of_mem_sites : ∀ (n : Node) (path : String) {q : Site}, q ∈ sites n path →
    path.toList <+: q.path.toList
  | .stack axis nodes r, path, q, hq => by
    rcases List.mem_cons.mp hq with rfl | hq
    · exact List.prefix_rfl
    · obtain ⟨_, _, rest, hrest⟩ := below_of_mem_sitesAll path 0 nodes hq
      exact ⟨_, hrest.symm⟩
  | .split a s b t r, path, q, hq => by
    rcases List.mem_cons.mp hq with rfl | hq
    · exact List.prefix_rfl
    rcases List.mem_append.mp hq with hq | hq
    · obtain ⟨rest, hrest⟩ := below_of_prefix (prefix_of_mem_sites a _ hq)
      exact ⟨_, hrest.symm⟩
    · obtain ⟨rest, hrest⟩ := below_of_prefix (prefix_of_mem_sites b _ hq)
      exact ⟨_, hrest.symm⟩
  | .list items k r, path, q, hq => by
    rcases List.mem_cons.mp hq with rfl | hq
    · exact List.prefix_rfl
    · obtain ⟨_, _, rest, hrest⟩ := below_of_mem_siteItems hq
      exact ⟨_, hrest.symm⟩
  | .tile _, _, _, hq => List.mem_singleton.mp hq ▸ List.prefix_rfl
  | .separator _ _, _, _, hq => List.mem_singleton.mp hq ▸ List.prefix_rfl
  | .bare _, _, _, hq => List.mem_singleton.mp hq ▸ List.prefix_rfl
termination_by structural n => n

/-- The sites from child `i` on lie below the node, through child `i` or a later one. -/
theorem below_of_mem_sitesAll (path : String) : ∀ (i : Nat) (ns : List Node) {q : Site},
    q ∈ sitesAll path i ns → ∃ j, i ≤ j ∧ Below path j q
  | _, [], _, hq => nomatch hq
  | i, n :: ns, q, hq => by
    rcases List.mem_append.mp hq with hq | hq
    · exact ⟨i, Nat.le_refl i, below_of_prefix (prefix_of_mem_sites n _ hq)⟩
    · obtain ⟨j, hj, hbelow⟩ := below_of_mem_sitesAll path (i + 1) ns hq
      exact ⟨j, Nat.le_of_succ_le hj, hbelow⟩
termination_by structural _ ns => ns
end

theorem below_of_mem_sites {path : String} {i : Nat} {n : Node} {q : Site}
    (hq : q ∈ sites n (childPath path i n)) : Below path i q :=
  below_of_prefix (prefix_of_mem_sites n _ hq)

/-- The sites of a child and those of later children have no path in common. -/
theorem nodup_append_children {path : String} {i : Nat} {here rest : List Site}
    (hhere : ∀ q ∈ here, Below path i q) (hrest : ∀ q ∈ rest, ∃ j, i < j ∧ Below path j q)
    (dhere : (here.map Site.path).Nodup) (drest : (rest.map Site.path).Nodup) :
    ((here ++ rest).map Site.path).Nodup := by
  rw [List.map_append]
  refine List.nodup_append.mpr ⟨dhere, drest, ?_⟩
  intro a ha b hb same
  obtain ⟨q, hq, rfl⟩ := List.mem_map.mp ha
  obtain ⟨r, hr, rfl⟩ := List.mem_map.mp hb
  obtain ⟨j, hj, hbelow⟩ := hrest r hr
  exact Nat.ne_of_lt hj ((hhere q hq).index_eq hbelow same)

/-- The path of a node and those of the sites below it are different. -/
theorem nodup_cons_children {path : String} {n : Node} {rest : List Site}
    (hrest : ∀ q ∈ rest, ∃ i, Below path i q) (drest : (rest.map Site.path).Nodup) :
    (((⟨path, n⟩ : Site) :: rest).map Site.path).Nodup := by
  rw [List.map_cons, List.nodup_cons]
  refine ⟨?_, drest⟩
  intro hmem
  obtain ⟨q, hq, hpath⟩ := List.mem_map.mp hmem
  obtain ⟨i, hbelow⟩ := hrest q hq
  exact hbelow.path_ne hpath

theorem nodup_siteItems (path : String) (i : Nat) (ts : List Tile) :
    ((siteItems path i ts).map Site.path).Nodup := by
  induction ts generalizing i with
  | nil => exact List.nodup_nil
  | cons t ts ih =>
    have first : ∀ q ∈ [(⟨childPath path i (.tile t), .tile t⟩ : Site)], Below path i q := by
      intro q hq
      rw [List.mem_singleton.mp hq]
      exact below_of_prefix List.prefix_rfl
    exact nodup_append_children first (fun q hq => below_of_mem_siteItems hq)
      (List.nodup_singleton _) (ih (i + 1))

mutual
/-- No two sites of a tree have one path. -/
theorem nodup_sites : ∀ (n : Node) (path : String), ((sites n path).map Site.path).Nodup
  | .stack axis nodes r, path =>
    nodup_cons_children
      (fun q hq => (below_of_mem_sitesAll path 0 nodes hq).imp fun _ h => h.2)
      (nodup_sitesAll path 0 nodes)
  | .split a s b t r, path => by
    refine nodup_cons_children ?_
      (nodup_append_children (fun q hq => below_of_mem_sites hq)
        (fun q hq => ⟨1, Nat.zero_lt_one, below_of_mem_sites hq⟩)
        (nodup_sites a _) (nodup_sites b _))
    intro q hq
    rcases List.mem_append.mp hq with hq | hq
    · exact ⟨0, below_of_mem_sites hq⟩
    · exact ⟨1, below_of_mem_sites hq⟩
  | .list items k r, path =>
    nodup_cons_children (fun q hq => (below_of_mem_siteItems hq).imp fun _ h => h.2)
      (nodup_siteItems path 0 items)
  | .tile _, _ => List.nodup_singleton _
  | .separator _ _, _ => List.nodup_singleton _
  | .bare _, _ => List.nodup_singleton _
termination_by structural n => n

theorem nodup_sitesAll (path : String) :
    ∀ (i : Nat) (ns : List Node), ((sitesAll path i ns).map Site.path).Nodup
  | _, [] => List.nodup_nil
  | i, n :: ns =>
    nodup_append_children (fun _ hq => below_of_mem_sites hq)
      (fun _ hq => below_of_mem_sitesAll path (i + 1) ns hq)
      (nodup_sites n _) (nodup_sitesAll path (i + 1) ns)
termination_by structural _ ns => ns
end

/-! ## Reports -/

variable {p : Option Profile}

theorem report_append (qs rs : List Site) :
    report p (qs ++ rs) = do return (← report p qs) ++ (← report p rs) := by
  induction qs with
  | nil =>
    cases h : report p rs <;> simp only [List.nil_append, report, h] <;> rfl
  | cons q qs ih =>
    rw [List.cons_append, report, ih, report]
    cases nodeFindings p q.path q.node <;> cases report p qs <;> cases report p rs <;>
      simp only [bind, Except.bind, pure, Except.pure, List.append_assoc]

theorem report_singleton (q : Site) : report p [q] = nodeFindings p q.path q.node := by
  rw [report, report]
  cases nodeFindings p q.path q.node with
  | error e => rfl
  | ok own => exact congrArg Except.ok (List.append_nil own)

theorem report_siteItems (path : String) (i : Nat) (ts : List Tile) :
    report p (siteItems path i ts) = itemFindings p path i ts := by
  induction ts generalizing i with
  | nil => rfl
  | cons t ts ih => rw [siteItems, report, ih, itemFindings]

mutual
/-- **A check reports on its sites**, one after the other. -/
theorem findings_eq_report :
    ∀ (n : Node) (path : String), findings p n path = report p (sites n path)
  | .stack axis nodes r, path => by
    rw [findings, sites, report, findingsAll_eq_report]
  | .split a s b t r, path => by
    rw [findings, sites, report, findings_eq_report a, findings_eq_report b, report_append]
    cases nodeFindings p path (.split a s b t r) <;>
      cases report p (sites a (childPath path 0 a)) <;>
      cases report p (sites b (childPath path 1 b)) <;> rfl
  | .list items k r, path => by
    rw [findings, sites, report, report_siteItems]
  | .tile t, path => by rw [findings, sites, report_singleton]
  | .separator axis r, path => by rw [findings, sites, report_singleton]
  | .bare r, path => by rw [findings, sites, report_singleton]
termination_by structural n => n

theorem findingsAll_eq_report (path : String) :
    ∀ (i : Nat) (ns : List Node), findingsAll p path i ns = report p (sitesAll path i ns)
  | _, [] => rfl
  | i, n :: ns => by
    rw [findingsAll, sitesAll, report_append, findings_eq_report n,
      findingsAll_eq_report path (i + 1) ns]
termination_by structural _ ns => ns
end

/-- A report on several sites is that on the first of them and that on the others. -/
theorem report_cons_eq_ok {q : Site} {qs : List Site} {fs : List Finding} :
    report p (q :: qs) = .ok fs ↔ ∃ problems rest, nodeProblems p q.node = .ok problems ∧
      report p qs = .ok rest ∧ fs = problems.map (Finding.mk q.path) ++ rest := by
  rw [report, nodeFindings]
  cases nodeProblems p q.node <;> cases report p qs <;>
    simp only [bind, Except.bind, pure, Except.pure, Except.map, reduceCtorEq, exists_const,
      exists_and_left, exists_eq_left', false_and, and_false, Except.ok.injEq,
      eq_comm]

/-- A report is made if nothing stops it at any of its sites. -/
theorem exists_report_iff {qs : List Site} :
    (∃ fs, report p qs = .ok fs) ↔ ∀ q ∈ qs, ∃ problems, nodeProblems p q.node = .ok problems := by
  induction qs with
  | nil => exact ⟨fun _ _ hq => (nomatch hq), fun _ => ⟨[], rfl⟩⟩
  | cons q qs ih =>
    rw [List.forall_mem_cons, ← ih]
    constructor
    · rintro ⟨fs, h⟩
      obtain ⟨problems, rest, hown, hrest, _⟩ := report_cons_eq_ok.mp h
      exact ⟨⟨problems, hown⟩, rest, hrest⟩
    · rintro ⟨⟨problems, hown⟩, rest, hrest⟩
      exact ⟨_, report_cons_eq_ok.mpr ⟨problems, rest, hown, hrest, rfl⟩⟩

/-- A report holds, under the path of each of its sites, what is wrong with its node. -/
theorem mem_report {qs : List Site} {fs : List Finding} (h : report p qs = .ok fs) (f : Finding) :
    f ∈ fs ↔ ∃ q ∈ qs, f.path = q.path ∧
      ∃ problems, nodeProblems p q.node = .ok problems ∧ f.problem ∈ problems := by
  induction qs generalizing fs with
  | nil =>
    cases h
    exact ⟨fun hf => (nomatch hf), fun ⟨_, hq, _⟩ => (nomatch hq)⟩
  | cons q qs ih =>
    obtain ⟨problems, rest, hown, hrest, rfl⟩ := report_cons_eq_ok.mp h
    have own : f ∈ problems.map (Finding.mk q.path) ↔ f.path = q.path ∧ f.problem ∈ problems := by
      rw [List.mem_map]
      constructor
      · rintro ⟨x, hx, rfl⟩
        exact ⟨rfl, hx⟩
      · rintro ⟨hpath, hx⟩
        exact ⟨f.problem, hx, by rw [← hpath]⟩
    rw [List.mem_append, own, ih hrest, List.exists_mem_cons_iff, hown]
    simp only [Except.ok.injEq, exists_eq_left']

end Check

namespace Node

open Check

variable {root : Node} {p : Option Profile}

/-- A check returns if no node of the tree stops it. -/
theorem exists_check_iff :
    (∃ fs, root.check p = .ok fs) ↔
      ∀ n ∈ root.walk, ∃ problems, nodeProblems p n = .ok problems := by
  rw [check, findings_eq_report, exists_report_iff, ← sites_node root "root"]
  simp only [List.forall_mem_map]

/-- A check that returns holds, under the path of each site, what is wrong with its node. -/
theorem mem_check {fs : List Finding} (h : root.check p = .ok fs) (f : Finding) :
    f ∈ fs ↔ ∃ q ∈ root.sites, f.path = q.path ∧
      ∃ problems, nodeProblems p q.node = .ok problems ∧ f.problem ∈ problems := by
  rw [check, findings_eq_report] at h
  exact mem_report h f

theorem mem_walk_of_mem_sites {q : Site} (hq : q ∈ root.sites) : q.node ∈ root.walk := by
  rw [← sites_node root "root"]
  exact List.mem_map_of_mem hq

/-- **What is wrong with a node is what a check finds under its path**, if the check returns. -/
theorem exists_mem_check {fs : List Finding} (h : root.check p = .ok fs) {q : Site}
    (hq : q ∈ root.sites) (P : Problem → Prop) :
    (∃ f ∈ fs, f.path = q.path ∧ P f.problem) ↔
      ∃ problems, nodeProblems p q.node = .ok problems ∧ ∃ x ∈ problems, P x := by
  constructor
  · rintro ⟨f, hf, hpath, hP⟩
    obtain ⟨r, hr, hpath', problems, hproblems, hx⟩ := (mem_check h f).mp hf
    have same : r = q := List.inj_on_of_nodup_map (nodup_sites root "root") hr hq
      (hpath'.symm.trans hpath)
    rw [← same]
    exact ⟨problems, hproblems, f.problem, hx, hP⟩
  · rintro ⟨problems, hproblems, x, hx, hP⟩
    exact ⟨⟨q.path, x⟩, (mem_check h _).mpr ⟨q, hq, rfl, problems, hproblems, hx⟩, rfl, hP⟩

end Node

end PixelLayout
