import PixelLayout.Proofs.RuleEdges

/-!
# Refreshes leave rules alone

The refresh of a tile redraws the tile without its outermost pixels, so that rules beside the tile
stay on the display. Rules lie in two ways in a stack. A **crosswise** rule runs across the stack,
at the near edge of a slot; it may come last, and then lies at the far edge of the last slot. A
**lengthwise** rule runs along the stack, in the middle of the other axis, and so through the middle
of the slot behind it. It needs a child there that leaves the middle free: a stack along the other
axis with exactly two slots (`Node.RulesPaired`).

**The law** (`refreshesSpareRules_of_resolve`): under that condition no refresh of a tile or an
item of a list shares a pixel with any rule of the tree. The rules of a tree stay inside its area
but for the one pixel of their thickness (`rules_within`), so two areas that are apart never disturb
each other (`Rect.Apart.spares`), and what is left is a rule and the children of its own stack.
-/

namespace PixelLayout

/-- No margin is negative. -/
def Profile.MarginsNonNeg (p : Profile) : Prop :=
  0 ≤ p.horizontalSeparatorMargin ∧ 0 ≤ p.verticalSeparatorMargin ∧ 0 ≤ p.listItemMargin

instance (p : Profile) : Decidable p.MarginsNonNeg := inferInstanceAs (Decidable (_ ∧ _ ∧ _))

theorem Profile.MarginsNonNeg.separator {p : Profile} (h : p.MarginsNonNeg) (axis : Axis) :
    0 ≤ p.separatorMargin axis := by
  cases axis
  · exact h.2.1
  · exact h.1

namespace Pass

/-- The next of the nodes that takes a slot is a stack across the axis, with exactly two slots. -/
def NextIsPair (axis : Axis) (ns : List Node) : Prop :=
  match ns.find? fun n => !n.isSeparator with
  | some (.stack across inner _) => across = axis.swap ∧ slotCount inner = 2
  | _ => False

/-- Each lengthwise rule of a stack comes before such a pair. -/
def RulesPaired (axis : Axis) : List Node → Prop
  | [] => True
  | n :: ns => (n.kind = .separator axis → NextIsPair axis ns) ∧ RulesPaired axis ns

instance (axis : Axis) (ns : List Node) : Decidable (NextIsPair axis ns) := by
  unfold NextIsPair
  split <;> infer_instance

instance decidableRulesPaired (axis : Axis) : DecidablePred (RulesPaired axis)
  | [] => .isTrue trivial
  | _ :: ns =>
    have := decidableRulesPaired axis ns
    inferInstanceAs (Decidable (_ ∧ _))

theorem exists_next_of_pair {axis : Axis} {ns : List Node} (h : NextIsPair axis ns) :
    ∃ inner r, (ns.find? fun n => !n.isSeparator) = some (.stack axis.swap inner r) ∧
      slotCount inner = 2 := by
  unfold NextIsPair at h
  split at h
  next across inner r found => exact ⟨inner, r, by rw [found, h.1], h.2⟩
  next => exact h.elim

theorem RulesPaired.followed {axis : Axis} {ns : List Node} (h : RulesPaired axis ns) :
    RulesFollowed axis ns := by
  induction ns with
  | nil => trivial
  | cons n ns ih =>
    refine ⟨?_, ih h.2⟩
    intro lengthwise
    obtain ⟨inner, r, found, _⟩ := exists_next_of_pair (h.1 lengthwise)
    exact ⟨_, List.mem_of_find?_eq_some found, rfl⟩

end Pass

/-- If the node is a stack, each of its lengthwise rules comes before a pair. -/
def Node.RulesPaired : Node → Prop
  | .stack axis nodes _ => Pass.RulesPaired axis nodes
  | _ => True

instance : DecidablePred Node.RulesPaired
  | .stack axis nodes _ => inferInstanceAs (Decidable (Pass.RulesPaired axis nodes))
  | .split .. | .tile _ | .separator .. | .list .. | .bare _ => .isTrue trivial

/-- The visit is one to a separator, which becomes the given rule. -/
def Visit.Draws (p : Profile) (v : Visit) (s : Rect) : Prop :=
  ∃ axis r, v.node = .separator axis r ∧
    Pass.rule axis (p.separatorMargin axis) v.area = .ok s

theorem Visit.Draws.along {p : Profile} {v : Visit} {s : Rect} (h : v.Draws p s) :
    ∃ axis, v.DrawsAlong p axis s := by
  obtain ⟨axis, r, hnode, hrule⟩ := h
  exact ⟨axis, ⟨r, hnode⟩, hrule⟩

theorem Visit.Draws.isSeparator {p : Profile} {v : Visit} {s : Rect} (h : v.Draws p s) :
    v.node.isSeparator = true := by
  obtain ⟨axis, h⟩ := h.along
  exact h.isSeparator

/-- A visit at which nothing leaves its area and no lengthwise rule stands alone. -/
structure Visit.Orderly (p : Profile) (v : Visit) : Prop extends v.Regular p where
  paired : v.node.RulesPaired

theorem Node.RulesPaired.followed {n : Node} (h : n.RulesPaired) : n.RulesFollowed := by
  cases n with
  | stack axis nodes r => exact Pass.RulesPaired.followed h
  | _ => trivial

theorem Visit.Orderly.steady {p : Profile} {v : Visit} (h : v.Orderly p) : v.Steady p :=
  ⟨h.goes, h.cut, h.paired.followed⟩

namespace Pass

/-! ## One rule -/

/-- A crosswise rule lies at the near edge of its slot. -/
theorem crosswise_within {axis along : Axis} (hcross : along ≠ axis) {margin : Int} {d s : Rect}
    (hmargin : 0 ≤ margin) {length : Int} {k : Nat} {r : Option Rect}
    (h : rule along margin (slot axis d length k (.separator along r)) = .ok s) :
    (d.band axis (k * length) (k * length)).grown.Contains s :=
  grown_contains_rule h (crosswise_edge hcross hmargin h)

/-- A lengthwise rule lies inside its slot, but for the pixel of its thickness. -/
theorem lengthwise_within {axis : Axis} {margin : Int} {d s : Rect} (hd : d.NonNeg)
    (hmargin : 0 ≤ margin) {length : Int} {k : Nat} {r : Option Rect}
    (h : rule axis margin (slot axis d length k (.separator axis r)) = .ok s) :
    (d.band axis (k * length) ((k + 1) * length)).grown.Contains s :=
  grown_contains_rule h (lengthwise_edge hd hmargin h)

/-- A lengthwise rule runs between the two halves of its slot across the stack. -/
theorem lengthwise_spared {axis : Axis} {margin : Int} {d s t : Rect} {length : Int} {k : Nat}
    {r : Option Rect} (h : rule axis margin (slot axis d length k (.separator axis r)) = .ok s)
    {lo hi : Int} {j : Nat} (hj : j < 2)
    (ht : ((d.band axis lo hi).band axis.swap (j * (extent axis.swap (d.band axis lo hi) / 2))
      ((j + 1) * (extent axis.swap (d.band axis lo hi) / 2))).Contains t) : t.Spares s := by
  obtain ⟨_, rfl⟩ := rule_eq_ok_iff.mp h
  obtain rfl | rfl : j = 0 ∨ j = 1 := by omega
  all_goals
    cases axis <;>
      simp only [slot, Rect.band, Rect.Contains, Rect.Spares, Rect.right, Rect.bottom, extent,
        Axis.swap] at ht ⊢ <;> omega

/-! ## Where the rules of a tree are -/

/-- The rules of a tree lie inside its area, but for the one pixel of their thickness. -/
theorem rules_within {p : Profile} (hp : p.MarginsNonNeg) (n : Node) (d : Rect) (hd : d.NonNeg)
    (orderly : ∀ v ∈ visits p n d, v.Orderly p) (v : Visit) (hv : v ∈ visits p n d) (s : Rect)
    (hs : v.Draws p s) : d.grown.Contains s := by
  obtain ⟨along, hs⟩ := hs.along
  have steady := fun u hu => (orderly u hu).steady
  exact grown_contains_rule hs.2 (edges_within hp.separator n d hd steady v hv along s hs)

/-- The rules of some children of a stack lie in the band of their slots, but for the one pixel of
their thickness. -/
theorem rulesAll_within {p : Profile} (hp : p.MarginsNonNeg) (axis : Axis) (d : Rect) (length : Int)
    (hd : d.NonNeg) (hlength : 0 ≤ length) (k : Nat) (ns : List Node) (paired : RulesPaired axis ns)
    (orderly : ∀ v ∈ visitsAll p axis d length k ns, v.Orderly p) (v : Visit)
    (hv : v ∈ visitsAll p axis d length k ns) (s : Rect) (hs : v.Draws p s) :
    (d.band axis (k * length) ((k + slotCount ns : Nat) * length)).grown.Contains s := by
  obtain ⟨along, hs⟩ := hs.along
  have steady := fun u hu => (orderly u hu).steady
  exact grown_contains_rule hs.2 (edgesAll_within hp.separator axis d length hd hlength k ns
    paired.followed steady v hv along s hs)

/-! ## What refreshes spare -/

/-- The first child that takes a slot is visited in the next one. -/
theorem mem_visitsAll_of_next {p : Profile} {axis : Axis} {d : Rect} {length : Int} {k : Nat}
    {ns : List Node} {n : Node} (found : (ns.find? fun n => !n.isSeparator) = some n) {v : Visit}
    (hv : v ∈ visits p n (d.band axis (k * length) ((k + 1) * length))) :
    v ∈ visitsAll p axis d length k ns := by
  induction ns with
  | nil => cases found
  | cons m ms ih =>
    cases hm : m.isSeparator with
    | true =>
      obtain ⟨along, r, rfl⟩ := Node.exists_of_isSeparator hm
      rw [List.find?_cons_of_neg (by rw [hm]; exact Bool.false_ne_true)] at found
      exact List.mem_cons_of_mem _ (ih found)
    | false =>
      rw [List.find?_cons_of_pos (by rw [hm]; rfl), Option.some.injEq] at found
      subst found
      rw [visitsAll_cons_slot p axis d length k hm]
      exact List.mem_append_left _ hv

/-- What is below some children of a stack is below the first of them that takes a slot, or lies in
the band of a later slot. -/
theorem visitsAll_next {p : Profile} (hmargin : 0 ≤ p.listItemMargin) (axis : Axis) (d : Rect)
    (length : Int) (hd : d.NonNeg) (hlength : 0 ≤ length) (k : Nat) {ns : List Node} {n : Node}
    (found : (ns.find? fun n => !n.isSeparator) = some n)
    (regular : ∀ v ∈ visitsAll p axis d length k ns, v.Regular p) {v : Visit}
    (hv : v ∈ visitsAll p axis d length k ns) (hsep : v.node.isSeparator = false) :
    v ∈ visits p n (d.band axis (k * length) ((k + 1) * length)) ∨
      ∃ j : Nat, k < j ∧ (d.band axis (j * length) ((j + 1) * length)).Contains v.area := by
  induction ns with
  | nil => cases hv
  | cons m ms ih =>
    cases hm : m.isSeparator with
    | true =>
      obtain ⟨along, r, rfl⟩ := Node.exists_of_isSeparator hm
      rw [List.find?_cons_of_neg (by rw [hm]; exact Bool.false_ne_true)] at found
      rw [visitsAll_cons_separator] at regular hv
      rcases List.mem_cons.mp hv with rfl | hv
      · cases hsep
      · exact ih found (List.forall_mem_cons.mp regular).2 hv
    | false =>
      rw [List.find?_cons_of_pos (by rw [hm]; rfl), Option.some.injEq] at found
      subst found
      rw [visitsAll_cons_slot p axis d length k hm] at regular hv
      rcases List.mem_append.mp hv with hv | hv
      · exact .inl hv
      · obtain ⟨_, j, hj, _, hin⟩ := visitsAll_band hmargin axis d length hd hlength (k + 1) ms
          (List.forall_mem_append.mp regular).2 v hv hsep
        exact .inr ⟨j, hj, hin⟩

/-- Refreshes behind a crosswise rule of a stack spare it. -/
theorem crosswise_spared {p : Profile} (hp : p.MarginsNonNeg) {axis along : Axis}
    (hcross : along ≠ axis) {d s : Rect} {length : Int} (hd : d.NonNeg) (hlength : 0 ≤ length)
    {k : Nat} {r : Option Rect} {ns : List Node}
    (h : rule along (p.separatorMargin along) (slot axis d length k (.separator along r)) = .ok s)
    (regular : ∀ v ∈ visitsAll p axis d length k ns, v.Regular p) {v : Visit}
    (hv : v ∈ visitsAll p axis d length k ns) (hsep : v.node.isSeparator = false) :
    v.area.Spares s := by
  obtain ⟨_, j, hj, _, hin⟩ :=
    visitsAll_band hp.2.2 axis d length hd hlength k ns regular v hv hsep
  exact (Rect.band_apart axis d (slot_le hlength hj)).symm.spares hin
    (crosswise_within hcross (hp.separator along) h)

/-- Refreshes behind a lengthwise rule of a stack spare it, if the next slot holds a pair. -/
theorem lengthwise_spared_of_pair {p : Profile} (hp : p.MarginsNonNeg) {axis : Axis} {d s : Rect}
    {length : Int} (hd : d.NonNeg) (hlength : 0 ≤ length) {k : Nat} {r : Option Rect}
    {ns : List Node} (hpair : NextIsPair axis ns)
    (h : rule axis (p.separatorMargin axis) (slot axis d length k (.separator axis r)) = .ok s)
    (regular : ∀ v ∈ visitsAll p axis d length k ns, v.Regular p) {v : Visit}
    (hv : v ∈ visitsAll p axis d length k ns) (htile : v.IsTile) : v.area.Spares s := by
  obtain ⟨inner, q, found, hcount⟩ := exists_next_of_pair hpair
  have hslot := slot_nonNeg axis hd hlength k
  rcases visitsAll_next hp.2.2 axis d length hd hlength k found regular hv htile.not_separator with
    hv | ⟨j, hj, hin⟩
  · have regular' := fun w hw => regular w (mem_visitsAll_of_next found hw)
    have hlength' := slot_length_nonneg hslot axis.swap (slotCount inner)
    rw [visits] at hv regular'
    rcases List.mem_cons.mp hv with rfl | hv
    · obtain ⟨t, ht⟩ := htile
      cases ht
    · obtain ⟨_, j, _, hj, hin⟩ := visitsAll_band hp.2.2 axis.swap _ _ hslot hlength' 0 inner
        (List.forall_mem_cons.mp regular').2 v hv htile.not_separator
      rw [hcount] at hj hin
      exact lengthwise_spared h (by omega) hin
  · exact (Rect.band_apart axis d (slot_end_le hlength hj)).symm.spares hin
      (lengthwise_within hd (hp.separator axis) h)

mutual
/-- **A refresh of any tile of a tree spares every rule of the tree.** By induction on the tree.
Over a stack there are four cases, by whether the tile and the rule are below the child or behind
it. -/
theorem visits_spare {p : Profile} (hp : p.MarginsNonNeg) : ∀ (n : Node) (d : Rect), d.NonNeg →
    (∀ v ∈ visits p n d, v.Orderly p) → ∀ v ∈ visits p n d, ∀ w ∈ visits p n d,
      v.IsTile → ∀ s, w.Draws p s → v.area.Spares s
  | .stack axis nodes r, d, hd, orderly, v, hv, w, hw, htile, s, hs => by
    rw [visits] at orderly hv hw
    obtain ⟨own, below⟩ := List.forall_mem_cons.mp orderly
    rcases List.mem_cons.mp hv with rfl | hv
    · obtain ⟨t, ht⟩ := htile
      cases ht
    rcases List.mem_cons.mp hw with rfl | hw
    · cases hs.isSeparator
    exact visitsAll_spare hp axis d _ hd (slot_length_nonneg hd axis _) 0 nodes own.paired below
      v hv w hw htile s hs
  | .split a s' b t r, d, hd, orderly, v, hv, w, hw, htile, s, hs => by
    rw [visits] at orderly hv hw
    obtain ⟨own, below⟩ := List.forall_mem_cons.mp orderly
    obtain ⟨hfirst, hsecond⟩ := List.forall_mem_append.mp below
    obtain ⟨⟨hupper, _⟩, hlower, _⟩ := split_parts hd (own.cut rfl)
    rcases List.mem_cons.mp hv with rfl | hv
    · obtain ⟨t, ht⟩ := htile
      cases ht
    rcases List.mem_cons.mp hw with rfl | hw
    · cases hs.isSeparator
    have inUpper (u : Visit) (hu : u ∈ visits p a (upperPart s' d)) :=
      visits_within hp.2.2 a _ hupper (fun u hu => (hfirst u hu).toRegular) u hu
    have inLower (u : Visit) (hu : u ∈ visits p b (lowerPart s' d)) :=
      visits_within hp.2.2 b _ hlower (fun u hu => (hsecond u hu).toRegular) u hu
    rcases List.mem_append.mp hv with hv | hv <;> rcases List.mem_append.mp hw with hw | hw
    · exact visits_spare hp a _ hupper hfirst v hv w hw htile s hs
    · exact (parts_apart s' d).spares (inUpper v hv htile.not_separator).2
        (rules_within hp b _ hlower hsecond w hw s hs)
    · exact (parts_apart s' d).symm.spares (inLower v hv htile.not_separator).2
        (rules_within hp a _ hupper hfirst w hw s hs)
    · exact visits_spare hp b _ hlower hsecond v hv w hw htile s hs
  | .list items k r, d, _, _, v, _, w, hw, _, s, hs => by
    rw [visits] at hw
    rcases List.mem_cons.mp hw with rfl | hw
    · cases hs.isSeparator
    · obtain ⟨_, hs⟩ := hs.along
      exact absurd hs (not_drawsAlong_of_mem_visitItems hw)
  | .tile t, d, _, _, v, _, w, hw, _, s, hs => by
    rw [visits, List.mem_singleton] at hw
    subst hw
    cases hs.isSeparator
  | .separator axis r, d, _, _, v, hv, w, _, htile, s, _ => by
    rw [visits, List.mem_singleton] at hv
    subst hv
    obtain ⟨t, ht⟩ := htile
    cases ht
  | .bare r, d, _, _, v, _, w, hw, _, s, hs => by
    rw [visits, List.mem_singleton] at hw
    subst hw
    cases hs.isSeparator
termination_by structural n => n

/-- A refresh of any tile below some children of a stack spares every rule there. -/
theorem visitsAll_spare {p : Profile} (hp : p.MarginsNonNeg) (axis : Axis) (d : Rect) (length : Int)
    (hd : d.NonNeg) (hlength : 0 ≤ length) : ∀ (k : Nat) (ns : List Node), RulesPaired axis ns →
      (∀ v ∈ visitsAll p axis d length k ns, v.Orderly p) →
      ∀ v ∈ visitsAll p axis d length k ns, ∀ w ∈ visitsAll p axis d length k ns,
        v.IsTile → ∀ s, w.Draws p s → v.area.Spares s
  | _, [], _, _, v, hv, _, _, _, _, _ => absurd hv List.not_mem_nil
  | k, n :: ns, hpaired, orderly, v, hv, w, hw, htile, s, hs => by
    obtain ⟨hnext, hpaired⟩ := hpaired
    cases hn : n.isSeparator with
    | true =>
      obtain ⟨along, r, rfl⟩ := Node.exists_of_isSeparator hn
      rw [visitsAll_cons_separator] at orderly hv hw
      have rest := (List.forall_mem_cons.mp orderly).2
      have regular := fun u hu => (rest u hu).toRegular
      rcases List.mem_cons.mp hv with rfl | hv
      · obtain ⟨t, ht⟩ := htile
        cases ht
      rcases List.mem_cons.mp hw with rfl | hw
      · obtain ⟨_, _, hnode, hrule⟩ := hs
        cases hnode
        by_cases hcross : along = axis
        · subst hcross
          exact lengthwise_spared_of_pair hp hd hlength (hnext rfl) hrule regular hv htile
        · exact crosswise_spared hp hcross hd hlength hrule regular hv htile.not_separator
      · exact visitsAll_spare hp axis d length hd hlength k ns hpaired rest v hv w hw htile s hs
    | false =>
      rw [visitsAll_cons_slot p axis d length k hn] at orderly hv hw
      obtain ⟨hhere, hrest⟩ := List.forall_mem_append.mp orderly
      have hslot := slot_nonNeg axis hd hlength k
      rcases List.mem_append.mp hv with hv | hv <;> rcases List.mem_append.mp hw with hw | hw
      · exact visits_spare hp n _ hslot hhere v hv w hw htile s hs
      · have hin := (visits_within hp.2.2 n _ hslot (fun u hu => (hhere u hu).toRegular) v hv
          htile.not_separator).2
        have hrule := rulesAll_within hp axis d length hd hlength (k + 1) ns hpaired hrest w hw s hs
        exact (Rect.band_apart axis d (Int.le_of_eq (by rw [Int.natCast_succ]))).spares hin hrule
      · obtain ⟨_, j, hj, _, hin⟩ := visitsAll_band hp.2.2 axis d length hd hlength (k + 1) ns
          (fun u hu => (hrest u hu).toRegular) v hv htile.not_separator
        have hrule := rules_within hp n _ hslot hhere w hw s hs
        exact (Rect.band_apart axis d (slot_end_le hlength hj)).symm.spares hin hrule
      · exact visitsAll_spare hp axis d length hd hlength (k + 1) ns hpaired hrest v hv w hw htile s
          hs
termination_by structural _ ns => ns
end

end Pass

/-! ## The emitted blocks -/

namespace DrawCode

/-- The end of a block, which gives the area that a refresh redraws. -/
def refreshLine (area : Refresh) : String :=
  "    \x7b" ++ area.left.repr ++ ", " ++ area.top.repr ++ ", " ++ area.right.repr ++ ", " ++
    area.bottom.repr ++ "\x7d);\n\n"

theorem append_refreshLine (head : String) (area : Refresh) :
    head ++ refreshLine area = head ++ "    \x7b" ++ area.left.repr ++ ", " ++ area.top.repr ++
      ", " ++ area.right.repr ++ ", " ++ area.bottom.repr ++ "\x7d);\n\n" := by
  simp only [refreshLine, String.append_assoc]

/-- Every block ends with the area of its tile's refresh. -/
theorem block_eq_refreshLine (text : TileText) (r : Rect) (offset : Offset) (options : Options) :
    ∃ head, block text r offset options = head ++ refreshLine (refresh r) := by
  have hline := fun head => append_refreshLine head (refresh r)
  simp only [hline]
  exact ⟨_, rfl⟩

/-- The block of a tile that lacks nothing ends with the area of the tile's refresh. -/
theorem drawCall_eq_refreshLine {t : Tile} {r : Rect} (hr : t.rect = some r)
    (resolved : t.isResolved = true) (options : Options) :
    ∃ head, drawCall options t = .ok (head ++ refreshLine (refresh r)) := by
  obtain ⟨offset, hoffset⟩ : ∃ offset, t.text.offset = some offset := by
    simp only [Tile.isResolved, Bool.and_eq_true] at resolved
    exact Option.isSome_iff_exists.mp resolved.1.2
  obtain ⟨head, hhead⟩ := block_eq_refreshLine t.text r offset options
  refine ⟨head, ?_⟩
  rw [← hhead]
  simp only [drawCall, Artifact.requirePlaced, hr, hoffset, bind, Except.bind, pure, Except.pure]

end DrawCode

/-- Every tile has its rectangle, its block ends with the area of its refresh, and that area shares
no pixel with any rule of the tree. -/
def Node.RefreshesSpareRules (out : Node) : Prop :=
  ∀ t ∈ out.tiles, ∃ r, t.rect = some r ∧
    (∀ options, ∃ head,
      DrawCode.drawCall options t = .ok (head ++ DrawCode.refreshLine (DrawCode.refresh r))) ∧
    ∀ axis q, (axis, q) ∈ out.rules → ∃ s, q = some s ∧
      ∀ px py, ¬ ((DrawCode.refresh r).Covers px py ∧ s.Covers px py)

namespace Node

variable {root out : Node} {bounds : Rect} {p : Profile}

/-- **A refresh never wipes a rule**: when every split that the pass meets cuts inside its height,
no list holds more items than it shows, and each lengthwise rule comes before a pair, the refresh of
no tile or item of a list shares a pixel with any rule, wherever in the tree they are. -/
theorem refreshesSpareRules_of_resolve (hbounds : bounds.NonNeg) (hp : p.MarginsNonNeg)
    (cuts : ∀ v ∈ Pass.visits p root bounds, v.CutsInside) (fits : ∀ n ∈ root.walk, n.ItemsFit)
    (paired : ∀ n ∈ root.walk, n.RulesPaired) (h : root.resolve bounds p = .ok out) :
    out.RefreshesSpareRules := by
  have orderly : ∀ v ∈ Pass.visits p root bounds, v.Orderly p := by
    intro v hv
    exact ⟨regular_of_resolve h cuts fits v hv, paired v.node (Pass.visit_node_mem hv)⟩
  intro t ht
  obtain ⟨v, hv, htile, hrect, resolved⟩ := mem_tiles_of_resolve h ht
  refine ⟨v.area, hrect, DrawCode.drawCall_eq_refreshLine hrect resolved, ?_⟩
  intro axis q hq
  obtain ⟨w, hw, r, s, hnode, rfl, hrule⟩ := mem_rules_of_resolve h hq
  refine ⟨s, rfl, fun px py => Rect.Spares.not_covers ?_ px py⟩
  exact Pass.visits_spare hp root bounds hbounds orderly v hv w hw htile s ⟨axis, r, hnode, hrule⟩

/-- A screen of the catalogue with rules of both kinds meets all the conditions. -/
theorem refreshesSpareRules_cooperTest :
    ∃ out,
      Catalogue.cooperTest.resolve Profile.waveshare2in9.bounds Profile.waveshare2in9 = .ok out ∧
      out.RefreshesSpareRules := by
  obtain ⟨out, hout⟩ := exists_resolve Catalogue.cooperTest Profile.waveshare2in9.bounds
    Profile.waveshare2in9 (by decide +kernel)
  exact ⟨out, hout, refreshesSpareRules_of_resolve (by decide) (by decide) (by decide +kernel)
    (by decide +kernel) (by decide +kernel) hout⟩

end Node

end PixelLayout
