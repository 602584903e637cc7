import PixelLayout.Proofs.Containment

/-!
# Rules stay on the screen

A rule has a length and a thickness of one pixel. Its **edge** is the rule without the thickness:
the line along which it is drawn. Most rules do not lie in a slot of their own. A crosswise rule
lies at the near edge of a slot, and behind the last slot if it comes last; a lengthwise one lies in
the middle of its whole stack, over the length of the slot behind it.

**The law** (`edges_within`): the edge of each rule of a tree lies inside the tree's area, as long
as splits cut inside their height and each lengthwise rule has a slot behind it
(`Node.RulesFollowed`). Lists may hold more items than they show, as no rule lies in a list. So a
rule leaves the bounds by the one pixel of its thickness at most (`rulesOnScreen_of_resolve`).
-/

namespace PixelLayout

/-- A rule along an axis without its thickness. -/
def Rect.edge (axis : Axis) (s : Rect) : Rect :=
  match axis with
  | .horizontal => ⟨s.x, s.y, s.width, 0⟩
  | .vertical => ⟨s.x, s.y, 0, s.height⟩

namespace Pass

/-- Behind each lengthwise rule of a stack comes a child that takes a slot. -/
def RulesFollowed (axis : Axis) : List Node → Prop
  | [] => True
  | n :: ns =>
    (n.kind = .separator axis → ∃ m ∈ ns, m.isSeparator = false) ∧ RulesFollowed axis ns

instance decidableRulesFollowed (axis : Axis) : DecidablePred (RulesFollowed axis)
  | [] => .isTrue trivial
  | _ :: ns =>
    have := decidableRulesFollowed axis ns
    inferInstanceAs (Decidable (_ ∧ _))

end Pass

/-- If the node is a stack, each of its lengthwise rules has a child behind it that takes a slot. -/
def Node.RulesFollowed : Node → Prop
  | .stack axis nodes _ => Pass.RulesFollowed axis nodes
  | _ => True

instance : DecidablePred Node.RulesFollowed
  | .stack axis nodes _ => inferInstanceAs (Decidable (Pass.RulesFollowed axis nodes))
  | .split .. | .tile _ | .separator .. | .list .. | .bare _ => .isTrue trivial

/-- The visit is one to a separator along an axis, which becomes the given rule. -/
def Visit.DrawsAlong (p : Profile) (axis : Axis) (v : Visit) (s : Rect) : Prop :=
  (∃ r, v.node = .separator axis r) ∧ Pass.rule axis (p.separatorMargin axis) v.area = .ok s

theorem Visit.DrawsAlong.isSeparator {p : Profile} {axis : Axis} {v : Visit} {s : Rect}
    (h : v.DrawsAlong p axis s) : v.node.isSeparator = true := by
  obtain ⟨⟨r, hnode⟩, _⟩ := h
  rw [hnode]
  rfl

/-- A visit at which no rule leaves its area: it does not halt the pass, a split cuts inside its
height, and each lengthwise rule of a stack has a slot to lie in. -/
structure Visit.Steady (p : Profile) (v : Visit) : Prop where
  goes : v.halt p = none
  cut : ∀ {a s b t r}, v.node = .split a s b t r →
    0 ≤ Pass.upper s v.area ∧ Pass.upper s v.area ≤ v.area.height
  followed : v.node.RulesFollowed

namespace Pass

/-! ## One rule -/

theorem rule_eq_ok_iff {axis : Axis} {margin : Int} {d s : Rect} :
    rule axis margin d = .ok s ↔ 2 * margin ≤ extent axis d ∧ s = match axis with
      | .horizontal => ⟨d.x + margin, d.y, d.width - 2 * margin, 1⟩
      | .vertical => ⟨d.x, d.y + margin, 1, d.height - 2 * margin⟩ := by
  rw [rule_eq]
  by_cases short : extent axis d < 2 * margin
  · rw [if_pos short]
    simp only [reduceCtorEq, false_iff]
    omega
  · rw [if_neg short, Except.ok.injEq, eq_comm]
    exact ⟨fun h => ⟨by omega, h⟩, fun h => h.2⟩

/-- A rule that is drawn has no negative length, and it is one pixel thick. -/
theorem rule_size {axis : Axis} {margin : Int} {d s : Rect} (h : rule axis margin d = .ok s) :
    0 ≤ extent axis s ∧ extent axis.swap s = 1 := by
  obtain ⟨hlong, rfl⟩ := rule_eq_ok_iff.mp h
  cases axis <;> simp only [extent, Axis.swap, and_true] at hlong ⊢ <;> omega

/-- A rule whose edge lies inside an area leaves the area by one pixel at most. -/
theorem grown_contains_rule {axis : Axis} {margin : Int} {d s area : Rect}
    (h : rule axis margin d = .ok s) (hin : area.Contains (s.edge axis)) :
    area.grown.Contains s := by
  have thin := (rule_size h).2
  cases axis <;>
    simp only [Rect.edge, Rect.grown, Rect.Contains, Rect.right, Rect.bottom, extent, Axis.swap]
      at thin hin ⊢ <;> omega

/-- The edge of a rule lies inside the rule's own area. -/
theorem edge_within {axis : Axis} {margin : Int} {d s : Rect} (hd : d.NonNeg) (hmargin : 0 ≤ margin)
    (h : rule axis margin d = .ok s) : d.Contains (s.edge axis) := by
  obtain ⟨hlong, rfl⟩ := rule_eq_ok_iff.mp h
  unfold Rect.NonNeg at hd
  cases axis <;> simp only [Rect.edge, Rect.Contains, Rect.right, Rect.bottom] <;> omega

/-- The edge of a crosswise rule lies at the near edge of its slot. -/
theorem crosswise_edge {axis along : Axis} (hcross : along ≠ axis) {margin : Int} {d s : Rect}
    (hmargin : 0 ≤ margin) {length : Int} {k : Nat} {r : Option Rect}
    (h : rule along margin (slot axis d length k (.separator along r)) = .ok s) :
    (d.band axis (k * length) (k * length)).Contains (s.edge along) := by
  obtain ⟨hlong, rfl⟩ := rule_eq_ok_iff.mp h
  cases axis <;> cases along <;> simp only [ne_eq, not_true_eq_false] at hcross <;>
    simp only [slot, Rect.band, Rect.edge, Rect.Contains, Rect.right, Rect.bottom] <;> omega

/-- The edge of a lengthwise rule lies inside its slot. -/
theorem lengthwise_edge {axis : Axis} {margin : Int} {d s : Rect} (hd : d.NonNeg)
    (hmargin : 0 ≤ margin) {length : Int} {k : Nat} {r : Option Rect}
    (h : rule axis margin (slot axis d length k (.separator axis r)) = .ok s) :
    (d.band axis (k * length) ((k + 1) * length)).Contains (s.edge axis) := by
  obtain ⟨hlong, rfl⟩ := rule_eq_ok_iff.mp h
  unfold Rect.NonNeg at hd
  rw [Int.add_mul, Int.one_mul]
  cases axis <;>
    simp only [slot, Rect.band, Rect.edge, Rect.Contains, Rect.right, Rect.bottom] <;> omega

/-! ## All rules of a tree -/

/-- A list has no rules. -/
theorem not_drawsAlong_of_mem_visitItems {p : Profile} {d : Rect} {length : Int} {k : Nat}
    {ts : List Tile} {v : Visit} (hv : v ∈ visitItems p d length k ts) {axis : Axis} {s : Rect} :
    ¬ v.DrawsAlong p axis s := by
  intro hs
  obtain ⟨⟨t, ht⟩, _⟩ := mem_visitItems hv
  have hsep := hs.isSeparator
  rw [ht] at hsep
  cases hsep

mutual
/-- **The edge of each rule of a tree lies inside the tree's area.** By induction on the tree; what
carries it over a stack is the band of the slots. -/
theorem edges_within {p : Profile} (hmargin : ∀ axis, 0 ≤ p.separatorMargin axis) :
    ∀ (n : Node) (d : Rect), d.NonNeg → (∀ v ∈ visits p n d, v.Steady p) →
      ∀ v ∈ visits p n d, ∀ along s, v.DrawsAlong p along s → d.Contains (s.edge along)
  | .stack axis nodes r, d, hd, steady, v, hv, along, s, hs => by
    rw [visits] at steady hv
    obtain ⟨own, below⟩ := List.forall_mem_cons.mp steady
    have hslots : slotCount nodes ≠ 0 := halt_stack.mp own.goes
    have hlength := slot_length_nonneg hd axis (slotCount nodes)
    rcases List.mem_cons.mp hv with rfl | hv
    · cases hs.isSeparator
    · have hband := edgesAll_within hmargin axis d _ hd hlength 0 nodes own.followed below v hv
        along s hs
      rw [Nat.zero_add] at hband
      refine (Rect.contains_band ?_ (slots_le_extent axis d hslots)).trans hband
      exact Int.le_of_eq (Int.zero_mul _).symm
  | .split a s' b t r, d, hd, steady, v, hv, along, s, hs => by
    rw [visits] at steady hv
    obtain ⟨own, below⟩ := List.forall_mem_cons.mp steady
    obtain ⟨hfirst, hsecond⟩ := List.forall_mem_append.mp below
    obtain ⟨⟨hupper, hin⟩, hlower, hin'⟩ := split_parts hd (own.cut rfl)
    rcases List.mem_cons.mp hv with rfl | hv
    · cases hs.isSeparator
    rcases List.mem_append.mp hv with hv | hv
    · exact hin.trans (edges_within hmargin a _ hupper hfirst v hv along s hs)
    · exact hin'.trans (edges_within hmargin b _ hlower hsecond v hv along s hs)
  | .list items k r, d, _, _, v, hv, along, s, hs => by
    rw [visits] at hv
    rcases List.mem_cons.mp hv with rfl | hv
    · cases hs.isSeparator
    · exact absurd hs (not_drawsAlong_of_mem_visitItems hv)
  | .tile t, d, _, _, v, hv, along, s, hs => by
    rw [visits, List.mem_singleton] at hv
    subst hv
    cases hs.isSeparator
  | .separator axis r, d, hd, _, v, hv, along, s, hs => by
    rw [visits, List.mem_singleton] at hv
    subst hv
    exact edge_within hd (hmargin along) hs.2
  | .bare r, d, _, _, v, hv, along, s, hs => by
    rw [visits, List.mem_singleton] at hv
    subst hv
    cases hs.isSeparator
termination_by structural n => n

/-- The edges of the rules of some children of a stack lie in the band of their slots. A crosswise
rule that comes last lies at the end of the band. -/
theorem edgesAll_within {p : Profile} (hmargin : ∀ axis, 0 ≤ p.separatorMargin axis) (axis : Axis)
    (d : Rect) (length : Int) (hd : d.NonNeg) (hlength : 0 ≤ length) :
    ∀ (k : Nat) (ns : List Node), RulesFollowed axis ns →
      (∀ v ∈ visitsAll p axis d length k ns, v.Steady p) →
      ∀ v ∈ visitsAll p axis d length k ns, ∀ along s, v.DrawsAlong p along s →
        (d.band axis (k * length) ((k + slotCount ns : Nat) * length)).Contains (s.edge along)
  | _, [], _, _, v, hv, _, _, _ => absurd hv List.not_mem_nil
  | k, n :: ns, followed, steady, v, hv, along, s, hs => by
    obtain ⟨hnext, followed⟩ := followed
    cases hn : n.isSeparator with
    | true =>
      obtain ⟨along', r, rfl⟩ := Node.exists_of_isSeparator hn
      rw [visitsAll_cons_separator] at steady hv
      rw [slotCount_cons_separator hn]
      rcases List.mem_cons.mp hv with rfl | hv
      · obtain ⟨⟨_, hnode⟩, hrule⟩ := hs
        cases hnode
        by_cases hcross : along = axis
        · -- a lengthwise rule has a slot to lie in
          subst hcross
          have hslots : 0 < slotCount ns := by
            obtain ⟨m, hm, stands⟩ := hnext rfl
            exact List.countP_pos_iff.mpr ⟨m, hm, by rw [stands]; rfl⟩
          exact (Rect.band_contains along d (Int.le_refl _) (slot_end_le hlength (by omega))).trans
            (lengthwise_edge hd (hmargin along) hrule)
        · exact (Rect.band_contains axis d (Int.le_refl _)
            (slot_le hlength (Nat.le_add_right k _))).trans
              (crosswise_edge hcross (hmargin along) hrule)
      · exact edgesAll_within hmargin axis d length hd hlength k ns followed
          (List.forall_mem_cons.mp steady).2 v hv along s hs
    | false =>
      rw [visitsAll_cons_slot p axis d length k hn] at steady hv
      rw [slotCount_cons_slot hn]
      obtain ⟨hhere, hrest⟩ := List.forall_mem_append.mp steady
      rcases List.mem_append.mp hv with hv | hv
      · have hslot := slot_nonNeg axis hd hlength k
        exact (Rect.band_contains axis d (Int.le_refl _) (slot_end_le hlength (by omega))).trans
          (edges_within hmargin n _ hslot hhere v hv along s hs)
      · have hband := edgesAll_within hmargin axis d length hd hlength (k + 1) ns followed hrest v
          hv along s hs
        refine (Rect.band_contains axis d (slot_le hlength (Nat.le_succ k)) ?_).trans hband
        exact slot_le hlength (by omega)
termination_by structural _ ns => ns
end

end Pass

/-- Every rule of a tree has a rectangle that is one pixel thick, has no negative length, lies
between the edges of the bounds that it runs between, and starts between the other two. -/
def Node.RulesOnScreen (bounds : Rect) (out : Node) : Prop :=
  ∀ axis q, (axis, q) ∈ out.rules → ∃ s, q = some s ∧ match axis with
    | .horizontal => 0 ≤ s.width ∧ s.height = 1 ∧ bounds.x ≤ s.x ∧ s.right ≤ bounds.right ∧
        bounds.y ≤ s.y ∧ s.y ≤ bounds.bottom
    | .vertical => 0 ≤ s.height ∧ s.width = 1 ∧ bounds.y ≤ s.y ∧ s.bottom ≤ bounds.bottom ∧
        bounds.x ≤ s.x ∧ s.x ≤ bounds.right

namespace Node

variable {root out : Node} {bounds : Rect} {p : Profile}

/-- **Rules stay on the screen**: when every split that the pass meets cuts inside its height and
each lengthwise rule of a stack has a child behind it that is no separator, every rule lies between
the edges of the bounds but for the one pixel of its thickness, wherever in the tree it is. -/
theorem rulesOnScreen_of_resolve (hbounds : bounds.NonNeg)
    (hmargin : ∀ axis, 0 ≤ p.separatorMargin axis)
    (cuts : ∀ v ∈ Pass.visits p root bounds, v.CutsInside)
    (followed : ∀ n ∈ root.walk, n.RulesFollowed) (h : root.resolve bounds p = .ok out) :
    out.RulesOnScreen bounds := by
  have steady : ∀ v ∈ Pass.visits p root bounds, v.Steady p := by
    intro v hv
    exact ⟨(walk_of_resolve h).1 v hv, (cuts v hv).upper,
      followed v.node (Pass.visit_node_mem hv)⟩
  intro axis q hq
  obtain ⟨v, hv, r, s, hnode, rfl, hrule⟩ := mem_rules_of_resolve h hq
  refine ⟨s, rfl, ?_⟩
  have hin := Pass.edges_within hmargin root bounds hbounds steady v hv axis s ⟨⟨r, hnode⟩, hrule⟩
  have size := Pass.rule_size hrule
  cases axis <;>
    simp only [Rect.edge, Rect.Contains, Rect.right, Rect.bottom, Pass.extent, Axis.swap]
      at hin size ⊢ <;> omega

/-- A screen of the catalogue with splits and with rules of both kinds meets all the conditions. -/
theorem rulesOnScreen_cooperTest :
    ∃ out,
      Catalogue.cooperTest.resolve Profile.waveshare2in9.bounds Profile.waveshare2in9 = .ok out ∧
      out.RulesOnScreen Profile.waveshare2in9.bounds := by
  obtain ⟨out, hout⟩ := exists_resolve Catalogue.cooperTest Profile.waveshare2in9.bounds
    Profile.waveshare2in9 (by decide +kernel)
  refine ⟨out, hout, rulesOnScreen_of_resolve (by decide) ?_ (by decide +kernel) (by decide +kernel)
    hout⟩
  intro axis
  cases axis <;> decide

end Node

end PixelLayout
