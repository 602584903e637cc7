import PixelLayout.Catalogue
import PixelLayout.Proofs.Emission
import PixelLayout.Proofs.Stopped

/-!
# A layout without its rules

A separator in a stack takes no slot. So the separators of all stacks can be taken out of a tree
(`Node.unruled`) and every other node keeps its area: taking them out before a pass and after it is
the same (`Pass.place_unruled`). The only thing that they can do to a pass is to stop it, when an
area is too small for the margins of a rule.

Hence the texts of a screen do not depend on its rules (`resolve_unruled`). A separator that is a
half of a split does take an area, and stays.
-/

namespace PixelLayout

/-- The fault is that of a rule whose margins do not fit into its area. -/
def Fault.OfRule (fault : Fault) : Prop :=
  ∃ axis margin extent, fault = .layout (.ruleMargin axis margin extent)

namespace Node

mutual
/-- The tree without the separators that are children of its stacks. -/
def unruled : Node → Node
  | stack axis nodes r => stack axis (unruledAll nodes) r
  | split a s b t r => split a.unruled s b.unruled t r
  | tile t => tile t
  | separator axis r => separator axis r
  | list items k r => list items k r
  | bare r => bare r

/-- The children of a stack without the separators among them, each without those in its stacks. -/
def unruledAll : List Node → List Node
  | [] => []
  | n :: ns => if n.isSeparator then unruledAll ns else n.unruled :: unruledAll ns
end

/-- The node holds text: it is a tile or a list of tiles. -/
def holdsText : Node → Bool
  | tile _ | list .. => true
  | _ => false

theorem unruledAll_cons_separator {n : Node} (h : n.isSeparator = true) (ns : List Node) :
    unruledAll (n :: ns) = unruledAll ns := by
  rw [unruledAll, if_pos h]

theorem unruledAll_cons_slot {n : Node} (h : n.isSeparator = false) (ns : List Node) :
    unruledAll (n :: ns) = n.unruled :: unruledAll ns := by
  rw [unruledAll, if_neg (by rw [h]; exact Bool.false_ne_true)]

theorem isSeparator_unruled (n : Node) : n.unruled.isSeparator = n.isSeparator := by
  cases n <;> rfl

theorem isSeparator_of_kind {m n : Node} (h : m.kind = n.kind) :
    m.isSeparator = n.isSeparator := by
  cases m <;> cases n <;> simp only [kind, reduceCtorEq] at h <;> rfl

mutual
/-- Clearing and taking out separators do not get in each other's way. -/
theorem unruled_clear : ∀ n : Node, n.clear.unruled = n.unruled.clear
  | stack axis nodes r => by rw [clear, unruled, unruledAll_clearAll nodes, unruled, clear]
  | split a s b t r => by rw [clear, unruled, unruled_clear a, unruled_clear b, unruled, clear]
  | tile t => rfl
  | separator axis r => rfl
  | list items k r => rfl
  | bare r => rfl
termination_by structural n => n

theorem unruledAll_clearAll : ∀ ns : List Node,
    unruledAll (clearAll ns) = clearAll (unruledAll ns)
  | [] => rfl
  | n :: ns => by
    rw [clearAll]
    cases h : n.isSeparator with
    | true =>
      rw [unruledAll_cons_separator ((Pass.isSeparator_clear n).trans h),
        unruledAll_cons_separator h, unruledAll_clearAll ns]
    | false =>
      rw [unruledAll_cons_slot ((Pass.isSeparator_clear n).trans h), unruledAll_cons_slot h,
        clearAll, unruled_clear n, unruledAll_clearAll ns]
termination_by structural ns => ns
end

mutual
/-- All that holds text stays, in document order. -/
theorem holdsText_unruled : ∀ n : Node,
    n.unruled.walk.filter holdsText = n.walk.filter holdsText
  | stack axis nodes r => by
    rw [unruled, walk, walk, List.filter_cons_of_neg (by simp only [holdsText, Bool.false_eq_true,
      not_false_eq_true]), List.filter_cons_of_neg (by simp only [holdsText, Bool.false_eq_true,
      not_false_eq_true]), holdsText_unruledAll nodes]
  | split a s b t r => by
    rw [unruled, walk, walk, List.filter_cons_of_neg (by simp only [holdsText, Bool.false_eq_true,
      not_false_eq_true]), List.filter_cons_of_neg (by simp only [holdsText, Bool.false_eq_true,
      not_false_eq_true]), List.filter_append, List.filter_append, holdsText_unruled a,
      holdsText_unruled b]
  | tile t => rfl
  | separator axis r => rfl
  | list items k r => rfl
  | bare r => rfl
termination_by structural n => n

theorem holdsText_unruledAll : ∀ ns : List Node,
    (walkAll (unruledAll ns)).filter holdsText = (walkAll ns).filter holdsText
  | [] => rfl
  | n :: ns => by
    rw [walkAll, List.filter_append, ← holdsText_unruledAll ns]
    cases h : n.isSeparator with
    | true =>
      have silent : n.walk.filter holdsText = [] := by
        cases n <;> simp only [isSeparator, Bool.false_eq_true] at h
        rfl
      rw [unruledAll_cons_separator h, silent, List.nil_append]
    | false => rw [unruledAll_cons_slot h, walkAll, List.filter_append, holdsText_unruled n]
termination_by structural ns => ns
end

/-- The tiles of a tree are among what holds text. -/
theorem tiles_eq_of_holdsText {m n : Node}
    (h : m.walk.filter holdsText = n.walk.filter holdsText) : m.tiles = n.tiles := by
  have seen (l : List Node) : l.filterMap tile? = (l.filter holdsText).filterMap tile? := by
    rw [List.filterMap_filter]
    refine List.filterMap_congr fun n _ => ?_
    cases n <;> rfl
  rw [tiles, tiles, seen m.walk, seen n.walk, h]

end Node

namespace Pass

theorem slotCount_unruledAll (ns : List Node) : slotCount (Node.unruledAll ns) = slotCount ns := by
  induction ns with
  | nil => rfl
  | cons n ns ih =>
    simp only [slotCount] at ih ⊢
    cases h : n.isSeparator with
    | true =>
      rw [Node.unruledAll_cons_separator h, ih, List.countP_cons_of_neg (by simp [h])]
    | false =>
      rw [Node.unruledAll_cons_slot h, List.countP_cons_of_pos (by simp [Node.isSeparator_unruled, h]), ih,
        List.countP_cons_of_pos (by simp [h])]

theorem slot_unruled (axis : Axis) (d : Rect) (length : Int) (k : Nat) (n : Node) :
    slot axis d length k n.unruled = slot axis d length k n := by
  cases axis <;> cases n <;> rfl

theorem isSeparator_place (p : Profile) (n : Node) (d : Rect) :
    (place p n d).result.isSeparator = n.isSeparator :=
  Node.isSeparator_of_kind (Visit.kind_placed p ⟨n, d⟩)

variable {p : Profile}

/-- A separator can stop a pass for its margins only. -/
theorem ofRule_of_separator {n : Node} (hn : n.isSeparator = true) {d : Rect} {fault : Fault}
    (h : (place p n d).fault = some fault) : fault.OfRule := by
  cases n <;> simp only [Node.isSeparator, Bool.false_eq_true] at hn
  case separator axis r =>
    rw [place, placeSeparator_fault, Visit.halt, Visit.offence] at h
    simp only [Option.map_eq_some_iff, Option.ite_none_right_eq_some, Option.some.injEq] at h
    obtain ⟨_, ⟨_, rfl⟩, rfl⟩ := h
    exact ⟨_, _, _, rfl⟩

variable (p)

mutual
/-- **Taking separators out of the stacks before a pass and after it is the same**, unless the pass
stops at one of them. By induction on the tree, along the recursion of the pass. -/
theorem place_unruled : ∀ (n : Node) (d : Rect),
    (∀ fault, (place p n d).fault = some fault → ¬ fault.OfRule) →
      place p n.unruled d = ⟨(place p n d).result.unruled, (place p n d).fault⟩
  | .stack axis nodes r, d, h => by
    rw [place] at h
    rw [Node.unruled, place, place, slotCount_unruledAll]
    by_cases empty : slotCount nodes = 0
    · simp only [if_pos empty, Node.unruled]
    · simp only [if_neg empty] at h ⊢
      rw [placeAll_unruled axis d _ 0 nodes h]
      rfl
  | .split a s b t r, d, h => by
    rw [place] at h
    rw [Node.unruled, place, place]
    cases hcut : s.cut d.height with
    | error e => rfl
    | ok up =>
      simp only [hcut] at h ⊢
      cases hfault : (place p a ⟨d.x, d.y, d.width, up⟩).fault with
      | some fault =>
        simp only [hfault] at h
        have first := place_unruled a ⟨d.x, d.y, d.width, up⟩ (by rw [hfault]; exact h)
        simp only [first, hfault, Node.unruled]
      | none =>
        simp only [hfault] at h
        have first := place_unruled a ⟨d.x, d.y, d.width, up⟩
          (by rw [hfault]; exact fun _ => nofun)
        have second := place_unruled b ⟨d.x, d.y + up, d.width, d.height - up⟩ h
        simp only [first, hfault, second, Node.unruled]
  | .tile t, d, _ => rfl
  | .separator axis r, d, _ => by
    obtain ⟨r', hplace⟩ := place_separator p axis r d
    rw [hplace, Node.unruled, Node.unruled, ← hplace]
  | .list items k r, d, _ => by
    obtain ⟨items', r', hplace⟩ := place_list p items k r d
    rw [hplace, Node.unruled, Node.unruled, ← hplace]
  | .bare r, d, _ => rfl
termination_by structural n => n

theorem placeAll_unruled (axis : Axis) (d : Rect) (length : Int) : ∀ (k : Nat) (ns : List Node),
    (∀ fault, (placeAll p axis d length k ns).fault = some fault → ¬ fault.OfRule) →
      placeAll p axis d length k (Node.unruledAll ns) =
        ⟨Node.unruledAll (placeAll p axis d length k ns).result,
          (placeAll p axis d length k ns).fault⟩
  | _, [], _ => rfl
  | k, n :: ns, h => by
    have hkind := isSeparator_place p n (slot axis d length k n)
    rw [placeAll] at h ⊢
    cases hsep : n.isSeparator with
    | true =>
      -- the rule is laid out, and what follows goes on from the same slot
      rw [hsep] at hkind
      cases hfault : (place p n (slot axis d length k n)).fault with
      | some fault =>
        simp only [hfault] at h
        exact absurd (ofRule_of_separator hsep hfault) (h fault rfl)
      | none =>
        simp only [hfault, hsep, ↓reduceIte] at h ⊢
        rw [Node.unruledAll_cons_separator hsep, Node.unruledAll_cons_separator hkind]
        exact placeAll_unruled axis d length k ns h
    | false =>
      rw [hsep] at hkind
      rw [Node.unruledAll_cons_slot hsep, placeAll, slot_unruled, Node.isSeparator_unruled, hsep]
      cases hfault : (place p n (slot axis d length k n)).fault with
      | some fault =>
        simp only [hfault] at h
        have here := place_unruled n (slot axis d length k n) (by rw [hfault]; exact h)
        simp only [here, hfault, Node.unruledAll_cons_slot hkind]
      | none =>
        simp only [hfault, hsep, Bool.false_eq_true, ↓reduceIte] at h ⊢
        have here := place_unruled n (slot axis d length k n)
          (by rw [hfault]; exact fun _ => nofun)
        have rest := placeAll_unruled axis d length (k + 1) ns h
        simp only [here, hfault, rest, Node.unruledAll_cons_slot hkind]
termination_by structural _ ns => ns
end

end Pass

namespace Node

variable {root out : Node} {bounds : Rect} {p : Profile}

theorem resolveInPlace_unruled (root : Node) (bounds : Rect) (p : Profile)
    (h : ∀ fault, (root.resolveInPlace bounds p).fault = some fault → ¬ fault.OfRule) :
    root.unruled.resolveInPlace bounds p =
      ⟨(root.resolveInPlace bounds p).result.unruled, (root.resolveInPlace bounds p).fault⟩ := by
  rw [resolveInPlace, ← unruled_clear]
  exact Pass.place_unruled p root.clear bounds h

theorem resolve_unruled_of_resolve (h : root.resolve bounds p = .ok out) :
    root.unruled.resolve bounds p = .ok out.unruled := by
  have hpass := resolve_eq_ok_iff.mp h
  rw [resolve_eq_ok_iff, resolveInPlace_unruled root bounds p (by rw [hpass]; exact fun _ => nofun),
    hpass]

/-- **The texts of a screen do not depend on its rules.** If a tree is laid out, so is the tree
without the separators of its stacks: it holds the same tiles and lists in the same order, each with
all of its geometry, and the dynamic stream is the same with all settings. Conversely, a tree that
is laid out without them is laid out with them, or stops where a rule's margins do not fit, and says
so if it can be written. -/
theorem resolve_unruled (root : Node) (bounds : Rect) (p : Profile) :
    (∀ out, root.resolve bounds p = .ok out →
      root.unruled.resolve bounds p = .ok out.unruled ∧
        out.unruled.walk.filter holdsText = out.walk.filter holdsText ∧
        ∀ options, ∃ s s', DrawCode.streams out options = .ok s ∧
          DrawCode.streams out.unruled options = .ok s' ∧ s'.dynamic = s.dynamic) ∧
      ∀ out', root.unruled.resolve bounds p = .ok out' →
        (∃ out, root.resolve bounds p = .ok out) ∨
          ∃ axis margin extent,
            (root.resolveInPlace bounds p).fault =
                some (.layout (.ruleMargin axis margin extent)) ∧
              root.resolve bounds p =
                .error (Fault.layout (.ruleMargin axis margin extent)).raised := by
  constructor
  · intro out h
    have h' := resolve_unruled_of_resolve h
    have kept := holdsText_unruled out
    refine ⟨h', kept, fun options => ?_⟩
    obtain ⟨s, hs⟩ := exists_streams (isResolved_of_resolve h) options
    obtain ⟨s', hs'⟩ := exists_streams (isResolved_of_resolve h') options
    refine ⟨s, s', hs, hs', ?_⟩
    obtain ⟨blocks, hblocks, hdynamic⟩ := DrawCode.dynamic_of_streams hs
    obtain ⟨blocks', hblocks', hdynamic'⟩ := DrawCode.dynamic_of_streams hs'
    rw [tiles_eq_of_holdsText kept, hblocks, Except.ok.injEq] at hblocks'
    rw [hdynamic, hdynamic', hblocks']
  · intro out' h'
    cases h : root.resolve bounds p with
    | ok out => exact .inl ⟨out, rfl⟩
    | error fault =>
      right
      obtain ⟨cause, hcause, rfl⟩ := Option.map_eq_some_iff.mp (resolve_eq_error_iff.mp h)
      -- only a fault of a rule can be that of the tree with its separators alone
      by_cases hrule : cause.OfRule
      · obtain ⟨axis, margin, extent, rfl⟩ := hrule
        exact ⟨axis, margin, extent, hcause, rfl⟩
      · have hpass := resolveInPlace_unruled root bounds p (by
          intro other hother
          rw [hcause, Option.some.injEq] at hother
          rwa [← hother])
        rw [resolve_eq_ok_iff, hpass, hcause] at h'
        cases h'

theorem resolve_unruled_cooperTest :
    Catalogue.cooperTest.rules ≠ [] ∧ Catalogue.cooperTest.unruled.rules = [] ∧
      ∃ out,
        Catalogue.cooperTest.resolve Profile.waveshare2in9.bounds Profile.waveshare2in9 = .ok out ∧
          Catalogue.cooperTest.unruled.resolve Profile.waveshare2in9.bounds
            Profile.waveshare2in9 = .ok out.unruled := by
  refine ⟨by decide +kernel, by decide +kernel, ?_⟩
  obtain ⟨out, hout⟩ := exists_resolve Catalogue.cooperTest Profile.waveshare2in9.bounds
    Profile.waveshare2in9 (by decide +kernel)
  have unruled := (resolve_unruled Catalogue.cooperTest Profile.waveshare2in9.bounds
    Profile.waveshare2in9).1 out hout
  exact ⟨out, hout, unruled.1⟩

end Node

end PixelLayout
