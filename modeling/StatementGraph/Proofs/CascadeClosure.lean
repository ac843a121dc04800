import StatementGraph.Proofs.Cascade
import StatementGraph.Proofs.LockOwnership
import StatementGraph.Proofs.Rising

namespace StatementGraph

/-! ### What a removal reports -/

namespace Removal

open Engine Store

variable {t : TransactionId} {e : Engine} {r r' : Removal} {s : Store} {x : StatementId}
  {st : Statement} {l l' : List StatementId}

theorem eraseAssumptions_append :
    eraseAssumptions t (l ++ l') e =
      ((eraseAssumptions t l e).1 ++ (eraseAssumptions t l' (eraseAssumptions t l e).2).1,
        (eraseAssumptions t l' (eraseAssumptions t l e).2).2) := by
  induction l generalizing e with
  | nil => rfl
  | cons x rest ih =>
    rw [List.cons_append, eraseAssumptions_cons, ih, eraseAssumptions_cons, List.append_assoc]

theorem nodup_eraseAssumptions (hi : e.store.Indexed) :
    ((eraseAssumptions t l e).1.map Statement.id).Nodup := by
  induction l generalizing e with
  | nil => exact List.nodup_nil
  | cons x rest ih =>
    have herased : Erased t [x] e (erase t e x).2 := erased_erase
    rw [eraseAssumptions_cons, List.map_append]
    refine List.nodup_append.2 ⟨?_, ih (herased.indexed hi), ?_⟩
    · cases e.store.get? x <;> simp
    · intro a ha b hb
      obtain ⟨sa, hsa, rfl⟩ := List.mem_map.1 ha
      obtain ⟨sb, hsb, rfl⟩ := List.mem_map.1 hb
      obtain ⟨y, -, hy⟩ := mem_eraseAssumptions.1 hsb
      obtain ⟨hy, hyx⟩ := herased.kept hy
      rw [hi.keyed x sa (Option.mem_toList.1 hsa), hi.keyed y sb hy]
      rintro rfl
      exact hyx List.mem_cons_self

theorem gone_removeOne (hst : r.engine.store.get? x = some st) :
    (r.removeOne t x).gone =
      r.gone ++ (eraseAssumptions t (st.assumptions ++ [x]) r.engine).1 := by
  have herased : Erased t st.assumptions r.engine
      (eraseAssumptions t st.assumptions r.engine).2 := erased_eraseEach _
  rw [removeOne, hst, eraseAssumptions_append]
  simp only [eraseAssumptions, List.append_nil, fst_erase]
  cases hlast : (eraseAssumptions t st.assumptions r.engine).2.store.get? x with
  | none => simp
  | some st' =>
    cases hst.symm.trans (herased.kept hlast).1
    simp

/-- Records are as they were or gone, and those that are gone are reported, each once. -/
structure Accounts (s : Store) (r : Removal) : Prop where
  indexed : r.engine.store.Indexed
  kept : ∀ x st, r.engine.store.get? x = some st → s.get? x = some st
  gone : ∀ st ∈ r.gone, s.get? st.id = some st ∧ r.engine.store.get? st.id = none
  lost : ∀ x st, s.get? x = some st → r.engine.store.get? x = some st ∨ x ∈ r.removed
  once : r.removed.Nodup

theorem accounts_start (hi : e.store.Indexed) : Accounts e.store { engine := e } where
  indexed := hi
  kept _ _ h := h
  gone _ h := by cases h
  lost _ _ h := Or.inl h
  once := List.nodup_nil

theorem Accounts.removeOne (h : Accounts s r) : Accounts s (r.removeOne t x) := by
  cases hst : r.engine.store.get? x with
  | none =>
    rw [Removal.removeOne, hst]
    exact h
  | some st =>
    have herased : Erased t (st.assumptions ++ [x]) r.engine (r.removeOne t x).engine :=
      erased_removeOne hst
    have hgone := gone_removeOne (t := t) hst
    refine ⟨herased.indexed h.indexed, ?_, ?_, ?_, ?_⟩
    · intro y sy hy
      exact h.kept y sy (herased.kept hy).1
    · intro sy hy
      rw [hgone, List.mem_append, mem_eraseAssumptions] at hy
      rw [herased.records]
      rcases hy with hy | ⟨y, hy, hsy⟩
      · obtain ⟨hs, hnone⟩ := h.gone sy hy
        exact ⟨hs, by rw [hnone, ite_self]⟩
      · rw [h.indexed.keyed y sy hsy, if_pos hy]
        exact ⟨h.kept y sy hsy, rfl⟩
    · intro y sy hy
      rw [removed, hgone, List.map_append, List.mem_append]
      rcases h.lost y sy hy with hy | hy
      · by_cases hmem : y ∈ st.assumptions ++ [x]
        · refine Or.inr (Or.inr (List.mem_map.2 ⟨sy, ?_, h.indexed.keyed y sy hy⟩))
          exact mem_eraseAssumptions.2 ⟨y, hmem, hy⟩
        · exact Or.inl (herased.left hy hmem)
      · exact Or.inr (Or.inl hy)
    · rw [removed, hgone, List.map_append]
      refine List.nodup_append.2 ⟨h.once, nodup_eraseAssumptions h.indexed, ?_⟩
      intro a ha b hb
      obtain ⟨sa, hsa, rfl⟩ := List.mem_map.1 ha
      obtain ⟨sb, hsb, rfl⟩ := List.mem_map.1 hb
      obtain ⟨y, -, hy⟩ := mem_eraseAssumptions.1 hsb
      have hnone := (h.gone sa hsa).2
      intro heq
      rw [heq, h.indexed.keyed y sb hy, hy] at hnone
      cases hnone

theorem Accounts.runs (h : Accounts s r) (hr : Runs t r r') : Accounts s r' := by
  induction hr with
  | refl => exact h
  | tail _ hstep ih =>
    obtain ⟨x, rfl⟩ := hstep
    exact ih.removeOne

theorem Accounts.mem_removed (h : Accounts s r) :
    x ∈ r.removed ↔ (∃ st, s.get? x = some st) ∧ r.engine.store.get? x = none := by
  constructor
  · intro hx
    obtain ⟨st, hst, rfl⟩ := List.mem_map.1 hx
    exact ⟨⟨st, (h.gone st hst).1⟩, (h.gone st hst).2⟩
  · rintro ⟨⟨st, hst⟩, hnone⟩
    refine (h.lost x st hst).resolve_left fun hlive => ?_
    rw [hnone] at hlive
    cases hlive

end Removal

/-! ### The closure and its plan -/

namespace Store

variable {s : Store} {target x y u c : StatementId} {st : Statement}

/-- What has to go with a unit: the inside of what goes, and the units of what depends on it. -/
inductive InCascade (s : Store) (target : StatementId) : StatementId → Prop where
  | target : InCascade s target target
  | inside {x c : StatementId} (h : InCascade s target c) (hx : s.ownerOf x = some c) :
      InCascade s target x
  | dependent {d x u : StatementId} {st : Statement} (h : InCascade s target d)
      (hx : s.get? x = some st) (hd : d ∈ st.dependencies) (hu : s.unitOf x = some u) :
      InCascade s target u

theorem InCascade.within (h : s.InCascade target y) (hw : s.graph.Within x y) :
    s.InCascade target x := by
  induction hw using Relation.ReflTransGen.head_induction_on with
  | refl => exact h
  | head hstep _ ih => exact ih.inside (ownerOf_eq_graph.trans hstep)

theorem InCascade.live (ho : s.graph.Owned) (htarget : s.get? target = some st)
    (h : s.InCascade target x) : ∃ sx, s.get? x = some sx := by
  induction h with
  | target => exact ⟨st, htarget⟩
  | inside _ hx =>
    obtain ⟨sx, hsx, -⟩ := Option.bind_eq_some_iff.1 hx
    exact ⟨sx, hsx⟩
  | dependent _ _ _ hu =>
    obtain ⟨-, su, hsu, -⟩ := unitOf_eq_some ho hu
    exact ⟨su, hsu⟩

theorem within_of_unitOf (hu : s.unitOf x = some c) (hw : s.graph.Within x u)
    (hplain : ∀ st, s.get? u = some st → st.isAssumption = false) : s.graph.Within c u := by
  obtain ⟨st, hst, hu⟩ := Option.bind_eq_some_iff.1 hu
  split at hu
  case isFalse =>
    cases hu
    exact hw
  case isTrue hassumption =>
    rcases Relation.ReflTransGen.cases_head hw with rfl | ⟨o, ho, hwo⟩
    · rw [hplain st hst] at hassumption
      cases hassumption
    · obtain ⟨c', hc', ho⟩ := Graph.ownerOf_eq.1 ho
      cases (graph_of_get? hst).symm.trans hc'
      cases hu.symm.trans ho
      exact hwo

theorem mem_cascadeOf_units : x ∈ s.cascadeOf target ↔
    ∃ u ∈ Walk.reach s.unitsOn (s.mentioned.length + 1) [target],
      ∃ st, s.get? u = some st ∧ x ∈ s.membersOf st := by
  have hempty : x ∉ IdSet.empty := IdSet.notMem_empty
  refine Iff.trans ?_ (or_iff_right hempty)
  rw [cascadeOf]
  generalize Walk.reach s.unitsOn (s.mentioned.length + 1) [target] = units
  generalize IdSet.empty = planned
  induction units generalizing planned with
  | nil => simp
  | cons u rest ih =>
    rw [List.foldl_cons, ih]
    cases hu : s.get? u with
    | none => simp [hu]
    | some st => simp [hu, IdSet.mem_union, or_assoc]

section Plan

variable (hi : s.Indexed) (ho : s.graph.Owned) (htarget : s.get? target = some st)
  (hplain : st.isAssumption = false)

include hi ho in
theorem mentioned_of_mem_unitsOn (h : u ∈ s.unitsOn y) : u ∈ s.mentioned := by
  obtain ⟨x, -, -, -, -, -, -, hx, -⟩ := (mem_unitsOn hi ho).1 h
  obtain ⟨-, su, hsu, -⟩ := unitOf_eq_some ho hx
  exact mem_mentioned hi hsu

include hi ho in
theorem explores_units : Walk.Explores s.unitsOn [target] [target]
    (Walk.reach s.unitsOn (s.mentioned.length + 1) [target]) :=
  Walk.explores_reach_singleton (fun _ _ => mentioned_of_mem_unitsOn hi ho) (Nat.le_refl _)

include hi ho in
theorem mem_reach_units : u ∈ Walk.reach s.unitsOn (s.mentioned.length + 1) [target] ↔
    Relation.ReflTransGen (fun a b => b ∈ s.unitsOn a) target u := by
  rw [Walk.mem_reach (fun _ _ => mentioned_of_mem_unitsOn hi ho)
    (Nat.le_refl (s.mentioned.length + 1))]
  simp

include hi ho htarget hplain in
theorem inCascade_of_reach (h : Relation.ReflTransGen (fun a b => b ∈ s.unitsOn a) target u) :
    s.InCascade target u ∧ ∃ su, s.get? u = some su ∧ su.isAssumption = false := by
  induction h with
  | refl => exact ⟨.target, st, htarget, hplain⟩
  | tail _ hstep ih =>
    obtain ⟨x, c, d, hx, hd, hin, -, hunit, -⟩ := (mem_unitsOn hi ho).1 hstep
    obtain ⟨sx, hsx, rfl⟩ := graph_eq_some.1 hx
    exact ⟨(ih.1.within hin).dependent hsx hd hunit, (unitOf_eq_some ho hunit).2⟩

include hi ho htarget hplain in
theorem mem_cascadeOf : x ∈ s.cascadeOf target ↔ s.InCascade target x := by
  simp only [mem_cascadeOf_units, mem_reach_units hi ho]
  constructor
  · rintro ⟨u, hreach, su, hsu, hx⟩
    rw [mem_membersOf hi ho hsu] at hx
    exact (inCascade_of_reach hi ho htarget hplain hreach).1.within hx
  · intro h
    -- a unit that is met has the statement inside it
    suffices hunit : ∃ u, Relation.ReflTransGen (fun a b => b ∈ s.unitsOn a) target u ∧
        s.graph.Within x u by
      obtain ⟨u, hreach, hw⟩ := hunit
      obtain ⟨-, su, hsu, -⟩ := inCascade_of_reach hi ho htarget hplain hreach
      exact ⟨u, hreach, su, hsu, (mem_membersOf hi ho hsu).2 hw⟩
    induction h with
    | target => exact ⟨target, .refl, .refl⟩
    | inside _ hx ih =>
      obtain ⟨u, hreach, hw⟩ := ih
      exact ⟨u, hreach, .head (ownerOf_eq_graph.symm.trans hx) hw⟩
    | @dependent d x v sx _ hx hd hv ih =>
      obtain ⟨u, hreach, hw⟩ := ih
      obtain ⟨-, su, hsu, hsu'⟩ := inCascade_of_reach hi ho htarget hplain hreach
      by_cases hin : s.graph.Within x u
      · refine ⟨u, hreach, within_of_unitOf hv hin fun st' hst' => ?_⟩
        cases hsu.symm.trans hst'
        exact hsu'
      · refine ⟨v, hreach.tail ((mem_unitsOn hi ho).2 ?_), .refl⟩
        exact ⟨x, sx.content, d, graph_of_get? hx, hd, hw, hin, hv, su, hsu⟩

end Plan

end Store

/-! ### The removal -/

namespace Removal

open Engine Store

variable {t : TransactionId} {s : Store} {r r' : Removal} {target top unit x : StatementId}
  {visited stack U : List StatementId} {st : Statement}

/-- A cascade against the store it started from: only members of the closure are visited. -/
structure Closing (s : Store) (target : StatementId) (U visited stack : List StatementId)
    (r : Removal) : Prop where
  standing : Standing U stack r
  kept : ∀ x st, r.engine.store.get? x = some st → s.get? x = some st
  gone : ∀ x st, s.get? x = some st → r.engine.store.get? x = none → s.InCascade target x
  start : target ∈ visited
  stacked : ∀ u ∈ stack, u ∈ visited
  closure : ∀ u ∈ visited, s.InCascade target u
  pending : ∀ u ∈ visited, ∀ st, r.engine.store.get? u = some st → u ∈ stack
  owed : ∀ x st d sd u, r.engine.store.get? x = some st → d ∈ st.dependencies →
    s.get? d = some sd → r.engine.store.get? d = none → s.unitOf x = some u → u ∈ visited

theorem Closing.sub (h : Closing s target U visited stack r) :
    r.engine.store.graph.Sub s.graph := by
  intro x c hx
  obtain ⟨st, hst, rfl⟩ := graph_eq_some.1 hx
  exact graph_of_get? (h.kept x st hst)

theorem Closing.unitOf_eq (h : Closing s target U visited stack r)
    (hx : r.engine.store.get? x = some st) : r.engine.store.unitOf x = s.unitOf x := by
  rw [unitOf, unitOf, hx, h.kept x st hx]

theorem Closing.skip (h : Closing s target U visited (top :: stack) r)
    (htop : r.engine.store.get? top = none) : Closing s target U visited stack r :=
  { h with
    standing := { h.standing with
      plain := fun u hu => h.standing.plain u (List.mem_cons_of_mem _ hu) }
    stacked := fun u hu => h.stacked u (List.mem_cons_of_mem _ hu)
    pending := by
      intro u hu st hst
      apply (List.mem_cons.1 (h.pending u hu st hst)).resolve_left
      rintro rfl
      cases htop.symm.trans hst }

theorem Closing.push (h : Closing s target U visited (top :: stack) r)
    (hunit : unit ∈ r.engine.store.unitsOn top) :
    Closing s target U (unit :: visited) (unit :: top :: stack) r where
  standing := h.standing.push hunit
  kept := h.kept
  gone := h.gone
  start := List.mem_cons_of_mem _ h.start
  stacked u hu := by
    rcases List.mem_cons.1 hu with rfl | hu
    · exact List.mem_cons_self
    · exact List.mem_cons_of_mem _ (h.stacked u hu)
  closure u hu := by
    rcases List.mem_cons.1 hu with rfl | hu
    · obtain ⟨x, c, d, hx, hd, hin, -, hx', -⟩ :=
        (mem_unitsOn h.standing.indexed h.standing.housed.owned).1 hunit
      obtain ⟨sx, hsx, rfl⟩ := graph_eq_some.1 hx
      rw [h.unitOf_eq hsx] at hx'
      have htop := h.closure top (h.stacked top List.mem_cons_self)
      exact (htop.within (h.sub.within hin)).dependent (h.kept x sx hsx) hd hx'
    · exact h.closure u hu
  pending u hu st hst := by
    rcases List.mem_cons.1 hu with rfl | hu
    · exact List.mem_cons_self
    · exact List.mem_cons_of_mem _ (h.pending u hu st hst)
  owed x st d sd u hx hd hsd hgone hu :=
    List.mem_cons_of_mem _ (h.owed x st d sd u hx hd hsd hgone hu)

/-- The top of the stack goes with all that is inside it. -/
theorem Closing.pop (h : Closing s target U visited (top :: stack) r)
    (htop : r.engine.store.get? top = some st)
    (hvisited : ∀ u ∈ r.engine.store.unitsOn top, u ∈ visited) :
    Closing s target U visited stack (r.removeTree t top) := by
  have hi := h.standing.indexed
  have hh := h.standing.housed
  have hleft (y : StatementId) (sy : Statement) :
      (r.removeTree t top).engine.store.get? y = some sy ↔
        r.engine.store.get? y = some sy ∧ ¬r.engine.store.graph.Within y top :=
    get?_removeTree hi hh
  -- what is gone now was gone before or is inside the top
  have hgone (y : StatementId) (hy : (r.removeTree t top).engine.store.get? y = none) :
      r.engine.store.get? y = none ∨ r.engine.store.graph.Within y top := by
    cases hlive : r.engine.store.get? y with
    | none => exact Or.inl rfl
    | some sy =>
      right
      by_contra hout
      rw [(hleft y sy).2 ⟨hlive, hout⟩] at hy
      cases hy
  refine ⟨h.standing.pop, ?_, ?_, h.start, ?_, h.closure, ?_, ?_⟩
  · intro y sy hy
    exact h.kept y sy ((hleft y sy).1 hy).1
  · intro y sy hsy hy
    rcases hgone y hy with hy | hin
    · exact h.gone y sy hsy hy
    · exact (h.closure top (h.stacked top List.mem_cons_self)).within (h.sub.within hin)
  · exact fun u hu => h.stacked u (List.mem_cons_of_mem _ hu)
  · intro u hu su hsu
    obtain ⟨hsu, hout⟩ := (hleft u su).1 hsu
    apply (List.mem_cons.1 (h.pending u hu su hsu)).resolve_left
    rintro rfl
    exact hout .refl
  · intro x sx d sd u hsx hd hsd hdgone hu
    obtain ⟨hsx, hout⟩ := (hleft x sx).1 hsx
    rcases hgone d hdgone with hdgone | hin
    · exact h.owed x sx d sd u hsx hd hsd hdgone hu
    · apply hvisited u
      rw [← h.unitOf_eq hsx] at hu
      exact (mem_unitsOn hi hh.owned).2
        ⟨x, sx.content, d, graph_of_get? hsx, hd, hin, hout, hu, st, htop⟩

theorem Closing.drains (h : Closing s target U visited stack r)
    (hd : Drains t visited stack r r') : ∃ visited', Closing s target U visited' [] r' := by
  induction hd with
  | done => exact ⟨_, h⟩
  | skip htop _ ih => exact ih (h.skip htop)
  | push htop hunit _ ih => exact ih (h.push (List.mem_of_find?_eq_some hunit))
  | pop htop hvisited _ ih =>
    refine ih (h.pop htop fun u hu => ?_)
    simpa using List.find?_eq_none.1 hvisited u hu

theorem Closing.get?_visited (h : Closing s target U visited [] r) (hu : unit ∈ visited) :
    r.engine.store.get? unit = none := by
  cases hlive : r.engine.store.get? unit with
  | none => rfl
  | some st => cases h.pending unit hu st hlive

/-- When a statement is gone, so is its unit: a context that is left has its assumptions. -/
theorem Closing.get?_unit (h : Closing s target U visited stack r) (hh : s.graph.Housed)
    (hx : r.engine.store.get? x = none) (hunit : s.unitOf x = some unit) :
    r.engine.store.get? unit = none := by
  obtain ⟨st, hst, hunit⟩ := Option.bind_eq_some_iff.1 hunit
  split at hunit
  case isFalse =>
    cases hunit
    exact hx
  case isTrue hassumption =>
    obtain ⟨su, hsu, -, hlisted⟩ := listed_of_live hh hst hassumption hunit
    cases hlive : r.engine.store.get? unit with
    | none => rfl
    | some su' =>
      cases hsu.symm.trans (h.kept unit su' hlive)
      obtain ⟨sx, hsx, -⟩ := live_of_listed h.standing.housed hlive hlisted
      cases hx.symm.trans hsx

theorem Closing.get?_closure (h : Closing s target U visited [] r) (hh : s.graph.Housed)
    (htarget : s.get? target = some st) (hx : s.InCascade target x) :
    r.engine.store.get? x = none := by
  induction hx with
  | target => exact h.get?_visited h.start
  | @inside x c hc hx ih =>
    cases hlive : r.engine.store.get? x with
    | none => rfl
    | some sx =>
      -- what is left has its owner
      have howner : sx.owner = some c := by
        rwa [ownerOf, h.kept x sx hlive] at hx
      obtain ⟨co, -, hco, -⟩ := h.standing.housed.owned x _ c (graph_of_get? hlive) howner
      obtain ⟨so, hso, -⟩ := graph_eq_some.1 hco
      cases ih.symm.trans hso
  | @dependent d x u sx hd hsx hdep hu ih =>
    obtain ⟨sd, hsd⟩ := hd.live hh.owned htarget
    cases hlive : r.engine.store.get? x with
    | none => exact h.get?_unit hh hlive hu
    | some sx' =>
      cases hsx.symm.trans (h.kept x sx' hlive)
      exact h.get?_visited (h.owed x sx d sd u hlive hdep hsd ih hu)

theorem closing_start {e : Engine} (hi : e.store.Indexed) (hh : e.store.graph.Housed)
    (htarget : e.store.get? target = some st) (hplain : st.isAssumption = false) :
    Closing e.store target e.store.mentioned [target] [target] { engine := e } where
  standing := by
    refine ⟨hi, hh, ?_, fun x sx hsx => mem_mentioned hi hsx⟩
    intro u hu su hsu
    cases List.mem_singleton.1 hu
    cases htarget.symm.trans hsu
    exact hplain
  kept _ _ h := h
  gone x sx hsx hx := by cases hsx.symm.trans hx
  start := List.mem_singleton_self target
  stacked _ hu := hu
  closure u hu := by
    rw [List.mem_singleton.1 hu]
    exact .target
  pending _ hu _ _ := hu
  owed x sx d sd u _ _ hsd hd := by cases hsd.symm.trans hd

/-- What a cascade leaves of a store: all that is not in the closure, which is reported. -/
structure Sweeps (s : Store) (target : StatementId) (r : Removal) : Prop where
  once : r.removed.Nodup
  removed : ∀ x, x ∈ r.removed ↔ s.InCascade target x
  left : ∀ x st, r.engine.store.get? x = some st ↔ s.get? x = some st ∧ ¬s.InCascade target x
  owner : ∀ x st o, r.engine.store.get? x = some st → st.owner = some o → ¬s.InCascade target o
  dependency : ∀ x st u d, r.engine.store.get? x = some st → s.unitOf x = some u →
    d ∈ st.dependencies → ¬s.InCascade target d

theorem Closing.sweeps (h : Closing s target U visited [] r) (ha : Accounts s r)
    (hh : s.graph.Housed) (htarget : s.get? target = some st) : Sweeps s target r where
  once := ha.once
  removed x := by
    rw [ha.mem_removed]
    constructor
    · rintro ⟨⟨sx, hsx⟩, hgone⟩
      exact h.gone x sx hsx hgone
    · intro hx
      exact ⟨hx.live hh.owned htarget, h.get?_closure hh htarget hx⟩
  left x sx := by
    constructor
    · intro hsx
      refine ⟨h.kept x sx hsx, fun hx => ?_⟩
      cases hsx.symm.trans (h.get?_closure hh htarget hx)
    · rintro ⟨hsx, hx⟩
      cases hlive : r.engine.store.get? x with
      | none => exact absurd (h.gone x sx hsx hlive) hx
      | some sx' => rw [← hsx, h.kept x sx' hlive]
  owner x sx o hsx howner ho := by
    obtain ⟨c, -, hc, -⟩ := h.standing.housed.owned x _ o (graph_of_get? hsx) howner
    obtain ⟨so, hso, -⟩ := graph_eq_some.1 hc
    cases hso.symm.trans (h.get?_closure hh htarget ho)
  dependency x sx u d hsx hu hdep hd := by
    obtain ⟨sd, hsd⟩ := hd.live hh.owned htarget
    have hvisited := h.owed x sx d sd u hsx hdep hsd (h.get?_closure hh htarget hd) hu
    have hgone := h.get?_visited hvisited
    rw [← h.unitOf_eq hsx] at hu
    obtain ⟨-, su, hsu, -⟩ := unitOf_eq_some h.standing.housed.owned hu
    cases hgone.symm.trans hsu

theorem sweeps_cascade {e : Engine} (hi : e.store.Indexed) (hh : e.store.graph.Housed)
    (htarget : e.store.get? target = some st) (hplain : st.isAssumption = false) :
    Drains t [target] [target] { engine := e }
        (cascade t (2 * e.store.mentioned.length + 2) [target] [target] { engine := e }) ∧
      Sweeps e.store target
        (cascade t (2 * e.store.mentioned.length + 2) [target] [target] { engine := e }) := by
  have hstart := closing_start hi hh htarget hplain
  have hle := List.length_filter_le (· ∉ [target]) e.store.mentioned
  have hdrains : Drains t [target] [target] { engine := e }
      (cascade t (2 * e.store.mentioned.length + 2) [target] [target] { engine := e }) := by
    apply hstart.standing.drains
    rw [List.length_singleton]
    omega
  obtain ⟨visited, hdone⟩ := hstart.drains hdrains
  exact ⟨hdrains, hdone.sweeps ((accounts_start hi).runs (runs_cascade _ _ _ _)) hh htarget⟩

end Removal

/-! ### The operation -/

namespace Engine

open Store Removal

variable {t : TransactionId} {e e' : Engine} {context id target : StatementId} {st : Statement}
  {removed : List StatementId}

theorem perform_carryOut {work : Removal → Removal} : (carryOut t work).perform e =
    (.ok (work { engine := e }).removed, (work { engine := e }).record t) := rfl

theorem perform_removeCascade (hh : e.store.graph.Housed) (hopen : e.isOpen t = true)
    (hst : e.store.get? id = some st) (howner : st.owner = some context)
    (hunit : e.store.unitOf id = some target) :
    (removeCascade t context id).perform e =
      (lockAll t (e.store.cascadeOf target) >>= fun _ => carryOut t fun r =>
        (cascade t (2 * e.store.mentioned.length + 2) [target] [target] r).recheck t).perform
          e := by
  obtain ⟨c, data, hc, hk⟩ := hh.owned id _ context (graph_of_get? hst) howner
  obtain ⟨sc, hsc, rfl⟩ := graph_eq_some.1 hc
  have hcontext : e.store.requireContext context = .ok sc :=
    requireContext_eq_ok.2 ⟨hsc, Statement.isContext_iff.2 ⟨data, hk⟩⟩
  have htarget : (if st.isAssumption then context else id) = target := by
    rw [unitOf, hst, Option.bind_some, howner] at hunit
    split at hunit <;> simp_all
  rw [removeCascade, perform_bind, perform_ensureOpen hopen]
  dsimp only
  rw [perform_get_bind, hcontext, require_eq_ok.2 hst]
  rw [perform_ok_bind, perform_ok_bind, if_neg (not_not_intro howner), htarget]

/-- A cascading removal locks the closure and removes it; its loops end of themselves. What is left
depends on what is gone only if it is an assumption without an owner, which cannot be removed. -/
structure Cascaded (t : TransactionId) (target : StatementId) (e e' : Engine)
    (removed : List StatementId) : Prop where
  ends : ∃ e₁ r, (lockAll t (e.store.cascadeOf target)).perform e = (.ok (), e₁) ∧
    Drains t [target] [target] { engine := e₁ } r ∧
    (r.engine.derivation t r.solved.toList).queue = [] ∧
    removed = r.removed ∧ e' = (r.recheck t).record t
  once : removed.Nodup
  closure : ∀ x, x ∈ removed ↔ e.store.InCascade target x
  planned : ∀ x, x ∈ e.store.cascadeOf target ↔ x ∈ removed
  locked : ∀ x, e'.locks.owner? x = if x ∈ removed then some t else e.locks.owner? x
  left : ∀ x c, e'.store.graph x = some c ↔ e.store.graph x = some c ∧ x ∉ removed
  owner : ∀ x c o, e'.store.graph x = some c → c.owner = some o → o ∉ removed
  dependency : ∀ x c d, e'.store.graph x = some c → d ∈ c.dependencies → d ∈ removed →
    c.owner = none ∧ ∃ i, c.kind = .assumption i

/-- Only an assumption without an owner has no unit. -/
theorem unitOf_eq_none {s : Store} (hst : s.get? x = some st) (h : s.unitOf x = none) :
    st.owner = none ∧ ∃ i, st.kind = .assumption i := by
  rw [unitOf, hst, Option.bind_some, Statement.isAssumption] at h
  cases hk : st.kind with
  | assumption i =>
    rw [hk] at h
    exact ⟨h, i, rfl⟩
  | _ =>
    rw [hk] at h
    cases h

theorem cascaded_of_sweeps {e₁ : Engine} {r : Removal} (hi : e.store.Indexed)
    (hplan : ∀ x, x ∈ e.store.cascadeOf target ↔ e.store.InCascade target x)
    (hlock : (lockAll t (e.store.cascadeOf target)).perform e = (.ok (), e₁))
    (hruns : Runs t { engine := e₁ } r) (hdrains : Drains t [target] [target] { engine := e₁ } r)
    (hsweeps : Sweeps e.store target r) :
    Cascaded t target e ((r.recheck t).record t) r.removed := by
  have hstore : e₁.store = e.store := store_lockAll hlock
  have hir : r.engine.store.Indexed :=
    ((accounts_start (hstore ▸ hi)).runs hruns).indexed
  have hgraph (x : StatementId) : ((r.recheck t).record t).store.graph x =
      r.engine.store.graph x := by
    rw [record, store_onTransaction, graph_recheck hir]
  have hleft (x : StatementId) (c : Content) : r.engine.store.graph x = some c ↔
      e.store.graph x = some c ∧ x ∉ r.removed := by
    simp only [graph_eq_some, hsweeps.left, hsweeps.removed]
    tauto
  have hlocks : ((r.recheck t).record t).locks = e₁.locks :=
    ((sameLocks_of_runs hruns).trans (sameLocks_recheck r)).trans sameLocks_onTransaction
  refine ⟨⟨e₁, r, hlock, hdrains, queue_derivation hir, rfl, rfl⟩, hsweeps.once, hsweeps.removed,
    ?_, ?_, ?_, ?_, ?_⟩
  · intro x
    rw [hplan, hsweeps.removed]
  · intro x
    have hmem : x ∈ (e.store.cascadeOf target).toList ↔ x ∈ r.removed := by
      rw [IdSet.mem_toList, hplan, hsweeps.removed]
    rw [hlocks, forM_lock_granted hlock]
    simp only [hmem]
  · intro x c
    rw [hgraph, hleft]
  · intro x c o hx howner
    rw [hgraph] at hx
    obtain ⟨sx, hsx, rfl⟩ := graph_eq_some.1 hx
    rw [hsweeps.removed]
    exact hsweeps.owner x sx o hsx howner
  · intro x c d hx hd hgone
    obtain ⟨sx, hsx, rfl⟩ := graph_eq_some.1 ((hgraph x).symm.trans hx)
    obtain ⟨sx', hsx', hcontent⟩ := graph_eq_some.1 ((hleft x sx.content).1 (graph_of_get? hsx)).1
    have hunit : e.store.unitOf x = none := by
      rw [Option.eq_none_iff_forall_ne_some]
      exact fun u hu => hsweeps.dependency x sx u d hsx hu hd ((hsweeps.removed d).1 hgone)
    obtain ⟨howner, hkind⟩ := unitOf_eq_none hsx' hunit
    rw [← hcontent]
    exact ⟨howner, hkind⟩

/-- A cascading removal removes exactly the closure of the unit, if nobody else has locks there. -/
theorem removeCascade_closure (hi : e.store.Indexed) (hh : e.store.graph.Housed)
    (hst : e.store.get? id = some st) (howner : st.owner = some context)
    (hunit : e.store.unitOf id = some target) :
    Walk.Explores e.store.unitsOn [target] [target]
        (Walk.reach e.store.unitsOn (e.store.mentioned.length + 1) [target]) ∧
      ((∃ removed e', (removeCascade t context id).perform e = (.ok removed, e')) ↔
        e.isOpen t = true ∧
          ∀ x, e.store.InCascade target x → ∀ t', e.locks.owner? x = some t' → t' = t) ∧
      ∀ removed e', (removeCascade t context id).perform e = (.ok removed, e') →
        Cascaded t target e e' removed := by
  obtain ⟨-, sx, htarget, hplain⟩ := unitOf_eq_some hh.owned hunit
  have hplan (x : StatementId) : x ∈ e.store.cascadeOf target ↔ e.store.InCascade target x :=
    mem_cascadeOf hi hh.owned htarget hplain
  refine ⟨explores_units hi hh.owned, ?_⟩
  cases hopen : e.isOpen t with
  | false =>
    rw [removeCascade, perform_closed hopen]
    simp
  | true =>
    have hfree := forM_lock_ok_iff (l := (e.store.cascadeOf target).toList) hopen
    simp only [IdSet.mem_toList, hplan] at hfree
    simp only [perform_removeCascade hh hopen hst howner hunit, true_and, ← hfree]
    rw [perform_bind]
    cases hlock : (lockAll t (e.store.cascadeOf target)).perform e with
    | mk answer e₁ =>
      rw [lockAll] at hlock
      cases answer with
      | error f =>
        rw [hlock]
        simp only [Prod.mk.injEq, reduceCtorEq, false_and, exists_false, false_implies,
          implies_true, and_self]
      | ok u =>
        have hstore : e₁.store = e.store := store_lockAll hlock
        obtain ⟨hdrains, hsweeps⟩ := sweeps_cascade (t := t) (e := e₁) (hstore ▸ hi) (hstore ▸ hh)
          (hstore ▸ htarget) hplain
        rw [hstore] at hdrains hsweeps
        have hremoved (r : Removal) : (r.recheck t).removed = r.removed := by
          rw [Removal.removed, recheck_fields.2, Removal.removed]
        dsimp only
        rw [perform_carryOut, hremoved, hlock]
        refine ⟨⟨fun _ => ⟨e₁, rfl⟩, fun _ => ⟨_, _, rfl⟩⟩, ?_⟩
        intro removed e' hrun
        cases hrun
        exact cascaded_of_sweeps hi hplan hlock (runs_cascade _ _ _ _) hdrains hsweeps

/-- Whether owners are contexts and assumptions are listed can be told from the records. -/
theorem housed_of_values {s : Store} (hi : s.Indexed)
    (howned : ∀ st ∈ s.statements.values, ∀ o ∈ st.owner, ∃ so ∈ s.statements.values,
      so.id = o ∧ so.isContext = true)
    (hlisted : ∀ st ∈ s.statements.values, ∀ a ∈ st.assumptions, ∃ sa ∈ s.statements.values,
      sa.id = a ∧ sa.owner = some st.id ∧ sa.isAssumption = true)
    (hlists : ∀ sa ∈ s.statements.values, sa.isAssumption = true →
      ∀ st ∈ s.statements.values, sa.owner = some st.id → sa.id ∈ st.assumptions) :
    s.graph.Housed := by
  have hlive (st : Statement) (hst : st ∈ s.statements.values) : s.get? st.id = some st := by
    obtain ⟨x, hx⟩ := Table.mem_values.1 hst
    rw [hi.keyed x st hx]
    exact hx
  constructor
  · intro x c o hx ho
    obtain ⟨st, hst, rfl⟩ := graph_eq_some.1 hx
    obtain ⟨so, hso, rfl, hcontext⟩ := howned st (Table.mem_values.2 ⟨x, hst⟩) o ho
    obtain ⟨data, hk⟩ := Statement.isContext_iff.1 hcontext
    exact ⟨so.content, data, graph_of_get? (hlive so hso), hk⟩
  · intro x c data a hx hk
    obtain ⟨st, hst, rfl⟩ := graph_eq_some.1 hx
    have hmem := Table.mem_values.2 ⟨x, hst⟩
    have hid := hi.keyed x st hst
    constructor
    · intro ha
      obtain ⟨sa, hsa, rfl, howner, hassumption⟩ :=
        hlisted st hmem a (Statement.mem_assumptions.2 ⟨data, hk, ha⟩)
      obtain ⟨i, hkind⟩ := Statement.isAssumption_iff.1 hassumption
      exact ⟨sa.content, i, graph_of_get? (hlive sa hsa), howner.trans (congrArg some hid), hkind⟩
    · rintro ⟨ca, i, hca, howner, hkind⟩
      obtain ⟨sa, hsa, rfl⟩ := graph_eq_some.1 hca
      have hlist := hlists sa (Table.mem_values.2 ⟨a, hsa⟩)
        (Statement.isAssumption_iff.2 ⟨i, hkind⟩) st hmem (howner.trans (congrArg some hid.symm))
      rw [hi.keyed a sa hsa] at hlist
      obtain ⟨data', hk', ha⟩ := Statement.mem_assumptions.1 hlist
      cases hk.symm.trans hk'
      exact ha

/-- A record without a name whose term says nothing. -/
def bareRecord (id : Nat) (owner : Option StatementId) (dependencies : List StatementId)
    (kind : StatementKind) : Statement :=
  { id := .after id, owner, term := .tau, proved := false
    dependencies := IdSet.ofList dependencies, identifier := none, kind }

/-- Two declarations that depend on each other, and a context that one of them holds up. -/
def knot : List Statement :=
  [bareRecord 0 none [] (.context ⟨.root, [], .tau⟩),
    bareRecord 1 (some (.after 0)) [.after 2] (.declaration .tau),
    bareRecord 2 (some (.after 0)) [.after 1] (.declaration .tau),
    bareRecord 3 (some (.after 0)) [] (.context ⟨.nested, [.after 4], .tau⟩),
    bareRecord 4 (some (.after 3)) [.after 2] (.assumption 0)]

def knotted : Engine :=
  { ((inMemory {}).begin none).2 with store := knot.foldl Store.write {} }

theorem knotted_cascades : ∃ removed e',
    (removeCascade ⟨1⟩ (.after 0) (.after 1)).perform knotted = (.ok removed, e') ∧
      Cascaded ⟨1⟩ (.after 1) knotted e' removed ∧
      removed = [.after 4, .after 3, .after 2, .after 1] := by
  have hi : knotted.store.Indexed :=
    indexed_empty.write.write.write.write.write
  have hh : knotted.store.graph.Housed :=
    housed_of_values hi (by decide +kernel) (by decide +kernel) (by decide +kernel)
  obtain ⟨-, hok, hcascaded⟩ := @removeCascade_closure ⟨1⟩ knotted (.after 0) (.after 1) (.after 1)
    _ hi hh rfl rfl (by decide +kernel)
  obtain ⟨removed, e', hrun⟩ := hok.2 ⟨rfl, fun _ _ _ h => by cases h⟩
  refine ⟨removed, e', hrun, hcascaded removed e' hrun, ?_⟩
  have hremoved : ((removeCascade ⟨1⟩ (.after 0) (.after 1)).perform knotted).1.toOption =
      some [.after 4, .after 3, .after 2, .after 1] := by
    decide +kernel
  rw [hrun] at hremoved
  exact Option.some.inj hremoved

/-- A root with a declaration, and an assumption without an owner that depends on it. -/
def strayed : Engine :=
  { ((inMemory {}).begin none).2 with
    store := [bareRecord 0 none [] (.context ⟨.root, [], .tau⟩),
      bareRecord 1 (some (.after 0)) [] (.declaration .tau),
      bareRecord 2 none [.after 1] (.assumption 0)].foldl Store.write {} }

/-- The assumption is left, and what it depends on is gone. -/
theorem strayed_assumption_left :
    strayed.store.Indexed ∧ strayed.store.graph.Housed ∧
      ∃ e', (removeCascade ⟨1⟩ (.after 0) (.after 1)).perform strayed = (.ok [.after 1], e') ∧
        e'.store.contains (.after 1) = false ∧
        (e'.store.get? (.after 2)).map (·.dependencies.toList) = some [.after 1] := by
  have hi : strayed.store.Indexed := indexed_empty.write.write.write
  exact ⟨hi, housed_of_values hi (by decide +kernel) (by decide +kernel) (by decide +kernel),
    ((removeCascade ⟨1⟩ (.after 0) (.after 1)).perform strayed).2,
    performs_of_toOption (by decide +kernel), by decide +kernel, by decide +kernel⟩

end Engine

end StatementGraph
