import StatementGraph.Proofs.Removing
import StatementGraph.Proofs.Restorable

namespace StatementGraph

theorem Graph.Sees.eq_top {G : Graph} {x y top : StatementId} (h : G.Sees x y)
    (hy : G.Within y top) (hx : ¬G.Within x top) : y = top := by
  obtain ⟨c, o, hc, ho, hw⟩ := h
  rcases (within_iff_owner (ownerOf_eq.2 ⟨c, hc, ho⟩)).1 hy with rfl | hwo
  · rfl
  · exact absurd (hw.trans hwo) hx

namespace Store

variable {s : Store} {x y u unit : StatementId} {members : IdSet}

theorem mem_outsideDependents (hi : s.Indexed) : y ∈ s.outsideDependents members ↔
    (∃ x ∈ members, ∃ c, s.graph y = some c ∧ x ∈ c.dependencies) ∧ y ∉ members := by
  simp only [outsideDependents, IdSet.mem_ofList, List.mem_filter, List.mem_flatMap,
    IdSet.mem_toList, hi.mem_dependentsOf, decide_eq_true_iff]

theorem mem_mentioned {st : Statement} (hi : s.Indexed) (hst : s.get? x = some st) :
    x ∈ s.mentioned := by
  refine List.mem_flatMap.2 ⟨st, Table.mem_values.2 ⟨x, hst⟩, ?_⟩
  rw [hi.keyed x st hst]
  exact List.mem_cons_self

theorem unitOf_eq_some (howned : s.graph.Owned) (h : s.unitOf x = some u) :
    s.graph.Within x u ∧ ∃ st, s.get? u = some st ∧ st.isAssumption = false := by
  obtain ⟨st, hst, h⟩ := Option.bind_eq_some_iff.1 h
  split at h
  case isTrue =>
    have ho : s.graph.ownerOf x = some u := Graph.ownerOf_eq.2 ⟨st.content, graph_of_get? hst, h⟩
    obtain ⟨c, data, hc, hk⟩ := howned.owner ho
    obtain ⟨su, hsu, rfl⟩ := graph_eq_some.1 hc
    have hk : su.kind = .context data := hk
    exact ⟨.single ho, su, hsu, by rw [Statement.isAssumption, hk]⟩
  case isFalse hplain =>
    cases h
    exact ⟨.refl, st, hst, by simpa using hplain⟩

theorem mem_unitsOn (hi : s.Indexed) (ho : s.graph.Owned) : u ∈ s.unitsOn unit ↔
    ∃ x c d, s.graph x = some c ∧ d ∈ c.dependencies ∧ s.graph.Within d unit ∧
      ¬s.graph.Within x unit ∧ s.unitOf x = some u ∧ ∃ st, s.get? unit = some st := by
  rw [unitsOn]
  cases hst : s.get? unit with
  | none => simp
  | some st =>
    simp only [List.mem_filterMap, IdSet.mem_toList, mem_outsideDependents hi,
      mem_membersOf hi ho hst]
    constructor
    · rintro ⟨x, ⟨⟨d, hd, c, hc, hdep⟩, hout⟩, hu⟩
      exact ⟨x, c, d, hc, hdep, hd, hout, hu, st, rfl⟩
    · rintro ⟨x, c, d, hc, hdep, hd, hout, hu, -⟩
      exact ⟨x, ⟨⟨d, hd, c, hc, hdep⟩, hout⟩, hu⟩

theorem lt_of_mem_unitsOn {H : Graph} {D : Discipline} {st : Statement} (hH : H.Lawful D)
    (hs : s.graph.Sub H) (hc : s.graph.Closed) (hi : s.Indexed) (hst : s.get? unit = some st)
    (hplain : st.isAssumption = false) (hu : u ∈ s.unitsOn unit) : unit < u := by
  obtain ⟨x, c, d, hx, hd, hin, hout, hunit, -⟩ :=
    (mem_unitsOn hi (hH.forest_of_sub hs hc.owner).owned).1 hu
  obtain ⟨o, ho, hsees⟩ := hH.scoped_of_sub hs hc x c d hx hd
  have htop : d = unit := by
    apply hsees.eq_top hin
    intro hw
    exact hout (.head (Graph.ownerOf_eq.2 ⟨c, hx, ho⟩) hw)
  subst htop
  obtain ⟨sx, hsx, rfl⟩ := graph_eq_some.1 hx
  rw [unitOf, hsx, Option.bind_some] at hunit
  split at hunit
  case isFalse =>
    cases hunit
    exact ((hH u _ (hs u _ hx)).dependency d hd).1
  case isTrue hassumption =>
    obtain ⟨i, hk⟩ := Statement.isAssumption_iff.1 hassumption
    rcases hH.assumption_dependency (hs x _ hx) hk hunit hd with hlt | ⟨cd, j, hcd, hkd⟩
    · exact hlt
    · cases (hs d _ (graph_of_get? hst)).symm.trans hcd
      rw [Statement.isAssumption_iff.2 ⟨j, hkd⟩] at hplain
      cases hplain

end Store

namespace Removal

open Engine Store

variable {t : TransactionId} {H : Graph} {D : Discipline} {e : Engine} {r : Removal}
  {visited stack U : List StatementId} {top unit : StatementId}

/-- How a cascade goes on, and what it leaves in the end, with no bound on its steps. -/
inductive Drains (t : TransactionId) :
    List StatementId → List StatementId → Removal → Removal → Prop where
  | done {visited : List StatementId} {r : Removal} : Drains t visited [] r r
  | skip {visited stack : List StatementId} {top : StatementId} {r r' : Removal}
      (htop : r.engine.store.get? top = none) (h : Drains t visited stack r r') :
      Drains t visited (top :: stack) r r'
  | push {visited stack : List StatementId} {top unit : StatementId} {r r' : Removal}
      {st : Statement} (htop : r.engine.store.get? top = some st)
      (hunit : (r.engine.store.unitsOn top).find? (· ∉ visited) = some unit)
      (h : Drains t (unit :: visited) (unit :: top :: stack) r r') :
      Drains t visited (top :: stack) r r'
  | pop {visited stack : List StatementId} {top : StatementId} {r r' : Removal}
      {st : Statement} (htop : r.engine.store.get? top = some st)
      (hvisited : (r.engine.store.unitsOn top).find? (· ∉ visited) = none)
      (h : Drains t visited stack (r.removeTree t top) r') :
      Drains t visited (top :: stack) r r'

/-- Trees can be taken out of the store, and no unit on the stack is an assumption. -/
structure Standing (U stack : List StatementId) (r : Removal) : Prop where
  indexed : r.engine.store.Indexed
  housed : r.engine.store.graph.Housed
  plain : ∀ u ∈ stack, ∀ st, r.engine.store.get? u = some st → st.isAssumption = false
  bounded : ∀ x st, r.engine.store.get? x = some st → x ∈ U

theorem Standing.live_unit (h : Standing U (top :: stack) r)
    (hunit : unit ∈ r.engine.store.unitsOn top) :
    ∃ st, r.engine.store.get? unit = some st ∧ st.isAssumption = false := by
  obtain ⟨x, -, -, -, -, -, -, hx, -⟩ := (mem_unitsOn h.indexed h.housed.owned).1 hunit
  exact (unitOf_eq_some h.housed.owned hx).2

theorem Standing.push (h : Standing U (top :: stack) r)
    (hunit : unit ∈ r.engine.store.unitsOn top) : Standing U (unit :: top :: stack) r where
  indexed := h.indexed
  housed := h.housed
  plain u hu st hst := by
    rcases List.mem_cons.1 hu with rfl | hu
    · obtain ⟨su, hsu, hplain⟩ := h.live_unit hunit
      cases hst.symm.trans hsu
      exact hplain
    · exact h.plain u hu st hst
  bounded := h.bounded

theorem Standing.pop (h : Standing U (top :: stack) r) :
    Standing U stack (r.removeTree t top) where
  indexed := indexed_removeTree h.indexed
  housed := housed_removeTree h.indexed h.housed (h.plain top List.mem_cons_self)
  plain u hu st hst :=
    h.plain u (List.mem_cons_of_mem _ hu) st ((get?_removeTree h.indexed h.housed).1 hst).1
  bounded x st hst := h.bounded x st ((get?_removeTree h.indexed h.housed).1 hst).1

/-- The steps suffice: each takes a unit off the stack or visits a new one. -/
theorem Standing.drains (h : Standing U stack r) (steps : Nat)
    (hsteps : 2 * (U.filter (· ∉ visited)).length + stack.length ≤ steps) :
    Drains t visited stack r (cascade t steps visited stack r) := by
  induction steps generalizing visited stack r with
  | zero =>
    obtain rfl : stack = [] := List.eq_nil_of_length_eq_zero (by omega)
    exact .done
  | succ steps ih =>
    cases stack with
    | nil => exact .done
    | cons top stack =>
      rw [List.length_cons] at hsteps
      rw [cascade]
      split
      case isTrue hlive =>
        obtain ⟨st, hst⟩ := Table.contains_iff.1 hlive
        split
        case h_1 unit hfind =>
          have hunit := List.mem_of_find?_eq_some hfind
          have hnew : unit ∉ visited := by simpa using List.find?_some hfind
          -- the unit counts twice while it is new: once for being visited, once for being removed
          obtain ⟨su, hsu, -⟩ := h.live_unit hunit
          have hlt := Walk.length_unseen_lt (h.bounded unit su hsu) hnew
          exact .push hst hfind (ih (h.push hunit) (by simp only [List.length_cons]; omega))
        case h_2 hfind => exact .pop hst hfind (ih h.pop (by omega))
      case isFalse hdead =>
        have hgone : r.engine.store.get? top = none :=
          Option.eq_none_iff_forall_ne_some.2 fun st hst => hdead (Table.contains_iff.2 ⟨st, hst⟩)
        have hrest : Standing U stack r :=
          { h with plain := fun u hu => h.plain u (List.mem_cons_of_mem _ hu) }
        exact .skip hgone (ih hrest (by omega))

theorem Cut.unitOf_live {x : StatementId} {st : Statement} (h : Cut t H e r) (hs : Sound D t H e)
    (hst : r.engine.store.get? x = some st) : ∃ u, r.engine.store.unitOf x = some u := by
  rw [unitOf, hst, Option.bind_some, Statement.isAssumption]
  split
  case h_1 i hk =>
    obtain ⟨o, -, -, ho, -⟩ := hs.lawful.assumption (h.sub hs x _ (graph_of_get? hst)) hk
    exact ⟨o, ho⟩
  case h_2 => exact ⟨x, rfl⟩

/-- A cascade under way: what is left depends on nothing that is gone. -/
structure Cascading (t : TransactionId) (H : Graph) (e : Engine)
    (visited stack : List StatementId) (r : Removal) : Prop where
  cut : Cut t H e r
  closed : r.engine.store.graph.Closed
  plain : ∀ u ∈ stack, ∀ st, r.engine.store.get? u = some st → st.isAssumption = false
  pending : ∀ u ∈ visited, ∀ st, r.engine.store.get? u = some st → u ∈ stack
  descending : stack.Pairwise fun a b => b < a
  undoable : r.Undoable

theorem Cascading.skip (h : Cascading t H e visited (top :: stack) r)
    (htop : r.engine.store.get? top = none) : Cascading t H e visited stack r where
  cut := h.cut
  closed := h.closed
  plain u hu := h.plain u (List.mem_cons_of_mem _ hu)
  pending u hu st hst := by
    apply (List.mem_cons.1 (h.pending u hu st hst)).resolve_left
    rintro rfl
    cases htop.symm.trans hst
  descending := (List.pairwise_cons.1 h.descending).2
  undoable := h.undoable

theorem Cascading.lt_unit (h : Cascading t H e visited (top :: stack) r) (hs : Sound D t H e)
    {st : Statement} (hst : r.engine.store.get? top = some st)
    (hunit : unit ∈ r.engine.store.unitsOn top) : top < unit :=
  lt_of_mem_unitsOn hs.lawful (h.cut.sub hs) h.closed h.cut.indexed hst
    (h.plain top List.mem_cons_self st hst) hunit

theorem Cascading.push (h : Cascading t H e visited (top :: stack) r) (hs : Sound D t H e)
    {st : Statement} (hst : r.engine.store.get? top = some st)
    (hunit : unit ∈ r.engine.store.unitsOn top) :
    Cascading t H e (unit :: visited) (unit :: top :: stack) r where
  cut := h.cut
  closed := h.closed
  plain u hu st hst := by
    rcases List.mem_cons.1 hu with rfl | hu
    · have hf := h.cut.forest hs h.closed.owner
      obtain ⟨x, -, -, -, -, -, -, hx, -⟩ := (mem_unitsOn h.cut.indexed hf.owned).1 hunit
      obtain ⟨-, su, hsu, hplain⟩ := unitOf_eq_some hf.owned hx
      cases hst.symm.trans hsu
      exact hplain
    · exact h.plain u hu st hst
  pending u hu st hst := by
    rcases List.mem_cons.1 hu with rfl | hu
    · exact List.mem_cons_self
    · exact List.mem_cons_of_mem _ (h.pending u hu st hst)
  descending := by
    have hlt := h.lt_unit hs hst hunit
    refine List.pairwise_cons.2 ⟨?_, h.descending⟩
    intro u hu
    rcases List.mem_cons.1 hu with rfl | hu
    · exact hlt
    · exact Nat.lt_trans ((List.pairwise_cons.1 h.descending).1 u hu) hlt
  undoable := h.undoable

theorem Cascading.unitsOn_eq_nil (h : Cascading t H e visited (top :: stack) r)
    (hs : Sound D t H e) {st : Statement} (hst : r.engine.store.get? top = some st)
    (hvisited : ∀ u ∈ r.engine.store.unitsOn top, u ∈ visited) :
    r.engine.store.unitsOn top = [] := by
  apply List.eq_nil_iff_forall_not_mem.2
  intro u hu
  have hf := h.cut.forest hs h.closed.owner
  obtain ⟨x, -, -, -, -, -, -, hx, -⟩ := (mem_unitsOn h.cut.indexed hf.owned).1 hu
  obtain ⟨-, su, hsu, -⟩ := unitOf_eq_some hf.owned hx
  have hlt : top < u := h.lt_unit hs hst hu
  rcases List.mem_cons.1 (h.pending u (hvisited u hu) su hsu) with rfl | hmem
  · exact Nat.lt_irrefl _ hlt
  · exact Nat.lt_irrefl _ (Nat.lt_trans hlt ((List.pairwise_cons.1 h.descending).1 u hmem))

/-- The top of the stack goes when all units that depend on it were visited. -/
theorem Cascading.pop (h : Cascading t H e visited (top :: stack) r) (hs : Sound D t H e)
    {st : Statement} (hst : r.engine.store.get? top = some st)
    (hvisited : ∀ u ∈ r.engine.store.unitsOn top, u ∈ visited) :
    Cascading t H e visited stack (r.removeTree t top) := by
  have hnone := h.unitsOn_eq_nil hs hst hvisited
  have hplain := h.plain top List.mem_cons_self
  obtain ⟨hcut, hleft⟩ := h.cut.removeTree hs h.closed.owner hplain
  have hf := h.cut.forest hs h.closed.owner
  refine ⟨hcut, ?_, ?_, ?_, (List.pairwise_cons.1 h.descending).2, ?_⟩
  · apply hcut.closed hs (rooted_removeTree h.closed.owner hleft)
    intro x sx d hsx hd
    obtain ⟨hsx, hout⟩ := (hleft x sx).1 hsx
    obtain ⟨c, hc⟩ := h.closed.dependency x _ d (graph_of_get? hsx) hd
    obtain ⟨sd, hsd, -⟩ := graph_eq_some.1 hc
    refine ⟨sd, (hleft d sd).2 ⟨hsd, ?_⟩⟩
    intro hin
    obtain ⟨u, hunit⟩ := h.cut.unitOf_live hs hsx
    have hmem : u ∈ r.engine.store.unitsOn top := (mem_unitsOn h.cut.indexed hf.owned).2
      ⟨x, sx.content, d, graph_of_get? hsx, hd, hin, hout, hunit, st, hst⟩
    rw [hnone] at hmem
    cases hmem
  · intro u hu su hsu
    exact h.plain u (List.mem_cons_of_mem _ hu) su ((hleft u su).1 hsu).1
  · intro u hu su hsu
    obtain ⟨hsu, hout⟩ := (hleft u su).1 hsu
    apply (List.mem_cons.1 (h.pending u hu su hsu)).resolve_left
    rintro rfl
    exact hout .refl
  · refine (h.cut.undoable_removeTree hs h.closed.owner hplain).2 ⟨h.undoable, ?_⟩
    rintro d ⟨x, sx, hsx, -, -, hd⟩
    exact h.closed.dependency x _ d (graph_of_get? hsx) hd

theorem Cascading.standing (h : Cascading t H e visited stack r) (hs : Sound D t H e)
    (hU : ∀ x st, e.store.get? x = some st → x ∈ U) : Standing U stack r where
  indexed := h.cut.indexed
  housed := h.cut.housed hs h.closed.owner
  plain := h.plain
  bounded x st hst := hU x st (h.cut.kept x st hst)

/-- A cascade keeps its invariant to the end, where the stack is empty. -/
theorem Cascading.drains {r' : Removal} (h : Cascading t H e visited stack r)
    (hs : Sound D t H e) (hd : Drains t visited stack r r') :
    ∃ visited', (∀ u ∈ visited, u ∈ visited') ∧ Cascading t H e visited' [] r' := by
  induction hd with
  | done => exact ⟨_, fun _ hu => hu, h⟩
  | skip htop _ ih => exact ih (h.skip htop)
  | push htop hunit _ ih =>
    obtain ⟨visited', hmore, hdone⟩ := ih (h.push hs htop (List.mem_of_find?_eq_some hunit))
    exact ⟨visited', fun u hu => hmore u (List.mem_cons_of_mem _ hu), hdone⟩
  | pop htop hvisited _ ih =>
    refine ih (h.pop hs htop fun u hu => ?_)
    simpa using List.find?_eq_none.1 hvisited u hu

theorem Cascading.run (h : Cascading t H e visited stack r) (hs : Sound D t H e)
    (hU : ∀ x st, e.store.get? x = some st → x ∈ U) (steps : Nat)
    (hsteps : 2 * (U.filter (· ∉ visited)).length + stack.length ≤ steps) :
    ∃ visited', (∀ u ∈ visited, u ∈ visited') ∧
      Cascading t H e visited' [] (cascade t steps visited stack r) :=
  h.drains hs ((h.standing hs hU).drains steps hsteps)

end Removal

end StatementGraph
