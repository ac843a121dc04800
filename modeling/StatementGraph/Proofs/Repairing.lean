import StatementGraph.Proofs.Listening
import StatementGraph.Proofs.Quiescence

namespace StatementGraph

/-- All to which the flag of a statement may matter, and the inside of that. -/
inductive Graph.InRegion (G : Graph) (x : StatementId) : StatementId → Prop where
  | self : InRegion G x x
  | inside {y z : StatementId} (hy : InRegion G x y) (ho : G.ownerOf z = some y) : InRegion G x z
  | dependent {y z : StatementId} {c : Content} (hy : InRegion G x y) (hz : G z = some c)
      (hd : y ∈ c.dependencies) : InRegion G x z
  | asking {y z o : StatementId} {cy c : Content} {data : ContextData} (hy : InRegion G x y)
      (hcy : G y = some cy) (ho : cy.owner = some o) (hz : G z = some c)
      (hk : c.kind = .context data) (ht : (data.consequent == cy.term) = true)
      (hw : G.Within z o) : InRegion G x z

namespace Store

variable {s : Store} {x y z : StatementId} {P : StatementId → Bool}

theorem mem_supported (hi : s.Indexed) : z ∈ s.supported y ↔
    s.graph.ownerOf z = some y ∨ (∃ c, s.graph z = some c ∧ y ∈ c.dependencies) ∨
    ∃ cy o c data, s.graph y = some cy ∧ cy.owner = some o ∧ s.graph z = some c ∧
      c.kind = .context data ∧ (data.consequent == cy.term) = true ∧ s.graph.Within z o := by
  rw [supported, List.mem_append, List.mem_append, or_assoc, hi.mem_localsOf, hi.mem_dependentsOf]
  refine or_congr_right (or_congr_right ⟨fun h => ?_, ?_⟩)
  · split at h
    case h_1 sy hsy =>
      split at h
      case h_1 o ho =>
        obtain ⟨⟨c, data, hc, hk, ht⟩, hw⟩ := (mem_contextsBelowByConsequent hi).1 h
        exact ⟨sy.content, o, c, data, graph_of_get? hsy, ho, hc, hk, ht, hw⟩
      case h_2 => cases h
    case h_2 => cases h
  · rintro ⟨cy, o, c, data, hcy, ho, hc, hk, ht, hw⟩
    obtain ⟨sy, hsy, rfl⟩ := graph_eq_some.1 hcy
    have ho : sy.owner = some o := ho
    simp only [hsy, ho]
    exact (mem_contextsBelowByConsequent hi).2 ⟨⟨c, data, hc, hk, ht⟩, hw⟩

theorem mem_region_iff (hi : s.Indexed) : y ∈ s.region [x] ↔ s.graph.InRegion x y := by
  rw [mem_region hi]
  simp only [List.mem_singleton, exists_eq_left]
  constructor
  · intro hreach
    induction hreach with
    | refl => exact .self
    | tail _ hstep ih =>
      rcases (mem_supported hi).1 hstep with
        ho | ⟨c, hz, hd⟩ | ⟨cy, o, c, data, hcy, ho, hz, hk, ht, hw⟩
      · exact .inside ih ho
      · exact .dependent ih hz hd
      · exact .asking ih hcy ho hz hk ht hw
  · intro hy
    induction hy with
    | self => exact .refl
    | inside _ ho ih => exact ih.tail ((mem_supported hi).2 (Or.inl ho))
    | dependent _ hz hd ih => exact ih.tail ((mem_supported hi).2 (Or.inr (Or.inl ⟨_, hz, hd⟩)))
    | asking _ hcy ho hz hk ht hw ih =>
      exact ih.tail ((mem_supported hi).2
        (Or.inr (Or.inr ⟨_, _, _, _, hcy, ho, hz, hk, ht, hw⟩)))

theorem explores_region (hi : s.Indexed) :
    Walk.Explores s.supported [x] [x] (Walk.reach s.supported (s.size + 1) [x]) :=
  Walk.explores_reach_singleton (fun _ _ => live_of_mem_supported hi)
    (Nat.add_le_add_right (Nat.le_of_eq length_ids) 1)

theorem announcement?_eq {s' : Store} (hg : s'.graph = s.graph) : s.announcement? s' x =
    if s'.isProved x = s.isProved x then none else some (.proved x (s'.isProved x)) := by
  have hlive : (s'.get? x).map Statement.content = (s.get? x).map Statement.content := congrFun hg x
  rw [announcement?, isProved, isProved]
  cases hold : s.get? x with
  | none =>
    rw [hold] at hlive
    rw [Option.map_eq_none_iff.1 hlive]
    rfl
  | some old =>
    rw [hold] at hlive
    obtain ⟨new, hnew, -⟩ := Option.map_eq_some_iff.1 hlive
    simp only [hnew, Option.any_some, eq_comm (a := old.proved)]

end Store

namespace Engine

open Store

variable {e : Engine} {t : TransactionId} {seeds : List StatementId} {x : StatementId}

theorem notices_rederive (hi : e.store.Indexed) :
    ∃ changed : List StatementId, changed.Nodup ∧
      (∀ y, y ∈ changed ↔ y ∈ e.store.region seeds ∧
        (e.rederive t seeds).2.store.isProved y ≠ e.store.isProved y) ∧
      (e.rederive t seeds).2.notices = e.notices ++ changed.flatMap fun y =>
        e.listeners.notices (.proved y ((e.rederive t seeds).2.store.isProved y)) := by
  have hderived : Confined (· ∈ e.store.region seeds) e (e.derivation t seeds).engine :=
    confined_derivation hi
  obtain ⟨-, hstore, hnotices⟩ := notifyAll_heard (t := t) (e := (e.derivation t seeds).engine)
    ((e.store.region seeds).toList.filterMap
      (e.store.announcement? (e.derivation t seeds).engine.store))
  rw [← announceChanges_eq] at hstore hnotices
  simp only [rederive_eq, hstore]
  refine ⟨(e.store.region seeds).toList.filter fun y =>
    (e.derivation t seeds).engine.store.isProved y ≠ e.store.isProved y,
    IdSet.nodup_toList.filter _, fun y => ?_, hnotices.trans ?_⟩
  · rw [List.mem_filter, IdSet.mem_toList, decide_eq_true_iff]
  · rw [hderived.unheard.1, hderived.unheard.2]
    congr 1
    induction (e.store.region seeds).toList with
    | nil => rfl
    | cons y rest ih =>
      rw [List.filterMap_cons, List.filter_cons, announcement?_eq hderived.graph]
      by_cases hflag : (e.derivation t seeds).engine.store.isProved y = e.store.isProved y
      · simpa [hflag] using ih
      · simpa [hflag] using ih

theorem isProved_rederive (hi : e.store.Indexed) (hx : x ∉ e.store.region seeds) :
    (e.rederive t seeds).2.store.isProved x = e.store.isProved x := by
  have hflag := (confined_derivation (t := t) hi).flags x hx
  have hstore : (e.rederive t seeds).2.store = (e.derivation t seeds).engine.store :=
    store_rederive
  have hany (s : Store) : s.isProved x = (s.flags x).getD false := by
    rw [isProved, flags]
    cases s.get? x <;> rfl
  rw [hstore, hany, hany, hflag]

theorem perform_rebuild (hopen : e.isOpen t = true) (hx : e.store.contains x = true) :
    (rebuild t x).perform e = (.ok (e.rederive t [x]).1, (e.rederive t [x]).2) := by
  obtain ⟨st, hst⟩ := Table.contains_iff.1 hx
  rw [rebuild, perform_bind, perform_ensureOpen hopen]
  dsimp only
  rw [perform_get_bind, require_eq_ok.2 hst]
  rfl

end Engine

/-- A rebuild makes flags right in the region that was written over, and tells who listens. -/
theorem Reached.rebuild_repairs {e : Engine} {t : TransactionId} {x : StatementId}
    {P : StatementId → Bool} (h : Reached (fun e op => op.Sequential e ∧ op.Faithful e) e)
    (hopen : e.isOpen t = true) (hx : e.store.contains x = true)
    (hP : ∀ y, ¬e.store.graph.InRegion x y → P y = e.store.isProved y) :
    let e₁ := { e with store := e.store.withFlags P }
    Walk.Explores e₁.store.supported [x] [x]
        (Walk.reach e₁.store.supported (e₁.store.size + 1) [x]) ∧
      (e₁.derivation t [x]).queue = [] ∧
      ∃ report e', (Engine.rebuild t x).perform e₁ = (.ok report, e') ∧
        IsLeast {P | e'.store.round P = P} e'.store.isProved ∧ e₁.store.Reflagged e'.store ∧
        (∀ y, ¬e.store.graph.InRegion x y → e'.store.isProved y = e₁.store.isProved y) ∧
        ∃ changed : List StatementId, changed.Nodup ∧
          (∀ y, y ∈ changed ↔
            e.store.graph.InRegion x y ∧ e'.store.isProved y ≠ e₁.store.isProved y) ∧
          (e'.notices = e₁.notices ++ changed.flatMap fun y =>
            e₁.listeners.notices (.proved y (e'.store.isProved y))) ∧
          ∀ handle label, e₁.listeners.Hears handle label → told label e'.notices =
            told label e₁.notices ++ changed.map fun y => .proved y (e'.store.isProved y) := by
  intro e₁
  obtain ⟨H, hsession⟩ := h.session (fun _ _ hop => hop.1) (fun _ _ hop => hop.2.offers)
  have hsettled := hsession.maintained.settled hsession.lawful
  have hi : e₁.store.Indexed := hsettled.indexed.withFlags
  have hgraph : e₁.store.graph = e.store.graph := Store.graph_withFlags
  have hforest : e₁.store.graph.Forest := hgraph ▸ hsettled.forest
  have hregion (y : StatementId) : y ∈ e₁.store.region [x] ↔ e.store.graph.InRegion x y :=
    (Store.mem_region_iff hi).trans (by rw [hgraph])
  have hoverwritten (y : StatementId) (hy : y ∉ e₁.store.region [x]) :
      e₁.store.Proved y ↔ e₁.store.graph.Derivable y := by
    rw [Store.proved_withFlags, hP y fun hin => hy ((hregion y).2 hin), hgraph,
      ← hsettled.proved_iff]
    exact and_iff_right_of_imp fun hp => (hsettled.derivable y hp).live
  have hcontains : e₁.store.contains x = true := by
    obtain ⟨st, hst⟩ := Table.contains_iff.1 hx
    exact Table.contains_iff.2 ⟨_, Store.get?_withFlags.trans (congrArg _ hst)⟩
  have hrepaired : (e₁.rederive t [x]).2.store.Settled :=
    Engine.settled_rederive hi hforest (hgraph ▸ hsettled.tracked) hoverwritten
  refine ⟨Store.explores_region hi, Engine.queue_derivation hi, _, _,
    Engine.perform_rebuild hopen hcontains, hrepaired.isLeast, Engine.reflagged_rederive hi,
    fun y hy => Engine.isProved_rederive hi fun hin => hy ((hregion y).1 hin), ?_⟩
  obtain ⟨changed, hnodup, hmem, hnotices⟩ := Engine.notices_rederive (t := t) hi
  refine ⟨changed, hnodup, fun y => (hmem y).trans (and_congr_left' (hregion y)), hnotices,
    fun handle label hears => ?_⟩
  rw [hnotices, told_append, ← List.flatMap_map, hears.told_notices]

theorem supportRing_repaired :
    let e := Op.runAll (.inMemory {}) (supportRing ++ [.listen none ⟨"log", true⟩])
    let e₁ := { e with
      store := e.store.withFlags fun y => e.store.isProved y || y ∈ e.store.region [.after 3] }
    e₁.store.inconsistent = [] ∧
      ∃ report e', (Engine.rebuild ⟨1⟩ (.after 3)).perform e₁ = (.ok report, e') ∧
        IsLeast {P | e'.store.round P = P} e'.store.isProved ∧
        e₁.store.isProved (.after 3) = true ∧ e'.store.isProved (.after 3) = false ∧
        .proved (.after 3) false ∈ told "log" e'.notices := by
  intro e e₁
  have hreached : Reached (fun e op => op.Sequential e ∧ op.Faithful e) e :=
    reached_of_succeed (by decide +kernel)
  obtain ⟨H, hsession⟩ := hreached.session (fun _ _ hop => hop.1) (fun _ _ hop => hop.2.offers)
  have hsettled := hsession.maintained.settled hsession.lawful
  have hregion (y : StatementId) : y ∈ e.store.region [.after 3] ↔
      e.store.graph.InRegion (.after 3) y := Store.mem_region_iff hsettled.indexed
  have hP (y : StatementId) (hy : ¬e.store.graph.InRegion (.after 3) y) :
      (e.store.isProved y || decide (y ∈ e.store.region [.after 3])) = e.store.isProved y := by
    rw [decide_eq_false (mt (hregion y).1 hy), Bool.or_false]
  have hears : e₁.listeners.Hears ⟨0⟩ "log" := ⟨by decide +kernel, by decide +kernel⟩
  obtain ⟨-, -, report, e', hperform, hleast, -, -, changed, -, hchanged, -, hheard⟩ :=
    Reached.rebuild_repairs hreached (t := ⟨1⟩) (x := .after 3) (by decide +kernel)
      (by decide +kernel) hP
  have hwrong : e₁.store.isProved (.after 3) = true := by decide +kernel
  have hflag :
      ((Engine.rebuild ⟨1⟩ (.after 3)).perform e₁).2.store.isProved (.after 3) = false := by
    decide +kernel
  rw [hperform] at hflag
  refine ⟨by decide +kernel, report, e', hperform, hleast, hwrong, hflag, ?_⟩
  have hmem : .after 3 ∈ changed := (hchanged _).2 ⟨.self, by rw [hflag, hwrong]; decide⟩
  rw [hheard _ _ hears, ← hflag]
  exact List.mem_append_right _ (List.mem_map_of_mem hmem)

end StatementGraph
