import StatementGraph.Proofs.Labels
import StatementGraph.Proofs.Rising

namespace StatementGraph

namespace Store

variable {s s' s'' : Store} {x : StatementId} {st st' : Statement} {l : List Statement}

/-- Every flag that is set satisfies its rule. -/
def Grounded (s : Store) : Prop := ∀ x st, s.get? x = some st → st.proved = true → s.holds st = true

theorem mem_inconsistent (hi : s.Indexed) :
    x ∈ s.inconsistent ↔ ∃ st, s.get? x = some st ∧ st.proved ≠ s.holds st := by
  rw [inconsistent, List.mem_map]
  constructor
  · rintro ⟨st, hmem, rfl⟩
    obtain ⟨hst, hne⟩ := List.mem_filter.1 hmem
    obtain ⟨y, hy⟩ := Table.mem_values.1 hst
    rw [hi.keyed y st hy]
    exact ⟨st, hy, of_decide_eq_true hne⟩
  · rintro ⟨st, hst, hne⟩
    exact ⟨st, List.mem_filter.2 ⟨Table.mem_values.2 ⟨x, hst⟩, decide_eq_true hne⟩,
      hi.keyed x st hst⟩

theorem grounded_of_inconsistent (hi : s.Indexed) (h : ∀ x ∈ s.inconsistent, s.isProved x = false) :
    s.Grounded := by
  intro x st hst hproved
  by_contra hfails
  refine Bool.eq_false_iff.1 (h x ((mem_inconsistent hi).2 ⟨st, hst, fun hsame => ?_⟩))
    ((proved_of_get? hst).2 hproved)
  exact hfails (hsame.symm.trans hproved)

theorem Settled.grounded (h : s.Settled) : s.Grounded :=
  fun _ _ hst hproved => (h.holds_eq hst).trans hproved

/-- If flags satisfy their rules before, they do so afterwards, and none was taken back. -/
structure Raises (s s' : Store) : Prop where
  grounded : s.Grounded → s'.Grounded
  proved : s.Grounded → ∀ x, s.Proved x → s'.Proved x

theorem Raises.refl (s : Store) : s.Raises s := ⟨id, fun _ _ => id⟩

theorem Raises.trans (h : s.Raises s') (h' : s'.Raises s'') : s.Raises s'' where
  grounded hs := h'.grounded (h.grounded hs)
  proved hs x hx := h'.proved (h.grounded hs) x (h.proved hs x hx)

theorem holds_of_content (hid : st'.id = st.id) (hc : st'.content = st.content) :
    s.holds st' = s.holds st := by
  have hkind : st'.kind = st.kind := congrArg Content.kind hc
  have hterm : st'.term = st.term := congrArg Content.term hc
  rw [holds, holds, kindHolds, kindHolds, hkind, hterm, hid]

theorem Grounded.of_eq (h : s.Grounded) (hstatements : s'.statements = s.statements)
    (hindex : s'.index = s.index) : s'.Grounded := by
  have hget : s'.get? = s.get? := funext fun x => by rw [Store.get?, Store.get?, hstatements]
  have hgraph : s'.graph = s.graph := funext fun x => by rw [graph, graph, hget]
  intro x st hst hproved
  rw [hget] at hst
  refine holds_mono hgraph hindex (fun y hy => ?_) (h x st hst hproved)
  rw [Proved, isProved, hget]
  exact hy

theorem raises_of_sub (hi : s.Indexed) (hi' : s'.Indexed) (hsub : s.graph.Sub s'.graph)
    (hflags : ∀ x, s'.Proved x ↔ s.Proved x) : s.Raises s' := by
  refine ⟨fun h x st' hst' hproved => ?_, fun _ x hx => (hflags x).2 hx⟩
  obtain ⟨st, hst, hold⟩ := proved_iff.1 ((hflags x).1 ((proved_of_get? hst').2 hproved))
  have hcontent : st'.content = st.content := by
    have hx := hsub x st.content (graph_of_get? hst)
    rw [graph_of_get? hst'] at hx
    exact Option.some.inj hx
  have hid : st'.id = st.id := (hi'.keyed x st' hst').trans (hi.keyed x st hst).symm
  rw [holds_of_content hid hcontent]
  refine holds_of_solvers (fun y hy => (hflags y).2 hy) (fun consequent y hy => ?_)
    (h x st hst hold)
  rw [mem_solversFor hi] at hy
  rw [mem_solversFor hi']
  obtain ⟨hne, hsees, c, hc, ht⟩ := hy
  exact ⟨hne, hsub.sees hsees, c, hsub y c hc, ht⟩

theorem raises_writeAll (hi : s.Indexed) (hnew : ∀ st ∈ l, s.graph st.id = none)
    (hflag : ∀ st ∈ l, st.proved = false) : s.Raises (s.writeAll l) := by
  refine raises_of_sub hi hi.writeAll ?_ fun x => proved_writeAll hnew hflag
  rw [graph_writeAll]
  exact .setAll_new hnew

theorem raises_rename {name : Option Identifier} (hi : s.Indexed) (hst : s.get? x = some st) :
    s.Raises (s.write { st with identifier := name }) := by
  have hid := hi.keyed x st hst
  refine raises_of_sub hi hi.write ?_ fun y => ?_
  · rw [graph_write_name hst hid]
    exact .refl _
  · rw [Proved, Proved, isProved, isProved, get?_write]
    split
    case isTrue hy =>
      rw [hy, hid, hst]
      rfl
    case isFalse => rfl

end Store

namespace Engine

open Store Propagation

variable {e : Engine} {t : TransactionId} {mode : PropagationMode} {seeds : List StatementId}

theorem contained_anywhere (hi : e.store.Indexed) :
    Contained mode (e.store.ids ++ Walk.unseen [] seeds) (fun _ => True)
      { engine := e, queue := Walk.unseen [] seeds } :=
  contained_start hi (fun _ _ => trivial) fun _ _ _ _ => trivial

theorem indexed_propagation (hi : e.store.Indexed) :
    (e.propagation mode t seeds).engine.store.Indexed :=
  (contained_anywhere hi).drain.indexed

theorem raises_propagation (hi : e.store.Indexed) :
    e.store.Raises (e.propagation mode t seeds).engine.store := by
  have hway (h : e.store.Grounded) :
      OneWay mode true (e.store.ids ++ Walk.unseen [] seeds) (fun _ => True)
        { engine := e, queue := Walk.unseen [] seeds } :=
    ⟨contained_anywhere hi, fun x st _ => h x st⟩
  refine ⟨fun h x st => ?_, fun h x hx => (hway h).isProved_drain hx _⟩
  exact ((hway h).drain potential_start_le).1.keeps x st trivial

end Engine

end StatementGraph
