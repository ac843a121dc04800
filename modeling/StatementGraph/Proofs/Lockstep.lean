import StatementGraph.Proofs.Entering
import StatementGraph.Proofs.Nameless
import StatementGraph.Proofs.Quiescence

namespace StatementGraph

/-- Statements that agree in what flags depend on. -/
structure Content.Alike (c c' : Content) : Prop where
  owner : c'.owner = c.owner
  dependencies : c'.dependencies = c.dependencies
  term : (c'.term == c.term) = true
  asks : ∀ data, c'.kind = .context data ↔ c.kind = .context data

theorem Content.Alike.refl (c : Content) : c.Alike c :=
  ⟨rfl, rfl, Term.beq_refl _, fun _ => Iff.rfl⟩

theorem Content.Alike.symm {c c' : Content} (h : c.Alike c') : c'.Alike c :=
  ⟨h.owner.symm, h.dependencies.symm, (Term.beq_comm _ _).trans h.term,
    fun data => (h.asks data).symm⟩

namespace Graph

variable {G G' : Graph} {P : StatementId → Prop} {x y : StatementId}

def Matches (G G' : Graph) : Prop := ∀ x c, G x = some c → ∃ c', G' x = some c' ∧ c.Alike c'

theorem Matches.ownerOf (h : G.Matches G') (hx : G.ownerOf x = some y) :
    G'.ownerOf x = some y := by
  obtain ⟨c, hc, ho⟩ := ownerOf_eq.1 hx
  obtain ⟨c', hc', halike⟩ := h x c hc
  exact ownerOf_eq.2 ⟨c', hc', halike.owner.trans ho⟩

theorem Matches.within (h : G.Matches G') (hx : G.Within x y) : G'.Within x y :=
  Relation.ReflTransGen.mono (fun _ _ => h.ownerOf) _ _ hx

theorem Matches.sees (h : G.Matches G') (hx : G.Sees y x) : G'.Sees y x := by
  obtain ⟨c, o, hc, ho, hw⟩ := hx
  obtain ⟨c', hc', halike⟩ := h x c hc
  exact ⟨c', o, hc', halike.owner.trans ho, h.within hw⟩

theorem Matches.solves (h : G.Matches G') (hs : G.Solves y x) : G'.Solves y x := by
  obtain ⟨hne, hsees, c, d, data, hx, hk, hy, ht⟩ := hs
  obtain ⟨c', hc', hcontext⟩ := h x c hx
  obtain ⟨d', hd', hsolver⟩ := h y d hy
  exact ⟨hne, h.sees hsees, c', d', data, hc', (hcontext.asks data).2 hk, hd',
    Term.beq_trans hsolver.term ht⟩

theorem Matches.follows (h : G.Matches G') (hx : G.Follows P x) : G'.Follows P x := by
  obtain ⟨c, hc, hd, hk⟩ := hx
  obtain ⟨c', hc', halike⟩ := h x c hc
  refine ⟨c', hc', fun d hmem => hd d (halike.dependencies ▸ hmem), fun data hdata => ?_⟩
  obtain ⟨y, hy, hP⟩ := hk data ((halike.asks data).1 hdata)
  exact ⟨y, h.solves hy, hP⟩

end Graph

namespace Store

variable {s s' : Store} {x y : StatementId} {st st' : Statement} {mode : PropagationMode}

/-- The statements of a store are in another, alike and with the same flags. -/
structure Shadows (s s' : Store) : Prop where
  indexed : s.Indexed
  tracked : s.graph.Tracked
  graph : s.graph.Matches s'.graph
  proved : ∀ x, s.isProved x = s'.isProved x

/-- Stores that agree in their flags and in what flags depend on. -/
structure Alike (s s' : Store) : Prop where
  left : s.Shadows s'
  right : s'.Shadows s

theorem Alike.symm (h : s.Alike s') : s'.Alike s := ⟨h.right, h.left⟩

theorem Alike.get? (h : s.Alike s') (hst : s.get? x = some st) : ∃ st', s'.get? x = some st' ∧
    st.content.Alike st'.content ∧ st'.id = st.id ∧ st'.proved = st.proved := by
  obtain ⟨c', hc', halike⟩ := h.left.graph x st.content (graph_of_get? hst)
  obtain ⟨st', hst', rfl⟩ := graph_eq_some.1 hc'
  refine ⟨st', hst', halike,
    (h.right.indexed.keyed x st' hst').trans (h.left.indexed.keyed x st hst).symm, ?_⟩
  have hflag := h.left.proved x
  rw [isProved, isProved, hst, hst'] at hflag
  exact hflag.symm

theorem Alike.size_eq (h : s.Alike s') : s'.size = s.size := by
  have hone {a b : Store} (hab : a.Shadows b) (x : StatementId) (hx : x ∈ a.ids) : x ∈ b.ids := by
    obtain ⟨c, hc⟩ := mem_ids.1 hx
    obtain ⟨c', hc', -⟩ := hab.graph x c hc
    exact mem_ids.2 ⟨c', hc'⟩
  exact size_of_ids fun x => ⟨hone h.right x, hone h.left x⟩

theorem Alike.holds_eq (h : s.Alike s') (hst : s.get? x = some st) (hst' : s'.get? x = some st') :
    s'.holds st' = s.holds st := by
  have hflags : s'.Proved = s.Proved := funext fun y => by rw [Proved, Proved, h.left.proved]
  rw [Bool.eq_iff_iff, holds_iff h.right.indexed h.right.tracked hst',
    holds_iff h.left.indexed h.left.tracked hst, hflags]
  exact ⟨h.right.graph.follows, h.left.graph.follows⟩

theorem Alike.dependentsOf_eq (h : s.Alike s') : s'.dependentsOf x = s.dependentsOf x := by
  have hone {a b : Store} (hab : a.Shadows b) (hb : b.Indexed) (y : StatementId)
      (hy : y ∈ a.dependentsOf x) : y ∈ b.dependentsOf x := by
    obtain ⟨c, hc, hx⟩ := hab.indexed.mem_dependentsOf.1 hy
    obtain ⟨c', hc', halike⟩ := hab.graph y c hc
    exact hb.mem_dependentsOf.2 ⟨c', hc', halike.dependencies ▸ hx⟩
  exact IdSet.toList_eq fun y => ⟨hone h.right h.left.indexed y, hone h.left h.right.indexed y⟩

theorem Alike.contextsBelow_eq (h : s.Alike s') {t t' : Term} (ht : (t' == t) = true) :
    s'.contextsBelowByConsequent x t' = s.contextsBelowByConsequent x t := by
  have hone {a b : Store} {t u : Term} (hab : a.Shadows b) (hb : b.Indexed) (ht : (t == u) = true)
      (y : StatementId) (hy : y ∈ a.contextsByConsequent t) : y ∈ b.contextsByConsequent u := by
    obtain ⟨c, data, hc, hk, heq⟩ := hab.indexed.mem_contextsByConsequent.1 hy
    obtain ⟨c', hc', halike⟩ := hab.graph y c hc
    exact hb.mem_contextsByConsequent.2
      ⟨c', data, hc', (halike.asks data).2 hk, Term.beq_trans heq ht⟩
  have hcontexts : s'.contextsByConsequent t' = s.contextsByConsequent t :=
    IdSet.toList_eq fun y => ⟨hone h.right h.left.indexed ht y,
      hone h.left h.right.indexed ((Term.beq_comm _ _).trans ht) y⟩
  have hwithin (y : StatementId) : s'.isWithin y x = s.isWithin y x := by
    rw [Bool.eq_iff_iff, isWithin_iff, isWithin_iff]
    exact ⟨h.right.graph.within, h.left.graph.within⟩
  simp only [contextsBelowByConsequent, hcontexts, hwithin]

theorem Alike.affected_eq (h : s.Alike s') (halike : st.content.Alike st'.content)
    (hid : st'.id = st.id) :
    Propagation.affected mode s' st' = Propagation.affected mode s st := by
  have howner : st'.owner = st.owner := halike.owner
  simp only [Propagation.affected, hid, howner, h.dependentsOf_eq]
  cases mode.solved with
  | false => rfl
  | true =>
    cases st.owner with
    | none => rfl
    | some o =>
      have hterm : (st'.term == st.term) = true := halike.term
      simp only [h.contextsBelow_eq hterm]

theorem Shadows.setProved {flag : Bool} (h : s.Shadows s') (hst : s.get? x = some st)
    (hst' : s'.get? x = some st') : (s.setProved x flag).Shadows (s'.setProved x flag) := by
  refine ⟨h.indexed.setProved, ?_, ?_, fun y => ?_⟩
  · rw [graph_setProved]
    exact h.tracked
  · rw [graph_setProved, graph_setProved]
    exact h.graph
  · rw [isProved_setProved hst, isProved_setProved hst', h.proved]

theorem tracked_write (ht : s.graph.Tracked)
    (htracks : ∀ d, d ∈ st.dependencies ↔ d ∈ st.term.freeVars ∨ st.kind.Reads d) :
    (s.write st).graph.Tracked := by
  intro x c hc
  rw [graph_write, Graph.set] at hc
  split at hc
  · cases hc
    exact htracks
  · exact ht x c hc

theorem shadows_write (hi : s.Indexed) (ht : s.graph.Tracked)
    (halike : st.content.Alike st'.content) (hid : st'.id = st.id) (hflag : st'.proved = st.proved)
    (htracks : ∀ d, d ∈ st.dependencies ↔ d ∈ st.term.freeVars ∨ st.kind.Reads d) :
    (s.write st).Shadows (s.write st') := by
  refine ⟨hi.write, tracked_write ht htracks, fun x c hc => ?_, fun x => ?_⟩
  · rw [graph_write, Graph.set] at hc
    rw [graph_write, Graph.set, hid]
    split at hc
    · cases hc
      exact ⟨st'.content, if_pos ‹_›, halike⟩
    · exact ⟨c, (if_neg ‹_›).trans hc, .refl c⟩
  · rw [isProved, isProved, get?_write, get?_write, hid]
    split
    · exact hflag.symm
    · rfl

end Store

namespace Propagation

open Store

variable {mode : PropagationMode} {s s' : Store} {queue : List StatementId} {n : Nat}

/-- One step from the same queue over stores that are alike. -/
theorem alike_advance (h : s.Alike s') :
    (advance mode (s, queue)).1.Alike (advance mode (s', queue)).1 ∧
      (advance mode (s', queue)).2 = (advance mode (s, queue)).2 := by
  cases queue with
  | nil => exact ⟨h, rfl⟩
  | cons x rest =>
    rw [advance, advance]
    cases hst : s.get? x with
    | none =>
      have hnone : s'.get? x = none := by
        by_contra hsome
        obtain ⟨st', hst'⟩ := Option.ne_none_iff_exists'.1 hsome
        obtain ⟨st, hst₁, -⟩ := h.symm.get? hst'
        cases hst.symm.trans hst₁
      rw [hnone]
      exact ⟨h, rfl⟩
    | some st =>
      obtain ⟨st', hst', halike, hid, hflag⟩ := h.get? hst
      rw [hst']
      dsimp only
      rw [h.holds_eq hst hst', hflag]
      split
      · exact ⟨h, rfl⟩
      · have hraised : (s.setProved x (s.holds st)).Alike (s'.setProved x (s.holds st)) :=
          ⟨h.left.setProved hst hst', h.right.setProved hst' hst⟩
        exact ⟨hraised, by rw [hraised.affected_eq halike hid]⟩

theorem alike_iterate (h : s.Alike s') :
    ((advance mode)^[n] (s, queue)).1.Alike ((advance mode)^[n] (s', queue)).1 ∧
      ((advance mode)^[n] (s', queue)).2 = ((advance mode)^[n] (s, queue)).2 := by
  induction n generalizing s s' queue with
  | zero => exact ⟨h, rfl⟩
  | succ n ih =>
    obtain ⟨hnext, hqueue⟩ := @alike_advance mode s s' queue h
    rw [Function.iterate_succ_apply, Function.iterate_succ_apply,
      ← Prod.mk.eta (p := advance mode (s', queue)), hqueue]
    exact ih hnext

end Propagation

namespace Engine

open Store Propagation

variable {e e' : Engine} {mode : PropagationMode} {t t' : TransactionId} {seeds : List StatementId}

theorem alike_propagation (h : e.store.Alike e'.store) :
    (e.propagation mode t seeds).engine.store.Alike
        (e'.propagation mode t' seeds).engine.store ∧
      (e'.propagation mode t' seeds).queue = (e.propagation mode t seeds).queue := by
  have hview (e : Engine) (t : TransactionId) : (e.propagation mode t seeds).view =
      (advance mode)^[bound (e.store.size + (Walk.unseen [] seeds).length)]
        (e.store, Walk.unseen [] seeds) := view_drain
  have hstore (e : Engine) (t : TransactionId) : (e.propagation mode t seeds).engine.store =
      ((advance mode)^[bound (e.store.size + (Walk.unseen [] seeds).length)]
        (e.store, Walk.unseen [] seeds)).1 := congrArg Prod.fst (hview e t)
  have hqueue (e : Engine) (t : TransactionId) : (e.propagation mode t seeds).queue =
      ((advance mode)^[bound (e.store.size + (Walk.unseen [] seeds).length)]
        (e.store, Walk.unseen [] seeds)).2 := congrArg Prod.snd (hview e t)
  rw [hstore, hstore, hqueue, hqueue, h.size_eq]
  exact alike_iterate h

theorem alike_enter {st st' : Statement} (hi : e.store.Indexed) (ht : e.store.graph.Tracked)
    (halike : st.content.Alike st'.content) (hid : st'.id = st.id) (hflag : st'.proved = st.proved)
    (htracks : ∀ d, d ∈ st.dependencies ↔ d ∈ st.term.freeVars ∨ st.kind.Reads d)
    (htracks' : ∀ d, d ∈ st'.dependencies ↔ d ∈ st'.term.freeVars ∨ st'.kind.Reads d) :
    (e.enter t st).engine.store.Alike (e.enter t st').engine.store ∧
      (e.enter t st').queue = (e.enter t st).queue := by
  rw [enter, enter, hid]
  apply alike_propagation
  rw [store_addRecord, store_addRecord]
  exact ⟨shadows_write hi ht halike hid hflag htracks,
    shadows_write hi ht halike.symm hid.symm hflag.symm htracks'⟩

end Engine

end StatementGraph
