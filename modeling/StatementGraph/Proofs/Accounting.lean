import StatementGraph.Proofs.Archiving
import StatementGraph.Proofs.Bookkeeping
import StatementGraph.Proofs.Erasing
import StatementGraph.Proofs.Grounding
import StatementGraph.Proofs.Within

namespace StatementGraph

/-- The id of a statement and what it reads are used up, and it depends on what it reads. -/
structure Content.Accounted (a : Allocator) (x : StatementId) (c : Content) : Prop where
  id : a.Past x
  tracks : ∀ d, d ∈ c.dependencies ↔ d ∈ c.term.freeVars ∨ c.kind.Reads d
  reads : ∀ d, c.kind.Reads d → a.Past d

theorem Content.Accounted.mono {a b : Allocator} {x : StatementId} {c : Content}
    (h : c.Accounted a x) (hab : ∀ y, a.Past y → b.Past y) : c.Accounted b x :=
  ⟨hab x h.id, h.tracks, fun d hd => hab d (h.reads d hd)⟩

namespace Graph

variable {G G' : Graph} {a b : Allocator}

def Accounted (G : Graph) (a : Allocator) : Prop := ∀ x c, G x = some c → c.Accounted a x

theorem Accounted.mono (h : G.Accounted a) (hsub : G'.Sub G) (hab : ∀ x, a.Past x → b.Past x) :
    G'.Accounted b := fun x c hx => (h x c (hsub x c hx)).mono hab

theorem Accounted.tracked (h : G.Accounted a) : G.Tracked := fun x c hx => (h x c hx).tracks

theorem Accounted.setAll {l : List Statement} (h : G.Accounted a)
    (hl : ∀ st ∈ l, st.content.Accounted a st.id) : (G.setAll l).Accounted a := by
  intro x c hx
  rcases setAll_cases hx with ⟨st, hst, rfl, rfl⟩ | hx
  · exact hl st hst
  · exact h x c hx

end Graph

/-! ### New records -/

namespace Store

variable {s : Store} {context id general : StatementId} {owner : Option StatementId}
  {value argument term inner : Term} {st : Statement} {kind : ContextKind} {dependencies : IdSet}
  {ids : List StatementId}

theorem live_of_validate (h : s.validate owner term = .ok ()) {d : StatementId}
    (hd : d ∈ term.freeVars) : ∃ c, s.graph d = some c := by
  obtain ⟨type, htype⟩ := Term.mem_freeVars.1 hd
  obtain ⟨sd, hsd, -⟩ := checkVariable_eq_ok.1 ((validate_eq_ok.1 h).2 (d, type) htype)
  exact ⟨sd.content, graph_of_get? hsd⟩

variable (h : s.graph.Accounted s.allocator) (hid : s.allocator.Past id)

include h

theorem used_of_live {d : StatementId} (hd : ∃ c, s.graph d = some c) : s.allocator.Past d := by
  obtain ⟨c, hc⟩ := hd
  exact (h d c hc).id

include hid

theorem accounted_declarationRecord (hrecord : s.declarationRecord context value id = .ok st) :
    st.content.Accounted s.allocator st.id := by
  obtain ⟨hvalid, term, -, rfl⟩ := declarationRecord_eq_ok.1 hrecord
  exact ⟨hid, fun d => IdSet.mem_union, fun d hd => used_of_live h (live_of_validate hvalid hd)⟩

theorem accounted_specializationRecord
    (hrecord : s.specializationRecord context general argument id = .ok st) :
    st.content.Accounted s.allocator st.id := by
  obtain ⟨hvalid, -, g, term, hg, -, rfl⟩ := specializationRecord_eq_ok_visible.1 hrecord
  refine ⟨hid, fun d => ?_, fun d hd => used_of_live h ?_⟩
  · simp only [Statement.content, StatementKind.Reads, IdSet.mem_union, IdSet.mem_insert]
    tauto
  · rcases hd with rfl | hd
    · exact ⟨g.content, graph_of_get? hg⟩
    · exact live_of_validate hvalid hd

theorem accounted_contextRecords (hunfolds : s.graph.Unfolds term dependencies inner kind)
    (hids : ∀ y ∈ ids, s.allocator.Past y) :
    ∀ st ∈ (contextRecords owner term kind id dependencies inner ids).1 ::
      (contextRecords owner term kind id dependencies inner ids).2,
      st.content.Accounted s.allocator st.id := by
  intro st hst
  rcases List.mem_cons.1 hst with rfl | hst
  · refine ⟨hid, fun d => ?_, fun d hd => used_of_live h ?_⟩
    · exact hunfolds.mem_dependencies
    · have hd : kind = .unfolding d := hd
      subst hd
      obtain ⟨c, value, hc, -⟩ := hunfolds
      exact ⟨c, hc⟩
  · obtain ⟨entry, hentry, rfl⟩ := List.mem_map.1 hst
    refine ⟨hids _ (Engine.mem_peel (List.fst_mem_of_mem_zipIdx hentry)), fun d => ?_,
      fun d hd => ?_⟩
    · exact ⟨Or.inl, fun hd => hd.resolve_right False.elim⟩
    · exact hd.elim

end Store

/-! ### Changes that use up no ids -/

namespace Engine

open Store

variable {t : TransactionId} {a : Allocator} {e e' e'' : Engine} {x id : StatementId}
  {st : Statement} {α β : Type}

/-- What is used up is accounted for, and so is all that another counter had used up. -/
structure Tallies (a : Allocator) (e : Engine) : Prop where
  indexed : e.store.Indexed
  used : ∀ x, a.Past x → e.store.allocator.Past x
  accounted : e.store.graph.Accounted e.store.allocator

theorem Tallies.of_sub (h : Tallies a e) (hi : e'.store.Indexed)
    (hsub : e'.store.graph.Sub e.store.graph)
    (hcounter : e'.store.allocator = e.store.allocator) : Tallies a e' := by
  refine ⟨hi, fun x hx => ?_, ?_⟩ <;> rw [hcounter]
  · exact h.used x hx
  · exact h.accounted.mono hsub fun _ hx => hx

def Balances (a : Allocator) (e e' : Engine) : Prop :=
  Tallies a e → Tallies a e' ∧ e'.store.allocator = e.store.allocator

instance isPreorder_balances : IsPreorder Engine (Balances a) where
  refl _ h := ⟨h, rfl⟩
  trans _ _ _ h h' hs :=
    ⟨(h' (h hs).1).1, (h' (h hs).1).2.trans (h hs).2⟩

theorem balances_of_sub (hi : e.store.Indexed → e'.store.Indexed)
    (hsub : e.store.Indexed → e'.store.graph.Sub e.store.graph)
    (hcounter : e'.store.allocator = e.store.allocator) : Balances a e e' := fun h =>
  ⟨h.of_sub (hi h.indexed) (hsub h.indexed) hcounter, hcounter⟩

theorem balances_of_store (hstore : e'.store = e.store) : Balances a e e' := by
  apply balances_of_sub <;> rw [hstore]
  · exact fun hi => hi
  · exact fun _ => .refl _

theorem balances_notify {event : Event} : Balances a e (e.notify t event) :=
  balances_of_store store_notify

theorem balances_setAuthority {b : Option Authority} : Balances a e (e.setAuthority t x b) := by
  apply balances_of_sub <;> rw [store_setAuthority]
  · exact fun hi => hi.of_eq rfl rfl
  · exact fun _ => .refl _
  · rfl

theorem balances_rename {name : Option Identifier} (hst : e.store.get? x = some st) :
    Balances a e (e.put t { st with identifier := name }) := by
  apply balances_of_sub <;> rw [store_put]
  · exact fun hi => hi.write
  · intro hi
    rw [graph_write_name hst (hi.keyed x st hst)]
    exact .refl _
  · rfl

theorem balances_propagation {mode : PropagationMode} {seeds : List StatementId} :
    Balances a e (e.propagation mode t seeds).engine := by
  refine balances_of_sub indexed_propagation (fun _ => ?_) reflagged_propagation.allocator
  rw [reflagged_propagation.graph]
  exact .refl _

theorem balances_rederive {seeds : List StatementId} : Balances a e (e.rederive t seeds).2 := by
  intro h
  have hr : e.store.Reflagged (e.rederive t seeds).2.store := reflagged_rederive h.indexed
  refine balances_of_sub (fun hi => ?_) (fun _ => ?_) hr.allocator h
  · rw [store_rederive]
    exact indexed_propagation (store_clearFlags _ hi).1
  · rw [hr.graph]
    exact .refl _

theorem balances_entered {l : List Statement} (hi : e.store.Indexed → e'.store.Indexed)
    (hr : (e.store.writeAll l).Reflagged e'.store)
    (hl : e.store.graph.Accounted e.store.allocator →
      ∀ st ∈ l, st.content.Accounted e.store.allocator st.id) : Balances a e e' := by
  intro h
  have hcounter : e'.store.allocator = e.store.allocator := hr.allocator.trans allocator_writeAll
  refine ⟨⟨hi h.indexed, fun x hx => ?_, ?_⟩, hcounter⟩ <;> rw [hcounter]
  · exact h.used x hx
  · rw [hr.graph, graph_writeAll]
    exact h.accounted.setAll (hl h.accounted)

/-! ### Names, authorities and removals -/

theorem balances_lock : Within (Balances a) e (lock t x) := by
  apply within_ensureOpen_bind
  apply within_get_bind
  split
  · exact within_set (balances_of_store store_onTransaction)
  · exact within_throw

theorem balances_guardSigned {force : Bool} : Within (Balances a) e (guardSigned t x force) := by
  apply within_get_bind
  split
  · split
    · split
      · exact within_set balances_setAuthority
      · exact within_throw
    · exact within_pure
  · exact within_pure

theorem balances_guard_bind {force : Bool} {k : Unit → Action β} (hst : e.store.get? x = some st)
    (hk : ∀ e', e'.store.get? x = some st → Within (Balances a) e' (k ())) :
    Within (Balances a) e (guardSigned t x force >>= k) := by
  apply within_bind balances_guardSigned
  intro _ e' hguard
  have hfields := guardSigned_fields (t := t) e x force
  rw [hguard] at hfields
  apply hk
  rw [get?, hfields.1]
  exact hst

theorem balances_identify {name : Identifier} {force : Bool} :
    Within (Balances a) e (identify t x name force) := by
  apply within_ensureOpen_bind
  apply within_get_bind
  apply within_lift_bind
  intro st hst
  apply within_bind balances_lock
  intro _ e₁ hlock
  have hrename : Within (Balances a) e₁ (do
      guardSigned t x force
      modify fun e => e.put t { st with identifier := some name }) :=
    balances_guard_bind (get?_lock hst hlock) fun _ hget => within_modify (balances_rename hget)
  dsimp only
  split
  · exact within_pure
  · apply within_get_bind
    split
    · split
      · exact within_throw
      · exact hrename
    · exact hrename

theorem balances_unidentify {force : Bool} : Within (Balances a) e (unidentify t x force) := by
  apply within_ensureOpen_bind
  apply within_get_bind
  apply within_lift_bind
  intro st hst
  apply within_bind balances_lock
  intro _ e₁ hlock
  split
  · exact within_throw
  · apply balances_guard_bind (get?_lock hst hlock)
    intro _ hget
    exact within_bind (within_modify (balances_rename hget)) fun _ _ _ => within_pure

theorem balances_createAuthority {author : String} :
    Within (Balances a) e (createAuthority t x author) := by
  apply within_ensureOpen_bind
  apply within_get_bind
  apply within_lift_bind
  intro _ _
  apply within_bind balances_lock
  intro _ e₁ _
  apply within_get_bind
  split
  · exact within_throw
  · apply within_bind
    · exact within_modify (trans_of (Balances a) balances_setAuthority balances_notify)
    · exact fun _ _ _ => within_pure

theorem balances_signAuthority : Within (Balances a) e (signAuthority t x) := by
  apply within_ensureOpen_bind
  apply within_bind balances_lock
  intro _ e₁ _
  apply within_bind
  · apply within_get_bind
    split
    · exact within_pure
    · exact within_throw
  · intro _ e₂ _
    exact within_bind (within_modify balances_setAuthority) fun _ _ _ => within_pure

theorem balances_deleteAuthority : Within (Balances a) e (deleteAuthority t x) := by
  apply within_ensureOpen_bind
  apply within_bind balances_lock
  intro _ e₁ _
  apply within_get_bind
  apply within_bind (within_modify balances_setAuthority)
  intro _ e₂ _
  split
  · exact within_bind (within_modify balances_notify) fun _ _ _ => within_pure
  · exact within_throw

theorem balances_rebuild : Within (Balances a) e (rebuild t x) := by
  apply within_ensureOpen_bind
  apply within_get_bind
  apply within_lift_bind
  intro _ _
  apply within_get_bind
  exact within_bind (within_set balances_rederive) fun _ _ _ => within_pure

theorem Erased.balances {ids : List StatementId} (h : Erased t ids e e') : Balances a e e' := by
  refine balances_of_sub h.indexed (fun _ x c hx => ?_) h.allocator
  obtain ⟨st, hst, rfl⟩ := graph_eq_some.1 hx
  exact graph_of_get? (h.kept hst).1

theorem balances_runs {r r' : Removal} (h : Removal.Runs t r r') :
    Balances a r.engine r'.engine := by
  induction h with
  | refl => exact refl_of (Balances a) r.engine
  | @tail r₁ r₂ _ hstep ih =>
    obtain ⟨x, rfl⟩ := hstep
    apply trans_of (Balances a) ih
    cases hst : r₁.engine.store.get? x with
    | none =>
      rw [Removal.removeOne, hst]
      exact refl_of (Balances a) r₁.engine
    | some st => exact (Removal.erased_removeOne hst).balances

theorem balances_recheck {r r' : Removal} (h : Removal.Runs t r r') :
    Balances a r.engine (r'.recheck t).engine := by
  apply trans_of (Balances a) (balances_runs h)
  rw [Removal.recheck]
  split
  · exact refl_of (Balances a) r'.engine
  · exact balances_rederive

theorem balances_carryOut {ids : IdSet} {work : Removal → Removal}
    (h : ∀ r : Removal, Balances a r.engine (work r).engine) :
    Within (Balances a) e (do
      lockAll t ids
      carryOut t work) := by
  apply within_bind (within_forM fun _ _ _ => balances_lock)
  intro _ e₁ _
  apply within_get_bind
  apply within_bind
  · exact within_set (trans_of (Balances a) (h { engine := e₁ })
      (balances_of_store store_onTransaction))
  · exact fun _ _ _ => within_pure

theorem balances_throw_bind {f : Failure} {k : α → Action β} :
    Within (Balances a) e (throw f >>= k) := refl_of (Balances a) e

theorem balances_removeStatements {context : StatementId} {ids : List StatementId} :
    Within (Balances a) e (removeStatements t context ids) := by
  apply within_ensureOpen_bind
  apply within_get_bind
  apply within_lift_bind
  intro _ _
  apply within_lift_bind
  intro _ _
  dsimp only
  split
  · exact balances_throw_bind
  · exact balances_carryOut fun r => balances_recheck (Removal.runs_removeTrees r _)

theorem balances_removeRoot {root : StatementId} : Within (Balances a) e (removeRoot t root) := by
  apply within_ensureOpen_bind
  apply within_get_bind
  apply within_lift_bind
  intro _ _
  dsimp only
  split
  · exact balances_throw_bind
  · split
    · exact balances_throw_bind
    · exact balances_carryOut fun r => balances_runs (Removal.runs_removeTree r root)

theorem balances_removeCascade {context : StatementId} :
    Within (Balances a) e (removeCascade t context x) := by
  apply within_ensureOpen_bind
  apply within_get_bind
  apply within_lift_bind
  intro _ _
  apply within_lift_bind
  intro _ _
  dsimp only
  split
  · exact balances_throw_bind
  · exact balances_carryOut fun r => balances_recheck (Removal.runs_cascade _ _ _ r)

/-! ### Restoring -/

theorem indexed_enter (hi : e.store.Indexed) : (e.enter t st).engine.store.Indexed := by
  apply indexed_propagation (e := addRecord t e st)
  rw [store_addRecord]
  exact hi.write

theorem indexed_enterContext {assumptions : List Statement} (hi : e.store.Indexed) :
    (e.enterContext t st assumptions).engine.store.Indexed := by
  apply indexed_propagation
  apply indexed_propagation (e := (st :: assumptions).foldl (addRecord t) e)
  rw [store_addRecords]
  exact hi.writeAll

theorem balances_insertDeclaration {context : StatementId} {value : Term}
    (hid : e.store.allocator.Past id) :
    Within (Balances a) e (insertDeclaration t context value id) := by
  apply within_get_bind
  apply within_lift_bind
  intro st hrecord
  refine within_get_bind
    (within_await (balances_entered indexed_enter reflagged_enter fun h st' hst' => ?_))
  cases List.mem_singleton.1 hst'
  exact accounted_declarationRecord h hid hrecord

theorem balances_insertSpecialization {context general : StatementId} {argument : Term}
    (hid : e.store.allocator.Past id) :
    Within (Balances a) e (insertSpecialization t context general argument id) := by
  apply within_get_bind
  apply within_lift_bind
  intro st hrecord
  refine within_get_bind
    (within_await (balances_entered indexed_enter reflagged_enter fun h st' hst' => ?_))
  cases List.mem_singleton.1 hst'
  exact accounted_specializationRecord h hid hrecord

theorem balances_contextRecords {owner : Option StatementId} {term inner : Term}
    {kind : ContextKind} {dependencies : IdSet} {ids : List StatementId}
    (hunfolds : e.store.graph.Unfolds term dependencies inner kind)
    (hid : e.store.allocator.Past id) (hids : ∀ y ∈ ids, e.store.allocator.Past y) :
    Within (Balances a) e (await (e.enterContext t
      (contextRecords owner term kind id dependencies inner ids).1
      (contextRecords owner term kind id dependencies inner ids).2)) :=
  within_await <| balances_entered indexed_enterContext reflagged_enterContext fun h =>
    accounted_contextRecords h hid hunfolds hids

theorem balances_insertContext {owner : Option StatementId} {term : Term} {kind : ContextKind}
    {ids : List StatementId} (hid : e.store.allocator.Past id)
    (hids : ∀ y ∈ ids, e.store.allocator.Past y) :
    Within (Balances a) e (insertContext t owner term kind id (some ids)) := by
  apply within_get_bind
  apply within_lift_bind
  intro opened hunfold
  have hgiven : Within (Balances a) e (assumptionIds id opened.2.unproject.arity (some ids)) ∧
      ∀ ids' e', (assumptionIds id opened.2.unproject.arity (some ids)).perform e = (.ok ids', e') →
        ids' = ids ∧ e' = e := by
    rw [assumptionIds]
    split
    · refine ⟨within_throw, fun ids' e' hrun => ?_⟩
      cases hrun
    · refine ⟨within_pure, fun ids' e' hrun => ?_⟩
      cases hrun
      exact ⟨rfl, rfl⟩
  apply within_bind hgiven.1
  intro ids' e' hrun
  obtain ⟨rfl, rfl⟩ := hgiven.2 ids' e' hrun
  exact within_get_bind (balances_contextRecords (unfold_eq_ok_visible hunfold).1 hid hids)

/-- What is used up stays accounted for, and there are ids left. -/
def Restocks (a : Allocator) (e e' : Engine) : Prop :=
  e.store.allocator.next ≠ 0 ∧ Tallies a e → e'.store.allocator.next ≠ 0 ∧ Tallies a e'

instance isPreorder_restocks : IsPreorder Engine (Restocks a) where
  refl _ h := h
  trans _ _ _ h h' hs := h' (h hs)

theorem Balances.restocks (h : Balances a e e') : Restocks a e e' := by
  intro hs
  obtain ⟨htallies, hcounter⟩ := h hs.2
  rw [hcounter]
  exact ⟨hs.1, htallies⟩

theorem restocks_of_left {m : Action α} (h : e.store.allocator.next ≠ 0 → Within (Restocks a) e m) :
    Within (Restocks a) e m := fun hs => h hs.1 hs

theorem restocks_reserve : Within (Restocks a) e (reserve x) := by
  rintro ⟨hnext, hs⟩
  rcases reserve_cases x e with hrun | ⟨b, hb, hrun⟩ <;> rw [hrun]
  · exact ⟨hnext, hs⟩
  · have hle := (Allocator.reserve_some hb).1
    refine ⟨Allocator.next_ne_zero_of_le hle hnext, hs.indexed.of_eq rfl rfl, fun y hy => ?_, ?_⟩
    · exact (hs.used y hy).of_le hle hnext
    · exact hs.accounted.mono (.refl _) fun y hy => hy.of_le hle hnext

theorem used_reserve {u : Unit} (h : (reserve x).perform e = (.ok u, e')) :
    e'.store.allocator.Past x ∧ e.store.allocator.next.toNat ≤ e'.store.allocator.next.toNat := by
  rcases reserve_cases x e with hrun | ⟨b, hb, hrun⟩
  · cases hrun.symm.trans h
  · cases hrun.symm.trans h
    obtain ⟨hle, hlt⟩ := Allocator.reserve_some hb
    exact ⟨Or.inr hlt, hle⟩

theorem used_reserveEach {ids : List StatementId} {u : Unit}
    (h : (ids.forM reserve).perform e = (.ok u, e')) (hnext : e.store.allocator.next ≠ 0) :
    (∀ y, e.store.allocator.Past y → e'.store.allocator.Past y) ∧
      ∀ y ∈ ids, e'.store.allocator.Past y := by
  induction ids generalizing e with
  | nil =>
    cases h
    exact ⟨fun _ hy => hy, fun _ hy => by cases hy⟩
  | cons x rest ih =>
    obtain ⟨u₁, e₁, hfirst, hrest⟩ := bind_performs.1 h
    obtain ⟨hx, hle⟩ := used_reserve hfirst
    obtain ⟨hold, hnew⟩ := ih hrest (Allocator.next_ne_zero_of_le hle hnext)
    refine ⟨fun y hy => hold y (hy.of_le hle hnext), fun y hy => ?_⟩
    rcases List.mem_cons.1 hy with rfl | hy
    · exact hold y hx
    · exact hnew y hy

theorem restocks_rebuildDeleted : Within (Restocks a) e (rebuildDeleted t st) := by
  apply within_get_bind
  refine guard_cases (P := Within (Restocks a) e) _ (fun _ => within_throw) fun _ => ?_
  apply within_bind restocks_reserve
  intro _ e₁ hreserve
  have hid := (used_reserve hreserve).1
  split
  · exact (balances_insertDeclaration hid).restocks
  · exact (balances_insertSpecialization hid).restocks
  · apply within_lift_bind
    intro _ _
    apply restocks_of_left
    intro hnext
    apply within_bind (within_forM fun _ _ _ => restocks_reserve)
    intro _ e₂ hrun
    obtain ⟨hold, hnew⟩ := used_reserveEach hrun hnext
    exact (balances_insertContext (hold _ hid) hnew).restocks
  · exact within_throw

theorem balances_restoreName {name : Identifier} : Balances a e (e.restoreName t x name).2 := by
  rw [restoreName]
  split
  · exact refl_of (Balances a) e
  case h_2 st hst =>
    split
    · exact refl_of (Balances a) e
    · exact balances_rename hst

theorem balances_restoreNextName {state : RestoreReport × Engine} :
    Balances a state.2 (restoreNextName t state st).2 := by
  rw [restoreNextName]
  split
  · exact refl_of (Balances a) state.2
  · dsimp only
    split <;> exact balances_restoreName

theorem balances_restoreTrappings {state : RestoreReport × Engine} {d : Deleted} :
    Balances a state.2 (restoreTrappings t state d).2 := by
  rw [restoreTrappings]
  split
  · have hnames : Balances a state.2
        ((d.statement :: d.assumptions).foldl (restoreNextName t) state).2 :=
      foldl_snd_within (fun _ _ _ => balances_restoreNextName) state
    cases d.authority with
    | none => exact hnames
    | some b =>
      exact trans_of (Balances a) hnames
        (trans_of (Balances a) balances_setAuthority balances_notify)
  · exact refl_of (Balances a) state.2

theorem restocks_undelete : Within (Restocks a) e (undelete t) :=
  within_undelete
    (fun undo => (show Balances a e { e with undo } from balances_of_store rfl).restocks)
    (fun _ _ => rebuildNext_within restocks_rebuildDeleted)
    (fun _ _ => balances_restoreTrappings.restocks)
    fun _ _ => (balances_of_store store_onTransaction).restocks

end Engine

end StatementGraph
