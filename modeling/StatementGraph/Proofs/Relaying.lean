import StatementGraph.Proofs.Listening

namespace StatementGraph

namespace Engine

open Store Removal

variable {handle : ListenerId} {label : String} {t : TransactionId} {e e' : Engine}
  {x : StatementId} {st : Statement}

/-! ### Removals -/

theorem relays_removeOne (r : Removal) : Relays handle label r.engine (r.removeOne t x).engine := by
  rw [removeOne]
  split
  · exact .refl _
  · dsimp only
    split <;> exact (relays_eraseAssumptions _).trans relays_erase

theorem relays_of_runs {r r' : Removal} (h : Runs t r r') :
    Relays handle label r.engine r'.engine := by
  induction h with
  | refl => exact .refl _
  | tail _ hstep ih =>
    obtain ⟨x, rfl⟩ := hstep
    exact ih.trans (relays_removeOne _)

theorem relays_recheck (r : Removal) : Relays handle label r.engine (r.recheck t).engine := by
  rw [recheck]
  split
  · exact .refl _
  · exact relays_rederive

theorem relays_lock : Within (Relays handle label) e (lock t x) := by
  apply within_bind within_ensureOpen
  intro _ e' _
  apply within_get_bind
  split
  case h_1 locks _ =>
    have hlocks : Relays handle label e' { e' with locks } :=
      relays_unheard ⟨rfl, rfl⟩ id fun _ => rfl
    exact within_set (hlocks.trans relays_onTransaction)
  case h_2 => exact within_throw

theorem relays_lockAll {ids : IdSet} : Within (Relays handle label) e (lockAll t ids) :=
  within_forM fun _ _ _ => relays_lock

theorem relays_carryOut {work : Removal → Removal}
    (h : ∀ r, Relays handle label r.engine (work r).engine) :
    Within (Relays handle label) e (carryOut t work) := by
  have hrecord : Relays handle label e ((work { engine := e }).record t) :=
    (h { engine := e }).trans relays_onTransaction
  exact within_get_bind hrecord

theorem relays_removeStatements {context : StatementId} {ids : List StatementId} :
    Within (Relays handle label) e (removeStatements t context ids) := by
  apply within_ensureOpen_bind
  apply within_get_bind
  apply within_lift_bind
  intro _ _
  apply within_lift_bind
  intro removal _
  dsimp only
  split
  · exact within_throw
  · apply within_bind relays_lockAll
    intro _ _ _
    apply relays_carryOut
    intro r
    exact (relays_of_runs (runs_removeTrees r _)).trans (relays_recheck _)

theorem relays_removeRoot {root : StatementId} :
    Within (Relays handle label) e (removeRoot t root) := by
  apply within_ensureOpen_bind
  apply within_get_bind
  apply within_lift_bind
  intro st _
  dsimp only
  split
  · exact within_throw
  · split
    · exact within_throw
    · apply within_bind relays_lockAll
      intro _ _ _
      exact relays_carryOut fun r => relays_of_runs (runs_removeTree r root)

theorem relays_removeCascade {context id : StatementId} :
    Within (Relays handle label) e (removeCascade t context id) := by
  apply within_ensureOpen_bind
  apply within_get_bind
  apply within_lift_bind
  intro _ _
  apply within_lift_bind
  intro st _
  dsimp only
  split
  · exact within_throw
  · apply within_bind relays_lockAll
    intro _ _ _
    apply relays_carryOut
    intro r
    exact (relays_of_runs (runs_cascade _ _ _ r)).trans (relays_recheck _)

theorem relays_rebuild : Within (Relays handle label) e (rebuild t x) := by
  apply within_ensureOpen_bind
  apply within_get_bind
  apply within_lift_bind
  intro _ _
  apply within_get_bind
  apply within_bind (within_set relays_rederive)
  intro _ _ _
  exact within_pure

/-! ### Constructions -/

theorem relays_allocate : Within (Relays handle label) e allocate := by
  have hcounter (a : Allocator) :
      Relays handle label e { e with store := { e.store with allocator := a } } :=
    relays_unheard ⟨rfl, rfl⟩ (fun hi => hi.of_eq rfl rfl) fun _ => rfl
  apply within_get_bind
  rw [Store.allocate]
  dsimp only
  split
  · exact hcounter _
  · exact hcounter _

theorem relays_allocateMany (n : Nat) : Within (Relays handle label) e (allocateMany n) := by
  induction n generalizing e with
  | zero => exact within_pure
  | succ n ih =>
    apply within_bind relays_allocate
    intro _ _ _
    apply within_bind ih
    intro _ _ _
    exact within_pure

theorem relays_insertDeclaration {context id : StatementId} {value : Term} :
    Within (Relays handle label) e (insertDeclaration t context value id) := by
  apply within_get_bind
  apply within_lift_bind
  intro _ _
  exact within_get_bind (within_await relays_enter)

theorem relays_insertSpecialization {context general id : StatementId} {argument : Term} :
    Within (Relays handle label) e (insertSpecialization t context general argument id) := by
  apply within_get_bind
  apply within_lift_bind
  intro _ _
  exact within_get_bind (within_await relays_enter)

theorem relays_insertContext {owner : Option StatementId} {term : Term} {kind : ContextKind}
    {id : StatementId} {given : Option (List StatementId)} :
    Within (Relays handle label) e (insertContext t owner term kind id given) := by
  apply within_get_bind
  apply within_lift_bind
  intro opened _
  have hids : Within (Relays handle label) e (assumptionIds id opened.2.unproject.arity given) := by
    cases given with
    | none => exact relays_allocateMany _
    | some ids =>
      rw [assumptionIds]
      split
      · exact within_throw
      · exact within_pure
  apply within_bind hids
  intro _ _ _
  exact within_get_bind (within_await relays_enterContext)

theorem relays_make {insert : StatementId → Action Unit}
    (h : ∀ id e, Within (Relays handle label) e (insert id)) :
    Within (Relays handle label) e (allocate >>= fun id => insert id >>= fun _ => pure id) := by
  apply within_bind relays_allocate
  intro id e' _
  apply within_bind (h id e')
  intro _ _ _
  exact within_pure

theorem relays_createRoot {term : Term} : Within (Relays handle label) e (createRoot t term) := by
  apply within_ensureOpen_bind
  apply within_get_bind
  apply within_lift_bind
  intro _ _
  exact relays_make fun _ _ => relays_insertContext

theorem relays_declare {context : StatementId} {value : Term} :
    Within (Relays handle label) e (declare t context value) := by
  apply within_ensureOpen_bind
  apply within_get_bind
  apply within_lift_bind
  intro _ _
  exact relays_make fun _ _ => relays_insertDeclaration

theorem relays_specialize {context general : StatementId} {argument : Term} :
    Within (Relays handle label) e (specialize t context general argument) := by
  apply within_ensureOpen_bind
  apply within_get_bind
  apply within_lift_bind
  intro _ _
  exact relays_make fun _ _ => relays_insertSpecialization

theorem relays_openContext {context : StatementId} {term : Term} {kind : ContextKind} :
    Within (Relays handle label) e (openContext t context term kind) := by
  apply within_ensureOpen_bind
  apply within_get_bind
  apply within_lift_bind
  intro _ _
  apply within_get_bind
  apply within_lift_bind
  intro _ _
  exact relays_make fun _ _ => relays_insertContext

/-! ### Names and authorities -/

theorem relays_rename {name : Option Identifier} (h : e.store.get? x = some st) :
    Relays handle label e (e.put t { st with identifier := name }) := by
  apply relays_put
  intro hi
  have hid := hi.keyed x st h
  rw [flags, hid, h]
  rfl

theorem relays_guardSigned {force : Bool} :
    Within (Relays handle label) e (guardSigned t x force) := by
  apply within_get_bind
  split
  · split
    · split
      · exact within_set relays_setAuthority
      · exact within_throw
    · exact within_pure
  · exact within_pure

theorem relays_guard_bind {force : Bool} {β : Type} {k : Unit → Action β}
    (h : e.store.get? x = some st)
    (hk : ∀ e', e'.store.get? x = some st → Within (Relays handle label) e' (k ())) :
    Within (Relays handle label) e (guardSigned t x force >>= k) := by
  have hsame := (guardSigned_fields (t := t) e x force).1
  apply within_bind relays_guardSigned
  intro _ e' hrun
  rw [hrun] at hsame
  apply hk
  rw [get?, hsame]
  exact h

theorem relays_identify {name : Identifier} {force : Bool} :
    Within (Relays handle label) e (identify t x name force) := by
  apply within_ensureOpen_bind
  apply within_get_bind
  apply within_lift_bind
  intro st hst
  apply within_bind relays_lock
  intro _ e₁ hlock
  have hget := get?_lock hst hlock
  have hrename : Within (Relays handle label) e₁ (guardSigned t x force >>= fun _ =>
      modify fun e => e.put t { st with identifier := some name }) :=
    relays_guard_bind hget fun _ hget => within_modify (relays_rename hget)
  dsimp only
  split
  · exact within_pure
  · apply within_get_bind
    split
    · split
      · exact within_throw
      · exact hrename
    · exact hrename

theorem relays_unidentify {force : Bool} :
    Within (Relays handle label) e (unidentify t x force) := by
  apply within_ensureOpen_bind
  apply within_get_bind
  apply within_lift_bind
  intro st hst
  apply within_bind relays_lock
  intro _ e₁ hlock
  have hget := get?_lock hst hlock
  split
  · exact within_throw
  · apply relays_guard_bind hget
    intro e₂ hget
    apply within_bind (within_modify (relays_rename hget))
    intro _ _ _
    exact within_pure

theorem relays_createAuthority {author : String} :
    Within (Relays handle label) e (createAuthority t x author) := by
  apply within_ensureOpen_bind
  apply within_get_bind
  apply within_lift_bind
  intro _ _
  apply within_bind relays_lock
  intro _ e₁ _
  apply within_get_bind
  split
  · exact within_throw
  · apply within_bind (within_modify (relays_setAuthority.trans (relays_notify_authority _).1))
    intro _ _ _
    exact within_pure

theorem relays_signAuthority : Within (Relays handle label) e (signAuthority t x) := by
  apply within_ensureOpen_bind
  apply within_bind relays_lock
  intro _ e₁ _
  have hrequire : Within (Relays handle label) e₁ (requireAuthority x) := by
    apply within_get_bind
    split
    · exact within_pure
    · exact within_throw
  apply within_bind hrequire
  intro _ _ _
  apply within_bind (within_modify relays_setAuthority)
  intro _ _ _
  exact within_pure

theorem relays_deleteAuthority : Within (Relays handle label) e (deleteAuthority t x) := by
  apply within_ensureOpen_bind
  apply within_bind relays_lock
  intro _ e₁ _
  apply within_get_bind
  apply within_bind (within_modify relays_setAuthority)
  intro _ _ _
  split
  · apply within_bind (within_modify (relays_notify_authority _).2)
    intro _ _ _
    exact within_pure
  · exact within_throw

/-! ### Restorations -/

theorem relays_reserve : Within (Relays handle label) e (reserve x) := by
  apply within_reserve
  exact fun _ => relays_unheard ⟨rfl, rfl⟩ (fun hi => hi.of_eq rfl rfl) fun _ => rfl

theorem relays_rebuildDeleted : Within (Relays handle label) e (rebuildDeleted t st) := by
  apply within_get_bind
  dsimp only
  refine guard_cases (P := Within (Relays handle label) e) _ (fun _ => within_throw) fun _ => ?_
  apply within_bind relays_reserve
  intro _ _ _
  split
  · exact relays_insertDeclaration
  · exact relays_insertSpecialization
  · apply within_lift_bind
    intro _ _
    apply within_bind (within_forM fun _ _ _ => relays_reserve)
    intro _ _ _
    exact relays_insertContext
  · exact within_throw

theorem relays_restoreNextName (state : RestoreReport × Engine) (st : Statement) :
    Relays handle label state.2 (restoreNextName t state st).2 := by
  have hname (name : Identifier) :
      Relays handle label state.2 (state.2.restoreName t st.id name).2 := by
    rw [restoreName]
    split
    · exact .refl _
    case h_2 st hst =>
      split
      · exact .refl _
      · exact relays_rename hst
  rw [restoreNextName]
  split
  · exact .refl _
  · dsimp only
    split <;> exact hname _

theorem relays_restoreTrappings (state : RestoreReport × Engine) (d : Deleted) :
    Relays handle label state.2 (restoreTrappings t state d).2 := by
  have hnames := foldl_snd_within (R := Relays handle label) (l := d.statement :: d.assumptions)
    (fun state st _ => relays_restoreNextName (t := t) state st) state
  rw [restoreTrappings]
  split
  · dsimp only
    split
    · exact hnames.trans (relays_setAuthority.trans (relays_notify_authority _).1)
    · exact hnames
  · exact .refl _

theorem relays_undelete : Within (Relays handle label) e (undelete t) :=
  within_undelete (fun _ => relays_unheard ⟨rfl, rfl⟩ id fun _ => rfl)
    (fun _ _ => rebuildNext_within relays_rebuildDeleted) relays_restoreTrappings
    fun _ _ => relays_onTransaction

end Engine

/-! ### Copies -/

namespace Copying

open Engine

variable {handle : ListenerId} {label : String} {t : TransactionId} {exclude : IdSet}

theorem relays_settle {source copy : StatementId} :
    Stays (Relays handle label) (settle t exclude source copy) := by
  have hnote : Stays (Relays handle label) (note source copy) := fun state => .refl state.engine
  refine stays_bind hnote fun _ state => ?_
  change Relays handle label state.engine (CopyState.engine (ite _ _ _))
  split
  · exact .refl _
  · split
    case h_1 name st _ hst =>
      split
      · exact .refl _
      · exact relays_rename hst
    case h_2 => exact .refl _

theorem relays_copyShell {into : StatementId} {term : Term} {data : ContextData} :
    Stays (Relays handle label) (copyShell t exclude into term data) := by
  refine stays_bind stays_get fun state => ?_
  refine stays_bind stays_lift fun _ => ?_
  refine stays_bind (stays_act fun _ => relays_allocate) fun id => ?_
  refine stays_bind (stays_act fun _ => relays_insertContext) fun _ => ?_
  refine stays_store_bind fun s => ?_
  refine stays_bind stays_lift fun copied => ?_
  refine stays_bind (stays_forM fun _ _ => relays_settle) fun _ => ?_
  exact stays_pure

theorem relays_copyAll (depth : Nat) (outer : List StatementId) (into : StatementId)
    (sources : List StatementId) :
    Stays (Relays handle label) (copyAll t exclude depth outer into sources) := by
  induction depth generalizing outer into sources with
  | zero => exact stays_pure
  | succ depth ih =>
    apply stays_forM
    intro source _
    refine stays_bind stays_get fun state => ?_
    dsimp only
    split
    · exact fun state => .refl state.engine
    · refine stays_bind stays_lift fun st => ?_
      split
      · exact stays_throw
      · refine stays_bind (stays_act fun _ => relays_allocate) fun id => ?_
        refine stays_bind (stays_act fun _ => relays_insertDeclaration) fun _ => ?_
        exact relays_settle
      · refine stays_bind (stays_act fun _ => relays_allocate) fun id => ?_
        refine stays_bind (stays_act fun _ => relays_insertSpecialization) fun _ => ?_
        exact relays_settle
      · split
        · exact stays_throw
        · refine stays_bind relays_copyShell fun id => ?_
          refine stays_store_bind fun s => ?_
          refine stays_bind stays_lift fun contents => ?_
          refine stays_bind relays_settle fun _ => ?_
          exact ih _ _ _

theorem relays_copyList {target : StatementId} {sources : List StatementId} :
    Stays (Relays handle label) (copyList t target sources exclude) := by
  refine stays_bind (stays_act fun _ => within_ensureOpen) fun _ => ?_
  refine stays_store_bind fun s => ?_
  refine stays_bind stays_lift fun _ => ?_
  refine stays_bind (relays_copyAll _ _ _ _) fun _ => ?_
  refine stays_bind stays_get fun _ => ?_
  exact stays_lift

end Copying

/-! ### Operations -/

namespace Op

open Engine

variable {handle : ListenerId} {label : String} {e : Engine} {t : TransactionId} {op : Op}

/-- The listener can follow whatever is asked in a transaction. -/
theorem relays_client (h : op.client? = some t) : Relays handle label e (op.run e).2 := by
  cases op with
  | createRoot => exact relays_createRoot
  | declare => exact relays_declare
  | specialize => exact relays_specialize
  | openNested => exact relays_openContext
  | openUnfolding => exact relays_openContext
  | removeStatements => exact relays_removeStatements
  | removeRoot => exact relays_removeRoot
  | removeCascade => exact relays_removeCascade
  | copy t target sources map exclude => exact Copying.relays_copyList { engine := e, map }
  | undelete => exact relays_undelete
  | rebuild => exact relays_rebuild
  | propagate => exact within_propagate relays_propagation
  | identify => exact relays_identify
  | unidentify => exact relays_unidentify
  | createAuthority => exact relays_createAuthority
  | signAuthority => exact relays_signAuthority
  | deleteAuthority => exact relays_deleteAuthority
  | lock => exact relays_lock
  | addHook => exact relays_onTransaction
  | _ => cases h

end Op

/-! ### Sessions -/

namespace Registry

variable {r : Registry} {handle : ListenerId} {label : String}

theorem hears_first {listener : Listener} (h : r = {}) :
    (r.add none listener).2.Hears (r.add none listener).1 listener.label := by
  subst h
  refine ⟨?_, fun entry hentry => absurd hentry List.not_mem_nil⟩
  rw [Registry.add, List.nil_append, List.filter_singleton, decide_eq_true rfl]
  rfl

theorem Hears.add {subject : Option StatementId} {listener : Listener} (h : r.Hears handle label)
    (hlabel : listener.label ≠ label) : (r.add subject listener).2.Hears handle label := by
  cases subject with
  | none =>
    refine ⟨?_, h.keyed⟩
    rw [← h.once, Registry.add, List.filter_append, List.filter_singleton, decide_eq_false hlabel]
    simp
  | some x =>
    refine ⟨h.once, fun entry hentry => ?_⟩
    rcases List.mem_append.1 hentry with hold | hnew
    · exact h.keyed entry hold
    · cases List.mem_singleton.1 hnew
      exact hlabel

theorem Hears.remove {other : ListenerId} (h : r.Hears handle label) (hother : other ≠ handle) :
    (r.remove other).2.Hears handle label := by
  refine ⟨?_, fun entry hentry => h.keyed entry (List.mem_filter.1 hentry).1⟩
  have hkept : (r.everywhere.filter fun entry => entry.2.label = label).filter
      (fun entry => entry.1 ≠ other) = r.everywhere.filter fun entry => entry.2.label = label := by
    rw [List.filter_eq_self]
    intro entry hentry
    have hhandle : entry.1 ∈ [handle] := h.once ▸ List.mem_map_of_mem hentry
    rw [List.mem_singleton] at hhandle
    simpa [hhandle] using hother.symm
  rw [← h.once, ← hkept, Registry.remove, List.filter_comm]

theorem Hears.forget {x : StatementId} (h : r.Hears handle label) :
    (r.forget x).Hears handle label :=
  ⟨h.once, fun entry hentry => h.keyed entry (List.mem_filter.1 hentry).1⟩

end Registry

namespace Engine

open Store

variable {handle : ListenerId} {label : String} {t : TransactionId} {e : Engine}

theorem create_listeners {config : Config} (h : create config .absent = .ok e) :
    e.listeners = {} := by
  rw [create, bind_eq_ok] at h
  obtain ⟨-, -, h⟩ := h
  split at h
  · cases h
    rfl
  · cases h
    rfl

/-- Hooks tell the listener nothing and leave it registered. -/
theorem runHooks_heard {committed : Bool} (hooks : List Hook)
    (h : e.listeners.Hears handle label) :
    (hooks.foldl (runHook committed) e).listeners.Hears handle label ∧
      ∃ news, (hooks.foldl (runHook committed) e).notices = e.notices ++ news ∧
        told label news = [] := by
  induction hooks generalizing e with
  | nil => exact ⟨h, [], (List.append_nil _).symm, rfl⟩
  | cons hook rest ih =>
    have hone : (runHook committed e hook).listeners.Hears handle label ∧
        ∃ news, (runHook committed e hook).notices = e.notices ++ news ∧ told label news = [] := by
      rw [runHook]
      split
      · split
        · exact ⟨h.forget, [], (List.append_nil _).symm, rfl⟩
        · exact ⟨h, _, rfl, rfl⟩
        · exact ⟨h, _, rfl, rfl⟩
      · exact ⟨h, [], (List.append_nil _).symm, rfl⟩
    obtain ⟨hears, news, hnews, htold⟩ := hone
    obtain ⟨hears', news', hnews', htold'⟩ := ih hears
    refine ⟨hears', news ++ news', ?_, ?_⟩
    · rw [List.foldl_cons, hnews', hnews, List.append_assoc]
    · rw [told_append, htold, htold']
      rfl

end Engine

namespace Op

open Engine Store

variable {handle : ListenerId} {label : String} {e : Engine} {op : Op} {ops : List Op}

def attended (handle : ListenerId) (label : String) : Op → Bool
  | abort _ | close => false
  | listen _ listener => listener.label ≠ label
  | unlisten other => other ≠ handle
  | _ => true

def heard (label : String) (e : Engine) (op : Op) : List Event :=
  told label ((op.run e).2.notices.drop e.notices.length)

/-- What the listener hears while operations run. -/
def heardAll (label : String) (e : Engine) : List Op → List Event
  | [] => []
  | op :: ops => op.heard label e ++ heardAll label (op.run e).2 ops

theorem heard_of_news {news : List Notice} (h : (op.run e).2.notices = e.notices ++ news) :
    op.heard label e = told label news := by
  rw [heard, h, List.drop_left]

theorem heard_commit {t : TransactionId} (hears : e.listeners.Hears handle label) :
    ((commit t).run e).2.store = e.store ∧ ((commit t).run e).2.listeners.Hears handle label ∧
      ∃ news, ((commit t).run e).2.notices = e.notices ++ news ∧ told label news = [] := by
  rw [run]
  rcases commit_cases e t with ⟨-, hrun⟩ | ⟨tx, -, -, hrun⟩ <;> rw [hrun]
  · exact ⟨rfl, hears, [], (List.append_nil _).symm, rfl⟩
  · obtain ⟨hlisteners, hnotices⟩ := unheard_onTransaction (e := e) (t := tx.id)
      (f := Transaction.emptied)
    refine ⟨(commitWith_fields e tx).1, ?_⟩
    rw [commitWith, finish, ← hnotices]
    exact runHooks_heard tx.hooks (hlisteners ▸ hears)

/-- The listener can follow every operation. -/
theorem heard_leads (hop : op.attended handle label = true) (hi : e.store.Indexed)
    (hears : e.listeners.Hears handle label) :
    (op.run e).2.store.Indexed ∧ (op.run e).2.listeners.Hears handle label ∧
      e.store.flags.Leads (op.heard label e) (op.run e).2.store.flags := by
  cases hclient : op.client? with
  | some t =>
    have hrelays : Relays handle label e (op.run e).2 := relays_client hclient
    obtain ⟨news, hnews, hleads⟩ := hrelays.news hi hears
    refine ⟨hrelays.indexed hi, hrelays.listeners hi ▸ hears, ?_⟩
    rw [heard_of_news hnews]
    exact hleads
  | none =>
    -- the others leave the store as it is, and tell the listener nothing
    have hsilent (hstore : (op.run e).2.store = e.store)
        (hears' : (op.run e).2.listeners.Hears handle label)
        (hnews : op.heard label e = []) : (op.run e).2.store.Indexed ∧
          (op.run e).2.listeners.Hears handle label ∧
          e.store.flags.Leads (op.heard label e) (op.run e).2.store.flags := by
      rw [hnews, hstore]
      exact ⟨hi, hears', rfl⟩
    have hsame (hnotices : (op.run e).2.notices = e.notices) : op.heard label e = [] :=
      heard_of_news (hnotices.trans (List.append_nil _).symm)
    cases op with
    | begin timeout => exact hsilent rfl hears (hsame rfl)
    | commit t =>
      obtain ⟨hstore, hears', news, hnews, htold⟩ := heard_commit (t := t) hears
      exact hsilent hstore hears' ((heard_of_news hnews).trans htold)
    | listen subject listener => exact hsilent rfl (hears.add (of_decide_eq_true hop)) (hsame rfl)
    | unlisten other => exact hsilent rfl (hears.remove (of_decide_eq_true hop)) (hsame rfl)
    | takeNotices => exact hsilent rfl hears (congrArg (told label) List.drop_nil)
    | popUndo =>
      have hpop : e.popUndo.2.store = e.store ∧ e.popUndo.2.listeners = e.listeners ∧
          e.popUndo.2.notices = e.notices := by
        rw [Engine.popUndo]
        split <;> exact ⟨rfl, rfl, rfl⟩
      exact hsilent hpop.1 (by rw [run, hpop.2.1]; exact hears) (hsame hpop.2.2)
    | abort => cases hop
    | close => cases hop
    | _ => cases hclient

theorem heardAll_leads (hops : ∀ op ∈ ops, op.attended handle label = true)
    (hi : e.store.Indexed) (hears : e.listeners.Hears handle label) :
    e.store.flags.Leads (heardAll label e ops) (runAll e ops).store.flags := by
  induction ops generalizing e with
  | nil => exact rfl
  | cons op rest ih =>
    obtain ⟨hop, hrest⟩ := List.forall_mem_cons.1 hops
    obtain ⟨hi', hears', hleads⟩ := heard_leads hop hi hears
    exact hleads.append (ih hrest hi' hears')

end Op

/-! ### Replay -/

def Event.enter (table : Table StatementId Bool) : Event → Table StatementId Bool
  | .proved id flag => table.insert id flag
  | .added id _ flag => table.insert id flag
  | .deleted id _ _ => table.erase id
  | .authorityCreated _ => table
  | .authorityDeleted _ => table

def replay (events : List Event) : Table StatementId Bool := events.foldl Event.enter {}

theorem Flags.Leads.get?_enterAll {table : Table StatementId Bool} {events : List Event} {m : Flags}
    (h : Flags.Leads table.get? events m) : (events.foldl Event.enter table).get? = m := by
  induction events generalizing table with
  | nil => exact h
  | cons event rest ih =>
    have hone : Flags.after table.get? event = (event.enter table).get? := by
      funext x
      cases event with
      | proved id flag => exact (Function.update_apply _ _ _ _).trans Table.get?_insert.symm
      | added id context flag => exact (Function.update_apply _ _ _ _).trans Table.get?_insert.symm
      | deleted id context name => exact (Function.update_apply _ _ _ _).trans Table.get?_erase.symm
      | authorityCreated a => rfl
      | authorityDeleted a => rfl
    apply ih
    rw [← hone]
    exact h.2

namespace Op

open Engine Store

variable {handle : ListenerId} {e₀ e : Engine} {ops : List Op}

/-- What a listener hears, entered into a table, gives the statements with their flags. -/
theorem replay_heardAll {config : Config} {listener : Listener}
    (hcreate : Engine.create config .absent = .ok e₀)
    (hlisten : e₀.listen none listener = (handle, e))
    (hops : ∀ op ∈ ops, op.attended handle listener.label = true) :
    (∀ x, (replay (heardAll listener.label e ops)).get? x =
      ((runAll e ops).store.get? x).map Statement.proved) ∧
    ∀ before later x flag,
      heardAll listener.label e ops = before ++ .proved x flag :: later →
        (replay before).get? x = some (!flag) := by
  have hstore : e.store = {} := by
    cases hlisten
    exact (create_fields hcreate).1
  have hears : e.listeners.Hears handle listener.label := by
    cases hlisten
    exact Registry.hears_first (create_listeners hcreate)
  have hleads := heardAll_leads hops (hstore ▸ indexed_empty) hears
  have hempty : e.store.flags = Table.get? {} := by
    rw [hstore]
    rfl
  rw [hempty] at hleads
  refine ⟨fun x => congrFun hleads.get?_enterAll x, fun before later x flag hsplit => ?_⟩
  rw [hsplit] at hleads
  obtain ⟨m, hbefore, hadmits⟩ := hleads.admits
  rw [replay, hbefore.get?_enterAll]
  exact hadmits

/-- A root that is solved, is not any more, and is solved again by what is undeleted. -/
def solvedTwice : List Op :=
  [.begin none,
    .createRoot ⟨1⟩ (.function ⟨0⟩ (.function ⟨1⟩ (.atom "A") (.atom "B"))
      (.function ⟨2⟩ (.atom "A") (.atom "B"))),
    .specialize ⟨1⟩ (.after 0) (.after 1) (.var (.after 2) (.atom "A")),
    .removeStatements ⟨1⟩ (.after 0) [.after 3], .commit ⟨1⟩, .begin none, .undelete ⟨2⟩]

def watched : Engine := ((Engine.inMemory {}).listen none ⟨"log", true⟩).2

/-- The root is proved in the end, and was so before it was said not to be. -/
theorem replay_solvedTwice :
    (Engine.inMemory {}).listen none ⟨"log", true⟩ = (⟨0⟩, watched) ∧
      (replay (heardAll "log" watched solvedTwice)).get? (.after 0) = some true ∧
      ∃ before later,
        heardAll "log" watched solvedTwice = before ++ .proved (.after 0) false :: later ∧
        (replay before).get? (.after 0) = some true := by
  have hops : ∀ op ∈ solvedTwice, op.attended ⟨0⟩ "log" = true := by decide
  have hlisten : (Engine.inMemory {}).listen none ⟨"log", true⟩ = (⟨0⟩, watched) := rfl
  obtain ⟨hflags, hchange⟩ := @replay_heardAll _ _ _ _ {} ⟨"log", true⟩ rfl hlisten hops
  have hdrop : (heardAll "log" watched solvedTwice).drop 9 =
      .proved (.after 0) false :: (heardAll "log" watched solvedTwice).drop 10 := by
    decide +kernel
  have hsplit := (List.take_append_drop 9 (heardAll "log" watched solvedTwice)).symm
  rw [hdrop] at hsplit
  exact ⟨hlisten, (hflags _).trans (by decide +kernel), _, _, hsplit, hchange _ _ _ _ hsplit⟩

end Op

end StatementGraph
