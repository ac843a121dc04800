import StatementGraph.Proofs.Acting
import StatementGraph.Proofs.Within

namespace StatementGraph

namespace Engine

open Store Removal

variable {t : TransactionId} {e e' : Engine} {x : StatementId} {st : Statement} {α β : Type}

def SameLocks (e e' : Engine) : Prop := e'.locks = e.locks

instance isPreorder_sameLocks : IsPreorder Engine SameLocks where
  refl _ := rfl
  trans _ _ _ h h' := Eq.trans h' h

theorem SameLocks.trans {e'' : Engine} (h : SameLocks e e') (h' : SameLocks e' e'') :
    SameLocks e e'' := trans_of SameLocks h h'

theorem sameLocks_onTransaction {f : Transaction → Transaction} :
    SameLocks e (e.onTransaction t f) := locks_onTransaction

theorem sameLocks_notify {event : Event} : SameLocks e (e.notify t event) := by
  rw [notify]
  apply foldl_within
  intro e listener _
  rw [hear]
  split
  · exact sameLocks_onTransaction
  · rfl

theorem sameLocks_put : SameLocks e (e.put t st) := sameLocks_onTransaction

theorem sameLocks_setProved {flag : Bool} : SameLocks e (e.setProved t x flag) :=
  sameLocks_onTransaction

theorem sameLocks_setAuthority {a : Option Authority} : SameLocks e (e.setAuthority t x a) :=
  sameLocks_onTransaction

/-! ### Flags -/

theorem sameLocks_step {mode : PropagationMode} (run : Propagation) :
    SameLocks run.engine (run.step mode t).engine := by
  rw [Propagation.step]
  split
  · rfl
  · split
    · rfl
    · dsimp only
      split
      · rfl
      · dsimp only
        split
        · exact sameLocks_setProved.trans sameLocks_notify
        · exact sameLocks_setProved

theorem sameLocks_drain {mode : PropagationMode} (steps : Nat) (run : Propagation) :
    SameLocks run.engine (run.drain mode t steps).engine :=
  Propagation.drain_keeps (I := fun later => SameLocks run.engine later.engine) rfl
    (fun later _ _ h _ => h.trans (sameLocks_step later)) steps

theorem sameLocks_propagation {mode : PropagationMode} {seeds : List StatementId} :
    SameLocks e (e.propagation mode t seeds).engine :=
  sameLocks_drain _ { engine := e, queue := Walk.unseen [] seeds }

theorem sameLocks_rederive {seeds : List StatementId} : SameLocks e (e.rederive t seeds).2 := by
  have hcleared : SameLocks e ((e.store.region seeds).toList.foldl (clearFlag t) e) := by
    apply foldl_within
    intro e x _
    rw [clearFlag]
    split
    · exact sameLocks_setProved
    · rfl
  have hannounced (before : Store) (e : Engine) (l : List StatementId) :
      SameLocks e (l.foldl (announceChange t before) e) := by
    apply foldl_within
    intro e x _
    rw [announceChange]
    split
    · split
      · rfl
      · exact sameLocks_notify
    · rfl
  exact (hcleared.trans sameLocks_propagation).trans (hannounced _ _ _)

theorem sameLocks_rebuild : Within SameLocks e (rebuild t x) := by
  apply within_ensureOpen_bind
  apply within_get_bind
  apply within_lift_bind
  intro _ _
  apply within_get_bind
  apply within_bind (within_set sameLocks_rederive)
  intro _ _ _
  exact within_pure

/-! ### Removals -/

theorem sameLocks_erase : SameLocks e (Removal.erase t e x).2 := by
  have hremove : SameLocks e (e.remove t x) := sameLocks_onTransaction
  have hgone : SameLocks e ((e.remove t x).setAuthority t x none) :=
    hremove.trans sameLocks_setAuthority
  rw [Removal.erase]
  split
  · exact hremove
  · refine hgone.trans (SameLocks.trans ?_ sameLocks_onTransaction)
    split
    · exact sameLocks_notify.trans sameLocks_notify
    · exact sameLocks_notify

theorem sameLocks_eraseAssumptions (l : List StatementId) :
    SameLocks e (eraseAssumptions t l e).2 := by
  induction l generalizing e with
  | nil => rfl
  | cons x rest ih =>
    rw [eraseAssumptions]
    exact sameLocks_erase.trans ih

theorem sameLocks_removeOne (r : Removal) : SameLocks r.engine (r.removeOne t x).engine := by
  rw [removeOne]
  split
  · rfl
  · dsimp only
    split <;> exact (sameLocks_eraseAssumptions _).trans sameLocks_erase

theorem sameLocks_of_runs {r r' : Removal} (h : Runs t r r') : SameLocks r.engine r'.engine := by
  induction h with
  | refl => rfl
  | tail _ hstep ih =>
    obtain ⟨x, rfl⟩ := hstep
    exact ih.trans (sameLocks_removeOne _)

theorem sameLocks_recheck (r : Removal) : SameLocks r.engine (r.recheck t).engine := by
  rw [recheck]
  split
  · rfl
  · exact sameLocks_rederive

theorem sameLocks_carryOut {work : Removal → Removal}
    (h : ∀ r, SameLocks r.engine (work r).engine) : Within SameLocks e (carryOut t work) := by
  have hrecord : SameLocks e ((work { engine := e }).record t) :=
    (h { engine := e }).trans sameLocks_onTransaction
  exact within_get_bind hrecord

/-! ### Constructions -/

theorem sameLocks_enter : SameLocks e (e.enter t st).engine :=
  (sameLocks_put.trans sameLocks_notify).trans sameLocks_propagation

theorem sameLocks_enterContext {assumptions : List Statement} :
    SameLocks e (e.enterContext t st assumptions).engine := by
  have hadded : SameLocks e ((st :: assumptions).foldl (addRecord t) e) := by
    apply foldl_within
    intro e st' _
    exact sameLocks_put.trans sameLocks_notify
  exact (hadded.trans sameLocks_propagation).trans sameLocks_propagation

theorem sameLocks_allocate : Within SameLocks e allocate := by
  apply within_get_bind
  rw [Store.allocate]
  dsimp only
  split <;> rfl

theorem sameLocks_allocateMany (n : Nat) : Within SameLocks e (allocateMany n) := by
  induction n generalizing e with
  | zero => exact within_pure
  | succ n ih =>
    apply within_bind sameLocks_allocate
    intro _ _ _
    apply within_bind ih
    intro _ _ _
    exact within_pure

theorem sameLocks_insertDeclaration {context id : StatementId} {value : Term} :
    Within SameLocks e (insertDeclaration t context value id) := by
  apply within_get_bind
  apply within_lift_bind
  intro _ _
  exact within_get_bind (within_await sameLocks_enter)

theorem sameLocks_insertSpecialization {context general id : StatementId} {argument : Term} :
    Within SameLocks e (insertSpecialization t context general argument id) := by
  apply within_get_bind
  apply within_lift_bind
  intro _ _
  exact within_get_bind (within_await sameLocks_enter)

theorem sameLocks_insertContext {owner : Option StatementId} {term : Term} {kind : ContextKind}
    {id : StatementId} {given : Option (List StatementId)} :
    Within SameLocks e (insertContext t owner term kind id given) := by
  apply within_get_bind
  apply within_lift_bind
  intro opened _
  have hids : Within SameLocks e (assumptionIds id opened.2.unproject.arity given) := by
    cases given with
    | none => exact sameLocks_allocateMany _
    | some ids =>
      rw [assumptionIds]
      split
      · exact within_throw
      · exact within_pure
  apply within_bind hids
  intro _ _ _
  exact within_get_bind (within_await sameLocks_enterContext)

theorem sameLocks_make {insert : StatementId → Action Unit}
    (h : ∀ id e, Within SameLocks e (insert id)) :
    Within SameLocks e (allocate >>= fun id => insert id >>= fun _ => pure id) := by
  apply within_bind sameLocks_allocate
  intro id e' _
  apply within_bind (h id e')
  intro _ _ _
  exact within_pure

theorem sameLocks_createRoot {term : Term} : Within SameLocks e (createRoot t term) := by
  apply within_ensureOpen_bind
  apply within_get_bind
  apply within_lift_bind
  intro _ _
  exact sameLocks_make fun _ _ => sameLocks_insertContext

theorem sameLocks_declare {context : StatementId} {value : Term} :
    Within SameLocks e (declare t context value) := by
  apply within_ensureOpen_bind
  apply within_get_bind
  apply within_lift_bind
  intro _ _
  exact sameLocks_make fun _ _ => sameLocks_insertDeclaration

theorem sameLocks_specialize {context general : StatementId} {argument : Term} :
    Within SameLocks e (specialize t context general argument) := by
  apply within_ensureOpen_bind
  apply within_get_bind
  apply within_lift_bind
  intro _ _
  exact sameLocks_make fun _ _ => sameLocks_insertSpecialization

theorem sameLocks_openContext {context : StatementId} {term : Term} {kind : ContextKind} :
    Within SameLocks e (openContext t context term kind) := by
  apply within_ensureOpen_bind
  apply within_get_bind
  apply within_lift_bind
  intro _ _
  apply within_get_bind
  apply within_lift_bind
  intro _ _
  exact sameLocks_make fun _ _ => sameLocks_insertContext

theorem sameLocks_guardSigned {force : Bool} : Within SameLocks e (guardSigned t x force) := by
  apply within_get_bind
  split
  · split
    · split
      · exact within_set sameLocks_setAuthority
      · exact within_throw
    · exact within_pure
  · exact within_pure

/-! ### Restorations -/

theorem sameLocks_rebuildDeleted : Within SameLocks e (rebuildDeleted t st) := by
  have hreserve (e : Engine) (x : StatementId) : Within SameLocks e (reserve x) :=
    within_reserve fun _ => rfl
  apply within_get_bind
  dsimp only
  refine guard_cases (P := Within SameLocks e) _ (fun _ => within_throw) fun _ => ?_
  apply within_bind (hreserve e st.id)
  intro _ _ _
  split
  · exact sameLocks_insertDeclaration
  · exact sameLocks_insertSpecialization
  · apply within_lift_bind
    intro _ _
    apply within_bind (within_forM fun _ _ e => hreserve e _)
    intro _ _ _
    exact sameLocks_insertContext
  · exact within_throw

theorem sameLocks_restoreTrappings (state : RestoreReport × Engine) (d : Deleted) :
    SameLocks state.2 (restoreTrappings t state d).2 := by
  have hname (state : RestoreReport × Engine) (st : Statement) :
      SameLocks state.2 (restoreNextName t state st).2 := by
    have hput (name : Identifier) : SameLocks state.2 (state.2.restoreName t st.id name).2 := by
      rw [restoreName]
      split
      · rfl
      · split
        · rfl
        · exact sameLocks_put
    rw [restoreNextName]
    split
    · rfl
    · dsimp only
      split <;> exact hput _
  have hnames := foldl_snd_within (R := SameLocks) (l := d.statement :: d.assumptions)
    (fun state st _ => hname state st) state
  rw [restoreTrappings]
  split
  · dsimp only
    split
    · exact hnames.trans (sameLocks_setAuthority.trans sameLocks_notify)
    · exact hnames
  · rfl

theorem sameLocks_undelete : Within SameLocks e (undelete t) :=
  within_undelete (fun _ => rfl) (fun _ _ => rebuildNext_within sameLocks_rebuildDeleted)
    sameLocks_restoreTrappings fun _ _ => sameLocks_onTransaction

end Engine

/-! ### Copies -/

namespace Copying

open Engine

variable {t : TransactionId} {exclude : IdSet}

theorem sameLocks_settle {source copy : StatementId} :
    Stays SameLocks (settle t exclude source copy) := by
  have hnote : Stays SameLocks (note source copy) := fun _ => rfl
  refine stays_bind hnote fun _ state => ?_
  change SameLocks state.engine (CopyState.engine (ite _ _ _))
  split
  · rfl
  · split
    · split
      · rfl
      · exact sameLocks_put
    · rfl

theorem sameLocks_copyShell {into : StatementId} {term : Term} {data : ContextData} :
    Stays SameLocks (copyShell t exclude into term data) := by
  refine stays_bind stays_get fun state => ?_
  refine stays_bind stays_lift fun _ => ?_
  refine stays_bind (stays_act fun _ => sameLocks_allocate) fun id => ?_
  refine stays_bind (stays_act fun _ => sameLocks_insertContext) fun _ => ?_
  refine stays_store_bind fun s => ?_
  refine stays_bind stays_lift fun copied => ?_
  refine stays_bind (stays_forM fun _ _ => sameLocks_settle) fun _ => ?_
  exact stays_pure

theorem sameLocks_copyAll (depth : Nat) (outer : List StatementId) (into : StatementId)
    (sources : List StatementId) :
    Stays SameLocks (copyAll t exclude depth outer into sources) := by
  induction depth generalizing outer into sources with
  | zero => exact stays_pure
  | succ depth ih =>
    apply stays_forM
    intro source _
    refine stays_bind stays_get fun state => ?_
    dsimp only
    split
    · exact fun _ => rfl
    · refine stays_bind stays_lift fun st => ?_
      split
      · exact stays_throw
      · refine stays_bind (stays_act fun _ => sameLocks_allocate) fun id => ?_
        refine stays_bind (stays_act fun _ => sameLocks_insertDeclaration) fun _ => ?_
        exact sameLocks_settle
      · refine stays_bind (stays_act fun _ => sameLocks_allocate) fun id => ?_
        refine stays_bind (stays_act fun _ => sameLocks_insertSpecialization) fun _ => ?_
        exact sameLocks_settle
      · split
        · exact stays_throw
        · refine stays_bind sameLocks_copyShell fun id => ?_
          refine stays_store_bind fun s => ?_
          refine stays_bind stays_lift fun contents => ?_
          refine stays_bind sameLocks_settle fun _ => ?_
          exact ih _ _ _

theorem sameLocks_copyList {target : StatementId} {sources : List StatementId} :
    Stays SameLocks (copyList t target sources exclude) := by
  refine stays_bind (stays_act fun _ => within_ensureOpen) fun _ => ?_
  refine stays_store_bind fun s => ?_
  refine stays_bind stays_lift fun _ => ?_
  refine stays_bind (sameLocks_copyAll _ _ _ _) fun _ => ?_
  refine stays_bind stays_get fun _ => ?_
  exact stays_lift

end Copying

end StatementGraph
