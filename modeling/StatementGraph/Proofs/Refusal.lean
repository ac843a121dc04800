import StatementGraph.Proofs.Acting
import StatementGraph.Proofs.Within

namespace StatementGraph

def Transaction.unlocked (tx : Transaction) : Transaction := { tx with held := {} }

namespace Engine

variable {t : TransactionId} {e e' e'' : Engine} {x : StatementId} {α β : Type}

/-- What a refused request may leave behind. -/
structure Refused (t : TransactionId) (e e' : Engine) : Prop where
  store : { e'.store with allocator := e.store.allocator } = e.store
  rest : { e' with store := e.store, locks := e.locks, transactions := e.transactions } = e
  locks : ∀ x, e'.locks.owner? x = e.locks.owner? x ∨
    e.locks.owner? x = none ∧ e'.locks.owner? x = some t
  others : ∀ t', t' ≠ t → e'.transactions.get? t' = e.transactions.get? t'
  own : (e'.transactions.get? t).map Transaction.unlocked =
    (e.transactions.get? t).map Transaction.unlocked

theorem Refused.refl (t : TransactionId) (e : Engine) : Refused t e e :=
  ⟨rfl, rfl, fun _ => Or.inl rfl, fun _ _ => rfl, rfl⟩

theorem Refused.trans (h : Refused t e e') (h' : Refused t e' e'') : Refused t e e'' where
  store := by rw [← h.store, ← h'.store]
  rest := by rw [← h.rest, ← h'.rest]
  locks x := by
    rcases h'.locks x with hsame | ⟨hfree, htaken⟩
    · rw [hsame]
      exact h.locks x
    · rcases h.locks x with hsame | ⟨-, htaken'⟩
      · exact Or.inr ⟨hsame ▸ hfree, htaken⟩
      · cases hfree.symm.trans htaken'
  others t' ht' := (h'.others t' ht').trans (h.others t' ht')
  own := h'.own.trans h.own

instance isPreorder_refused : IsPreorder Engine (Refused t) where
  refl := .refl t
  trans _ _ _ := .trans

theorem refused_lock {locks : LockTable} (h : e.locks.acquire x t = .ok locks) :
    Refused t e
      ({ e with locks }.onTransaction t fun tx => { tx with held := tx.held.insert x }) := by
  refine ⟨?_, ?_, fun y => ?_, fun t' ht' => ?_, ?_⟩
  · rw [store_onTransaction]
  · rw [onTransaction]
    split <;> rfl
  · rw [locks_onTransaction]
    exact (owner?_acquire h y).imp_right And.right
  · rw [get?_onTransaction, if_neg ht']
  · rw [get?_onTransaction, if_pos rfl, Option.map_map]
    rfl

/-! ### Actions -/

/-- An action that fails leaves only what a refused request may leave. -/
def Refuses (t : TransactionId) (e : Engine) (m : Action α) : Prop :=
  ∀ f e', m.perform e = (.error f, e') → Refused t e e'

section Rules

variable {m : Action α} {k : α → Action β}

theorem Within.refuses (h : Within (Refused t) e m) : Refuses t e m := by
  intro f e' hm
  rw [Within, hm] at h
  exact h

theorem refuses_throw {f : Failure} : Refuses t e (throw f : Action α) := within_throw.refuses

theorem refuses_pure {a : α} : Refuses t e (pure a : Action α) := within_pure.refuses

theorem refuses_get_bind {k : Engine → Action β} (h : Refuses t e (k e)) :
    Refuses t e (get >>= k) := h

theorem refuses_bind (h : Within (Refused t) e m)
    (hk : ∀ a e', m.perform e = (.ok a, e') → Refuses t e' (k a)) : Refuses t e (m >>= k) := by
  intro f e'' hrun
  rw [Within] at h
  rw [perform_bind] at hrun
  cases hm : m.perform e with
  | mk r e' =>
    rw [hm] at h hrun
    cases r with
    | error f' =>
      cases hrun
      exact h
    | ok a => exact h.trans (hk a e' hm f e'' hrun)

theorem refuses_set : Refuses t e (set e' : Action Unit) := fun _ _ h => by cases h

theorem refuses_await {run : Propagation} : Refuses t e (await run) := by
  intro f e' h
  rcases await_cases run e with hrun | hrun
  · cases hrun.symm.trans h
  · cases hrun.symm.trans h
    exact .refl t e

theorem refuses_bind_of_ok (h : Refuses t e m)
    (hk : ∀ a e', ∃ b e'', (k a).perform e' = (.ok b, e'')) : Refuses t e (m >>= k) := by
  intro f e'' hrun
  rw [perform_bind] at hrun
  cases hm : m.perform e with
  | mk r e' =>
    rw [hm] at hrun
    cases r with
    | error f' =>
      cases hrun
      exact h f e'' hm
    | ok a =>
      obtain ⟨b, e₁, hb⟩ := hk a e'
      cases hb.symm.trans hrun

end Rules

theorem within_refused_allocate : Within (Refused t) e allocate := by
  have hcounter (a : Allocator) : Refused t e { e with store := { e.store with allocator := a } } :=
    ⟨rfl, rfl, fun _ => Or.inl rfl, fun _ _ => rfl, rfl⟩
  apply within_get_bind
  rw [Store.allocate]
  dsimp only
  split
  · exact hcounter _
  · exact hcounter _

theorem within_refused_allocateMany (n : Nat) : Within (Refused t) e (allocateMany n) := by
  induction n generalizing e with
  | zero => exact within_pure
  | succ n ih =>
    exact within_bind within_refused_allocate fun _ _ _ => within_bind ih fun _ _ _ => within_pure

theorem within_refused_lock : Within (Refused t) e (lock t x) := by
  refine within_bind within_ensureOpen fun _ e' _ => within_get_bind ?_
  cases hlocks : e'.locks.acquire x t with
  | error error => exact within_throw
  | ok locks => exact refused_lock hlocks

theorem within_refused_lockAll {ids : IdSet} : Within (Refused t) e (lockAll t ids) :=
  within_forM fun _ _ _ => within_refused_lock

/-- A request on an open transaction that starts with a check of the engine. -/
theorem refuses_checked_bind {x : Engine → Except Failure α} {k : Engine → α → Action β}
    (h : ∀ e₁ a e₂, Refuses t e₂ (k e₁ a)) :
    Refuses t e (ensureOpen t >>= fun _ => get >>= fun e => liftM (x e) >>= k e) :=
  refuses_bind within_ensureOpen fun _ e₁ _ =>
    refuses_get_bind (refuses_bind within_lift fun a e₂ _ => h e₁ a e₂)

/-! ### Operations -/

theorem refuses_insertDeclaration {context id : StatementId} {value : Term} :
    Refuses t e (insertDeclaration t context value id) :=
  refuses_get_bind (refuses_bind within_lift fun _ _ _ => refuses_get_bind refuses_await)

theorem refuses_insertSpecialization {context general id : StatementId} {argument : Term} :
    Refuses t e (insertSpecialization t context general argument id) :=
  refuses_get_bind (refuses_bind within_lift fun _ _ _ => refuses_get_bind refuses_await)

theorem refuses_insertContext {owner : Option StatementId} {term : Term} {kind : ContextKind}
    {id : StatementId} : Refuses t e (insertContext t owner term kind id none) :=
  refuses_get_bind (refuses_bind within_lift fun _ _ _ =>
    refuses_bind (within_refused_allocateMany _) fun _ _ _ => refuses_get_bind refuses_await)

theorem refuses_allocate_bind {insert : StatementId → Action Unit}
    (h : ∀ id e', Refuses t e' (insert id)) :
    Refuses t e (allocate >>= fun id => insert id >>= fun _ => pure id) :=
  refuses_bind within_refused_allocate fun id e' _ =>
    refuses_bind_of_ok (h id e') fun _ e' => ⟨id, e', rfl⟩

theorem refuses_createRoot {term : Term} : Refuses t e (createRoot t term) :=
  refuses_checked_bind fun _ _ _ => refuses_allocate_bind fun _ _ => refuses_insertContext

theorem refuses_declare {context : StatementId} {value : Term} :
    Refuses t e (declare t context value) :=
  refuses_checked_bind fun _ _ _ => refuses_allocate_bind fun _ _ => refuses_insertDeclaration

theorem refuses_specialize {context general : StatementId} {argument : Term} :
    Refuses t e (specialize t context general argument) :=
  refuses_checked_bind fun _ _ _ => refuses_allocate_bind fun _ _ => refuses_insertSpecialization

theorem refuses_openContext {context : StatementId} {term : Term} {kind : ContextKind} :
    Refuses t e (openContext t context term kind) :=
  refuses_checked_bind fun _ _ _ => refuses_get_bind (refuses_bind within_lift fun _ _ _ =>
    refuses_allocate_bind fun _ _ => refuses_insertContext)

theorem refuses_carryOut {work : Removal → Removal} : Refuses t e (carryOut t work) :=
  fun _ _ h => by cases h

theorem refuses_removeStatements {context : StatementId} {ids : List StatementId} :
    Refuses t e (removeStatements t context ids) := by
  refine refuses_checked_bind fun _ _ _ => refuses_bind within_lift fun removal _ _ => ?_
  dsimp only
  split
  · exact refuses_throw
  · exact refuses_bind within_refused_lockAll fun _ _ _ => refuses_carryOut

theorem refuses_removeRoot {root : StatementId} : Refuses t e (removeRoot t root) := by
  refine refuses_checked_bind fun _ st _ => ?_
  dsimp only
  split
  · exact refuses_throw
  · split
    · exact refuses_throw
    · exact refuses_bind within_refused_lockAll fun _ _ _ => refuses_carryOut

theorem refuses_removeCascade {context id : StatementId} :
    Refuses t e (removeCascade t context id) := by
  refine refuses_checked_bind fun _ _ _ => refuses_bind within_lift fun st _ _ => ?_
  dsimp only
  split
  · exact refuses_throw
  · exact refuses_bind within_refused_lockAll fun _ _ _ => refuses_carryOut

theorem refuses_rebuild : Refuses t e (rebuild t x) :=
  refuses_checked_bind fun _ _ _ => fun _ _ h => by cases h

/-- A statement under a valid signature is either left alone or renamed by force. -/
theorem refuses_guardSigned {force : Bool} : Refuses t e (guardSigned t x force) := by
  apply refuses_get_bind
  split
  · split
    · split
      · exact refuses_set
      · exact refuses_throw
    · exact refuses_pure
  · exact refuses_pure

theorem refuses_identify {name : Identifier} {force : Bool} :
    Refuses t e (identify t x name force) := by
  refine refuses_checked_bind fun _ st _ => refuses_bind within_refused_lock fun _ _ _ => ?_
  dsimp only
  split
  · exact refuses_pure
  · have hname (e : Engine) : Refuses t e (guardSigned t x force >>= fun _ =>
        modify fun e => e.put t { st with identifier := some name }) :=
      refuses_bind_of_ok refuses_guardSigned fun _ _ => ⟨_, _, rfl⟩
    apply refuses_get_bind
    split
    · split
      · exact refuses_throw
      · exact hname _
    · exact hname _

theorem refuses_unidentify {force : Bool} : Refuses t e (unidentify t x force) := by
  refine refuses_checked_bind fun _ st _ => refuses_bind within_refused_lock fun _ _ _ => ?_
  split
  · exact refuses_throw
  · exact refuses_bind_of_ok refuses_guardSigned fun _ _ => ⟨_, _, rfl⟩

theorem refuses_createAuthority {author : String} : Refuses t e (createAuthority t x author) := by
  refine refuses_checked_bind fun _ st _ => refuses_bind within_refused_lock fun _ _ _ => ?_
  apply refuses_get_bind
  split
  · exact refuses_throw
  · exact fun _ _ h => by cases h

theorem within_refused_requireAuthority : Within (Refused t) e (requireAuthority x) := by
  apply within_get_bind
  split
  · exact within_pure
  · exact within_throw

theorem refuses_signAuthority : Refuses t e (signAuthority t x) :=
  refuses_bind within_ensureOpen fun _ _ _ => refuses_bind within_refused_lock fun _ _ _ =>
    refuses_bind within_refused_requireAuthority fun _ _ _ => fun _ _ h => by cases h

/-! ### An authority that is not there -/

theorem setAuthority_of_absent (h : e.store.authority? x = none) :
    e.setAuthority t x none = e.keepAuthority t x := by
  have htable : e.store.authorities.set x none = e.store.authorities := by
    apply Table.eq_of_get?
    intro y
    rw [Table.get?_set]
    split
    case isTrue heq => exact heq ▸ h.symm
    case isFalse => rfl
  have hstore : (e.keepAuthority t x).store = e.store := store_onTransaction
  rw [setAuthority, onStore, hstore, Store.setAuthority, htable]
  exact congrArg (fun s => { e.keepAuthority t x with store := s }) hstore.symm

theorem Refused.authority? (h : Refused t e e') (x : StatementId) :
    e'.store.authority? x = e.store.authority? x := by
  rw [← h.store]
  rfl

theorem deleteAuthority_refused {f : Failure}
    (h : (deleteAuthority t x).perform e = (.error f, e')) :
    Refused t e e' ∨ e.store.authority? x = none ∧
      ∃ e₁, Refused t e e₁ ∧ e' = e₁.keepAuthority t x := by
  cases hopen : e.isOpen t with
  | false =>
    rw [deleteAuthority, perform_closed hopen] at h
    cases h
    exact Or.inl (.refl t e)
  | true =>
    rw [deleteAuthority, perform_bind, perform_ensureOpen hopen] at h
    dsimp only at h
    rw [perform_bind] at h
    have hlock : Within (Refused t) e (lock t x) := within_refused_lock
    rw [Within] at hlock
    cases hm : (lock t x).perform e with
    | mk r e₁ =>
      rw [hm] at h hlock
      cases r with
      | error f' =>
        cases h
        exact Or.inl hlock
      | ok _ =>
        dsimp only at h
        rw [perform_get_bind] at h
        cases ha : e₁.store.authority? x with
        | some a =>
          rw [ha] at h
          cases h
        | none =>
          rw [ha] at h
          cases h
          exact Or.inr ⟨hlock.authority? x ▸ ha, e₁, hlock, setAuthority_of_absent ha⟩

end Engine

namespace Op

open Engine

variable {e : Engine} {t : TransactionId} {op : Op} {f : Failure}

/-- The requests that are checked before they take effect. -/
def isChecked : Op → Bool
  | createRoot .. | declare .. | specialize .. | openNested .. | openUnfolding .. => true
  | removeStatements .. | removeRoot .. | removeCascade .. => true
  | identify .. | unidentify .. => true
  | createAuthority .. | signAuthority .. | deleteAuthority .. => true
  | rebuild .. => true
  | _ => false

/-- A request that fails changes nothing but the counter and the locks of its transaction. -/
theorem refused_unchanged (hchecked : op.isChecked = true) (hclient : op.client? = some t)
    (h : (op.run e).1 = .error f) : Refused t e (op.run e).2 ∨
      ∃ x, op = .deleteAuthority t x ∧ e.store.authority? x = none ∧
        ∃ e₁, Refused t e e₁ ∧ (op.run e).2 = e₁.keepAuthority t x := by
  have hrefuses {α : Type} {m : Action α} (hm : Refuses t e m) (h : (m.effect e).1 = .error f) :
      Refused t e (m.effect e).2 := by
    rw [Action.effect] at h ⊢
    cases hrun : m.perform e with
    | mk r e' =>
      rw [hrun] at h
      cases r with
      | error f' => exact hm f' e' hrun
      | ok a => cases h
  cases op with
  | createRoot =>
    cases hclient
    exact Or.inl (hrefuses refuses_createRoot h)
  | declare =>
    cases hclient
    exact Or.inl (hrefuses refuses_declare h)
  | specialize =>
    cases hclient
    exact Or.inl (hrefuses refuses_specialize h)
  | openNested =>
    cases hclient
    exact Or.inl (hrefuses refuses_openContext h)
  | openUnfolding =>
    cases hclient
    exact Or.inl (hrefuses refuses_openContext h)
  | removeStatements =>
    cases hclient
    exact Or.inl (hrefuses refuses_removeStatements h)
  | removeRoot =>
    cases hclient
    exact Or.inl (hrefuses refuses_removeRoot h)
  | removeCascade =>
    cases hclient
    exact Or.inl (hrefuses refuses_removeCascade h)
  | rebuild =>
    cases hclient
    exact Or.inl (hrefuses refuses_rebuild h)
  | identify =>
    cases hclient
    exact Or.inl (hrefuses refuses_identify h)
  | unidentify =>
    cases hclient
    exact Or.inl (hrefuses refuses_unidentify h)
  | createAuthority =>
    cases hclient
    exact Or.inl (hrefuses refuses_createAuthority h)
  | signAuthority =>
    cases hclient
    exact Or.inl (hrefuses refuses_signAuthority h)
  | deleteAuthority t' x =>
    cases hclient
    rw [run, Action.effect] at h
    cases hrun : (Engine.deleteAuthority t x).perform e with
    | mk r e' =>
      rw [hrun] at h
      cases r with
      | ok a => cases h
      | error f' =>
        have he : ((Op.deleteAuthority t x).run e).2 = e' := congrArg Prod.snd hrun
        rw [he]
        rcases deleteAuthority_refused hrun with href | ⟨ha, e₁, href, hjournal⟩
        · exact Or.inl href
        · exact Or.inr ⟨x, rfl, ha, e₁, href, hjournal⟩
  | _ => cases hchecked

def lockedAssumption : List Op :=
  [.begin none, .createRoot ⟨1⟩ (.function ⟨0⟩ (.atom "A") (.atom "B")), .lock ⟨1⟩ (.after 1),
    .begin none]

/-- A removal may be refused half way through its locks. -/
theorem removal_refused_at_lock :
    ((Op.removeRoot ⟨2⟩ (.after 0)).run (runAll (.inMemory {}) lockedAssumption)).1 =
        .error (.store (.lockTimeout 2)) ∧
      (runAll (.inMemory {}) lockedAssumption).locks.owner? (.after 0) = none ∧
      ((Op.removeRoot ⟨2⟩ (.after 0)).run
        (runAll (.inMemory {}) lockedAssumption)).2.locks.owner? (.after 0) = some ⟨2⟩ ∧
      Refused ⟨2⟩ (runAll (.inMemory {}) lockedAssumption)
        ((Op.removeRoot ⟨2⟩ (.after 0)).run (runAll (.inMemory {}) lockedAssumption)).2 := by
  have hfail : ((Op.removeRoot ⟨2⟩ (.after 0)).run (runAll (.inMemory {}) lockedAssumption)).1 =
      .error (.store (.lockTimeout 2)) := rfl
  refine ⟨hfail, by decide, by decide, ?_⟩
  rcases refused_unchanged rfl rfl hfail with h | ⟨x, hx, -⟩
  · exact h
  · cases hx

/-- A refused removal of an authority shows in the journal. -/
theorem absent_authority_journalled :
    Reached (fun e op => op.Sequential e)
        (runAll (.inMemory {}) [.begin none, .createRoot ⟨1⟩ (.atom "A")]) ∧
      ((Op.deleteAuthority ⟨1⟩ (.after 0)).run
        (runAll (.inMemory {}) [.begin none, .createRoot ⟨1⟩ (.atom "A")])).1 =
          .error (.structural (.noAuthority 1)) ∧
      ¬Refused ⟨1⟩ (runAll (.inMemory {}) [.begin none, .createRoot ⟨1⟩ (.atom "A")])
        ((Op.deleteAuthority ⟨1⟩ (.after 0)).run
          (runAll (.inMemory {}) [.begin none, .createRoot ⟨1⟩ (.atom "A")])).2 := by
  have hstart : Reached (fun e op => op.Sequential e) (.inMemory {}) := @Reached.start _ {} _ rfl
  refine ⟨hstart.runAll _ ⟨fun _ => rfl, ⟨rfl, by decide⟩, trivial, ⟨rfl, by decide⟩, trivial⟩,
    rfl, fun h => ?_⟩
  have htouched := congrArg (Option.map Transaction.touched) h.own
  revert htouched
  decide

end Op

end StatementGraph
