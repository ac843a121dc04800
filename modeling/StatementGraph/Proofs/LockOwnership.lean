import StatementGraph.Proofs.Bookkeeping
import StatementGraph.Proofs.LockFrame

namespace StatementGraph

namespace Engine

open Store

variable {t t' : TransactionId} {e e' : Engine} {x y : StatementId} {l : List StatementId}
  {α : Type}

/-! ### Asking for locks -/

theorem lock_refused {f : Failure} (h : (lock t x).perform e = (.error f, e')) : e' = e := by
  cases hopen : e.isOpen t with
  | false =>
    rw [lock, perform_closed hopen] at h
    cases h
    rfl
  | true =>
    rw [lock, perform_bind, perform_ensureOpen hopen] at h
    dsimp only at h
    rw [perform_get_bind] at h
    cases hlocks : e.locks.acquire x t with
    | error error =>
      rw [hlocks] at h
      cases h
      rfl
    | ok locks =>
      rw [hlocks] at h
      cases h

/-- A lock is granted if the transaction is open and nobody else has the lock. -/
theorem lock_ok_iff : (∃ e', (lock t x).perform e = (.ok (), e')) ↔
    e.isOpen t = true ∧ ∀ t', e.locks.owner? x = some t' → t' = t := by
  cases hopen : e.isOpen t with
  | false =>
    rw [lock, perform_closed hopen]
    simp
  | true =>
    rw [lock, perform_bind, perform_ensureOpen hopen]
    dsimp only
    rw [perform_get_bind, LockTable.acquire]
    cases howner : e.locks.owner? x with
    | none =>
      dsimp only
      simp only [reduceCtorEq, false_implies, implies_true, and_self, iff_true]
      exact ⟨_, rfl⟩
    | some holder =>
      dsimp only
      by_cases hholder : holder = t
      · simp only [hholder, if_true, Option.some.injEq, true_and]
        constructor
        · intro _ t' ht'
          exact ht'.symm
        · intro _
          exact ⟨_, rfl⟩
      · rw [if_neg hholder]
        constructor
        · intro hok
          obtain ⟨e', hok⟩ := hok
          cases hok
        · intro hok
          exact absurd (hok.2 holder rfl) hholder

/-- A lock that is granted is owned, and all others have the owners they had. -/
theorem lock_granted {u : Unit} (h : (lock t x).perform e = (.ok u, e')) (y : StatementId) :
    e'.locks.owner? y = if y = x then some t else e.locks.owner? y := by
  obtain ⟨hopen, hfree⟩ := lock_ok_iff.1 ⟨e', h⟩
  rw [lock, perform_bind, perform_ensureOpen hopen] at h
  dsimp only at h
  rw [perform_get_bind, LockTable.acquire] at h
  cases howner : e.locks.owner? x with
  | none =>
    rw [howner] at h
    cases h
    rw [locks_onTransaction]
    exact Table.get?_insert
  | some holder =>
    cases hfree holder howner
    rw [howner] at h
    dsimp only at h
    rw [if_pos rfl] at h
    cases h
    rw [locks_onTransaction]
    split
    case isTrue heq => rw [heq, howner]
    case isFalse => rfl

theorem isOpen_of_lock {u : Unit} (h : (lock t x).perform e = (.ok u, e')) :
    e'.isOpen t = true := by
  obtain ⟨hopen, -⟩ := lock_ok_iff.1 ⟨e', h⟩
  obtain ⟨tx, htx, hclosed⟩ := isOpen_iff.1 hopen
  rw [lock, perform_bind, perform_ensureOpen hopen] at h
  dsimp only at h
  rw [perform_get_bind] at h
  cases hlocks : e.locks.acquire x t with
  | error error =>
    rw [hlocks] at h
    cases h
  | ok locks =>
    rw [hlocks] at h
    cases h
    refine isOpen_iff.2 ⟨{ tx with held := tx.held.insert x }, ?_, hclosed⟩
    rw [get?_onTransaction, if_pos rfl]
    exact congrArg (Option.map _) htx

/-- All of some locks are granted if the transaction is open and nobody else has one of them. -/
theorem forM_lock_ok_iff (hopen : e.isOpen t = true) :
    (∃ e', (l.forM (lock t)).perform e = (.ok (), e')) ↔
      ∀ x ∈ l, ∀ t', e.locks.owner? x = some t' → t' = t := by
  induction l generalizing e with
  | nil => simpa using ⟨e, rfl⟩
  | cons x rest ih =>
    rw [List.forM, perform_bind, List.forall_mem_cons]
    cases hlock : (lock t x).perform e with
    | mk r e₁ =>
      cases r with
      | error f =>
        constructor
        · rintro ⟨e', h⟩
          cases h
        · rintro ⟨hx, -⟩
          obtain ⟨e', h⟩ := lock_ok_iff.2 ⟨hopen, hx⟩
          rw [hlock] at h
          cases h
      | ok u =>
        dsimp only
        rw [ih (isOpen_of_lock hlock), and_iff_right (lock_ok_iff.1 ⟨e₁, hlock⟩).2]
        refine forall₂_congr fun y _ => ?_
        rw [lock_granted hlock]
        split
        case isTrue heq =>
          rw [heq]
          simp only [Option.some.injEq]
          exact ⟨fun _ => (lock_ok_iff.1 ⟨e₁, hlock⟩).2, fun _ t' ht => ht.symm⟩
        case isFalse => exact Iff.rfl

theorem forM_lock_granted {u : Unit} (h : (l.forM (lock t)).perform e = (.ok u, e'))
    (y : StatementId) : e'.locks.owner? y = if y ∈ l then some t else e.locks.owner? y := by
  induction l generalizing e with
  | nil =>
    cases h
    rfl
  | cons x rest ih =>
    obtain ⟨u', e₁, hlock, h⟩ := bind_performs.1 h
    rw [ih h, lock_granted hlock]
    by_cases hy : y = x <;> simp [hy]

/-- The locks that a transaction gets, up to the first that is refused. -/
def obtains (t : TransactionId) : Engine → List StatementId → List StatementId
  | _, [] => []
  | e, x :: rest =>
    match (lock t x).perform e with
    | (.ok _, e') => x :: obtains t e' rest
    | (.error _, _) => []

theorem owner?_forM_lock (l : List StatementId) (e : Engine) (y : StatementId) :
    ((l.forM (lock t)).perform e).2.locks.owner? y =
      if y ∈ obtains t e l then some t else e.locks.owner? y := by
  induction l generalizing e with
  | nil => rfl
  | cons x rest ih =>
    rw [List.forM, perform_bind, obtains]
    cases hlock : (lock t x).perform e with
    | mk r e' =>
      cases r with
      | error f =>
        rw [lock_refused hlock]
        rfl
      | ok u =>
        dsimp only
        rw [ih e', lock_granted hlock y]
        by_cases hy : y = x
        · simp [hy]
        · simp [hy]

theorem free_of_mem_obtains (h : y ∈ obtains t e l) :
    e.isOpen t = true ∧ ∀ t', e.locks.owner? y = some t' → t' = t := by
  induction l generalizing e with
  | nil => cases h
  | cons x rest ih =>
    rw [obtains] at h
    cases hlock : (lock t x).perform e with
    | mk r e' =>
      rw [hlock] at h
      cases r with
      | error f => cases h
      | ok u =>
        have hx := lock_ok_iff.1 ⟨e', hlock⟩
        rcases List.mem_cons.1 h with heq | hrest
        · rw [heq]
          exact hx
        · refine ⟨hx.1, fun t' ht' => ?_⟩
          by_cases hy : y = x
          · exact hx.2 t' (hy ▸ ht')
          · apply (ih hrest).2 t'
            rw [lock_granted hlock, if_neg hy]
            exact ht'

/-- An action changes the lock table as asking for a list of statements does. -/
def Asks (t : TransactionId) (l : List StatementId) (e : Engine) (m : Action α) : Prop :=
  (m.perform e).2.locks = ((l.forM (lock t)).perform e).2.locks

section Rules

variable {k : Unit → Action α}

theorem asks_nil {m : Action α} (h : Within SameLocks e m) : Asks t [] e m := h

theorem asks_ensureOpen_bind (h : e.isOpen t = true → Asks t l e (k ())) :
    Asks t l e (ensureOpen t >>= k) := by
  cases hopen : e.isOpen t with
  | false =>
    rw [Asks, perform_closed hopen]
    cases l with
    | nil => rfl
    | cons x rest =>
      rw [List.forM, perform_bind, lock, perform_closed hopen]
  | true =>
    rw [Asks, perform_bind, perform_ensureOpen hopen]
    exact h hopen

theorem asks_get_bind {k : Engine → Action α} (h : Asks t l e (k e)) : Asks t l e (get >>= k) := h

theorem asks_lift_bind {β : Type} {y : Except Failure β} {k : β → Action α}
    (herror : ∀ f, y = .error f → l = []) (hok : ∀ b, y = .ok b → Asks t l e (k b)) :
    Asks t l e (liftM y >>= k) := by
  cases y with
  | error f =>
    rw [herror f rfl]
    rfl
  | ok b => exact hok b rfl

theorem asks_lock : Asks t [x] e (lock t x) := by
  rw [Asks, List.forM, perform_bind]
  cases hlock : (lock t x).perform e with
  | mk r e' =>
    cases r with
    | error f => rfl
    | ok u => rfl

theorem asks_lock_bind (h : ∀ e', Within SameLocks e' (k ())) :
    Asks t [x] e (lock t x >>= k) := by
  rw [Asks, perform_bind, List.forM, perform_bind]
  cases hlock : (lock t x).perform e with
  | mk r e' =>
    cases r with
    | error f => rfl
    | ok u => exact h e'

theorem asks_lockAll_bind {ids : IdSet} (h : ∀ e', Within SameLocks e' (k ())) :
    Asks t ids.toList e (lockAll t ids >>= k) := by
  rw [Asks, perform_bind, lockAll]
  cases hlock : (ids.toList.forM (lock t)).perform e with
  | mk r e' =>
    cases r with
    | error f => rfl
    | ok u => exact h e'

end Rules

end Engine

namespace Store

/-- What has to be locked to remove statements of a context, if nothing speaks against that. -/
def removalLocks (s : Store) (context : StatementId) (ids : List StatementId) :
    List StatementId :=
  match s.requireContext context, s.removalOf context ids with
  | .ok _, .ok removal => if (s.outsideDependents removal).isEmpty then removal.toList else []
  | _, _ => []

/-- What has to be locked to remove a root, if nothing speaks against that. -/
def rootLocks (s : Store) (root : StatementId) : List StatementId :=
  match s.requireContext root with
  | .ok st =>
    if st.owner = none ∧ (s.outsideDependents (s.membersOf st)).isEmpty then
      (s.membersOf st).toList
    else []
  | .error _ => []

def cascadeLocks (s : Store) (context id : StatementId) : List StatementId :=
  match s.requireContext context, s.require id with
  | .ok _, .ok st =>
    if st.owner = some context then
      (s.cascadeOf (if st.isAssumption then context else id)).toList
    else []
  | _, _ => []

end Store

namespace Op

open Engine Store

variable {e : Engine} {t : TransactionId} {op : Op}

/-- The statements that an operation asks to lock, in order. -/
def asks (e : Engine) : Op → List StatementId
  | lock _ id | signAuthority _ id | deleteAuthority _ id => [id]
  | identify _ id _ _ | unidentify _ id _ | createAuthority _ id _ =>
    if e.store.contains id then [id] else []
  | removeStatements _ context ids => e.store.removalLocks context ids
  | removeRoot _ root => e.store.rootLocks root
  | removeCascade _ context id => e.store.cascadeLocks context id
  | _ => []

theorem asks_require {α : Type} {x : StatementId} {k : Statement → Action α}
    (h : ∀ st, Asks t [x] e (k st)) :
    Asks t (if e.store.contains x then [x] else []) e (liftM (e.store.require x) >>= k) := by
  rw [require, contains, Table.contains]
  change Asks t (if (e.store.get? x).isSome then [x] else []) e _
  cases e.store.get? x with
  | none => exact asks_nil within_throw
  | some st => exact h st

theorem asks_identify {x : StatementId} {name : Identifier} {force : Bool} :
    Asks t (asks e (.identify t x name force)) e (Engine.identify t x name force) := by
  apply asks_ensureOpen_bind
  intro _
  apply asks_require
  intro st
  apply asks_lock_bind
  intro e₁
  have hrename : Within SameLocks e₁ (guardSigned t x force >>= fun _ =>
      modify fun e => e.put t { st with identifier := some name }) :=
    within_bind sameLocks_guardSigned fun _ _ _ => within_modify sameLocks_put
  dsimp only
  split
  · exact within_pure
  · apply within_get_bind
    split
    · split
      · exact within_throw
      · exact hrename
    · exact hrename

theorem asks_unidentify {x : StatementId} {force : Bool} :
    Asks t (asks e (.unidentify t x force)) e (Engine.unidentify t x force) := by
  apply asks_ensureOpen_bind
  intro _
  apply asks_require
  intro st
  apply asks_lock_bind
  intro e₁
  split
  · exact within_throw
  · apply within_bind sameLocks_guardSigned
    intro _ _ _
    apply within_bind (within_modify sameLocks_put)
    intro _ _ _
    exact within_pure

theorem asks_createAuthority {x : StatementId} {author : String} :
    Asks t (asks e (.createAuthority t x author)) e (Engine.createAuthority t x author) := by
  apply asks_ensureOpen_bind
  intro _
  apply asks_require
  intro _
  apply asks_lock_bind
  intro e₁
  apply within_get_bind
  split
  · exact within_throw
  · apply within_bind (within_modify (sameLocks_setAuthority.trans sameLocks_notify))
    intro _ _ _
    exact within_pure

theorem asks_signAuthority {x : StatementId} :
    Asks t (asks e (.signAuthority t x)) e (Engine.signAuthority t x) := by
  apply asks_ensureOpen_bind
  intro _
  apply asks_lock_bind
  intro e₁
  have hrequire : Within SameLocks e₁ (requireAuthority x) := by
    apply within_get_bind
    split
    · exact within_pure
    · exact within_throw
  apply within_bind hrequire
  intro _ _ _
  apply within_bind (within_modify sameLocks_setAuthority)
  intro _ _ _
  exact within_pure

theorem asks_deleteAuthority {x : StatementId} :
    Asks t (asks e (.deleteAuthority t x)) e (Engine.deleteAuthority t x) := by
  apply asks_ensureOpen_bind
  intro _
  apply asks_lock_bind
  intro e₁
  apply within_get_bind
  apply within_bind (within_modify sameLocks_setAuthority)
  intro _ _ _
  split
  · apply within_bind (within_modify sameLocks_notify)
    intro _ _ _
    exact within_pure
  · exact within_throw

theorem asks_removeStatements {context : StatementId} {ids : List StatementId} :
    Asks t (asks e (.removeStatements t context ids)) e
      (Engine.removeStatements t context ids) := by
  apply asks_ensureOpen_bind
  intro _
  apply asks_get_bind
  apply asks_lift_bind
  · intro f hf
    simp only [asks, removalLocks, hf]
  · intro st hst
    apply asks_lift_bind
    · intro f hf
      simp only [asks, removalLocks, hst, hf]
    · intro removal hremoval
      simp only [asks, removalLocks, hst, hremoval]
      cases hblocking : (e.store.outsideDependents removal).isEmpty with
      | false => exact asks_nil within_throw
      | true =>
        apply asks_lockAll_bind
        intro e₁
        apply sameLocks_carryOut
        intro r
        exact (sameLocks_of_runs (Removal.runs_removeTrees r _)).trans (sameLocks_recheck _)

theorem asks_removeRoot {root : StatementId} :
    Asks t (asks e (.removeRoot t root)) e (Engine.removeRoot t root) := by
  apply asks_ensureOpen_bind
  intro _
  apply asks_get_bind
  apply asks_lift_bind
  · intro f hf
    simp only [asks, rootLocks, hf]
  · intro st hst
    simp only [asks, rootLocks, hst]
    cases howner : st.owner with
    | some owner => exact asks_nil within_throw
    | none =>
      cases hblocking : (e.store.outsideDependents (e.store.membersOf st)).isEmpty with
      | false => exact asks_nil within_throw
      | true =>
        apply asks_lockAll_bind
        intro e₁
        exact sameLocks_carryOut fun r => sameLocks_of_runs (Removal.runs_removeTree r root)

theorem asks_removeCascade {context id : StatementId} :
    Asks t (asks e (.removeCascade t context id)) e (Engine.removeCascade t context id) := by
  apply asks_ensureOpen_bind
  intro _
  apply asks_get_bind
  apply asks_lift_bind
  · intro f hf
    simp only [asks, cascadeLocks, hf]
  · intro sc hsc
    apply asks_lift_bind
    · intro f hf
      simp only [asks, cascadeLocks, hsc, hf]
    · intro st hst
      simp only [asks, cascadeLocks, hsc, hst]
      by_cases howner : st.owner = some context
      · rw [if_pos howner, if_neg (not_not_intro howner)]
        apply asks_lockAll_bind
        intro e₁
        apply sameLocks_carryOut
        intro r
        exact (sameLocks_of_runs (Removal.runs_cascade _ _ _ r)).trans (sameLocks_recheck _)
      · rw [if_neg howner, if_pos howner]
        exact asks_nil within_throw

/-- An operation in a transaction changes the lock table as asking for its statements does. -/
theorem asks_run (h : op.client? = some t) :
    (op.run e).2.locks = (((op.asks e).forM (Engine.lock t)).perform e).2.locks := by
  cases op with
  | createRoot => cases h; exact asks_nil sameLocks_createRoot
  | declare => cases h; exact asks_nil sameLocks_declare
  | specialize => cases h; exact asks_nil sameLocks_specialize
  | openNested => cases h; exact asks_nil sameLocks_openContext
  | openUnfolding => cases h; exact asks_nil sameLocks_openContext
  | removeStatements => cases h; exact asks_removeStatements
  | removeRoot => cases h; exact asks_removeRoot
  | removeCascade => cases h; exact asks_removeCascade
  | copy t' target sources map exclude =>
    cases h
    exact Copying.sameLocks_copyList { engine := e, map }
  | undelete => cases h; exact asks_nil sameLocks_undelete
  | rebuild => cases h; exact asks_nil sameLocks_rebuild
  | propagate => cases h; exact asks_nil (within_propagate sameLocks_propagation)
  | identify => cases h; exact asks_identify
  | unidentify => cases h; exact asks_unidentify
  | createAuthority => cases h; exact asks_createAuthority
  | signAuthority => cases h; exact asks_signAuthority
  | deleteAuthority => cases h; exact asks_deleteAuthority
  | lock t' x =>
    cases h
    exact asks_lock
  | addHook => cases h; exact sameLocks_onTransaction
  | _ => cases h

def obtained (e : Engine) (op : Op) : List (TransactionId × StatementId) :=
  match op.client? with
  | some t => (obtains t e (op.asks e)).map (t, ·)
  | none => []

def history (e : Engine) : List Op → List (TransactionId × StatementId)
  | [] => []
  | op :: rest => op.obtained e ++ history (op.run e).2 rest

end Op

namespace Engine

open Op

variable {t t' : TransactionId} {e e' : Engine} {x y : StatementId} {tx : Transaction}
  {history : List (TransactionId × StatementId)} {op : Op}

/-- The owners are the open transactions that got the locks. -/
structure Accords (e : Engine) (history : List (TransactionId × StatementId)) : Prop where
  owned : ∀ x t, e.locks.owner? x = some t ↔ e.isOpen t = true ∧ (t, x) ∈ history
  held : ∀ x t, e.locks.owner? x = some t → ∃ tx, e.transactions.get? t = some tx ∧ x ∈ tx.held
  begun : ∀ t x, (t, x) ∈ history → t.raw < e.nextTransaction

theorem accords_create {config : Config} (h : create config .absent = .ok e) : e.Accords [] := by
  have hfree (x : StatementId) : e.locks.owner? x = none := by
    rw [locks_create h]
    rfl
  refine ⟨fun x t => ?_, fun x t hx => ?_, fun t x hx => ?_⟩
  · rw [hfree]
    simp
  · rw [hfree] at hx
    cases hx
  · cases hx

/-- No transaction begins or ends, and each goes on holding what it holds. -/
structure Carries (t : TransactionId) (e e' : Engine) : Prop where
  next : e'.nextTransaction = e.nextTransaction
  isOpen : ∀ t', e'.isOpen t' = e.isOpen t'
  held : ∀ t' tx, e.transactions.get? t' = some tx →
    ∃ tx', e'.transactions.get? t' = some tx' ∧ ∀ x, x ∈ tx.held → x ∈ tx'.held
  taken : ∀ x, e'.locks.owner? x = e.locks.owner? x ∨
    ∃ tx', e'.transactions.get? t = some tx' ∧ e'.locks.owner? x = some t ∧ x ∈ tx'.held

theorem Proceeds.carries (h : Proceeds t e e') : Carries t e e' where
  next := h.nextTransaction
  isOpen t' := by
    by_cases ht : t' = t
    · subst ht
      rw [Engine.isOpen, Engine.isOpen]
      cases htx : e.transactions.get? t' with
      | none => rw [h.unknown htx]
      | some tx =>
        obtain ⟨tx', htx', hadvances⟩ := h.own tx htx
        rw [htx', Option.any_some, Option.any_some, hadvances.closed]
    · rw [Engine.isOpen, Engine.isOpen, h.others t' ht]
  held t' tx htx := by
    by_cases ht : t' = t
    · subst ht
      obtain ⟨tx', htx', hadvances⟩ := h.own tx htx
      exact ⟨tx', htx', hadvances.held⟩
    · exact ⟨tx, (h.others t' ht).trans htx, fun _ hx => hx⟩
  taken x := by
    rcases h.locks x with hsame | ⟨-, hown, tx', htx', hx⟩
    · exact Or.inl hsame
    · exact Or.inr ⟨tx', htx', hown, hx⟩

theorem Carries.addPopped {batch : DeletionBatch} (h : Carries t e e') :
    Carries t e (e'.onTransaction t (·.addPopped batch)) := by
  have hget (t' : TransactionId) :
      (e'.onTransaction t (·.addPopped batch)).transactions.get? t' =
        if t' = t then (e'.transactions.get? t).map (·.addPopped batch)
        else e'.transactions.get? t' := get?_onTransaction
  have hkept (t' : TransactionId) (tx : Transaction) (htx : e'.transactions.get? t' = some tx) :
      ∃ tx', (e'.onTransaction t (·.addPopped batch)).transactions.get? t' = some tx' ∧
        tx'.held = tx.held := by
    rw [hget]
    split
    case isTrue heq =>
      rw [← heq, htx]
      exact ⟨_, rfl, rfl⟩
    case isFalse => exact ⟨tx, htx, rfl⟩
  refine ⟨onTransaction_fields.2.trans h.next, fun t' => ?_, fun t' tx htx => ?_, fun x => ?_⟩
  · rw [← h.isOpen, Engine.isOpen, Engine.isOpen, hget]
    split
    case isTrue heq =>
      rw [heq, Option.any_map]
      rfl
    case isFalse => rfl
  · obtain ⟨tx', htx', hheld⟩ := h.held t' tx htx
    obtain ⟨tx'', htx'', heq⟩ := hkept t' tx' htx'
    exact ⟨tx'', htx'', heq ▸ hheld⟩
  · rw [locks_onTransaction]
    rcases h.taken x with hsame | ⟨tx', htx', hown, hx⟩
    · exact Or.inl hsame
    · obtain ⟨tx'', htx'', heq⟩ := hkept t tx' htx'
      exact Or.inr ⟨tx'', htx'', hown, heq ▸ hx⟩

theorem carries_run (ho : e.Orderly) (h : op.client? = some t) : Carries t e (op.run e).2 := by
  rcases Op.worked ho h with hchanges | @⟨batch, rest, e₁, -, hchanges, he⟩
  · exact hchanges.proceeds.carries
  · rw [he]
    have hcarries : Carries t e e₁ := { hchanges.proceeds.carries with }
    exact hcarries.addPopped

/-- Work in a transaction enters the locks it gets into the history. -/
theorem Accords.work (h : e.Accords history) (ho : e.Orderly) (hclient : op.client? = some t) :
    (op.run e).2.Accords (history ++ op.obtained e) := by
  have hcarries := carries_run ho hclient
  have hobtained : op.obtained e = (obtains t e (op.asks e)).map (t, ·) := by
    rw [obtained, hclient]
  have howner (x : StatementId) : (op.run e).2.locks.owner? x =
      if x ∈ obtains t e (op.asks e) then some t else e.locks.owner? x := by
    rw [asks_run hclient, owner?_forM_lock]
  have hmem (t' : TransactionId) (x : StatementId) : (t', x) ∈ history ++ op.obtained e ↔
      (t', x) ∈ history ∨ t' = t ∧ x ∈ obtains t e (op.asks e) := by
    simp only [hobtained, List.mem_append, List.mem_map, Prod.mk.injEq]
    grind
  refine ⟨fun x t' => ?_, fun x t' hx => ?_, fun t' x hx => ?_⟩
  · rw [howner, hcarries.isOpen, hmem]
    by_cases hx : x ∈ obtains t e (op.asks e)
    · obtain ⟨hopen, hfree⟩ := free_of_mem_obtains hx
      rw [if_pos hx, Option.some.injEq]
      constructor
      · intro heq
        subst heq
        exact ⟨hopen, Or.inr ⟨rfl, hx⟩⟩
      · intro hgot
        rcases hgot.2 with hold | hnew
        · exact (hfree t' ((h.owned x t').2 ⟨hgot.1, hold⟩)).symm
        · exact hnew.1.symm
    · rw [if_neg hx, h.owned]
      simp [hx]
  · rcases hcarries.taken x with hsame | ⟨tx', htx', hown, hheld⟩
    · obtain ⟨tx, htx, hheld⟩ := h.held x t' (hsame.symm.trans hx)
      obtain ⟨tx', htx', hmore⟩ := hcarries.held t' tx htx
      exact ⟨tx', htx', hmore x hheld⟩
    · cases hown.symm.trans hx
      exact ⟨tx', htx', hheld⟩
  · rw [hcarries.next]
    rcases (hmem t' x).1 hx with hold | ⟨rfl, hnew⟩
    · exact h.begun t' x hold
    · obtain ⟨tx, htx, -⟩ := isOpen_iff.1 (free_of_mem_obtains hnew).1
      exact (ho.keyed t' tx htx).2

/-- The end of a transaction, as far as locks go. -/
inductive Closes (t : TransactionId) (e : Engine) : Engine → Prop where
  | idle (hclosed : e.isOpen t = false) : Closes t e e
  | done {e' : Engine} {tx : Transaction} (htx : e.transactions.get? t = some tx)
      (hnext : e'.nextTransaction = e.nextTransaction)
      (htransactions : e'.transactions = (e.onTransaction t Transaction.emptied).transactions)
      (hlocks : e'.locks = e.locks.release t tx.held) : Closes t e e'

theorem closes_commit (ho : e.Orderly) (t : TransactionId) :
    Closes t e (Op.run e (.commit t)).2 := by
  rw [Op.run]
  rcases commit_cases e t with ⟨hclosed, hrun⟩ | ⟨tx, htx, -, hrun⟩ <;> rw [hrun]
  · exact .idle hclosed
  · obtain ⟨-, -, htransactions, hnext⟩ := commitWith_fields e tx
    have hlocks : (e.commitWith tx).locks = e.locks.release tx.id tx.held := locks_commitWith
    rw [(ho.keyed t tx htx).1] at htransactions hlocks
    exact .done htx hnext htransactions hlocks

theorem closes_abort (ho : e.Orderly) (t : TransactionId) : Closes t e (e.abort t) := by
  rcases abort_cases e t with ⟨hclosed, hrun⟩ | ⟨tx, htx, -, hrun⟩ <;> rw [hrun]
  · exact .idle hclosed
  · obtain ⟨-, -, htransactions, hnext⟩ := abortWith_fields e tx
    have hlocks : (e.abortWith tx).locks = e.locks.release tx.id tx.held := locks_abortWith
    rw [(ho.keyed t tx htx).1] at htransactions hlocks
    exact .done htx hnext htransactions hlocks

theorem Accords.owner?_closes (h : e.Accords history) (hcloses : Closes t e e')
    (x : StatementId) : e'.locks.owner? x =
      if e.locks.owner? x = some t then none else e.locks.owner? x := by
  cases hcloses with
  | idle hclosed =>
    rw [if_neg]
    intro howner
    cases hclosed.symm.trans ((h.owned x t).1 howner).1
  | done htx _ _ hlocks =>
    rw [hlocks, owner?_release]
    by_cases howner : e.locks.owner? x = some t
    · obtain ⟨tx', htx', hx⟩ := h.held x t howner
      cases htx.symm.trans htx'
      rw [if_pos howner, if_pos ⟨hx, howner⟩]
    · rw [if_neg howner, if_neg fun hboth => howner hboth.2]

theorem Accords.closes (h : e.Accords history) (hcloses : Closes t e e') : e'.Accords history := by
  have howner := h.owner?_closes hcloses
  cases hcloses with
  | idle => exact h
  | done htx hnext htransactions _ =>
    have hget (t' : TransactionId) (ht : t' ≠ t) :
        e'.transactions.get? t' = e.transactions.get? t' := by
      rw [htransactions, get?_onTransaction, if_neg ht]
    have hclosed : e'.isOpen t = false := by
      rw [isOpen, htransactions, get?_onTransaction, if_pos rfl, htx]
      rfl
    refine ⟨fun x t' => ?_, fun x t' hx => ?_, fun t' x hx => hnext ▸ h.begun t' x hx⟩
    · rw [howner]
      by_cases ht : t' = t
      · subst ht
        rw [hclosed]
        split <;> simp_all
      · rw [isOpen, hget t' ht, ← isOpen, ← h.owned]
        split
        case isTrue hown =>
          rw [hown]
          simp [Ne.symm ht]
        case isFalse => rfl
    · rw [howner] at hx
      split at hx
      case isTrue => cases hx
      case isFalse hne =>
        obtain ⟨tx', htx', hheld⟩ := h.held x t' hx
        have ht : t' ≠ t := fun heq => hne (heq ▸ hx)
        exact ⟨tx', (hget t' ht).trans htx', hheld⟩

/-- A transaction that begins has got no locks yet, since its id is new. -/
theorem Accords.begins (h : e.Accords history) (timeout : Option Nat) :
    (e.begin timeout).2.Accords history := by
  have hget (t : TransactionId) (ht : t ≠ ⟨e.nextTransaction⟩) :
      (e.begin timeout).2.transactions.get? t = e.transactions.get? t :=
    get?_begin.trans (if_neg ht)
  have hold (t : TransactionId) (x : StatementId) (hx : (t, x) ∈ history) :
      t ≠ ⟨e.nextTransaction⟩ := by
    intro heq
    have hlt := h.begun t x hx
    rw [heq] at hlt
    exact Nat.lt_irrefl _ hlt
  refine ⟨fun x t => ?_, fun x t hx => ?_, fun t x hx => Nat.lt_succ_of_lt (h.begun t x hx)⟩
  · change e.locks.owner? x = some t ↔ _
    rw [h.owned]
    apply and_congr_left
    intro hx
    rw [isOpen, isOpen, hget t (hold t x hx)]
  · obtain ⟨tx, htx, hheld⟩ := h.held x t hx
    have hne := hold t x ((h.owned x t).1 hx).2
    exact ⟨tx, (hget t hne).trans htx, hheld⟩

/-- Every operation enters the locks it gets into the history. -/
theorem Accords.run (h : e.Accords history) (ho : e.Orderly) (op : Op) :
    (op.run e).2.Accords (history ++ op.obtained e) := by
  cases hclient : op.client? with
  | some t => exact h.work ho hclient
  | none =>
    rw [obtained, hclient, List.append_nil]
    cases op with
    | begin timeout => exact h.begins timeout
    | commit t => exact h.closes (closes_commit ho t)
    | abort t => exact h.closes (closes_abort ho t)
    | listen | unlisten | takeNotices | close => exact { h with }
    | popUndo =>
      rw [Op.run, Engine.popUndo]
      split
      · exact { h with }
      · exact h
    | _ => cases hclient

theorem Accords.runAll (h : e.Accords history) (ho : e.Orderly) (ops : List Op) :
    (Op.runAll e ops).Accords (history ++ Op.history e ops) := by
  induction ops generalizing e history with
  | nil =>
    rw [Op.history, List.append_nil]
    exact h
  | cons op rest ih =>
    rw [Op.history, ← List.append_assoc]
    exact ih (h.run ho op) (ho.run op)

end Engine

open Engine

/-- A statement is locked for a transaction exactly if that is open and has got the lock. -/
theorem Op.owner?_iff_history {config : Config} {start : Engine}
    (h : create config .absent = .ok start) (ops : List Op) :
    let e := runAll start ops
    (∀ x t, e.locks.owner? x = some t ↔ e.isOpen t = true ∧ (t, x) ∈ history start ops) ∧
      (∀ x t t', e.isOpen t = true → e.isOpen t' = true → (t, x) ∈ history start ops →
        (t', x) ∈ history start ops → t = t') ∧
      (∀ x t, (∃ e', (Engine.lock t x).perform e = (.ok (), e')) ↔
        e.isOpen t = true ∧ ∀ t', e.locks.owner? x = some t' → t' = t) ∧
      (∀ x t failure e', (Engine.lock t x).perform e = (.error failure, e') → e' = e) ∧
      ∀ t (op : Op), op = .commit t ∨ op = .abort t → ∀ x, (op.run e).2.locks.owner? x =
        if e.locks.owner? x = some t then none else e.locks.owner? x := by
  have haccords : (runAll start ops).Accords (history start ops) :=
    (accords_create h).runAll (orderly_create h) ops
  have ho := (orderly_create h).runAll ops
  refine ⟨haccords.owned, fun x t t' ht ht' hx hx' => ?_, fun _ _ => lock_ok_iff,
    fun _ _ _ _ => lock_refused, fun t op hop x => ?_⟩
  · have howner := (haccords.owned x t).2 ⟨ht, hx⟩
    have howner' := (haccords.owned x t').2 ⟨ht', hx'⟩
    exact Option.some.inj (howner.symm.trans howner')
  · rcases hop with rfl | rfl
    · exact haccords.owner?_closes (closes_commit ho t) x
    · exact haccords.owner?_closes (closes_abort ho t) x

/-- Two transactions ask for one root, and the first gets only part of what it has to lock. -/
def halfLocked : List Op :=
  [.begin none, .createRoot ⟨1⟩ (.function ⟨0⟩ (.atom "A") (.atom "B")), .begin none,
    .lock ⟨2⟩ (.after 1), .removeRoot ⟨1⟩ (.after 0), .lock ⟨2⟩ (.after 0)]

theorem halfLocked_owners :
    Op.history (inMemory {}) halfLocked = [(⟨2⟩, .after 1), (⟨1⟩, .after 0)] ∧
      (Op.runAll (inMemory {}) halfLocked).locks.owner? (.after 0) = some ⟨1⟩ ∧
      (Op.runAll (inMemory {}) halfLocked).locks.owner? (.after 1) = some ⟨2⟩ ∧
      (Op.run (Op.runAll (inMemory {}) halfLocked) (.abort ⟨2⟩)).2.locks.owner? (.after 0) =
        some ⟨1⟩ := by
  have hhistory : Op.history (inMemory {}) halfLocked = [(⟨2⟩, .after 1), (⟨1⟩, .after 0)] := by
    decide +kernel
  obtain ⟨howned, -, -, -, hcloses⟩ :=
    @Op.owner?_iff_history {} (inMemory {}) rfl halfLocked
  have hroot : (Op.runAll (inMemory {}) halfLocked).locks.owner? (.after 0) = some ⟨1⟩ := by
    rw [howned, hhistory]
    decide +kernel
  refine ⟨hhistory, hroot, ?_, ?_⟩
  · rw [howned, hhistory]
    decide +kernel
  · rw [hcloses ⟨2⟩ _ (Or.inr rfl), hroot]
    decide

end StatementGraph
