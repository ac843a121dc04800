import StatementGraph.Proofs.Changes

namespace StatementGraph

namespace Engine

open Store

variable {t : TransactionId} {e e' e'' : Engine} {x : StatementId} {st : Statement} {α β : Type}

theorem changes_foldl {f : Engine → α → Engine} {l : List α}
    (hf : ∀ e, ∀ a ∈ l, Changes t e (f e a)) : Changes t e (l.foldl f e) := by
  induction l generalizing e with
  | nil => exact .refl t e
  | cons a rest ih =>
    exact (hf e a List.mem_cons_self).trans (ih fun e b hb => hf e b (List.mem_cons_of_mem _ hb))

theorem changes_notify {event : Event} : Changes t e (e.notify t event) := by
  rw [notify]
  apply changes_foldl
  intro e listener _
  have hreport := (Change.report (t := t) (e := e) (.event listener.label event)).changes
  rw [hear]
  split
  · exact hreport.trans (Change.hook _).changes
  · exact hreport

theorem changes_step {mode : PropagationMode} (run : Propagation) :
    Changes t run.engine (run.step mode t).engine := by
  rw [Propagation.step]
  split
  · exact .refl t _
  · split
    · exact .refl t _
    · dsimp only
      split
      · exact .refl t _
      · have hflag := fun x proved => (Change.flag (t := t) (e := run.engine) x proved).changes
        dsimp only
        split
        · exact (hflag _ _).trans changes_notify
        · exact hflag _ _

theorem changes_propagation {mode : PropagationMode} {seeds : List StatementId} :
    Changes t e (e.propagation mode t seeds).engine :=
  Propagation.drain_keeps (I := fun run => Changes t e run.engine) (.refl t e)
    (fun run _ _ h _ => h.trans (changes_step run)) _

theorem changes_rederive {seeds : List StatementId} : Changes t e (e.rederive t seeds).2 := by
  have hclear (e : Engine) (x : StatementId) : Changes t e (clearFlag t e x) := by
    rw [clearFlag]
    split
    · exact (Change.flag x false).changes
    · exact .refl t e
  have hannounce (before : Store) (e : Engine) (x : StatementId) :
      Changes t e (announceChange t before e x) := by
    rw [announceChange]
    split
    · split
      · exact .refl t e
      · exact changes_notify
    · exact .refl t e
  have hcleared : Changes t e ((e.store.region seeds).toList.foldl (clearFlag t) e) :=
    changes_foldl fun e x _ => hclear e x
  exact (hcleared.trans changes_propagation).trans (changes_foldl fun e x _ => hannounce _ e x)

theorem changes_addRecord (hapart : st.Apart) (h : st.identifier = none) :
    Changes t e (addRecord t e st) := by
  have hput : Change t e (e.put t st) := by
    apply Change.write st hapart
    intro name y hname
    cases h.symm.trans hname
  exact hput.changes.trans changes_notify

theorem changes_enter (hapart : st.Apart) (h : st.identifier = none) :
    Changes t e (e.enter t st).engine :=
  (changes_addRecord hapart h).trans changes_propagation

theorem changes_enterContext {assumptions : List Statement}
    (hapart : ∀ st' ∈ st :: assumptions, st'.Apart)
    (h : ∀ st' ∈ st :: assumptions, st'.identifier = none) :
    Changes t e (e.enterContext t st assumptions).engine := by
  have hadded : Changes t e ((st :: assumptions).foldl (addRecord t) e) :=
    changes_foldl fun e st' hst' => changes_addRecord (hapart st' hst') (h st' hst')
  exact (hadded.trans changes_propagation).trans changes_propagation

/-! ### Removals -/

open Removal

theorem changes_erase : Changes t e (Removal.erase t e x).2 := by
  have hremove := (Change.erase (t := t) (e := e) x).changes
  rw [Removal.erase]
  split
  case h_1 => exact hremove
  case h_2 st hx =>
    dsimp only
    have hauthority : Changes t (e.remove t x) ((e.remove t x).setAuthority t x none) := by
      apply Change.changes
      apply Change.authority
      intro b hb
      cases hb
    refine (hremove.trans hauthority).trans (Changes.trans ?_ (Change.hook _).changes)
    split
    · exact changes_notify.trans changes_notify
    · exact changes_notify

theorem changes_eraseAssumptions (l : List StatementId) :
    Changes t e (eraseAssumptions t l e).2 := by
  induction l generalizing e with
  | nil => exact .refl t e
  | cons x rest ih =>
    rw [eraseAssumptions]
    exact changes_erase.trans ih

end Engine

namespace Removal

def Runs (t : TransactionId) : Removal → Removal → Prop :=
  Relation.ReflTransGen fun r r' => ∃ x, r' = r.removeOne t x

variable {t : TransactionId}

theorem runs_removeTree (r : Removal) (top : StatementId) : Runs t r (r.removeTree t top) := by
  rw [removeTree]
  generalize r.engine.store.removalOrder top = l
  induction l generalizing r with
  | nil => exact .refl
  | cons x rest ih => exact .head ⟨x, rfl⟩ (ih _)

theorem runs_removeTrees (r : Removal) (tops : List StatementId) :
    Runs t r (tops.foldl (removeTree t) r) := by
  induction tops generalizing r with
  | nil => exact .refl
  | cons top rest ih => exact (runs_removeTree r top).trans (ih _)

theorem runs_cascade (steps : Nat) (visited stack : List StatementId) (r : Removal) :
    Runs t r (cascade t steps visited stack r) := by
  induction steps generalizing visited stack r with
  | zero => exact .refl
  | succ steps ih =>
    cases stack with
    | nil => exact .refl
    | cons top stack =>
      rw [cascade]
      split
      · split
        · exact ih _ _ r
        · exact (runs_removeTree r top).trans (ih _ _ _)
      · exact ih _ _ r

end Removal

namespace Engine

open Store Removal

variable {t : TransactionId} {e e' e'' : Engine} {x : StatementId} {st : Statement} {α β : Type}

/-- Work on a removal makes changes, and what it keeps for the undo log is in order. -/
def Pursues (t : TransactionId) (r r' : Removal) : Prop :=
  r.engine.Orderly → (∀ d ∈ r.batch, d.statement.Apart) →
    Changes t r.engine r'.engine ∧ ∀ d ∈ r'.batch, d.statement.Apart

theorem Pursues.trans {r r' r'' : Removal} (h : Pursues t r r') (h' : Pursues t r' r'') :
    Pursues t r r'' := by
  intro ho hbatch
  obtain ⟨hchanges, hbatch'⟩ := h ho hbatch
  obtain ⟨hchanges', hbatch''⟩ := h' (ho.changes hchanges) hbatch'
  exact ⟨hchanges.trans hchanges', hbatch''⟩

theorem pursues_removeOne (r : Removal) : Pursues t r (r.removeOne t x) := by
  intro ho hbatch
  rw [removeOne]
  split
  · exact ⟨.refl t _, hbatch⟩
  · rename_i st hst
    have hgone := (changes_eraseAssumptions (t := t) (e := r.engine) st.assumptions).trans
      (changes_erase (x := x))
    dsimp only
    split
    · refine ⟨hgone, fun d hd => ?_⟩
      rcases List.mem_append.1 hd with hold | hnew
      · exact hbatch d hold
      · cases List.mem_singleton.1 hnew
        exact ho.apart x st hst
    · exact ⟨hgone, hbatch⟩

theorem pursues_of_runs {r r' : Removal} (h : Runs t r r') : Pursues t r r' := by
  induction h with
  | refl => exact fun _ hbatch => ⟨.refl t r.engine, hbatch⟩
  | tail _ hstep ih =>
    obtain ⟨x, rfl⟩ := hstep
    exact ih.trans (pursues_removeOne _)

theorem pursues_recheck (r : Removal) : Pursues t r (r.recheck t) := by
  intro _ hbatch
  rw [recheck]
  split
  · exact ⟨.refl t _, hbatch⟩
  · exact ⟨changes_rederive, hbatch⟩

/-! ### Actions -/

/-- In an engine that is in order, an action makes changes in a transaction and nothing else. -/
def Moves (t : TransactionId) (e : Engine) (m : Action α) : Prop :=
  e.Orderly → Changes t e (m.perform e).2

section Rules

variable {m : Action α} {k : α → Action β}

theorem moves_pure {a : α} : Moves t e (pure a : Action α) := fun _ => Changes.refl t e

theorem moves_throw {f : Failure} : Moves t e (throw f : Action α) := fun _ => Changes.refl t e

theorem moves_bind (h : Moves t e m) (hk : ∀ a e', m.perform e = (.ok a, e') → Moves t e' (k a)) :
    Moves t e (m >>= k) := by
  intro ho
  rw [perform_bind]
  cases hm : m.perform e with
  | mk r e' =>
    have hfirst : Changes t e e' := by
      have hmoves := h ho
      rw [hm] at hmoves
      exact hmoves
    cases r with
    | error f => exact hfirst
    | ok a => exact hfirst.trans (hk a e' hm (ho.changes hfirst))

theorem moves_get_bind {k : Engine → Action β} (h : Moves t e (k e)) : Moves t e (get >>= k) := h

theorem moves_of_orderly (h : e.Orderly → Moves t e m) : Moves t e m := fun ho => h ho ho

theorem moves_set (h : Changes t e e') : Moves t e (set e' : Action Unit) := fun _ => h

theorem moves_set_bind {k : Unit → Action β} (h : Changes t e e') (hk : Moves t e' (k ())) :
    Moves t e (set e' >>= k) := fun ho => Changes.trans h (hk (ho.changes h))

theorem moves_modify {f : Engine → Engine} (h : Changes t e (f e)) :
    Moves t e (modify f : Action Unit) := fun _ => h

theorem moves_await {run : Propagation} (h : Changes t e run.engine) : Moves t e (await run) := by
  intro _
  rcases await_cases run e with hrun | hrun <;> rw [hrun]
  · exact h
  · exact .refl t e

theorem moves_lift_bind {y : Except Failure α} (hk : ∀ a, y = .ok a → Moves t e (k a)) :
    Moves t e (liftM y >>= k) := by
  cases y with
  | error f => exact moves_throw
  | ok a => exact hk a rfl

theorem moves_forM {l : List α} {f : α → Action Unit} (hf : ∀ a ∈ l, ∀ e, Moves t e (f a)) :
    Moves t e (l.forM f) := by
  induction l generalizing e with
  | nil => exact moves_pure
  | cons a rest ih =>
    exact moves_bind (hf a List.mem_cons_self e) fun _ e' _ =>
      ih fun b hb => hf b (List.mem_cons_of_mem _ hb)

theorem moves_ensureOpen : Moves t e (ensureOpen t) := by
  apply moves_get_bind
  split
  · exact moves_pure
  · exact moves_throw

theorem moves_ensureOpen_bind {k : Unit → Action β} (h : e.isOpen t = true → Moves t e (k ())) :
    Moves t e (ensureOpen t >>= k) := by
  cases hopen : e.isOpen t with
  | false =>
    intro _
    rw [perform_closed hopen]
    exact .refl t e
  | true =>
    rw [Moves, perform_bind, perform_ensureOpen hopen]
    exact h hopen

end Rules

theorem moves_allocate : Moves t e allocate := by
  apply moves_get_bind
  have hcounter (s : Store) (hs : ∃ a, s = { e.store with allocator := a }) :
      Changes t e { e with store := s } := by
    obtain ⟨a, rfl⟩ := hs
    exact (Change.counter a).changes
  rw [Store.allocate]
  dsimp only
  split
  · exact moves_set_bind (hcounter _ ⟨_, rfl⟩) moves_pure
  · exact moves_set_bind (hcounter _ ⟨_, rfl⟩) moves_throw

theorem moves_allocateMany (n : Nat) : Moves t e (allocateMany n) := by
  induction n generalizing e with
  | zero => exact moves_pure
  | succ n ih =>
    exact moves_bind moves_allocate fun _ _ _ => moves_bind ih fun _ _ _ => moves_pure

theorem allocate_past (h : allocate.perform e = (.ok x, e')) :
    (∀ y, e.store.allocator.Past y → y < x) ∧ e'.store.allocator.Past x := by
  obtain ⟨b, htake, rfl⟩ := allocate_performs.1 h
  obtain ⟨hpast, hx⟩ := Allocator.take_some htake
  exact ⟨fun y hy => (hpast y hy).1, hx⟩

theorem allocateMany_past {n : Nat} {ids : List StatementId}
    (h : (allocateMany n).perform e = (.ok ids, e')) {y : StatementId}
    (hy : e.store.allocator.Past y) : ∀ z ∈ ids, y < z := by
  induction n generalizing e ids y with
  | zero =>
    cases h
    nofun
  | succ n ih =>
    obtain ⟨x, e₁, hfirst, h⟩ := bind_performs.1 h
    obtain ⟨rest, e₂, hrest, h⟩ := bind_performs.1 h
    cases h
    obtain ⟨hbefore, hpast⟩ := allocate_past hfirst
    intro z hz
    rcases List.mem_cons.1 hz with rfl | hz
    · exact hbefore y hy
    · exact Nat.lt_trans (hbefore y hy) (ih hrest hpast z hz)

theorem moves_lock : Moves t e (lock t x) := by
  apply moves_ensureOpen_bind
  intro hopen
  apply moves_get_bind
  cases hlocks : e.locks.acquire x t with
  | error error => exact moves_throw
  | ok locks => exact moves_set (Change.lock x hopen hlocks).changes

theorem store_lock {u : Unit} (h : (lock t x).perform e = (.ok u, e')) : e'.store = e.store := by
  cases hopen : e.isOpen t with
  | false =>
    rw [lock, perform_closed hopen] at h
    cases h
  | true =>
    rw [lock, perform_bind, perform_ensureOpen hopen] at h
    dsimp only at h
    rw [perform_get_bind] at h
    cases hlocks : e.locks.acquire x t with
    | error error =>
      rw [hlocks] at h
      cases h
    | ok locks =>
      rw [hlocks] at h
      cases h
      exact store_onTransaction

theorem store_lockAll {ids : IdSet} {u : Unit} (h : (lockAll t ids).perform e = (.ok u, e')) :
    e'.store = e.store := by
  rw [lockAll] at h
  generalize ids.toList = l at h
  induction l generalizing e with
  | nil =>
    cases h
    rfl
  | cons x rest ih =>
    obtain ⟨u', e₁, hlock, h⟩ := bind_performs.1 h
    exact (ih h).trans (store_lock hlock)

theorem get?_lock {u : Unit} (hrequire : e.store.require x = .ok st)
    (h : (lock t x).perform e = (.ok u, e')) : e'.store.get? x = some st := by
  rw [store_lock h]
  exact require_eq_ok.1 hrequire

theorem moves_lockAll {ids : IdSet} : Moves t e (lockAll t ids) :=
  moves_forM fun _ _ _ => moves_lock

theorem specializationRecord_fields {s : Store} {context general id : StatementId}
    {argument : Term} (h : s.specializationRecord context general argument id = .ok st) :
    st.id = id ∧ st.identifier = none ∧ st.kind = .specialization general argument ∧
      st.owner = some context ∧ st.proved = false := by
  obtain ⟨-, -, g, term, -, -, rfl⟩ := specializationRecord_eq_ok_visible.1 h
  exact ⟨rfl, rfl, rfl, rfl, rfl⟩

theorem moves_insertDeclaration {context id : StatementId} {value : Term} :
    Moves t e (insertDeclaration t context value id) :=
  moves_get_bind <| moves_lift_bind fun _ hst => by
    obtain ⟨-, term, -, rfl⟩ := declarationRecord_eq_ok.1 hst
    exact moves_get_bind (moves_await (changes_enter List.not_mem_nil rfl))

theorem moves_insertSpecialization {context general id : StatementId} {argument : Term} :
    Moves t e (insertSpecialization t context general argument id) :=
  moves_get_bind <| moves_lift_bind fun _ hst => by
    obtain ⟨-, hname, hkind, -⟩ := specializationRecord_fields hst
    refine moves_get_bind (moves_await (changes_enter (fun hself => ?_) hname))
    obtain ⟨data, hdata, -⟩ := Statement.mem_assumptions.1 hself
    cases hkind.symm.trans hdata

theorem mem_peel {ids : List StatementId} {term : Term} {entry : StatementId × Term}
    (h : entry ∈ (term.peel ids).1) : entry.1 ∈ ids := by
  induction ids generalizing term with
  | nil =>
    rw [Term.peel.eq_def] at h
    cases h
  | cons id ids ih =>
    cases term with
    | function p domain body =>
      rw [Term.peel] at h
      rcases List.mem_cons.1 h with rfl | h
      · exact List.mem_cons_self
      · exact List.mem_cons_of_mem _ (ih h)
    | _ =>
      rw [Term.peel.eq_def] at h
      cases h

theorem contextRecords_apart {owner : Option StatementId} {term inner : Term} {kind : ContextKind}
    {id : StatementId} {dependencies : IdSet} {ids : List StatementId} (h : id ∉ ids) :
    ∀ st ∈ (contextRecords owner term kind id dependencies inner ids).1 ::
      (contextRecords owner term kind id dependencies inner ids).2, st.Apart := by
  intro st hst
  rcases List.mem_cons.1 hst with rfl | hst
  · intro hself
    obtain ⟨entry, hentry, hid⟩ := List.mem_map.1 hself
    have hmem := mem_peel hentry
    rw [hid] at hmem
    exact h hmem
  · obtain ⟨entry, -, rfl⟩ := List.mem_map.1 hst
    exact List.not_mem_nil

theorem moves_insertContext {owner : Option StatementId} {term : Term} {kind : ContextKind}
    {id : StatementId} {given : Option (List StatementId)}
    (hgiven : ∀ ids, given = some ids → id ∉ ids)
    (hpast : given = none → e.store.allocator.Past id) :
    Moves t e (insertContext t owner term kind id given) := by
  apply moves_get_bind
  apply moves_lift_bind
  intro opened _
  have hids : Moves t e (assumptionIds id opened.2.unproject.arity given) := by
    cases given with
    | none => exact moves_allocateMany _
    | some ids =>
      rw [assumptionIds]
      split
      · exact moves_throw
      · exact moves_pure
  apply moves_bind hids
  intro ids e' hrun
  have hother : id ∉ ids := by
    cases given with
    | none =>
      intro hself
      exact Nat.lt_irrefl _ (allocateMany_past hrun (hpast rfl) id hself)
    | some given =>
      rw [assumptionIds] at hrun
      split at hrun
      · cases hrun
      · cases hrun
        exact hgiven _ rfl
  exact moves_get_bind (moves_await (changes_enterContext (contextRecords_apart hother)
    (Graph.contextRecords_unnamed rfl)))

theorem moves_newContext {owner : Option StatementId} {term : Term} {kind : ContextKind} :
    Moves t e (do
      let id ← allocate
      insertContext t owner term kind id none
      return id) :=
  moves_bind moves_allocate fun _ _ hrun =>
    moves_bind (moves_insertContext nofun fun _ => (allocate_past hrun).2) fun _ _ _ => moves_pure

theorem moves_createRoot {term : Term} : Moves t e (createRoot t term) :=
  moves_ensureOpen_bind fun _ => moves_get_bind <| moves_lift_bind fun _ _ => moves_newContext

theorem moves_declare {context : StatementId} {value : Term} :
    Moves t e (declare t context value) :=
  moves_ensureOpen_bind fun _ => moves_get_bind <| moves_lift_bind fun _ _ =>
    moves_bind moves_allocate fun _ _ _ =>
      moves_bind moves_insertDeclaration fun _ _ _ => moves_pure

theorem moves_specialize {context general : StatementId} {argument : Term} :
    Moves t e (specialize t context general argument) :=
  moves_ensureOpen_bind fun _ => moves_get_bind <| moves_lift_bind fun _ _ =>
    moves_bind moves_allocate fun _ _ _ =>
      moves_bind moves_insertSpecialization fun _ _ _ => moves_pure

theorem moves_openContext {context : StatementId} {term : Term} {kind : ContextKind} :
    Moves t e (openContext t context term kind) :=
  moves_ensureOpen_bind fun _ => moves_get_bind <| moves_lift_bind fun _ _ => moves_get_bind <|
    moves_lift_bind fun _ _ => moves_newContext

theorem moves_carryOut {work : Removal → Removal} (h : ∀ r : Removal, Pursues t r (work r)) :
    Moves t e (carryOut t work) := by
  apply moves_of_orderly
  intro ho
  apply moves_get_bind
  obtain ⟨hchanges, hbatch⟩ := h { engine := e } ho fun d hd => absurd hd List.not_mem_nil
  exact moves_set_bind (hchanges.trans (Change.record _ hbatch).changes) moves_pure

theorem moves_removeStatements {context : StatementId} {ids : List StatementId} :
    Moves t e (removeStatements t context ids) := by
  apply moves_ensureOpen_bind
  intro _
  apply moves_get_bind
  apply moves_lift_bind
  intro _ _
  apply moves_lift_bind
  intro removal _
  dsimp only
  split
  · exact moves_throw
  · refine moves_bind moves_lockAll fun _ _ _ => moves_carryOut fun r => ?_
    exact (pursues_of_runs (runs_removeTrees r _)).trans (pursues_recheck _)

theorem moves_removeRoot {root : StatementId} : Moves t e (removeRoot t root) := by
  apply moves_ensureOpen_bind
  intro _
  apply moves_get_bind
  apply moves_lift_bind
  intro st _
  dsimp only
  split
  · exact moves_throw
  · split
    · exact moves_throw
    · exact moves_bind moves_lockAll fun _ _ _ =>
        moves_carryOut fun r => pursues_of_runs (runs_removeTree r root)

theorem moves_removeCascade {context id : StatementId} :
    Moves t e (removeCascade t context id) := by
  apply moves_ensureOpen_bind
  intro _
  apply moves_get_bind
  apply moves_lift_bind
  intro _ _
  apply moves_lift_bind
  intro st _
  dsimp only
  split
  · exact moves_throw
  · refine moves_bind moves_lockAll fun _ _ _ => moves_carryOut fun r => ?_
    exact (pursues_of_runs (runs_cascade _ _ _ r)).trans (pursues_recheck _)

theorem moves_rebuild {id : StatementId} : Moves t e (rebuild t id) :=
  moves_ensureOpen_bind fun _ => moves_get_bind <| moves_lift_bind fun _ _ => moves_get_bind <|
    moves_set_bind changes_rederive moves_pure

/-! ### Names and authorities -/

/-- Giving a signature up leaves the records of statements and their indexes alone. -/
theorem guardSigned_fields (e : Engine) (x : StatementId) (force : Bool) :
    ((guardSigned t x force).perform e).2.store.statements = e.store.statements ∧
      ((guardSigned t x force).perform e).2.store.index = e.store.index := by
  rw [guardSigned, perform_get_bind]
  split
  · split
    · split
      · have hstore (a : Authority) : ((set (e.setAuthority t x (some a)) : Action Unit).perform
            e).2.store = e.store.setAuthority x (some a) := store_setAuthority
        rw [hstore]
        exact ⟨rfl, rfl⟩
      · exact ⟨rfl, rfl⟩
    · exact ⟨rfl, rfl⟩
  · exact ⟨rfl, rfl⟩

theorem moves_guardSigned {force : Bool} : Moves t e (guardSigned t x force) := by
  apply moves_of_orderly
  intro ho
  apply moves_get_bind
  split
  case h_1 a ha =>
    split
    · split
      · apply moves_set
        apply Change.changes
        apply Change.authority
        intro b hb
        cases hb
        exact ho.authority x a ha
      · exact moves_throw
    · exact moves_pure
  case h_2 => exact moves_pure

theorem moves_identify {name : Identifier} {force : Bool} :
    Moves t e (identify t x name force) := by
  apply moves_ensureOpen_bind
  intro _
  apply moves_get_bind
  apply moves_lift_bind
  intro st hrequire
  apply moves_bind moves_lock
  intro _ e₁ hlock
  apply moves_of_orderly
  intro ho
  have hst := get?_lock hrequire hlock
  -- the record is written where the look-up found the name free, or its own
  have hrename (hfree : ∀ y, e₁.store.lookupName st.owner name = some y → y = x) :
      Moves t e₁ (do
        guardSigned t x force
        modify fun e => e.put t { st with identifier := some name }) := by
    obtain ⟨hstatements, hindex⟩ := guardSigned_fields (t := t) e₁ x force
    apply moves_bind moves_guardSigned
    intro _ e₂ hguard
    rw [hguard] at hstatements hindex
    apply moves_modify
    apply Change.changes
    apply Change.write { st with identifier := some name } (ho.apart x st hst)
    intro name' y hname' hy
    cases hname'
    have hfound : e₁.store.lookupName st.owner name = some y := by
      rw [Store.lookupName, ← hindex]
      exact hy
    exact (hfree y hfound).trans (ho.filed.indexed.keyed x st hst).symm
  split
  · exact moves_pure
  · apply moves_get_bind
    dsimp only
    split
    case h_1 existing hexisting =>
      split
      · exact moves_throw
      · rename_i hsame
        apply hrename
        intro y hy
        cases hexisting.symm.trans hy
        exact not_not.1 hsame
    case h_2 hnone =>
      apply hrename
      intro y hy
      cases hnone.symm.trans hy

theorem moves_unidentify {force : Bool} : Moves t e (unidentify t x force) := by
  apply moves_of_orderly
  intro ho
  apply moves_ensureOpen_bind
  intro _
  apply moves_get_bind
  apply moves_lift_bind
  intro st hrequire
  apply moves_bind moves_lock
  intro _ e₁ _
  split
  · exact moves_throw
  · apply moves_bind moves_guardSigned
    intro _ e₂ _
    refine moves_bind (moves_modify (Change.changes ?_)) fun _ _ _ => moves_pure
    apply Change.write { st with identifier := none } (ho.apart x st (require_eq_ok.1 hrequire))
    intro name y hname
    cases hname

theorem moves_createAuthority {author : String} : Moves t e (createAuthority t x author) := by
  apply moves_ensureOpen_bind
  intro _
  apply moves_get_bind
  apply moves_lift_bind
  intro _ _
  apply moves_bind moves_lock
  intro _ e₁ _
  apply moves_get_bind
  dsimp only
  split
  · exact moves_throw
  · refine moves_bind (moves_modify (Changes.trans (Change.changes ?_) changes_notify))
      fun _ _ _ => moves_pure
    apply Change.authority
    intro b hb
    cases hb
    rfl

theorem moves_signAuthority : Moves t e (signAuthority t x) := by
  apply moves_ensureOpen_bind
  intro _
  apply moves_bind moves_lock
  intro _ e₁ _
  apply moves_of_orderly
  intro ho
  rw [Moves, perform_bind, requireAuthority, perform_get_bind]
  cases ha : e₁.store.authority? x with
  | none => exact moves_throw
  | some a =>
    refine moves_bind (moves_modify (Change.changes ?_)) fun _ _ _ => moves_pure
    apply Change.authority
    intro b hb
    cases hb
    exact ho.authority x a ha

theorem moves_deleteAuthority : Moves t e (deleteAuthority t x) := by
  apply moves_ensureOpen_bind
  intro _
  apply moves_bind moves_lock
  intro _ e₁ _
  apply moves_get_bind
  have hnone : Change t e₁ (e₁.setAuthority t x none) := by
    apply Change.authority
    intro b hb
    cases hb
  apply moves_bind (moves_modify hnone.changes)
  intro _ e₂ _
  split
  · exact moves_bind (moves_modify changes_notify) fun _ _ _ => moves_pure
  · exact moves_throw

theorem moves_propagate {seeds : List StatementId} {solved : Bool} :
    Moves t e (propagate t seeds solved) :=
  moves_get_bind <| moves_bind (moves_await changes_propagation) fun _ _ _ => moves_pure

/-! ### Restoring -/

theorem moves_reserve : Moves t e (reserve x) := by
  intro _
  rcases reserve_cases x e with hrun | ⟨a, -, hrun⟩ <;> rw [hrun]
  · exact .refl t e
  · exact (Change.counter a).changes

/-- Checking that the owner is a context either fails or goes on. -/
theorem guard_cases {P : Action Unit → Prop} {owner : Option StatementId} {s : Store}
    {m : Action Unit} (f : StatementId → Failure) (hthrow : ∀ f, P (throw f)) :
    (s.graph.Hosts owner → P m) → P (match owner with
      | some o =>
        if !(s.get? o).any Statement.isContext then (throw (f o) : Action PUnit) >>= fun _ => m
        else m
      | none => m) := by
  intro h
  cases owner with
  | none => exact h Graph.hosts_none
  | some o =>
    dsimp only
    split
    case isTrue => exact hthrow (f o)
    case isFalse hcontext =>
      rw [Bool.not_eq_true, Bool.not_eq_false', Option.any_eq_true] at hcontext
      obtain ⟨st, hst, hcontext⟩ := hcontext
      obtain ⟨data, hdata⟩ := Statement.isContext_iff.1 hcontext
      exact h (Graph.IsContext.hosts ⟨st.content, data, graph_of_get? hst, hdata⟩)

theorem moves_rebuildDeleted (hapart : st.Apart) : Moves t e (rebuildDeleted t st) := by
  apply moves_get_bind
  dsimp only
  refine guard_cases (P := Moves t e) _ (fun _ => moves_throw) fun _ => ?_
  apply moves_bind moves_reserve
  intro _ e' _
  split
  · exact moves_insertDeclaration
  · exact moves_insertSpecialization
  case h_3 data owner hkind =>
    refine moves_lift_bind fun _ _ => moves_bind (moves_forM fun _ _ _ => moves_reserve)
      fun _ _ _ => moves_insertContext (fun ids hids => ?_) fun hids => by cases hids
    cases hids
    rw [Statement.Apart, Statement.assumptions, Statement.contextData?, hkind] at hapart
    exact hapart
  · exact moves_throw

theorem changes_restoreName {name : Identifier} (ho : e.Orderly) :
    Changes t e (e.restoreName t x name).2 := by
  rw [restoreName]
  split
  · exact .refl t e
  · rename_i st hst
    split
    · exact .refl t e
    · rename_i hfree
      apply Change.changes
      apply Change.write { st with identifier := some name } (ho.apart x st hst)
      intro name' y hname' hy
      cases hname'
      exact absurd (hy ▸ rfl) hfree

theorem changes_rebuildAll (l : DeletionBatch) (hl : ∀ d ∈ l, d.statement.Apart)
    (state : RestoreReport × Engine) (ho : state.2.Orderly) :
    Changes t state.2 (l.foldl (rebuildNext t) state).2 := by
  induction l generalizing state with
  | nil => exact .refl t _
  | cons d rest ih =>
    obtain ⟨hd, hrest⟩ := List.forall_mem_cons.1 hl
    have hstep : Changes t state.2 (rebuildNext t state d).2 := by
      have hmoves := moves_rebuildDeleted (t := t) hd ho
      rw [rebuildNext]
      cases hrun : (rebuildDeleted t d.statement).perform state.2 with
      | mk r e' =>
        rw [hrun] at hmoves
        cases r with
        | error f => exact hmoves
        | ok u => exact hmoves
    exact hstep.trans (ih hrest (rebuildNext t state d) (ho.changes hstep))

theorem changes_restoreNames (l : List Statement) (state : RestoreReport × Engine)
    (ho : state.2.Orderly) : Changes t state.2 (l.foldl (restoreNextName t) state).2 := by
  induction l generalizing state with
  | nil => exact .refl t _
  | cons st rest ih =>
    have hstep : Changes t state.2 (restoreNextName t state st).2 := by
      rw [restoreNextName]
      split
      · exact .refl t _
      · dsimp only
        split
        · exact changes_restoreName ho
        · exact changes_restoreName ho
    exact hstep.trans (ih (restoreNextName t state st) (ho.changes hstep))

theorem changes_restoreAll (l : DeletionBatch) (state : RestoreReport × Engine)
    (ho : state.2.Orderly) : Changes t state.2 (l.foldl (restoreTrappings t) state).2 := by
  induction l generalizing state with
  | nil => exact .refl t _
  | cons d rest ih =>
    have hstep : Changes t state.2 (restoreTrappings t state d).2 := by
      rw [restoreTrappings]
      split
      · have hnames := changes_restoreNames (t := t) (d.statement :: d.assumptions) state ho
        cases d.authority with
        | none => exact hnames
        | some a =>
          refine hnames.trans (Changes.trans (Change.changes ?_) changes_notify)
          apply Change.authority
          intro b hb
          cases hb
          rfl
      · exact .refl t _
    exact hstep.trans (ih (restoreTrappings t state d) (ho.changes hstep))

theorem Orderly.fewer (ho : e.Orderly) {batches : List DeletionBatch}
    (h : batches.Sublist e.undo.batches) : { e with undo := { e.undo with batches } }.Orderly :=
  { ho with
    log := h.length_le.trans ho.log
    batches := fun batch hbatch => ho.batches batch (h.subset hbatch) }

theorem undelete_worked (ho : e.Orderly) : ((undelete t).perform e).2 = e ∨ ∃ batch rest e₁,
    e.undo.batches = batch :: rest ∧
      Changes t { e with undo := { e.undo with batches := rest } } e₁ ∧
      ((undelete t).perform e).2 = e₁.onTransaction t (·.addPopped batch) := by
  rcases undelete_outcome t e with ⟨f, hrun⟩ | ⟨-, batch, rest, hbatches, hrun⟩ <;> rw [hrun]
  · exact Or.inl rfl
  · refine Or.inr ⟨batch, rest, _, hbatches, ?_, rfl⟩
    have hapart : ∀ d ∈ batch.reverse, d.statement.Apart := by
      intro d hd
      refine ho.batches batch ?_ d (List.mem_reverse.1 hd)
      rw [hbatches]
      exact List.mem_cons_self
    have hfewer := ho.fewer (hbatches ▸ List.sublist_cons_self batch rest)
    have hrebuilt := changes_rebuildAll (t := t) batch.reverse hapart
      ({}, { e with undo := { e.undo with batches := rest } }) hfewer
    exact hrebuilt.trans (changes_restoreAll batch.reverse _ (hfewer.changes hrebuilt))

end Engine

/-! ### Copies -/

namespace Copying

open Engine

variable {t : TransactionId} {e : Engine} {exclude : IdSet} {α β : Type} {m : Copying α}
  {k : α → Copying β}

def Works (t : TransactionId) (m : Copying α) : Prop :=
  ∀ state : CopyState, state.engine.Orderly → Changes t state.engine (m.run state).2.engine

theorem works_pure {a : α} : Works t (pure a : Copying α) := fun state _ => .refl t state.engine

theorem works_throw {f : Failure} : Works t (throw f : Copying α) := fun state _ =>
  .refl t state.engine

theorem works_bind' (h : Works t m) (hk : ∀ a state state', state'.engine.Orderly →
    m.run state = (.ok a, state') → Changes t state'.engine ((k a).run state').2.engine) :
    Works t (m >>= k) := by
  intro state ho
  rw [run_bind]
  have hfirst := h state ho
  cases hm : m.run state with
  | mk r state' =>
    rw [hm] at hfirst
    cases r with
    | error f => exact hfirst
    | ok a => exact hfirst.trans (hk a state state' (ho.changes hfirst) hm)

theorem works_bind (h : Works t m) (hk : ∀ a, Works t (k a)) : Works t (m >>= k) :=
  works_bind' h fun a _ state' ho _ => hk a state' ho

theorem works_get : Works t (get : Copying CopyState) := fun state _ => .refl t state.engine

theorem works_lift {y : Except Failure α} : Works t (liftM y : Copying α) := by
  cases y with
  | error f => exact works_throw
  | ok a => exact works_pure

theorem works_act {action : Action α} (h : ∀ e, Moves t e action) : Works t (act action) :=
  fun state => h state.engine

theorem works_forM {l : List α} {f : α → Copying Unit} (hf : ∀ a ∈ l, Works t (f a)) :
    Works t (l.forM f) := by
  induction l with
  | nil => exact works_pure
  | cons a rest ih =>
    exact works_bind (hf a List.mem_cons_self) fun _ =>
      ih fun b hb => hf b (List.mem_cons_of_mem _ hb)

theorem works_settle {source copy : StatementId} : Works t (settle t exclude source copy) := by
  have hnote : Works t (note source copy) := fun state _ => .refl t state.engine
  apply works_bind hnote
  intro _ state ho
  change Changes t state.engine (CopyState.engine (ite _ _ _))
  split
  · exact .refl t _
  · split
    case h_1 name st _ hst =>
      split
      · exact .refl t _
      · rename_i hfree
        apply Change.changes
        apply Change.write { st with identifier := some name } (ho.apart copy st hst)
        intro name' y hname' hy
        cases hname'
        exact absurd (hy ▸ rfl) hfree
    case h_2 => exact .refl t _

theorem works_newContext {owner : Option StatementId} {term : Term} {kind : ContextKind}
    {k : StatementId → Copying β} (hk : ∀ id, Works t (k id)) : Works t (do
      let id ← act Engine.allocate
      act (Engine.insertContext t owner term kind id none)
      k id) := by
  apply works_bind' (works_act fun _ => moves_allocate)
  intro id state state' ho hrun
  have hpast : state'.engine.store.allocator.Past id := by
    cases hperform : Engine.allocate.perform state.engine with
    | mk r e' =>
      have hact : (act Engine.allocate).run state = (r, { state with engine := e' }) := by
        change ((Engine.allocate.perform state.engine).1,
          { state with engine := (Engine.allocate.perform state.engine).2 }) = _
        rw [hperform]
      rw [hact] at hrun
      cases hrun
      exact (allocate_past hperform).2
  have hinsert : Changes t state'.engine ((act (Engine.insertContext t owner term kind id none)).run
      state').2.engine := moves_insertContext nofun (fun _ => hpast) ho
  rw [run_bind]
  cases hm : (act (Engine.insertContext t owner term kind id none)).run state' with
  | mk r state'' =>
    rw [hm] at hinsert
    cases r with
    | error f => exact hinsert
    | ok u => exact hinsert.trans (hk id state'' (ho.changes hinsert))

theorem works_copyShell {into : StatementId} {term : Term} {data : ContextData} :
    Works t (copyShell t exclude into term data) := by
  apply works_bind works_get
  intro state
  refine works_bind works_lift fun _ => works_newContext fun id => ?_
  refine works_bind (works_bind works_get fun _ => works_pure) fun _ => ?_
  refine works_bind works_lift fun _ => ?_
  exact works_bind (works_forM fun _ _ => works_settle) fun _ => works_pure

theorem works_copyAll (depth : Nat) (outer : List StatementId) (into : StatementId)
    (sources : List StatementId) : Works t (copyAll t exclude depth outer into sources) := by
  induction depth generalizing outer into sources with
  | zero => exact works_pure
  | succ depth ih =>
    apply works_forM
    intro source _
    apply works_bind works_get
    intro state
    dsimp only
    split
    · exact fun state _ => .refl t state.engine
    · apply works_bind works_lift
      intro st
      split
      · exact works_throw
      · exact works_bind (works_act fun _ => moves_allocate) fun _ =>
          works_bind (works_act fun _ => moves_insertDeclaration) fun _ => works_settle
      · exact works_bind (works_act fun _ => moves_allocate) fun _ =>
          works_bind (works_act fun _ => moves_insertSpecialization) fun _ => works_settle
      · split
        · exact works_throw
        · refine works_bind works_copyShell fun _ => ?_
          refine works_bind (works_bind works_get fun _ => works_pure) fun _ => ?_
          exact works_bind works_lift fun _ => works_bind works_settle fun _ => ih _ _ _

theorem changes_copy {target : StatementId} {sources : List StatementId} {map : Correspondence}
    (ho : e.Orderly) : Changes t e (e.copy t target sources map exclude).2.2 := by
  have hworks : Works t (copyList t target sources exclude) := by
    refine works_bind (works_act fun _ => moves_ensureOpen) fun _ => ?_
    refine works_bind (works_bind works_get fun _ => works_pure) fun _ => ?_
    refine works_bind works_lift fun _ => works_bind (works_copyAll _ _ _ _) fun _ => ?_
    exact works_bind works_get fun _ => works_lift
  exact hworks { engine := e, map } ho

end Copying

/-! ### Operations -/

namespace Op

open Engine

variable {t : TransactionId} {e : Engine} {op : Op}

def client? : Op → Option TransactionId
  | createRoot t _ | declare t _ _ | specialize t _ _ _ | openNested t _ _ | openUnfolding t _ _ _
  | removeStatements t _ _ | removeRoot t _ | removeCascade t _ _ | copy t _ _ _ _ | undelete t
  | rebuild t _ | propagate t _ _ | identify t _ _ _ | unidentify t _ _ | createAuthority t _ _
  | signAuthority t _ | deleteAuthority t _ | lock t _ | addHook t _ _ => some t
  | _ => none

/-- Changes in a transaction, or an undelete, which also takes a batch off the undo log. -/
inductive Worked (t : TransactionId) (e e' : Engine) : Prop where
  | changed (h : Changes t e e')
  | restored {batch : DeletionBatch} {rest : List DeletionBatch} {e₁ : Engine}
      (hbatches : e.undo.batches = batch :: rest)
      (h : Changes t { e with undo := { e.undo with batches := rest } } e₁)
      (he : e' = e₁.onTransaction t (·.addPopped batch))

theorem worked (ho : e.Orderly) (h : op.client? = some t) : Worked t e (op.run e).2 := by
  cases op with
  | createRoot => cases h; exact .changed (moves_createRoot ho)
  | declare => cases h; exact .changed (moves_declare ho)
  | specialize => cases h; exact .changed (moves_specialize ho)
  | openNested => cases h; exact .changed (moves_openContext ho)
  | openUnfolding => cases h; exact .changed (moves_openContext ho)
  | removeStatements => cases h; exact .changed (moves_removeStatements ho)
  | removeRoot => cases h; exact .changed (moves_removeRoot ho)
  | removeCascade => cases h; exact .changed (moves_removeCascade ho)
  | copy => cases h; exact .changed (Copying.changes_copy ho)
  | undelete =>
    cases h
    rcases undelete_worked (t := t) ho with hsame | ⟨batch, rest, e₁, hbatches, hchanges, he⟩
    · apply Worked.changed
      change Changes t e ((Engine.undelete t).perform e).2
      rw [hsame]
      exact .refl t e
    · exact .restored hbatches hchanges he
  | rebuild => cases h; exact .changed (moves_rebuild ho)
  | propagate => cases h; exact .changed (moves_propagate ho)
  | identify => cases h; exact .changed (moves_identify ho)
  | unidentify => cases h; exact .changed (moves_unidentify ho)
  | createAuthority => cases h; exact .changed (moves_createAuthority ho)
  | signAuthority => cases h; exact .changed (moves_signAuthority ho)
  | deleteAuthority => cases h; exact .changed (moves_deleteAuthority ho)
  | lock => cases h; exact .changed (moves_lock ho)
  | addHook => cases h; exact .changed (Change.hook _).changes
  | _ => cases h

end Op

end StatementGraph
