import StatementGraph.Proofs.Copying
import StatementGraph.Proofs.Session

namespace StatementGraph

/-- What can be asked of an engine, with all arguments. -/
inductive Op where
  | begin (timeout : Option Nat)
  | commit (t : TransactionId)
  | abort (t : TransactionId)
  | createRoot (t : TransactionId) (term : Term)
  | declare (t : TransactionId) (context : StatementId) (value : Term)
  | specialize (t : TransactionId) (context general : StatementId) (argument : Term)
  | openNested (t : TransactionId) (context : StatementId) (term : Term)
  | openUnfolding (t : TransactionId) (context : StatementId) (term : Term)
      (declaration : StatementId)
  | removeStatements (t : TransactionId) (context : StatementId) (ids : List StatementId)
  | removeRoot (t : TransactionId) (root : StatementId)
  | removeCascade (t : TransactionId) (context id : StatementId)
  | copy (t : TransactionId) (target : StatementId) (sources : List StatementId)
      (map : Correspondence) (exclude : IdSet)
  | undelete (t : TransactionId)
  | rebuild (t : TransactionId) (id : StatementId)
  | propagate (t : TransactionId) (seeds : List StatementId) (solved : Bool)
  | identify (t : TransactionId) (id : StatementId) (name : Identifier) (force : Bool)
  | unidentify (t : TransactionId) (id : StatementId) (force : Bool)
  | createAuthority (t : TransactionId) (id : StatementId) (author : String)
  | signAuthority (t : TransactionId) (id : StatementId)
  | deleteAuthority (t : TransactionId) (id : StatementId)
  | lock (t : TransactionId) (id : StatementId)
  | addHook (t : TransactionId) (always : Bool) (label : String)
  | listen (subject : Option StatementId) (listener : Listener)
  | unlisten (handle : ListenerId)
  | takeNotices
  | popUndo
  | close

def Action.effect {α : Type} (m : Action α) (e : Engine) : Except Failure Unit × Engine :=
  ((m.perform e).1.map fun _ => (), (m.perform e).2)

theorem Engine.allClosed_iff {e : Engine} : (∀ t, e.isOpen t = false) ↔
    ∀ p ∈ e.transactions.entries, p.2.closed = true := by
  constructor
  · rintro h ⟨t, tx⟩ htx
    by_contra hopen
    have hclosed := h t
    rw [Engine.isOpen_iff.2 ⟨tx, Table.mem_entries.1 htx, by simpa using hopen⟩] at hclosed
    cases hclosed
  · intro h t
    rw [Bool.eq_false_iff]
    intro ht
    obtain ⟨tx, htx, hopen⟩ := Engine.isOpen_iff.1 ht
    cases hopen.symm.trans (h (t, tx) (Table.mem_entries.2 htx))

namespace Op

/-- Run an operation: whether it succeeds, and the engine afterwards. -/
def run (e : Engine) : Op → Except Failure Unit × Engine
  | begin timeout => (.ok (), (e.begin timeout).2)
  | commit t => (Engine.commit t).effect e
  | abort t => (.ok (), e.abort t)
  | createRoot t term => (Engine.createRoot t term).effect e
  | declare t context value => (Engine.declare t context value).effect e
  | specialize t context general argument =>
    (Engine.specialize t context general argument).effect e
  | openNested t context term => (Engine.openNested t context term).effect e
  | openUnfolding t context term declaration =>
    (Engine.openUnfolding t context term declaration).effect e
  | removeStatements t context ids => (Engine.removeStatements t context ids).effect e
  | removeRoot t root => (Engine.removeRoot t root).effect e
  | removeCascade t context id => (Engine.removeCascade t context id).effect e
  | copy t target sources map exclude =>
    ((e.copy t target sources map exclude).1.map fun _ => (),
      (e.copy t target sources map exclude).2.2)
  | undelete t => (Engine.undelete t).effect e
  | rebuild t id => (Engine.rebuild t id).effect e
  | propagate t seeds solved => (Engine.propagate t seeds solved).effect e
  | identify t id name force => (Engine.identify t id name force).effect e
  | unidentify t id force => (Engine.unidentify t id force).effect e
  | createAuthority t id author => (Engine.createAuthority t id author).effect e
  | signAuthority t id => (Engine.signAuthority t id).effect e
  | deleteAuthority t id => (Engine.deleteAuthority t id).effect e
  | lock t id => (Engine.lock t id).effect e
  | addHook t always label => (.ok (), e.addHook t always label)
  | listen subject listener => (.ok (), (e.listen subject listener).2)
  | unlisten handle => (.ok (), (e.unlisten handle).2)
  | takeNotices => (.ok (), e.takeNotices.2)
  | popUndo => (.ok (), e.popUndo.2)
  | close => (.ok (), e.close)

def supplied : Op → List Term
  | createRoot _ term => [term]
  | declare _ _ value => [value]
  | specialize _ _ _ argument => [argument]
  | openNested _ _ term => [term]
  | openUnfolding _ _ term _ => [term]
  | _ => []

/-- Each transaction is closed before the next begins. -/
def Sequential (e : Engine) : Op → Prop
  | begin _ => ∀ t, e.isOpen t = false
  | _ => True

/-- Every variable of a supplied term carries the term of its statement as it is stored. -/
def Faithful (e : Engine) (op : Op) : Prop :=
  ∀ term ∈ op.supplied, ∀ x type, (x, type) ∈ term.occurrences →
    ∀ st, e.store.get? x = some st → type = st.term

def Paramless (op : Op) : Prop := ∀ term ∈ op.supplied, term.paramFree = true

def isBegin : Op → Bool
  | begin _ => true
  | _ => false

theorem sequential_iff {e : Engine} {op : Op} : op.Sequential e ↔
    (op.isBegin = true → ∀ p ∈ e.transactions.entries, p.2.closed = true) := by
  cases op with
  | begin timeout => exact Engine.allClosed_iff.trans ⟨fun h _ => h, fun h => h rfl⟩
  | _ => exact iff_of_true trivial fun h => by cases h

instance decidableSequential (e : Engine) (op : Op) : Decidable (op.Sequential e) :=
  decidable_of_iff _ sequential_iff.symm

instance decidableFaithful (e : Engine) (op : Op) : Decidable (op.Faithful e) :=
  decidable_of_iff (∀ term ∈ op.supplied, ∀ o ∈ term.occurrences,
      ∀ st ∈ e.store.get? o.1, o.2 = st.term)
    ⟨fun h term hterm x type hx st hst => h term hterm (x, type) hx st hst,
      fun h term hterm o ho st hst => h term hterm o.1 o.2 ho st hst⟩

instance decidableParamless (op : Op) : Decidable op.Paramless :=
  inferInstanceAs (Decidable (∀ term ∈ op.supplied, term.paramFree = true))

/-- The ids do not run out; an engine that has none left is beyond repair. -/
def Lasting (e : Engine) (op : Op) : Prop :=
  (op.run e).1 ≠ .error Engine.exhausted ∧ (op.run e).2.store.allocator.next ≠ 0

end Op

/-- The engines that runs of permitted operations reach from an empty engine. -/
inductive Reached (permits : Engine → Op → Prop) : Engine → Prop where
  | start {config : Config} {e : Engine} (h : Engine.create config .absent = .ok e) :
      Reached permits e
  | step {e : Engine} {op : Op} (h : Reached permits e) (hpermits : permits e op)
      (hlasting : op.Lasting e) : Reached permits (op.run e).2

namespace Engine

open Store

variable {D : Discipline} {H : Graph} {e : Engine} {t : TransactionId} {tx : Transaction}
  {α : Type} {op : Op}

theorem perform_ensureOpen_closed (h : e.isOpen t = false) :
    (ensureOpen t).perform e = (.error (closedFailure t), e) := by
  rw [ensureOpen, perform_get_bind, h]
  rfl

theorem perform_closed {k : Unit → Action α} (h : e.isOpen t = false) :
    (ensureOpen t >>= k).perform e = (.error (closedFailure t), e) := by
  rw [perform_bind, perform_ensureOpen_closed h]

/-- What is asked for in a transaction that is not open is refused; in the open one it goes on. -/
theorem Session.act {k : Unit → Action α} (h : Session D H e)
    (hsheds : Sound D t H e → Sheds D t H e (ensureOpen t >>= k))
    (hlast : ((ensureOpen t >>= k).effect e).1 ≠ .error exhausted) :
    Answered ((ensureOpen t >>= k).effect e).1 ∧
      ∃ H', Session D H' ((ensureOpen t >>= k).effect e).2 := by
  rw [Action.effect] at hlast ⊢
  cases hopen : e.isOpen t with
  | false =>
    rw [perform_closed hopen]
    exact ⟨answered_error rfl, H, h⟩
  | true =>
    have hs := hsheds (h.sound hopen)
    cases hrun : (ensureOpen t >>= k).perform e with
    | mk r e' =>
      rw [hrun] at hlast
      rcases hs r e' hrun with rfl | ⟨hanswered, H', e₀, hs, hg, hend⟩
      · exact absurd rfl hlast
      · have h₀ := h.grown hopen hs hg
        refine ⟨hanswered.map _, H', ?_⟩
        rcases hend with rfl | ⟨batch, hremoves⟩
        · exact h₀
        · exact h₀.removed hs.isOpen hremoves

theorem propagate_cases (e : Engine) (t : TransactionId) (seeds : List StatementId)
    (solved : Bool) :
    (∃ report, (Engine.propagate t seeds solved).perform e =
        (.ok report, (e.propagation ⟨solved, true⟩ t seeds).engine)) ∨
      ∃ f, (Engine.propagate t seeds solved).perform e = (.error f, e) := by
  rw [Engine.propagate, perform_get_bind, perform_bind]
  rcases await_cases (e.propagation ⟨solved, true⟩ t seeds) e with hrun | hrun <;> rw [hrun]
  · exact Or.inl ⟨_, rfl⟩
  · exact Or.inr ⟨_, rfl⟩

theorem perform_propagate {seeds : List StatementId} {solved : Bool} (h : e.store.Settled) :
    ∃ report, (Engine.propagate t seeds solved).perform e = (.ok report, e) := by
  obtain ⟨hsame, hrests⟩ := @propagation_of_settled e ⟨solved, true⟩ t seeds h
  rw [Engine.propagate, perform_get_bind, perform_bind, perform_await hrests, hsame]
  exact ⟨_, rfl⟩

theorem perform_commit (htx : e.transactions.get? t = some tx) (hopen : tx.closed = false) :
    (Engine.commit t).perform e = (.ok (), e.commitWith tx) := by
  rw [Engine.commit, perform_get_bind, htx]
  dsimp only
  rw [hopen, if_neg Bool.false_ne_true]
  rfl

/-- A commit is refused if the transaction is not open, and goes through if it is. -/
theorem commit_cases (e : Engine) (t : TransactionId) :
    e.isOpen t = false ∧ (Engine.commit t).effect e = (.error (closedFailure t), e) ∨
      ∃ tx, e.transactions.get? t = some tx ∧ tx.closed = false ∧
        (Engine.commit t).effect e = (.ok (), e.commitWith tx) := by
  cases hopen : e.isOpen t with
  | true =>
    obtain ⟨tx, htx, hclosed⟩ := isOpen_iff.1 hopen
    refine Or.inr ⟨tx, htx, hclosed, ?_⟩
    rw [Action.effect, perform_commit htx hclosed]
    rfl
  | false =>
    refine Or.inl ⟨rfl, ?_⟩
    rw [Action.effect, Engine.commit, perform_get_bind]
    cases htx : e.transactions.get? t with
    | none => rfl
    | some tx =>
      rw [isOpen, htx, Option.any_some, Bool.not_eq_false'] at hopen
      dsimp only
      rw [if_pos hopen]
      rfl

theorem abort_of_open (htx : e.transactions.get? t = some tx) (hopen : tx.closed = false) :
    e.abort t = e.abortWith tx := by
  rw [Engine.abort, htx]
  dsimp only
  rw [hopen, if_neg Bool.false_ne_true]

theorem abort_cases (e : Engine) (t : TransactionId) :
    e.isOpen t = false ∧ e.abort t = e ∨
      ∃ tx, e.transactions.get? t = some tx ∧ tx.closed = false ∧ e.abort t = e.abortWith tx := by
  cases hopen : e.isOpen t with
  | true =>
    obtain ⟨tx, htx, hclosed⟩ := isOpen_iff.1 hopen
    exact Or.inr ⟨tx, htx, hclosed, abort_of_open htx hclosed⟩
  | false =>
    refine Or.inl ⟨rfl, ?_⟩
    rw [Engine.abort]
    cases htx : e.transactions.get? t with
    | none => rfl
    | some tx =>
      rw [isOpen, htx, Option.any_some, Bool.not_eq_false'] at hopen
      exact if_pos hopen

theorem answered_commit : Answered ((Engine.commit t).effect e).1 := by
  rcases commit_cases e t with ⟨-, hrun⟩ | ⟨tx, -, -, hrun⟩ <;> rw [hrun]
  · exact answered_error rfl
  · exact answered_ok ()

theorem Session.commit (h : Session D H e) :
    Session D H ((Engine.commit t).effect e).2 := by
  rcases commit_cases e t with ⟨-, hrun⟩ | ⟨tx, htx, hclosed, hrun⟩ <;> rw [hrun]
  · exact h
  · exact h.committed htx hclosed

theorem Session.abort (h : Session D H e) : Session D H (e.abort t) := by
  rcases abort_cases e t with ⟨-, hrun⟩ | ⟨tx, htx, hclosed, hrun⟩ <;> rw [hrun]
  · exact h
  · exact h.aborted htx hclosed

theorem Session.undelete (h : Session D H e) (hnext : e.store.allocator.next ≠ 0) :
    Answered ((Engine.undelete t).effect e).1 ∧ Session D H ((Engine.undelete t).effect e).2 := by
  rw [Action.effect]
  cases hopen : e.isOpen t with
  | false =>
    rw [Engine.undelete, perform_closed hopen]
    exact ⟨answered_error rfl, h⟩
  | true =>
    obtain ⟨tx, htx, hclosed⟩ := isOpen_iff.1 hopen
    cases hrun : (Engine.undelete t).perform e with
    | mk r e' =>
      rcases undelete_cases (h.sound hopen) hnext (h.busy t tx htx hclosed).deletions hrun with
        ⟨rfl, -, rfl⟩ | ⟨report, batch, rest, e₁, rfl, hundo, hs, -, he, hburied, rfl⟩
      · exact ⟨answered_error rfl, h⟩
      · exact ⟨answered_ok (), h.restored htx hclosed hundo hs he hburied⟩

theorem copy_closed {target : StatementId} {sources : List StatementId} {map : Correspondence}
    {exclude : IdSet} (h : e.isOpen t = false) :
    e.copy t target sources map exclude = (.error (closedFailure t), map, e) := by
  have hact : (Copying.act (ensureOpen t)).run { engine := e, map } =
      (.error (closedFailure t), { engine := e, map }) := by
    change (((ensureOpen t).perform e).1, CopyState.mk ((ensureOpen t).perform e).2 map) = _
    rw [perform_ensureOpen_closed h]
  have hrun : (Copying.copyList t target sources exclude).run { engine := e, map } =
      (.error (closedFailure t), { engine := e, map }) := by
    rw [Copying.copyList, Copying.run_bind, hact]
  rw [Engine.copy, hrun]

theorem Session.copy {target : StatementId} {sources : List StatementId} {map : Correspondence}
    {exclude : IdSet} (h : Session D H e)
    (hlast : (e.copy t target sources map exclude).1 ≠ .error exhausted) :
    Answered (e.copy t target sources map exclude).1 ∧
      ∃ H', Session D H' (e.copy t target sources map exclude).2.2 := by
  cases hopen : e.isOpen t with
  | false =>
    rw [copy_closed hopen]
    exact ⟨answered_error rfl, H, h⟩
  | true =>
    rcases sound_copy (h.sound hopen) with
      hexhausted | ⟨hanswered, H', hs, hg⟩
    · exact absurd hexhausted hlast
    · exact ⟨hanswered, H', h.grown hopen hs hg⟩

theorem get?_addHook_of_closed {always : Bool} {label : String} {t' : TransactionId}
    (h : e.isOpen t = false) :
    (e.addHook t always label).transactions.get? t' = e.transactions.get? t' := by
  rw [Engine.addHook, get?_onTransaction]
  split
  case isFalse => rfl
  case isTrue heq =>
    rw [heq]
    cases htx : e.transactions.get? t with
    | none => rfl
    | some tx =>
      have hclosed : tx.closed = true := by
        by_contra hne
        have hopen := isOpen_iff.2 ⟨tx, htx, by simpa using hne⟩
        rw [h] at hopen
        cases hopen
      rw [Option.map_some, Transaction.addHook, if_pos hclosed]

theorem Session.addHook {always : Bool} {label : String} (h : Session D H e) :
    Session D H (e.addHook t always label) := by
  have hstore : (e.addHook t always label).store = e.store := store_onTransaction
  cases hopen : e.isOpen t with
  | true =>
    have hs := h.sound hopen
    have he : Evolves t e (e.addHook t always label) := evolves_addHook
    obtain ⟨hs', hg⟩ := hs.of_store (hstore ▸ h.maintained) (by rw [hstore]) (by rw [hstore]) he
    exact h.grown hopen hs' hg
  | false =>
    obtain ⟨hundo, hnext⟩ :=
      onTransaction_fields (e := e) (t := t) (f := (·.addHook ⟨always, .report label⟩))
    exact h.aside hstore (fun t' => get?_addHook_of_closed hopen) hnext
      (by rw [Engine.addHook, hundo]) (by rw [Engine.addHook, hundo])

theorem Session.popUndo (h : Session D H e) : Session D H e.popUndo.2 := by
  rw [Engine.popUndo, UndoLog.pop?]
  cases hbatches : e.undo.batches with
  | nil => exact h
  | cons batch rest =>
    refine h.aside rfl (fun _ => rfl) rfl rfl ?_
    rw [hbatches]
    exact List.sublist_cons_self batch rest

theorem Session.step (h : Session D H e) (hnext : e.store.allocator.next ≠ 0)
    (hseq : op.Sequential e) (hoffer : ∀ term ∈ op.supplied, D.Offers e.store.graph term)
    (hlast : (op.run e).1 ≠ .error exhausted) :
    Answered (op.run e).1 ∧ ∃ H', Session D H' (op.run e).2 := by
  cases op with
  | begin timeout => exact ⟨answered_ok (), H, h.begun hseq timeout⟩
  | commit t => exact ⟨answered_commit, H, h.commit⟩
  | abort t => exact ⟨answered_ok (), H, h.abort⟩
  | createRoot t term =>
    exact h.act (fun hs => sheds_of_grows (grows_createRoot hs
      (hoffer term List.mem_cons_self))) hlast
  | declare t context value =>
    exact h.act (fun hs => sheds_of_grows (grows_declare hs
      (hoffer value List.mem_cons_self))) hlast
  | specialize t context general argument =>
    exact h.act (fun hs => sheds_of_grows (grows_specialize hs
      (hoffer argument List.mem_cons_self))) hlast
  | openNested t context term =>
    exact h.act (fun hs => sheds_of_grows (grows_openContext nofun hs
      (hoffer term List.mem_cons_self))) hlast
  | openUnfolding t context term declaration =>
    exact h.act (fun hs => sheds_of_grows (grows_openContext nofun hs
      (hoffer term List.mem_cons_self))) hlast
  | removeStatements t context ids => exact h.act sheds_removeStatements hlast
  | removeRoot t root => exact h.act sheds_removeRoot hlast
  | removeCascade t context id => exact h.act sheds_removeCascade hlast
  | copy t target sources map exclude =>
    have hcopied : (e.copy t target sources map exclude).1 ≠ .error exhausted :=
      fun hexhausted => hlast (by rw [Op.run, hexhausted]; rfl)
    obtain ⟨hanswered, hsession⟩ := h.copy hcopied
    exact ⟨hanswered.map _, hsession⟩
  | undelete t =>
    obtain ⟨hanswered, hsession⟩ := h.undelete (t := t) hnext
    exact ⟨hanswered, H, hsession⟩
  | rebuild t id => exact h.act (fun hs => sheds_of_grows (grows_rebuild hs)) hlast
  | propagate t seeds solved =>
    obtain ⟨report, hrun⟩ := @perform_propagate e t seeds solved (h.maintained.settled h.lawful)
    rw [Op.run, Action.effect, hrun]
    exact ⟨answered_ok (), H, h⟩
  | identify t id name force => exact h.act (fun hs => sheds_of_grows (grows_identify hs)) hlast
  | unidentify t id force => exact h.act (fun hs => sheds_of_grows (grows_unidentify hs)) hlast
  | createAuthority t id author =>
    exact h.act (fun hs => sheds_of_grows (grows_createAuthority hs)) hlast
  | signAuthority t id => exact h.act (fun hs => sheds_of_grows (grows_signAuthority hs)) hlast
  | deleteAuthority t id => exact h.act (fun hs => sheds_of_grows (grows_deleteAuthority hs)) hlast
  | lock t id => exact h.act (fun hs => sheds_of_grows (grows_lock hs)) hlast
  | addHook t always label => exact ⟨answered_ok (), H, h.addHook⟩
  | listen subject listener =>
    exact ⟨answered_ok (), H, h.aside rfl (fun _ => rfl) rfl rfl (List.Sublist.refl _)⟩
  | unlisten handle =>
    exact ⟨answered_ok (), H, h.aside rfl (fun _ => rfl) rfl rfl (List.Sublist.refl _)⟩
  | takeNotices =>
    exact ⟨answered_ok (), H, h.aside rfl (fun _ => rfl) rfl rfl (List.Sublist.refl _)⟩
  | popUndo => exact ⟨answered_ok (), H, h.popUndo⟩
  | close => exact ⟨answered_ok (), H, h.aside rfl (fun _ => rfl) rfl rfl (List.nil_sublist _)⟩

theorem create_fields {config : Config} (h : create config .absent = .ok e) :
    e.store = {} ∧ e.undo.batches = [] ∧ e.undo.depth ≠ 0 ∧ e.transactions = {} := by
  rw [create, bind_eq_ok] at h
  obtain ⟨-, -, h⟩ := h
  have hdepth : (UndoLog.ofDepth config.undoDepth).depth ≠ 0 := by
    rw [UndoLog.ofDepth]
    dsimp only
    split
    case isTrue => exact Nat.one_ne_zero
    case isFalse hne => exact hne
  split at h
  · cases h
    exact ⟨rfl, rfl, hdepth, rfl⟩
  · cases h
    exact ⟨rfl, rfl, hdepth, rfl⟩

theorem maintained_empty : ({} : Store).Maintained H := by
  have hgraph (x : StatementId) (c : Content) : ({} : Store).graph x ≠ some c := nofun
  refine ⟨indexed_empty, indexed_empty.keyed, fun x c hx => absurd hx (hgraph x c),
    ⟨fun x c _ hx _ => absurd hx (hgraph x c), fun x c _ hx _ => absurd hx (hgraph x c),
      fun x c _ _ hx _ _ => absurd hx (hgraph x c)⟩, fun x => ⟨fun hx => ?_, fun hx => ?_⟩,
    fun x a ha => ?_⟩
  · cases hx
  · obtain ⟨c, hc⟩ := hx.live
    exact absurd hc (hgraph x c)
  · cases ha

theorem session_create {config : Config} (h : create config .absent = .ok e) :
    Session D (fun _ => none) e ∧ e.store.allocator.next ≠ 0 := by
  obtain ⟨hstore, hundo, hdepth, htransactions⟩ := create_fields h
  have hopen (t : TransactionId) (tx : Transaction) : e.transactions.get? t ≠ some tx := by
    rw [htransactions]
    nofun
  refine ⟨⟨fun _ _ hx => (by cases hx), hstore ▸ maintained_empty, hstore ▸ named_empty,
    fun _ _ hx => (by cases hx), hdepth, fun t tx htx => absurd htx (hopen t tx),
    fun t t' ho _ => ?_, fun _ => ?_, fun t tx htx _ => absurd htx (hopen t tx)⟩,
    by rw [hstore]; decide⟩
  · obtain ⟨tx, htx, -⟩ := isOpen_iff.1 ho
    exact absurd htx (hopen t tx)
  · rw [hundo]
    exact Graph.buries_nil

end Engine

open Engine

variable {D : Discipline} {permits : Engine → Op → Prop} {e : Engine} {op : Op}

theorem Op.Faithful.offers (h : op.Faithful e) :
    ∀ term ∈ op.supplied, Discipline.exact.Offers e.store.graph term := by
  refine fun term hterm => ⟨fun x type hx c hc => ?_, Or.inl trivial⟩
  obtain ⟨st, hst, rfl⟩ := Store.graph_eq_some.1 hc
  exact ⟨st.content, hc, (h term hterm x type hx st hst).symm⟩

theorem Op.Paramless.offers (h : op.Paramless) {G : Graph} :
    ∀ term ∈ op.supplied, Discipline.paramless.Offers G term :=
  fun term hterm => ⟨fun _ _ _ _ _ => trivial, Or.inr (h term hterm)⟩

/-- Sequential runs reach only engines that are kept right and have ids left. -/
theorem Reached.session_counter (hseq : ∀ e op, permits e op → op.Sequential e)
    (hoffer : ∀ e op, permits e op → ∀ term ∈ op.supplied, D.Offers e.store.graph term)
    (h : Reached permits e) : (∃ H, Session D H e) ∧ e.store.allocator.next ≠ 0 := by
  induction h with
  | start h =>
    obtain ⟨hsession, hnext⟩ := session_create h
    exact ⟨⟨_, hsession⟩, hnext⟩
  | @step e op _ hpermits hlasting ih =>
    obtain ⟨⟨H, hsession⟩, hnext⟩ := ih
    exact ⟨(hsession.step hnext (hseq e op hpermits) (hoffer e op hpermits) hlasting.1).2,
      hlasting.2⟩

theorem Reached.session (hseq : ∀ e op, permits e op → op.Sequential e)
    (hoffer : ∀ e op, permits e op → ∀ term ∈ op.supplied, D.Offers e.store.graph term)
    (h : Reached permits e) : ∃ H, Session D H e :=
  (h.session_counter hseq hoffer).1

/-- In a run of one transaction after the other every request comes back. -/
theorem Reached.answered (hseq : ∀ e op, permits e op → op.Sequential e)
    (hoffer : ∀ e op, permits e op → ∀ term ∈ op.supplied, D.Offers e.store.graph term)
    (h : Reached permits e) (hop : permits e op) : Answered (op.run e).1 := by
  obtain ⟨⟨H, hsession⟩, hnext⟩ := h.session_counter hseq hoffer
  by_cases hlast : (op.run e).1 = .error exhausted
  · rw [hlast]
    exact answered_error rfl
  · exact (hsession.step hnext (hseq e op hop) (hoffer e op hop) hlast).1

theorem Reached.mono {permits' : Engine → Op → Prop} (hp : ∀ e op, permits e op → permits' e op)
    (h : Reached permits e) : Reached permits' e := by
  induction h with
  | start h => exact .start h
  | step _ hpermits hlasting ih => exact .step ih (hp _ _ hpermits) hlasting

def Op.runAll (e : Engine) : List Op → Engine
  | [] => e
  | op :: ops => runAll (op.run e).2 ops

/-- Each operation of a list is permitted when its turn comes, and succeeds with ids to spare. -/
def Op.Succeed (permits : Engine → Op → Prop) (e : Engine) : List Op → Prop
  | [] => True
  | op :: ops => permits e op ∧ ((op.run e).1 = .ok () ∧ (op.run e).2.store.allocator.next ≠ 0) ∧
    Succeed permits (op.run e).2 ops

instance decidableEqOk {ε : Type} : (r : Except ε Unit) → Decidable (r = .ok ())
  | .ok _ => isTrue rfl
  | .error _ => isFalse fun h => by cases h

instance Op.decidableSucceed [∀ e op, Decidable (permits e op)] :
    (e : Engine) → (ops : List Op) → Decidable (Op.Succeed permits e ops)
  | _, [] => isTrue trivial
  | e, op :: ops =>
    have := decidableSucceed (op.run e).2 ops
    inferInstanceAs (Decidable (permits e op ∧ ((op.run e).1 = .ok () ∧
      (op.run e).2.store.allocator.next ≠ 0) ∧ Op.Succeed permits (op.run e).2 ops))

theorem Reached.runAll (ops : List Op) (h : Reached permits e)
    (hops : Op.Succeed permits e ops) : Reached permits (Op.runAll e ops) := by
  induction ops generalizing e with
  | nil => exact h
  | cons op ops ih =>
    obtain ⟨hpermits, ⟨hok, hnext⟩, hrest⟩ := hops
    refine ih (h.step hpermits ⟨fun hfail => ?_, hnext⟩) hrest
    cases hok.symm.trans hfail

theorem reached_of_succeed {ops : List Op} (h : Op.Succeed permits (.inMemory {}) ops) :
    Reached permits (Op.runAll (.inMemory {}) ops) :=
  (@Reached.start permits {} _ rfl).runAll ops h

def StatementId.after (n : Nat) : StatementId :=
  ⟨n % (UInt64.size - 1) + 1, Nat.succ_pos _, Nat.succ_lt_succ (Nat.mod_lt n (by decide))⟩

/-- A root with its assumption declared again, and a root that asks for what it assumes. -/
def twoRoots : List Op :=
  [.begin none, .createRoot ⟨1⟩ (.function ⟨0⟩ (.atom "A") (.atom "B")),
    .declare ⟨1⟩ (.after 0) (.var (.after 1) (.atom "A")),
    .createRoot ⟨1⟩ (.function ⟨0⟩ (.atom "A") (.atom "A"))]

theorem reached_twoRoots : Reached (fun e op => op.Sequential e ∧ op.Faithful e ∧ op.Paramless)
    (Op.runAll (.inMemory {}) twoRoots) := reached_of_succeed (by decide +kernel)

end StatementGraph
