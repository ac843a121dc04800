import StatementGraph.Mutation.Name
import StatementGraph.Proofs.Checking
import StatementGraph.Proofs.Growth

namespace StatementGraph

namespace Store

variable {s s' : Store} {H : Graph} {D : Discipline} {x : StatementId} {st : Statement}

theorem Maintained.of_graph_eq (h : s.Maintained H) (hi : s'.Indexed) (hg : s'.graph = s.graph)
    (hp : ∀ x, s'.Proved x ↔ s.Proved x)
    (ha : ∀ x a, s'.authority? x = some a → a.statement = x ∧ ∃ c, s.graph x = some c) :
    s'.Maintained H := by
  have hr : s'.records.graph = s.records.graph := hg
  refine ⟨hi, hi.keyed, hr ▸ h.sub, hr ▸ h.closed, fun x => ?_, fun x a hx => ?_⟩
  · rw [hr]
    exact (hp x).trans h.proved_iff
  · rw [hr]
    exact ha x a hx

theorem graph_write_name {name : Option Identifier} (hst : s.get? x = some st) (hid : st.id = x) :
    (s.write { st with identifier := name }).graph = s.graph := by
  rw [graph_write]
  funext y
  by_cases hy : y = x
  · rw [hy, graph_of_get? hst, hid]
    exact Graph.set_self
  · exact Graph.set_ne (hid ▸ hy)

theorem Maintained.write_name {name : Option Identifier} (h : s.Maintained H)
    (hst : s.get? x = some st) : (s.write { st with identifier := name }).Maintained H := by
  have hid : st.id = x := h.indexed.keyed x st hst
  refine h.of_graph_eq h.indexed.write (graph_write_name hst hid) (fun y => ?_) fun y a ha =>
    h.authority ha
  rw [Store.proved_iff, Store.proved_iff, get?_write]
  by_cases hy : y = x
  · simp [hy, hid, hst]
  · simp [hid, hy]

theorem Maintained.setAuthority {a : Option Authority} (h : s.Maintained H)
    (ha : ∀ b, a = some b → b.statement = x ∧ ∃ c, s.graph x = some c) :
    (s.setAuthority x a).Maintained H := by
  refine h.of_graph_eq ⟨h.indexed.keyed, h.indexed.mirrors⟩ rfl (fun _ => Iff.rfl) fun y b hb => ?_
  rw [authority?_setAuthority] at hb
  split at hb
  case isTrue he => exact he ▸ ha b hb
  case isFalse => exact h.authority hb

end Store

namespace Engine

open Store

variable {D : Discipline} {t : TransactionId} {H : Graph} {e e' : Engine} {x : StatementId}

theorem Sound.of_store (hs : Sound D t H e) (hm : e'.store.Maintained H)
    (hg : e'.store.graph = e.store.graph) (ha : e'.store.allocator = e.store.allocator)
    (he : Evolves t e e') : Sound D t H e' ∧ Grown t H e H e' :=
  ⟨⟨hs.lawful, hm, ha ▸ hs.counter, he.isOpen hs.isOpen⟩,
    grown_of_graph_eq hg (fun _ hx => ha ▸ hx) he⟩

theorem put_name_fields {st : Statement} {name : Option Identifier}
    (hst : e.store.get? x = some st) (hid : st.id = x) :
    (e.put t { st with identifier := name }).store.graph = e.store.graph ∧
      (e.put t { st with identifier := name }).store.allocator = e.store.allocator ∧
      (e.put t { st with identifier := name }).store.authorities = e.store.authorities ∧
      ∀ y, y ≠ x → (e.put t { st with identifier := name }).store.nameOf y = e.store.nameOf y := by
  rw [store_put]
  refine ⟨graph_write_name hst hid, rfl, rfl, fun y hy => ?_⟩
  rw [nameOf_write, if_neg (hid ▸ hy)]

theorem sound_put_name {st : Statement} (name : Option Identifier) (hs : Sound D t H e)
    (hst : e.store.get? x = some st)
    (hn : e.store.Named → (e.store.write { st with identifier := name }).Named) :
    Sound D t H (e.put t { st with identifier := name }) ∧
      Grown t H e H (e.put t { st with identifier := name }) := by
  have hid := hs.maintained.indexed.keyed x st hst
  refine hs.of_store ?_ ?_ ?_ (evolves_put hn) <;> rw [store_put]
  · exact hs.maintained.write_name hst
  · exact graph_write_name hst hid
  · rfl

theorem sound_setAuthority {a : Option Authority} (hs : Sound D t H e)
    (ha : ∀ b, a = some b → b.statement = x ∧ ∃ c, e.store.graph x = some c) :
    Sound D t H (e.setAuthority t x a) ∧ Grown t H e H (e.setAuthority t x a) := by
  refine hs.of_store ?_ ?_ ?_ evolves_setAuthority <;> rw [store_setAuthority]
  · exact hs.maintained.setAuthority ha
  · rfl
  · rfl

theorem sound_notify (event : Event) (hs : Sound D t H e) :
    Sound D t H (e.notify t event) ∧ Grown t H e H (e.notify t event) := by
  refine hs.of_store ?_ ?_ ?_ evolves_notify <;> rw [store_notify]
  exact hs.maintained

theorem evolves_hold {locks : LockTable} : Evolves t e
    ({ e with locks }.onTransaction t fun tx => { tx with held := tx.held.insert x }) := by
  have hlocks : Evolves t e { e with locks } := evolves_of_eq rfl rfl rfl rfl rfl rfl
  refine hlocks.trans ?_
  have hsame (e : Engine) : e.onTransaction t (fun tx => { tx with held := tx.held.insert x }) =
      { e.onTransaction t (fun tx => { tx with held := tx.held.insert x }) with
        store := e.store } := by
    rw [onTransaction]
    split <;> rfl
  rw [hsame]
  exact evolves_onTransaction (fun tx _ => ⟨rfl, rfl, rfl, rfl, rfl⟩) id

theorem grows_lock (hs : Sound D t H e) :
    Grows D t H e (lock t x) fun H' e' _ => H' = H ∧ e'.store = e.store := by
  refine grows_ensureOpen_bind hs (grows_get_bind ?_)
  cases e.locks.acquire x t with
  | error error => exact grows_throw hs rfl
  | ok locks =>
    have hstore : ({ e with locks }.onTransaction t fun tx =>
        { tx with held := tx.held.insert x }).store = e.store := store_onTransaction
    obtain ⟨hs', hg⟩ := hs.of_store (hstore ▸ hs.maintained) (by rw [hstore]) (by rw [hstore])
      evolves_hold
    exact grows_set hs' hg ⟨rfl, hstore⟩

theorem grows_lock_bind {α : Type} {k : Unit → Action α} {Q : Graph → Engine → α → Prop}
    (hs : Sound D t H e)
    (h : ∀ e', Sound D t H e' → e'.store = e.store → Grows D t H e' (k ()) Q) :
    Grows D t H e (lock t x >>= k) Q := by
  refine grows_bind (grows_lock hs) ?_
  rintro H' e' - hs' - ⟨rfl, hstore⟩
  exact h e' hs' hstore

theorem grows_lockAll {ids : IdSet} (hs : Sound D t H e) :
    Grows D t H e (lockAll t ids) fun H' e' _ => H' = H ∧ e'.store = e.store := by
  refine grows_forM (fun H' e' => H' = H ∧ e'.store = e.store) hs ⟨rfl, rfl⟩ ?_
  rintro y - H' e' hs' ⟨rfl, hstore⟩
  exact (grows_lock hs').imp fun H'' e'' _ _ h => ⟨h.1, h.2.trans hstore⟩

theorem grows_guardSigned {force : Bool} (hs : Sound D t H e) :
    Grows D t H e (guardSigned t x force) fun H' e' _ =>
      H' = H ∧ e'.store.statements = e.store.statements ∧ e'.store.index = e.store.index := by
  refine grows_get_bind ?_
  split
  case h_1 a ha =>
    obtain ⟨hid, hlive⟩ := hs.maintained.authority ha
    split
    · split
      · obtain ⟨hs', hg⟩ := sound_setAuthority (t := t) (x := x) (a := some a.invalidate) hs
          fun b hb => by
            cases hb
            exact ⟨hid, hlive⟩
        refine grows_set hs' hg ⟨rfl, ?_⟩
        rw [store_setAuthority]
        exact ⟨rfl, rfl⟩
      · exact grows_throw hs rfl
    · exact grows_pure hs ⟨rfl, rfl, rfl⟩
  case h_2 => exact grows_pure hs ⟨rfl, rfl, rfl⟩

theorem grows_identify {name : Identifier} {force : Bool} (hs : Sound D t H e) :
    Grows D t H e (identify t x name force) fun _ _ _ => True := by
  refine grows_checked_bind hs answered_require fun st hrequire => ?_
  have hst := require_eq_ok.1 hrequire
  refine grows_lock_bind hs fun e' hs' hstore => ?_
  have hrename (hfree : ∀ y, e'.store.lookupName st.owner name = some y → y = x) :
      Grows D t H e' (do
        guardSigned t x force
        modify fun e => e.put t { st with identifier := some name }) fun _ _ _ => True := by
    refine grows_bind (grows_guardSigned hs') ?_
    rintro H'' e'' - hs'' - ⟨rfl, hstatements, hindex⟩
    have hst'' : e''.store.get? x = some st := by
      rw [Store.get?, hstatements, hstore]
      exact hst
    obtain ⟨hnamed, hg⟩ := sound_put_name (some name) hs'' hst'' fun hn =>
      hn.write_named rfl fun y hy => by
        rw [lookupName, hindex] at hy
        rw [hfree y hy, hn.on.keyed x st hst'']
    refine grows_modify ?_
    exact grows_set hnamed hg trivial
  split
  · exact grows_pure hs' trivial
  · refine grows_get_bind ?_
    dsimp only
    split
    case h_1 existing hexisting =>
      split
      · exact grows_throw_bind hs' rfl
      · rename_i hsame
        refine hrename fun y hy => ?_
        cases hexisting.symm.trans hy
        exact not_not.1 hsame
    case h_2 hnone =>
      refine hrename fun y hy => ?_
      rw [hnone] at hy
      cases hy

theorem grows_unidentify {force : Bool} (hs : Sound D t H e) :
    Grows D t H e (unidentify t x force) fun _ _ _ => True := by
  refine grows_checked_bind hs answered_require fun st hrequire => ?_
  have hst := require_eq_ok.1 hrequire
  refine grows_lock_bind hs fun e' hs' hstore => ?_
  split
  · exact grows_throw hs' rfl
  · refine grows_bind (grows_guardSigned hs') ?_
    rintro H'' e'' - hs'' - ⟨rfl, hstatements, -⟩
    have hst'' : e''.store.get? x = some st := by
      rw [Store.get?, hstatements, hstore]
      exact hst
    obtain ⟨hnamed, hg⟩ := sound_put_name none hs'' hst'' fun hn => hn.write_unnamed rfl
    refine grows_modify_bind ?_
    exact grows_set_bind hnamed hg (grows_pure hnamed trivial)

theorem grows_createAuthority {author : String} (hs : Sound D t H e) :
    Grows D t H e (createAuthority t x author) fun _ _ _ => True := by
  refine grows_checked_bind hs answered_require fun st hrequire => ?_
  have hst := require_eq_ok.1 hrequire
  refine grows_lock_bind hs fun e' hs' hstore => ?_
  refine grows_get_bind ?_
  dsimp only
  split
  · exact grows_throw_bind hs' rfl
  · obtain ⟨hs'', hg⟩ := sound_setAuthority (t := t) (x := x)
      (a := some (Authority.unsigned x author)) hs' fun b hb => by
        cases hb
        exact ⟨rfl, st.content, graph_of_get? (hstore ▸ hst)⟩
    obtain ⟨hs₃, hg'⟩ := sound_notify (.authorityCreated (Authority.unsigned x author)) hs''
    refine grows_modify_bind ?_
    exact grows_set_bind hs₃ (hg.trans hg') (grows_pure hs₃ trivial)

theorem grows_signAuthority (hs : Sound D t H e) :
    Grows D t H e (signAuthority t x) fun _ _ _ => True := by
  refine grows_ensureOpen_bind hs (grows_lock_bind hs fun e' hs' _ => ?_)
  refine grows_bind
    (Q := fun H'' e'' a => H'' = H ∧ e'' = e' ∧ e'.store.authority? x = some a) ?_ ?_
  · refine grows_get_bind ?_
    split
    case h_1 a ha => exact grows_pure hs' ⟨rfl, rfl, ha⟩
    case h_2 => exact grows_throw hs' rfl
  · rintro H'' e'' a - - ⟨rfl, rfl, ha⟩
    obtain ⟨hid, hlive⟩ := hs'.maintained.authority ha
    obtain ⟨hs'', hg⟩ := sound_setAuthority (t := t) (x := x) (a := some a.sign) hs' fun b hb => by
      cases hb
      exact ⟨hid, hlive⟩
    refine grows_modify_bind ?_
    exact grows_set_bind hs'' hg (grows_pure hs'' trivial)

theorem grows_deleteAuthority (hs : Sound D t H e) :
    Grows D t H e (deleteAuthority t x) fun _ _ _ => True := by
  refine grows_ensureOpen_bind hs (grows_lock_bind hs fun e' hs' _ => ?_)
  refine grows_get_bind ?_
  obtain ⟨hs'', hg⟩ := sound_setAuthority (t := t) (x := x) (a := none) hs' fun b hb => by cases hb
  refine grows_modify_bind (grows_set_bind hs'' hg ?_)
  split
  case h_1 a _ =>
    obtain ⟨hs₃, hg'⟩ := sound_notify (.authorityDeleted a) hs''
    refine grows_modify_bind ?_
    exact grows_set_bind hs₃ hg' (grows_pure hs₃ trivial)
  case h_2 => exact grows_throw hs'' rfl

theorem grows_rebuild (hs : Sound D t H e) :
    Grows D t H e (rebuild t x) fun _ _ _ => True := by
  refine grows_checked_bind hs answered_require fun _ _ => grows_get_bind ?_
  have hm := hs.maintained
  have hsettled : (e.rederive t [x]).2.store.Settled :=
    settled_rederive hm.indexed (hm.forest hs.lawful) (hm.tracked hs.lawful)
      fun _ _ => hm.proved_iff
  have hr : e.store.Reflagged (e.rederive t [x]).2.store := reflagged_rederive hm.indexed
  have hmaintained : (e.rederive t [x]).2.store.Maintained H := by
    refine hm.of_graph_eq hsettled.indexed hr.graph (fun y => ?_) fun y a ha => ?_
    · rw [hsettled.proved_iff, hm.proved_iff, hr.graph]
    · rw [authority?, hr.authorities] at ha
      exact hm.authority ha
  obtain ⟨hs', hg⟩ := hs.of_store hmaintained hr.graph hr.allocator evolves_rederive
  exact grows_set_bind hs' hg (grows_pure hs' trivial)

end Engine

end StatementGraph
