import StatementGraph.Proofs.Acting
import StatementGraph.Proofs.Rising
import StatementGraph.Proofs.Within

namespace StatementGraph

abbrev Flags := StatementId → Option Bool

namespace Flags

variable {m m' m'' : Flags} {event : Event} {events events' : List Event}

def after (m : Flags) : Event → Flags
  | .proved id flag => Function.update m id (some flag)
  | .added id _ flag => Function.update m id (some flag)
  | .deleted id _ _ => Function.update m id none
  | .authorityCreated _ => m
  | .authorityDeleted _ => m

def Admits (m : Flags) : Event → Prop
  | .proved id flag => m id = some (!flag)
  | _ => True

/-- Changes, each of them admitted when its turn comes, lead from flags to others. -/
def Leads : Flags → List Event → Flags → Prop
  | m, [], m' => m = m'
  | m, event :: rest, m' => m.Admits event ∧ Leads (m.after event) rest m'

theorem leads_singleton (h : m.Admits event) : m.Leads [event] (m.after event) := ⟨h, rfl⟩

theorem Leads.append (h : m.Leads events m') (h' : m'.Leads events' m'') :
    m.Leads (events ++ events') m'' := by
  induction events generalizing m with
  | nil =>
    cases h
    exact h'
  | cons event rest ih => exact ⟨h.1, ih h.2⟩

theorem Leads.admits {before later : List Event} (h : m.Leads (before ++ event :: later) m') :
    ∃ m₁, m.Leads before m₁ ∧ m₁.Admits event := by
  induction before generalizing m with
  | nil => exact ⟨m, rfl, h.1⟩
  | cons first rest ih =>
    obtain ⟨m₁, hrest, hadmits⟩ := ih h.2
    exact ⟨m₁, ⟨h.1, hrest⟩, hadmits⟩

end Flags

namespace Store

variable {s s' : Store} {x : StatementId} {st : Statement}

def flags (s : Store) : Flags := fun x => (s.get? x).map Statement.proved

theorem flags_write : (s.write st).flags = Function.update s.flags st.id (some st.proved) := by
  funext y
  rw [flags, get?_write, Function.update_apply]
  split <;> rfl

theorem flags_erase : (s.erase x).flags = Function.update s.flags x none := by
  funext y
  rw [flags, get?_erase, Function.update_apply]
  split <;> rfl

theorem flags_setProved {flag : Bool} (h : s.get? x = some st) :
    (s.setProved x flag).flags = Function.update s.flags x (some flag) := by
  funext y
  rw [flags, get?_setProved, Function.update_apply]
  split
  case isTrue =>
    rw [h]
    rfl
  case isFalse => rfl

theorem flags_write_same (h : s.flags st.id = some st.proved) : (s.write st).flags = s.flags := by
  rw [flags_write, ← h, Function.update_eq_self]

end Store

/-! ### Notices -/

def Notice.heardBy (label : String) : Notice → Option Event
  | .event l change => if l = label then some change else none
  | _ => none

def told (label : String) (notices : List Notice) : List Event :=
  notices.filterMap (Notice.heardBy label)

theorem told_append {label : String} {l l' : List Notice} :
    told label (l ++ l') = told label l ++ told label l' := List.filterMap_append

namespace Registry

variable {r : Registry} {handle : ListenerId} {label : String}

/-- Of all listeners, one has the label, and it hears of every change. -/
structure Hears (r : Registry) (handle : ListenerId) (label : String) : Prop where
  once : (r.everywhere.filter fun entry => entry.2.label = label).map Prod.fst = [handle]
  keyed : ∀ entry ∈ r.keyed, entry.2.2.label ≠ label

def notices (r : Registry) (event : Event) : List Notice :=
  (r.hearers event).map fun listener => .event listener.label event

/-- The listener hears of a change exactly once. -/
theorem Hears.told_once (h : r.Hears handle label) (event : Event) :
    told label (r.notices event) = [event] := by
  have hlist (l : List Listener) :
      told label (l.map fun listener => .event listener.label event) =
        (l.filter fun listener => listener.label = label).map fun _ => event := by
    induction l with
    | nil => rfl
    | cons listener rest ih =>
      rw [told] at ih ⊢
      by_cases hlabel : listener.label = label
      · simp [Notice.heardBy, hlabel, ih]
      · simp [Notice.heardBy, hlabel, ih]
  have hkeyed : ((event.subjects.flatMap fun id =>
      (r.keyed.filter fun e => e.1 = id).map fun e => e.2.2).filter
        fun listener => listener.label = label) = [] := by
    rw [List.filter_eq_nil_iff]
    intro listener hlistener
    obtain ⟨id, -, hid⟩ := List.mem_flatMap.1 hlistener
    obtain ⟨entry, hentry, rfl⟩ := List.mem_map.1 hid
    simpa using h.keyed entry (List.mem_filter.1 hentry).1
  have honce : ((r.everywhere.map Prod.snd).filter fun listener => listener.label = label).map
      (fun _ => event) = [event] := by
    have hlength := congrArg List.length h.once
    rw [List.filter_map, List.map_map]
    rw [List.length_map] at hlength
    obtain ⟨entry, hentry⟩ := List.length_eq_one_iff.1 hlength
    have hfilter : r.everywhere.filter
        ((fun listener => decide (listener.label = label)) ∘ Prod.snd)
        = [entry] := hentry
    rw [hfilter]
    rfl
  rw [notices, hlist, hearers, List.filter_append, hkeyed, List.nil_append]
  exact honce

theorem Hears.told_notices (h : r.Hears handle label) (events : List Event) :
    told label (events.flatMap r.notices) = events := by
  induction events with
  | nil => rfl
  | cons event rest ih =>
    rw [List.flatMap_cons, told_append, h.told_once, ih]
    rfl

end Registry

namespace Engine

open Store

variable {handle : ListenerId} {label : String} {t : TransactionId} {e e' e'' : Engine}
  {x : StatementId} {st : Statement} {event : Event} {α β : Type}

/-- What the listener hears leads from the flags of one engine to those of another. -/
structure Relays (handle : ListenerId) (label : String) (e e' : Engine) : Prop where
  listeners : e.store.Indexed → e'.listeners = e.listeners
  indexed : e.store.Indexed → e'.store.Indexed
  news : e.store.Indexed → e.listeners.Hears handle label →
    ∃ news, e'.notices = e.notices ++ news ∧ e.store.flags.Leads (told label news) e'.store.flags

theorem Relays.refl (e : Engine) : Relays handle label e e where
  listeners _ := rfl
  indexed := id
  news _ _ := ⟨[], (List.append_nil _).symm, rfl⟩

theorem Relays.trans (h : Relays handle label e e') (h' : Relays handle label e' e'') :
    Relays handle label e e'' where
  listeners hi := (h'.listeners (h.indexed hi)).trans (h.listeners hi)
  indexed hi := h'.indexed (h.indexed hi)
  news hi hears := by
    obtain ⟨news, hnews, hleads⟩ := h.news hi hears
    obtain ⟨news', hnews', hleads'⟩ := h'.news (h.indexed hi) (h.listeners hi ▸ hears)
    refine ⟨news ++ news', ?_, ?_⟩
    · rw [hnews', hnews, List.append_assoc]
    · rw [told_append]
      exact hleads.append hleads'

theorem relays_of_indexed (h : e.store.Indexed → Relays handle label e e') :
    Relays handle label e e' :=
  ⟨fun hi => (h hi).listeners hi, fun hi => (h hi).indexed hi, fun hi => (h hi).news hi⟩

instance isPreorder_relays : IsPreorder Engine (Relays handle label) where
  refl := .refl
  trans _ _ _ := .trans

def Unheard (e e' : Engine) : Prop := e'.listeners = e.listeners ∧ e'.notices = e.notices

theorem Unheard.trans (h : Unheard e e') (h' : Unheard e' e'') : Unheard e e'' :=
  ⟨h'.1.trans h.1, h'.2.trans h.2⟩

theorem unheard_onTransaction {f : Transaction → Transaction} :
    Unheard e (e.onTransaction t f) := by
  rw [onTransaction]
  split <;> exact ⟨rfl, rfl⟩

theorem unheard_put : Unheard e (e.put t st) := unheard_onTransaction

theorem unheard_remove : Unheard e (e.remove t x) := unheard_onTransaction

theorem unheard_setProved {flag : Bool} : Unheard e (e.setProved t x flag) := unheard_onTransaction

theorem unheard_setAuthority {a : Option Authority} : Unheard e (e.setAuthority t x a) :=
  unheard_onTransaction

theorem relays_unheard (hq : Unheard e e') (hi : e.store.Indexed → e'.store.Indexed)
    (hf : e.store.Indexed → e'.store.flags = e.store.flags) : Relays handle label e e' where
  listeners _ := hq.1
  indexed := hi
  news hindexed _ := ⟨[], by rw [hq.2, List.append_nil], (hf hindexed).symm⟩

theorem notify_heard : (e.notify t event).listeners = e.listeners ∧
    (e.notify t event).notices = e.notices ++ e.listeners.notices event := by
  have hone (e : Engine) (listener : Listener) :
      (hear t event e listener).listeners = e.listeners ∧
        (hear t event e listener).notices = e.notices ++ [.event listener.label event] := by
    rw [hear]
    split
    · exact unheard_onTransaction
    · exact ⟨rfl, rfl⟩
  rw [notify, Registry.notices]
  generalize e.listeners.hearers event = hearers
  induction hearers generalizing e with
  | nil => exact ⟨rfl, (List.append_nil _).symm⟩
  | cons listener rest ih =>
    obtain ⟨hlisteners, hnotices⟩ := ih (e := hear t event e listener)
    obtain ⟨hl, hn⟩ := hone e listener
    refine ⟨hlisteners.trans hl, hnotices.trans ?_⟩
    rw [hn, List.append_assoc]
    rfl

theorem notifyAll_heard (events : List Event) :
    (events.foldl (notify · t ·) e).listeners = e.listeners ∧
      (events.foldl (notify · t ·) e).store = e.store ∧
      (events.foldl (notify · t ·) e).notices =
        e.notices ++ events.flatMap e.listeners.notices := by
  induction events generalizing e with
  | nil => exact ⟨rfl, rfl, (List.append_nil _).symm⟩
  | cons event rest ih =>
    have hone : (e.notify t event).listeners = e.listeners ∧
        (e.notify t event).notices = e.notices ++ e.listeners.notices event := notify_heard
    obtain ⟨hlisteners, hstore, hnotices⟩ := ih (e := e.notify t event)
    refine ⟨hlisteners.trans hone.1, hstore.trans store_notify, hnotices.trans ?_⟩
    rw [hone.2, hone.1, List.flatMap_cons, List.append_assoc]

theorem relays_notifyAll (events : List Event) (hq : Unheard e e')
    (hi : e.store.Indexed → e'.store.Indexed)
    (h : e.store.Indexed → e.store.flags.Leads events e'.store.flags) :
    Relays handle label e (events.foldl (notify · t ·) e') := by
  obtain ⟨hlisteners, hstore, hnotices⟩ := notifyAll_heard (e := e') (t := t) events
  refine ⟨fun _ => hlisteners.trans hq.1, hstore ▸ hi,
    fun hindexed hears => ⟨_, hq.2 ▸ hnotices, ?_⟩⟩
  rw [hq.1, hears.told_notices, hstore]
  exact h hindexed

theorem relays_notify (hq : Unheard e e') (hi : e.store.Indexed → e'.store.Indexed)
    (ha : e.store.flags.Admits event) (hf : e'.store.flags = e.store.flags.after event) :
    Relays handle label e (e'.notify t event) :=
  relays_notifyAll [event] hq hi fun _ => hf ▸ Flags.leads_singleton ha

theorem relays_onTransaction {f : Transaction → Transaction} :
    Relays handle label e (e.onTransaction t f) := by
  apply relays_unheard unheard_onTransaction
  · rw [store_onTransaction]
    exact id
  · rw [store_onTransaction]
    exact fun _ => rfl

theorem relays_setAuthority {a : Option Authority} :
    Relays handle label e (e.setAuthority t x a) := by
  apply relays_unheard unheard_setAuthority
  · rw [store_setAuthority]
    exact fun hi => hi.of_eq rfl rfl
  · rw [store_setAuthority]
    exact fun _ => rfl

theorem relays_notify_authority (a : Authority) :
    Relays handle label e (e.notify t (.authorityCreated a)) ∧
      Relays handle label e (e.notify t (.authorityDeleted a)) :=
  ⟨relays_notify ⟨rfl, rfl⟩ id trivial rfl, relays_notify ⟨rfl, rfl⟩ id trivial rfl⟩

theorem relays_put (h : e.store.Indexed → e.store.flags st.id = some st.proved) :
    Relays handle label e (e.put t st) := by
  apply relays_unheard unheard_put
  · rw [store_put]
    exact fun hi => hi.write
  · rw [store_put]
    exact fun hi => flags_write_same (h hi)

/-! ### Additions and deletions -/

theorem relays_addRecord : Relays handle label e (addRecord t e st) := by
  apply relays_notify unheard_put
  · rw [store_put]
    exact fun hi => hi.write
  · trivial
  · rw [store_put]
    exact flags_write

theorem relays_erase : Relays handle label e (Removal.erase t e x).2 := by
  rw [Removal.erase]
  split
  case h_1 hx =>
    apply relays_unheard unheard_remove
    · rw [store_remove]
      exact fun hi => hi.erase
    · rw [store_remove, Store.erase, hx]
      exact fun _ => rfl
  case h_2 st hx =>
    dsimp only
    refine Relays.trans ?_ relays_onTransaction
    have hleads (events : List Event) (h : e.store.flags.Leads events e.store.flags) :
        e.store.flags.Leads (events ++ [.deleted x st.owner st.identifier])
          ((e.remove t x).setAuthority t x none).store.flags := by
      rw [store_setAuthority, store_remove]
      exact h.append ⟨trivial, flags_erase.symm⟩
    have hi (hindexed : e.store.Indexed) :
        ((e.remove t x).setAuthority t x none).store.Indexed := by
      rw [store_setAuthority, store_remove]
      exact hindexed.erase.of_eq rfl rfl
    have hq : Unheard e ((e.remove t x).setAuthority t x none) :=
      unheard_remove.trans unheard_setAuthority
    have hrelays (events : List Event) (h : e.store.flags.Leads events e.store.flags) :
        Relays handle label e (notify (events.foldl (notify · t ·)
          ((e.remove t x).setAuthority t x none)) t (.deleted x st.owner st.identifier)) := by
      have htold : Relays handle label e ((events ++ [Event.deleted x st.owner st.identifier]).foldl
          (notify · t ·) ((e.remove t x).setAuthority t x none)) :=
        relays_notifyAll _ hq hi fun _ => hleads events h
      rw [List.foldl_append] at htold
      exact htold
    split
    case h_1 a _ => exact hrelays [.authorityDeleted a] ⟨trivial, rfl⟩
    case h_2 => exact hrelays [] rfl

theorem relays_eraseAssumptions (l : List StatementId) :
    Relays handle label e (Removal.eraseAssumptions t l e).2 := by
  induction l generalizing e with
  | nil => exact .refl e
  | cons x rest ih => exact relays_erase.trans ih

/-! ### Propagation -/

theorem relays_step (solved : Bool) (run : Propagation) :
    Relays handle label run.engine (run.step ⟨solved, true⟩ t).engine := by
  rw [Propagation.step]
  split
  · exact .refl _
  · split
    · exact .refl _
    case h_2 x _ _ st hst =>
      dsimp only
      split
      · exact .refl _
      case isFalse hne =>
        rw [if_pos rfl]
        apply relays_notify unheard_setProved
        · rw [store_setProved]
          exact fun hi => hi.setProved
        · rw [Flags.Admits, flags, hst]
          exact congrArg some (Bool.eq_not.2 (Ne.symm hne))
        · rw [store_setProved]
          exact flags_setProved hst

theorem relays_propagation {seeds : List StatementId} {solved : Bool} :
    Relays handle label e (e.propagation ⟨solved, true⟩ t seeds).engine :=
  Propagation.drain_keeps (I := fun run => Relays handle label e run.engine) (.refl _)
    (fun run _ _ h _ => h.trans (relays_step solved run)) _

theorem relays_enter : Relays handle label e (e.enter t st).engine :=
  relays_addRecord.trans relays_propagation

theorem relays_enterContext {assumptions : List Statement} :
    Relays handle label e (e.enterContext t st assumptions).engine := by
  have hadded : Relays handle label e ((st :: assumptions).foldl (addRecord t) e) :=
    foldl_within fun _ _ _ => relays_addRecord
  exact hadded.trans (relays_propagation.trans relays_propagation)

end Engine

/-! ### Flags derived anew -/

namespace Store

variable {s s' : Store} {x z : StatementId} {st st' : Statement}

def announcement? (before s : Store) (x : StatementId) : Option Event :=
  match before.get? x, s.get? x with
  | some old, some new => if old.proved = new.proved then none else some (.proved x new.proved)
  | _, _ => none

/-- The changes of the flags of some statements lead from the flags before to those after. -/
theorem leads_changes {m : Flags} {l : List StatementId} (hg : s'.graph = s.graph) (hl : l.Nodup)
    (hin : ∀ x ∈ l, m x = s.flags x) (hout : ∀ x ∉ l, m x = s'.flags x) :
    m.Leads (l.filterMap (s.announcement? s')) s'.flags := by
  induction l generalizing m with
  | nil => exact funext fun x => hout x List.not_mem_nil
  | cons x rest ih =>
    obtain ⟨hx, hrest⟩ := List.nodup_cons.1 hl
    have hm := hin x List.mem_cons_self
    -- once the flag of the first is what it is after, the others can be taken on
    have hnext (m' : Flags) (hsame : ∀ y, y ≠ x → m' y = m y) (hnew : m' x = s'.flags x) :
        m'.Leads (rest.filterMap (s.announcement? s')) s'.flags := by
      apply ih hrest
      · intro y hy
        rw [hsame y fun heq => hx (heq ▸ hy)]
        exact hin y (List.mem_cons_of_mem _ hy)
      · intro y hy
        by_cases heq : y = x
        · rw [heq, hnew]
        · rw [hsame y heq]
          exact hout y fun h => (List.mem_cons.1 h).elim heq hy
    have hlive : (s'.get? x).map Statement.content = (s.get? x).map Statement.content :=
      congrFun hg x
    rw [flags] at hm hnext
    rw [List.filterMap_cons, announcement?]
    cases hold : s.get? x with
    | none =>
      rw [hold] at hm hlive
      refine hnext m (fun _ _ => rfl) ?_
      rw [hm, Option.map_eq_none_iff.1 hlive]
    | some old =>
      rw [hold] at hm hlive
      obtain ⟨new, hnew, -⟩ := Option.map_eq_some_iff.1 hlive
      rw [hnew] at hnext ⊢
      dsimp only
      by_cases hflag : old.proved = new.proved
      · rw [if_pos hflag]
        exact hnext m (fun _ _ => rfl) (hm.trans (congrArg some hflag))
      · rw [if_neg hflag]
        refine ⟨hm.trans (congrArg some (Bool.eq_not.2 hflag)), hnext _ (fun y hy => ?_) ?_⟩
        · exact Function.update_of_ne hy _ _
        · exact Function.update_self _ _ _

end Store

namespace Engine

open Store Removal

variable {handle : ListenerId} {label : String} {t : TransactionId} {e e' e'' : Engine}
  {R : StatementId → Prop} {x : StatementId} {st : Statement} {seeds : List StatementId}
  {α β : Type}

/-- Nobody is told anything, and only flags of a set are changed. -/
structure Confined (R : StatementId → Prop) (e e' : Engine) : Prop where
  unheard : Unheard e e'
  graph : e'.store.graph = e.store.graph
  index : e'.store.index = e.store.index
  indexed : e'.store.Indexed
  flags : ∀ x, ¬R x → e'.store.flags x = e.store.flags x

theorem Confined.refl (hi : e.store.Indexed) : Confined R e e :=
  ⟨⟨rfl, rfl⟩, rfl, rfl, hi, fun _ _ => rfl⟩

theorem Confined.setProved {flag : Bool} (h : Confined R e e') (hx : R x)
    (hst : e'.store.get? x = some st) : Confined R e (e'.setProved t x flag) := by
  have hstore : (e'.setProved t x flag).store = e'.store.setProved x flag := store_setProved
  refine ⟨h.unheard.trans unheard_setProved, ?_, ?_, ?_, ?_⟩
  · rw [hstore, graph_setProved]
    exact h.graph
  · rw [hstore, Store.setProved, hst]
    exact h.index
  · rw [hstore]
    exact h.indexed.setProved
  · intro y hy
    rw [hstore, flags_setProved hst, Function.update_of_ne fun heq : y = x => hy (heq ▸ hx)]
    exact h.flags y hy

theorem Confined.clearFlags {l : List StatementId} (h : Confined R e e') (hl : ∀ x ∈ l, R x) :
    Confined R e (l.foldl (clearFlag t) e') := by
  induction l generalizing e' with
  | nil => exact h
  | cons x rest ih =>
    refine ih ?_ fun y hy => hl y (List.mem_cons_of_mem _ hy)
    rw [clearFlag]
    split
    case isTrue hproved =>
      rw [isProved, Option.any_eq_true] at hproved
      obtain ⟨st, hst, -⟩ := hproved
      exact h.setProved (hl x List.mem_cons_self) hst
    case isFalse => exact h

/-- A propagation that nobody hears of stays in a set that has whatever its members support. -/
theorem Confined.drain {run : Propagation} (hR : ∀ x, R x → ∀ y ∈ e.store.supported x, R y)
    (h : Confined R e run.engine) (hqueue : ∀ x ∈ run.queue, R x) (steps : Nat) :
    Confined R e (run.drain ⟨true, false⟩ t steps).engine := by
  induction steps generalizing run with
  | zero => exact h
  | succ steps ih =>
    rw [Propagation.drain]
    split
    · exact h
    case h_2 x rest hq =>
      rw [hq] at hqueue
      obtain ⟨hx, hrest⟩ := List.forall_mem_cons.1 hqueue
      have hstep : Confined R e (run.step ⟨true, false⟩ t).engine := by
        simp only [Propagation.step, hq]
        split
        · exact h
        case h_2 st hst =>
          split
          · exact h
          · exact h.setProved hx hst
      refine ih hstep fun y hy => ?_
      rcases Propagation.mem_queue_step hq hy with hy | hy
      · exact hrest y hy
      · have hy := hy.mem_supported h.indexed
        rw [supported_congr h.graph h.index] at hy
        exact hR x hx y hy

theorem announceChanges_eq {before : Store} (l : List StatementId) :
    l.foldl (announceChange t before) e =
      (l.filterMap (before.announcement? e.store)).foldl (notify · t ·) e := by
  induction l generalizing e with
  | nil => rfl
  | cons x rest ih =>
    rw [List.foldl_cons, ih, store_announceChange, List.filterMap_cons, announceChange,
      announcement?]
    cases before.get? x with
    | none => rfl
    | some old =>
      cases e.store.get? x with
      | none => rfl
      | some new =>
        dsimp only
        split <;> rfl

theorem confined_derivation (hi : e.store.Indexed) :
    Confined (· ∈ e.store.region seeds) e (e.derivation t seeds).engine := by
  have hcleared : Confined (· ∈ e.store.region seeds) e
      ((e.store.region seeds).toList.foldl (clearFlag t) e) :=
    (Confined.refl hi).clearFlags fun _ hx => IdSet.mem_toList.1 hx
  refine hcleared.drain (fun x hx y hy => region_supported hi hx hy) (fun x hx => ?_) _
  exact mem_dependencySorted.1 (Walk.mem_unseen.1 hx).1

theorem relays_rederive : Relays handle label e (e.rederive t seeds).2 := by
  apply relays_of_indexed
  intro hi
  have hderived : Confined (· ∈ e.store.region seeds) e (e.derivation t seeds).engine :=
    confined_derivation hi
  rw [rederive_eq, announceChanges_eq]
  apply relays_notifyAll _ hderived.unheard fun _ => hderived.indexed
  intro _
  apply leads_changes hderived.graph IdSet.nodup_toList
  · exact fun _ _ => rfl
  · exact fun x hx => (hderived.flags x fun h => hx (IdSet.mem_toList.2 h)).symm

end Engine

end StatementGraph
