import StatementGraph.Proofs.Operation
import StatementGraph.Proofs.Pairing

namespace StatementGraph

def Op.makes : Op → Bool
  | createRoot .. | declare .. | specialize .. | openNested .. | openUnfolding .. | copy .. => true
  | _ => false

namespace Engine

open Store

variable {t : TransactionId} {S e e' : Engine} {x : StatementId} {top : Statement}
  {assumptions : List Statement} {α β : Type} {m : Action α} {k : α → Action β}
  {Q : Engine → α → Prop} {R : Engine → β → Prop}

/-- Statements with fresh ids have been made since an operation started. -/
structure Enlarged (t : TransactionId) (S e : Engine) : Prop where
  orderly : e.Orderly
  evolves : Evolves t S e
  past : ∀ x, S.store.allocator.Past x → e.store.allocator.Past x
  live : ∀ x c, e.store.graph x = some c → e.store.allocator.Past x
  grown : S.store.graph.Sub e.store.graph
  new : ∀ x c, e.store.graph x = some c →
    S.store.graph x = some c ∨ ¬S.store.allocator.Past x
  kin : ∀ x c, e.store.graph x = some c → ¬S.store.allocator.Past x →
    ∀ y ∈ c.assumptions, ¬S.store.allocator.Past y
  names : ∀ x, S.store.allocator.Past x → e.store.nameOf x = S.store.nameOf x
  authorities : e.store.authorities = S.store.authorities
  paired : e.store.graph.Paired
  owned : S.store.graph.Owned → e.store.graph.Owned
  raises : S.store.Raises e.store

/-- A fresh id that is not in use yet. -/
structure Spare (S e : Engine) (x : StatementId) : Prop where
  new : ¬S.store.allocator.Past x
  past : e.store.allocator.Past x
  dead : e.store.graph x = none

theorem Enlarged.start (ho : S.Orderly)
    (hlive : ∀ x c, S.store.graph x = some c → S.store.allocator.Past x)
    (hpaired : S.store.graph.Paired) : Enlarged t S S where
  orderly := ho
  evolves := .refl t S
  past _ hx := hx
  live := hlive
  grown := .refl _
  new _ _ hx := Or.inl hx
  kin x c hx hnew := absurd (hlive x c hx) hnew
  names _ _ := rfl
  authorities := rfl
  paired := hpaired
  owned := id
  raises := .refl _

/-- A fresh id comes to be in use with the assumptions that its statement lists. -/
theorem Enlarged.entered (h : Enlarged t S e) (hh : top.Heads assumptions)
    (hspare : ∀ st ∈ top :: assumptions, Spare S e st.id)
    (howner : e.store.graph.Hosts top.owner)
    (he : Entered t top assumptions e e') : Enlarged t S e' ∧ e.store.graph.Sub e'.store.graph := by
  have hdead (st : Statement) (hst : st ∈ top :: assumptions) := (hspare st hst).dead
  have hcases (y : StatementId) (c : Content) (hy : e'.store.graph y = some c) :
      (∃ st ∈ top :: assumptions, st.id = y ∧ st.content = c) ∨ e.store.graph y = some c := by
    rw [he.graph] at hy
    exact Graph.setAll_cases hy
  have hsub : e.store.graph.Sub e'.store.graph := by
    rw [he.graph]
    exact Graph.Sub.setAll_new hdead
  refine ⟨⟨h.orderly.changes he.changes, h.evolves.trans he.evolves, fun y hy => ?_,
    fun y c hy => ?_, h.grown.trans hsub, fun y c hy => ?_, fun y c hy hnew z hz => ?_,
    fun y hy => ?_, he.authorities.trans h.authorities, ?_, fun hS => ?_,
    h.raises.trans (he.raises h.orderly.filed.indexed hdead)⟩, hsub⟩
  · rw [he.allocator]
    exact h.past y hy
  · rw [he.allocator]
    rcases hcases y c hy with ⟨st, hst, rfl, -⟩ | hy
    · exact (hspare st hst).past
    · exact h.live y c hy
  · rcases hcases y c hy with ⟨st, hst, rfl, -⟩ | hy
    · exact Or.inr (hspare st hst).new
    · exact h.new y c hy
  · rcases hcases y c hy with ⟨st, hst, rfl, rfl⟩ | hy
    · rcases List.mem_cons.1 hst with rfl | hst
      · rw [Statement.assumptions_content, hh.listed] at hz
        obtain ⟨a, ha, rfl⟩ := List.mem_map.1 hz
        exact (hspare a (List.mem_cons_of_mem _ ha)).new
      · exact absurd hz (hh.isAssumption hst).lists_nothing
    · exact h.kin y c hy hnew z hz
  · exact (he.names hdead y).trans (h.names y hy)
  · rw [he.graph]
    exact h.paired.enter hh hdead
  · rw [he.graph]
    exact (h.owned hS).enter hh hdead howner

/-- A statement with a fresh id takes a name that is free. -/
theorem Enlarged.rename {st : Statement} {name : Identifier} (h : Enlarged t S e)
    (hst : e.store.get? x = some st) (hnew : ¬S.store.allocator.Past x)
    (hfree : e.store.lookupName st.owner name = none) :
    Enlarged t S (e.put t { st with identifier := some name }) := by
  have hid := h.orderly.filed.indexed.keyed x st hst
  obtain ⟨hgraph, hallocator, hauthorities, hnames⟩ :=
    @put_name_fields t e x st (some name) hst hid
  have hother (y : StatementId) (hy : e.store.lookupName st.owner name = some y) : y = st.id := by
    rw [hfree] at hy
    cases hy
  have hchange : Change t e (e.put t { st with identifier := some name }) := by
    apply Change.write { st with identifier := some name } (h.orderly.apart x st hst)
    intro name' y hname' hy
    cases hname'
    exact hother y hy
  have hevolves : Evolves t e (e.put t { st with identifier := some name }) :=
    evolves_put fun hn => hn.write_named rfl hother
  have hraises : e.store.Raises (e.put t { st with identifier := some name }).store := by
    rw [store_put]
    exact raises_rename h.orderly.filed.indexed hst
  refine ⟨h.orderly.change hchange, h.evolves.trans hevolves, ?_, ?_, ?_, ?_, ?_, fun y hy => ?_,
    hauthorities.trans h.authorities, ?_, ?_, h.raises.trans hraises⟩
  · rw [hallocator]
    exact h.past
  · rw [hallocator, hgraph]
    exact h.live
  · rw [hgraph]
    exact h.grown
  · rw [hgraph]
    exact h.new
  · rw [hgraph]
    exact h.kin
  · have hne : y ≠ x := by
      rintro rfl
      exact hnew hy
    exact (hnames y hne).trans (h.names y hy)
  · rw [hgraph]
    exact h.paired
  · rw [hgraph]
    exact h.owned

/-! ### Actions that make statements -/

/-- An action that makes statements under fresh ids and nothing else. -/
def Builds (t : TransactionId) (S e : Engine) (m : Action α) (Q : Engine → α → Prop) : Prop :=
  Enlarged t S e →
    (∀ a e', m.perform e = (.ok a, e') →
      Enlarged t S e' ∧ e.store.graph.Sub e'.store.graph ∧ Q e' a) ∧
    ∀ f e', m.perform e = (.error f, e') → f = exhausted ∨ Enlarged t S e'

theorem builds_pure {a : α} (hq : Q e a) : Builds t S e (pure a) Q := by
  refine fun h => ⟨fun a' e' hrun => ?_, fun f e' hrun => ?_⟩
  · cases hrun
    exact ⟨h, .refl _, hq⟩
  · cases hrun

theorem builds_and (h : Builds t S e m fun _ _ => True)
    (hq : ∀ a e', m.perform e = (.ok a, e') → Q e' a) : Builds t S e m Q := by
  intro hs
  obtain ⟨hok, herror⟩ := h hs
  refine ⟨fun a e' hrun => ?_, herror⟩
  obtain ⟨hs', hsub, -⟩ := hok a e' hrun
  exact ⟨hs', hsub, hq a e' hrun⟩

theorem builds_throw {f : Failure} : Builds t S e (throw f) Q := by
  refine fun h => ⟨fun a e' hrun => ?_, fun f' e' hrun => ?_⟩
  · cases hrun
  · cases hrun
    exact Or.inr h

theorem builds_bind (h : Builds t S e m Q)
    (hk : ∀ a e', Enlarged t S e' → e.store.graph.Sub e'.store.graph → Q e' a →
      Builds t S e' (k a) R) : Builds t S e (m >>= k) R := by
  intro hs
  obtain ⟨hok, herror⟩ := h hs
  rw [perform_bind]
  cases hm : m.perform e with
  | mk r e' =>
    cases r with
    | ok a =>
      obtain ⟨hs', hsub, hq⟩ := hok a e' hm
      obtain ⟨hok', herror'⟩ := hk a e' hs' hsub hq hs'
      refine ⟨fun b e'' hrun => ?_, herror'⟩
      obtain ⟨hs'', hsub', hr⟩ := hok' b e'' hrun
      exact ⟨hs'', hsub.trans hsub', hr⟩
    | error f =>
      refine ⟨fun a e'' hrun => ?_, fun f' e'' hrun => ?_⟩
      · cases hrun
      · cases hrun
        exact herror f e' hm

theorem builds_get_bind {k : Engine → Action β} (h : Builds t S e (k e) R) :
    Builds t S e (get >>= k) R := h

theorem builds_lift_bind {y : Except Failure α} (hk : ∀ a, y = .ok a → Builds t S e (k a) R) :
    Builds t S e (liftM y >>= k) R := by
  cases y with
  | error f => exact builds_throw
  | ok a => exact hk a rfl

theorem builds_ensureOpen : Builds t S e (ensureOpen t) fun e' _ => e' = e := by
  apply builds_get_bind
  split
  · exact builds_pure rfl
  · exact builds_throw

theorem builds_ensureOpen_bind {k : Unit → Action β} (hk : Builds t S e (k ()) R) :
    Builds t S e (ensureOpen t >>= k) R := by
  apply builds_bind builds_ensureOpen
  rintro _ e' - - rfl
  exact hk

theorem Enlarged.counter {a : Allocator} (h : Enlarged t S e)
    (ho : Engine.Orderly { e with store := { e.store with allocator := a } })
    (hpast : ∀ y, e.store.allocator.Past y → a.Past y) :
    Enlarged t S { e with store := { e.store with allocator := a } } :=
  { h with
    orderly := ho
    evolves := h.evolves.trans (evolves_of_eq rfl rfl rfl rfl rfl rfl)
    past := fun y hy => hpast y (h.past y hy)
    live := fun y c hy => hpast y (h.live y c hy)
    raises := h.raises.trans
      (raises_of_sub h.orderly.filed.indexed ho.filed.indexed (.refl _) fun _ => .rfl) }

/-- An allocated id can be used, and differs from those that could be. -/
theorem builds_allocate : Builds t S e allocate fun e' y =>
    Spare S e' y ∧ ∀ x, Spare S e x → Spare S e' x ∧ x ≠ y := by
  intro h
  have ho := h.orderly.changes (moves_allocate (t := t) h.orderly)
  rw [allocate, perform_get_bind, Store.allocate] at ho ⊢
  cases htake : e.store.allocator.take with
  | mk x? a =>
    rw [htake] at ho
    cases x? with
    | none =>
      refine ⟨fun y e' hrun => ?_, fun f e' hrun => ?_⟩
      · cases hrun
      · cases hrun
        exact Or.inl rfl
    | some y =>
      obtain ⟨hpast, hy⟩ := Allocator.take_some htake
      have hfresh (z : StatementId) (hz : e.store.allocator.Past z) : z ≠ y := by
        rintro rfl
        exact Nat.lt_irrefl _ (hpast z hz).1
      refine ⟨fun y' e' hrun => ?_, fun f e' hrun => ?_⟩
      · cases hrun
        refine ⟨h.counter ho fun z hz => (hpast z hz).2, .refl _, ⟨fun hold => ?_, hy, ?_⟩,
          fun x hx => ?_⟩
        · exact hfresh y (h.past y hold) rfl
        · apply Option.eq_none_iff_forall_ne_some.2
          intro c hc
          exact hfresh y (h.live y c hc) rfl
        · exact ⟨⟨hx.new, (hpast x hx.past).2, hx.dead⟩, hfresh x hx.past⟩
      · cases hrun

theorem builds_allocateMany (n : Nat) : Builds t S e (allocateMany n) fun e' ids =>
    (∀ y ∈ ids, Spare S e' y) ∧ ∀ x, Spare S e x → Spare S e' x ∧ x ∉ ids := by
  induction n generalizing e with
  | zero => exact builds_pure ⟨fun y hy => (by cases hy), fun x hx => ⟨hx, List.not_mem_nil⟩⟩
  | succ n ih =>
    apply builds_bind builds_allocate
    rintro y e₁ - - ⟨hy, hkept⟩
    apply builds_bind ih
    rintro ids e₂ - - ⟨hids, hkept'⟩
    obtain ⟨hy', hout⟩ := hkept' y hy
    refine builds_pure ⟨fun z hz => ?_, fun x hx => ?_⟩
    · rcases List.mem_cons.1 hz with rfl | hz
      · exact hy'
      · exact hids z hz
    · obtain ⟨hx, hne⟩ := hkept x hx
      obtain ⟨hx, hout'⟩ := hkept' x hx
      refine ⟨hx, fun hmem => ?_⟩
      rcases List.mem_cons.1 hmem with hmem | hmem
      · exact hne hmem
      · exact hout' hmem

theorem builds_inserted {m : Action Unit} {ids : List StatementId}
    (h : Inserted t x ids e (m.perform e)) (hx : Spare S e x) (hids : ∀ y ∈ ids, Spare S e y) :
    Builds t S e m fun _ _ => True := by
  intro hs
  generalize m.perform e = r at h
  cases h with
  | refused f =>
    refine ⟨fun a e' hrun => ?_, fun f' e' hrun => ?_⟩
    · cases hrun
    · cases hrun
      exact Or.inr hs
  | @made top assumptions e₁ hid hmem hh howner hentered =>
    have hspare (st : Statement) (hst : st ∈ top :: assumptions) : Spare S e st.id := by
      rcases List.mem_cons.1 hst with rfl | hst
      · exact hid ▸ hx
      · exact hids st.id (hmem st hst)
    obtain ⟨hs', hsub⟩ := hs.entered hh hspare howner hentered
    refine ⟨fun a e' hrun => ?_, fun f e' hrun => ?_⟩
    · cases hrun
      exact ⟨hs', hsub, trivial⟩
    · cases hrun

theorem builds_insertContext {owner : Option StatementId} {term : Term} {kind : ContextKind}
    (hx : Spare S e x) (howner : e.store.graph.Hosts owner) :
    Builds t S e (insertContext t owner term kind x none) fun e' _ =>
      e'.store.graph.IsContext x := by
  apply builds_get_bind
  apply builds_lift_bind
  intro opened _
  apply builds_bind (builds_allocateMany _)
  rintro ids e' - hsub ⟨hids, hkept⟩
  obtain ⟨hx, hout⟩ := hkept x hx
  have hh : (contextRecords owner term kind x opened.1 opened.2 ids).1.Heads _ :=
    heads_contextRecords hout
  refine builds_get_bind
    (builds_and (builds_inserted (inserted_contextRecords hout (howner.mono hsub)) hx hids) ?_)
  intro a e'' hrun
  obtain ⟨-, rfl⟩ := await_performs.1 hrun
  exact ⟨_, _, (congrFun (entered_enterContext hh).graph x).trans (Graph.setAll_head hh), rfl⟩

theorem builds_newContext {owner : Option StatementId} {term : Term} {kind : ContextKind}
    (howner : e.store.graph.Hosts owner) : Builds t S e (do
      let id ← allocate
      insertContext t owner term kind id none
      return id) fun _ _ => True := by
  apply builds_bind builds_allocate
  rintro y e' - hsub ⟨hy, -⟩
  apply builds_bind (builds_insertContext hy (howner.mono hsub))
  intro _ e'' _ _ _
  exact builds_pure trivial

theorem builds_createRoot {term : Term} : Builds t S e (createRoot t term) fun _ _ => True :=
  builds_ensureOpen_bind <| builds_get_bind <| builds_lift_bind fun _ _ =>
    builds_newContext Graph.hosts_none

theorem builds_openContext {context : StatementId} {term : Term} {kind : ContextKind} :
    Builds t S e (openContext t context term kind) fun _ _ => True :=
  builds_ensureOpen_bind <| builds_get_bind <| builds_lift_bind fun _ hcontext => builds_get_bind <|
    builds_lift_bind fun _ _ => builds_newContext (isContext_of_require hcontext).hosts

theorem builds_newStatement {m : StatementId → Action Unit} {o : StatementId}
    (hm : ∀ e y, e.store.graph.IsContext o → Inserted t y [] e ((m y).perform e))
    (hcontext : e.store.graph.IsContext o) : Builds t S e (do
      let id ← allocate
      m id
      return id) fun _ _ => True := by
  apply builds_bind builds_allocate
  rintro y e' - hsub ⟨hy, -⟩
  apply builds_bind (builds_inserted (hm e' y (hcontext.mono hsub)) hy fun z hz => by cases hz)
  intro _ e'' _ _ _
  exact builds_pure trivial

theorem builds_declare {context : StatementId} {value : Term} :
    Builds t S e (declare t context value) fun _ _ => True :=
  builds_ensureOpen_bind <| builds_get_bind <| builds_lift_bind fun _ hcontext =>
    builds_newStatement (fun _ _ => inserted_declaration) (isContext_of_require hcontext)

theorem builds_specialize {context general : StatementId} {argument : Term} :
    Builds t S e (specialize t context general argument) fun _ _ => True :=
  builds_ensureOpen_bind <| builds_get_bind <| builds_lift_bind fun _ hcontext =>
    builds_newStatement (fun _ _ => inserted_specialization) (isContext_of_require hcontext)

end Engine

namespace Copying

open Engine

variable {t : TransactionId} {S e : Engine} {exclude : IdSet} {α β : Type} {m : Copying α}
  {k : α → Copying β} {Q : Engine → α → Prop} {R : Engine → β → Prop}

def Copies (t : TransactionId) (S e : Engine) (m : Copying α) (Q : Engine → α → Prop) : Prop :=
  ∀ map, Builds t S e (m.asAction map) fun e' p => Q e' p.1

theorem copies_pure {a : α} (hq : Q e a) : Copies t S e (pure a) Q := fun _ => builds_pure hq

theorem copies_throw {f : Failure} : Copies t S e (throw f) Q := fun _ => builds_throw

theorem copies_bind (h : Copies t S e m Q)
    (hk : ∀ a e', Enlarged t S e' → e.store.graph.Sub e'.store.graph → Q e' a →
      Copies t S e' (k a) R) : Copies t S e (m >>= k) R := by
  intro map
  rw [asAction_bind]
  exact builds_bind (h map) fun p e' hs hsub hq => hk p.1 e' hs hsub hq p.2

theorem copies_get_bind {k : CopyState → Copying β}
    (h : ∀ map, Copies t S e (k { engine := e, map }) R) : Copies t S e (get >>= k) R :=
  fun map => h map map

theorem copies_store_bind {k : Store → Copying β} (h : Copies t S e (k e.store) R) :
    Copies t S e (store >>= k) R := h

theorem copies_lift_bind {y : Except Failure α} (h : ∀ a, y = .ok a → Copies t S e (k a) R) :
    Copies t S e (liftM y >>= k) R := by
  cases y with
  | error f => exact copies_throw
  | ok a => exact h a rfl

theorem copies_act {action : Action α} (h : Builds t S e action Q) :
    Copies t S e (act action) Q := by
  intro map
  rw [asAction_act]
  exact builds_bind h fun a e' _ _ hq => builds_pure hq

theorem copies_forM {l : List α} {f : α → Copying Unit}
    (hf : ∀ a ∈ l, ∀ e', e.store.graph.Sub e'.store.graph →
      Copies t S e' (f a) fun _ _ => True) :
    Copies t S e (l.forM f) fun _ _ => True := by
  induction l generalizing e with
  | nil => exact copies_pure trivial
  | cons a rest ih =>
    apply copies_bind (hf a List.mem_cons_self e (.refl _))
    intro _ e' _ hsub _
    exact ih fun b hb e'' hsub' => hf b (List.mem_cons_of_mem _ hb) e'' (hsub.trans hsub')

theorem copies_modify {f : CopyState → CopyState}
    (h : ∀ map, Enlarged t S e → Enlarged t S (f { engine := e, map }).engine ∧
      e.store.graph.Sub (f { engine := e, map }).engine.store.graph) :
    Copies t S e (modify f) fun _ _ => True := by
  refine fun map hs => ⟨fun a e' hrun => ?_, fun f e' hrun => ?_⟩
  · cases hrun
    obtain ⟨hs', hsub⟩ := h map hs
    exact ⟨hs', hsub, trivial⟩
  · cases hrun

theorem copies_note {source copy : StatementId} :
    Copies t S e (note source copy) fun _ _ => True := copies_modify fun _ hs => ⟨hs, .refl _⟩

theorem copies_settle {source copy : StatementId} (hnew : ¬S.store.allocator.Past copy) :
    Copies t S e (settle t exclude source copy) fun _ _ => True := by
  apply copies_bind copies_note
  intro _ e' _ _ _
  apply copies_modify
  intro map hs
  split
  · exact ⟨hs, .refl _⟩
  · split
    case h_1 name st _ hst =>
      split
      · exact ⟨hs, .refl _⟩
      · rename_i hfree
        have hid := hs.orderly.filed.indexed.keyed copy st hst
        have hgraph := (@put_name_fields t e' copy st (some name) hst hid).1
        refine ⟨hs.rename hst hnew (Option.not_isSome_iff_eq_none.1 hfree), ?_⟩
        rw [hgraph]
        exact .refl _
    case h_2 => exact ⟨hs, .refl _⟩

theorem copies_copyShell {into : StatementId} {term : Term} {data : ContextData}
    (hinto : e.store.graph.IsContext into) :
    Copies t S e (copyShell t exclude into term data) fun e' id =>
      ¬S.store.allocator.Past id ∧ e'.store.graph.IsContext id := by
  apply copies_get_bind
  intro map
  apply copies_lift_bind
  intro _ _
  apply copies_bind (copies_act builds_allocate)
  rintro id e₁ - hsub ⟨hid, -⟩
  apply copies_bind (copies_act (builds_insertContext hid (hinto.mono hsub).hosts))
  intro _ e₂ hs _ hcontext
  apply copies_store_bind
  apply copies_lift_bind
  intro copied hcopied
  have hnew (y : StatementId) (hy : y ∈ copied.assumptions) : ¬S.store.allocator.Past y := by
    apply hs.kin id copied.content (Store.graph_of_get? (Store.require_eq_ok.1 hcopied)) hid.new
    rw [Statement.assumptions_content]
    exact hy
  apply copies_bind
  · apply copies_forM
    intro pair hpair e _
    exact copies_settle (hnew pair.2 (List.of_mem_zip hpair).2)
  · intro _ e₃ _ hsub' _
    exact copies_pure ⟨hid.new, hcontext.mono hsub'⟩

theorem copies_copyAll (depth : Nat) (outer : List StatementId) {into : StatementId}
    (sources : List StatementId) (hinto : e.store.graph.IsContext into) :
    Copies t S e (copyAll t exclude depth outer into sources) fun _ _ => True := by
  induction depth generalizing e outer into sources with
  | zero => exact copies_pure trivial
  | succ depth ih =>
    apply copies_forM
    intro source _ e hsub
    replace hinto := hinto.mono hsub
    apply copies_get_bind
    intro map
    dsimp only
    have hstatement {m : StatementId → Action Unit}
        (hm : ∀ e y, e.store.graph.IsContext into → Inserted t y [] e ((m y).perform e)) :
        Copies t S e (do
          let id ← act Engine.allocate
          act (m id)
          settle t exclude source id) fun _ _ => True := by
      apply copies_bind (copies_act builds_allocate)
      rintro id e₁ - hsub ⟨hid, -⟩
      apply copies_bind (copies_act (builds_inserted (hm e₁ id (hinto.mono hsub)) hid
        fun z hz => by cases hz))
      intro _ e₂ _ _ _
      exact copies_settle hid.new
    split
    · exact copies_note
    · apply copies_lift_bind
      intro st _
      split
      · exact copies_throw
      · exact hstatement fun _ _ => inserted_declaration
      · exact hstatement fun _ _ => inserted_specialization
      · split
        · exact copies_throw
        · apply copies_bind (copies_copyShell hinto)
          rintro id e₁ - - ⟨hid, hcontext⟩
          apply copies_store_bind
          apply copies_lift_bind
          intro contents _
          apply copies_bind (copies_settle hid)
          intro _ e₂ _ hsub _
          exact ih _ _ (hcontext.mono hsub)

theorem copies_copyList {target : StatementId} {sources : List StatementId} :
    Copies t S e (copyList t target sources exclude) fun _ _ => True := by
  apply copies_bind (copies_act builds_ensureOpen)
  intro _ e₁ _ _ _
  apply copies_store_bind
  apply copies_lift_bind
  intro _ htarget
  apply copies_bind (copies_copyAll _ _ _ (isContext_of_require htarget))
  intro _ e₂ _ _ _
  apply copies_get_bind
  intro map
  cases copies map sources with
  | error f => exact copies_throw
  | ok ids => exact copies_pure trivial

end Copying

namespace Engine

variable {t : TransactionId} {S e : Engine} {α : Type}

theorem Enlarged.effect {m : Action α} {Q : Engine → α → Prop} (h : Enlarged t S e)
    (hm : Builds t S e m Q) (hlast : (m.effect e).1 ≠ .error exhausted) :
    Enlarged t S (m.effect e).2 := by
  obtain ⟨hok, herror⟩ := hm h
  rw [Action.effect] at hlast ⊢
  cases hrun : m.perform e with
  | mk r e' =>
    rw [hrun] at hlast
    cases r with
    | ok a => exact (hok a e' hrun).1
    | error f =>
      refine (herror f e' hrun).resolve_left ?_
      rintro rfl
      exact hlast rfl

theorem Enlarged.copy {target : StatementId} {sources : List StatementId} {map : Correspondence}
    {exclude : IdSet} (h : Enlarged t S e)
    (hlast : (e.copy t target sources map exclude).1 ≠ .error exhausted) :
    Enlarged t S (e.copy t target sources map exclude).2.2 := by
  have hcopies : Copying.Copies t S e (Copying.copyList t target sources exclude) _ :=
    Copying.copies_copyList
  obtain ⟨hok, herror⟩ := hcopies map h
  rw [Copying.perform_asAction] at hok herror
  rw [Engine.copy] at hlast ⊢
  cases hrun : (Copying.copyList t target sources exclude).run { engine := e, map } with
  | mk r state =>
    rw [hrun] at hok herror hlast
    cases r with
    | ok copies => exact (hok _ _ rfl).1
    | error f =>
      refine (herror f _ rfl).resolve_left ?_
      rintro rfl
      exact hlast rfl

theorem Enlarged.run {op : Op} (h : Enlarged t S e) (hclient : op.client? = some t)
    (hmakes : op.makes = true) (hlast : (op.run e).1 ≠ .error exhausted) :
    Enlarged t S (op.run e).2 := by
  cases op with
  | createRoot => cases hclient; exact h.effect builds_createRoot hlast
  | declare => cases hclient; exact h.effect builds_declare hlast
  | specialize => cases hclient; exact h.effect builds_specialize hlast
  | openNested => cases hclient; exact h.effect builds_openContext hlast
  | openUnfolding => cases hclient; exact h.effect builds_openContext hlast
  | copy =>
    cases hclient
    refine h.copy fun hfail => hlast ?_
    rw [Op.run, hfail]
    rfl
  | _ => cases hmakes

end Engine

end StatementGraph
