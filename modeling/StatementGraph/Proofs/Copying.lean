import StatementGraph.Mutation.Copy
import StatementGraph.Proofs.Construction
import StatementGraph.Proofs.Labels

namespace StatementGraph

open Engine Store

theorem Store.Maintained.allows_carry {D : Discipline} {H : Graph} {s : Store} {term : Term}
    (hm : s.Maintained H) (map : Correspondence) (h : D.Allows H term) :
    D.Allows H (s.carry map term) := by
  refine h.mapVars fun x image hx => ?_
  obtain ⟨copy, -, hcopy⟩ := Option.bind_eq_some_iff.1 hx
  obtain ⟨st, hst, rfl⟩ := Option.map_eq_some_iff.1 hcopy
  refine ⟨fun y type hy => ?_, Or.inr rfl, rfl⟩
  rw [Statement.toVar, Term.occurrences, List.mem_singleton] at hy
  cases hy
  have hid := hm.indexed.keyed copy st hst
  subst hid
  exact D.own (hm.sub st.id st.content (Store.graph_of_get? hst))

namespace Copying

def outcome {α : Type} :
    Except Failure α × CopyState → Except Failure (α × Correspondence) × Engine
  | (.ok a, state) => (.ok (a, state.map), state.engine)
  | (.error f, state) => (.error f, state.engine)

def asAction {α : Type} (m : Copying α) (map : Correspondence) : Action (α × Correspondence) :=
  fun e => outcome (m.run { engine := e, map })

variable {α β : Type} {D : Discipline} {t : TransactionId} {H : Graph} {e : Engine}
  {m : Copying α} {k : α → Copying β} {Q : Graph → Engine → α → Prop}
  {R : Graph → Engine → β → Prop} {exclude : IdSet}

theorem perform_asAction (m : Copying α) (map : Correspondence) (e : Engine) :
    (m.asAction map).perform e = outcome (m.run { engine := e, map }) := rfl

theorem run_bind (m : Copying α) (k : α → Copying β) (state : CopyState) :
    (m >>= k).run state = match m.run state with
      | (.ok a, state') => (k a).run state'
      | (.error f, state') => (.error f, state') := by
  change (match m.run state with | (r, state') => ExceptT.bindCont k r state') = _
  cases m.run state with
  | mk r state' => cases r <;> rfl

theorem asAction_bind (m : Copying α) (k : α → Copying β) (map : Correspondence) :
    (m >>= k).asAction map = m.asAction map >>= fun p => (k p.1).asAction p.2 := by
  funext e
  change ((m >>= k).asAction map).perform e = Action.perform _ e
  rw [perform_bind, perform_asAction, perform_asAction, run_bind]
  cases m.run { engine := e, map } with
  | mk r state => cases r <;> rfl

theorem asAction_act (action : Action α) (map : Correspondence) :
    (act action).asAction map = action >>= fun a => pure (a, map) := by
  funext e
  change outcome ((action.perform e).1, { engine := (action.perform e).2, map }) =
    Action.perform _ e
  rw [perform_bind]
  cases action.perform e with
  | mk r e' => cases r <;> rfl

/-- A step of a copy only adds to the graph, whatever was copied before. -/
def Extends (D : Discipline) (t : TransactionId) (H : Graph) (e : Engine) (m : Copying α)
    (Q : Graph → Engine → α → Prop) : Prop :=
  ∀ map, Grows D t H e (m.asAction map) fun H' e' p => Q H' e' p.1

theorem Extends.kept {P : Graph → Engine → α → Prop} {x : StatementId} (h : Extends D t H e m P)
    (hctx : e.store.graph.IsContext x) :
    Extends D t H e m fun _ e' _ => e'.store.graph.IsContext x :=
  fun map => (h map).imp fun _ _ _ hg _ => hctx.mono hg.kept

theorem extends_pure {a : α} (hs : Sound D t H e) (hq : Q H e a) : Extends D t H e (pure a) Q :=
  fun _ => grows_pure hs hq

theorem extends_throw (hs : Sound D t H e) {f : Failure} (hf : f.breakdown? = none) :
    Extends D t H e (throw f) Q :=
  fun _ => grows_throw hs hf

theorem extends_bind (h : Extends D t H e m Q)
    (hk : ∀ H' e' a, Sound D t H' e' → Grown t H e H' e' → Q H' e' a →
      Extends D t H' e' (k a) R) : Extends D t H e (m >>= k) R := by
  intro map
  rw [asAction_bind]
  exact grows_bind (h map) fun H' e' p hs hg hq => hk H' e' p.1 hs hg hq p.2

theorem extends_get_bind {k : CopyState → Copying β}
    (h : ∀ map, Extends D t H e (k { engine := e, map }) R) : Extends D t H e (get >>= k) R :=
  fun map => h map map

theorem extends_store_bind {k : Store → Copying β} (h : Extends D t H e (k e.store) R) :
    Extends D t H e (store >>= k) R := h

theorem extends_lift {x : Except Failure α} (hs : Sound D t H e) (hx : Answered x) :
    Extends D t H e (liftM x) fun H' e' a => H' = H ∧ e' = e ∧ x = .ok a := by
  cases x with
  | error f => exact extends_throw hs (hx f rfl)
  | ok a => exact extends_pure hs ⟨rfl, rfl, rfl⟩

theorem extends_lift_bind {x : Except Failure α} (hs : Sound D t H e) (hx : Answered x)
    (h : ∀ a, x = .ok a → Extends D t H e (k a) R) : Extends D t H e (liftM x >>= k) R := by
  refine extends_bind (extends_lift hs hx) ?_
  rintro H' e' a - - ⟨rfl, rfl, hx⟩
  exact h a hx

theorem extends_act {action : Action α} (h : Grows D t H e action Q) :
    Extends D t H e (act action) Q := by
  intro map
  rw [asAction_act]
  exact grows_bind h fun H' e' a hs _ hq => grows_pure hs hq

theorem extends_forM {l : List α} {f : α → Copying Unit} (I : Graph → Engine → Prop)
    (hs : Sound D t H e) (hI : I H e)
    (hf : ∀ a ∈ l, ∀ H e, Sound D t H e → I H e → Extends D t H e (f a) fun H' e' _ => I H' e') :
    Extends D t H e (l.forM f) fun H' e' _ => I H' e' := by
  induction l generalizing H e with
  | nil => exact extends_pure hs hI
  | cons a rest ih =>
    refine extends_bind (hf a List.mem_cons_self H e hs hI) fun H' e' _ hs' _ hI' => ?_
    exact ih hs' hI' fun b hb => hf b (List.mem_cons_of_mem _ hb)

theorem extends_modify {f : CopyState → CopyState}
    (h : ∀ map, Sound D t H (f { engine := e, map }).engine ∧
      Grown t H e H (f { engine := e, map }).engine) :
    Extends D t H e (modify f) fun _ _ _ => True := by
  refine fun map => ⟨fun a e' hrun => ?_, fun f e' hrun => by cases hrun⟩
  cases hrun
  exact ⟨H, (h map).1, (h map).2, trivial⟩

theorem extends_note {source copy : StatementId} (hs : Sound D t H e) :
    Extends D t H e (note source copy) fun _ _ _ => True :=
  extends_modify fun _ => ⟨hs, .refl t H e⟩

theorem run_copyName {state : CopyState} {source copy : StatementId}
    (hs : Sound D t H state.engine) :
    ∃ e', (copyName t exclude source copy).run state = (.ok (), { state with engine := e' }) ∧
      Sound D t H e' ∧ Grown t H state.engine H e' := by
  have hsame : Sound D t H state.engine ∧ Grown t H state.engine H state.engine :=
    ⟨hs, .refl t H state.engine⟩
  change ∃ e', (Except.ok (), ite _ _ _) = _ ∧ _
  split
  · exact ⟨state.engine, rfl, hsame⟩
  · split
    case h_1 name st _ hst =>
      split
      · exact ⟨state.engine, rfl, hsame⟩
      · rename_i hfree
        exact ⟨_, rfl, sound_put_name (some name) hs hst fun hn =>
          hn.write_named rfl fun y hy => absurd (hy ▸ rfl) hfree⟩
    case h_2 => exact ⟨state.engine, rfl, hsame⟩

theorem extends_copyName {source copy : StatementId} (hs : Sound D t H e) :
    Extends D t H e (copyName t exclude source copy) fun _ _ _ => True := by
  intro map
  obtain ⟨e', hrun, hs', hg⟩ :
      ∃ e', (copyName t exclude source copy).run ⟨e, map⟩ = (.ok (), ⟨e', map⟩) ∧
        Sound D t H e' ∧ Grown t H e H e' := run_copyName hs
  rw [Grows, perform_asAction, hrun]
  refine ⟨fun a e'' h => ?_, fun f e'' h => by cases h⟩
  cases h
  exact ⟨H, hs', hg, trivial⟩

theorem run_settle {state : CopyState} {source copy : StatementId}
    (hs : Sound D t H state.engine) :
    ∃ e', (settle t exclude source copy).run state =
        (.ok (), { engine := e', map := state.map.insert source copy }) ∧
      Sound D t H e' ∧ Grown t H state.engine H e' := by
  have hs : Sound D t H { state with map := state.map.insert source copy }.engine := hs
  exact run_copyName hs

theorem extends_settle {source copy : StatementId} (hs : Sound D t H e) :
    Extends D t H e (settle t exclude source copy) fun _ _ _ => True :=
  extends_bind (extends_note hs) fun _ _ _ hs' _ _ => extends_copyName hs'

theorem extends_copyShell {into source : StatementId} {st : Statement} {data : ContextData}
    (hs : Sound D t H e) (hctx : e.store.graph.IsContext into)
    (hst : e.store.get? source = some st) :
    Extends D t H e (copyShell t exclude into st.term data) fun _ e' id =>
      e'.store.graph.IsContext id := by
  refine extends_get_bind fun map => extends_lift_bind hs answered_validate fun _ hvalid => ?_
  have hm := hs.maintained
  have hchecks := checks_of_validate hvalid
  have hallow : D.Allows H (e.store.carry map st.term) :=
    hm.allows_carry map (hs.lawful source st.content (hm.sub _ _ (Store.graph_of_get? hst))).term
  have hkind : e.store.carryKind map data.kind ≠ .root := by
    cases data.kind <;> exact ContextKind.noConfusion
  refine extends_bind (extends_act (grows_allocate hs)) ?_
  rintro H' e' x hs' - ⟨rfl, hfresh, hpast, hgraph, -⟩
  rw [← hgraph] at hchecks hctx
  refine extends_bind (extends_act (grows_insertContext hs' (fun o ho => (by cases ho; exact hctx))
    ⟨fun h => (by cases h), fun h => absurd h hkind⟩
    (fun y hy => ⟨into, rfl, hchecks.sees hy⟩) hallow hfresh hpast))
    fun H'' e'' _ hs'' _ hcopy => ?_
  refine extends_store_bind (extends_lift_bind hs'' answered_require fun copied _ => ?_)
  refine extends_bind (extends_forM (fun _ e => e.store.graph.IsContext x) hs'' hcopy.isContext ?_)
    fun _ _ _ hs _ hcopy => extends_pure hs hcopy
  exact fun pair _ K v hv hcopy => (extends_settle hv).kept hcopy

theorem answered_sortedLocals {s : Store} {x : StatementId} : Answered (s.sortedLocals x) :=
  answered_bind answered_requireContext fun _ => answered_ok _

theorem answered_copies {map : Correspondence} {sources : List StatementId} :
    Answered (copies map sources) := by
  rw [copies]
  induction sources with
  | nil => exact answered_ok []
  | cons source rest ih =>
    rw [List.mapM_cons]
    refine answered_bind ?_ fun copy => answered_bind ih fun copies => answered_ok (copy :: copies)
    split
    · exact answered_ok _
    · exact answered_error rfl

/-- Copies of statements are made in a context that stays one. -/
theorem extends_copyAll {depth : Nat} {outer sources : List StatementId} {into : StatementId}
    (hs : Sound D t H e) (hctx : e.store.graph.IsContext into) :
    Extends D t H e (copyAll t exclude depth outer into sources) fun _ _ _ => True := by
  induction depth generalizing outer into sources H e with
  | zero => exact extends_pure hs trivial
  | succ depth ih =>
    refine fun map => (extends_forM (fun _ e => e.store.graph.IsContext into) hs hctx ?_ map).imp
      fun _ _ _ _ _ => trivial
    intro source _ H e hs hctx
    refine Extends.kept (P := fun _ _ _ => True) (extends_get_bind fun map => ?_) hctx
    dsimp only
    have hm := hs.maintained
    split
    · exact extends_note hs
    · refine extends_lift_bind hs answered_require fun st hrequire => ?_
      have hst := require_eq_ok.1 hrequire
      have hlaw := hs.lawful source st.content (hm.sub _ _ (graph_of_get? hst))
      split
      case h_1 => exact extends_throw hs rfl
      case h_2 value hkind =>
        refine extends_bind (extends_act (grows_allocate hs)) ?_
        rintro H' e' x hs' - ⟨rfl, hfresh, hpast, hgraph, -⟩
        refine extends_bind (extends_act (grows_insertDeclaration hs' (hgraph ▸ hctx)
          (fun _ => ?_) hfresh hpast)) fun _ _ _ hs'' _ _ => extends_settle hs''
        exact hm.allows_carry map (hlaw.supplied value (by rw [Statement.content, hkind]; rfl))
      case h_3 general argument hkind =>
        refine extends_bind (extends_act (grows_allocate hs)) ?_
        rintro H' e' x hs' - ⟨rfl, hfresh, hpast, hgraph, -⟩
        refine extends_bind (extends_act (grows_insertSpecialization hs' (hgraph ▸ hctx)
          (fun _ => ?_) hfresh hpast)) fun _ _ _ hs'' _ _ => extends_settle hs''
        exact hm.allows_carry map (hlaw.supplied argument (by rw [Statement.content, hkind]; rfl))
      case h_4 data hkind =>
        split
        · exact extends_throw hs rfl
        · refine extends_bind (extends_copyShell hs hctx hst) fun _ _ _ hs' _ hcopy => ?_
          refine extends_store_bind
            (extends_lift_bind hs' answered_sortedLocals fun contents _ => ?_)
          refine extends_bind ((extends_settle hs').kept hcopy) fun _ _ _ hs'' _ hcopy => ?_
          exact ih hs'' hcopy

theorem extends_copyList {target : StatementId} {sources : List StatementId}
    (hs : Sound D t H e) :
    Extends D t H e (copyList t target sources exclude) fun _ _ _ => True := by
  refine extends_bind (extends_act (grows_ensureOpen hs)) ?_
  rintro _ _ - - - ⟨rfl, rfl⟩
  refine extends_store_bind (extends_lift_bind hs answered_requireContext fun _ hrequire => ?_)
  refine extends_bind (extends_copyAll hs (isContext_of_require hrequire)) fun H' e' _ hs' _ _ => ?_
  refine extends_get_bind fun map' map => ?_
  exact (extends_lift hs' answered_copies map).imp fun _ _ _ _ _ => trivial

end Copying

/-- Copying only adds to the graph, also when it stops half way. -/
theorem Engine.sound_copy {D : Discipline} {t : TransactionId} {H : Graph} {e : Engine}
    {target : StatementId} {sources : List StatementId} {map : Correspondence} {exclude : IdSet}
    (hs : Sound D t H e) :
    (e.copy t target sources map exclude).1 = .error exhausted ∨
      Answered (e.copy t target sources map exclude).1 ∧ ∃ H',
        Sound D t H' (e.copy t target sources map exclude).2.2 ∧
        Grown t H e H' (e.copy t target sources map exclude).2.2 := by
  have hcopies : Copying.Extends D t H e (Copying.copyList t target sources exclude) _ :=
    Copying.extends_copyList hs
  obtain ⟨hok, herror⟩ := hcopies map
  rw [Copying.perform_asAction] at hok herror
  rw [copy]
  cases hrun : (Copying.copyList t target sources exclude).run { engine := e, map } with
  | mk r state =>
    rw [hrun] at hok herror
    cases r with
    | ok copies =>
      obtain ⟨H', hs', hg, -⟩ := hok _ _ rfl
      exact Or.inr ⟨answered_ok copies, H', hs', hg⟩
    | error f =>
      rcases herror f _ rfl with rfl | ⟨hf, hsound⟩
      · exact Or.inl rfl
      · exact Or.inr ⟨answered_error hf, hsound⟩

end StatementGraph
