import StatementGraph.Proofs.CopyInvariant

namespace StatementGraph

open Engine

namespace Engine

variable {t : TransactionId} {H : Graph} {e e' : Engine} {o general x : StatementId}
  {value argument term : Term} {f : Failure}

theorem fails_allocate (h : allocate.perform e = (.error f, e')) : f = exhausted := by
  rw [allocate, perform_get_bind, Store.allocate] at h
  cases htake : e.store.allocator.take with
  | mk x? a =>
    rw [htake] at h
    cases x? with
    | none =>
      cases h
      rfl
    | some x => cases h

theorem fails_allocateMany {n : Nat} (h : (allocateMany n).perform e = (.error f, e')) :
    f = exhausted := by
  induction n generalizing e with
  | zero => cases h
  | succ n ih =>
    rw [allocateMany, perform_bind] at h
    cases hx : allocate.perform e with
    | mk r e₁ =>
      rw [hx] at h
      cases r with
      | error f₁ =>
        cases h
        exact fails_allocate hx
      | ok x =>
        dsimp only at h
        rw [perform_bind] at h
        cases hids : (allocateMany n).perform e₁ with
        | mk r e₂ =>
          rw [hids] at h
          cases r with
          | error f₁ =>
            cases h
            exact ih hids
          | ok ids => cases h

theorem fails_await {run : Propagation} (h : (await run).perform e = (.error f, e')) :
    f = .breakdown .endless := by
  rcases await_cases run e with hrun | hrun
  · rw [hrun] at h
    cases h
  · rw [hrun] at h
    cases h
    rfl

theorem fails_insertDeclaration {st : Statement}
    (hst : e.store.declarationRecord o value x = .ok st)
    (h : (insertDeclaration t o value x).perform e = (.error f, e')) :
    f = .breakdown .endless := by
  rw [insertDeclaration, perform_get_bind, hst, perform_ok_bind, perform_get_bind] at h
  exact fails_await h

theorem fails_insertSpecialization {st : Statement}
    (hst : e.store.specializationRecord o general argument x = .ok st)
    (h : (insertSpecialization t o general argument x).perform e = (.error f, e')) :
    f = .breakdown .endless := by
  rw [insertSpecialization, perform_get_bind, hst, perform_ok_bind, perform_get_bind] at h
  exact fails_await h

theorem fails_insertContext {owner : Option StatementId} {kind : ContextKind} {dependencies : IdSet}
    {inner : Term} (hunfold : e.store.unfold owner term kind = .ok (dependencies, inner))
    (h : (insertContext t owner term kind x none).perform e = (.error f, e')) :
    f = exhausted ∨ f = .breakdown .endless := by
  rw [insertContext, perform_get_bind, hunfold] at h
  change ((allocateMany inner.unproject.arity >>= fun ids => _ : Action Unit)).perform e = _ at h
  rw [perform_bind] at h
  cases hids : (allocateMany inner.unproject.arity).perform e with
  | mk r e₁ =>
    rw [hids] at h
    cases r with
    | error f₁ =>
      cases h
      exact Or.inl (fails_allocateMany hids)
    | ok ids => exact Or.inr (fails_await h)

end Engine

namespace Copying

variable {α β : Type} {m : Copying α} {k : α → Copying β} {state : CopyState}
  {E : Failure → Prop} {Q Q' : α → CopyState → Prop} {R : β → CopyState → Prop}

/-- A step of a copy ends as stated: in a result with `Q`, or in a failure with `E`. -/
def Ends (m : Copying α) (state : CopyState) (E : Failure → Prop) (Q : α → CopyState → Prop) :
    Prop :=
  match m.run state with
  | (.ok a, state') => Q a state'
  | (.error f, _) => E f

theorem Ends.imp (h : Ends m state E Q) (hQ : ∀ a state', Q a state' → Q' a state') :
    Ends m state E Q' := by
  rw [Ends] at h ⊢
  split at h
  · exact hQ _ _ h
  · exact h

theorem ends_const {P : Prop} (h : P) : Ends m state (fun _ => True) fun _ _ => P := by
  rw [Ends]
  split
  · exact h
  · trivial

theorem ends_pure {a : α} (h : Q a state) : Ends (pure a) state E Q := h

theorem ends_bind (h : Ends m state E Q) (hk : ∀ a state', Q a state' → Ends (k a) state' E R) :
    Ends (m >>= k) state E R := by
  rw [Ends] at h
  rw [Ends, run_bind]
  cases hm : m.run state with
  | mk r state' =>
    rw [hm] at h
    cases r with
    | error f => exact h
    | ok a => exact hk a state' h

theorem ends_get_bind {k : CopyState → Copying β} (h : Ends (k state) state E R) :
    Ends (get >>= k) state E R := h

theorem ends_store_bind {k : Store → Copying β} (h : Ends (k state.engine.store) state E R) :
    Ends (store >>= k) state E R := h

theorem ends_lift_bind {x : Except Failure α} (herror : ∀ f, x = .error f → E f)
    (h : ∀ a, x = .ok a → Ends (k a) state E R) : Ends (liftM x >>= k) state E R := by
  cases x with
  | error f => exact herror f rfl
  | ok a => exact h a rfl

theorem ends_lift_ok_bind {x : Except Failure α} {a : α} (hx : x = .ok a)
    (h : Ends (k a) state E R) : Ends (liftM x >>= k) state E R := by
  rw [hx]
  exact h

theorem ends_act {action : Action α}
    (hok : ∀ a e', action.perform state.engine = (.ok a, e') → Q a { state with engine := e' })
    (herror : ∀ f e', action.perform state.engine = (.error f, e') → E f) :
    Ends (act action) state E Q := by
  have hact : (act action).run state = ((action.perform state.engine).1,
      { state with engine := (action.perform state.engine).2 }) := rfl
  rw [Ends, hact]
  cases hrun : action.perform state.engine with
  | mk r e' =>
    cases r with
    | error f => exact herror f e' hrun
    | ok a => exact hok a e' hrun

theorem ends_forM_cons {f : α → Copying Unit} {a : α} {rest : List α}
    {Q R : Unit → CopyState → Prop} (h : Ends ([a].forM f) state E Q)
    (hrest : ∀ state', Q () state' → Ends (rest.forM f) state' E R) :
    Ends ((a :: rest).forM f) state E R := by
  have hone : Ends (f a) state E Q := by
    change Ends (f a >>= fun _ => pure ()) state E Q at h
    rw [Ends, run_bind] at h
    rw [Ends]
    cases hrun : (f a).run state with
    | mk r state' =>
      rw [hrun] at h
      cases r with
      | error f => exact h
      | ok u => exact h
  exact ends_bind hone fun _ => hrest

theorem copies_of_mapped {map : Correspondence} {sources : List StatementId}
    (h : ∀ x ∈ sources, ∃ y, map.get? x = some y) :
    ∃ cs, copies map sources = .ok cs ∧ sources.map map.get? = cs.map some := by
  induction sources with
  | nil => exact ⟨[], rfl, rfl⟩
  | cons x sources ih =>
    obtain ⟨y, hy⟩ := h x List.mem_cons_self
    obtain ⟨cs, hcs, hmap⟩ := ih fun z hz => h z (List.mem_cons_of_mem _ hz)
    refine ⟨y :: cs, ?_, by rw [List.map_cons, List.map_cons, hy, hmap]⟩
    rw [copies] at hcs ⊢
    rw [List.mapM_cons, hcs, hy]
    rfl

section

variable {t : TransactionId} {H : Graph} {exclude : IdSet}

theorem ends_ensureOpen (hopen : state.engine.isOpen t = true) :
    Ends (act (ensureOpen t)) state E fun _ state' => state' = state := by
  refine ends_act (fun _ e' hrun => ?_) fun f e' hrun => ?_
  · rw [perform_ensureOpen hopen] at hrun
    cases hrun
    rfl
  · rw [perform_ensureOpen hopen] at hrun
    cases hrun

theorem ends_allocate (hs : Sound .exact t H state.engine) (hE : E exhausted) :
    Ends (act allocate) state E fun id state' => state'.map = state.map ∧
      Sound .exact t H state'.engine ∧ Grown t H state.engine H state'.engine ∧ H.Fresh id ∧
      state'.engine.store.allocator.Past id ∧
      state'.engine.store.graph = state.engine.store.graph ∧
      ∀ y, state.engine.store.allocator.Past y → y < id := by
  refine ends_act (fun id e' hrun => ?_) fun f e' hrun => ?_
  · obtain ⟨H', hs', hg, rfl, hfresh, hpast, hgraph, hlast⟩ := (grows_allocate hs).1 id e' hrun
    exact ⟨rfl, hs', hg, hfresh, hpast, hgraph, fun y hy => (hlast y hy).1⟩
  · rw [fails_allocate hrun]
    exact hE

theorem ends_settle {source copy : StatementId} (hs : Sound .exact t H state.engine) :
    Ends (settle t exclude source copy) state E fun _ state' =>
      state'.map = state.map.insert source copy ∧ Sound .exact t H state'.engine ∧
        Grown t H state.engine H state'.engine := by
  obtain ⟨e', hrun, hs', hg⟩ : ∃ e', (settle t exclude source copy).run state =
      (.ok (), { engine := e', map := state.map.insert source copy }) ∧
      Sound .exact t H e' ∧ Grown t H state.engine H e' := run_settle hs
  rw [Ends, hrun]
  exact ⟨rfl, hs', hg⟩

theorem ends_settleAll {pairs : List (StatementId × StatementId)}
    (hs : Sound .exact t H state.engine) :
    Ends (pairs.forM fun pair => settle t exclude pair.1 pair.2) state E fun _ state' =>
      state'.map = state.map.insertAll pairs ∧ Sound .exact t H state'.engine ∧
        Grown t H state.engine H state'.engine := by
  induction pairs generalizing state with
  | nil => exact ends_pure ⟨rfl, hs, .refl _ _ _⟩
  | cons pair pairs ih =>
    refine ends_bind (ends_settle hs) fun _ state₁ ⟨hmap, hs₁, hg₁⟩ => ?_
    refine (ih hs₁).imp fun _ state₂ ⟨hmap₂, hs₂, hg₂⟩ => ⟨?_, hs₂, hg₁.trans hg₂⟩
    rw [hmap₂, hmap]
    rfl

end

end Copying

namespace CopyPlan

open Copying

variable {p : CopyPlan} {outer sources : List StatementId} {H H' : Graph} {state : CopyState}
  {e' : Engine} {d o w x y z into : StatementId} {c : Content}
  {pairs : List (StatementId × StatementId)}

/-- Copies noted under later ids do not matter for a new copy. -/
theorem Keeps.older_insertAll (h : p.Keeps outer H state) (hkeys : (pairs.map Prod.fst).Nodup)
    (hnone : ∀ pair ∈ pairs, state.map.get? pair.1 = none) (hfresh : H.Fresh x)
    (hlater : ∀ pair ∈ pairs, ¬pair.2 < x) :
    (state.map.insertAll pairs).older x = state.map.get? := by
  funext o
  cases ho : state.map.get? o with
  | some y =>
    exact Correspondence.older_eq_some.2
      ⟨(Correspondence.get?_insertAll hkeys hnone).2 (Or.inl ho), h.lt_fresh hfresh ho⟩
  | none =>
    refine Option.eq_none_iff_forall_ne_some.2 fun y hy => ?_
    obtain ⟨hy, hlt⟩ := Correspondence.older_eq_some.1 hy
    rcases (Correspondence.get?_insertAll hkeys hnone).1 hy with hy | hy
    · cases ho.symm.trans hy
    · exact hlater (o, y) hy hlt

theorem Keeps.renamed_eq (h : p.Keeps outer H state) (hsub : H.Sub H') :
    H'.renamed state.map.get? = H.renamed state.map.get? := by
  funext o
  cases ho : state.map.get? o with
  | none => rw [Graph.renamed_of_none ho, Graph.renamed_of_none ho]
  | some y =>
    obtain ⟨c, hc⟩ := h.replica.live ho
    rw [Graph.renamed_of_some ho hc, Graph.renamed_of_some ho (hsub y c hc)]

theorem Keeps.beyond_of_last (h : p.Keeps outer H state)
    (hlast : ∀ y, state.engine.store.allocator.Past y → y < x) (hle : ¬y < x) :
    ¬p.engine.store.allocator.Past y := fun hpast => hle (hlast y (h.grown.past y hpast))

theorem mem_zip_concat {l l' : List StatementId} :
    (o, y) ∈ l.zip l' ++ [(x, z)] ↔
      (∃ i : Nat, l[i]? = some o ∧ l'[i]? = some y) ∨ (o = x ∧ y = z) := by
  rw [List.mem_append, List.mem_singleton, Prod.mk.injEq, List.mem_iff_getElem?]
  simp only [List.getElem?_zip_eq_some]

theorem Frame.place (hf : p.Frame outer into sources state) (hx : x ∈ sources) :
    into = p.target ∨ ∃ q, p.graph.ownerOf x = some q ∧ state.map.get? q = some into := by
  rcases hf.here with hinto | ⟨q, hq, hall⟩
  · exact Or.inl hinto
  · exact Or.inr ⟨q, hall x hx, hq⟩

/-- What is copied now lies inside no context that is being copied, but for those around it. -/
theorem Frame.not_within (hf : p.Frame outer into sources state) (hx : x ∈ sources)
    (hw : w ∈ outer) (hxy : ¬y < x) : ¬p.graph.Within w y := fun hwithin => by
  have hlt := hf.below w hw x hx
  rcases p.forest.within_le hwithin with rfl | hle
  · exact hxy hlt
  · exact hxy (Nat.lt_trans hle hlt)

theorem assumption_inside {data : ContextData} {a : StatementId} {i : Nat}
    (hc : p.graph x = some c) (hk : c.kind = .context data) (ha : data.assumptions[i]? = some a) :
    x < a ∧ ∀ z, p.graph.ownerOf z ≠ some a := by
  obtain ⟨ca, hca, howner, hkind⟩ := p.sound.maintained.listed p.sound.lawful hc hk ha
  refine ⟨(p.forest a ca x hca howner).1, fun z hz => ?_⟩
  obtain ⟨-, ca', data', hca', hk'⟩ := p.forest.owner hz
  cases hca.symm.trans hca'
  cases hkind.symm.trans hk'

theorem Keeps.assumption_uncopied {data : ContextData} {a : StatementId}
    (h : p.Keeps outer H state) (hc : p.graph x = some c) (hk : c.kind = .context data)
    (ha : a ∈ data.assumptions) (hnone : state.map.get? x = none) : state.map.get? a = none := by
  refine Option.eq_none_iff_forall_ne_some.2 fun b hb => ?_
  obtain ⟨i, hi⟩ := List.mem_iff_getElem?.1 ha
  obtain ⟨ca, hca, howner, hkind⟩ := p.sound.lawful.listed (p.sub_history x c hc) hk hi
  obtain ⟨c₁, c₂, hc₁, -, hrenders⟩ := h.replica.renders a b hb
  cases hc₁.symm.trans (h.grown.history a ca hca)
  cases hrenders with
  | assumption hq =>
    cases howner
    cases hnone.symm.trans hq
  | _ => cases hkind

theorem Keeps.assumption_copied {data : ContextData} {a : StatementId}
    (h : p.Keeps outer H state) (hc : p.graph x = some c) (hk : c.kind = .context data)
    (ha : a ∈ data.assumptions) (hy : state.map.get? x = some y) :
    ∃ b, state.map.get? a = some b := by
  obtain ⟨c₁, c₂, hc₁, -, hrenders⟩ := h.replica.renders x y hy
  cases hc₁.symm.trans (h.sound.maintained.sub x c (h.sub x c hc))
  cases hrenders with
  | context _ _ hassumptions =>
    cases hk
    have hmem : state.map.get? a ∈ _ := hassumptions ▸ List.mem_map_of_mem ha
    obtain ⟨b, -, hb⟩ := List.mem_map.1 hmem
    exact ⟨b, hb.symm⟩
  | _ => cases hk

theorem Keeps.arity {data : ContextData} {id : StatementId} {dependencies : IdSet} {inner : Term}
    (h : p.Keeps outer H state) (hc : p.graph x = some c) (hk : c.kind = .context data)
    (hfresh : H.Fresh id)
    (hunfolds : state.engine.store.graph.Unfolds (state.engine.store.carry state.map c.term)
      dependencies inner (state.engine.store.carryKind state.map data.kind)) :
    inner.unproject.arity = data.assumptions.length := by
  have holder : state.map.older id = state.map.get? :=
    funext fun o => Correspondence.older_of_lt fun y hy => h.lt_fresh hfresh hy
  rw [h.carry_eq, ← holder] at hunfolds
  refine h.replica.arity p.sound.lawful h.sound.lawful (p.sub_history x c hc) hk ?_
    (hunfolds.mono h.sound.maintained.sub)
  rw [holder]
  exact h.unfolded?_carryKind data.kind

/-- A context made of the terms carried over renders the original. -/
theorem Keeps.renders_context {data data' : ContextData} {c' : Content} {m' : Correspondence}
    (h : p.Keeps outer H state) (hk : c.kind = .context data) (hk' : c'.kind = .context data')
    (hsub : H.Sub H') (hterm : c'.term = state.engine.store.carry state.map c.term)
    (hkind : data'.kind = state.engine.store.carryKind state.map data.kind)
    (hlen : data.assumptions.length = data'.assumptions.length)
    (hall : ∀ (i : Nat) a b, data.assumptions[i]? = some a → data'.assumptions[i]? = some b →
      m'.get? a = some b) : H'.Renders m'.get? state.map.get? c c' := by
  obtain ⟨owner, term, deps, kind⟩ := c
  obtain ⟨owner', term', deps', kind'⟩ := c'
  cases hk
  cases hk'
  apply Graph.Renders.context
  · rw [h.renamed_eq hsub, ← h.carry_eq]
    exact hterm
  · rw [hkind, h.unfolded?_carryKind]
  · rw [Graph.map_eq_map_some, List.forall₂_iff_get]
    refine ⟨hlen, fun i hi hi' => ?_⟩
    exact hall i _ _ (List.getElem?_eq_getElem hi) (List.getElem?_eq_getElem hi')

section

variable (h : p.Keeps outer H state) (hf : p.Frame outer into sources state) (hx : x ∈ sources)
  (hc : p.graph x = some c)
  (hneeds : p.Portable → ∀ d ∈ c.dependencies, p.Member d → ∃ y, state.map.get? d = some y)

include h hf hx hc hneeds

/-- What a copy has to be so that it fits in: it renders its original and has a new id. -/
theorem Keeps.adds {c' : Content} {id : StatementId} (hkeys : (pairs.map Prod.fst).Nodup)
    (hnew : ∀ pair ∈ pairs, state.map.get? pair.1 = none) (hlater : ∀ pair ∈ pairs, ¬pair.2 < id)
    (hfresh : H.Fresh id) (hlast : ∀ y, state.engine.store.allocator.Past y → y < id)
    (hsub : H.Sub H') (hH' : H' id = some c') (howner : e'.store.graph.ownerOf id = some into)
    (hrenders : H'.Renders (state.map.insertAll pairs).get? state.map.get? c c') :
    p.Adds H H' ⟨e', state.map.insertAll pairs⟩ x id where
  fresh := hfresh
  beyond := h.beyond_of_last hlast (Nat.lt_irrefl _)
  known := ⟨c, hc⟩
  renders := by
    refine ⟨c, c', hsub x c (h.sound.maintained.sub x c (h.sub x c hc)), hH', ?_⟩
    rw [h.older_insertAll hkeys hnew hfresh hlater]
    exact hrenders
  place := by
    rcases hf.place hx with rfl | ⟨q, hq, hinto⟩
    · exact Or.inl howner
    · exact Or.inr ⟨q, into, hq, (Correspondence.get?_insertAll hkeys hnew).2 (Or.inl hinto),
        howner⟩
  member := hf.members x hx
  ready hp c₁ d hc₁ _ hd hmem := by
    cases hc.symm.trans hc₁
    obtain ⟨y, hy⟩ := hneeds hp d hd hmem
    exact ⟨y, (Correspondence.get?_insertAll hkeys hnew).2 (Or.inl hy), h.lt_fresh hfresh hy⟩

/-- The copy of a statement that is not a context has been made. -/
theorem Keeps.enter {st : Statement} (hnone : state.map.get? x = none)
    (hplain : ∀ data, c.kind ≠ .context data) (hfresh : H.Fresh st.id)
    (hlast : ∀ y, state.engine.store.allocator.Past y → y < st.id)
    (howner : st.owner = some into)
    (hrenders : H'.Renders (state.map.insert x st.id).get? state.map.get? c st.content)
    (hH' : H' = H.setAll [st]) (hlive : e'.store.graph st.id = some st.content)
    (hs : Sound .exact p.t H' e') (hg : Grown p.t H state.engine H' e') :
    p.Keeps outer H' ⟨e', state.map.insert x st.id⟩ := by
  have hkeys : ([(x, st.id)].map Prod.fst).Nodup := List.nodup_singleton _
  have hnew (pair : StatementId × StatementId) (hpair : pair ∈ [(x, st.id)]) :
      state.map.get? pair.1 = none := by
    cases List.mem_singleton.1 hpair
    exact hnone
  apply h.extend hs hg hkeys (List.nodup_singleton _) hnew
  · intro y cy hy
    subst hH'
    rcases Graph.setAll_cases hy with ⟨st', hst', rfl, -⟩ | hy
    · cases List.mem_singleton.1 hst'
      exact Or.inr ⟨x, List.mem_singleton_self _⟩
    · exact Or.inl hy
  · intro o y hoy
    cases List.mem_singleton.1 hoy
    refine h.adds hf hx hc hneeds hkeys hnew (fun pair hpair => ?_) hfresh hlast hg.history
      (hs.maintained.sub _ _ hlive) (Graph.ownerOf_eq.2 ⟨_, hlive, howner⟩) hrenders
    cases List.mem_singleton.1 hpair
    exact Nat.lt_irrefl _
  · intro o y hoy _ z hz
    cases List.mem_singleton.1 hoy
    obtain ⟨-, c', data, hc', hk⟩ := p.forest.owner hz
    cases hc.symm.trans hc'
    exact absurd hk (hplain data)
  · exact fun w hw => hw
  · intro w hw o y hwo hoy
    rcases (Correspondence.get?_insertAll hkeys hnew).1 hoy with hoy | hoy
    · exact h.upward w hw o y hwo hoy
    · cases List.mem_singleton.1 hoy
      exact absurd hwo (hf.not_within hx hw (Nat.lt_irrefl _))

omit hneeds in
/-- The copy of an assumption fits in once the copy of its context is noted. -/
theorem Keeps.adds_assumption {data data' : ContextData} {c' : Content} {m' : Correspondence}
    {a b id : StatementId} {i : Nat} (hk : c.kind = .context data)
    (ha : data.assumptions[i]? = some a) (hs : Sound .exact p.t H' e') (hsub : H.Sub H')
    (hid : e'.store.graph id = some c') (hk' : c'.kind = .context data')
    (hb : data'.assumptions[i]? = some b) (hm : m'.get? x = some id) (hfresh : H.Fresh b)
    (hbeyond : ¬p.engine.store.allocator.Past b) : p.Adds H H' ⟨e', m'⟩ a b := by
  obtain ⟨ca, hca, howner, hkind⟩ := p.sound.maintained.listed p.sound.lawful hc hk ha
  obtain ⟨cb, hcb, howner', hkind'⟩ := hs.maintained.listed hs.lawful hid hk' hb
  have hax : p.graph.ownerOf a = some x := Graph.ownerOf_eq.2 ⟨ca, hca, howner⟩
  refine ⟨hfresh, hbeyond, ⟨ca, hca⟩, ⟨ca, cb, ?_, hs.maintained.sub b cb hcb, ?_⟩, ?_, ?_, ?_⟩
  · exact hsub a ca (h.sound.maintained.sub a ca (h.sub a ca hca))
  · obtain ⟨owner, term, deps, kind⟩ := ca
    obtain ⟨owner', term', deps', kind'⟩ := cb
    cases howner
    cases howner'
    cases hkind
    cases hkind'
    exact .assumption hm
  · exact Or.inr ⟨x, id, hax, hm, Graph.ownerOf_eq.2 ⟨cb, hcb, howner'⟩⟩
  · obtain ⟨s, hs, hw⟩ := hf.members x hx
    exact ⟨s, hs, .head hax hw⟩
  · intro _ c₁ d hc₁ hplain
    cases hca.symm.trans hc₁
    exact absurd hkind (hplain i)

omit hneeds in
theorem Keeps.upward_context {data : ContextData} {w o : StatementId} (hk : c.kind = .context data)
    (hnone : state.map.get? x = none) (hw : w ∈ x :: outer) (hwo : p.graph.Within w o)
    (ho : (∃ y, state.map.get? o = some y) ∨ (∃ i : Nat, data.assumptions[i]? = some o) ∨ o = x) :
    o ∈ x :: outer := by
  rcases ho with ⟨y, hoy⟩ | ⟨i, hi⟩ | rfl
  · apply List.mem_cons_of_mem
    rcases List.mem_cons.1 hw with rfl | hw
    · by_contra ho
      obtain ⟨z, hz⟩ := h.within_mapped hoy ho hwo
      cases hnone.symm.trans hz
    · exact h.upward w hw o y hwo hoy
  · exfalso
    have hlt := (assumption_inside hc hk hi).1
    rcases List.mem_cons.1 hw with rfl | hw
    · exact p.forest.not_within hlt hwo
    · exact hf.not_within hx hw (Nat.lt_asymm hlt) hwo
  · exact List.mem_cons_self

/-- The copies of a context and of its assumptions are there. -/
theorem Keeps.extend_context {data data' : ContextData} {c' : Content} {id : StatementId}
    (hnone : state.map.get? x = none) (hk : c.kind = .context data) (hfresh : H.Fresh id)
    (hlast : ∀ y, state.engine.store.allocator.Past y → y < id)
    (hsorted : (id :: data'.assumptions).Pairwise (· < ·))
    (hlen : data.assumptions.length = data'.assumptions.length)
    (hid : e'.store.graph id = some c') (hk' : c'.kind = .context data')
    (howner : c'.owner = some into) (hterm : c'.term = state.engine.store.carry state.map c.term)
    (hkind : data'.kind = state.engine.store.carryKind state.map data.kind)
    (hcover : ∀ y cy, H' y = some cy → H y = some cy ∨ y ∈ id :: data'.assumptions)
    (hs : Sound .exact p.t H' e') (hg : Grown p.t H state.engine H' e') :
    p.Keeps (x :: outer) H'
      ⟨e', state.map.insertAll (data.assumptions.zip data'.assumptions ++ [(x, id)])⟩ := by
  obtain ⟨habove, hsorted'⟩ := List.pairwise_cons.1 hsorted
  have hkeys : ((data.assumptions.zip data'.assumptions ++ [(x, id)]).map Prod.fst).Nodup := by
    rw [List.map_append, List.map_fst_zip (Nat.le_of_eq hlen)]
    exact List.nodup_append_comm.1 (p.sound.lawful.nodup_bundle (p.sub_history x c hc) hk)
  have hvalues : ((data.assumptions.zip data'.assumptions ++ [(x, id)]).map Prod.snd).Nodup := by
    rw [List.map_append, List.map_snd_zip (Nat.le_of_eq hlen.symm)]
    exact List.nodup_append_comm.1 (nodup_of_pairwise_lt hsorted)
  have hmem (o y : StatementId) := @mem_zip_concat o x y id data.assumptions data'.assumptions
  have hnew (pair : StatementId × StatementId)
      (hpair : pair ∈ data.assumptions.zip data'.assumptions ++ [(x, id)]) :
      state.map.get? pair.1 = none := by
    rcases (hmem pair.1 pair.2).1 hpair with ⟨i, hi, -⟩ | ⟨ho, -⟩
    · exact h.assumption_uncopied hc hk (List.mem_of_getElem? hi) hnone
    · rw [ho]
      exact hnone
  generalize hpairs : data.assumptions.zip data'.assumptions ++ [(x, id)] = pairs at *
  have hget (o y : StatementId) : (state.map.insertAll pairs).get? o = some y ↔
      state.map.get? o = some y ∨ (o, y) ∈ pairs := Correspondence.get?_insertAll hkeys hnew
  have hfirst : (state.map.insertAll pairs).get? x = some id :=
    (hget x id).2 (Or.inr ((hmem x id).2 (Or.inr ⟨rfl, rfl⟩)))
  have hlater (o y : StatementId) (hoy : (o, y) ∈ pairs) : ¬y < id := by
    rcases (hmem o y).1 hoy with ⟨i, -, hy⟩ | ⟨-, rfl⟩
    · exact Nat.lt_asymm (habove y (List.mem_of_getElem? hy))
    · exact Nat.lt_irrefl _
  apply h.extend hs hg hkeys hvalues hnew
  · intro y cy hy
    refine (hcover y cy hy).imp_right fun hy => ?_
    rcases List.mem_cons.1 hy with rfl | hy
    · exact ⟨x, (hmem x y).2 (Or.inr ⟨rfl, rfl⟩)⟩
    · obtain ⟨i, hi⟩ := List.mem_iff_getElem?.1 hy
      have hlt : i < data.assumptions.length := hlen ▸ (List.getElem?_eq_some_iff.1 hi).1
      exact ⟨_, (hmem _ y).2 (Or.inl ⟨i, List.getElem?_eq_getElem hlt, hi⟩)⟩
  · intro o y hoy
    have hnot := hlater o y hoy
    rcases (hmem o y).1 hoy with ⟨i, ho, hy⟩ | ⟨rfl, rfl⟩
    · have hlt := habove y (List.mem_of_getElem? hy)
      exact h.adds_assumption hf hx hc hk ho hs hg.history hid hk' hy hfirst
        (fun z cz hz => Nat.lt_trans (hfresh z cz hz) hlt) (h.beyond_of_last hlast hnot)
    · refine h.adds hf hx hc hneeds hkeys hnew (fun pair hpair => hlater pair.1 pair.2 hpair) hfresh
        hlast hg.history (hs.maintained.sub _ _ hid) (Graph.ownerOf_eq.2 ⟨c', hid, howner⟩) ?_
      refine h.renders_context hk hk' hg.history hterm hkind hlen fun i a b ha hb => ?_
      exact (hget a b).2 (Or.inr ((hmem a b).2 (Or.inl ⟨i, ha, hb⟩)))
  · intro o y hoy hout z hz
    rcases (hmem o y).1 hoy with ⟨i, ho, -⟩ | ⟨rfl, -⟩
    · exact absurd hz ((assumption_inside hc hk ho).2 z)
    · exact absurd List.mem_cons_self hout
  · exact fun w hw => List.mem_cons_of_mem _ hw
  · intro w hw o y hwo hoy
    apply h.upward_context hf hx hc hk hnone hw hwo
    refine ((hget o y).1 hoy).imp (fun hoy => ⟨y, hoy⟩) fun hoy => ?_
    exact ((hmem o y).1 hoy).imp (Exists.imp fun _ => And.left) And.left

/-- The copies of a context and of its assumptions have been made. -/
theorem Keeps.shell {data : ContextData} {id : StatementId} {e₁ e₂ : Engine}
    (hnone : state.map.get? x = none) (hk : c.kind = .context data) (hfresh : H.Fresh id)
    (hlast : ∀ y, state.engine.store.allocator.Past y → y < id)
    (hgraph : e₁.store.graph = state.engine.store.graph)
    (hopened : Opened H e₁ (some into) (state.engine.store.carry state.map c.term)
      (state.engine.store.carryKind state.map data.kind) id H' e₂)
    (hg : Grown p.t H state.engine H' e₂) :
    ∃ st, e₂.store.get? id = some st ∧ st.owner = some into ∧
      ∀ e', Sound .exact p.t H' e' → Grown p.t H' e₂ H' e' →
      p.Keeps (x :: outer) H'
        ⟨e', state.map.insertAll (data.assumptions.zip st.assumptions ++ [(x, id)])⟩ := by
  obtain ⟨context, assumptions, consequent, dependencies, inner, henters, rfl, hcontent, hsorted,
    hunfolds, hlen⟩ := hopened
  rw [hgraph] at hunfolds
  rw [h.arity hc hk hfresh hunfolds, ← List.length_map (f := Statement.id)] at hlen
  have hentered : e₂.store.graph context.id = some context.content := by
    rw [henters.graph]
    exact Graph.setAll_mem (nodup_of_pairwise_lt hsorted) List.mem_cons_self
  obtain ⟨st, hst, hsame⟩ := Store.graph_eq_some.1 hentered
  have hkind : st.kind = .context ⟨state.engine.store.carryKind state.map data.kind,
      assumptions.map Statement.id, consequent⟩ := congrArg Content.kind (hsame.trans hcontent)
  have hids : st.assumptions = assumptions.map Statement.id := by
    rw [Statement.assumptions, Statement.contextData?, hkind]
    rfl
  refine ⟨st, hst, congrArg Content.owner (hsame.trans hcontent), fun e' hs' hg' => ?_⟩
  rw [hids]
  refine h.extend_context hf hx hc hneeds hnone hk hfresh hlast hsorted hlen.symm
    (hg'.kept _ _ hentered) (by rw [hcontent]) (by rw [hcontent]) (by rw [hcontent]) rfl
    (fun y cy hy => ?_) hs' (hg.trans hg')
  rw [henters.history] at hy
  rcases Graph.setAll_cases hy with ⟨st', hst', rfl, -⟩ | hy
  · exact Or.inr (List.mem_map_of_mem (f := Statement.id) hst')
  · exact Or.inl hy

/-- Copying a statement that is not a context. -/
theorem ends_plain {insert : StatementId → Action Unit} {exclude : IdSet}
    (hnone : state.map.get? x = none) (hplain : ∀ data, c.kind ≠ .context data)
    (hinsert : ∀ id e, Sound .exact p.t H e → e.store.graph = state.engine.store.graph →
      H.Fresh id → e.store.allocator.Past id →
      Grows .exact p.t H e (insert id) fun H' e' _ => ∃ st : Statement, st.id = id ∧
        st.owner = some into ∧ Enters H e [st] H' e' ∧
        ∀ m, H'.Renders m state.map.get? c st.content)
    (hfails : p.Portable → ∀ id e f e', e.store.graph = state.engine.store.graph →
      (insert id).perform e = (.error f, e') → f = .breakdown .endless) :
    Ends (do let id ← act allocate; act (insert id); settle p.t exclude x id) state
      (fun f => p.Portable → f = exhausted) fun _ state' => ∃ H', p.Keeps outer H' state' ∧
        state.Later state' ∧ ∃ y, state'.map.get? x = some y := by
  refine ends_bind (ends_allocate h.sound fun _ => rfl) ?_
  rintro id ⟨e₁, map⟩ ⟨rfl, hs₁, hg₁, hfresh, hpast, hgraph, hlast⟩
  have hgrows := hinsert id e₁ hs₁ hgraph hfresh hpast
  refine ends_bind (Q := fun _ state₂ => state₂.map = state.map ∧ ∃ H' st, st.id = id ∧
    st.owner = some into ∧ Enters H e₁ [st] H' state₂.engine ∧
    (∀ m, H'.Renders m state.map.get? c st.content) ∧ Sound .exact p.t H' state₂.engine ∧
    Grown p.t H e₁ H' state₂.engine) (ends_act ?_ ?_) ?_
  · intro a e₂ hrun
    obtain ⟨H', hs₂, hg₂, st, hid, howner, henters, hrenders⟩ := hgrows.1 a e₂ hrun
    exact ⟨rfl, H', st, hid, howner, henters, hrenders, hs₂, hg₂⟩
  · intro f e₂ hrun hp
    have hanswer := hgrows.answered f (congrArg Prod.fst hrun)
    rw [hfails hp id e₁ f e₂ hgraph hrun] at hanswer
    cases hanswer
  · rintro - ⟨e₂, map⟩ ⟨rfl, H', st, rfl, howner, henters, hrenders, hs₂, hg₂⟩
    refine (ends_settle hs₂).imp ?_
    rintro - ⟨e₃, map⟩ ⟨rfl, hs₃, hg₃⟩
    have hentered : e₂.store.graph st.id = some st.content := by
      rw [henters.graph]
      exact Graph.setAll_mem (List.nodup_singleton _) (List.mem_singleton_self _)
    have hg := (hg₁.trans hg₂).trans hg₃
    refine ⟨H', h.enter hf hx hc hneeds hnone hplain hfresh hlast howner (hrenders _)
      henters.history (hg₃.kept _ _ hentered) hs₃ hg, ⟨hg.kept, fun o y hoy => ?_⟩, st.id,
      Table.get?_insert_self _ _ _⟩
    have hne : o ≠ x := by
      rintro rfl
      cases hnone.symm.trans hoy
    rw [Table.get?_insert, if_neg hne]
    exact hoy

omit h in
theorem Frame.due (hnone : state.map.get? x = none) (hplain : ∀ i, c.kind ≠ .assumption i)
    (hp : p.Portable) : p.Due state x c :=
  ⟨hc, hf.members x hx, hplain, hnone, hneeds hp⟩

theorem ends_declaration {value : Term} {exclude : IdSet} (hnone : state.map.get? x = none)
    (hk : c.kind = .declaration value) :
    Ends (do
        let id ← act allocate
        act (insertDeclaration p.t into (state.engine.store.carry state.map value) id)
        settle p.t exclude x id) state
      (fun f => p.Portable → f = exhausted) fun _ state' => ∃ H', p.Keeps outer H' state' ∧
        state.Later state' ∧ ∃ y, state'.map.get? x = some y := by
  have hallow := h.sound.maintained.allows_carry state.map
    ((h.lawfulAt hc).supplied value (by rw [hk]; rfl))
  refine ends_plain h hf hx hc hneeds hnone (fun _ ho => by cases hk.symm.trans ho) ?_ ?_
  · intro id e hs hgraph hfresh hpast
    refine (grows_insertDeclaration hs (hgraph ▸ hf.context) (fun _ => hallow) hfresh hpast).imp ?_
    rintro H' e' - hg ⟨st, hid, howner, hkind, henters⟩
    refine ⟨st, hid, howner, henters, fun m => ?_⟩
    rw [Statement.content, hkind]
    obtain ⟨owner, term, deps, kind⟩ := c
    cases hk
    apply Graph.Renders.declaration
    rw [h.renamed_eq hg.history, h.carry_eq]
  · intro hp id e f e' hgraph
    obtain ⟨hchecks, term, htype⟩ :=
      h.declares hp (hf.due hx hc hneeds hnone (fun _ ho => by cases hk.symm.trans ho) hp) hf hk
    obtain ⟨st, hst⟩ := Store.declarationRecord_of_checks (hgraph ▸ hchecks) htype
    exact fails_insertDeclaration hst

theorem ends_specialization {general : StatementId} {argument : Term} {exclude : IdSet}
    (hnone : state.map.get? x = none) (hk : c.kind = .specialization general argument) :
    Ends (do
        let id ← act allocate
        act (insertSpecialization p.t into (state.engine.store.counterpartOrSelf state.map general)
          (state.engine.store.carry state.map argument) id)
        settle p.t exclude x id) state
      (fun f => p.Portable → f = exhausted) fun _ state' => ∃ H', p.Keeps outer H' state' ∧
        state.Later state' ∧ ∃ y, state'.map.get? x = some y := by
  have hallow := h.sound.maintained.allows_carry state.map
    ((h.lawfulAt hc).supplied argument (by rw [hk]; rfl))
  refine ends_plain h hf hx hc hneeds hnone (fun _ ho => by cases hk.symm.trans ho) ?_ ?_
  · intro id e hs hgraph hfresh hpast
    refine (grows_insertSpecialization hs (hgraph ▸ hf.context) (fun _ => hallow) hfresh
      hpast).imp ?_
    rintro H' e' - hg ⟨st, hid, howner, hkind, henters⟩
    refine ⟨st, hid, howner, henters, fun m => ?_⟩
    rw [Statement.content, hkind]
    obtain ⟨owner, term, deps, kind⟩ := c
    cases hk
    apply Graph.Renders.specialization
    · exact h.counterpartOrSelf_eq general
    · rw [h.renamed_eq hg.history, h.carry_eq]
  · intro hp id e f e' hgraph
    obtain ⟨hchecks, hsees, cg, term, hcg, hcompose⟩ :=
      h.specializes hp (hf.due hx hc hneeds hnone (fun _ ho => by cases hk.symm.trans ho) hp) hf hk
    rw [← hgraph] at hchecks hsees hcg
    obtain ⟨st, hst⟩ := Store.specializationRecord_of_checks hcg hsees hchecks hcompose
    exact fails_insertSpecialization hst

/-- Copying a context without its contents. -/
theorem ends_shell {data : ContextData} {exclude : IdSet} (hnone : state.map.get? x = none)
    (hk : c.kind = .context data) :
    Ends (copyShell p.t exclude into c.term data) state (fun f => p.Portable → f = exhausted)
      fun id state' => ∃ H', Sound .exact p.t H' state'.engine ∧
        state'.engine.store.graph.ownerOf id = some into ∧
        ∀ e', Sound .exact p.t H' e' → Grown p.t H' state'.engine H' e' →
          p.Keeps (x :: outer) H' ⟨e', state'.map.insert x id⟩ ∧
            state.Later ⟨e', state'.map.insert x id⟩ := by
  have hm := h.sound.maintained
  have hdue := hf.due hx hc hneeds hnone (by rw [hk]; exact nofun)
  refine ends_get_bind (ends_lift_bind (fun f hf' hp => ?_) fun _ hvalid => ?_)
  · have hchecks := (h.opens hp (hdue hp) hf hk).1
    rw [Store.validate_of_checks hchecks] at hf'
    cases hf'
  have hchecks := Store.checks_of_validate hvalid
  have hallow : Discipline.exact.Allows H (state.engine.store.carry state.map c.term) :=
    hm.allows_carry state.map (h.lawfulAt hc).term
  have hkind : state.engine.store.carryKind state.map data.kind ≠ .root := by
    cases data.kind <;> exact ContextKind.noConfusion
  refine ends_bind (ends_allocate h.sound fun _ => rfl) ?_
  rintro id ⟨e₁, map⟩ ⟨rfl, hs₁, hg₁, hfresh, hpast, hgraph, hlast⟩
  rw [← hgraph] at hchecks
  have hctx : e₁.store.graph.IsContext into := hgraph ▸ hf.context
  have hgrows := grows_insertContext hs₁ (fun o ho => by cases ho; exact hctx)
    ⟨fun h => (by cases h), fun h => absurd h hkind⟩ (fun y hy => ⟨into, rfl, hchecks.sees hy⟩)
    hallow hfresh hpast
  refine ends_bind (Q := fun _ state₂ => state₂.map = state.map ∧ ∃ H', Opened H e₁ (some into)
    (state.engine.store.carry state.map c.term) (state.engine.store.carryKind state.map data.kind)
    id H' state₂.engine ∧ Sound .exact p.t H' state₂.engine ∧ Grown p.t H e₁ H' state₂.engine)
    (ends_act ?_ ?_) ?_
  · intro a e₂ hrun
    obtain ⟨H', hs₂, hg₂, hopened⟩ := hgrows.1 a e₂ hrun
    exact ⟨rfl, H', hopened, hs₂, hg₂⟩
  · intro f e₂ hrun hp
    obtain ⟨-, dependencies, inner, hunfolds, hsees⟩ := h.opens hp (hdue hp) hf hk
    rw [← hgraph] at hunfolds hsees
    refine (fails_insertContext (Store.unfold_of_unfolds hunfolds
      fun d hd => ⟨into, rfl, hsees d hd⟩) hrun).resolve_right fun hf => ?_
    have hanswer := hgrows.answered f (congrArg Prod.fst hrun)
    rw [hf] at hanswer
    cases hanswer
  · rintro - ⟨e₂, map⟩ ⟨rfl, H', hopened, hs₂, hg₂⟩
    obtain ⟨st, hst, howner, hkeeps⟩ := h.shell hf hx hc hneeds hnone hk hfresh hlast hgraph hopened
      (hg₁.trans hg₂)
    refine ends_store_bind (ends_lift_ok_bind (Store.require_eq_ok.2 hst) ?_)
    refine ends_bind (ends_settleAll hs₂) ?_
    rintro - ⟨e₃, map⟩ ⟨rfl, hs₃, hg₃⟩
    refine ends_pure ⟨H', hs₃, Graph.ownerOf_eq.2 ⟨st.content,
      hg₃.kept id _ (Store.graph_of_get? hst), howner⟩, fun e' hs' hg' => ?_⟩
    have hkeeps' := hkeeps e' hs' (hg₃.trans hg')
    rw [Correspondence.insertAll_concat] at hkeeps'
    refine ⟨hkeeps', ((hg₁.trans hg₂).trans (hg₃.trans hg')).kept, fun o y hoy => ?_⟩
    have hne : o ≠ x := by
      rintro rfl
      cases hnone.symm.trans hoy
    rw [Table.get?_insert, if_neg hne, Correspondence.get?_insertAll_of_notMem fun ho => ?_]
    · exact hoy
    · obtain ⟨⟨o, b⟩, hpair, rfl⟩ := List.mem_map.1 ho
      have hnone' := h.assumption_uncopied hc hk (List.of_mem_zip hpair).1 hnone
      cases hnone'.symm.trans hoy

end

theorem assumptionsOf_eq {data : ContextData} (hc : p.graph x = some c)
    (hk : c.kind = .context data) : p.engine.store.assumptionsOf x = data.assumptions := by
  obtain ⟨st, hst, rfl⟩ := Store.graph_eq_some.1 hc
  have hkind : st.kind = .context data := hk
  rw [Store.assumptionsOf, hst, Option.map_some, Option.getD_some, Statement.assumptions,
    Statement.contextData?, hkind]
  rfl

theorem ownerOf_assumption (hy : y ∈ p.engine.store.assumptionsOf x) :
    p.graph.ownerOf y = some x := by
  cases hst : p.engine.store.get? x with
  | none =>
    rw [Store.assumptionsOf, hst] at hy
    cases hy
  | some st =>
    rw [Store.assumptionsOf, hst] at hy
    have hx : p.graph x = some st.content := Store.graph_of_get? hst
    obtain ⟨data, hk, hmem⟩ := Statement.mem_assumptions.1 hy
    obtain ⟨i, hi⟩ := List.mem_iff_getElem?.1 hmem
    obtain ⟨cy, hcy, howner, -⟩ := p.sound.maintained.listed p.sound.lawful hx hk hi
    exact Graph.ownerOf_eq.2 ⟨cy, hcy, howner⟩

theorem mem_contentsOf : y ∈ p.engine.store.contentsOf x ↔
    p.graph.ownerOf y = some x ∧ y ∉ p.engine.store.assumptionsOf x := by
  rw [Store.contentsOf, List.mem_filter, p.sound.maintained.indexed.mem_localsOf,
    decide_eq_true_iff]
  rfl

theorem within_of_visits {depth : Nat} {ids : List StatementId}
    (hy : y ∈ p.engine.store.visits depth ids) : ∃ x ∈ ids, p.graph.Within y x := by
  induction depth generalizing y ids with
  | zero => cases hy
  | succ depth ih =>
    obtain ⟨x, hx, hy⟩ := List.mem_flatMap.1 hy
    refine ⟨x, hx, ?_⟩
    rcases List.mem_cons.1 hy with rfl | hy
    · exact .refl
    rcases List.mem_append.1 hy with hy | hy
    · exact .single (ownerOf_assumption hy)
    · obtain ⟨z, hz, hyz⟩ := ih hy
      exact hyz.tail (mem_contentsOf.1 hz).1

theorem Keeps.close (h : p.Keeps (x :: outer) H state)
    (hin : ∀ y, p.graph.ownerOf y = some x → ∃ z, state.map.get? y = some z)
    (hbelow : ∀ w ∈ outer, w < x) : p.Keeps outer H state :=
  { h with
    filled := fun o y hoy ho z hz => by
      by_cases hox : o = x
      · exact hin z (hox ▸ hz)
      · refine h.filled o y hoy (fun hmem => ?_) z hz
        exact (List.mem_cons.1 hmem).elim hox ho
    upward := fun w hw o y hwo hoy => by
      rcases List.mem_cons.1 (h.upward w (List.mem_cons_of_mem _ hw) o y hwo hoy) with rfl | ho
      · exact absurd hwo (p.forest.not_within (hbelow w hw))
      · exact ho }

theorem length_le_size (hchain : outer.Pairwise (· > ·))
    (hlive : ∀ w ∈ outer, ∃ c, p.graph w = some c) : outer.length ≤ p.engine.store.size := by
  have hnodup : outer.Nodup :=
    hchain.imp fun {a b} (hlt : b.raw < a.raw) (he : a = b) => Nat.lt_irrefl _ (he ▸ hlt)
  rw [← Store.length_ids]
  exact (List.subperm_of_subset hnodup fun w hw => Store.mem_ids.2 (hlive w hw)).length_le

theorem Keeps.known_outer (h : p.Keeps outer H state) (hf : p.Frame outer into sources state)
    (hw : w ∈ outer) : ∃ c, p.graph w = some c := by
  obtain ⟨w', hw', -⟩ := hf.inner w hw
  exact h.known w w' hw'

theorem Keeps.length_le (h : p.Keeps outer H state) (hf : p.Frame outer into sources state) :
    outer.length ≤ p.engine.store.size :=
  length_le_size hf.chain fun _ hw => h.known_outer hf hw

theorem Keeps.depth_le (h : p.Keeps outer H state) (hf : p.Frame outer into sources state)
    (hx : x ∈ sources) : outer.length + 1 ≤ p.engine.store.size := by
  have hchain : (x :: outer).Pairwise (· > ·) :=
    List.pairwise_cons.2 ⟨fun w hw => hf.below w hw x hx, hf.chain⟩
  refine length_le_size hchain fun w hw => ?_
  rcases List.mem_cons.1 hw with rfl | hw
  · exact hf.live w hx
  · exact h.known_outer hf hw

/-- The contents of a context are copied into its copy. -/
theorem Frame.contents {data : ContextData} {id : StatementId} {state' : CopyState}
    (hf : p.Frame outer into sources state) (hx : x ∈ sources) (hc : p.graph x = some c)
    (hk : c.kind = .context data) (h' : p.Keeps (x :: outer) H' state') (hl : state.Later state')
    (hid : state'.map.get? x = some id)
    (howner : state'.engine.store.graph.ownerOf id = some into) :
    p.Frame (x :: outer) id (p.engine.store.contentsOf x) state' where
  context := by
    obtain ⟨c', hc'⟩ := h'.live hid
    obtain ⟨c₁, c₂, hc₁, hc₂, hrenders⟩ := h'.replica.renders x id hid
    cases hc₁.symm.trans (h'.sound.maintained.sub x c (h'.sub x c hc))
    cases hc₂.symm.trans (h'.sound.maintained.sub id c' hc')
    cases hrenders with
    | context => exact ⟨_, _, hc', rfl⟩
    | _ => cases hk
  inside := .head howner (hl.graph.within hf.inside)
  inner w hw := by
    rcases List.mem_cons.1 hw with rfl | hw
    · exact ⟨id, hid, .refl⟩
    · obtain ⟨w', hw', hinto⟩ := hf.inner w hw
      exact ⟨w', hl.map w w' hw', .head howner (hl.graph.within hinto)⟩
  here := Or.inr ⟨x, hid, fun y hy => (mem_contentsOf.1 hy).1⟩
  below w hw y hy := by
    have hlt := (p.forest.owner (mem_contentsOf.1 hy).1).1
    rcases List.mem_cons.1 hw with rfl | hw
    · exact hlt
    · exact Nat.lt_trans (hf.below w hw x hx) hlt
  chain := List.pairwise_cons.2 ⟨fun w hw => hf.below w hw x hx, hf.chain⟩
  live y hy := by
    obtain ⟨cy, hcy, -⟩ := Graph.ownerOf_eq.1 (mem_contentsOf.1 hy).1
    exact ⟨cy, hcy⟩
  members y hy := by
    obtain ⟨s, hs, hw⟩ := hf.members x hx
    exact ⟨s, hs, .head (mem_contentsOf.1 hy).1 hw⟩
  plain _ y hy cy i hcy hkind := by
    obtain ⟨howner, hnot⟩ := mem_contentsOf.1 hy
    obtain ⟨cy', hcy', ho⟩ := Graph.ownerOf_eq.1 howner
    cases hcy.symm.trans hcy'
    obtain ⟨q, cq, data', hq, hcq, hk', hi⟩ :=
      p.sound.lawful.assumption (p.sub_history y cy hcy) hkind
    cases ho.symm.trans hq
    cases hcq.symm.trans (p.sub_history x c hc)
    cases hk.symm.trans hk'
    rw [assumptionsOf_eq hc hk] at hnot
    exact hnot (List.mem_of_getElem? hi)

/-- Copying a context with its contents, once that is known of contexts less deep. -/
theorem ends_context {data : ContextData} (exclude : IdSet) (depth : Nat)
    (h : p.Keeps outer H state) (hf : p.Frame outer into sources state) (hx : x ∈ sources)
    (hc : p.graph x = some c) (hnone : state.map.get? x = none)
    (hneeds : p.Portable → ∀ d ∈ c.dependencies, p.Member d → ∃ y, state.map.get? d = some y)
    (hk : c.kind = .context data) (hdepth : depth ≠ 0)
    (hapart : ¬state.engine.store.graph.Within into x)
    (ih : ∀ H' state' id, p.Keeps (x :: outer) H' state' →
      p.Frame (x :: outer) id (p.engine.store.contentsOf x) state' → state.Later state' →
      state'.map.get? x = some id →
      Ends (copyAll p.t exclude depth (x :: outer) id (p.engine.store.contentsOf x)) state'
        (fun f => p.Portable → f = exhausted) fun _ state'' => ∃ H'',
          p.Keeps (x :: outer) H'' state'' ∧ state'.Later state'' ∧
            ∀ y ∈ p.engine.store.visits depth (p.engine.store.contentsOf x),
              ∃ z, state''.map.get? y = some z) :
    Ends (do
        let id ← copyShell p.t exclude into c.term data
        let contents ← (← store).sortedLocals x
        settle p.t exclude x id
        copyAll p.t exclude depth (x :: outer) id (contents.filter (· ∉ data.assumptions))) state
      (fun f => p.Portable → f = exhausted) fun _ state' => ∃ H', p.Keeps outer H' state' ∧
        state.Later state' ∧ ∃ y, state'.map.get? x = some y := by
  refine ends_bind (ends_shell h hf hx hc hneeds hnone hk) ?_
  rintro id state₁ ⟨H₁, hs₁, howner, hkeeps⟩
  have hx₁ := (hkeeps _ hs₁ (.refl _ _ _)).1
  have hne : x ≠ p.target := by
    rintro rfl
    exact hapart hf.inside
  have hcontents : state₁.engine.store.sortedLocals x = .ok (p.engine.store.localsOf x) := by
    obtain ⟨st, hst, hsame⟩ := Store.graph_eq_some.1 (hx₁.sub x c hc)
    have hrequire : state₁.engine.store.requireContext x = .ok st :=
      Store.requireContext_eq_ok.2 ⟨hst, Statement.isContext_iff.2 ⟨data, by
        rw [← hk, ← hsame]
        rfl⟩⟩
    rw [Store.sortedLocals_eq hs₁.lawful hs₁.maintained.sub hs₁.maintained.closed.owner hrequire,
      hs₁.maintained.indexed.localsOf_eq p.sound.maintained.indexed fun y =>
        hx₁.ownerOf_iff hc hne]
  refine ends_store_bind (ends_lift_ok_bind hcontents ?_)
  refine ends_bind (ends_settle hs₁) ?_
  rintro - ⟨e₂, map⟩ ⟨rfl, hs₂, hg₂⟩
  obtain ⟨hkeeps₂, hl₂⟩ := hkeeps e₂ hs₂ hg₂
  have hid : (state₁.map.insert x id).get? x = some id := Table.get?_insert_self _ _ _
  have hframe := hf.contents hx hc hk hkeeps₂ hl₂ hid (hg₂.kept.ownerOf howner)
  rw [← assumptionsOf_eq hc hk, ← Store.contentsOf]
  refine (ih H₁ _ id hkeeps₂ hframe hl₂ hid).imp ?_
  rintro - state₃ ⟨H₃, hkeeps₃, hl₃, hall⟩
  refine ⟨H₃, hkeeps₃.close (fun y hy => ?_) fun w hw => hf.below w hw x hx, hl₂.trans hl₃, id,
    hl₃.map x id hid⟩
  by_cases hmem : y ∈ p.engine.store.assumptionsOf x
  · rw [assumptionsOf_eq hc hk] at hmem
    exact hkeeps₃.assumption_copied hc hk hmem (hl₃.map x id hid)
  · exact hall y (Store.mem_visits_self hdepth (mem_contentsOf.2 ⟨hy, hmem⟩))

theorem Keeps.apart (h : p.Keeps outer H state) (hp : p.Portable)
    (hf : p.Frame outer into sources state) (hx : x ∈ sources) (hc : p.graph x = some c) :
    ¬state.engine.store.graph.Within into x := by
  intro hw
  obtain ⟨s, hs, hxs⟩ := hf.members x hx
  have htarget : p.graph.Within p.target x := by
    rcases hf.here with rfl | ⟨w, hw', -⟩
    · obtain ⟨ct, -, hct, -⟩ := p.context
      exact (h.grown.kept.within_of p.sound.maintained.closed.owner hct hw).1
    · exact h.target_within hw' hc hw
  exact hp.apart s hs (htarget.trans hxs)

theorem Portable.before {before after : List StatementId} (hp : p.Portable)
    (hc : p.graph x = some c) (hplain : ∀ i, c.kind ≠ .assumption i)
    (horder : p.order = before ++ x :: after) (hd : d ∈ c.dependencies) (hmem : p.Member d) :
    d ∈ before := by
  obtain ⟨st, hst, rfl⟩ := Store.graph_eq_some.1 hc
  refine hp.ordered before x after horder d (Store.mem_neededBy.2 ⟨st, hst, ?_, hd⟩) hmem
  rw [← Bool.not_eq_true, Statement.isAssumption_iff]
  rintro ⟨i, hi⟩
  exact hplain i hi

/-- Copying one statement, once it is known that contexts less deep can be copied into it. -/
theorem ends_source {depth : Nat} (exclude : IdSet) {before after : List StatementId}
    (h : p.Keeps outer H state) (hf : p.Frame outer into sources state) (hx : x ∈ sources)
    (hdepth : depth + 1 + outer.length = p.engine.store.size + p.sources.length + 1)
    (horder : p.order = before ++ p.engine.store.visits (depth + 1) [x] ++ after)
    (hbefore : ∀ y ∈ before, ∃ z, state.map.get? y = some z)
    (ih : ∀ H' state' id (before after : List StatementId), p.Keeps (x :: outer) H' state' →
      p.Frame (x :: outer) id (p.engine.store.contentsOf x) state' →
      p.order = before ++ p.engine.store.visits depth (p.engine.store.contentsOf x) ++ after →
      (∀ y ∈ before, ∃ z, state'.map.get? y = some z) →
      Ends (copyAll p.t exclude depth (x :: outer) id (p.engine.store.contentsOf x)) state'
        (fun f => p.Portable → f = exhausted) fun _ state'' => ∃ H'',
          p.Keeps (x :: outer) H'' state'' ∧ state'.Later state'' ∧
            ∀ y ∈ p.engine.store.visits depth (p.engine.store.contentsOf x),
              ∃ z, state''.map.get? y = some z) :
    Ends (copyAll p.t exclude (depth + 1) outer into [x]) state
      (fun f => p.Portable → f = exhausted) fun _ state' => ∃ H', p.Keeps outer H' state' ∧
        state.Later state' ∧ ∃ y, state'.map.get? x = some y := by
  have hout : x ∉ outer := fun hmem => Nat.lt_irrefl _ (hf.below x hmem x hx)
  have horder' : p.order = before ++ x :: (p.engine.store.assumptionsOf x ++
      p.engine.store.visits depth (p.engine.store.contentsOf x) ++ after) := by
    rw [horder]
    simp [Store.visits]
  obtain ⟨c, hc⟩ := hf.live x hx
  rw [copyAll]
  refine ends_bind (ends_get_bind ?_) fun _ _ hpost => ends_pure hpost
  dsimp only
  rw [h.counterpart_eq]
  cases hnone : state.map.get? x with
  | some y =>
    have hrun : (note x y).run state = (.ok (), state) := by
      change (Except.ok (), { state with map := state.map.insert x y }) = _
      rw [Table.insert_of_get? hnone]
    rw [Ends, hrun]
    exact ⟨H, h, .refl state, y, hnone⟩
  | none =>
    obtain ⟨st, hst, rfl⟩ := Store.graph_eq_some.1 (h.sub x c hc)
    refine ends_lift_ok_bind (Store.require_eq_ok.2 hst) ?_
    have hneeds (hplain : ∀ i, st.kind ≠ .assumption i) (hp : p.Portable) (d : StatementId)
        (hd : d ∈ st.dependencies) (hmem : p.Member d) : ∃ y, state.map.get? d = some y :=
      hbefore d (hp.before hc hplain horder' hd hmem)
    split
    case h_1 i hk =>
      intro hp
      exact absurd hk (hf.plain hp x hx st.content i hc)
    case h_2 value hk =>
      exact ends_declaration h hf hx hc (hneeds (by rw [hk]; exact nofun)) hnone hk
    case h_3 general argument hk =>
      exact ends_specialization h hf hx hc (hneeds (by rw [hk]; exact nofun)) hnone hk
    case h_4 data hk =>
      split
      case isTrue hcycle =>
        intro hp
        rw [Bool.or_eq_true, decide_eq_true_iff, Store.isWithin_iff] at hcycle
        exact absurd (hcycle.resolve_left hout) (h.apart hp hf hx hc)
      case isFalse hcycle =>
        rw [Bool.or_eq_true, not_or, Store.isWithin_iff] at hcycle
        have hle := h.depth_le hf hx
        have hstep := ends_context exclude depth h hf hx hc hnone
          (hneeds (by rw [hk]; exact nofun)) hk (by omega) hcycle.2
        apply hstep
        intro H₂ state₂ id h₂ hf₂ hl₂ hid
        apply ih H₂ state₂ id (before ++ x :: p.engine.store.assumptionsOf x) after h₂ hf₂
          (horder'.trans (by simp))
        intro y hy
        rcases List.mem_append.1 hy with hy | hy
        · obtain ⟨z, hz⟩ := hbefore y hy
          exact ⟨z, hl₂.map y z hz⟩
        · rcases List.mem_cons.1 hy with rfl | hy
          · exact ⟨id, hid⟩
          · rw [assumptionsOf_eq hc hk] at hy
            exact h₂.assumption_copied hc hk hy hid

/-- Copying statements keeps the invariant, and leaves nothing out. -/
theorem ends_copyAll {depth : Nat} (exclude : IdSet) {before after : List StatementId}
    (h : p.Keeps outer H state) (hf : p.Frame outer into sources state)
    (hdepth : depth + outer.length = p.engine.store.size + p.sources.length + 1)
    (horder : p.order = before ++ p.engine.store.visits depth sources ++ after)
    (hbefore : ∀ x ∈ before, ∃ y, state.map.get? x = some y) :
    Ends (copyAll p.t exclude depth outer into sources) state
      (fun f => p.Portable → f = exhausted) fun _ state' => ∃ H', p.Keeps outer H' state' ∧
        state.Later state' ∧
          ∀ x ∈ p.engine.store.visits depth sources, ∃ y, state'.map.get? x = some y := by
  induction depth generalizing outer into sources H state before after with
  | zero =>
    have hle := h.length_le hf
    omega
  | succ depth ih =>
    induction sources generalizing H state before with
    | nil => exact ends_pure ⟨H, h, .refl state, fun x hx => by cases hx⟩
    | cons x rest ihrest =>
      have hx : x ∈ x :: rest := List.mem_cons_self
      have hvisits : p.engine.store.visits (depth + 1) (x :: rest) =
          p.engine.store.visits (depth + 1) [x] ++ p.engine.store.visits (depth + 1) rest := by
        simp [Store.visits]
      rw [hvisits, ← List.append_assoc, List.append_assoc] at horder
      have hone := ends_source exclude h hf hx hdepth horder hbefore
        fun H' state' id before' after' h' hf' horder' hbefore' =>
          ih h' hf' (by rw [List.length_cons]; omega) horder' hbefore'
      rw [copyAll] at hone ⊢
      refine ends_forM_cons hone fun state₁ ⟨H₁, h₁, hl₁, y, hy⟩ => ?_
      have hin (z : StatementId) (hz : z ∈ p.engine.store.visits (depth + 1) [x]) :
          ∃ w, state₁.map.get? z = some w := by
        obtain ⟨x', hx', hw⟩ := within_of_visits hz
        cases List.mem_singleton.1 hx'
        exact h₁.within_mapped hy (fun hmem => Nat.lt_irrefl _ (hf.below x hmem x hx)) hw
      have horder₁ : p.order = before ++ p.engine.store.visits (depth + 1) [x] ++
          p.engine.store.visits (depth + 1) rest ++ after :=
        horder.trans (List.append_assoc _ _ _).symm
      have hbefore₁ (z : StatementId)
          (hz : z ∈ before ++ p.engine.store.visits (depth + 1) [x]) :
          ∃ w, state₁.map.get? z = some w := by
        rcases List.mem_append.1 hz with hz | hz
        · obtain ⟨w, hw⟩ := hbefore z hz
          exact ⟨w, hl₁.map z w hw⟩
        · exact hin z hz
      have hrest := ihrest h₁ (hf.mono hl₁ fun z hz => List.mem_cons_of_mem _ hz) horder₁ hbefore₁
      rw [copyAll] at hrest
      refine hrest.imp ?_
      rintro - state₂ ⟨H₂, h₂, hl₂, hall⟩
      refine ⟨H₂, h₂, hl₁.trans hl₂, fun z hz => ?_⟩
      rw [hvisits] at hz
      rcases List.mem_append.1 hz with hz | hz
      · obtain ⟨w, hw⟩ := hin z hz
        exact ⟨w, hl₂.map z w hw⟩
      · exact hall z hz

/-- The first frame: the listed statements, in dependency order, go into the target. -/
theorem frame_start (p : CopyPlan) : p.Frame [] p.target
    (p.engine.store.dependencySorted p.sources false) ⟨p.engine, {}⟩ where
  context := p.context
  inside := .refl
  inner _ hw := by cases hw
  here := Or.inl rfl
  below _ hw := by cases hw
  chain := .nil
  live x hx := p.live x (Store.mem_dependencySorted.1 hx)
  members x hx := ⟨x, Store.mem_dependencySorted.1 hx, .refl⟩
  plain hp x hx := hp.plain x (Store.mem_dependencySorted.1 hx)

theorem ends_copyList (p : CopyPlan) (exclude : IdSet) :
    Ends (copyList p.t p.target p.sources exclude) ⟨p.engine, {}⟩
      (fun f => p.Portable → f = exhausted) fun copies state => ∃ H, p.Keeps [] H state ∧
        p.sources.map state.map.get? = copies.map some := by
  refine ends_bind (ends_ensureOpen p.sound.isOpen) ?_
  rintro - _ rfl
  obtain ⟨ct, data, hct, hk⟩ := p.context
  obtain ⟨st, hst, rfl⟩ := Store.graph_eq_some.1 hct
  refine ends_store_bind (ends_lift_ok_bind (Store.requireContext_eq_ok.2
    ⟨hst, Statement.isContext_iff.2 ⟨data, hk⟩⟩) ?_)
  have horder : p.order = [] ++ p.order ++ [] := by simp
  refine ends_bind (ends_copyAll exclude p.keeps_start p.frame_start rfl horder nofun) ?_
  rintro - state ⟨H, h, -, hall⟩
  obtain ⟨cs, hcs, hmap⟩ : ∃ cs, copies state.map p.sources = .ok cs ∧
      p.sources.map state.map.get? = cs.map some := copies_of_mapped fun x hx =>
    hall x (Store.mem_visits_self (Nat.succ_ne_zero _) (Store.mem_dependencySorted.2 hx))
  refine ends_get_bind ?_
  rw [hcs]
  exact ⟨H, h, hmap⟩

theorem copy_cases (p : CopyPlan) (exclude : IdSet) :
    (∃ f map e', p.engine.copy p.t p.target p.sources {} exclude = (.error f, map, e') ∧
      (p.Portable → f = exhausted)) ∨
    ∃ copies map e' H, p.engine.copy p.t p.target p.sources {} exclude = (.ok copies, map, e') ∧
      p.Keeps [] H ⟨e', map⟩ ∧ p.sources.map map.get? = copies.map some := by
  have hends := p.ends_copyList exclude
  rw [Ends] at hends
  rw [copy]
  cases hrun : (copyList p.t p.target p.sources exclude).run ⟨p.engine, {}⟩ with
  | mk r state =>
    rw [hrun] at hends
    cases r with
    | error f => exact Or.inl ⟨f, _, _, rfl, hends⟩
    | ok copies =>
      obtain ⟨H, h, hmap⟩ := hends
      exact Or.inr ⟨copies, _, _, H, rfl, h, hmap⟩

theorem Keeps.copied {copies : List StatementId} (h : p.Keeps [] H state)
    (hmap : p.sources.map state.map.get? = copies.map some) (hx : p.Member x) :
    ∃ y, state.map.get? x = some y := by
  obtain ⟨s, hs, hw⟩ := hx
  have hmem : state.map.get? s ∈ _ := hmap ▸ List.mem_map_of_mem hs
  obtain ⟨y, -, hy⟩ := List.mem_map.1 hmem
  exact h.within_mapped hy.symm List.not_mem_nil hw

end CopyPlan

theorem Engine.isContext_of_copy {e e' : Engine} {t : TransactionId} {target : StatementId}
    {sources copies : List StatementId} {map map' : Correspondence} {exclude : IdSet}
    (hopen : e.isOpen t = true)
    (hrun : e.copy t target sources map exclude = (.ok copies, map', e')) :
    e.store.graph.IsContext target := by
  have hends : Copying.Ends (Copying.copyList t target sources exclude) ⟨e, map⟩ (fun _ => True)
      fun _ _ => e.store.graph.IsContext target := by
    refine Copying.ends_bind (Copying.ends_ensureOpen hopen) ?_
    rintro - _ rfl
    refine Copying.ends_store_bind (Copying.ends_lift_bind (fun _ _ => trivial) fun st hst => ?_)
    exact Copying.ends_const (isContext_of_require hst)
  rw [copy] at hrun
  rw [Copying.Ends] at hends
  cases hlist : (Copying.copyList t target sources exclude).run ⟨e, map⟩ with
  | mk r state =>
    rw [hlist] at hrun hends
    cases hrun
    exact hends

end StatementGraph
