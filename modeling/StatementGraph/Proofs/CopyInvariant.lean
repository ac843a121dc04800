import StatementGraph.Proofs.BatchOrder
import StatementGraph.Proofs.Copying
import StatementGraph.Proofs.Replicas

namespace StatementGraph

open Engine

namespace Store

def assumptionsOf (s : Store) (x : StatementId) : List StatementId :=
  ((s.get? x).map Statement.assumptions).getD []

def contentsOf (s : Store) (x : StatementId) : List StatementId :=
  (s.localsOf x).filter (· ∉ s.assumptionsOf x)

/-- The order in which copying comes to statements. -/
def visits (s : Store) : Nat → List StatementId → List StatementId
  | 0, _ => []
  | depth + 1, ids => ids.flatMap fun x =>
    x :: (s.assumptionsOf x ++ s.visits depth (s.contentsOf x))

def copyOrder (s : Store) (ids : List StatementId) : List StatementId :=
  s.visits (s.size + ids.length + 1) (s.dependencySorted ids false)

theorem mem_visits_self {s : Store} {depth : Nat} {ids : List StatementId} {x : StatementId}
    (hdepth : depth ≠ 0) (hx : x ∈ ids) : x ∈ s.visits depth ids := by
  cases depth with
  | zero => exact absurd rfl hdepth
  | succ depth => exact List.mem_flatMap.2 ⟨x, hx, List.mem_cons_self⟩

end Store

structure CopyState.Later (state state' : CopyState) : Prop where
  graph : state.engine.store.graph.Sub state'.engine.store.graph
  map : ∀ o x, state.map.get? o = some x → state'.map.get? o = some x

theorem CopyState.Later.refl (state : CopyState) : state.Later state :=
  ⟨.refl _, fun _ _ hox => hox⟩

theorem CopyState.Later.trans {s s' s'' : CopyState} (h : s.Later s') (h' : s'.Later s'') :
    s.Later s'' :=
  ⟨h.graph.trans h'.graph, fun o x hox => h'.map o x (h.map o x hox)⟩

/-- Statements to be copied into a context, with the engine and its history before. -/
structure CopyPlan where
  t : TransactionId
  history : Graph
  engine : Engine
  target : StatementId
  sources : List StatementId
  sound : Sound .exact t history engine
  context : engine.store.graph.IsContext target
  live : ∀ x ∈ sources, ∃ c, engine.store.graph x = some c

namespace CopyPlan

variable {p : CopyPlan} {outer : List StatementId} {H H' : Graph} {state : CopyState} {e' : Engine}
  {d o w x y z into : StatementId} {c : Content} {t : Term}

def graph (p : CopyPlan) : Graph := p.engine.store.graph

def Member (p : CopyPlan) (x : StatementId) : Prop := ∃ s ∈ p.sources, p.graph.Within x s

def order (p : CopyPlan) : List StatementId := p.engine.store.copyOrder p.sources

/-- Statements that can be copied into a target that is outside them. -/
structure Portable (p : CopyPlan) : Prop where
  plain : ∀ x ∈ p.sources, ∀ c i, p.graph x = some c → c.kind ≠ .assumption i
  apart : ∀ x ∈ p.sources, ¬p.graph.Within p.target x
  visible : ∀ x c d, p.Member x → p.graph x = some c → d ∈ c.dependencies →
    p.Member d ∨ p.graph.Sees p.target d
  closed : ∀ x c d c' y, p.Member x → p.graph x = some c → d ∈ c.dependencies → ¬p.Member d →
    p.graph d = some c' → y ∈ c'.dependencies → ¬p.Member y
  ordered : ∀ before x after, p.order = before ++ x :: after →
    ∀ d ∈ p.engine.store.neededBy x, p.Member d → d ∈ before

/-- What holds while statements are copied, where `outer` are the contexts being copied now. -/
structure Keeps (p : CopyPlan) (outer : List StatementId) (H : Graph) (state : CopyState) : Prop
    where
  sound : Sound .exact p.t H state.engine
  grown : Grown p.t p.history p.engine H state.engine
  replica : p.history.Replica H state.map
  known : ∀ o x, state.map.get? o = some x → ∃ c, p.graph o = some c
  beyond : ∀ o x, state.map.get? o = some x → ¬p.engine.store.allocator.Past x
  place : ∀ o x, state.map.get? o = some x →
    state.engine.store.graph.ownerOf x = some p.target ∨ ∃ q q', p.graph.ownerOf o = some q ∧
      state.map.get? q = some q' ∧ state.engine.store.graph.ownerOf x = some q'
  filled : ∀ o x, state.map.get? o = some x → o ∉ outer →
    ∀ y, p.graph.ownerOf y = some o → ∃ z, state.map.get? y = some z
  upward : ∀ w ∈ outer, ∀ o x, p.graph.Within w o → state.map.get? o = some x → o ∈ outer
  member : ∀ o x, state.map.get? o = some x → p.Member o
  ready : p.Portable → ∀ o x c d, state.map.get? o = some x → p.graph o = some c →
    (∀ i, c.kind ≠ .assumption i) → d ∈ c.dependencies → p.Member d →
      ∃ y, state.map.get? d = some y ∧ y < x

theorem keeps_start (p : CopyPlan) : p.Keeps [] p.history ⟨p.engine, {}⟩ where
  sound := p.sound
  grown := .refl _ _ _
  replica := .start _
  known _ _ h := by cases h
  beyond _ _ h := by cases h
  place _ _ h := by cases h
  filled _ _ h := by cases h
  upward _ h := by cases h
  member _ _ h := by cases h
  ready _ _ _ _ _ h := by cases h

theorem sub_history (p : CopyPlan) : p.graph.Sub p.history := p.sound.maintained.sub

theorem forest (p : CopyPlan) : p.graph.Forest := p.sound.maintained.forest p.sound.lawful

section

variable (h : p.Keeps outer H state)

include h

theorem Keeps.sub (x : StatementId) (c : Content) (hx : p.graph x = some c) :
    state.engine.store.graph x = some c := h.grown.kept x c hx

theorem Keeps.lawfulAt (hx : p.graph x = some c) : H.LawfulAt .exact x c :=
  h.sound.lawful x c (h.sound.maintained.sub x c (h.sub x c hx))

theorem Keeps.owned (hox : state.map.get? o = some x) :
    ∃ q, state.engine.store.graph.ownerOf x = some q := by
  rcases h.place o x hox with hq | ⟨-, q, -, -, hq⟩
  · exact ⟨_, hq⟩
  · exact ⟨q, hq⟩

theorem Keeps.live (hox : state.map.get? o = some x) :
    ∃ c, state.engine.store.graph x = some c := by
  obtain ⟨q, hq⟩ := h.owned hox
  obtain ⟨c, hc, -⟩ := Graph.ownerOf_eq.1 hq
  exact ⟨c, hc⟩

theorem Keeps.new (hox : state.map.get? o = some x) : p.graph x = none := by
  refine Option.eq_none_iff_forall_ne_some.2 fun c hc => ?_
  cases (p.sub_history x c hc).symm.trans (h.replica.fresh o x hox)

theorem Keeps.cases (hx : state.engine.store.graph x = some c) :
    p.graph x = some c ∨ ∃ o, state.map.get? o = some x := by
  rcases h.grown.new x c hx with hx | hnone
  · exact Or.inl hx
  · rcases h.replica.cover x c (h.sound.maintained.sub x c hx) with hx | ho
    · cases hx.symm.trans hnone
    · exact Or.inr ho

/-- The assumptions of copied contexts are mapped, so the correspondence alone gives copies. -/
theorem Keeps.counterpart_eq (x : StatementId) :
    state.engine.store.counterpart state.map x = state.map.get? x := by
  rw [Store.counterpart]
  cases hx : state.map.get? x with
  | some y => rfl
  | none =>
    refine Option.eq_none_iff_forall_ne_some.2 fun a ha => ?_
    dsimp only at ha
    obtain ⟨st, hst, ha⟩ := Option.bind_eq_some_iff.1 ha
    obtain ⟨i, hi, ha⟩ := Option.bind_eq_some_iff.1 ha
    obtain ⟨q, hq, ha⟩ := Option.bind_eq_some_iff.1 ha
    obtain ⟨q', hq', -⟩ := Option.bind_eq_some_iff.1 ha
    have hkind : st.content.kind = .assumption i := by
      rw [Statement.content]
      rw [Statement.order?] at hi
      split at hi
      case h_1 hk => cases hi; exact hk
      case h_2 => cases hi
    have hH := h.sound.maintained.sub x _ (Store.graph_of_get? hst)
    obtain ⟨o, co, data, ho, hco, hk, hlist⟩ := h.sound.lawful.assumption hH hkind
    cases ho.symm.trans hq
    obtain ⟨c₁, c₂, hc₁, hc₂, hrenders⟩ := h.replica.renders q q' hq'
    cases hco.symm.trans hc₁
    cases hrenders with
    | context _ _ hassumptions =>
      cases hk
      have hpos := congrArg (·[i]?) hassumptions
      simp only [List.getElem?_map] at hpos
      rw [hlist, Option.map_some, hx] at hpos
      obtain ⟨b, -, hb⟩ := Option.map_eq_some_iff.1 hpos.symm
      cases hb
    | _ => cases hk

theorem Keeps.counterpartOrSelf_eq (x : StatementId) :
    state.engine.store.counterpartOrSelf state.map x = (state.map.get? x).getD x := by
  rw [Store.counterpartOrSelf, h.counterpart_eq]

theorem Keeps.unfolded?_carryKind (kind : ContextKind) :
    (state.engine.store.carryKind state.map kind).unfolded? =
      kind.unfolded?.map fun d => (state.map.get? d).getD d := by
  cases kind with
  | unfolding d =>
    rw [Store.carryKind, h.counterpartOrSelf_eq]
    rfl
  | nested => rfl
  | root => rfl

theorem Keeps.carry_eq (t : Term) :
    state.engine.store.carry state.map t = t.mapVars (H.renamed state.map.get?) := by
  rw [Store.carry]
  congr 1
  funext x
  rw [h.counterpart_eq]
  cases hx : state.map.get? x with
  | none => exact (Graph.renamed_of_none hx).symm
  | some y =>
    obtain ⟨c, hc⟩ := h.live hx
    obtain ⟨st, hst, rfl⟩ := Store.graph_eq_some.1 hc
    have hid := h.sound.maintained.indexed.keyed y st hst
    rw [Graph.renamed_of_some hx (h.sound.maintained.sub y _ hc), Option.bind_some, hst]
    subst hid
    rfl

theorem Keeps.declaration_copy {cd cd' : Content} {value : Term} (hd : H d = some cd)
    (hk : cd.kind = .declaration value) (hd' : H ((state.map.get? d).getD d) = some cd') :
    ∃ value', cd'.kind = .declaration value' := by
  cases hy : state.map.get? d with
  | none =>
    rw [hy] at hd'
    cases hd.symm.trans hd'
    exact ⟨value, hk⟩
  | some y =>
    rw [hy] at hd'
    obtain ⟨c₁, c₂, hc₁, hc₂, hrenders⟩ := h.replica.renders d y hy
    cases hd.symm.trans hc₁
    cases hd'.symm.trans hc₂
    cases hrenders with
    | declaration => exact ⟨_, rfl⟩
    | _ => cases hk

theorem Keeps.lt_fresh (hx : H.Fresh x) (hoy : state.map.get? o = some y) : y < x := by
  obtain ⟨c, hc⟩ := h.live hoy
  exact hx y c (h.sound.maintained.sub y c hc)

theorem Keeps.within_mapped (hox : state.map.get? o = some x) (ho : o ∉ outer)
    (hw : p.graph.Within y o) : ∃ z, state.map.get? y = some z := by
  induction hw using Relation.ReflTransGen.head_induction_on with
  | refl => exact ⟨x, hox⟩
  | @head a b hab hbo ih =>
    obtain ⟨z, hz⟩ := ih
    have hb : b ∉ outer := fun hb => ho (h.upward b hb o x hbo hox)
    exact h.filled b z hz hb a hab

theorem Keeps.target_within (hox : state.map.get? o = some x) (hy : p.graph y = some c)
    (hw : state.engine.store.graph.Within x y) : p.graph.Within p.target y := by
  obtain ⟨ct, -, hct, -⟩ := p.context
  have hrooted := p.sound.maintained.closed.owner
  induction hw using Relation.ReflTransGen.head_induction_on generalizing o with
  | refl => cases hy.symm.trans (h.new hox)
  | @head a b hab hby ih =>
    rcases h.place o a hox with ht | ⟨q, q', -, hq, hq'⟩
    · cases hab.symm.trans ht
      exact (h.grown.kept.within_of hrooted hct hby).1
    · cases hab.symm.trans hq'
      exact ih hq

/-- A context outside which the target lies has got no new statements. -/
theorem Keeps.ownerOf_iff (hx : p.graph x = some c) (hne : x ≠ p.target) :
    state.engine.store.graph.ownerOf y = some x ↔ p.graph.ownerOf y = some x := by
  refine ⟨fun hy => ?_, fun hy => h.grown.kept.ownerOf hy⟩
  obtain ⟨cy, hcy, howner⟩ := Graph.ownerOf_eq.1 hy
  rcases h.cases hcy with hcy | ⟨o, ho⟩
  · exact Graph.ownerOf_eq.2 ⟨cy, hcy, howner⟩
  · rcases h.place o y ho with ht | ⟨q, q', -, hq, hq'⟩
    · cases hy.symm.trans ht
      exact absurd rfl hne
    · cases hy.symm.trans hq'
      cases hx.symm.trans (h.new hq)

end

/-- A copy that is made now fits in with the others. -/
structure Adds (p : CopyPlan) (H H' : Graph) (state : CopyState) (o x : StatementId) : Prop where
  fresh : H.Fresh x
  beyond : ¬p.engine.store.allocator.Past x
  known : ∃ c, p.graph o = some c
  renders : ∃ c c', H' o = some c ∧ H' x = some c' ∧
    H'.Renders state.map.get? (state.map.older x) c c'
  place : state.engine.store.graph.ownerOf x = some p.target ∨ ∃ q q', p.graph.ownerOf o = some q ∧
    state.map.get? q = some q' ∧ state.engine.store.graph.ownerOf x = some q'
  member : p.Member o
  ready : p.Portable → ∀ c d, p.graph o = some c → (∀ i, c.kind ≠ .assumption i) →
    d ∈ c.dependencies → p.Member d → ∃ y, state.map.get? d = some y ∧ y < x

/-- New copies have been made and noted. -/
theorem Keeps.extend {outer' : List StatementId} {pairs : List (StatementId × StatementId)}
    (h : p.Keeps outer H state) (hs : Sound .exact p.t H' e')
    (hg : Grown p.t H state.engine H' e') (hkeys : (pairs.map Prod.fst).Nodup)
    (hvalues : (pairs.map Prod.snd).Nodup) (hnone : ∀ pair ∈ pairs, state.map.get? pair.1 = none)
    (hcover : ∀ x c, H' x = some c → H x = some c ∨ ∃ o, (o, x) ∈ pairs)
    (hadds : ∀ o x, (o, x) ∈ pairs → p.Adds H H' ⟨e', state.map.insertAll pairs⟩ o x)
    (hfilled : ∀ o x, (o, x) ∈ pairs → o ∉ outer' → ∀ y, p.graph.ownerOf y = some o →
      ∃ z, (state.map.insertAll pairs).get? y = some z)
    (houter : ∀ w ∈ outer, w ∈ outer')
    (hupward : ∀ w ∈ outer', ∀ o x, p.graph.Within w o →
      (state.map.insertAll pairs).get? o = some x → o ∈ outer') :
    p.Keeps outer' H' ⟨e', state.map.insertAll pairs⟩ := by
  have hget (o x : StatementId) : (state.map.insertAll pairs).get? o = some x ↔
      state.map.get? o = some x ∨ (o, x) ∈ pairs := Correspondence.get?_insertAll hkeys hnone
  have hold (o x : StatementId) (hox : state.map.get? o = some x) :
      (state.map.insertAll pairs).get? o = some x := (hget o x).2 (Or.inl hox)
  have hnew (o x : StatementId) (hox : (state.map.insertAll pairs).get? o = some x)
      (ho : state.map.get? o = none) : (o, x) ∈ pairs := by
    refine ((hget o x).1 hox).resolve_left fun hox => ?_
    cases hox.symm.trans ho
  refine ⟨hs, h.grown.trans hg, ?_, fun o x hox => ?_, fun o x hox => ?_, fun o x hox => ?_,
    fun o x hox hout y hy => ?_, hupward, fun o x hox => ?_, fun hp o x c d hox hc hk hd hmem => ?_⟩
  · apply h.replica.grow h.sound.lawful hg.history hold
    · intro o x hox ho
      have hadd := hadds o x (hnew o x hox ho)
      obtain ⟨c, hc⟩ := hadd.known
      exact ⟨hadd.fresh, ⟨c, p.sub_history o c hc⟩, hadd.renders⟩
    · intro o o' x hox hox' ho ho'
      have hmem := hnew o x hox ho
      have hmem' := hnew o' x hox' ho'
      have heq := List.inj_on_of_nodup_map hvalues hmem hmem' rfl
      cases heq
      rfl
    · intro x c hx
      refine (hcover x c hx).imp_right fun ⟨o, ho⟩ => ?_
      exact ⟨o, (hget o x).2 (Or.inr ho)⟩
  · rcases (hget o x).1 hox with hox | hox
    · exact h.known o x hox
    · exact (hadds o x hox).known
  · rcases (hget o x).1 hox with hox | hox
    · exact h.beyond o x hox
    · exact (hadds o x hox).beyond
  · rcases (hget o x).1 hox with hox | hox
    · rcases h.place o x hox with ht | ⟨q, q', hq, hqq', hx⟩
      · exact Or.inl (hg.kept.ownerOf ht)
      · exact Or.inr ⟨q, q', hq, hold q q' hqq', hg.kept.ownerOf hx⟩
    · exact (hadds o x hox).place
  · rcases (hget o x).1 hox with hox | hox
    · obtain ⟨z, hz⟩ := h.filled o x hox (fun ho => hout (houter o ho)) y hy
      exact ⟨z, hold y z hz⟩
    · exact hfilled o x hox hout y hy
  · rcases (hget o x).1 hox with hox | hox
    · exact h.member o x hox
    · exact (hadds o x hox).member
  · rcases (hget o x).1 hox with hox | hox
    · obtain ⟨y, hy, hlt⟩ := h.ready hp o x c d hox hc hk hd hmem
      exact ⟨y, hold d y hy, hlt⟩
    · exact (hadds o x hox).ready hp c d hc hk hd hmem

/-- Copies are being made of statements of the plan, in `into`. -/
structure Frame (p : CopyPlan) (outer : List StatementId) (into : StatementId)
    (sources : List StatementId) (state : CopyState) : Prop where
  context : state.engine.store.graph.IsContext into
  inside : state.engine.store.graph.Within into p.target
  inner : ∀ w ∈ outer, ∃ w', state.map.get? w = some w' ∧
    state.engine.store.graph.Within into w'
  here : into = p.target ∨ ∃ w, state.map.get? w = some into ∧
    ∀ x ∈ sources, p.graph.ownerOf x = some w
  below : ∀ w ∈ outer, ∀ x ∈ sources, w < x
  chain : outer.Pairwise (· > ·)
  live : ∀ x ∈ sources, ∃ c, p.graph x = some c
  members : ∀ x ∈ sources, p.Member x
  plain : p.Portable → ∀ x ∈ sources, ∀ c i, p.graph x = some c → c.kind ≠ .assumption i

/-- More has been copied, and some statements have been dealt with. -/
theorem Frame.mono {sources sources' : List StatementId} {state' : CopyState}
    (hf : p.Frame outer into sources state) (hl : state.Later state')
    (hsub : ∀ x ∈ sources', x ∈ sources) : p.Frame outer into sources' state' where
  context := hf.context.mono hl.graph
  inside := hl.graph.within hf.inside
  inner w hw := by
    obtain ⟨w', hw', hinto⟩ := hf.inner w hw
    exact ⟨w', hl.map w w' hw', hl.graph.within hinto⟩
  here := by
    rcases hf.here with rfl | ⟨w, hw, hall⟩
    · exact Or.inl rfl
    · exact Or.inr ⟨w, hl.map w into hw, fun x hx => hall x (hsub x hx)⟩
  below w hw x hx := hf.below w hw x (hsub x hx)
  chain := hf.chain
  live x hx := hf.live x (hsub x hx)
  members x hx := hf.members x (hsub x hx)
  plain hp x hx := hf.plain hp x (hsub x hx)

theorem Keeps.sees_copy {sources : List StatementId} (h : p.Keeps outer H state)
    (hf : p.Frame outer into sources state) (hx : p.graph x = some c)
    (hnone : state.map.get? x = none) (hd : d ∈ c.dependencies)
    (hy : state.map.get? d = some y) : state.engine.store.graph.Sees into y := by
  have hscoped := p.sound.lawful.scoped_of_sub p.sub_history p.sound.maintained.closed
  obtain ⟨o, ho, cd, q, hcd, hq, hw⟩ := hscoped x c d hx hd
  rcases h.place d y hy with ht | ⟨q₁, q', hq₁, hqq', howner⟩
  · obtain ⟨cy, hcy, ht⟩ := Graph.ownerOf_eq.1 ht
    exact ⟨cy, p.target, hcy, ht, hf.inside⟩
  · cases hq₁.symm.trans (Graph.ownerOf_eq.2 ⟨cd, hcd, hq⟩)
    -- a context that is copied already would have a copy of the statement in it
    have hout : q ∈ outer := by
      by_contra hout
      obtain ⟨z, hz⟩ := h.within_mapped hqq' hout (.head (Graph.ownerOf_eq.2 ⟨c, hx, ho⟩) hw)
      cases hnone.symm.trans hz
    obtain ⟨w', hw', hinto⟩ := hf.inner q hout
    cases hqq'.symm.trans hw'
    obtain ⟨cy, hcy, howner⟩ := Graph.ownerOf_eq.1 howner
    exact ⟨cy, q', hcy, howner, hinto⟩

/-- A statement that can be copied next: what it depends on and is to be copied has copies. -/
structure Due (p : CopyPlan) (state : CopyState) (x : StatementId) (c : Content) : Prop where
  content : p.graph x = some c
  member : p.Member x
  plain : ∀ i, c.kind ≠ .assumption i
  uncopied : state.map.get? x = none
  needs : ∀ d ∈ c.dependencies, p.Member d → ∃ y, state.map.get? d = some y

section

variable {sources : List StatementId} (h : p.Keeps outer H state) (hp : p.Portable)

include h hp

theorem Keeps.timely : H.Timely state.map := by
  intro o x c hox ho hk d hd
  obtain ⟨c₀, hc₀⟩ := h.known o x hox
  cases ho.symm.trans (h.sound.maintained.sub o _ (h.sub o c₀ hc₀))
  have hready (hmem : p.Member d) := h.ready hp o x c d hox hc₀ hk hd hmem
  refine ⟨fun y hy => ?_, fun hnone c' hc' z hz => ?_⟩
  · obtain ⟨y', hy', hlt⟩ := hready (h.member d y hy)
    cases hy.symm.trans hy'
    exact hlt
  · obtain ⟨cd, hcd⟩ := p.sound.maintained.closed.dependency o c d hc₀ hd
    cases hc'.symm.trans (h.sound.maintained.sub d _ (h.sub d cd hcd))
    have hnot : ¬p.Member d := fun hmem => by
      obtain ⟨y, hy, -⟩ := hready hmem
      cases hnone.symm.trans hy
    refine Option.eq_none_iff_forall_ne_some.2 fun w hw => ?_
    exact hp.closed o c d c' z (h.member o x hox) hc₀ hd hnot hcd hz (h.member z w hw)

theorem Keeps.renames : H.Renames state.map.get? :=
  h.replica.renames p.sound.lawful (h.timely hp)

theorem Keeps.term_copy {cy cz : Content} (hyz : state.map.get? y = some z) (hcy : H y = some cy)
    (hcz : H z = some cz) : cz.term = cy.term.mapVars (H.renamed state.map.get?) :=
  (h.renames hp).term h.sound.lawful hyz hcy hcz

variable (hx : p.Due state x c)

include hx

omit h hp in
theorem Due.not_member (hd : d ∈ c.dependencies) (hnone : state.map.get? d = none) :
    ¬p.Member d := fun hmem => by
  obtain ⟨y, hy⟩ := hx.needs d hd hmem
  cases hnone.symm.trans hy

theorem Keeps.renamable : H.Renamable state.map.get? c := by
  apply h.replica.renamable p.sound.lawful (p.sub_history x c hx.content)
  intro d hd hnone c' hc' y hy
  obtain ⟨cd, hcd⟩ := p.sound.maintained.closed.dependency x c d hx.content hd
  cases hc'.symm.trans (h.sound.maintained.sub d _ (h.sub d cd hcd))
  refine Option.eq_none_iff_forall_ne_some.2 fun w hw => ?_
  exact hp.closed x c d c' y hx.member hx.content hd (hx.not_member hd hnone) hcd hy
    (h.member y w hw)

theorem Keeps.respects (ht : Discipline.exact.Allows H t)
    (hdep : ∀ y ∈ t.freeVars, y ∈ c.dependencies) :
    t.Respects (H.renamed state.map.get?) :=
  (h.renames hp).respects h.sound.lawful (h.renamable hp hx) ht hdep fun _ _ _ _ _ => h.term_copy hp

variable (hf : p.Frame outer into sources state)

include hf

theorem Keeps.sees (hd : d ∈ c.dependencies) :
    state.engine.store.graph.Sees into ((state.map.get? d).getD d) := by
  cases hy : state.map.get? d with
  | some y => exact h.sees_copy hf hx.content hx.uncopied hd hy
  | none =>
    have hsees := (hp.visible x c d hx.member hx.content hd).resolve_left (hx.not_member hd hy)
    exact (h.grown.kept.sees hsees).within hf.inside

/-- A term over what a statement depends on can be asserted where the statement is copied to. -/
theorem Keeps.checks (ht : Discipline.exact.Allows H t)
    (hdep : ∀ y ∈ t.freeVars, y ∈ c.dependencies) :
    state.engine.store.graph.Checks into (state.engine.store.carry state.map t) := by
  have hallow := h.sound.maintained.allows_carry state.map ht
  refine ⟨hallow.2.2, fun y type hy => ?_⟩
  have hfree : y ∈ (state.engine.store.carry state.map t).freeVars := Term.mem_freeVars.2 ⟨type, hy⟩
  have hlive (o z : StatementId) (hoz : state.map.get? o = some z) : ∃ c, H z = some c :=
    h.replica.live hoz
  rw [h.carry_eq, Term.mem_freeVars_mapVars (Graph.mapVars_renamed_var hlive)] at hfree
  obtain ⟨d, hd, rfl⟩ := hfree
  have hsees := h.sees hp hx hf (hdep d hd)
  have ⟨cy, _, hcy, _⟩ := hsees
  obtain ⟨cy', hcy', rfl⟩ := hallow.1 _ type hy
  cases hcy'.symm.trans (h.sound.maintained.sub _ _ hcy)
  exact ⟨hsees, cy, hcy, Term.beq_refl _⟩

theorem Keeps.declares {value : Term} (hk : c.kind = .declaration value) :
    state.engine.store.graph.Checks into (state.engine.store.carry state.map value) ∧
      ∃ term, (state.engine.store.carry state.map value).typeOf = .ok term := by
  have hlaw := h.lawfulAt hx.content
  have hallow := hlaw.supplied value (by rw [hk]; rfl)
  have hdep (y : StatementId) (hy : y ∈ value.freeVars) : y ∈ c.dependencies :=
    (hlaw.built.tracked y).2 (Or.inr (by rw [hk]; exact hy))
  refine ⟨h.checks hp hx hf hallow hdep, ?_⟩
  cases hlaw.built with
  | declaration hchecks htype =>
    cases hk
    rw [h.carry_eq]
    exact ⟨_, Term.typeOf_mapVars Graph.renaming_renamed hchecks.1
      (h.respects hp hx hallow hdep) htype⟩
  | _ => cases hk

theorem Keeps.specializes {general : StatementId} {argument : Term}
    (hk : c.kind = .specialization general argument) :
    state.engine.store.graph.Checks into (state.engine.store.carry state.map argument) ∧
      state.engine.store.graph.Sees into (state.engine.store.counterpartOrSelf state.map general) ∧
      ∃ cg term, state.engine.store.graph (state.engine.store.counterpartOrSelf state.map general) =
        some cg ∧ cg.term.compose (state.engine.store.carry state.map argument) = .ok term := by
  have hlaw := h.lawfulAt hx.content
  have hallow := hlaw.supplied argument (by rw [hk]; rfl)
  have htracked := hlaw.built.tracked
  have hgeneral : general ∈ c.dependencies :=
    (htracked general).2 (Or.inr (by rw [hk]; exact Or.inl rfl))
  have hdep (y : StatementId) (hy : y ∈ argument.freeVars) : y ∈ c.dependencies :=
    (htracked y).2 (Or.inr (by rw [hk]; exact Or.inr hy))
  rw [h.counterpartOrSelf_eq]
  have hsees := h.sees hp hx hf hgeneral
  have ⟨cg', _, hcg', _⟩ := hsees
  refine ⟨h.checks hp hx hf hallow hdep, hsees, cg', ?_⟩
  cases hlaw.built with
  | specialization hg hchecks hcompose =>
    cases hk
    have hterm := (h.renamable hp hx).term_of_dependency h.sound.lawful
      (fun _ _ _ _ _ => h.term_copy hp) hgeneral hg (h.sound.maintained.sub _ _ hcg')
    rw [h.carry_eq, hterm]
    exact ⟨_, hcg', Term.compose_mapVars Graph.renaming_renamed (h.sound.lawful _ _ hg).term.2.2
      hchecks.1 (h.respects hp hx hallow hdep)
      (h.respects hp hx hlaw.term fun y hy => (htracked y).2 (Or.inl hy)) hcompose⟩
  | _ => cases hk

/-- The copy of a context can be made. -/
theorem Keeps.opens {data : ContextData} (hk : c.kind = .context data) :
    state.engine.store.graph.Checks into (state.engine.store.carry state.map c.term) ∧
      ∃ dependencies inner, state.engine.store.graph.Unfolds
          (state.engine.store.carry state.map c.term) dependencies inner
          (state.engine.store.carryKind state.map data.kind) ∧
        ∀ d, state.engine.store.carryKind state.map data.kind = .unfolding d →
          state.engine.store.graph.Sees into d := by
  have hlaw := h.lawfulAt hx.content
  have htracked := hlaw.built.tracked
  refine ⟨h.checks hp hx hf hlaw.term fun y hy => (htracked y).2 (Or.inl hy), ?_⟩
  cases hkind : data.kind with
  | root => exact ⟨_, _, ⟨rfl, rfl⟩, nofun⟩
  | nested => exact ⟨_, _, ⟨rfl, rfl⟩, nofun⟩
  | unfolding d =>
    have hd : d ∈ c.dependencies := (htracked d).2 (Or.inr (by rw [hk]; exact hkind))
    have hsees := h.sees hp hx hf hd
    have ⟨cd', _, hcd', _⟩ := hsees
    obtain ⟨cd, value, hcd, hvalue⟩ : ∃ cd value, H d = some cd ∧ cd.kind = .declaration value := by
      cases hlaw.built with
      | context _ hinner =>
        cases hk
        cases hkind
        obtain ⟨cd, value, hcd, hvalue, -⟩ := hinner
        exact ⟨cd, value, hcd, hvalue⟩
      | _ => cases hk
    obtain ⟨value', hvalue'⟩ := h.declaration_copy hcd hvalue (h.sound.maintained.sub _ _ hcd')
    rw [Store.carryKind, h.counterpartOrSelf_eq]
    refine ⟨_, _, ⟨cd', value', hcd', hvalue', rfl, rfl⟩, fun d' hd' => ?_⟩
    cases hd'
    exact hsees

end

end CopyPlan

end StatementGraph
