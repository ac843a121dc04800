import StatementGraph.Proofs.Checking
import StatementGraph.Proofs.Entering
import StatementGraph.Proofs.Growth

namespace StatementGraph

namespace Graph

variable {G H : Graph} {D : Discipline} {o x id : StatementId} {c : Content} {term inner : Term}
  {owner : Option StatementId} {kind : ContextKind} {dependencies : IdSet}
  {ids : List StatementId} {context : Statement} {assumptions : List Statement}

def IsContext (G : Graph) (x : StatementId) : Prop :=
  ∃ c data, G x = some c ∧ c.kind = .context data

theorem IsContext.mono (h : G.IsContext x) (hs : G.Sub H) : H.IsContext x := by
  obtain ⟨c, data, hc, hk⟩ := h
  exact ⟨c, data, hs x c hc, hk⟩

def Hosts (G : Graph) (owner : Option StatementId) : Prop := ∀ o, owner = some o → G.IsContext o

theorem Hosts.mono (h : G.Hosts owner) (hs : G.Sub H) : H.Hosts owner :=
  fun o ho => (h o ho).mono hs

theorem hosts_none : G.Hosts none := fun _ ho => by cases ho

theorem IsContext.hosts (h : G.IsContext x) : G.Hosts (some x) := fun _ ho => by
  cases ho
  exact h

theorem Fresh.before {y : StatementId} (h : H.Fresh x) (hsees : H.Sees o y) : y < x := by
  obtain ⟨c, -, hc, -⟩ := hsees
  exact h y c hc

theorem Lawful.set_fresh (hH : H.Lawful D) (hfresh : H.Fresh x) (h : H.LawfulAt D x c) :
    (H.set x (some c)).Lawful D := by
  have hsub : H.Sub (H.set x (some c)) := Sub.set_new hfresh.eq_none
  refine hH.extend hsub fun y cy hy hnone => ?_
  by_cases hyx : y = x
  · subst hyx
    rw [set_self] at hy
    cases hy
    exact h.mono hsub
  · rw [set_ne hyx, hnone] at hy
    cases hy

section Plain

variable {d general : StatementId} {value argument : Term} (hH : H.Lawful D) (hsub : G.Sub H)
  (hs : G.Scoped)

include hH hsub hs

theorem sees_declaration (hc : G.Checks o value) (ha : D.Allows H value)
    (htype : value.typeOf = .ok term) (hd : d ∈ term.freeVars.union value.freeVars) :
    G.Sees o d := by
  rcases IdSet.mem_union.1 hd with hd | hd
  · exact hc.sees_typeOf hH hsub hs ha htype hd
  · exact hc.sees hd

theorem lawfulAt_declaration (hfresh : H.Fresh x) (hctx : G.IsContext o) (hc : G.Checks o value)
    (ha : D.Allows H value) (htype : value.typeOf = .ok term) :
    H.LawfulAt D x ⟨some o, term, term.freeVars.union value.freeVars, .declaration value⟩ where
  owner o' ho := by
    cases ho
    obtain ⟨c, data, hco, hk⟩ := hctx
    exact ⟨hfresh o c (hsub o c hco), c, data, hsub o c hco, hk⟩
  dependency d hd := by
    have hsees := hsub.sees (sees_declaration hH hsub hs hc ha htype hd)
    exact ⟨hfresh.before hsees, o, rfl, hsees⟩
  built := .declaration (hc.mono hsub) htype
  term := (hc.mono hsub).allows_typeOf hH ha htype
  supplied t ht := by
    cases ht
    exact ha

theorem sees_specialization (hg : G general = some c) (hsees : G.Sees o general)
    (hc : G.Checks o argument) (hcompose : c.term.compose argument = .ok term)
    (hd : d ∈ (term.freeVars.insert general).union argument.freeVars) : G.Sees o d := by
  rw [IdSet.mem_union, IdSet.mem_insert] at hd
  rcases hd with (rfl | hd) | hd
  · exact hsees
  · exact hc.sees_compose hs (hH.tracked_of_sub hsub) hg hsees hcompose hd
  · exact hc.sees hd

theorem lawfulAt_specialization (hfresh : H.Fresh x) (hctx : G.IsContext o)
    (hg : G general = some c) (hsees : G.Sees o general) (hc : G.Checks o argument)
    (ha : D.Allows H argument) (hcompose : c.term.compose argument = .ok term) :
    H.LawfulAt D x ⟨some o, term, (term.freeVars.insert general).union argument.freeVars,
      .specialization general argument⟩ where
  owner o' ho := by
    cases ho
    obtain ⟨c, data, hco, hk⟩ := hctx
    exact ⟨hfresh o c (hsub o c hco), c, data, hsub o c hco, hk⟩
  dependency d hd := by
    have hsees := hsub.sees (sees_specialization hH hsub hs hg hsees hc hcompose hd)
    exact ⟨hfresh.before hsees, o, rfl, hsees⟩
  built := .specialization (hsub _ _ hg) (hc.mono hsub) hcompose
  term := (hH _ _ (hsub _ _ hg)).term.compose ha hcompose
  supplied t ht := by
    cases ht
    exact ha

end Plain

/-- What the checks before a context is made establish. -/
structure Opens (G : Graph) (owner : Option StatementId) (term : Term) (kind : ContextKind)
    (dependencies : IdSet) (inner : Term) : Prop where
  inside : ∀ o, owner = some o → G.IsContext o
  root : owner = none ↔ kind = .root
  visible : ∀ y ∈ term.freeVars, ∃ o, owner = some o ∧ G.Sees o y
  unfolds : G.Unfolds term dependencies inner kind
  unfolded : ∀ d, kind = .unfolding d → ∃ o, owner = some o ∧ G.Sees o d

theorem Opens.sees (h : G.Opens owner term kind dependencies inner) {d : StatementId}
    (hd : d ∈ dependencies) : ∃ o, owner = some o ∧ G.Sees o d :=
  (h.unfolds.mem_dependencies.1 hd).elim (h.visible d) (h.unfolded d)

theorem Opens.sees_inner (h : G.Opens owner term kind dependencies inner) (hs : G.Scoped)
    (ht : G.Tracked) {y : StatementId} (hy : y ∈ inner.unproject.freeVars) :
    ∃ o, owner = some o ∧ G.Sees o y := by
  refine h.unfolds.sees hs ht h.visible h.unfolded ?_
  rwa [Term.freeVars, Term.occurrences_unproject] at hy

def assumptionRecord (context : StatementId) (order : Nat) (entry : StatementId × Term) :
    Statement :=
  { id := entry.1
    owner := some context
    term := entry.2
    proved := false
    dependencies := entry.2.freeVars
    identifier := none
    kind := .assumption order }

theorem contextRecords_eq
    (h : contextRecords owner term kind id dependencies inner ids = (context, assumptions))
    (hlen : ids.length = inner.unproject.arity) :
    ∃ entries consequent, inner.unproject.peel (entries.map Prod.fst) = (entries, consequent) ∧
      entries.map Prod.fst = ids ∧
      context = { id, owner, term, proved := false, dependencies, identifier := none,
                  kind := .context ⟨kind, ids, consequent⟩ } ∧
      assumptions.map Statement.id = ids ∧
      ∀ st, st ∈ assumptions ↔
        ∃ i entry, entries[i]? = some entry ∧ st = assumptionRecord id i entry := by
  cases hpeel : inner.unproject.peel ids with
  | mk entries consequent =>
    have hids := Term.peel_ids hpeel hlen
    rw [contextRecords, hpeel, Prod.mk.injEq] at h
    obtain ⟨rfl, rfl⟩ := h
    refine ⟨entries, consequent, hids.symm ▸ hpeel, hids, by rw [hids], ?_, fun st => ?_⟩
    · rw [List.map_map, ← hids]
      calc entries.zipIdx.map _ = (entries.zipIdx.map Prod.fst).map Prod.fst := by
            rw [List.map_map]; rfl
        _ = entries.map Prod.fst := by rw [List.zipIdx_map_fst]
    · rw [List.mem_map]
      constructor
      · rintro ⟨⟨entry, i⟩, hmem, rfl⟩
        exact ⟨i, entry, List.mem_zipIdx_iff_getElem?.1 hmem, rfl⟩
      · rintro ⟨i, entry, hi, rfl⟩
        exact ⟨(entry, i), List.mem_zipIdx_iff_getElem?.2 hi, rfl⟩

theorem contextRecords_ids
    (h : contextRecords owner term kind id dependencies inner ids = (context, assumptions))
    (hlen : ids.length = inner.unproject.arity) :
    (context :: assumptions).map Statement.id = id :: ids ∧
      ∃ data, context.kind = .context data := by
  obtain ⟨entries, consequent, -, -, rfl, hmap, -⟩ := contextRecords_eq h hlen
  exact ⟨by rw [List.map_cons, hmap], _, rfl⟩

theorem contextRecords_unnamed
    (h : contextRecords owner term kind id dependencies inner ids = (context, assumptions)) :
    ∀ st ∈ context :: assumptions, st.identifier = none := by
  rw [contextRecords, Prod.mk.injEq] at h
  obtain ⟨rfl, rfl⟩ := h
  intro st hst
  rcases List.mem_cons.1 hst with rfl | hst
  · rfl
  · obtain ⟨entry, -, rfl⟩ := List.mem_map.1 hst
    rfl

theorem Opens.sees_domain {entries : List (StatementId × Term)} {consequent : Term} {i : Nat}
    {entry : StatementId × Term} {d : StatementId} (h : G.Opens owner term kind dependencies inner)
    (hs : G.Scoped) (ht : G.Tracked) (hpeel : inner.unproject.peel ids = (entries, consequent))
    (hi : entries[i]? = some entry) (hd : d ∈ entry.2.freeVars) :
    (∃ o, owner = some o ∧ G.Sees o d) ∨ d ∈ (entries.take i).map Prod.fst := by
  obtain ⟨type, hd⟩ := Term.mem_freeVars.1 hd
  rcases (Term.mem_occurrences_peel hpeel).1 i entry.1 entry.2 hi (d, type) hd with hd | hd
  · exact Or.inl (h.sees_inner hs ht (Term.mem_freeVars.2 ⟨type, hd⟩))
  · exact Or.inr (List.mem_map.2 ⟨(d, type), hd, rfl⟩)

section Added

variable {K : Graph} {entries : List (StatementId × Term)} {consequent : Term} (hH : H.Lawful D)
  (hsub : G.Sub H) (hgrow : H.Sub K) (hopens : G.Opens owner term kind dependencies inner)
  (hfresh : H.Fresh id) (hallow : D.Allows H term)
  (hpeel : inner.unproject.peel (entries.map Prod.fst) = (entries, consequent))
  (hassumed : ∀ i a domain, entries[i]? = some (a, domain) →
    K a = some ⟨some id, domain, domain.freeVars, .assumption i⟩)

include hsub hgrow hopens hfresh hallow hpeel hassumed

theorem lawfulAt_context (hlen : entries.length = inner.unproject.arity) :
    K.LawfulAt D id ⟨owner, term, dependencies, .context ⟨kind, entries.map Prod.fst, consequent⟩⟩
    where
  owner o ho := by
    obtain ⟨c, data, hc, hk⟩ := hopens.inside o ho
    exact ⟨hfresh o c (hsub o c hc), c, data, hgrow o c (hsub o c hc), hk⟩
  dependency d hd := by
    obtain ⟨o, ho, hsees⟩ := hopens.sees hd
    have hsees := hsub.sees hsees
    exact ⟨hfresh.before hsees, o, ho, hgrow.sees hsees⟩
  built := .context hopens.root ((hopens.unfolds.mono hsub).mono hgrow) hpeel hlen hassumed
  term := hallow.mono hgrow
  supplied t ht := by cases ht

include hH in
theorem lawfulAt_assumption (hs : G.Scoped) (ht : G.Tracked)
    (hhere : K id =
      some ⟨owner, term, dependencies, .context ⟨kind, entries.map Prod.fst, consequent⟩⟩)
    (hids : (id :: entries.map Prod.fst).Pairwise (· < ·)) {i : Nat} {a : StatementId}
    {domain : Term} (hi : entries[i]? = some (a, domain)) :
    K.LawfulAt D a ⟨some id, domain, domain.freeVars, .assumption i⟩ where
  owner o ho := by
    cases ho
    have hmem : a ∈ entries.map Prod.fst :=
      List.mem_map.2 ⟨(a, domain), List.mem_of_getElem? hi, rfl⟩
    exact ⟨(List.pairwise_cons.1 hids).1 a hmem, _, _, hhere, rfl⟩
  dependency d hd := by
    have hsorted := List.pairwise_cons.1 hids
    have hafter : id < a :=
      hsorted.1 a (List.mem_map.2 ⟨(a, domain), List.mem_of_getElem? hi, rfl⟩)
    rcases hopens.sees_domain hs ht hpeel hi hd with ⟨o, ho, hsees⟩ | hd
    · have hsees := hsub.sees hsees
      have hinside : K.Within id o := .single (ownerOf_eq.2 ⟨_, hhere, ho⟩)
      exact ⟨Nat.lt_trans (hfresh.before hsees) hafter, id, rfl, (hgrow.sees hsees).within hinside⟩
    · obtain ⟨⟨d, type⟩, he, rfl⟩ := List.mem_map.1 hd
      obtain ⟨j, hj, hget⟩ := List.mem_take_iff_getElem.1 he
      obtain ⟨hi', hget'⟩ := List.getElem?_eq_some_iff.1 hi
      have hj' : entries[j]? = some (d, type) := by
        rw [List.getElem?_eq_getElem (by omega), hget]
      have hlt : d < a := by
        have hpair := List.pairwise_iff_getElem.1 (List.pairwise_map.1 hsorted.2) j i (by omega) hi'
          (by omega)
        rwa [hget, hget'] at hpair
      exact ⟨hlt, id, rfl, _, id, hassumed j d type hj', rfl, .refl⟩
  built := .assumption hhere rfl (by rw [List.getElem?_map, hi]; rfl)
  term := by
    have hinner := ((hopens.unfolds.mono hsub).allows hH hallow).unproject.mono hgrow
    refine (hinner.peel hpeel fun e he => ?_).1 (a, domain) (List.mem_of_getElem? hi)
    obtain ⟨j, hj⟩ := List.mem_iff_getElem?.1 he
    exact D.own (hassumed j e.1 e.2 hj)
  supplied t ht := by cases ht

end Added

section Context

variable (hlen : ids.length = inner.unproject.arity)
  (hopens : G.Opens owner term kind dependencies inner)
  (hrecords : contextRecords owner term kind id dependencies inner ids = (context, assumptions))

include hlen hopens hrecords

/-- The records of a new context fit into the graph that they were checked against. -/
theorem contextFits (hs : G.Scoped) (ht : G.Tracked) (hnodup : (id :: ids).Nodup)
    (hnew : ∀ y ∈ id :: ids, G y = none) : Engine.ContextFits G context assumptions := by
  obtain ⟨entries, consequent, hpeel, hfst, rfl, hmap, hmem⟩ := contextRecords_eq hrecords hlen
  have hlive (d : StatementId) (h : ∃ o, owner = some o ∧ G.Sees o d) : ∃ c, G d = some c := by
    obtain ⟨o, -, c, -, hc, -⟩ := h
    exact ⟨c, hc⟩
  refine ⟨?_, fun st hst => ?_, fun st hst => ?_, fun o ho => ?_, fun d hd => ?_, ?_,
    fun a ha => ?_, fun a ha d hd => ?_⟩
  · rw [List.map_cons, hmap]
    exact hnodup
  · refine hnew st.id ?_
    rcases List.mem_cons.1 hst with rfl | hst
    · exact List.mem_cons_self
    · exact List.mem_cons_of_mem _ (hmap ▸ List.mem_map_of_mem hst)
  · rcases List.mem_cons.1 hst with rfl | hst
    · rfl
    · obtain ⟨i, entry, -, rfl⟩ := (hmem st).1 hst
      rfl
  · obtain ⟨c, data, hc, -⟩ := hopens.inside o ho
    exact ⟨c, hc⟩
  · exact hlive d (hopens.sees hd)
  · exact hmap.symm
  · obtain ⟨i, entry, -, rfl⟩ := (hmem a).1 ha
    exact ⟨rfl, rfl⟩
  · obtain ⟨i, entry, hi, rfl⟩ := (hmem a).1 ha
    refine (hopens.sees_domain hs ht hpeel hi hd).imp (hlive d) fun hd => ?_
    obtain ⟨e, he, rfl⟩ := List.mem_map.1 hd
    rw [hmap, ← hfst]
    exact List.mem_map_of_mem (List.mem_of_mem_take he)

/-- A context with its assumptions can be added under new ids in ascending order. -/
theorem lawful_context (hH : H.Lawful D) (hsub : G.Sub H) (hs : G.Scoped) (ht : G.Tracked)
    (hfresh : H.Fresh id) (hids : (id :: ids).Pairwise (· < ·)) (hallow : D.Allows H term) :
    (H.setAll (context :: assumptions)).Lawful D := by
  obtain ⟨entries, consequent, hpeel, rfl, hcontext, hmap, hmem⟩ := contextRecords_eq hrecords hlen
  have hid : context.id = id := by rw [hcontext]
  have hcontent : context.content = ⟨owner, term, dependencies,
      .context ⟨kind, entries.map Prod.fst, consequent⟩⟩ := by rw [hcontext]; rfl
  have hnodup : ((context :: assumptions).map Statement.id).Nodup := by
    rw [List.map_cons, hmap, hid]
    refine hids.imp fun {a b} (hlt : a.raw < b.raw) (he : a = b) => ?_
    exact Nat.lt_irrefl _ (he ▸ hlt)
  have hnone (st : Statement) (hst : st ∈ context :: assumptions) : H st.id = none := by
    rcases List.mem_cons.1 hst with rfl | hst
    · rw [hid]
      exact hfresh.eq_none
    · have hlt := (List.pairwise_cons.1 hids).1 st.id (hmap ▸ List.mem_map_of_mem hst)
      exact Fresh.eq_none fun y c hy => Nat.lt_trans (hfresh y c hy) hlt
  have hgrow : H.Sub (H.setAll (context :: assumptions)) := Sub.setAll_new hnone
  have hhere : H.setAll (context :: assumptions) id = some context.content :=
    hid ▸ setAll_mem hnodup List.mem_cons_self
  have hassumed (i : Nat) (a : StatementId) (domain : Term) (hi : entries[i]? = some (a, domain)) :
      H.setAll (context :: assumptions) a =
        some ⟨some id, domain, domain.freeVars, .assumption i⟩ := by
    have hrecord : assumptionRecord id i (a, domain) ∈ assumptions :=
      (hmem _).2 ⟨i, (a, domain), hi, rfl⟩
    exact setAll_mem hnodup (List.mem_cons_of_mem _ hrecord)
  refine hH.extend hgrow fun x c hx hnew => ?_
  rcases setAll_cases hx with ⟨st, hst, rfl, rfl⟩ | hx
  · rcases List.mem_cons.1 hst with rfl | hst
    · rw [hid, hcontent]
      exact lawfulAt_context hsub hgrow hopens hfresh hallow hpeel hassumed
        (by rw [← List.length_map, hlen])
    · obtain ⟨i, ⟨a, domain⟩, hi, rfl⟩ := (hmem st).1 hst
      rw [hcontent] at hhere
      exact lawfulAt_assumption hH hsub hgrow hopens hfresh hallow hpeel hassumed hs ht hhere
        hids hi
  · rw [hnew] at hx
    cases hx

end Context

end Graph

end StatementGraph
