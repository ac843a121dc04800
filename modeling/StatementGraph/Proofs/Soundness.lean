import StatementGraph.Proofs.Operation
import StatementGraph.Proofs.Truth

namespace StatementGraph

namespace Graph

variable {H : Graph} {D : Discipline} {v : Valuation} {o x y : StatementId} {c : Content}
  {t T : Term}

/-- The truth of a variable: that of the value for a declaration, and true for all others. -/
def meaning (H : Graph) (atom : String → Bool) (x : StatementId) : Bool :=
  match (H x).map Content.kind with
  | some (.declaration value) =>
    value.truth ⟨atom, fun y => if y < x then meaning H atom y else true⟩
  | _ => true
termination_by x.raw

/-- A valuation gives variables of declarations the truth of the values. -/
def Honors (H : Graph) (v : Valuation) : Prop := ∀ x c value, H x = some c →
  c.kind = .declaration value → value.truth v = v.var x

theorem Lawful.honors {atom : String → Bool} (h : H.Lawful D) :
    H.Honors ⟨atom, H.meaning atom⟩ := by
  intro x c value hx hk
  have hmeaning : H.meaning atom x =
      value.truth ⟨atom, fun y => if y < x then H.meaning atom y else true⟩ := by
    rw [meaning, hx, Option.map_some, hk]
  refine Eq.trans ?_ hmeaning.symm
  refine Term.truth_congr rfl fun y hy => ?_
  have hreads : y ∈ c.dependencies :=
    ((h x c hx).built.tracked y).2 (Or.inr (by rw [hk]; exact hy))
  exact (if_pos ((h x c hx).dependency y hreads).1).symm

/-- All assumptions of a context and of the contexts around it are true. -/
def Granted (H : Graph) (v : Valuation) (o : StatementId) : Prop := ∀ k a c i, H.Within o k →
  H a = some c → c.owner = some k → c.kind = .assumption i → c.term.truth v = true

theorem Granted.sees (h : H.Granted v o) (hs : H.Sees o x) (hx : H x = some c) :
    ∀ o', c.owner = some o' → H.Granted v o' := by
  intro o' ho' k a ca i hw
  obtain ⟨c', o'', hc', ho'', hw'⟩ := hs
  cases hx.symm.trans hc'
  cases ho'.symm.trans ho''
  exact h k a ca i (hw'.trans hw)

/-- Inside a context the domains of its term are granted, besides what is granted around it. -/
theorem Lawful.granted {entries : List (StatementId × Term)} {data : ContextData}
    (h : H.Lawful D) (hx : H x = some c) (hk : c.kind = .context data)
    (hids : data.assumptions = entries.map Prod.fst)
    (hentries : ∀ i a domain, entries[i]? = some (a, domain) →
      H a = some ⟨some x, domain, domain.freeVars, .assumption i⟩)
    (hdomains : ∀ e ∈ entries, e.2.truth v = true)
    (ho : ∀ o, c.owner = some o → H.Granted v o) : H.Granted v x := by
  intro k a ca i hw ha howner hkind
  rcases Relation.ReflTransGen.cases_head hw with rfl | ⟨o, hxo, hok⟩
  · -- an assumption of the context itself has one of the domains as its term
    obtain ⟨o, co, data', ho', hco, hk', hi⟩ := h.assumption ha hkind
    cases howner.symm.trans ho'
    cases hx.symm.trans hco
    cases hk.symm.trans hk'
    rw [hids, List.getElem?_map, Option.map_eq_some_iff] at hi
    obtain ⟨⟨a', domain⟩, hi, rfl⟩ := hi
    cases ha.symm.trans (hentries i a' domain hi)
    exact hdomains _ (List.mem_of_getElem? hi)
  · obtain ⟨c', hc', hown⟩ := ownerOf_eq.1 hxo
    cases hx.symm.trans hc'
    exact ho o hown k a ca i hok ha howner hkind

theorem Checks.truth_typeOf (h : H.Lawful .paramless) (hc : H.Checks o t)
    (ht : Discipline.paramless.Allows H t) (hT : t.typeOf = .ok T)
    (htrue : ∀ y cy, y ∈ t.freeVars → H y = some cy → cy.term.truth v = true) :
    T.truth v = true := by
  refine Term.truth_typeOf hc.1 hT (ht.2.1.resolve_left id) (fun y type hy => ?_)
    fun y type hy => ?_
  · obtain ⟨-, cy, hcy, heq⟩ := hc.2 y type hy
    exact Term.paramFree_of_beq heq ((h y cy hcy).term.2.1.resolve_left id)
  · obtain ⟨-, cy, hcy, heq⟩ := hc.2 y type hy
    rw [Term.truth_of_beq heq]
    exact htrue y cy (Term.mem_freeVars.2 ⟨type, hy⟩) hcy

theorem Unfolds.truth {term inner : Term} {dependencies : IdSet} {kind : ContextKind}
    (h : H.Unfolds term dependencies inner kind) (hv : H.Honors v) :
    inner.truth v = term.truth v := by
  cases kind with
  | unfolding d =>
    obtain ⟨c, value, hc, hk, -, rfl⟩ := h
    refine Term.truth_mapVars fun y image hy => ?_
    split at hy
    · cases hy
      subst_vars
      exact hv _ c value hc hk
    · cases hy
  | nested => rw [h.2]
  | root => rw [h.2]

/-- Where the assumptions around it are true, a derivable statement is. -/
theorem Derivable.truth (h : H.Lawful .paramless) (hv : H.Honors v) (hx : H.Derivable x) :
    ∀ c, H x = some c → (∀ o, c.owner = some o → H.Granted v o) → c.term.truth v = true := by
  induction hx with
  | @plain x c hx hk _ ih =>
    intro c' hc' hgranted
    cases hx.symm.trans hc'
    have hlaw := h x c hx
    have hseen (d cd) (hd : d ∈ c.dependencies) (hcd : H d = some cd) : cd.term.truth v = true := by
      obtain ⟨-, o, ho, hsees⟩ := hlaw.dependency d hd
      exact ih d hd cd hcd ((hgranted o ho).sees hsees hcd)
    cases hlaw.built with
    | assumption => exact hgranted _ rfl _ x _ _ .refl hx rfl rfl
    | declaration hchecks htype =>
      refine hchecks.truth_typeOf h (hlaw.supplied _ rfl) htype fun y cy hy hcy => ?_
      exact hseen y cy (IdSet.mem_union.2 (Or.inr hy)) hcy
    | @specialization o general cg argument term hgeneral hchecks hcompose =>
      have hmem : general ∈ (term.freeVars.insert general).union argument.freeVars :=
        IdSet.mem_union.2 (Or.inl (IdSet.mem_insert.2 (Or.inl rfl)))
      refine Term.truth_compose hcompose ((h general cg hgeneral).term.2.1.resolve_left id)
        (hseen general cg hmem hgeneral) fun found hfound => ?_
      refine hchecks.truth_typeOf h (hlaw.supplied _ rfl) hfound fun y cy hy hcy => ?_
      exact hseen y cy (IdSet.mem_union.2 (Or.inr hy)) hcy
    | context => exact absurd rfl (hk _)
  | @solved x y c hx _ hs _ _ ihy =>
    intro c' hc' hgranted
    cases hx.symm.trans hc'
    obtain ⟨-, hsees, c₁, cy, data, hx₁, hk, hcy, hterm⟩ := hs
    cases hx.symm.trans hx₁
    have hlaw := h x c hx
    cases hlaw.built with
    | @context owner term inner consequent dependencies kind entries _ hinner hpeel _ hentries =>
      cases hk
      -- inside the context its assumptions are granted, so the solver shows the consequent
      rw [← hinner.truth hv, ← Term.truth_unproject]
      have hfree := (hinner.allows h hlaw.term).2.1.resolve_left id
      refine Term.truth_of_peel hpeel (Term.paramFree_unproject hfree) fun hdomains => ?_
      rw [← Term.truth_of_beq hterm]
      exact ihy cy hcy ((h.granted hx rfl rfl hentries hdomains hgranted).sees hsees hcy)
    | _ => cases hk

end Graph

namespace Store

variable {s : Store} {H : Graph} {x : StatementId} {st : Statement}

/-- A root that is proved is a tautology: it has no variables, and nothing is assumed around it. -/
theorem Maintained.tautology (h : s.Maintained H) (hH : H.Lawful .paramless)
    (hst : s.get? x = some st) (hroot : st.isRoot = true) (hproved : st.proved = true) :
    st.term.Tautology := by
  intro v
  have hx := h.sub x _ (graph_of_get? hst)
  have hlaw := hH x _ hx
  have howner : st.owner = none := hlaw.built.owner_eq_none.2 (Statement.isRoot_iff.1 hroot)
  have hclosed (y) : y ∉ st.term.freeVars := by
    intro hy
    obtain ⟨-, o, ho, -⟩ := hlaw.dependency y ((hlaw.built.tracked y).2 (Or.inl hy))
    cases howner.symm.trans ho
  have hderivable := (h.proved_iff.1 ((proved_of_get? hst).2 hproved)).mono h.sub
  calc st.term.truth v
      = st.term.truth ⟨v.atom, H.meaning v.atom⟩ :=
        Term.truth_congr rfl fun y hy => absurd hy (hclosed y)
    _ = true := hderivable.truth hH hH.honors _ hx fun o ho => by cases howner.symm.trans ho

end Store

/-- In a sequential run without parameters, every proved root is a propositional tautology. -/
theorem Reached.root_tautology {e : Engine} {x : StatementId} {st : Statement}
    (h : Reached (fun e op => op.Sequential e ∧ op.Paramless) e) (hst : e.store.get? x = some st)
    (hroot : st.isRoot = true) (hproved : st.proved = true) : st.term.Tautology := by
  obtain ⟨H, hsession⟩ := h.session (fun _ _ hop => hop.1) (fun _ _ hop => hop.2.offers)
  exact hsession.maintained.tautology hsession.lawful hst hroot hproved

theorem twoRoots_tautology :
    let s := (Op.runAll (.inMemory {}) twoRoots).store
    ∃ st, s.get? (.after 3) = some st ∧ st.isRoot = true ∧ st.proved = true ∧
      st.term.Tautology := by
  intro s
  have hflags : (s.get? (.after 3)).map (fun st => (st.isRoot, st.proved)) =
      some (true, true) := rfl
  obtain ⟨st, hst, hflags⟩ := Option.map_eq_some_iff.1 hflags
  obtain ⟨hroot, hproved⟩ := Prod.mk.inj hflags
  have hreached := reached_twoRoots.mono fun e op hop => And.intro hop.1 hop.2.2
  exact ⟨st, hst, hroot, hproved, Reached.root_tautology hreached hst hroot hproved⟩

end StatementGraph
