import Mathlib.Data.List.Nodup
import StatementGraph.Proofs.Rule
import StatementGraph.Proofs.TermCasts

namespace StatementGraph

def Term.Obeys (leaf : StatementId → Term → Prop) (params : Prop) (t : Term) : Prop :=
  (∀ x type, (x, type) ∈ t.occurrences → leaf x type) ∧ (params ∨ t.paramFree = true) ∧
    t.castFree = true

/-- A rule for terms by which carried types mention no more than statements do. -/
structure Discipline where
  leaf : Graph → StatementId → Term → Prop
  params : Prop
  mono : ∀ {G H : Graph} {x : StatementId} {type : Term}, G.Sub H → leaf G x type → leaf H x type
  own : ∀ {H : Graph} {x : StatementId} {c : Content}, H x = some c → leaf H x c.term
  carried : ∀ {H : Graph} {x : StatementId} {c : Content} {type : Term}, leaf H x type →
    H x = some c → c.term.Obeys (leaf H) params → (type == c.term) = true →
      type.Obeys (leaf H) params ∧ ∀ y ∈ type.freeVars, y ∈ c.term.freeVars

namespace Discipline

/-- Every variable carries the very term of its statement. -/
def exact : Discipline where
  leaf H x type := ∃ c, H x = some c ∧ c.term = type
  params := True
  mono := by
    rintro G H x type hs ⟨c, hc, ht⟩
    exact ⟨c, hs x c hc, ht⟩
  own hx := ⟨_, hx, rfl⟩
  carried := by
    rintro H x c type ⟨c', hc', rfl⟩ hx hobeys -
    rw [hx] at hc'
    cases hc'
    exact ⟨hobeys, fun y hy => hy⟩

def paramless : Discipline where
  leaf _ _ _ := True
  params := False
  mono _ _ := trivial
  own _ := trivial
  carried := by
    rintro H x c type - - ⟨-, hfree, hcast⟩ heq
    have hfree := hfree.resolve_left id
    refine ⟨⟨fun _ _ _ => trivial, Or.inr (Term.paramFree_of_beq heq hfree),
      Term.castFree_of_beq heq hfree hcast⟩, fun y hy => ?_⟩
    rwa [Term.freeVars_of_beq heq hfree] at hy

variable {D : Discipline} {G H : Graph} {t u T arg value : Term} {d : StatementId}

def Allows (D : Discipline) (H : Graph) (t : Term) : Prop := t.Obeys (D.leaf H) D.params

theorem Allows.mono (h : D.Allows G t) (hs : G.Sub H) : D.Allows H t :=
  ⟨fun x type hx => D.mono hs (h.1 x type hx), h.2⟩

theorem Allows.unproject (h : D.Allows H t) : D.Allows H t.unproject := by
  refine ⟨fun x type hx => h.1 x type ?_, h.2.1.imp_right Term.paramFree_unproject,
    Term.castFree_unproject h.2.2⟩
  rwa [Term.occurrences_unproject] at hx

theorem Allows.mapVars {f : StatementId → Option Term} (h : D.Allows H t)
    (hf : ∀ x image, f x = some image → D.Allows H image) : D.Allows H (t.mapVars f) := by
  refine ⟨fun x type hx => ?_, ?_,
    Term.castFree_mapVars h.2.2 fun x image hx => (hf x image hx).2.2⟩
  · rcases Term.mem_occurrences_mapVars hx with hx | ⟨y, type', image, -, hy, hx⟩
    · exact h.1 x type hx
    · exact (hf y image hy).1 x type hx
  · refine h.2.1.elim Or.inl fun ht => ?_
    by_cases hp : D.params
    · exact Or.inl hp
    · exact Or.inr
        (Term.paramFree_mapVars ht fun x image hx => (hf x image hx).2.1.resolve_left hp)

theorem Allows.replaceVar (h : D.Allows H t) (hv : D.Allows H value) :
    D.Allows H (t.replaceVar d value) := by
  refine h.mapVars fun x image hx => ?_
  split at hx
  · cases hx
    exact hv
  · cases hx

theorem Allows.compose (h : D.Allows H t) (ha : D.Allows H arg) (hT : t.compose arg = .ok T) :
    D.Allows H T := by
  refine ⟨fun x type hx => ?_, ?_, Term.castFree_compose hT h.2.2 ha.2.2⟩
  · rcases Term.mem_occurrences_compose hT hx with hx | hx
    · exact h.1 x type hx
    · exact ha.1 x type hx
  · rcases h.2.1 with hp | ht
    · exact Or.inl hp
    · exact ha.2.1.imp_right fun ha => Term.paramFree_compose hT ht ha

/-- Taking functions off the front of a term, for variables that the discipline admits. -/
theorem Allows.peel {ids : List StatementId} {entries : List (StatementId × Term)}
    {consequent : Term} (h : D.Allows H t) (hpeel : Term.peel ids t = (entries, consequent))
    (hentries : ∀ e ∈ entries, D.leaf H e.1 e.2) :
    (∀ e ∈ entries, D.Allows H e.2) ∧ D.Allows H consequent := by
  obtain ⟨hdomains, hleft⟩ := Term.mem_occurrences_peel hpeel
  have hfree := h.2.1.imp_right (Term.paramFree_peel hpeel)
  have hcast := Term.castFree_peel hpeel h.2.2
  constructor
  · intro e he
    obtain ⟨i, hi⟩ := List.mem_iff_getElem?.1 he
    refine ⟨fun x type hx => ?_, hfree.imp_right fun hf => hf.1 e he, hcast.1 e he⟩
    rcases hdomains i e.1 e.2 hi (x, type) hx with hx | hx
    · exact h.1 x type hx
    · exact hentries (x, type) (List.mem_of_mem_take hx)
  · refine ⟨fun x type hx => ?_, hfree.imp_right And.right, hcast.2⟩
    rcases hleft (x, type) hx with hx | hx
    · exact h.1 x type hx
    · exact hentries (x, type) hx

end Discipline

def StatementKind.supplied? : StatementKind → Option Term
  | declaration value => some value
  | specialization _ argument => some argument
  | _ => none

namespace Graph

variable {G H : Graph} {D : Discipline} {o x y : StatementId} {c : Content} {t T : Term}

def Checks (H : Graph) (o : StatementId) (t : Term) : Prop :=
  t.castFree = true ∧ ∀ x type, (x, type) ∈ t.occurrences →
    H.Sees o x ∧ ∃ c, H x = some c ∧ (type == c.term) = true

theorem Checks.mono (h : G.Checks o t) (hs : G.Sub H) : H.Checks o t := by
  refine ⟨h.1, fun x type hx => ?_⟩
  obtain ⟨hsees, c, hc, heq⟩ := h.2 x type hx
  exact ⟨hs.sees hsees, c, hs x c hc, heq⟩

/-- What a new context depends on, and the term that it reads. -/
def Unfolds (H : Graph) (term : Term) (dependencies : IdSet) (inner : Term) : ContextKind → Prop
  | .unfolding d => ∃ c value, H d = some c ∧ c.kind = .declaration value ∧
      dependencies = term.freeVars.insert d ∧ inner = term.replaceVar d value
  | _ => dependencies = term.freeVars ∧ inner = term

theorem Unfolds.mono {term inner : Term} {dependencies : IdSet} {kind : ContextKind}
    (h : G.Unfolds term dependencies inner kind) (hs : G.Sub H) :
    H.Unfolds term dependencies inner kind := by
  cases kind with
  | unfolding d =>
    obtain ⟨c, value, hc, h⟩ := h
    exact ⟨c, value, hs d c hc, h⟩
  | nested => exact h
  | root => exact h

theorem Unfolds.mem_dependencies {term inner : Term} {dependencies : IdSet} {kind : ContextKind}
    {d : StatementId} (h : H.Unfolds term dependencies inner kind) :
    d ∈ dependencies ↔ d ∈ term.freeVars ∨ kind = .unfolding d := by
  cases kind with
  | unfolding e =>
    obtain ⟨c, value, -, -, rfl, -⟩ := h
    rw [IdSet.mem_insert, ContextKind.unfolding.injEq, or_comm, eq_comm]
  | nested => simp [h.1]
  | root => simp [h.1]

/-- The ways in which statements are made. -/
inductive Built (H : Graph) (x : StatementId) : Content → Prop where
  | assumption {o : StatementId} {c : Content} {data : ContextData} {term : Term} {order : Nat}
      (howner : H o = some c) (hkind : c.kind = .context data)
      (horder : data.assumptions[order]? = some x) :
      Built H x ⟨some o, term, term.freeVars, .assumption order⟩
  | declaration {o : StatementId} {value term : Term} (hchecks : H.Checks o value)
      (htype : value.typeOf = .ok term) :
      Built H x ⟨some o, term, term.freeVars.union value.freeVars, .declaration value⟩
  | specialization {o general : StatementId} {c : Content} {argument term : Term}
      (hgeneral : H general = some c) (hchecks : H.Checks o argument)
      (hcompose : c.term.compose argument = .ok term) :
      Built H x ⟨some o, term, (term.freeVars.insert general).union argument.freeVars,
        .specialization general argument⟩
  | context {owner : Option StatementId} {term inner consequent : Term} {dependencies : IdSet}
      {kind : ContextKind} {entries : List (StatementId × Term)}
      (hroot : owner = none ↔ kind = .root) (hinner : H.Unfolds term dependencies inner kind)
      (hpeel : inner.unproject.peel (entries.map Prod.fst) = (entries, consequent))
      (harity : entries.length = inner.unproject.arity)
      (hentries : ∀ i a domain, entries[i]? = some (a, domain) →
        H a = some ⟨some x, domain, domain.freeVars, .assumption i⟩) :
      Built H x ⟨owner, term, dependencies, .context ⟨kind, entries.map Prod.fst, consequent⟩⟩

theorem Built.mono (h : G.Built x c) (hs : G.Sub H) : H.Built x c := by
  cases h with
  | assumption howner hkind horder => exact .assumption (hs _ _ howner) hkind horder
  | declaration hchecks htype => exact .declaration (hchecks.mono hs) htype
  | specialization hgeneral hchecks hcompose =>
    exact .specialization (hs _ _ hgeneral) (hchecks.mono hs) hcompose
  | context hroot hinner hpeel harity hentries =>
    exact .context hroot (hinner.mono hs) hpeel harity
      fun i a domain hi => hs _ _ (hentries i a domain hi)

theorem Built.tracked (h : H.Built x c) (d : StatementId) :
    d ∈ c.dependencies ↔ d ∈ c.term.freeVars ∨ c.kind.Reads d := by
  cases h with
  | assumption => simp [StatementKind.Reads]
  | declaration => simp [StatementKind.Reads]
  | specialization =>
    simp only [StatementKind.Reads, IdSet.mem_union, IdSet.mem_insert]
    tauto
  | context hroot hinner => exact hinner.mem_dependencies

theorem Built.owner_eq_none (h : H.Built x c) :
    c.owner = none ↔ ∃ data, c.kind = .context data ∧ data.kind = .root := by
  cases h with
  | context hroot => simpa using hroot
  | _ => simp

theorem Built.owned (h : H.Built x c) (hk : ∀ data, c.kind ≠ .context data) :
    ∃ o, c.owner = some o := by
  refine Option.ne_none_iff_exists'.1 fun hnone => ?_
  obtain ⟨data, hdata, -⟩ := h.owner_eq_none.1 hnone
  exact hk data hdata

structure LawfulAt (H : Graph) (D : Discipline) (x : StatementId) (c : Content) : Prop where
  owner : ∀ o, c.owner = some o → o < x ∧ ∃ c' data, H o = some c' ∧ c'.kind = .context data
  dependency : ∀ d ∈ c.dependencies, d < x ∧ ∃ o, c.owner = some o ∧ H.Sees o d
  built : H.Built x c
  term : D.Allows H c.term
  supplied : ∀ t, c.kind.supplied? = some t → D.Allows H t

theorem LawfulAt.mono (h : G.LawfulAt D x c) (hs : G.Sub H) : H.LawfulAt D x c where
  owner o ho := by
    obtain ⟨hlt, c', data, hc', hk⟩ := h.owner o ho
    exact ⟨hlt, c', data, hs o c' hc', hk⟩
  dependency d hd := by
    obtain ⟨hlt, o, ho, hsees⟩ := h.dependency d hd
    exact ⟨hlt, o, ho, hs.sees hsees⟩
  built := h.built.mono hs
  term := h.term.mono hs
  supplied t ht := (h.supplied t ht).mono hs

def Lawful (H : Graph) (D : Discipline) : Prop := ∀ x c, H x = some c → H.LawfulAt D x c

theorem Lawful.extend (h : G.Lawful D) (hs : G.Sub H)
    (hnew : ∀ x c, H x = some c → G x = none → H.LawfulAt D x c) : H.Lawful D := by
  intro x c hx
  cases hGx : G x with
  | none => exact hnew x c hx hGx
  | some c' =>
    cases (hs x c' hGx).symm.trans hx
    exact (h x c hGx).mono hs

theorem Lawful.forest_of_sub (h : H.Lawful D) (hs : G.Sub H) (hr : G.Rooted) : G.Forest := by
  intro x c o hx ho
  obtain ⟨hlt, c', data, hc', hk⟩ := (h x c (hs x c hx)).owner o ho
  obtain ⟨d, hd⟩ := hr x c o hx ho
  cases (hs o d hd).symm.trans hc'
  exact ⟨hlt, c', data, hd, hk⟩

theorem Lawful.tracked_of_sub (h : H.Lawful D) (hs : G.Sub H) : G.Tracked :=
  fun x c hx => (h x c (hs x c hx)).built.tracked

def Scoped (G : Graph) : Prop := ∀ x c d, G x = some c → d ∈ c.dependencies →
  ∃ o, c.owner = some o ∧ G.Sees o d

theorem Lawful.scoped_of_sub (h : H.Lawful D) (hs : G.Sub H) (hc : G.Closed) : G.Scoped := by
  intro x c d hx hd
  obtain ⟨-, o, ho, hsees⟩ := (h x c (hs x c hx)).dependency d hd
  obtain ⟨co, hco⟩ := hc.owner x c o hx ho
  obtain ⟨cd, hcd⟩ := hc.dependency x c d hx hd
  exact ⟨o, ho, hs.sees_of hc.owner hco hcd hsees⟩

theorem Scoped.sees (hs : G.Scoped) (hsees : G.Sees o x) (hx : G x = some c)
    (hy : y ∈ c.dependencies) : G.Sees o y := by
  obtain ⟨c', o', hc', ho', hw⟩ := hsees
  cases hx.symm.trans hc'
  obtain ⟨o'', ho'', hsees⟩ := hs x c y hx hy
  cases ho'.symm.trans ho''
  exact hsees.within hw

theorem Checks.sees (hc : G.Checks o t) (hx : x ∈ t.freeVars) : G.Sees o x := by
  obtain ⟨type, hx⟩ := Term.mem_freeVars.1 hx
  exact (hc.2 x type hx).1

theorem Checks.sees_typeOf (h : H.Lawful D) (hsub : G.Sub H) (hs : G.Scoped) (hc : G.Checks o t)
    (ht : D.Allows H t) (hT : t.typeOf = .ok T) (hx : x ∈ T.freeVars) : G.Sees o x := by
  obtain ⟨type, hx⟩ := Term.mem_freeVars.1 hx
  rcases Term.mem_occurrences_typeOf hc.1 hT hx with hx | ⟨y, carried, hy, hx⟩
  · exact hc.sees (Term.mem_freeVars.2 ⟨type, hx⟩)
  · obtain ⟨hsees, c, hcy, heq⟩ := hc.2 y carried hy
    have hlaw := h y c (hsub y c hcy)
    have hfit := (D.carried (ht.1 y carried hy) (hsub y c hcy) hlaw.term heq).2
    refine hs.sees hsees hcy ((hlaw.built.tracked x).2 (Or.inl ?_))
    exact hfit x (Term.mem_freeVars.2 ⟨type, hx⟩)

theorem Checks.allows_typeOf (h : H.Lawful D) (hc : H.Checks o t) (ht : D.Allows H t)
    (hT : t.typeOf = .ok T) : D.Allows H T := by
  have hcarried (y : StatementId) (type : Term) (hy : (y, type) ∈ t.occurrences) :
      D.Allows H type := by
    obtain ⟨-, c, hcy, heq⟩ := hc.2 y type hy
    exact (D.carried (ht.1 y type hy) hcy (h y c hcy).term heq).1
  refine ⟨fun x type hx => ?_, ?_,
    Term.castFree_typeOf hc.1 hT fun y type hy => (hcarried y type hy).2.2⟩
  · rcases Term.mem_occurrences_typeOf hc.1 hT hx with hx | ⟨y, carried, hy, hx⟩
    · exact ht.1 x type hx
    · exact (hcarried y carried hy).1 x type hx
  · by_cases hp : D.params
    · exact Or.inl hp
    · exact Or.inr (Term.paramFree_typeOf hc.1 hT (ht.2.1.resolve_left hp)
        fun y type hy => (hcarried y type hy).2.1.resolve_left hp)

theorem Checks.sees_compose {arg : Term} (hs : G.Scoped) (ht : G.Tracked) (hx : G x = some c)
    (hsees : G.Sees o x) (hc : G.Checks o arg) (hT : c.term.compose arg = .ok T)
    (hy : y ∈ T.freeVars) : G.Sees o y := by
  obtain ⟨type, hy⟩ := Term.mem_freeVars.1 hy
  rcases Term.mem_occurrences_compose hT hy with hy | hy
  · exact hs.sees hsees hx ((ht x c hx y).2 (Or.inl (Term.mem_freeVars.2 ⟨type, hy⟩)))
  · exact hc.sees (Term.mem_freeVars.2 ⟨type, hy⟩)

/-- What the term that a context reads mentions is visible where the context stands. -/
theorem Unfolds.sees {term inner : Term} {dependencies : IdSet} {kind : ContextKind}
    {owner : Option StatementId} (hs : G.Scoped) (ht : G.Tracked)
    (h : G.Unfolds term dependencies inner kind)
    (hterm : ∀ y ∈ term.freeVars, ∃ o, owner = some o ∧ G.Sees o y)
    (hdecl : ∀ d, kind = .unfolding d → ∃ o, owner = some o ∧ G.Sees o d)
    (hy : y ∈ inner.freeVars) : ∃ o, owner = some o ∧ G.Sees o y := by
  cases kind with
  | unfolding d =>
    obtain ⟨c, value, hc, hk, -, rfl⟩ := h
    obtain ⟨type, hy⟩ := Term.mem_freeVars.1 hy
    rcases Term.mem_occurrences_mapVars hy with hy | ⟨z, type', image, -, hz, hy⟩
    · exact hterm y (Term.mem_freeVars.2 ⟨type, hy⟩)
    · split at hz
      · cases hz
        obtain ⟨o, ho, hsees⟩ := hdecl d rfl
        refine ⟨o, ho, hs.sees hsees hc ((ht d c hc y).2 (Or.inr ?_))⟩
        rw [hk]
        exact Term.mem_freeVars.2 ⟨type, hy⟩
      · cases hz
  | nested => exact hterm y (h.2 ▸ hy)
  | root => exact hterm y (h.2 ▸ hy)

theorem Unfolds.allows {term inner : Term} {dependencies : IdSet} {kind : ContextKind}
    (hH : H.Lawful D) (h : H.Unfolds term dependencies inner kind) (ht : D.Allows H term) :
    D.Allows H inner := by
  cases kind with
  | unfolding d =>
    obtain ⟨c, value, hc, hk, -, rfl⟩ := h
    exact ht.replaceVar ((hH d c hc).supplied value (by rw [hk]; rfl))
  | nested => exact h.2 ▸ ht
  | root => exact h.2 ▸ ht

theorem Lawful.live_dependency {d : StatementId} (h : H.Lawful D) (hx : H x = some c)
    (hd : d ∈ c.dependencies) : ∃ c', H d = some c' := by
  obtain ⟨-, -, -, c', -, hc', -⟩ := (h x c hx).dependency d hd
  exact ⟨c', hc'⟩

theorem Lawful.listed {data : ContextData} {i : Nat} {a : StatementId} (h : H.Lawful D)
    (hx : H x = some c) (hk : c.kind = .context data) (ha : data.assumptions[i]? = some a) :
    ∃ ca, H a = some ca ∧ ca.owner = some x ∧ ca.kind = .assumption i := by
  cases (h x c hx).built with
  | context _ _ _ _ hentries =>
    cases hk
    rw [List.getElem?_map, Option.map_eq_some_iff] at ha
    obtain ⟨⟨a, domain⟩, hi, rfl⟩ := ha
    exact ⟨_, hentries i a domain hi, rfl, rfl⟩
  | _ => cases hk

theorem Lawful.inside {st : Statement} {a : StatementId} (h : H.Lawful D)
    (hx : H x = some st.content) (ha : a ∈ st.assumptions) :
    ∃ ca i, H a = some ca ∧ ca.owner = some x ∧ ca.kind = .assumption i := by
  obtain ⟨data, hk, ha⟩ := Statement.mem_assumptions.1 ha
  obtain ⟨i, hi⟩ := List.mem_iff_getElem?.1 ha
  obtain ⟨ca, hca, howner, hkind⟩ := h.listed hx hk hi
  exact ⟨ca, i, hca, howner, hkind⟩

theorem Lawful.assumption {i : Nat} (h : H.Lawful D) (hx : H x = some c)
    (hk : c.kind = .assumption i) : ∃ o co data, c.owner = some o ∧ H o = some co ∧
      co.kind = .context data ∧ data.assumptions[i]? = some x := by
  cases (h x c hx).built with
  | assumption howner hkind horder =>
    cases hk
    exact ⟨_, _, _, rfl, howner, hkind, horder⟩
  | _ => cases hk

theorem Lawful.inner_lt {term inner : Term} {dependencies : IdSet} {kind : ContextKind}
    (h : H.Lawful D) (hunfolds : H.Unfolds term dependencies inner kind)
    (hdep : ∀ d ∈ dependencies, d < x) (hy : y ∈ inner.freeVars) : y < x := by
  cases kind with
  | unfolding d =>
    obtain ⟨c, value, hc, hk, rfl, rfl⟩ := hunfolds
    have hd : d < x := hdep d (IdSet.mem_insert.2 (Or.inl rfl))
    obtain ⟨type, hy⟩ := Term.mem_freeVars.1 hy
    rcases Term.mem_occurrences_mapVars hy with hy | ⟨z, type', image, -, hz, hy⟩
    · exact hdep y (IdSet.mem_insert.2 (Or.inr (Term.mem_freeVars.2 ⟨type, hy⟩)))
    · split at hz
      · cases hz
        have hreads : y ∈ c.dependencies := by
          rw [(h d c hc).built.tracked, hk]
          exact Or.inr (Term.mem_freeVars.2 ⟨type, hy⟩)
        exact Nat.lt_trans ((h d c hc).dependency y hreads).1 hd
      · cases hz
  | nested => exact hdep y (hunfolds.1 ▸ hunfolds.2 ▸ hy)
  | root => exact hdep y (hunfolds.1 ▸ hunfolds.2 ▸ hy)

theorem Lawful.assumption_dependency {i : Nat} {d : StatementId} (h : H.Lawful D)
    (hx : H x = some c) (hk : c.kind = .assumption i) (ho : c.owner = some o)
    (hd : d ∈ c.dependencies) : d < o ∨ ∃ cd j, H d = some cd ∧ cd.kind = .assumption j := by
  obtain ⟨o', co, data, ho', hco, hkind, hlist⟩ := h.assumption hx hk
  cases ho.symm.trans ho'
  have hlaw := h o co hco
  cases hlaw.built with
  | @context owner term inner consequent dependencies kind entries _ hinner hpeel _ hentries =>
    cases hkind
    rw [List.getElem?_map, Option.map_eq_some_iff] at hlist
    obtain ⟨⟨x, domain⟩, hi, rfl⟩ := hlist
    cases hx.symm.trans (hentries i x domain hi)
    obtain ⟨type, hd⟩ := Term.mem_freeVars.1 hd
    rcases (Term.mem_occurrences_peel hpeel).1 i x domain hi (d, type) hd with hd | hd
    · rw [Term.occurrences_unproject] at hd
      exact Or.inl (h.inner_lt hinner (fun d hd => (hlaw.dependency d hd).1)
        (Term.mem_freeVars.2 ⟨type, hd⟩))
    · obtain ⟨j, hj⟩ := List.mem_iff_getElem?.1 (List.mem_of_mem_take hd)
      exact Or.inr ⟨_, j, hentries j d type hj, rfl⟩
  | _ => cases hkind

theorem Lawful.nodup_bundle {data : ContextData} (h : H.Lawful D) (hx : H x = some c)
    (hk : c.kind = .context data) : (x :: data.assumptions).Nodup := by
  refine List.nodup_cons.2 ⟨fun hmem => ?_, ?_⟩
  · obtain ⟨i, hi⟩ := List.mem_iff_getElem?.1 hmem
    obtain ⟨ca, hca, -, hkind⟩ := h.listed hx hk hi
    cases hx.symm.trans hca
    cases hk.symm.trans hkind
  · refine List.nodup_iff_getElem?_ne_getElem?.2 fun i j hij hj heq => ?_
    obtain ⟨a, ha⟩ : ∃ a, data.assumptions[j]? = some a := ⟨_, List.getElem?_eq_getElem hj⟩
    obtain ⟨c₁, hc₁, -, hk₁⟩ := h.listed hx hk (heq.trans ha)
    obtain ⟨c₂, hc₂, -, hk₂⟩ := h.listed hx hk ha
    cases hc₁.symm.trans hc₂
    cases hk₁.symm.trans hk₂
    exact Nat.lt_irrefl _ hij

theorem Lawful.nodup_ids {st : Statement} (h : H.Lawful D) (hx : H x = some st.content) :
    (x :: st.assumptions).Nodup := by
  rw [Statement.assumptions, Statement.contextData?]
  cases hk : st.kind with
  | context data => exact h.nodup_bundle hx hk
  | _ => exact List.nodup_singleton x

end Graph

end StatementGraph
