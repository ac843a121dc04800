import Mathlib.Data.List.Forall2
import StatementGraph.Proofs.History
import StatementGraph.Proofs.TermRenaming

namespace StatementGraph

def ContextKind.unfolded? : ContextKind → Option StatementId
  | unfolding declaration => some declaration
  | _ => none

theorem ContextKind.unfolded?_eq_some {kind : ContextKind} {d : StatementId} :
    kind.unfolded? = some d ↔ kind = .unfolding d := by
  cases kind <;> simp [unfolded?]

namespace Graph

variable {H : Graph} {m r r' : StatementId → Option StatementId} {a b d x y : StatementId}
  {c c' : Content} {t T : Term}

def renamed (H : Graph) (r : StatementId → Option StatementId) (x : StatementId) : Option Term :=
  (r x).bind fun y => (H y).map fun c => .var y c.term

theorem renamed_of_some (hr : r x = some y) (hy : H y = some c) :
    H.renamed r x = some (.var y c.term) := by
  rw [renamed, hr, Option.bind_some, hy]
  rfl

theorem renamed_of_none (hr : r x = none) : H.renamed r x = none := by
  rw [renamed, hr]
  rfl

theorem renaming_renamed : Term.Renaming (H.renamed r) := by
  intro x image hx
  obtain ⟨y, -, hy⟩ := Option.bind_eq_some_iff.1 hx
  obtain ⟨c, -, rfl⟩ := Option.map_eq_some_iff.1 hy
  exact ⟨y, c.term, rfl⟩

theorem map_eq_map_some {l l' : List StatementId} :
    l.map m = l'.map some ↔ List.Forall₂ (fun a b => m a = some b) l l' := by
  rw [← List.forall₂_eq_eq_eq, List.forall₂_map_left_iff, List.forall₂_map_right_iff]

/-- What one statement is renders what another one is, with what they name renamed by `r`. -/
inductive Renders (H : Graph) (m r : StatementId → Option StatementId) : Content → Content → Prop
    where
  | assumption {o o' : StatementId} {term term' : Term} {deps deps' : IdSet} {i : Nat}
      (howner : m o = some o') :
      Renders H m r ⟨some o, term, deps, .assumption i⟩ ⟨some o', term', deps', .assumption i⟩
  | declaration {owner owner' : Option StatementId} {term term' value value' : Term}
      {deps deps' : IdSet} (hvalue : value' = value.mapVars (H.renamed r)) :
      Renders H m r ⟨owner, term, deps, .declaration value⟩
        ⟨owner', term', deps', .declaration value'⟩
  | specialization {owner owner' : Option StatementId} {term term' argument argument' : Term}
      {deps deps' : IdSet} {general general' : StatementId}
      (hgeneral : general' = (r general).getD general)
      (hargument : argument' = argument.mapVars (H.renamed r)) :
      Renders H m r ⟨owner, term, deps, .specialization general argument⟩
        ⟨owner', term', deps', .specialization general' argument'⟩
  | context {owner owner' : Option StatementId} {term term' : Term} {deps deps' : IdSet}
      {data data' : ContextData} (hterm : term' = term.mapVars (H.renamed r))
      (hkind : data'.kind.unfolded? = data.kind.unfolded?.map fun d => (r d).getD d)
      (hassumptions : data.assumptions.map m = data'.assumptions.map some) :
      Renders H m r ⟨owner, term, deps, .context data⟩ ⟨owner', term', deps', .context data'⟩

/-- Only what the statement depends on is renamed, and in an assumption nothing. -/
theorem Renders.congr {H' : Graph} {m' : StatementId → Option StatementId}
    (h : H.Renders m r c c') (ht : ∀ d, d ∈ c.dependencies ↔ d ∈ c.term.freeVars ∨ c.kind.Reads d)
    (hm : ∀ x y, m x = some y → m' x = some y)
    (hr : (∀ i, c.kind ≠ .assumption i) → ∀ x ∈ c.dependencies,
      r' x = r x ∧ H'.renamed r' x = H.renamed r x) : H'.Renders m' r' c c' := by
  cases h with
  | assumption howner => exact .assumption (hm _ _ howner)
  | declaration hvalue =>
    apply Renders.declaration
    rw [hvalue]
    apply Term.mapVars_congr
    intro x hx
    exact (hr nofun x ((ht x).2 (Or.inr hx))).2.symm
  | specialization hgeneral hargument =>
    apply Renders.specialization
    · rw [(hr nofun _ ((ht _).2 (Or.inr (Or.inl rfl)))).1]
      exact hgeneral
    · rw [hargument]
      apply Term.mapVars_congr
      intro x hx
      exact (hr nofun x ((ht x).2 (Or.inr (Or.inr hx)))).2.symm
  | @context owner owner' term term' deps deps' data data' hterm hkind hassumptions =>
    apply Renders.context
    · rw [hterm]
      apply Term.mapVars_congr
      intro x hx
      exact (hr nofun x ((ht x).2 (Or.inl hx))).2.symm
    · rw [hkind]
      cases hd : data.kind.unfolded? with
      | none => rfl
      | some d =>
        have hmem : d ∈ deps := (ht d).2 (Or.inr (ContextKind.unfolded?_eq_some.1 hd))
        rw [Option.map_some, Option.map_some, (hr nofun d hmem).1]
    · rw [map_eq_map_some] at hassumptions ⊢
      exact hassumptions.imp hm

/-- What a statement depends on and stays as it is depends on nothing that is renamed. -/
structure Renamable (H : Graph) (r : StatementId → Option StatementId) (c : Content) : Prop where
  fixed : ∀ d ∈ c.dependencies, r d = none → ∀ c', H d = some c' →
    ∀ x ∈ c'.dependencies, r x = none
  distinct : ∀ data d, c.kind = .context data → data.kind = .unfolding d →
    ∀ x ∈ c.term.freeVars, (r x).getD x = (r d).getD d → x = d

structure Renames (H : Graph) (r : StatementId → Option StatementId) : Prop where
  renders : ∀ a b, r a = some b → ∃ c c', H a = some c ∧ H b = some c' ∧ H.Renders r r c c'
  renamable : ∀ a b c, r a = some b → H a = some c → (∀ i, c.kind ≠ .assumption i) →
    H.Renamable r c

theorem mapVars_renamed_var (h : ∀ x y, r x = some y → ∃ c, H y = some c) (x : StatementId)
    (type : Term) :
    ∃ type', (Term.var x type).mapVars (H.renamed r) = .var ((r x).getD x) type' := by
  rw [Term.mapVars_var]
  cases hx : r x with
  | none =>
    rw [renamed_of_none hx]
    exact ⟨type, rfl⟩
  | some y =>
    obtain ⟨c, hy⟩ := h x y hx
    rw [renamed_of_some hx hy]
    exact ⟨c.term, rfl⟩

theorem Renames.live (h : H.Renames r) (x y : StatementId) (hx : r x = some y) :
    ∃ c, H y = some c := by
  obtain ⟨-, c, -, hy, -⟩ := h.renders x y hx
  exact ⟨c, hy⟩

theorem Renamable.mapVars_eq (h : H.Renamable r c) (hd : d ∈ c.dependencies) (hnone : r d = none)
    (hc' : H d = some c') (ht : ∀ x ∈ t.freeVars, x ∈ c'.dependencies) :
    t.mapVars (H.renamed r) = t := by
  apply Term.mapVars_eq_self
  intro x hx
  exact renamed_of_none (h.fixed d hd hnone c' hc' x (ht x hx))

section

variable (h : H.Renames r) (hH : H.Lawful .exact) (hc : H.Renamable r c)

include h hH hc

theorem Renames.respects (ht : Discipline.exact.Allows H t)
    (hdep : ∀ x ∈ t.freeVars, x ∈ c.dependencies)
    (ih : ∀ x y cx cy, x ∈ c.dependencies → r x = some y → H x = some cx → H y = some cy →
      cy.term = cx.term.mapVars (H.renamed r)) : t.Respects (H.renamed r) := by
  intro x type hx
  obtain ⟨cx, hcx, rfl⟩ := ht.1 x type hx
  have hmem := hdep x (Term.mem_freeVars.2 ⟨_, hx⟩)
  rw [Term.mapVars_var]
  cases hrx : r x with
  | none =>
    refine ⟨x, ?_⟩
    rw [renamed_of_none hrx, hc.mapVars_eq hmem hrx hcx fun y hy =>
      ((hH x cx hcx).built.tracked y).2 (Or.inl hy)]
    rfl
  | some y =>
    obtain ⟨-, cy, -, hcy, -⟩ := h.renders x y hrx
    refine ⟨y, ?_⟩
    rw [renamed_of_some hrx hcy, ih x y cx cy hmem hrx hcx hcy]
    rfl

omit h in
theorem Renamable.term_of_dependency {cx cy : Content}
    (ih : ∀ x y cx cy, x ∈ c.dependencies → r x = some y → H x = some cx → H y = some cy →
      cy.term = cx.term.mapVars (H.renamed r)) (hx : x ∈ c.dependencies) (hcx : H x = some cx)
    (hcy : H ((r x).getD x) = some cy) : cy.term = cx.term.mapVars (H.renamed r) := by
  cases hrx : r x with
  | none =>
    rw [hrx] at hcy
    cases hcx.symm.trans hcy
    exact (hc.mapVars_eq hx hrx hcx fun y hy =>
      ((hH x cx hcx).built.tracked y).2 (Or.inl hy)).symm
  | some y =>
    rw [hrx] at hcy
    exact ih x y cx cy hx hrx hcx hcy

theorem Renames.value {cd cd' : Content} {value value' : Term} (hd : d ∈ c.dependencies)
    (hcd : H d = some cd) (hdecl : cd.kind = .declaration value)
    (hcd' : H ((r d).getD d) = some cd') (hdecl' : cd'.kind = .declaration value') :
    value' = value.mapVars (H.renamed r) := by
  cases hrd : r d with
  | none =>
    rw [hrd] at hcd'
    cases hcd.symm.trans hcd'
    cases hdecl.symm.trans hdecl'
    refine (hc.mapVars_eq hd hrd hcd fun y hy => ?_).symm
    rw [(hH d cd hcd).built.tracked, hdecl]
    exact Or.inr hy
  | some e =>
    rw [hrd] at hcd'
    obtain ⟨c₁, c₂, hc₁, hc₂, hrenders⟩ := h.renders d e hrd
    cases hcd.symm.trans hc₁
    cases hcd'.symm.trans hc₂
    cases hrenders with
    | declaration hvalue =>
      cases hdecl
      cases hdecl'
      exact hvalue
    | _ => cases hdecl

/-- The term that a context reads is renamed with the context. -/
theorem Renames.inner {inner inner' : Term} {deps' : IdSet} {kind' : ContextKind}
    {data : ContextData} (hk : c.kind = .context data)
    (hkind : kind'.unfolded? = data.kind.unfolded?.map fun d => (r d).getD d)
    (hinner : H.Unfolds c.term c.dependencies inner data.kind)
    (hinner' : H.Unfolds (c.term.mapVars (H.renamed r)) deps' inner' kind') :
    inner' = inner.mapVars (H.renamed r) := by
  cases hunfolded : data.kind.unfolded? with
  | none =>
    rw [hunfolded] at hkind
    have hsame : inner = c.term := by
      cases hdata : data.kind with
      | unfolding d =>
        rw [hdata] at hunfolded
        cases hunfolded
      | nested =>
        rw [hdata] at hinner
        exact hinner.2
      | root =>
        rw [hdata] at hinner
        exact hinner.2
    rw [hsame]
    cases kind' with
    | unfolding d => cases hkind
    | nested => exact hinner'.2
    | root => exact hinner'.2
  | some d =>
    have hkind : kind'.unfolded? = some ((r d).getD d) := by
      rw [hkind, hunfolded]
      rfl
    have hdata := ContextKind.unfolded?_eq_some.1 hunfolded
    cases ContextKind.unfolded?_eq_some.1 hkind
    rw [hdata] at hinner
    obtain ⟨cd, value, hcd, hdecl, hdeps, rfl⟩ := hinner
    obtain ⟨cd', value', hcd', hdecl', -, rfl⟩ := hinner'
    have hmem : d ∈ c.dependencies := hdeps ▸ IdSet.mem_insert.2 (Or.inl rfl)
    have hvalue := h.value hH hc hmem hcd hdecl hcd' hdecl'
    rw [Term.replaceVar, Term.replaceVar]
    apply Term.mapVars_mapVars_congr
    intro x type hx
    obtain ⟨type', hvar⟩ := mapVars_renamed_var h.live x type
    by_cases hxd : x = d
    · subst hxd
      rw [hvar, Term.mapVars_var, if_pos rfl, Term.mapVars_var, if_pos rfl, hvalue]
      rfl
    · have hne : (r x).getD x ≠ (r d).getD d := fun heq =>
        hxd (hc.distinct data d hk hdata x (Term.mem_freeVars.2 ⟨type, hx⟩) heq)
      rw [hvar, Term.mapVars_var, if_neg hne, Term.mapVars_var, if_neg hxd, Option.getD_none,
        Option.getD_none, hvar]

end

section

variable (h : H.Renames r) (hH : H.Lawful .exact) (hab : r a = some b) (ha : H a = some c)
  (hb : H b = some c')

include h hab ha hb

theorem Renames.renders_eq : H.Renders r r c c' := by
  obtain ⟨c₁, c₂, hc₁, hc₂, hrenders⟩ := h.renders a b hab
  cases ha.symm.trans hc₁
  cases hb.symm.trans hc₂
  exact hrenders

include hH

/-- The consequents of contexts that correspond, and the terms of their assumptions. -/
theorem Renames.context {data data' : ContextData} (hk : c.kind = .context data)
    (hk' : c'.kind = .context data') :
    data'.consequent = data.consequent.mapVars (H.renamed r) ∧
      ∀ (i : Nat) x y cx cy, data.assumptions[i]? = some x → data'.assumptions[i]? = some y →
        H x = some cx → H y = some cy → cy.term = cx.term.mapVars (H.renamed r) := by
  have hc := h.renamable a b c hab ha (by rw [hk]; nofun)
  have hrenders := h.renders_eq hab ha hb
  have hbuilt := (hH a c ha).built
  have hbuilt' := (hH b c' hb).built
  cases hrenders with
  | context hterm hkind hassumptions =>
    cases hk
    cases hk'
    subst hterm
    cases hbuilt with
    | @context _ _ inner consequent _ kind entries _ hinner hpeel harity hentries =>
      cases hbuilt' with
      | @context _ _ inner' consequent' _ kind' entries' _ hinner' hpeel' harity' hentries' =>
        have hrenamed := h.inner hH hc rfl hkind hinner hinner'
        rw [hrenamed, renaming_renamed.unproject] at hpeel'
        have hlen : (entries'.map Prod.fst).length = (entries.map Prod.fst).length := by
          rw [← List.length_map (f := some), ← hassumptions, List.length_map]
        have hids (i : Nat) (x y : StatementId) (type : Term)
            (hx : (entries.map Prod.fst)[i]? = some x) (hy : entries'[i]? = some (y, type)) :
            H.renamed r x = some (.var y type) := by
          have hi := congrArg (·[i]?) hassumptions
          simp only [List.getElem?_map] at hi hx
          rw [hx, hy] at hi
          exact renamed_of_some (Option.some.inj hi) (hentries' i y type hy)
        obtain ⟨hdomains, hconsequent⟩ :=
          Term.peel_mapVars renaming_renamed hlen hpeel hpeel' hids
        refine ⟨hconsequent, fun i x y cx cy hx hy hcx hcy => ?_⟩
        rw [List.getElem?_map, Option.map_eq_some_iff] at hx hy
        obtain ⟨⟨x, domain⟩, hx, rfl⟩ := hx
        obtain ⟨⟨y, domain'⟩, hy, rfl⟩ := hy
        cases (hentries i x domain hx).symm.trans hcx
        cases (hentries' i y domain' hy).symm.trans hcy
        have hi := congrArg (·[i]?) hdomains
        simp only [List.getElem?_map, hx, hy] at hi
        exact Option.some.inj hi
  | _ => cases hk

/-- Statements that correspond have terms that differ by the renaming. -/
theorem Renames.term : c'.term = c.term.mapVars (H.renamed r) := by
  induction hn : a.raw using Nat.strongRecOn generalizing a b c c' with
  | ind n ih =>
    have hlaw := hH a c ha
    have hbuilt := hlaw.built
    have hbuilt' := (hH b c' hb).built
    -- what a statement depends on is older
    have hdep (x y : StatementId) (cx cy : Content) (hx : x ∈ c.dependencies)
        (hxy : r x = some y) (hcx : H x = some cx) (hcy : H y = some cy) :
        cy.term = cx.term.mapVars (H.renamed r) :=
      ih x.raw (hn ▸ (hlaw.dependency x hx).1) hxy hcx hcy rfl
    cases h.renders_eq hab ha hb with
    | @assumption o o' _ _ _ _ i howner =>
      obtain ⟨o, co, data, ho, hco, hk, hi⟩ := hH.assumption ha rfl
      cases ho
      obtain ⟨-, co', -, hco', -⟩ := h.renders o o' howner
      have hrenders := h.renders_eq howner hco hco'
      cases hrenders with
      | context _ _ hassumptions =>
        cases hk
        have hi' := congrArg (·[i]?) hassumptions
        simp only [List.getElem?_map] at hi'
        rw [hi, Option.map_some, hab] at hi'
        obtain ⟨b', hb', heq⟩ := Option.map_eq_some_iff.1 hi'.symm
        cases heq
        exact (h.context hH howner hco hco' rfl rfl).2 i a b _ _ hi hb' ha hb
      | _ => cases hk
    | declaration hvalue =>
      cases hbuilt with
      | declaration hchecks htype =>
        cases hbuilt' with
        | declaration _ htype' =>
          have hc := h.renamable a b _ hab ha nofun
          have hrespects := h.respects hH hc (hlaw.supplied _ rfl)
            (fun x hx => IdSet.mem_union.2 (Or.inr hx)) hdep
          rw [hvalue, Term.typeOf_mapVars renaming_renamed hchecks.1 hrespects htype] at htype'
          exact (Except.ok.inj htype').symm
    | @specialization _ _ _ _ argument _ _ _ general _ hgeneral hargument =>
      cases hbuilt with
      | specialization hg hchecks hcompose =>
        cases hbuilt' with
        | specialization hg' _ hcompose' =>
          rw [hgeneral] at hg'
          have hc := h.renamable a b _ hab ha nofun
          have hterm := hc.term_of_dependency hH hdep
            (IdSet.mem_union.2 (Or.inl (IdSet.mem_insert.2 (Or.inl rfl)))) hg hg'
          have hrespects := h.respects hH hc (hlaw.supplied argument rfl)
            (fun x hx => IdSet.mem_union.2 (Or.inr hx)) hdep
          have hresult := h.respects hH hc hlaw.term
            (fun x hx => IdSet.mem_union.2 (Or.inl (IdSet.mem_insert.2 (Or.inr hx)))) hdep
          rw [hargument, hterm, Term.compose_mapVars renaming_renamed (hH _ _ hg).term.2.2
            hchecks.1 hrespects hresult hcompose] at hcompose'
          exact (Except.ok.inj hcompose').symm
    | context hterm => exact hterm

/-- Whatever a statement depends on is what the other one depends on, renamed. -/
theorem Renames.dependency (hd : d ∈ c'.dependencies) :
    ∃ y ∈ c.dependencies, (r y).getD y = d := by
  have htracked := (hH a c ha).built.tracked
  have hvars (t : Term) (hdep : ∀ y ∈ t.freeVars, y ∈ c.dependencies)
      (hd : d ∈ (t.mapVars (H.renamed r)).freeVars) : ∃ y ∈ c.dependencies, (r y).getD y = d := by
    rw [Term.mem_freeVars_mapVars (mapVars_renamed_var h.live)] at hd
    obtain ⟨y, hy, hyd⟩ := hd
    exact ⟨y, hdep y hy, hyd⟩
  rcases ((hH b c' hb).built.tracked d).1 hd with hd | hd
  · rw [h.term hH hab ha hb] at hd
    exact hvars c.term (fun y hy => (htracked y).2 (Or.inl hy)) hd
  cases h.renders_eq hab ha hb with
  | assumption => cases hd
  | declaration hvalue =>
    subst hvalue
    exact hvars _ (fun y hy => (htracked y).2 (Or.inr hy)) hd
  | specialization hgeneral hargument =>
    rcases hd with rfl | hd
    · exact ⟨_, (htracked _).2 (Or.inr (Or.inl rfl)), hgeneral.symm⟩
    · subst hargument
      exact hvars _ (fun y hy => (htracked y).2 (Or.inr (Or.inr hy))) hd
  | context _ hkind =>
    rw [ContextKind.unfolded?_eq_some.2 hd] at hkind
    obtain ⟨y, hy, hyd⟩ := Option.map_eq_some_iff.1 hkind.symm
    exact ⟨y, (htracked y).2 (Or.inr (ContextKind.unfolded?_eq_some.1 hy)), hyd⟩

end

end Graph

end StatementGraph
