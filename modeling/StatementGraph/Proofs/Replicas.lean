import StatementGraph.Mutation.Copy
import StatementGraph.Proofs.Growth
import StatementGraph.Proofs.GraphRenaming

namespace StatementGraph

namespace Correspondence

variable {m m' : Correspondence} {c o x y : StatementId}

def older (m : Correspondence) (c x : StatementId) : Option StatementId :=
  (m.get? x).filter fun y => y < c

def original? (m : Correspondence) (y : StatementId) : Option StatementId :=
  (m.entries.find? fun p => p.2 = y).map Prod.fst

theorem older_eq_some : m.older c x = some y ↔ m.get? x = some y ∧ y < c := by
  rw [older, Option.filter_eq_some_iff, decide_eq_true_iff]

theorem older_of_none (h : m.get? x = none) : m.older c x = none := by
  rw [older, h]
  rfl

theorem older_of_lt (h : ∀ y, m.get? x = some y → y < c) : m.older c x = m.get? x := by
  cases hx : m.get? x with
  | none => exact older_of_none hx
  | some y => exact older_eq_some.2 ⟨hx, h y hx⟩

theorem get?_of_original? (h : m.original? y = some x) : m.get? x = some y := by
  obtain ⟨⟨x', y'⟩, hfind, rfl⟩ := Option.map_eq_some_iff.1 h
  have hy := List.find?_some hfind
  have hmem := List.mem_of_find?_eq_some hfind
  cases of_decide_eq_true hy
  exact Table.mem_entries.1 hmem

theorem original?_of_none (h : ∀ x, m.get? x ≠ some y) : m.original? y = none :=
  Option.eq_none_iff_forall_ne_some.2 fun x hx => h x (get?_of_original? hx)

theorem original?_of_get? (hinj : ∀ x x', m.get? x = some y → m.get? x' = some y → x = x')
    (h : m.get? x = some y) : m.original? y = some x := by
  cases hy : m.original? y with
  | none =>
    rw [original?, Option.map_eq_none_iff, List.find?_eq_none] at hy
    exact absurd (decide_eq_true rfl) (hy (x, y) (Table.mem_entries.2 h))
  | some x' => rw [hinj x x' h (get?_of_original? hy)]

def insertAll (m : Correspondence) (pairs : List (StatementId × StatementId)) : Correspondence :=
  pairs.foldl (fun m pair => m.insert pair.1 pair.2) m

theorem insertAll_concat {pairs : List (StatementId × StatementId)} :
    m.insertAll (pairs ++ [(x, y)]) = (m.insertAll pairs).insert x y := by
  rw [insertAll, List.foldl_append]
  rfl

theorem get?_insertAll_of_notMem {pairs : List (StatementId × StatementId)}
    (h : x ∉ pairs.map Prod.fst) : (m.insertAll pairs).get? x = m.get? x := by
  induction pairs generalizing m with
  | nil => rfl
  | cons pair pairs ih =>
    rw [List.map_cons, List.mem_cons, not_or] at h
    rw [insertAll, List.foldl_cons, ← insertAll, ih h.2, Table.get?_insert, if_neg h.1]

theorem get?_insertAll {pairs : List (StatementId × StatementId)}
    (hkeys : (pairs.map Prod.fst).Nodup) (hnone : ∀ pair ∈ pairs, m.get? pair.1 = none) :
    (m.insertAll pairs).get? x = some y ↔ m.get? x = some y ∨ (x, y) ∈ pairs := by
  induction pairs generalizing m with
  | nil => simp [insertAll]
  | cons pair pairs ih =>
    obtain ⟨a, b⟩ := pair
    obtain ⟨ha, hkeys⟩ := List.nodup_cons.1 hkeys
    have hfirst := hnone (a, b) List.mem_cons_self
    have hinsert (pair : StatementId × StatementId) (hpair : pair ∈ pairs) :
        (m.insert a b).get? pair.1 = none := by
      have hne : pair.1 ≠ a := by
        rintro rfl
        exact ha (List.mem_map.2 ⟨pair, hpair, rfl⟩)
      rw [Table.get?_insert, if_neg hne]
      exact hnone pair (List.mem_cons_of_mem _ hpair)
    have hih := ih hkeys hinsert
    rw [insertAll, List.foldl_cons, ← insertAll, hih, Table.get?_insert, List.mem_cons,
      Prod.mk.injEq]
    split
    case isTrue he => simp [he, hfirst, eq_comm]
    case isFalse he => simp [he]

end Correspondence

namespace Graph

open Correspondence

variable {H₀ H H' : Graph} {m m' : Correspondence} {o x y : StatementId} {c c' : Content}
  {t : Term}

/-- A history has grown by copies of statements that were there before. -/
structure Replica (H₀ H : Graph) (m : Correspondence) : Prop where
  history : H₀.Sub H
  source : ∀ o x, m.get? o = some x → ∃ c, H₀ o = some c
  fresh : ∀ o x, m.get? o = some x → H₀ x = none
  injective : ∀ o o' x, m.get? o = some x → m.get? o' = some x → o = o'
  cover : ∀ x c, H x = some c → H₀ x = some c ∨ ∃ o, m.get? o = some x
  renders : ∀ o x, m.get? o = some x → ∃ c c', H o = some c ∧ H x = some c' ∧
    H.Renders m.get? (m.older x) c c'

theorem Replica.start (H : Graph) : H.Replica H {} where
  history := .refl H
  source o x h := by cases h
  fresh o x h := by cases h
  injective o o' x h := by cases h
  cover x c h := Or.inl h
  renders o x h := by cases h

theorem Replica.original?_iff (h : H₀.Replica H m) : m.original? x = some o ↔ m.get? o = some x :=
  ⟨get?_of_original?, original?_of_get? fun y y' => h.injective y y' x⟩

theorem Replica.original?_old (h : H₀.Replica H m) (hx : H₀ x = some c) :
    m.original? x = none := by
  apply original?_of_none
  intro y hy
  cases hx.symm.trans (h.fresh y x hy)

section

variable (h : H₀.Replica H m) (hH₀ : H₀.Lawful .exact)

include h

theorem Replica.live (ho : m.get? o = some x) : ∃ c, H x = some c := by
  obtain ⟨-, c, -, hc, -⟩ := h.renders o x ho
  exact ⟨c, hc⟩

theorem Replica.mapVars_back (ht : Discipline.exact.Allows H t)
    (hold : ∀ y ∈ t.freeVars, ∃ c, H₀ y = some c) :
    (t.mapVars (H.renamed (m.older x))).mapVars (H.renamed m.original?) = t := by
  conv_rhs => rw [← t.mapVars_none, ← (t.mapVars fun _ => none).mapVars_none]
  apply Term.mapVars_mapVars_congr
  intro y type hy
  obtain ⟨cy, hcy, rfl⟩ := ht.1 y type hy
  obtain ⟨c₀, hc₀⟩ := hold y (Term.mem_freeVars.2 ⟨_, hy⟩)
  rw [Term.mapVars_none, Term.mapVars_none, Term.mapVars_var]
  cases hyz : m.older x y with
  | none =>
    rw [renamed_of_none hyz, Option.getD_none, Term.mapVars_var,
      renamed_of_none (h.original?_old hc₀)]
    rfl
  | some z =>
    have hz := (older_eq_some.1 hyz).1
    obtain ⟨cz, hcz⟩ := h.live hz
    rw [renamed_of_some hyz hcz, Option.getD_some, Term.mapVars_var,
      renamed_of_some (h.original?_iff.2 hz) hcy]
    rfl

theorem Replica.original?_older (hy : H₀ y = some c) :
    (m.original? ((m.older x y).getD y)).getD ((m.older x y).getD y) = y := by
  cases hyz : m.older x y with
  | none => rw [Option.getD_none, h.original?_old hy, Option.getD_none]
  | some z =>
    rw [Option.getD_some, h.original?_iff.2 (older_eq_some.1 hyz).1, Option.getD_some]

include hH₀

theorem Replica.fixed_back {cy : Content} (hy : H y = some cy) (hnone : m.original? y = none)
    (hx : x ∈ cy.dependencies) : m.original? x = none := by
  rcases h.cover y cy hy with hy | ⟨o, ho⟩
  · obtain ⟨cx, hcx⟩ := hH₀.live_dependency hy hx
    exact h.original?_old hcx
  · cases hnone.symm.trans (h.original?_iff.2 ho)

theorem Replica.renamable_back
    (hcontext : ∀ data', c'.kind = .context data' → ∃ o c data, H₀ o = some c ∧
      c.kind = .context data ∧ c'.term = c.term.mapVars (H.renamed (m.older x)) ∧
      data'.kind.unfolded? = data.kind.unfolded?.map fun d => (m.older x d).getD d) :
    H.Renamable m.original? c' := by
  refine ⟨fun d _ hnone cd hd y hy => h.fixed_back hH₀ hd hnone hy,
    fun data' d' hk' hd' y hy heq => ?_⟩
  obtain ⟨o, c, data, ho, hk, hterm, hunfolded⟩ := hcontext data' hk'
  rw [ContextKind.unfolded?_eq_some.2 hd'] at hunfolded
  obtain ⟨d, hd, rfl⟩ := Option.map_eq_some_iff.1 hunfolded.symm
  have htracked := (hH₀ o c ho).built.tracked
  have hreads : c.kind.Reads d := by
    rw [hk]
    exact ContextKind.unfolded?_eq_some.1 hd
  obtain ⟨cd, hcd⟩ := hH₀.live_dependency ho ((htracked d).2 (Or.inr hreads))
  rw [hterm, Term.mem_freeVars_mapVars (mapVars_renamed_var fun z w hz =>
    h.live (older_eq_some.1 hz).1)] at hy
  obtain ⟨z, hz, rfl⟩ := hy
  obtain ⟨cz, hcz⟩ := hH₀.live_dependency ho ((htracked z).2 (Or.inl hz))
  rw [h.original?_older hcz, h.original?_older hcd] at heq
  rw [heq]

/-- Renaming copies back to their originals. -/
theorem Replica.renames_back : H.Renames m.original? where
  renders a b hab := by
    have hba := h.original?_iff.1 hab
    obtain ⟨c, c', hb, ha, hrenders⟩ := h.renders b a hba
    obtain ⟨c₀, hc₀⟩ := h.source b a hba
    cases (h.history b c₀ hc₀).symm.trans hb
    have htracked := (hH₀ b c hc₀).built.tracked
    have hback (t : Term) (ht : Discipline.exact.Allows H₀ t)
        (hmem : ∀ y ∈ t.freeVars, y ∈ c.dependencies) :
        t = (t.mapVars (H.renamed (m.older a))).mapVars (H.renamed m.original?) :=
      (h.mapVars_back (ht.mono h.history) fun y hy =>
        hH₀.live_dependency hc₀ (hmem y hy)).symm
    refine ⟨c', c, ha, hb, ?_⟩
    cases hrenders with
    | assumption howner => exact .assumption (h.original?_iff.2 howner)
    | declaration hvalue =>
      apply Renders.declaration
      rw [hvalue]
      exact hback _ ((hH₀ b _ hc₀).supplied _ rfl) fun y hy => (htracked y).2 (Or.inr hy)
    | specialization hgeneral hargument =>
      obtain ⟨cg, hcg⟩ := hH₀.live_dependency hc₀ ((htracked _).2 (Or.inr (Or.inl rfl)))
      apply Renders.specialization
      · rw [hgeneral, h.original?_older hcg]
      · rw [hargument]
        exact hback _ ((hH₀ b _ hc₀).supplied _ rfl)
          fun y hy => (htracked y).2 (Or.inr (Or.inr hy))
    | @context _ _ _ _ _ _ data data' hterm hkind hassumptions =>
      apply Renders.context
      · rw [hterm]
        exact hback _ (hH₀ b _ hc₀).term fun y hy => (htracked y).2 (Or.inl hy)
      · rw [hkind]
        cases hd : data.kind.unfolded? with
        | none => rfl
        | some d =>
          obtain ⟨cd, hcd⟩ := hH₀.live_dependency hc₀
            ((htracked d).2 (Or.inr (ContextKind.unfolded?_eq_some.1 hd)))
          rw [Option.map_some, Option.map_some, h.original?_older hcd]
      · rw [map_eq_map_some] at hassumptions ⊢
        exact hassumptions.flip.imp fun _ _ => h.original?_iff.2
  renamable a b c' hab ha _ := by
    have hba := h.original?_iff.1 hab
    obtain ⟨c, c₁, hb, ha', hrenders⟩ := h.renders b a hba
    cases ha.symm.trans ha'
    obtain ⟨c₀, hc₀⟩ := h.source b a hba
    cases (h.history b c₀ hc₀).symm.trans hb
    apply h.renamable_back hH₀ (x := a)
    intro data' hk'
    cases hrenders with
    | context hterm hkind _ =>
      cases hk'
      exact ⟨b, _, _, hc₀, rfl, hterm, hkind⟩
    | _ => cases hk'

/-- The copy of a context has as many assumptions as the context. -/
theorem Replica.arity (hH : H.Lawful .exact) {data : ContextData} {kind' : ContextKind}
    {deps' : IdSet} {inner' : Term} (ho : H₀ o = some c) (hk : c.kind = .context data)
    (hkind : kind'.unfolded? = data.kind.unfolded?.map fun d => (m.older x d).getD d)
    (hinner' : H.Unfolds (c.term.mapVars (H.renamed (m.older x))) deps' inner' kind') :
    inner'.unproject.arity = data.assumptions.length := by
  have hlaw := hH₀ o c ho
  have htracked := hlaw.built.tracked
  have hbuilt := hlaw.built
  cases hbuilt with
  | @context _ term inner _ deps kind entries _ hinner _ harity _ =>
    cases hk
    have hrenamable : H.Renamable m.original?
        ⟨none, term.mapVars (H.renamed (m.older x)), deps', .context ⟨kind', [], .tau⟩⟩ := by
      apply h.renamable_back hH₀ (x := x)
      intro data' hk'
      cases hk'
      exact ⟨o, _, _, ho, rfl, rfl, hkind⟩
    have hback : kind.unfolded? = kind'.unfolded?.map fun d => (m.original? d).getD d := by
      rw [hkind]
      cases hd : kind.unfolded? with
      | none => rfl
      | some d =>
        obtain ⟨cd, hcd⟩ := hH₀.live_dependency ho
          ((htracked d).2 (Or.inr (ContextKind.unfolded?_eq_some.1 hd)))
        rw [Option.map_some, Option.map_some, h.original?_older hcd]
    have hterm : (term.mapVars (H.renamed (m.older x))).mapVars (H.renamed m.original?) = term :=
      h.mapVars_back (hlaw.term.mono h.history) fun y hy =>
        hH₀.live_dependency ho ((htracked y).2 (Or.inl hy))
    have hsource : H.Unfolds
        ((term.mapVars (H.renamed (m.older x))).mapVars (H.renamed m.original?)) deps inner
        kind := by
      rw [hterm]
      exact hinner.mono h.history
    have heq := (h.renames_back hH₀).inner hH hrenamable rfl hback hinner' hsource
    rw [List.length_map, harity, heq, renaming_renamed.unproject, renaming_renamed.arity]
  | _ => cases hk

/-- A statement that was there before can be renamed if what stays as it is allows it. -/
theorem Replica.renamable (ho : H₀ o = some c)
    (hfixed : ∀ d ∈ c.dependencies, m.get? d = none → ∀ c', H d = some c' →
      ∀ x ∈ c'.dependencies, m.get? x = none) : H.Renamable m.get? c := by
  refine ⟨hfixed, fun data d hk hd x hx heq => ?_⟩
  have htracked := (hH₀ o c ho).built.tracked
  have hreads : c.kind.Reads d := by
    rw [hk]
    exact hd
  obtain ⟨cx, hcx⟩ := hH₀.live_dependency ho ((htracked x).2 (Or.inl hx))
  obtain ⟨cd, hcd⟩ := hH₀.live_dependency ho ((htracked d).2 (Or.inr hreads))
  cases hmx : m.get? x with
  | none =>
    cases hmd : m.get? d with
    | none =>
      rw [hmx, hmd] at heq
      exact heq
    | some y =>
      rw [hmx, hmd] at heq
      cases heq
      cases hcx.symm.trans (h.fresh d _ hmd)
  | some y =>
    cases hmd : m.get? d with
    | none =>
      rw [hmx, hmd] at heq
      cases heq
      cases hcd.symm.trans (h.fresh x _ hmx)
    | some z =>
      rw [hmx, hmd] at heq
      cases heq
      exact h.injective x d _ hmx hmd

end

/-- Every copy is younger than the copies of what its original depends on. -/
def Timely (H : Graph) (m : Correspondence) : Prop :=
  ∀ o x c, m.get? o = some x → H o = some c → (∀ i, c.kind ≠ .assumption i) →
    ∀ d ∈ c.dependencies, (∀ y, m.get? d = some y → y < x) ∧
      (m.get? d = none → ∀ c', H d = some c' → ∀ z ∈ c'.dependencies, m.get? z = none)

theorem Replica.renames (h : H₀.Replica H m) (hH₀ : H₀.Lawful .exact) (ht : H.Timely m) :
    H.Renames m.get? where
  renders o x hox := by
    obtain ⟨c, c', ho, hx, hrenders⟩ := h.renders o x hox
    obtain ⟨c₀, hc₀⟩ := h.source o x hox
    cases (h.history o c₀ hc₀).symm.trans ho
    refine ⟨c, c', ho, hx, hrenders.congr (hH₀ o c hc₀).built.tracked (fun _ _ hm => hm) ?_⟩
    intro hplain d hd
    have hsame : m.older x d = m.get? d := older_of_lt (ht o x c hox ho hplain d hd).1
    exact ⟨hsame.symm, by rw [renamed, renamed, hsame]⟩
  renamable o x c hox ho hplain := by
    obtain ⟨c₀, hc₀⟩ := h.source o x hox
    cases (h.history o c₀ hc₀).symm.trans ho
    exact h.renamable hH₀ hc₀ fun d hd => (ht o x c hox ho hplain d hd).2

/-- Copies made later are younger, so what an earlier copy was renamed by stays. -/
theorem Replica.older_grow (h : H₀.Replica H m) (hsub : H.Sub H')
    (hm : ∀ o x, m.get? o = some x → m'.get? o = some x)
    (hnew : ∀ o y, m'.get? o = some y → m.get? o = none → H.Fresh y) (hx : H x = some c)
    (d : StatementId) :
    m'.older x d = m.older x d ∧ H'.renamed (m'.older x) d = H.renamed (m.older x) d := by
  have holder : m'.older x d = m.older x d := by
    cases hmd : m.get? d with
    | some y => rw [older, older, hmd, hm d y hmd]
    | none =>
      rw [older_of_none hmd]
      refine Option.eq_none_iff_forall_ne_some.2 fun y hy => ?_
      obtain ⟨hdy, hlt⟩ := older_eq_some.1 hy
      exact Nat.lt_asymm hlt (hnew d y hdy hmd x c hx)
  refine ⟨holder, ?_⟩
  rw [renamed, renamed, holder]
  cases hd : m.older x d with
  | none => rfl
  | some y =>
    obtain ⟨cy, hcy⟩ := h.live (older_eq_some.1 hd).1
    rw [Option.bind_some, Option.bind_some, hsub y cy hcy, hcy]

/-- More copies, under ids that come after the history. -/
theorem Replica.grow (h : H₀.Replica H m) (hH : H.Lawful .exact) (hsub : H.Sub H')
    (hm : ∀ o x, m.get? o = some x → m'.get? o = some x)
    (hnew : ∀ o x, m'.get? o = some x → m.get? o = none → H.Fresh x ∧ (∃ c, H₀ o = some c) ∧
      ∃ c c', H' o = some c ∧ H' x = some c' ∧ H'.Renders m'.get? (m'.older x) c c')
    (hinj : ∀ o o' x, m'.get? o = some x → m'.get? o' = some x → m.get? o = none →
      m.get? o' = none → o = o')
    (hcover : ∀ x c, H' x = some c → H x = some c ∨ ∃ o, m'.get? o = some x) :
    H₀.Replica H' m' := by
  have hcases (o x : StatementId) (hox : m'.get? o = some x) :
      m.get? o = some x ∨ m.get? o = none := by
    cases hmo : m.get? o with
    | none => exact Or.inr rfl
    | some y => exact Or.inl ((hm o y hmo).symm.trans hox)
  have hfresh (o x : StatementId) (hox : m'.get? o = some x) (hmo : m.get? o = none) :
      ∀ o', m.get? o' ≠ some x := by
    intro o' ho'
    obtain ⟨c, hc⟩ := h.live ho'
    exact Nat.lt_irrefl _ ((hnew o x hox hmo).1 x c hc)
  refine ⟨h.history.trans hsub, fun o x hox => ?_, fun o x hox => ?_, fun o o' x hox hox' => ?_,
    fun x c hx => ?_, fun o x hox => ?_⟩
  · rcases hcases o x hox with hmo | hmo
    · exact h.source o x hmo
    · exact (hnew o x hox hmo).2.1
  · rcases hcases o x hox with hmo | hmo
    · exact h.fresh o x hmo
    · refine Option.eq_none_iff_forall_ne_some.2 fun c hc => ?_
      exact Nat.lt_irrefl _ ((hnew o x hox hmo).1 x c (h.history x c hc))
  · rcases hcases o x hox with hmo | hmo
    · rcases hcases o' x hox' with hmo' | hmo'
      · exact h.injective o o' x hmo hmo'
      · exact absurd hmo (hfresh o' x hox' hmo' o)
    · rcases hcases o' x hox' with hmo' | hmo'
      · exact absurd hmo' (hfresh o x hox hmo o')
      · exact hinj o o' x hox hox' hmo hmo'
  · rcases hcover x c hx with hx | hx
    · rcases h.cover x c hx with hx | ⟨o, ho⟩
      · exact Or.inl hx
      · exact Or.inr ⟨o, hm o x ho⟩
    · exact Or.inr hx
  · rcases hcases o x hox with hmo | hmo
    · obtain ⟨c, c', ho, hx, hrenders⟩ := h.renders o x hmo
      refine ⟨c, c', hsub o c ho, hsub x c' hx, hrenders.congr (hH o c ho).built.tracked hm ?_⟩
      exact fun _ d _ => h.older_grow hsub hm (fun o y hoy ho => (hnew o y hoy ho).1) hx d
    · exact (hnew o x hox hmo).2.2

end Graph

end StatementGraph
