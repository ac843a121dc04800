import StatementGraph.Proofs.BatchOrder
import StatementGraph.Proofs.Rollback

namespace StatementGraph

namespace Graph

variable {G G' H K : Graph} {D : Discipline} {c c' : Content} {x y z r : StatementId}

/-- Statements of one tree: something is around both, or is one of them. -/
def Akin (G : Graph) (x y : StatementId) : Prop := ∃ r, G.Within x r ∧ G.Within y r

theorem Akin.refl (G : Graph) (x : StatementId) : G.Akin x x := ⟨x, .refl, .refl⟩

theorem Akin.symm (h : G.Akin x y) : G.Akin y x := by
  obtain ⟨r, hx, hy⟩ := h
  exact ⟨r, hy, hx⟩

theorem Akin.trans (h : G.Akin x y) (h' : G.Akin y z) : G.Akin x z := by
  obtain ⟨r, hx, hy⟩ := h
  obtain ⟨r', hy', hz⟩ := h'
  -- of two statements around a third one, one is around the other
  rcases hy.comparable hy' with hw | hw
  · exact ⟨r', hx.trans hw, hz⟩
  · exact ⟨r, hx, hz.trans hw⟩

theorem Within.akin (h : G.Within x y) : G.Akin x y := ⟨y, h, .refl⟩

theorem akin_owner (hx : G x = some c) (ho : c.owner = some y) : G.Akin x y :=
  Within.akin (.single (ownerOf_eq.2 ⟨c, hx, ho⟩))

theorem Sees.akin (h : G.Sees x y) : G.Akin x y := by
  obtain ⟨c, o, hc, ho, hw⟩ := h
  exact hw.akin.trans (akin_owner hc ho).symm

theorem Lawful.akin_dependency (h : H.Lawful D) (hx : H x = some c) (hy : y ∈ c.dependencies) :
    H.Akin x y := by
  obtain ⟨-, o, ho, hsees⟩ := (h x c hx).dependency y hy
  exact (akin_owner hx ho).trans hsees.akin

theorem Lawful.akin_assumption {data : ContextData} (h : H.Lawful D) (hx : H x = some c)
    (hk : c.kind = .context data) (hy : y ∈ data.assumptions) : H.Akin x y := by
  obtain ⟨i, hi⟩ := List.mem_iff_getElem?.1 hy
  obtain ⟨ca, hca, ho, -⟩ := h.listed hx hk hi
  exact (akin_owner hca ho).symm

theorem Akin.root_eq (h : G.Akin x y) (hx : G.Within x r) (hr : G.ownerOf r = none)
    (hy : G.Within y z) (hz : G.ownerOf z = none) : r = z := by
  obtain ⟨a, hxa, hya⟩ := h
  have htop {b d : StatementId} (hb : G.Within d b) (hd : G.Within d a)
      (howner : G.ownerOf b = none) : G.Within a b := by
    rcases hb.comparable hd with hw | hw
    · exact (within_top howner).1 hw ▸ .refl
    · exact hw
  rcases (htop hx hxa hr).comparable (htop hy hya hz) with hw | hw
  · exact ((within_top hr).1 hw).symm
  · exact (within_top hz).1 hw

theorem Derivable.of_kin (hH : H.Lawful D) (hG : G.Sub H) (hG' : G'.Sub H) (hr : G'.Rooted)
    (hkin : ∀ y, H.Akin x y → G y = G' y) (h : G.Derivable x) : G'.Derivable x := by
  induction h with
  | @plain x c hx hk hd ih =>
    refine .plain ((hkin x (.refl H x)).symm.trans hx) hk fun d hd => ?_
    apply ih d hd
    intro y hy
    exact hkin y ((hH.akin_dependency (hG x c hx) hd).trans hy)
  | @solved x y c hx hd hs hy ihd ihy =>
    have hsolves := hG.solves hs
    have hakin : H.Akin x y := hsolves.2.1.akin
    obtain ⟨c', hc'⟩ := hy.live
    have hx' : G' x = some c := (hkin x (.refl H x)).symm.trans hx
    refine .solved hx' (fun d hd => ?_)
      (hG'.solves_of hr ((hkin y hakin).symm.trans hc') hx' hsolves) ?_
    · apply ihd d hd
      intro z hz
      exact hkin z ((hH.akin_dependency (hG x c hx) hd).trans hz)
    · apply ihy
      intro z hz
      exact hkin z (hakin.trans hz)

/-- A set of ids that takes the trees of a graph whole. -/
def Whole (G H : Graph) (C : StatementId → Prop) : Prop := ∀ x y c c', G x = some c →
  G y = some c' → H.Akin x y → C x → C y

theorem Whole.compl {C : StatementId → Prop} (h : G.Whole H C) : G.Whole H fun x => ¬C x :=
  fun x y c c' hx hy hxy hC hCy => hC (h y x c' c hy hx hxy.symm hCy)

end Graph

namespace Records

variable {r r' r₁ r₂ : Records} {H : Graph} {D : Discipline} {C : StatementId → Prop}
  {x y : StatementId}

/-- Records that look at a statement, and in its tree, like other ones. -/
structure LikeAt (H : Graph) (x : StatementId) (r r' : Records) : Prop where
  statement : r.statements x = r'.statements x
  authority : r.authorities x = r'.authorities x
  kin : ∀ c, r.graph x = some c → ∀ y, H.Akin x y → r.statements y = r'.statements y

theorem LikeAt.graph (h : LikeAt H x r r') : r.graph x = r'.graph x :=
  congrArg (Option.map Statement.content) h.statement

theorem LikeAt.graph_kin (h : LikeAt H x r r') {c : Content} (hx : r.graph x = some c)
    (hy : H.Akin x y) : r.graph y = r'.graph y :=
  congrArg (Option.map Statement.content) (h.kin c hx y hy)

/-- Records are maintained if they look everywhere like maintained ones. -/
theorem Maintained.of_like (hH : H.Lawful D) (h : ∀ x, ∃ r', r'.Maintained H ∧ LikeAt H x r r') :
    r.Maintained H := by
  have hsub : r.graph.Sub H := by
    intro x c hx
    obtain ⟨r', hm, hlike⟩ := h x
    exact hm.sub x c (hlike.graph.symm.trans hx)
  have hclosed : r.graph.Closed := by
    refine ⟨fun x c o hx ho => ?_, fun x c d hx hd => ?_, fun x c data a hx hk ha => ?_⟩
    all_goals obtain ⟨r', hm, hlike⟩ := h x
    · rw [hlike.graph_kin hx (Graph.akin_owner (hsub x c hx) ho)]
      exact hm.closed.owner x c o (hlike.graph.symm.trans hx) ho
    · rw [hlike.graph_kin hx (hH.akin_dependency (hsub x c hx) hd)]
      exact hm.closed.dependency x c d (hlike.graph.symm.trans hx) hd
    · rw [hlike.graph_kin hx (hH.akin_assumption (hsub x c hx) hk ha)]
      exact hm.closed.assumption x c data a (hlike.graph.symm.trans hx) hk ha
  refine ⟨fun x st hx => ?_, hsub, hclosed, fun x => ?_, fun x a ha => ?_⟩
  · obtain ⟨r', hm, hlike⟩ := h x
    exact hm.keyed x st (hlike.statement.symm.trans hx)
  · obtain ⟨r', hm, hlike⟩ := h x
    rw [hlike.statement, hm.proved x]
    constructor
    · intro hx
      obtain ⟨c, hc⟩ := hx.live
      apply hx.of_kin hH hm.sub hsub hclosed.owner
      intro y hy
      exact (hlike.graph_kin (hlike.graph.trans hc) hy).symm
    · intro hx
      obtain ⟨c, hc⟩ := hx.live
      apply hx.of_kin hH hsub hm.sub hm.closed.owner
      intro y hy
      exact hlike.graph_kin hc hy
  · obtain ⟨r', hm, hlike⟩ := h x
    rw [hlike.graph]
    exact hm.authority x a (hlike.authority.symm.trans ha)

/-- The records of some ids are those of one state, and the others those of another. -/
structure Joins (C : StatementId → Prop) (r₁ r₂ r : Records) : Prop where
  inside : ∀ x, C x → r.statements x = r₁.statements x ∧ r.authorities x = r₁.authorities x
  outside : ∀ x, ¬C x → r.statements x = r₂.statements x ∧ r.authorities x = r₂.authorities x

theorem exists_joins (C : StatementId → Prop) (r₁ r₂ : Records) : ∃ r, Joins C r₁ r₂ r := by
  classical
  refine ⟨⟨fun x => if C x then r₁.statements x else r₂.statements x,
    fun x => if C x then r₁.authorities x else r₂.authorities x⟩, ⟨fun x hx => ?_, fun x hx => ?_⟩⟩
  · exact ⟨if_pos hx, if_pos hx⟩
  · exact ⟨if_neg hx, if_neg hx⟩

theorem Joins.swap (h : Joins C r₁ r₂ r) : Joins (fun x => ¬C x) r₂ r₁ r :=
  ⟨h.outside, fun x hx => h.inside x (not_not.1 hx)⟩

/-- Inside the set, what is put together looks like the first state. -/
theorem Joins.likeAt (h : Joins C r₁ r₂ r) (h₁ : r₁.Maintained H) (h₂ : r₂.Maintained H)
    (hw₁ : r₁.graph.Whole H C) (hw₂ : r₂.graph.Whole H C) (hx : C x) : LikeAt H x r r₁ := by
  obtain ⟨hstatement, hauthority⟩ := h.inside x hx
  refine ⟨hstatement, hauthority, fun c hc y hy => ?_⟩
  have hc₁ : r₁.graph x = some c := by
    rw [← hc]
    exact (congrArg (Option.map Statement.content) hstatement).symm
  by_cases hCy : C y
  · exact (h.inside y hCy).1
  · -- outside the set there is nothing of this tree, on either side
    have hnone₁ : r₁.statements y = none := by
      cases hst : r₁.statements y with
      | none => rfl
      | some st =>
        have hst' : r₁.graph y = some st.content := congrArg (Option.map Statement.content) hst
        exact absurd (hw₁ x y c _ hc₁ hst' hy hx) hCy
    have hnone₂ : r₂.statements y = none := by
      cases hst : r₂.statements y with
      | none => rfl
      | some st =>
        have hst' : r₂.graph y = some st.content := congrArg (Option.map Statement.content) hst
        obtain ⟨a, hxa, hya⟩ := hy
        obtain ⟨-, c₁, ha₁⟩ := h₁.sub.within_of h₁.closed.owner hc₁ hxa
        obtain ⟨-, c₂, ha₂⟩ := h₂.sub.within_of h₂.closed.owner hst' hya
        have hCa : C a := hw₁ x a c c₁ hc₁ ha₁ hxa.akin hx
        exact absurd (hw₂ a y c₂ _ ha₂ hst' hya.akin.symm hCa) hCy
    rw [(h.outside y hCy).1, hnone₁, hnone₂]

theorem Joins.maintained (h : Joins C r₁ r₂ r) (hH : H.Lawful D) (h₁ : r₁.Maintained H)
    (h₂ : r₂.Maintained H) (hw₁ : r₁.graph.Whole H C) (hw₂ : r₂.graph.Whole H C) :
    r.Maintained H := by
  apply Maintained.of_like hH
  intro x
  by_cases hx : C x
  · exact ⟨r₁, h₁, h.likeAt h₁ h₂ hw₁ hw₂ hx⟩
  · exact ⟨r₂, h₂, h.swap.likeAt h₂ h₁ hw₂.compl hw₁.compl hx⟩

theorem content_of_scopedName {owner : NameScope} {name : Identifier}
    (h : (r.statements x).bind Statement.scopedName = some (owner, name)) :
    ∃ c, r.graph x = some c ∧ c.owner = owner := by
  obtain ⟨st, hst, hname⟩ := Option.bind_eq_some_iff.1 h
  obtain ⟨_, -, heq⟩ := Option.map_eq_some_iff.1 hname
  exact ⟨st.content, congrArg (Option.map Statement.content) hst, congrArg Prod.fst heq⟩

/-- Trees of two states without clashing names make such a state, if no two roots clash. -/
theorem Joins.distinctNames (h : Joins C r₁ r₂ r) (hH : H.Lawful D) (h₁ : r₁.Maintained H)
    (h₂ : r₂.Maintained H) (hw₁ : r₁.graph.Whole H C) (hw₂ : r₂.graph.Whole H C)
    (hd₁ : r₁.DistinctNames) (hd₂ : r₂.DistinctNames)
    (hroots : ∀ x y name, C x → ¬C y →
      (r₁.statements x).bind Statement.scopedName = some (none, name) →
      (r₂.statements y).bind Statement.scopedName ≠ some (none, name)) : r.DistinctNames := by
  -- a name that is inside and outside the set is the name of two roots
  have hmixed (x y : StatementId) (key : NameScope × Identifier) (hx : C x) (hy : ¬C y)
      (hkx : (r.statements x).bind Statement.scopedName = some key)
      (hky : (r.statements y).bind Statement.scopedName = some key) : False := by
    obtain ⟨owner, name⟩ := key
    cases owner with
    | none =>
      rw [(h.inside x hx).1] at hkx
      rw [(h.outside y hy).1] at hky
      exact hroots x y name hx hy hkx hky
    | some o =>
      have hsub : r.graph.Sub H := (h.maintained hH h₁ h₂ hw₁ hw₂).sub
      obtain ⟨cx, hcx, hox⟩ := content_of_scopedName hkx
      obtain ⟨cy, hcy, hoy⟩ := content_of_scopedName hky
      have hakin : H.Akin x y :=
        (Graph.akin_owner (hsub x cx hcx) hox).trans (Graph.akin_owner (hsub y cy hcy) hoy).symm
      have hlike := h.likeAt h₁ h₂ hw₁ hw₂ hx
      rw [hlike.kin cx hcx y hakin] at hky
      rw [hlike.statement] at hkx
      exact hy (hd₁ x y _ hkx hky ▸ hx)
  intro x y key hkx hky
  by_cases hx : C x <;> by_cases hy : C y
  · rw [(h.inside x hx).1] at hkx
    rw [(h.inside y hy).1] at hky
    exact hd₁ x y key hkx hky
  · exact (hmixed x y key hx hy hkx hky).elim
  · exact (hmixed y x key hy hx hky hkx).elim
  · rw [(h.outside x hx).1] at hkx
    rw [(h.outside y hy).1] at hky
    exact hd₂ x y key hkx hky

end Records

end StatementGraph
