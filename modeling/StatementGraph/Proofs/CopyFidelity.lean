import StatementGraph.Proofs.CopyRun
import StatementGraph.Proofs.Operation

namespace StatementGraph

/-- A term with the variables of copies replaced by those of their originals. -/
def Store.carryBack (s : Store) (map : Correspondence) (term : Term) : Term :=
  term.mapVars fun copy =>
    (map.original? copy).bind fun source => (s.get? source).map Statement.toVar

/-- The kind of a copied context: nested, or unfolding what a renaming gives. -/
def ContextKind.copied (r : StatementId → StatementId) : ContextKind → ContextKind
  | unfolding declaration => unfolding (r declaration)
  | _ => nested

theorem ContextKind.eq_copied {kind kind' : ContextKind} {r : StatementId → StatementId}
    (hunfolded : kind'.unfolded? = kind.unfolded?.map r) (hroot : kind' ≠ .root) :
    kind' = kind.copied r := by
  cases kind' with
  | root => exact absurd rfl hroot
  | nested =>
    cases kind with
    | unfolding d => cases hunfolded
    | nested => rfl
    | root => rfl
  | unfolding d' =>
    cases kind with
    | unfolding d =>
      cases hunfolded
      rfl
    | nested => cases hunfolded
    | root => cases hunfolded

/-- The kind of a copy, compared with that of its original. -/
inductive Store.Mirrors (s : Store) (map : Correspondence) (copy : StatementId) :
    StatementKind → StatementKind → Prop where
  | assumption (order : Nat) : Mirrors s map copy (.assumption order) (.assumption order)
  | declaration {value value' : Term} (hvalue : s.carryBack map value' = value) :
      Mirrors s map copy (.declaration value) (.declaration value')
  | specialization {general : StatementId} {argument argument' : Term}
      (hargument : s.carryBack map argument' = argument) :
      Mirrors s map copy (.specialization general argument)
        (.specialization ((map.older copy general).getD general) argument')
  | context {data data' : ContextData}
      (hkind : data'.kind = data.kind.copied fun d => (map.older copy d).getD d)
      (hassumptions : data.assumptions.map map.get? = data'.assumptions.map some)
      (hconsequent : s.carryBack map data'.consequent = data.consequent) :
      Mirrors s map copy (.context data) (.context data')

namespace CopyPlan

variable {p : CopyPlan} {outer : List StatementId} {H : Graph} {state : CopyState}
  {o x : StatementId} {c c' : Content}

section

variable (h : p.Keeps outer H state)

include h

theorem Keeps.carryBack_eq (t : Term) :
    p.engine.store.carryBack state.map t = t.mapVars (H.renamed state.map.original?) := by
  rw [Store.carryBack]
  congr 1
  funext y
  cases hy : state.map.original? y with
  | none => exact (Graph.renamed_of_none hy).symm
  | some o =>
    obtain ⟨c, hc⟩ := h.known o y (h.replica.original?_iff.1 hy)
    obtain ⟨st, hst, rfl⟩ := Store.graph_eq_some.1 hc
    have hid := p.sound.maintained.indexed.keyed o st hst
    rw [Graph.renamed_of_some hy (h.sound.maintained.sub o _ (h.sub o _ hc)), Option.bind_some, hst]
    subst hid
    rfl

/-- A copy and its original. -/
theorem Keeps.mirrors (hox : state.map.get? o = some x) (hc : p.graph o = some c)
    (hc' : state.engine.store.graph x = some c') :
    p.engine.store.carryBack state.map c'.term = c.term ∧
      p.engine.store.Mirrors state.map x c.kind c'.kind := by
  have hH := h.sound.maintained.sub o c (h.sub o c hc)
  have hH' := h.sound.maintained.sub x c' hc'
  have hback := h.replica.renames_back p.sound.lawful
  have hxo := h.replica.original?_iff.2 hox
  obtain ⟨c₁, c₂, hc₁, hc₂, hrenders⟩ := h.replica.renders o x hox
  cases hH.symm.trans hc₁
  cases hH'.symm.trans hc₂
  refine ⟨?_, ?_⟩
  · rw [h.carryBack_eq]
    exact (hback.term h.sound.lawful hxo hH' hH).symm
  have hrenders' := hback.renders_eq hxo hH' hH
  cases hrenders with
  | assumption => exact .assumption _
  | declaration =>
    cases hrenders' with
    | declaration hvalue =>
      apply Store.Mirrors.declaration
      rw [h.carryBack_eq]
      exact hvalue.symm
  | specialization hgeneral =>
    cases hrenders' with
    | specialization _ hargument =>
      subst hgeneral
      apply Store.Mirrors.specialization
      rw [h.carryBack_eq]
      exact hargument.symm
  | @context _ owner' _ _ _ _ data data' _ hkind hassumptions =>
    apply Store.Mirrors.context _ hassumptions
    · rw [h.carryBack_eq]
      exact (hback.context h.sound.lawful hxo hH' hH rfl rfl).1.symm
    · apply ContextKind.eq_copied hkind
      -- a copy has an owner, so it is not a root
      intro hroot
      obtain ⟨q, hq⟩ := h.owned hox
      obtain ⟨c'', hc'', howner⟩ := Graph.ownerOf_eq.1 hq
      cases hc'.symm.trans hc''
      rw [(h.sound.lawful x _ hH').built.owner_eq_none.2 ⟨data', rfl, hroot⟩] at howner
      cases howner

end

end CopyPlan

/-- Each copy has the kind of its original and, with the originals put back, its very terms. -/
theorem Reached.copy_faithful {e e' : Engine} {t : TransactionId} {target : StatementId}
    {sources copies : List StatementId} {map : Correspondence} {exclude : IdSet}
    (h : Reached (fun e op => op.Sequential e ∧ op.Faithful e) e)
    (hlive : ∀ x ∈ sources, e.store.contains x = true)
    (hrun : e.copy t target sources {} exclude = (.ok copies, map, e')) :
    (∀ o o' c, map.get? o = some c → map.get? o' = some c → o = o') ∧
      (∀ o c, map.get? o = some c →
        e.store.allocator.next.toNat ≤ c.raw ∧ e.store.contains c = false) ∧
      sources.map map.get? = copies.map some ∧
      (∀ x ∈ sources, ∀ y ∈ e.store.subtree x, map.contains y = true) ∧
      ∀ o c, map.get? o = some c → ∃ st st', e.store.get? o = some st ∧ e'.store.get? c = some st' ∧
        e.store.carryBack map st'.term = st.term ∧ e.store.Mirrors map c st.kind st'.kind := by
  obtain ⟨H, hsession⟩ := h.session (fun _ _ hop => hop.1) (fun _ _ hop => hop.2.offers)
  have hopen : e.isOpen t = true := by
    by_contra hclosed
    rw [Engine.copy_closed (Bool.eq_false_iff.2 hclosed)] at hrun
    cases hrun
  have hsources (x : StatementId) (hx : x ∈ sources) : ∃ c, e.store.graph x = some c := by
    obtain ⟨st, hst⟩ := Table.contains_iff.1 (hlive x hx)
    exact ⟨_, Store.graph_of_get? hst⟩
  let p : CopyPlan := ⟨t, H, e, target, sources, hsession.sound hopen,
    Engine.isContext_of_copy hopen hrun, hsources⟩
  rcases p.copy_cases exclude with
    ⟨f, map', e₁, hcopy, -⟩ | ⟨copies', map', e₁, H', hcopy, hk, hmap⟩
  · cases hrun.symm.trans hcopy
  cases hrun.symm.trans hcopy
  refine ⟨hk.replica.injective, fun o c hoc => ⟨?_, ?_⟩, hmap, fun x hx y hy => ?_,
    fun o c hoc => ?_⟩
  · exact Nat.le_of_not_lt fun hlt => hk.beyond o c hoc (Or.inr hlt)
  · refine Bool.eq_false_iff.2 fun hc => ?_
    obtain ⟨st, hst⟩ := Table.contains_iff.1 hc
    cases (hk.new hoc).symm.trans (Store.graph_of_get? hst)
  · exact Table.contains_iff.2
      (hk.copied hmap ⟨x, hx, (Store.mem_subtree hsession.maintained.indexed).1 hy⟩)
  · obtain ⟨co, hco⟩ := hk.known o c hoc
    obtain ⟨cc, hcc⟩ := hk.live hoc
    obtain ⟨hterm, hkind⟩ := hk.mirrors hoc hco hcc
    obtain ⟨st, hst, rfl⟩ := Store.graph_eq_some.1 hco
    obtain ⟨st', hst', rfl⟩ := Store.graph_eq_some.1 hcc
    exact ⟨st, st', hst, hst', hterm, hkind⟩

/-- A context that mentions from within a declaration beside it, and a context to copy both into. -/
def entangled : List Op :=
  [.begin none,
    .createRoot ⟨1⟩ (.function ⟨0⟩ (.function ⟨1⟩ (.atom "A") (.atom "B"))
      (.function ⟨2⟩ (.atom "A") (.atom "B"))),
    .openNested ⟨1⟩ (.after 0) (.atom "A"), .openNested ⟨1⟩ (.after 0) (.atom "A"),
    .declare ⟨1⟩ (.after 0) (.var (.after 1) (.function ⟨1⟩ (.atom "A") (.atom "B"))),
    .specialize ⟨1⟩ (.after 3) (.after 5) (.var (.after 2) (.atom "A"))]

theorem reached_entangled : Reached (fun e op => op.Sequential e ∧ op.Faithful e)
    (Op.runAll (.inMemory {}) entangled) :=
  reached_of_succeed (by decide +kernel)

theorem entangled_copied :
    (∀ x ∈ [StatementId.after 3, .after 5],
        (Op.runAll (.inMemory {}) entangled).store.contains x = true) ∧
      ∃ map e', (Op.runAll (.inMemory {}) entangled).copy ⟨1⟩ (.after 4) [.after 3, .after 5] {}
          .empty = (.ok [.after 7, .after 9], map, e') ∧
        (∀ y ∈ (Op.runAll (.inMemory {}) entangled).store.subtree (.after 3),
          map.contains y = true) ∧
        ∀ o c, map.get? o = some c → ∃ st st',
          (Op.runAll (.inMemory {}) entangled).store.get? o = some st ∧
          e'.store.get? c = some st' ∧
          (Op.runAll (.inMemory {}) entangled).store.carryBack map st'.term = st.term ∧
          (Op.runAll (.inMemory {}) entangled).store.Mirrors map c st.kind st'.kind := by
  have hlive : ∀ x ∈ [StatementId.after 3, .after 5],
      (Op.runAll (.inMemory {}) entangled).store.contains x = true := by decide
  have hok : ((Op.runAll (.inMemory {}) entangled).copy ⟨1⟩ (.after 4) [.after 3, .after 5] {}
      .empty).1 = .ok [.after 7, .after 9] := by decide +kernel
  generalize hrun : (Op.runAll (.inMemory {}) entangled).copy ⟨1⟩ (.after 4) [.after 3, .after 5] {}
    .empty = out at hok
  obtain ⟨result, map, e'⟩ := out
  cases hok
  obtain ⟨-, -, -, hall, hmirrors⟩ := reached_entangled.copy_faithful hlive hrun
  exact ⟨hlive, map, e', rfl, hall _ List.mem_cons_self, hmirrors⟩

theorem entangled_reference :
    ((Op.runAll (.inMemory {}) entangled).copy ⟨1⟩ (.after 4) [.after 3, .after 5] {} .empty).1 =
        .ok [.after 7, .after 9] ∧
      (((Op.runAll (.inMemory {}) entangled).copy ⟨1⟩ (.after 4) [.after 3, .after 5] {}
          .empty).2.2.store.get? (.after 8)).bind Statement.reference? = some (.after 5) ∧
      ((Op.runAll (.inMemory {}) entangled).copy ⟨1⟩ (.after 4) [.after 3, .after 5] {}
          .empty).2.1.get? (.after 5) = some (.after 9) := by
  decide +kernel

end StatementGraph
