import Mathlib.Data.List.Sort
import StatementGraph.Proofs.Names

namespace StatementGraph

theorem Table.eq_of_get? {κ α : Type} [Ranked κ] {t t' : Table κ α}
    (h : ∀ k, t.get? k = t'.get? k) : t = t' := by
  have hnodup (t : Table κ α) : t.entries.Nodup :=
    List.Nodup.of_map Prod.fst t.keys_nodup
  have hperm : t.entries.Perm t'.entries := by
    rw [List.perm_ext_iff_of_nodup (hnodup t) (hnodup t')]
    rintro ⟨k, v⟩
    rw [Table.mem_entries, Table.mem_entries, h]
  have hentries : t.entries = t'.entries :=
    List.Perm.eq_of_pairwise (fun a b _ _ hab hba => absurd hba (Nat.lt_asymm hab))
      t.ascending t'.ascending hperm
  cases t
  cases t'
  cases hentries
  rfl

namespace Index

variable {i : Index} {st : Statement} {G : Graph} {x : StatementId}

theorem insert_byGeneral : (i.insert st).byGeneral = (i.insertKind st).byGeneral := by
  obtain ⟨_, owner, _, _, _, name, kind⟩ := st
  cases owner <;> cases kind <;> cases name <;> rfl

theorem remove_byGeneral : (i.remove st).byGeneral = (i.removeKind st).byGeneral := by
  obtain ⟨_, owner, _, _, _, name, kind⟩ := st
  cases owner <;> cases kind <;> cases name <;> rfl

theorem insert_roots : (i.insert st).roots = (i.insertPlace st).roots := by
  obtain ⟨_, owner, _, _, _, name, kind⟩ := st
  cases owner <;> cases kind <;> cases name <;> rfl

theorem remove_roots : (i.remove st).roots = (i.removePlace st).roots := by
  obtain ⟨_, owner, _, _, _, name, kind⟩ := st
  cases owner <;> cases kind <;> cases name <;> rfl

structure Files (i : Index) (G : Graph) : Prop where
  byGeneral : i.byGeneral.Mirrors (fun c g => ∃ argument, c.kind = .specialization g argument) G
  roots : ∀ x, x ∈ i.roots ↔ ∃ c, G x = some c ∧ c.owner = none
  names : (i.names.map Prod.fst).Nodup

theorem Files.insert (h : i.Files G) (hx : G st.id = none) :
    (i.insert st).Files (G.set st.id (some st.content)) where
  byGeneral := by
    apply h.byGeneral.insert hx
    intro entry
    rw [insert_byGeneral, insertKind, Statement.content]
    cases hk : st.kind with
    | specialization general argument =>
      rw [Postings.mem_file]
      grind
    | _ => simp
  roots y := by
    rw [insert_roots, insertPlace]
    by_cases hy : y = st.id
    · subst hy
      rw [Graph.set_self]
      cases ho : st.owner with
      | none => simp [Statement.content, ho]
      | some owner =>
        have hout : st.id ∉ i.roots := by
          intro hroot
          obtain ⟨c, hc, -⟩ := (h.roots _).1 hroot
          cases hx.symm.trans hc
        simpa [Statement.content, ho] using hout
    · rw [Graph.set_ne hy, ← h.roots y]
      cases ho : st.owner with
      | none => simp [hy]
      | some owner => rfl
  names := by
    rw [insert_names, insertName]
    cases st.identifier with
    | none => exact h.names
    | some name =>
      have hkept : ((i.names.filter fun entry => entry.1 ≠ (st.owner, name)).map Prod.fst).Nodup :=
        h.names.sublist (List.filter_sublist.map Prod.fst)
      refine List.nodup_cons.2 ⟨fun hmem => ?_, hkept⟩
      obtain ⟨entry, hentry, hkey⟩ := List.mem_map.1 hmem
      have hne := (List.mem_filter.1 hentry).2
      simp [hkey] at hne

theorem Files.remove (h : i.Files G) (hx : G st.id = some st.content) :
    (i.remove st).Files (G.set st.id none) where
  byGeneral := by
    apply h.byGeneral.remove _ hx fun k hk => hk
    intro entry
    rw [remove_byGeneral, removeKind, Statement.content]
    cases hk : st.kind with
    | specialization general argument =>
      rw [Postings.mem_unfile]
      grind
    | _ => simp
  roots y := by
    rw [remove_roots, removePlace]
    by_cases hy : y = st.id
    · subst hy
      rw [Graph.set_self]
      cases ho : st.owner with
      | none => simp
      | some owner =>
        have hout : st.id ∉ i.roots := by
          intro hroot
          obtain ⟨c, hc, hnone⟩ := (h.roots _).1 hroot
          cases hx.symm.trans hc
          cases ho.symm.trans hnone
        simpa using hout
    · rw [Graph.set_ne hy, ← h.roots y]
      cases ho : st.owner with
      | none => simp [hy]
      | some owner => rfl
  names := by
    rw [remove_names, removeName]
    cases st.identifier with
    | none => exact h.names
    | some name => exact h.names.sublist (List.filter_sublist.map Prod.fst)

end Index

namespace Store

variable {s s' : Store} {x y : StatementId} {st : Statement}

/-- Each record stands under its own id, and every index holds what the records say. -/
structure Filed (s : Store) : Prop where
  indexed : s.Indexed
  files : s.index.Files s.graph

theorem filed_empty : ({} : Store).Filed where
  indexed := indexed_empty
  files := by
    refine ⟨fun k x => ?_, fun x => ?_, List.nodup_nil⟩
    · exact ⟨fun h => (by cases h), fun ⟨_, h, _⟩ => by cases h⟩
    · exact ⟨fun h => absurd h IdSet.notMem_empty, fun ⟨_, h, _⟩ => by cases h⟩

theorem Filed.write (h : s.Filed) : (s.write st).Filed where
  indexed := h.indexed.write
  files := by
    rw [graph_write]
    change (Index.insert _ st).Files _
    cases hold : s.get? st.id with
    | none => exact h.files.insert (by rw [graph, hold]; rfl)
    | some old =>
      have hid := h.indexed.keyed _ _ hold
      have hgone : (s.index.remove old).Files (s.graph.set st.id none) := by
        rw [← hid]
        exact h.files.remove (by rw [hid]; exact graph_of_get? hold)
      have hnew : ((s.index.remove old).insert st).Files _ := hgone.insert Graph.set_self
      rw [Graph.set_set] at hnew
      exact hnew

theorem Filed.erase (h : s.Filed) : (s.erase x).Filed where
  indexed := h.indexed.erase
  files := by
    rw [graph_erase, Store.erase]
    cases hold : s.get? x with
    | none =>
      rw [Graph.set_of_none (by rw [graph, hold]; rfl)]
      exact h.files
    | some old =>
      have hid := h.indexed.keyed _ _ hold
      rw [← hid]
      exact h.files.remove (by rw [hid]; exact graph_of_get? hold)

theorem Filed.setProved {flag : Bool} (h : s.Filed) : (s.setProved x flag).Filed where
  indexed := h.indexed.setProved
  files := by
    rw [graph_setProved, Store.setProved]
    split <;> exact h.files

theorem Filed.of_eq (h : s.Filed) (hs : s'.statements = s.statements) (hi : s'.index = s.index) :
    s'.Filed := by
  have hgraph : s'.graph = s.graph := funext fun x => by rw [graph, get?, hs, graph, get?]
  refine ⟨h.indexed.of_eq hs hi, ?_⟩
  rw [hi, hgraph]
  exact h.files

structure SameAnswers (s s' : Store) : Prop where
  localsOf : s'.localsOf = s.localsOf
  dependentsOf : s'.dependentsOf = s.dependentsOf
  localsByTerm : s'.localsByTerm = s.localsByTerm
  contextsByConsequent : s'.contextsByConsequent = s.contextsByConsequent
  specializationsOf : s'.specializationsOf = s.specializationsOf
  lookupName : s'.lookupName = s.lookupName
  namesIn : s'.namesIn = s.namesIn
  roots : s'.roots = s.roots

theorem Filed.mem_specializationsOf (h : s.Filed) : y ∈ s.specializationsOf x ↔
    ∃ c argument, s.graph y = some c ∧ c.kind = .specialization x argument := by
  rw [specializationsOf, Postings.mem_ids]
  constructor
  · rintro ⟨k, hk, he⟩
    rw [beq_iff_eq] at he
    rw [he] at hk
    obtain ⟨c, hc, argument, hkind⟩ := (h.files.byGeneral x y).1 hk
    exact ⟨c, argument, hc, hkind⟩
  · rintro ⟨c, argument, hc, hkind⟩
    exact ⟨x, (h.files.byGeneral x y).2 ⟨c, hc, argument, hkind⟩, beq_iff_eq.2 rfl⟩

/-- The names of a scope are listed in ascending order, each once. -/
theorem Filed.ascending_namesIn (h : s.Filed) (scope : NameScope) :
    (s.namesIn scope).Pairwise fun a b => a.1.text < b.1.text := by
  have hnodup : (s.namesIn scope).Pairwise fun a b => a.1 ≠ b.1 := by
    rw [← List.pairwise_map (R := (· ≠ ·)), ← List.nodup_iff_pairwise_ne, namesIn, Index.namesIn]
    refine ((List.mergeSort_perm _ _).map Prod.fst).nodup_iff.2 ?_
    rw [List.map_map, List.nodup_iff_pairwise_ne, List.pairwise_map]
    have hkeys : (s.index.names.filter fun entry => entry.1.1 = scope).Pairwise
        fun a b => a.1 ≠ b.1 := (List.pairwise_map.1 h.files.names).filter _
    refine hkeys.imp_of_mem fun {a b} ha hb hne heq => hne ?_
    have hascope := (List.mem_filter.1 ha).2
    have hbscope := (List.mem_filter.1 hb).2
    simp only [decide_eq_true_eq] at hascope hbscope
    exact Prod.ext (hascope.trans hbscope.symm) heq
  have hsorted : (s.namesIn scope).Pairwise fun a b => a.1.le b.1 = true := by
    apply List.pairwise_mergeSort
    · intro a b c hab hbc
      simp only [Identifier.le, decide_eq_true_eq] at hab hbc ⊢
      exact String.le_trans hab hbc
    · intro a b
      simp only [Identifier.le, Bool.or_eq_true, decide_eq_true_eq]
      exact String.le_total a.1.text b.1.text
  refine (hnodup.and hsorted).imp fun {a b} hab => ?_
  obtain ⟨hne, hle⟩ := hab
  simp only [Identifier.le, decide_eq_true_eq] at hle
  refine String.not_le.1 fun hge => hne ?_
  have htext := String.le_antisymm hle hge
  obtain ⟨⟨text, hvalid⟩, x⟩ := a
  obtain ⟨⟨text', hvalid'⟩, y⟩ := b
  cases htext
  rfl

/-- The names of a scope are listed by the order of names, so the order of filing does not show. -/
theorem Filed.namesIn_eq (h : s.Filed) (h' : s'.Filed) (hn : s.Named) (hn' : s'.Named)
    (hget : ∀ x, s'.get? x = s.get? x) (scope : NameScope) :
    s'.namesIn scope = s.namesIn scope := by
  have hmem (entry : (NameScope × Identifier) × StatementId) :
      entry ∈ s'.index.names ↔ entry ∈ s.index.names := by
    have hfound {s : Store} (hn : s.Named) :
        entry ∈ s.index.names ↔ s.scopedName entry.2 = some entry.1 :=
      ⟨hn.on.filed entry.1 entry.2, hn.on.found entry.1 entry.2 trivial⟩
    rw [hfound hn', hfound hn, scopedName, hget, scopedName]
  have hperm : s'.index.names.Perm s.index.names :=
    (List.perm_ext_iff_of_nodup h'.files.names.of_map h.files.names.of_map).2 hmem
  have hanswers : (s'.namesIn scope).Perm (s.namesIn scope) := by
    refine (List.mergeSort_perm _ _).trans (List.Perm.trans ?_ (List.mergeSort_perm _ _).symm)
    exact (hperm.filter _).map _
  -- names of one scope differ, so there is only one way to sort them
  refine List.Perm.eq_of_pairwise (fun a b _ _ hab hba => ?_) (h'.ascending_namesIn scope)
    (h.ascending_namesIn scope) hanswers
  exact absurd hba (String.lt_asymm hab)

theorem Filed.sameAnswers (h : s.Filed) (h' : s'.Filed) (hn : s.Named) (hn' : s'.Named)
    (hget : ∀ x, s'.get? x = s.get? x) : s.SameAnswers s' := by
  have hgraph : s'.graph = s.graph := funext fun x => by rw [graph, hget, graph]
  have hname (x : StatementId) : s'.scopedName x = s.scopedName x := by
    rw [scopedName, hget, scopedName]
  refine ⟨funext fun x => ?_, funext fun x => ?_, funext fun x => funext fun term => ?_,
    funext fun term => ?_, funext fun x => ?_, funext fun scope => funext fun name => ?_,
    funext fun scope => ?_, ?_⟩
  · exact h'.indexed.localsOf_eq h.indexed fun y => by rw [hgraph]
  · refine IdSet.toList_eq fun y => ?_
    exact h'.indexed.mem_dependentsOf.trans (hgraph ▸ h.indexed.mem_dependentsOf.symm)
  · refine IdSet.toList_eq fun y => ?_
    exact h'.indexed.mem_localsByTerm.trans (hgraph ▸ h.indexed.mem_localsByTerm.symm)
  · refine IdSet.toList_eq fun y => ?_
    exact h'.indexed.mem_contextsByConsequent.trans
      (hgraph ▸ h.indexed.mem_contextsByConsequent.symm)
  · refine IdSet.toList_eq fun y => ?_
    exact h'.mem_specializationsOf.trans (hgraph ▸ h.mem_specializationsOf.symm)
  · refine Option.ext fun x => ?_
    rw [hn'.lookupName, hn.lookupName, hname]
  · exact h.namesIn_eq h' hn hn' hget scope
  · refine IdSet.toList_eq fun y => ?_
    rw [h'.files.roots, h.files.roots, hgraph]

end Store

end StatementGraph
