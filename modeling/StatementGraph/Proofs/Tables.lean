import StatementGraph.Table

namespace StatementGraph

namespace Table

variable {κ α : Type} [Ranked κ] {t : Table κ α} {k k' : κ} {v : α}

theorem mem_of_lookup {l : List (κ × α)} (h : lookup k l = some v) : (k, v) ∈ l := by
  induction l with
  | nil => cases h
  | cons head tail ih =>
    obtain ⟨key, value⟩ := head
    rw [lookup] at h
    split at h
    · rename_i he
      cases Ranked.eq_of_rank he
      cases h
      exact List.mem_cons_self
    · exact List.mem_cons_of_mem _ (ih h)

theorem lookup_of_mem {l : List (κ × α)}
    (hl : l.Pairwise fun a b => Ranked.rank a.1 < Ranked.rank b.1) (h : (k, v) ∈ l) :
    lookup k l = some v := by
  induction l with
  | nil => cases h
  | cons head tail ih =>
    obtain ⟨key, value⟩ := head
    obtain ⟨habove, htail⟩ := List.pairwise_cons.1 hl
    rw [lookup]
    rcases List.mem_cons.1 h with he | he
    · cases he
      rw [if_pos rfl]
    · rw [if_neg (Nat.ne_of_lt (habove _ he)), ih htail he]

theorem mem_entries : (k, v) ∈ t.entries ↔ t.get? k = some v :=
  ⟨lookup_of_mem t.ascending, mem_of_lookup⟩

theorem mem_keys : k ∈ t.keys ↔ ∃ v, t.get? k = some v := by
  constructor
  · intro h
    obtain ⟨⟨key, v⟩, he, rfl⟩ := List.mem_map.1 h
    exact ⟨v, mem_entries.1 he⟩
  · rintro ⟨v, h⟩
    exact List.mem_map.2 ⟨(k, v), mem_entries.2 h, rfl⟩

theorem mem_values : v ∈ t.values ↔ ∃ k, t.get? k = some v := by
  constructor
  · intro h
    obtain ⟨⟨k, value⟩, he, rfl⟩ := List.mem_map.1 h
    exact ⟨k, mem_entries.1 he⟩
  · rintro ⟨k, h⟩
    exact List.mem_map.2 ⟨(k, v), mem_entries.2 h, rfl⟩

theorem contains_iff : t.contains k = true ↔ ∃ v, t.get? k = some v := by
  rw [contains, Option.isSome_iff_exists]

theorem keys_nodup : t.keys.Nodup := by
  rw [keys, List.nodup_iff_pairwise_ne, List.pairwise_map]
  refine t.ascending.imp fun hlt he => ?_
  rw [he] at hlt
  exact Nat.lt_irrefl _ hlt

@[simp] theorem length_keys : t.keys.length = t.size := List.length_map _

theorem get?_insert [DecidableEq κ] :
    (t.insert k v).get? k' = if k' = k then some v else t.get? k' := by
  split
  · rename_i he
    subst he
    exact get?_insert_self t _ v
  · rename_i hne
    exact get?_insert_ne t hne v

theorem insert_of_get? (h : t.get? k = some v) : t.insert k v = t := by
  have hentries {l : List (κ × α)} (hl : l.Pairwise fun a b => Ranked.rank a.1 < Ranked.rank b.1)
      (hmem : (k, v) ∈ l) : insertEntry k v l = l := by
    induction l with
    | nil => cases hmem
    | cons head tail ih =>
      obtain ⟨key, value⟩ := head
      obtain ⟨habove, htail⟩ := List.pairwise_cons.1 hl
      rcases List.mem_cons.1 hmem with he | he
      · cases he
        rw [insertEntry, if_neg (Nat.lt_irrefl _), if_pos rfl]
      · have hlt := habove _ he
        rw [insertEntry, if_neg (Nat.lt_asymm hlt), if_neg (Nat.ne_of_lt hlt), ih htail he]
  rw [insert]
  congr
  exact hentries t.ascending (mem_entries.2 h)

theorem get?_erase [DecidableEq κ] :
    (t.erase k).get? k' = if k' = k then none else t.get? k' := by
  split
  · rename_i he
    subst he
    exact get?_erase_self t _
  · rename_i hne
    exact get?_erase_ne t hne

theorem get?_set [DecidableEq κ] {o : Option α} :
    (t.set k o).get? k' = if k' = k then o else t.get? k' := by
  cases o with
  | none => exact get?_erase
  | some v => exact get?_insert

end Table

namespace IdSet

variable {x y : StatementId} {s s' : IdSet} {l : List StatementId}

@[simp] theorem notMem_empty : x ∉ (IdSet.empty : IdSet) := List.not_mem_nil

@[simp] theorem mem_ofList : x ∈ ofList l ↔ x ∈ l := by
  rw [ofList, mem_insertAll]
  simp

@[simp] theorem mem_singleton : x ∈ singleton y ↔ x = y := by
  rw [singleton, mem_insert]
  simp

@[simp] theorem mem_union : x ∈ s.union s' ↔ x ∈ s ∨ x ∈ s' := by
  rw [union, mem_insertAll, mem_toList, or_comm]

@[simp] theorem mem_filter {p : StatementId → Bool} : x ∈ s.filter p ↔ x ∈ s ∧ p x = true :=
  List.mem_filter

theorem nodup_toList : s.toList.Nodup :=
  s.ascending.imp fun {a b} (hlt : a.raw < b.raw) (he : a = b) => Nat.lt_irrefl _ (he ▸ hlt)

theorem toList_eq (h : ∀ x, x ∈ s ↔ x ∈ s') : s.toList = s'.toList := by
  refine List.Perm.eq_of_pairwise (fun a b _ _ hab hba => ?_) s.ascending s'.ascending
    ((List.perm_ext_iff_of_nodup nodup_toList nodup_toList).2 h)
  exact absurd hba (Nat.lt_asymm hab)

theorem eq_of_mem (h : ∀ x, x ∈ s ↔ x ∈ s') : s = s' := by
  have hlist := toList_eq h
  cases s
  cases s'
  cases hlist
  rfl

theorem isEmpty_iff : s.isEmpty = true ↔ ∀ x, x ∉ s := by
  rw [isEmpty, List.isEmpty_iff, List.eq_nil_iff_forall_not_mem]
  rfl

end IdSet

end StatementGraph
