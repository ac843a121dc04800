import StatementGraph.Proofs.IndexMirror

namespace StatementGraph

def Statement.scopedName (st : Statement) : Option (NameScope × Identifier) :=
  st.identifier.map fun name => (st.owner, name)

namespace Index

variable {i : Index} {st : Statement} {entry : (NameScope × Identifier) × StatementId}

theorem insert_names : (i.insert st).names = (i.insertName st).names := by
  obtain ⟨_, owner, _, _, _, name, kind⟩ := st
  cases owner <;> cases kind <;> cases name <;> rfl

theorem remove_names : (i.remove st).names = (i.removeName st).names := by
  obtain ⟨_, owner, _, _, _, name, kind⟩ := st
  cases owner <;> cases kind <;> cases name <;> rfl

theorem mem_insert_names : entry ∈ (i.insert st).names ↔
    (st.scopedName = some entry.1 ∧ entry.2 = st.id) ∨
      (st.scopedName ≠ some entry.1 ∧ entry ∈ i.names) := by
  obtain ⟨key, x⟩ := entry
  rw [insert_names, insertName, Statement.scopedName]
  cases st.identifier with
  | none => simp
  | some name =>
    simp only [Option.map_some, List.mem_cons, List.mem_filter, Prod.mk.injEq, ne_eq,
      decide_not, Bool.not_eq_true', decide_eq_false_iff_not, Option.some.injEq]
    grind

theorem mem_remove_names : entry ∈ (i.remove st).names ↔
    entry ∈ i.names ∧ ¬(st.scopedName = some entry.1 ∧ entry.2 = st.id) := by
  obtain ⟨key, x⟩ := entry
  rw [remove_names, removeName, Statement.scopedName]
  cases st.identifier with
  | none => simp
  | some name =>
    simp only [Option.map_some, List.mem_filter, Prod.mk.injEq, ne_eq, decide_not,
      Bool.not_eq_true', decide_eq_false_iff_not, Option.some.injEq]
    grind

end Index

namespace Store

variable {s s' : Store} {x y : StatementId} {st : Statement} {P : StatementId → Prop}
  {key : NameScope × Identifier}

def scopedName (s : Store) (x : StatementId) : Option (NameScope × Identifier) :=
  (s.get? x).bind Statement.scopedName

def nameOf (s : Store) (x : StatementId) : Option Identifier :=
  (s.get? x).bind Statement.identifier

theorem nameOf_write :
    (s.write st).nameOf y = if y = st.id then st.identifier else s.nameOf y := by
  rw [nameOf, get?_write]
  split
  · rfl
  · rfl

theorem nameOf_of_dead (h : s.graph x = none) : s.nameOf x = none := by
  rw [nameOf, Option.map_eq_none_iff.1 h]
  rfl

theorem nameOf_setProved {flag : Bool} : (s.setProved x flag).nameOf y = s.nameOf y := by
  rw [nameOf, get?_setProved, nameOf]
  split
  · rename_i he
    rw [he, Option.bind_map]
    rfl
  · rfl

/-- What the index of names holds is right, and it holds the names of some of the statements. -/
structure NamedOn (s : Store) (P : StatementId → Prop) : Prop where
  keyed : ∀ x st, s.get? x = some st → st.id = x
  filed : ∀ key x, (key, x) ∈ s.index.names → s.scopedName x = some key
  found : ∀ key x, P x → s.scopedName x = some key → (key, x) ∈ s.index.names

/-- The index holds exactly the named statements, and names are not shared. -/
structure Named (s : Store) : Prop where
  on : s.NamedOn fun _ => True
  unique : ∀ x y key, s.scopedName x = some key → s.scopedName y = some key → x = y

theorem NamedOn.imp {Q : StatementId → Prop} (h : s.NamedOn P) (hq : ∀ x, Q x → P x) :
    s.NamedOn Q :=
  { h with found := fun key x hx => h.found key x (hq x hx) }

theorem scopedName_write :
    (s.write st).scopedName y = if y = st.id then st.scopedName else s.scopedName y := by
  rw [scopedName, get?_write]
  split
  · rfl
  · rfl

theorem scopedName_erase :
    (s.erase x).scopedName y = if y = x then none else s.scopedName y := by
  rw [scopedName, get?_erase]
  split
  · rfl
  · rfl

theorem NamedOn.mem_write (h : s.NamedOn P) : (key, y) ∈ (s.write st).index.names ↔
    (st.scopedName = some key ∧ y = st.id) ∨
      (st.scopedName ≠ some key ∧ y ≠ st.id ∧ (key, y) ∈ s.index.names) := by
  change (key, y) ∈ (Index.insert _ st).names ↔ _
  rw [Index.mem_insert_names]
  apply or_congr_right
  apply and_congr_right
  intro _
  cases hold : s.get? st.id with
  | none =>
    constructor
    · intro hmem
      refine ⟨?_, hmem⟩
      rintro rfl
      have hname := h.filed key st.id hmem
      rw [scopedName, hold] at hname
      cases hname
    · exact And.right
  | some old =>
    have hid := h.keyed st.id old hold
    dsimp only
    rw [Index.mem_remove_names, hid]
    constructor
    · rintro ⟨hmem, hne⟩
      refine ⟨?_, hmem⟩
      rintro rfl
      have hname := h.filed key st.id hmem
      rw [scopedName, hold] at hname
      exact hne ⟨hname, rfl⟩
    · rintro ⟨hne, hmem⟩
      exact ⟨hmem, fun hold => hne hold.2⟩

/-- A record may take a name from statements of which nothing is said. -/
theorem NamedOn.write (h : s.NamedOn P)
    (hfree : ∀ key y, P y → y ≠ st.id → s.scopedName y = some key → st.scopedName ≠ some key) :
    (s.write st).NamedOn fun y => y = st.id ∨ P y where
  keyed y st' hy := by
    rw [get?_write] at hy
    split at hy
    · rename_i he
      cases hy
      exact he.symm
    · exact h.keyed y st' hy
  filed key y hmem := by
    rw [scopedName_write]
    rcases h.mem_write.1 hmem with ⟨hname, rfl⟩ | ⟨-, hne, hmem⟩
    · rw [if_pos rfl]
      exact hname
    · rw [if_neg hne]
      exact h.filed key y hmem
  found key y hy hname := by
    rw [scopedName_write] at hname
    rw [h.mem_write]
    by_cases hid : y = st.id
    · rw [if_pos hid] at hname
      exact Or.inl ⟨hname, hid⟩
    · rw [if_neg hid] at hname
      have hP := hy.resolve_left hid
      exact Or.inr ⟨hfree key y hP hid hname, hid, h.found key y hP hname⟩

theorem NamedOn.erase (h : s.NamedOn P) : (s.erase x).NamedOn fun y => y = x ∨ P y where
  keyed y st hy := by
    rw [get?_erase] at hy
    split at hy
    · cases hy
    · exact h.keyed y st hy
  filed key y hmem := by
    rw [scopedName_erase]
    rw [Store.erase] at hmem
    cases hold : s.get? x with
    | none =>
      rw [hold] at hmem
      have hname := h.filed key y hmem
      rw [if_neg]
      · exact hname
      · rintro rfl
        rw [scopedName, hold] at hname
        cases hname
    | some old =>
      rw [hold] at hmem
      obtain ⟨hmem, hne⟩ := Index.mem_remove_names.1 hmem
      have hname := h.filed key y hmem
      rw [if_neg]
      · exact hname
      · rintro rfl
        rw [scopedName, hold] at hname
        exact hne ⟨hname, (h.keyed y old hold).symm⟩
  found key y hy hname := by
    rw [scopedName_erase] at hname
    split at hname
    · cases hname
    · rename_i hne
      have hmem := h.found key y (hy.resolve_left hne) hname
      rw [Store.erase]
      cases hold : s.get? x with
      | none => exact hmem
      | some old =>
        rw [Index.mem_remove_names]
        refine ⟨hmem, fun hsame => hne ?_⟩
        exact hsame.2.trans (h.keyed x old hold)

theorem Named.lookupName {scope : NameScope} {name : Identifier} (h : s.Named) :
    s.lookupName scope name = some x ↔ s.scopedName x = some (scope, name) := by
  rw [Store.lookupName, Index.lookupName, Option.map_eq_some_iff]
  constructor
  · rintro ⟨⟨key, y⟩, hfind, rfl⟩
    have hkey : key = (scope, name) := by simpa using List.find?_some hfind
    exact hkey ▸ h.on.filed key y (List.mem_of_find?_eq_some hfind)
  · intro hname
    have hmem := h.on.found _ x trivial hname
    cases hfind : s.index.names.find? fun e => e.1 = (scope, name) with
    | none =>
      have hnone := List.find?_eq_none.1 hfind _ hmem
      simp at hnone
    | some entry =>
      refine ⟨entry, rfl, ?_⟩
      have hkey : entry.1 = (scope, name) := by simpa using List.find?_some hfind
      have hother := h.on.filed entry.1 entry.2 (List.mem_of_find?_eq_some hfind)
      exact h.unique entry.2 x (scope, name) (hkey ▸ hother) hname

/-- A record may be written without a name, or with one that no other statement has. -/
theorem Named.write (h : s.Named)
    (hfree : ∀ key y, st.scopedName = some key → s.scopedName y = some key → y = st.id) :
    (s.write st).Named where
  on := by
    refine (h.on.write fun key y _ hne hy hname => hne (hfree key y hname hy)).imp ?_
    exact fun _ _ => Or.inr trivial
  unique := by
    intro x y key hx hy
    rw [scopedName_write] at hx hy
    split at hx
    · rename_i hxid
      split at hy
      · rename_i hyid
        rw [hxid, hyid]
      · rw [hxid]
        exact (hfree key y hx hy).symm
    · split at hy
      · rename_i hyid
        rw [hyid]
        exact hfree key x hy hx
      · exact h.unique x y key hx hy

theorem Named.write_unnamed (h : s.Named) (hst : st.identifier = none) : (s.write st).Named := by
  refine h.write fun key y hname _ => ?_
  rw [Statement.scopedName, hst] at hname
  cases hname

theorem Named.write_named {name : Identifier} (h : s.Named) (hst : st.identifier = some name)
    (hfree : ∀ y, s.lookupName st.owner name = some y → y = st.id) : (s.write st).Named := by
  refine h.write fun key y hname hy => hfree y ?_
  rw [Statement.scopedName, hst] at hname
  cases hname
  exact h.lookupName.2 hy

theorem Named.erase (h : s.Named) : (s.erase x).Named where
  on := h.on.erase.imp fun _ _ => Or.inr trivial
  unique := by
    intro y z key hy hz
    rw [scopedName_erase] at hy hz
    split at hy
    · cases hy
    · split at hz
      · cases hz
      · exact h.unique y z key hy hz

theorem Named.of_eq (h : s.Named) (hindex : s'.index.names = s.index.names)
    (hget : ∀ x, (s'.get? x).map (fun st => (st.id, st.scopedName)) =
      (s.get? x).map fun st => (st.id, st.scopedName)) : s'.Named := by
  have hname (x : StatementId) : s'.scopedName x = s.scopedName x := by
    have hx := congrArg (fun o => o.bind Prod.snd) (hget x)
    simpa only [scopedName, Option.bind_map, Function.comp_def] using hx
  refine ⟨⟨fun x st hx => ?_, fun key x hmem => ?_, fun key x _ hx => ?_⟩, fun x y key hx hy => ?_⟩
  · have hx' := hget x
    rw [hx, Option.map_some] at hx'
    obtain ⟨st', hst', he⟩ := Option.map_eq_some_iff.1 hx'.symm
    rw [← (Prod.mk.inj he).1]
    exact h.on.keyed x st' hst'
  · rw [hname]
    exact h.on.filed key x (hindex ▸ hmem)
  · rw [hindex]
    exact h.on.found key x trivial (hname x ▸ hx)
  · exact h.unique x y key (hname x ▸ hx) (hname y ▸ hy)

theorem Named.setProved {flag : Bool} (h : s.Named) : (s.setProved x flag).Named := by
  refine h.of_eq ?_ fun y => ?_
  · rw [Store.setProved]
    split <;> rfl
  · rw [get?_setProved]
    split
    · rename_i he
      rw [he, Option.map_map]
      rfl
    · rfl

theorem named_empty : ({} : Store).Named where
  on := ⟨fun _ _ h => (by cases h), fun _ _ h => (by cases h), fun _ _ _ h => by cases h⟩
  unique _ _ _ h := by cases h

end Store

end StatementGraph
