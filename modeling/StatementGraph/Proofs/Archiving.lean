import StatementGraph.Engine.Session
import StatementGraph.Proofs.Changes

namespace StatementGraph

namespace Archive

variable {α : Type} {t : Table Nat (Cell α)} {f g : StatementId → Option α}

/-- A table has an intact row for each record, under the number of its id, and no other rows. -/
def Rows (t : Table Nat (Cell α)) (f : StatementId → Option α) : Prop :=
  ∀ n, t.get? n = (StatementId.ofNat? n).bind fun x => (f x).map .intact

theorem rows_empty : Rows ({} : Table Nat (Cell α)) fun _ => none := by
  intro n
  cases StatementId.ofNat? n <;> rfl

theorem Rows.set (h : Rows t f) (x : StatementId) (a : Option α) :
    Rows (t.set x.raw (a.map .intact)) fun y => if y = x then a else f y := by
  intro n
  rw [Table.get?_set, h n]
  cases hn : StatementId.ofNat? n with
  | none =>
    rw [if_neg]
    · rfl
    · rintro rfl
      cases hn.symm.trans (StatementId.ofNat?_eq_some.2 rfl)
  | some y =>
    rw [StatementId.ofNat?_eq_some] at hn
    subst hn
    by_cases hy : y = x
    · subst hy
      simp
    · rw [if_neg fun hraw => hy (StatementId.eq_of_raw hraw)]
      simp [hy]

theorem Rows.writeRows (l : List StatementId) (h : Rows t f) (hsame : ∀ x, x ∉ l → g x = f x) :
    Rows (writeRows t (l.map fun x => (x.raw, (g x).map .intact))) g := by
  induction l generalizing t f with
  | nil =>
    have hfun : g = f := funext fun x => hsame x List.not_mem_nil
    rw [hfun]
    exact h
  | cons x rest ih =>
    refine ih (h.set x (g x)) fun y hy => ?_
    split
    case isTrue heq => rw [heq]
    case isFalse hne => exact hsame y (List.not_mem_cons_of_ne_of_not_mem hne hy)

theorem Rows.writeJournal {journal : Table StatementId (Option α)} {now : StatementId → Option α}
    (h : Rows t f) (hkept : ∀ x prior, journal.get? x = some prior → g x = now x)
    (hout : ∀ x, journal.get? x = none → g x = f x) :
    Rows (Archive.writeRows t (journal.keys.map fun x => (x.raw, (now x).map .intact))) g := by
  have hwritten : (journal.keys.map fun x => (x.raw, (now x).map Cell.intact)) =
      journal.keys.map fun x => (x.raw, (g x).map Cell.intact) := by
    refine List.map_congr_left fun x hx => ?_
    obtain ⟨prior, hprior⟩ := Table.mem_keys.1 hx
    rw [hkept x prior hprior]
  rw [hwritten]
  refine h.writeRows journal.keys fun x hx => hout x ?_
  cases hprior : journal.get? x with
  | none => rfl
  | some prior => exact absurd (Table.mem_keys.2 ⟨prior, hprior⟩) hx

/-- Rows of records are intact, and there is one for each record. -/
theorem Rows.values (h : Rows t f) :
    ∃ l : List α, t.values = l.map Cell.intact ∧ ∀ a, a ∈ l ↔ ∃ x, f x = some a := by
  have hvalue (c : Cell α) : c ∈ t.values ↔ ∃ x a, f x = some a ∧ c = .intact a := by
    rw [Table.mem_values]
    constructor
    · rintro ⟨n, hn⟩
      rw [h n] at hn
      obtain ⟨x, -, hx⟩ := Option.bind_eq_some_iff.1 hn
      obtain ⟨a, ha, rfl⟩ := Option.map_eq_some_iff.1 hx
      exact ⟨x, a, ha, rfl⟩
    · rintro ⟨x, a, ha, rfl⟩
      refine ⟨x.raw, ?_⟩
      rw [h, StatementId.ofNat?_eq_some.2 rfl, Option.bind_some, ha]
      rfl
  have hintact (l : List (Cell α)) (hl : ∀ c ∈ l, ∃ a, c = .intact a) :
      ∃ l' : List α, l = l'.map Cell.intact := by
    induction l with
    | nil => exact ⟨[], rfl⟩
    | cons c rest ih =>
      obtain ⟨⟨a, rfl⟩, hrest⟩ := List.forall_mem_cons.1 hl
      obtain ⟨l', rfl⟩ := ih hrest
      exact ⟨a :: l', rfl⟩
  obtain ⟨l, hl⟩ := hintact t.values fun c hc => by
    obtain ⟨x, a, -, rfl⟩ := (hvalue c).1 hc
    exact ⟨a, rfl⟩
  refine ⟨l, hl, fun a => ?_⟩
  have hmem : a ∈ l ↔ Cell.intact a ∈ t.values := by
    rw [hl, List.mem_map]
    refine ⟨fun ha => ⟨a, ha, rfl⟩, ?_⟩
    rintro ⟨b, hb, heq⟩
    cases heq
    exact hb
  rw [hmem, hvalue]
  constructor
  · rintro ⟨x, b, hb, heq⟩
    cases heq
    exact ⟨x, hb⟩
  · rintro ⟨x, hx⟩
    exact ⟨x, a, hx, rfl⟩

theorem mapM_read_intact (l : List α) : (l.map Cell.intact).mapM Cell.read = .ok l := by
  induction l with
  | nil => rfl
  | cons a rest ih =>
    rw [List.map_cons, List.mapM_cons, ih]
    rfl

end Archive

/-- An archive has the records and nothing else. -/
structure Archive.Mirrors (a : RecordArchive) (r : Records) : Prop where
  statements : Rows a.statements r.statements
  authorities : Rows a.authorities r.authorities

/-- Records that a store can hold. -/
structure Records.Orderly (r : Records) : Prop where
  keyed : ∀ x st, r.statements x = some st → st.id = x
  apart : ∀ x st, r.statements x = some st → st.Apart
  names : r.DistinctNames
  authority : ∀ x a, r.authorities x = some a → a.statement = x

/-- A record can be taken in again: its id and its parameters have numbers after them. -/
def Statement.Loads (st : Statement) : Prop := st.id ≠ .last ∧ .last ∉ st.params

instance Statement.decidableLoads (st : Statement) : Decidable st.Loads :=
  inferInstanceAs (Decidable (st.id ≠ .last ∧ .last ∉ st.params))

def Records.Loads (r : Records) : Prop := ∀ x st, r.statements x = some st → st.Loads

theorem Store.loads_records {s : Store} :
    s.records.Loads ↔ ∀ st ∈ s.statements.values, st.Loads := by
  refine ⟨fun h st hst => ?_, fun h x st hx => h st (Table.mem_values.2 ⟨x, hx⟩)⟩
  obtain ⟨x, hx⟩ := Table.mem_values.1 hst
  exact h x st hx

/-! ### Reading a store -/

namespace Store

variable {s : Store} {x : StatementId} {l : List Statement} {r : Records}

/-- Take records in, one after the other, and never hand out their ids again. -/
def load (s : Store) (l : List Statement) : Store :=
  l.foldl (fun (s : Store) st =>
    { s with allocator := (s.allocator.reserve st.id).getD s.allocator }.write st) s

theorem takeIn_of_loads {st : Statement} (h : st.Loads) : s.takeIn st =
    .ok ({ s with allocator := (s.allocator.reserve st.id).getD s.allocator }.write st) := by
  obtain ⟨a, ha⟩ := Option.ne_none_iff_exists'.1 (mt Allocator.reserve_eq_none.1 h.1)
  rw [takeIn, Store.reserve, ha, Option.map_some, Option.getD_some]
  exact if_neg h.2

theorem takeIn_of_not_loads {st : Statement} (h : ¬st.Loads) :
    s.takeIn st = .error (.breakdown .overflow) := by
  rw [takeIn]
  split
  case h_2 => rfl
  case h_1 s' hs' =>
    refine if_pos (Decidable.byContradiction fun hparams => h ⟨?_, hparams⟩)
    intro hlast
    rw [Store.reserve, Allocator.reserve_eq_none.2 hlast] at hs'
    cases hs'

theorem takeIn_all (hl : ∀ st ∈ l, st.Loads) : l.foldlM takeIn s = .ok (s.load l) := by
  induction l generalizing s with
  | nil => rfl
  | cons st rest ih =>
    obtain ⟨hst, hrest⟩ := List.forall_mem_cons.1 hl
    rw [List.foldlM_cons, takeIn_of_loads hst]
    exact ih hrest

theorem takeIn_all_breaks (hl : ∃ st ∈ l, ¬st.Loads) :
    l.foldlM takeIn s = .error (.breakdown .overflow) := by
  induction l generalizing s with
  | nil =>
    obtain ⟨st, hst, -⟩ := hl
    cases hst
  | cons st rest ih =>
    rw [List.foldlM_cons]
    by_cases hst : st.Loads
    · rw [takeIn_of_loads hst]
      obtain ⟨st', hst', hbad⟩ := hl
      rcases List.mem_cons.1 hst' with rfl | hst'
      · exact absurd hst hbad
      · exact ih ⟨st', hst', hbad⟩
    · rw [takeIn_of_not_loads hst]
      rfl

theorem get?_load (hl : ∀ st ∈ l, r.statements st.id = some st) :
    (s.load l).get? x = if x ∈ l.map Statement.id then r.statements x else s.get? x := by
  induction l generalizing s with
  | nil => rfl
  | cons st rest ih =>
    have hst := hl st List.mem_cons_self
    refine (ih fun st' hst' => hl st' (List.mem_cons_of_mem _ hst')).trans ?_
    rw [get?_write]
    simp only [List.map_cons, List.mem_cons]
    by_cases hx : x = st.id
    · subst hx
      simp [hst]
    · simp only [hx, false_or, if_false]
      rfl

theorem authorities_load : (s.load l).authorities = s.authorities := by
  induction l generalizing s with
  | nil => rfl
  | cons st rest ih => exact ih

theorem filed_load (h : s.Filed) : (s.load l).Filed := by
  induction l generalizing s with
  | nil => exact h
  | cons st rest ih =>
    exact ih (Filed.write (h.of_eq rfl rfl))

/-- Records of which no two share a name can be taken in with their names. -/
theorem named_load (hr : r.DistinctNames) (hl : ∀ st ∈ l, r.statements st.id = some st)
    (hs : ∀ y st, s.get? y = some st → r.statements y = some st) (h : s.Named) :
    (s.load l).Named := by
  induction l generalizing s with
  | nil => exact h
  | cons st rest ih =>
    have hst := hl st List.mem_cons_self
    have hreserved : ({ s with
        allocator := (s.allocator.reserve st.id).getD s.allocator } : Store).Named :=
      h.of_eq rfl fun _ => rfl
    refine ih (fun st' hst' => hl st' (List.mem_cons_of_mem _ hst')) (fun y st' hy => ?_) ?_
    · rw [get?_write] at hy
      split at hy
      case isTrue heq =>
        cases hy
        rw [heq, hst]
      case isFalse => exact hs y st' hy
    · refine hreserved.write fun key y hname hy => hr y st.id key ?_ ?_
      · obtain ⟨sy, hsy, hkey⟩ := Option.bind_eq_some_iff.1 hy
        rw [hs y sy hsy]
        exact hkey
      · rw [hst]
        exact hname

theorem counter_load (hl : ∀ st ∈ l, st.Loads) :
    s.allocator.next.toNat ≤ (s.load l).allocator.next.toNat ∧
      ∀ st ∈ l, st.id.raw < (s.load l).allocator.next.toNat := by
  induction l generalizing s with
  | nil => exact ⟨Nat.le_refl _, fun _ hst => by cases hst⟩
  | cons st rest ih =>
    obtain ⟨hst, hrest⟩ := List.forall_mem_cons.1 hl
    obtain ⟨a, ha⟩ := Option.ne_none_iff_exists'.1 (mt Allocator.reserve_eq_none.1 hst.1)
    obtain ⟨hgrow, hpast⟩ := Allocator.reserve_some ha
    have hload : s.load (st :: rest) = ({ s with allocator := a }.write st).load rest := by
      rw [load, List.foldl_cons, ha]
      rfl
    rw [hload]
    obtain ⟨hle, hrest⟩ := ih (s := { s with allocator := a }.write st) hrest
    refine ⟨Nat.le_trans hgrow hle, fun st' hst' => ?_⟩
    rcases List.mem_cons.1 hst' with rfl | hst'
    · exact Nat.lt_of_lt_of_le hpast hle
    · exact hrest st' hst'

theorem authority?_setAuthorities {l : List Authority}
    (hl : ∀ a ∈ l, r.authorities a.statement = some a) :
    (l.foldl (fun s a => s.setAuthority a.statement (some a)) s).authority? x =
      if x ∈ l.map Authority.statement then r.authorities x else s.authority? x := by
  induction l generalizing s with
  | nil => rfl
  | cons a rest ih =>
    have ha := hl a List.mem_cons_self
    refine (ih fun b hb => hl b (List.mem_cons_of_mem _ hb)).trans ?_
    have hset : (s.setAuthority a.statement (some a)).authority? x =
        if x = a.statement then some a else s.authority? x := Table.get?_set
    rw [hset]
    simp only [List.map_cons, List.mem_cons]
    by_cases hx : x = a.statement
    · subst hx
      simp [ha]
    · simp only [hx, false_or, if_false]

/-- What is read from an archive: the records that it mirrors, and a counter past their ids. -/
structure ReadFrom (s : Store) (r : Records) : Prop where
  records : s.records = r
  filed : s.Filed
  named : s.Named
  counter : s.allocator.next ≠ 0
  past : ∀ x st, s.get? x = some st → x.raw < s.allocator.next.toNat

theorem ofArchive_rows {a : RecordArchive} {la : List Authority}
    (hl : a.statements.values = l.map Cell.intact)
    (hla : a.authorities.values = la.map Cell.intact) :
    ofArchive a = (l.foldlM takeIn {}).map fun store =>
      la.foldl (fun s a => s.setAuthority a.statement (some a)) store := by
  rw [ofArchive, hl, hla, Archive.mapM_read_intact, List.foldlM_map]
  change (l.foldlM takeIn {} >>= fun store => _) = _
  cases l.foldlM takeIn {} <;> rfl

theorem ofArchive_breaks {a : RecordArchive} (h : a.Mirrors r) (hloads : ¬r.Loads) :
    ofArchive a = .error (.breakdown .overflow) := by
  obtain ⟨l, hl, hmem⟩ := h.statements.values
  obtain ⟨la, hla, -⟩ := h.authorities.values
  have hbad : ∃ st ∈ l, ¬st.Loads := by
    by_contra hall
    refine hloads fun x st hx => ?_
    by_contra hst
    exact hall ⟨st, (hmem st).2 ⟨x, hx⟩, hst⟩
  rw [ofArchive_rows hl hla, takeIn_all_breaks hbad]
  rfl

theorem ofArchive_eq {a : RecordArchive} (h : a.Mirrors r) (hr : r.Orderly) (hloads : r.Loads) :
    ∃ s, ofArchive a = .ok s ∧ s.ReadFrom r := by
  obtain ⟨l, hl, hmem⟩ := h.statements.values
  obtain ⟨la, hla, hmema⟩ := h.authorities.values
  have hall (st : Statement) (hst : st ∈ l) : st.Loads := by
    obtain ⟨x, hx⟩ := (hmem st).1 hst
    exact hloads x st hx
  have hin (st : Statement) (hst : st ∈ l) : r.statements st.id = some st := by
    obtain ⟨x, hx⟩ := (hmem st).1 hst
    rw [hr.keyed x st hx, hx]
  have hina (a : Authority) (ha : a ∈ la) : r.authorities a.statement = some a := by
    obtain ⟨x, hx⟩ := (hmema a).1 ha
    rw [hr.authority x a hx, hx]
  have hnames : (load {} l).Named :=
    named_load hr.names hin (fun _ _ hy => by cases hy) named_empty
  obtain ⟨hstatements, hindex, hallocator⟩ :=
    setAuthorities_fields (s := load {} l) (la.map fun a => (a.statement, some a))
  rw [List.foldl_map] at hstatements hindex hallocator
  obtain ⟨hstart, hpast⟩ := counter_load (s := {}) hall
  generalize hstore : la.foldl (fun s a => s.setAuthority a.statement (some a)) (load {} l) = s
    at hstatements hindex hallocator
  have hget (x : StatementId) : s.get? x = r.statements x := by
    rw [get?, hstatements]
    refine (get?_load hin).trans ?_
    split
    case isTrue => rfl
    case isFalse hout =>
      symm
      refine Option.eq_none_iff_forall_ne_some.2 fun st hst => hout ?_
      exact List.mem_map.2 ⟨st, (hmem st).2 ⟨x, hst⟩, hr.keyed x st hst⟩
  have hauthority (x : StatementId) : s.authority? x = r.authorities x := by
    rw [← hstore, authority?_setAuthorities hina]
    split
    case isTrue => rfl
    case isFalse hout =>
      rw [authority?, authorities_load]
      symm
      refine Option.eq_none_iff_forall_ne_some.2 fun a ha => hout ?_
      exact List.mem_map.2 ⟨a, (hmema a).2 ⟨x, ha⟩, hr.authority x a ha⟩
  refine ⟨s, ?_, ?_, ?_, ?_, ?_, fun x st hx => ?_⟩
  · rw [ofArchive_rows hl hla, takeIn_all hall, ← hstore]
    rfl
  · rw [Store.records, funext hget, funext hauthority]
  · exact (filed_load filed_empty).of_eq hstatements hindex
  · exact hnames.of_eq (by rw [hindex]) fun x => by rw [get?, hstatements]; rfl
  · rw [hallocator]
    intro hzero
    rw [hzero] at hstart
    exact absurd hstart (by decide)
  · rw [hallocator]
    rw [hget] at hx
    rw [← hr.keyed x st hx]
    exact hpast st ((hmem st).2 ⟨x, hx⟩)

end Store

end StatementGraph
