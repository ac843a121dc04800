import StatementGraph.Proofs.Durability

namespace StatementGraph

def Statement.specializes (st : Statement) (general : StatementId) : Bool :=
  match st.kind with
  | .specialization general' _ => general' = general
  | _ => false

theorem Statement.specializes_iff {st : Statement} {general : StatementId} :
    st.specializes general = true ↔ ∃ argument, st.kind = .specialization general argument := by
  rw [specializes]
  cases st.kind <;> simp

theorem Statement.any_consequent?_iff {st : Statement} {p : Term → Bool} :
    st.consequent?.any p = true ↔
      ∃ data, st.kind = .context data ∧ p data.consequent = true := by
  rw [consequent?, contextData?]
  cases st.kind <;> simp

namespace Store

variable {s : Store} {x : StatementId} {p : Statement → Bool} {l : List StatementId}

/-- The ids of the records that pass a test, found by looking at every record. -/
def select (s : Store) (p : Statement → Bool) : List StatementId :=
  s.ids.filter fun x => (s.get? x).any p

theorem mem_select : x ∈ s.select p ↔ ∃ st, s.get? x = some st ∧ p st = true := by
  rw [select, List.mem_filter, ids, Table.mem_keys, Option.any_eq_true]
  constructor
  · intro h
    exact h.2
  · intro h
    obtain ⟨st, hst, hp⟩ := h
    exact ⟨⟨st, hst⟩, st, hst, hp⟩

theorem ascending_select : (s.select p).Pairwise (· < ·) := by
  have hids : s.ids.Pairwise (· < ·) := List.pairwise_map.2 s.statements.ascending
  exact hids.filter _

/-- An ascending list with the right members is what is found by looking at every record. -/
theorem eq_select (hl : l.Pairwise (· < ·))
    (h : ∀ x, x ∈ l ↔ ∃ st, s.get? x = some st ∧ p st = true) : l = s.select p := by
  have hnodup {l : List StatementId} (hl : l.Pairwise (· < ·)) : l.Nodup := by
    refine hl.imp fun {a b} hlt heq => ?_
    subst heq
    exact Nat.lt_irrefl _ hlt
  have hperm : l.Perm (s.select p) := by
    rw [List.perm_ext_iff_of_nodup (hnodup hl) (hnodup ascending_select)]
    intro x
    rw [h, mem_select]
  exact hperm.eq_of_pairwise (fun a b _ _ hab hba => absurd hba (Nat.lt_asymm hab)) hl
    ascending_select

/-- Every query is answered by the records. -/
structure Answers (s : Store) : Prop where
  localsOf : ∀ context, s.localsOf context = s.select fun st => st.owner = some context
  dependentsOf : ∀ x, s.dependentsOf x = s.select fun st => x ∈ st.dependencies
  localsByTerm : ∀ context term,
    s.localsByTerm context term = s.select fun st => st.owner = some context && st.term == term
  contextsByConsequent : ∀ term,
    s.contextsByConsequent term = s.select fun st => st.consequent?.any (· == term)
  specializationsOf : ∀ general,
    s.specializationsOf general = s.select fun st => st.specializes general
  roots : s.roots = s.select fun st => st.owner = none
  ascending : ∀ p, (s.select p).Pairwise (· < ·)
  lookupName : ∀ scope name x, s.lookupName scope name = some x ↔
    ∃ st, s.get? x = some st ∧ st.owner = scope ∧ st.identifier = some name
  unique : ∀ x y st st' name, s.get? x = some st → s.get? y = some st' → st.owner = st'.owner →
    st.identifier = some name → st'.identifier = some name → x = y
  mem_namesIn : ∀ scope name x, (name, x) ∈ s.namesIn scope ↔
    ∃ st, s.get? x = some st ∧ st.owner = scope ∧ st.identifier = some name
  ascending_namesIn : ∀ scope, (s.namesIn scope).Pairwise fun a b => a.1.text < b.1.text

theorem scopedName_iff_get? {scope : NameScope} {name : Identifier} :
    s.scopedName x = some (scope, name) ↔
      ∃ st, s.get? x = some st ∧ st.owner = scope ∧ st.identifier = some name := by
  simp only [scopedName, Statement.scopedName, Option.bind_eq_some_iff, Option.map_eq_some_iff,
    Prod.mk.injEq]
  constructor
  · intro h
    obtain ⟨st, hst, name', hname, howner, rfl⟩ := h
    exact ⟨st, hst, howner, hname⟩
  · intro h
    obtain ⟨st, hst, howner, hname⟩ := h
    exact ⟨st, hst, name, hname, howner, rfl⟩

theorem Named.mem_namesIn {scope : NameScope} {name : Identifier} (h : s.Named) :
    (name, x) ∈ s.namesIn scope ↔ s.scopedName x = some (scope, name) := by
  rw [namesIn, Index.namesIn, List.mem_mergeSort, List.mem_map]
  constructor
  · intro hmem
    obtain ⟨⟨⟨scope', name'⟩, y⟩, hentry, heq⟩ := hmem
    obtain ⟨rfl, rfl⟩ := Prod.mk.inj heq
    obtain ⟨hentry, hscope⟩ := List.mem_filter.1 hentry
    have hscope : scope' = scope := by simpa using hscope
    exact hscope ▸ h.on.filed _ y hentry
  · intro hname
    refine ⟨((scope, name), x), List.mem_filter.2 ⟨h.on.found _ x trivial hname, ?_⟩, rfl⟩
    simp

/-- Filed indexes answer every query by the records, if names are not shared. -/
theorem Filed.answers_of_named (h : s.Filed) (hn : s.Named) : s.Answers where
  localsOf context := by
    refine eq_select (IdSet.ascending _) fun y => ?_
    refine h.indexed.mem_localsOf.trans ?_
    simp [Graph.ownerOf_eq, graph_eq_some, Statement.content]
  dependentsOf x := by
    refine eq_select (IdSet.ascending _) fun y => ?_
    refine h.indexed.mem_dependentsOf.trans ?_
    simp [graph_eq_some, Statement.content]
  localsByTerm context term := by
    refine eq_select (IdSet.ascending _) fun y => ?_
    refine h.indexed.mem_localsByTerm.trans ?_
    simp [graph_eq_some, Statement.content]
  contextsByConsequent term := by
    refine eq_select (IdSet.ascending _) fun y => ?_
    refine h.indexed.mem_contextsByConsequent.trans ?_
    simp [graph_eq_some, Statement.content, Statement.any_consequent?_iff]
  specializationsOf general := by
    refine eq_select (IdSet.ascending _) fun y => ?_
    refine h.mem_specializationsOf.trans ?_
    simp [graph_eq_some, Statement.content, Statement.specializes_iff]
  roots := by
    refine eq_select (IdSet.ascending _) fun y => ?_
    refine (h.files.roots y).trans ?_
    simp [graph_eq_some, Statement.content]
  ascending _ := ascending_select
  lookupName scope name x := by rw [hn.lookupName, scopedName_iff_get?]
  unique x y st st' name hx hy howner hname hname' := by
    apply hn.unique x y (st.owner, name)
    · rw [scopedName_iff_get?]
      exact ⟨st, hx, rfl, hname⟩
    · rw [scopedName_iff_get?]
      exact ⟨st', hy, howner.symm, hname'⟩
  mem_namesIn scope name x := by rw [hn.mem_namesIn, scopedName_iff_get?]
  ascending_namesIn := h.ascending_namesIn

end Store

namespace Records

variable {r : Records} {tx : Transaction} {s : Store} {x : StatementId}

def scopedName (r : Records) (x : StatementId) : Option (NameScope × Identifier) :=
  (r.statements x).bind Statement.scopedName

theorem scopedName_before (h : tx.statements.get? x = none) :
    (tx.before s).scopedName x = s.scopedName x := by
  simp only [scopedName, Transaction.before, h, Option.getD_none]
  rfl

/-- The records with those that a transaction touched as a store has them. -/
def refresh (r : Records) (tx : Transaction) (s : Store) : Records :=
  { statements := fun x => if (tx.statements.get? x).isSome then s.get? x else r.statements x
    authorities := fun x =>
      if (tx.authorities.get? x).isSome then s.authority? x else r.authorities x }

theorem mirrors_refresh {a : RecordArchive} {e : Engine} (h : a.Mirrors r) :
    (a.apply (e.writes tx)).Mirrors (r.refresh tx e.store) where
  statements := by
    apply h.statements.writeJournal
    · intro x prior hx
      simp [refresh, hx]
    · intro x hx
      simp [refresh, hx]
  authorities := by
    apply h.authorities.writeJournal
    · intro x prior hx
      simp [refresh, hx]
    · intro x hx
      simp [refresh, hx]

theorem scopedName_refresh
    (h : tx.statements.get? x = none → r.scopedName x = s.scopedName x) :
    (r.refresh tx s).scopedName x = s.scopedName x := by
  cases hx : tx.statements.get? x with
  | none =>
    rw [← h hx]
    simp [scopedName, refresh, hx]
  | some prior =>
    simp only [scopedName, refresh, hx, Option.isSome_some, if_true]
    rfl

theorem Orderly.refresh (h : r.Orderly) (hkeyed : ∀ x st, s.get? x = some st → st.id = x)
    (hapart : ∀ x st, s.get? x = some st → st.Apart)
    (hauthority : ∀ x a, s.authority? x = some a → a.statement = x)
    (hnames : (r.refresh tx s).DistinctNames) : (r.refresh tx s).Orderly where
  keyed x st hx := by
    simp only [Records.refresh] at hx
    split at hx
    · exact hkeyed x st hx
    · exact h.keyed x st hx
  apart x st hx := by
    simp only [Records.refresh] at hx
    split at hx
    · exact hapart x st hx
    · exact h.apart x st hx
  names := hnames
  authority x a hx := by
    simp only [Records.refresh] at hx
    split at hx
    · exact hauthority x a hx
    · exact h.authority x a hx

end Records

namespace Engine

open Store

variable {e e' : Engine} {t : TransactionId} {tx : Transaction} {op : Op} {r r' : Records}

/-! ### What the archive may miss -/

theorem Serial.stands (h : e.Serial) : ∃ r, e.Stands r := by
  by_cases hrest : ∀ t, e.isOpen t = false
  · exact ⟨e.store.records, stands_of_resting hrest rfl⟩
  · obtain ⟨t, ht⟩ := not_forall.1 hrest
    have hopen := Bool.eq_true_of_not_eq_false ht
    obtain ⟨tx, htx, hclosed⟩ := isOpen_iff.1 hopen
    refine ⟨tx.before e.store, fun t' tx' htx' hclosed' => ?_, fun hrest => ?_⟩
    · cases h.alone t' t (isOpen_iff.2 ⟨tx', htx', hclosed'⟩) hopen
      cases htx.symm.trans htx'
      rfl
    · cases (hrest t).symm.trans hopen

theorem Stands.scopedName_eq (h : e.Stands r) (h' : e'.Stands r')
    (hname : ∀ x, e'.store.scopedName x = e.store.scopedName x)
    (hopen : ∀ t tx, e'.transactions.get? t = some tx → tx.closed = false →
      e.transactions.get? t = some tx)
    (hstill : ∀ t, e.isOpen t = true → e'.isOpen t = true) (x : StatementId) :
    r'.scopedName x = r.scopedName x := by
  by_cases hrest : ∀ t, e'.isOpen t = false
  · have hbefore (t : TransactionId) : e.isOpen t = false := by
      rw [Bool.eq_false_iff]
      intro ht
      cases (hrest t).symm.trans (hstill t ht)
    rw [← h'.resting hrest, ← h.resting hbefore]
    exact hname x
  · obtain ⟨t, ht⟩ := not_forall.1 hrest
    obtain ⟨tx, htx, hclosed⟩ := isOpen_iff.1 (Bool.eq_true_of_not_eq_false ht)
    rw [← h'.begun t tx htx hclosed, ← h.begun t tx (hopen t tx htx hclosed) hclosed]
    cases hkept : tx.statements.get? x with
    | none => rw [Records.scopedName_before hkept, Records.scopedName_before hkept, hname]
    | some kept => simp only [Records.scopedName, Transaction.before, hkept, Option.getD_some]

/-- The archive of an engine, if it has one, holds records in order, under the names that stand. -/
structure Archived (e : Engine) : Prop where
  serial : e.Serial
  rows : ∀ a, e.archive = some a →
    ∃ r r₀, a.Mirrors r ∧ r.Orderly ∧ e.Stands r₀ ∧ ∀ x, r.scopedName x = r₀.scopedName x

theorem Archived.commit (h : e.Archived) : (Op.run e (.commit t)).2.Archived := by
  refine ⟨h.serial.run trivial, ?_⟩
  rw [Op.run]
  rcases commit_cases e t with ⟨-, hrun⟩ | ⟨tx, htx, hclosed, hrun⟩ <;> rw [hrun]
  · exact h.rows
  · have ho := h.serial.orderly
    obtain ⟨hstore, -, htransactions, -⟩ := commitWith_fields e tx
    rw [(ho.keyed t tx htx).1] at htransactions
    have hrest := h.serial.resting (isOpen_iff.2 ⟨tx, htx, hclosed⟩) htransactions
    intro a' ha'
    rw [archive_commitWith] at ha'
    obtain ⟨a, ha, rfl⟩ := Option.map_eq_some_iff.1 ha'
    obtain ⟨r, r₀, hm, hr, hst, hnames⟩ := h.rows a ha
    have hname (x : StatementId) : (r.refresh tx e.store).scopedName x = e.store.scopedName x := by
      apply Records.scopedName_refresh
      intro hkept
      rw [hnames x, ← hst.begun t tx htx hclosed, Records.scopedName_before hkept]
    refine ⟨r.refresh tx e.store, e.store.records, Records.mirrors_refresh hm,
      hr.refresh ho.filed.indexed.keyed ho.apart ho.authority fun x y key hx hy => ?_,
      stands_of_resting hrest ?_, hname⟩
    · exact h.serial.named.unique x y key ((hname x).symm.trans hx) ((hname y).symm.trans hy)
    · rw [hstore]

theorem Archived.propagate_closed {seeds : List StatementId} {solved : Bool} (h : e.Archived)
    (hopen : e.isOpen t = false) : (Op.run e (.propagate t seeds solved)).2.Archived := by
  have hs : (Op.run e (.propagate t seeds solved)).2.Serial := h.serial.run trivial
  obtain ⟨hchanges, hflags⟩ := @Op.changes_closed (.propagate t seeds solved) e t rfl hopen
  have hp := hchanges.proceeds
  have hstill (t' : TransactionId) (ht' : e.isOpen t' = true) :
      (Op.run e (.propagate t seeds solved)).2.isOpen t' = true := by
    have hne : t' ≠ t := by
      intro heq
      rw [heq, hopen] at ht'
      cases ht'
    rwa [isOpen, hp.others t' hne]
  refine ⟨hs, fun a ha => ?_⟩
  obtain ⟨r, r₀, hm, hr, hst, hnames⟩ := h.rows a (hchanges.archive.symm.trans ha)
  obtain ⟨r₁, hst₁⟩ := hs.stands
  refine ⟨r, r₁, hm, hr, hst₁, fun x => ?_⟩
  rw [hnames, hst.scopedName_eq hst₁ hflags.scopedName (hp.open_others hopen) hstill]

theorem Archived.run (h : e.Archived) (hseq : op.Sequential e) : (op.run e).2.Archived := by
  by_cases hjournalled : op.Journalled e
  · by_cases hcommit : ∀ t, op ≠ .commit t
    · refine ⟨h.serial.run hseq, fun a ha => ?_⟩
      rw [archive_run h.serial.orderly hcommit] at ha
      obtain ⟨r, r₀, hm, hr, hst, hnames⟩ := h.rows a ha
      exact ⟨r, r₀, hm, hr, hst.run h.serial hcommit hseq hjournalled, hnames⟩
    · obtain ⟨t, rfl⟩ := not_forall_not.1 hcommit
      exact h.commit
  · cases op with
    | propagate t seeds solved =>
      exact h.propagate_closed (Bool.eq_false_of_not_eq_true hjournalled)
    | _ => exact absurd trivial hjournalled

theorem Mounted.archived {a : RecordArchive} (h : Mounted a r e) (hm : a.Mirrors r)
    (hr : r.Orderly) : e.Archived := by
  refine ⟨(h.backed hm hr).serial, fun a' ha' => ?_⟩
  cases h.archive.symm.trans ha'
  exact ⟨r, r, hm, hr, stands_of_resting h.resting h.store.records, fun _ => rfl⟩

end Engine

open Engine

variable {e : Engine}

/-- The engines that are reached while transactions follow one another. -/
inductive SerialRun : Engine → Prop where
  | start {config : Config} {e : Engine} (h : Engine.create config .absent = .ok e) : SerialRun e
  | step {e : Engine} {op : Op} (h : SerialRun e) (hseq : op.Sequential e) : SerialRun (op.run e).2
  | reopen {config : Config} {dir : String} {a : RecordArchive} {e e' : Engine} (h : SerialRun e)
      (ha : e.archive = some a) (hdir : config.dataDir = some dir)
      (hopen : Engine.create config (.archive a) = .ok e') : SerialRun e'

theorem SerialRun.archived (h : SerialRun e) : e.Archived := by
  induction h with
  | @start config e h =>
    cases hdir : config.dataDir with
    | none =>
      refine ⟨serial_create h, fun a ha => ?_⟩
      simp only [create, validate_of_create h, hdir] at h
      cases h
      cases ha
    | some dir =>
      obtain ⟨a, r, hmounted, hm, hr⟩ := mounted_create hdir h
      exact hmounted.archived hm hr
  | step _ hseq ih => exact ih.run hseq
  | reopen _ ha hdir hopen ih =>
    obtain ⟨r, r₀, hm, hr, -, -⟩ := ih.rows _ ha
    exact (mounted_of_create hdir hm hr hopen).archived hm hr

/-- The indexes answer every query by the records, also after aborts and reopening. -/
theorem SerialRun.answers (h : SerialRun e) : e.store.Answers :=
  h.archived.serial.orderly.filed.answers_of_named h.archived.serial.named

theorem SerialRun.runAll {ops : List Op} (h : SerialRun e)
    (hseq : Op.Along (fun e op => op.Sequential e) e ops) : SerialRun (Op.runAll e ops) := by
  induction ops generalizing e with
  | nil => exact h
  | cons op rest ih => exact ih (h.step hseq.1) hseq.2

theorem removalAborted_answers :
    ∃ a e', (Op.runAll emptyDirectory removalAborted).archive = some a ∧
      create { dataDir := some "data" } (.archive a) = .ok e' ∧ e'.store.Answers ∧
      e'.store.localsOf (.after 0) = [.after 1] ∧
      e'.store.localsByTerm (.after 0) (.atom "A") = [.after 1] ∧
      e'.store.roots = [.after 0] ∧
      e'.store.lookupName none ⟨"m", rfl⟩ = some (.after 0) := by
  have hstart : SerialRun emptyDirectory :=
    @SerialRun.start { dataDir := some "data" } _ rfl
  have hrun : SerialRun (Op.runAll emptyDirectory removalAborted) := by
    refine hstart.runAll ⟨fun _ => rfl, trivial, trivial, trivial, trivial, allClosed_iff.2 ?_,
      trivial, trivial, trivial, trivial⟩
    decide +kernel
  have hfound : ((Op.runAll emptyDirectory removalAborted).archive.bind fun a =>
      (create { dataDir := some "data" } (.archive a)).toOption.map fun e' =>
        (e'.store.localsOf (.after 0), e'.store.localsByTerm (.after 0) (.atom "A"),
          e'.store.roots, e'.store.lookupName none ⟨"m", rfl⟩)) =
      some ([.after 1], [.after 1], [.after 0], some (.after 0)) := by
    decide +kernel
  obtain ⟨a, ha, hfound⟩ := Option.bind_eq_some_iff.1 hfound
  obtain ⟨e', he', hfound⟩ := Option.map_eq_some_iff.1 hfound
  have hopen : create { dataDir := some "data" } (.archive a) = .ok e' := by
    cases hcreate : create { dataDir := some "data" } (.archive a) with
    | error failure =>
      rw [hcreate] at he'
      cases he'
    | ok e₁ =>
      rw [hcreate] at he'
      cases he'
      rfl
  simp only [Prod.mk.injEq] at hfound
  obtain ⟨hlocals, hterm, hroots, hname⟩ := hfound
  have hreopened : SerialRun e' :=
    @SerialRun.reopen { dataDir := some "data" } "data" _ _ _ hrun ha rfl hopen
  exact ⟨a, e', ha, hopen, hreopened.answers, hlocals, hterm, hroots, hname⟩

end StatementGraph
