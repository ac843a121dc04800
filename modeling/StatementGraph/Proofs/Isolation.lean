import StatementGraph.Proofs.LeastFixpoint
import StatementGraph.Proofs.Outcomes
import StatementGraph.Proofs.Structure

namespace StatementGraph

namespace Engine

open Store

variable {s t : TransactionId} {e e' : Engine} {x : StatementId}

/-- The ids of which a transaction has changed the record or the authority. -/
def touchedIn (e : Engine) (t : TransactionId) : List StatementId :=
  e.readIn t [] fun tx => tx.statements.keys ++ tx.authorities.keys

def rootNamesIn (e : Engine) (t : TransactionId) : List Identifier :=
  e.readIn t [] fun tx => tx.statements.entries.filterMap fun entry =>
    entry.2.bind fun st => if st.owner = none then st.identifier else none

/-- What two transactions have touched is in different trees, now and after an abort. -/
structure Clear (e e' : Engine) (s t : TransactionId) : Prop where
  trees : ∀ x ∈ e'.touchedIn s, ∀ z ∈ e.touchedIn t, ∀ now ∈ [e.store, e'.store],
    ∀ back ∈ [e.store, (e.abort t).store], now.rootOf x ≠ back.rootOf z
  names : ∀ name ∈ e.rootNamesIn t, ∀ y ∈ e'.store.lookupName none name, y ∈ e.touchedIn t

instance : Decidable (e.Clear e' s t) :=
  decidable_of_iff ((∀ x ∈ e'.touchedIn s, ∀ z ∈ e.touchedIn t, ∀ now ∈ [e.store, e'.store],
      ∀ back ∈ [e.store, (e.abort t).store], now.rootOf x ≠ back.rootOf z) ∧
    ∀ name ∈ e.rootNamesIn t, ∀ y ∈ e'.store.lookupName none name, y ∈ e.touchedIn t)
    ⟨fun h => ⟨h.1, h.2⟩, fun h => ⟨h.trees, h.names⟩⟩

theorem Clear.disjoint (h : e.Clear e' s t) (hx : x ∈ e'.touchedIn s) : x ∉ e.touchedIn t :=
  fun hxt => h.trees x hx x hxt e.store List.mem_cons_self e.store List.mem_cons_self rfl

theorem mem_touchedIn :
    x ∈ e.touchedIn t ↔ e.prior? t x ≠ none ∨ e.priorAuthority? t x ≠ none := by
  rw [touchedIn, prior?, priorAuthority?]
  cases htx : e.transactions.get? t with
  | none => simp [readIn_unknown htx]
  | some tx =>
    simp only [readIn_eq htx, List.mem_append, Table.mem_keys, ne_eq,
      Option.eq_none_iff_forall_ne_some, not_forall, not_not]

theorem mem_rootNamesIn {st : Statement} {name : Identifier} (h : e.prior? t x = some (some st))
    (hname : st.scopedName = some (none, name)) : name ∈ e.rootNamesIn t := by
  obtain ⟨_, hidentifier, heq⟩ := Option.map_eq_some_iff.1 hname
  obtain ⟨howner, rfl⟩ := Prod.mk.inj heq
  cases htx : e.transactions.get? t with
  | none => cases (readIn_unknown htx).symm.trans h
  | some tx =>
    rw [prior?, readIn_eq htx] at h
    rw [rootNamesIn, readIn_eq htx]
    refine List.mem_filterMap.2 ⟨(x, some st), Table.mem_entries.2 h, ?_⟩
    rw [Option.bind_some, if_pos howner]
    exact hidentifier

end Engine

def Op.aborted? : Op → Option TransactionId
  | abort t => some t
  | _ => none

/-- An operation leaves the transactions alone that may be aborted, and aborts only those. -/
structure Op.Isolated (commits : TransactionId → Prop) (e : Engine) (op : Op) : Prop where
  abort : ∀ t ∈ op.aborted?, e.isOpen t = true → ¬commits t
  clear : ∀ s ∈ op.client?, ∀ t ∈ e.transactions.keys, t ≠ s → ¬commits t →
    e.Clear (op.run e).2 s t

instance {commits : TransactionId → Prop} [DecidablePred commits] {e : Engine} {op : Op} :
    Decidable (op.Isolated commits e) :=
  decidable_of_iff ((∀ t ∈ op.aborted?, e.isOpen t = true → ¬commits t) ∧
    ∀ s ∈ op.client?, ∀ t ∈ e.transactions.keys, t ≠ s → ¬commits t → e.Clear (op.run e).2 s t)
    ⟨fun h => ⟨h.1, h.2⟩, fun h => ⟨h.abort, h.clear⟩⟩

namespace Engine

open Store

variable {commits : TransactionId → Prop} {D : Discipline} {s t : TransactionId}
  {ts us : List TransactionId} {e e' : Engine} {H H' : Graph} {op : Op} {r r' : Records}
  {x y z : StatementId} {tx : Transaction}

/-! ### What holds while transactions overlap -/

/-- What there is without some transactions is in order. -/
structure Undone (H : Graph) (e : Engine) (ts us : List TransactionId) (r : Records) : Prop where
  without : e.Without ts r
  maintained : r.Maintained H
  names : r.DistinctNames
  buried : H.Buries r.graph (e.batchesAfter ts us)

def Unclosed (e : Engine) (t : TransactionId) : Prop :=
  ∀ tx, e.transactions.get? t = some tx → tx.closed = false

theorem unclosed_of_open (htx : e.transactions.get? t = some tx) (hopen : tx.closed = false) :
    e.Unclosed t := by
  intro tx' htx'
  cases htx.symm.trans htx'
  exact hopen

theorem isOpen_of_touched (h : e.Unclosed t) (hx : x ∈ e.touchedIn t) : e.isOpen t = true := by
  cases htx : e.transactions.get? t with
  | none =>
    rw [touchedIn, readIn_unknown htx] at hx
    cases hx
  | some tx => exact isOpen_iff.2 ⟨tx, htx, h tx htx⟩

/-- What holds of an engine and the history of its session while transactions overlap. -/
structure Interleaved (commits : TransactionId → Prop) (D : Discipline) (H : Graph) (e : Engine) :
    Prop where
  orderly : e.Orderly
  lawful : H.Lawful D
  named : e.store.Named
  counter : e.store.allocator.Beyond H
  apart : ∀ t t' x, t ≠ t' → ¬commits t → ¬commits t' → x ∈ e.touchedIn t → x ∉ e.touchedIn t'
  undoable : ∀ ts us, (ts ++ us).Nodup → (∀ t ∈ ts, e.Unclosed t ∧ ¬commits t) →
    (∀ u ∈ us, e.Unclosed u) → ∃ r, Undone H e ts us r

theorem Interleaved.now (h : Interleaved commits D H e) : Undone H e [] [] e.store.records := by
  obtain ⟨r, hr⟩ := h.undoable [] [] List.nodup_nil (fun _ ht => absurd ht List.not_mem_nil)
    fun _ hu => absurd hu List.not_mem_nil
  exact hr.without.eq_records ▸ hr

theorem Interleaved.maintained (h : Interleaved commits D H e) : e.store.Maintained H :=
  ⟨h.orderly.filed.indexed, h.now.maintained⟩

theorem Interleaved.sound (h : Interleaved commits D H e) (hs : e.isOpen s = true) :
    Sound D s H e :=
  ⟨h.lawful, h.maintained, h.counter, hs⟩

theorem Interleaved.aborting (h : Interleaved commits D H e) (ht : e.isOpen t = true)
    (hc : ¬commits t) : ∃ r, Undone H e [t] [] r ∧ r.graph = (e.abort t).store.graph := by
  obtain ⟨tx, htx, hopen⟩ := isOpen_iff.1 ht
  have hunclosed (t' : TransactionId) (ht' : t' ∈ [t]) : e.Unclosed t' ∧ ¬commits t' := by
    cases List.mem_singleton.1 ht'
    exact ⟨unclosed_of_open htx hopen, hc⟩
  obtain ⟨r, hr⟩ := h.undoable [t] [] (List.nodup_singleton t) hunclosed
    fun _ hu => absurd hu List.not_mem_nil
  refine ⟨r, hr, funext fun x => congrArg (Option.map Statement.content) ?_⟩
  rw [get?_abort h.orderly htx hopen, hr.without.statements.eq_kept x, prior?, readIn_eq htx]

theorem Interleaved.graph_touched (h : Interleaved commits D H e) (hr : Undone H e ts us r)
    (hts : ∀ t ∈ ts, e.Unclosed t ∧ ¬commits t) (ht : t ∈ ts) (hx : x ∈ e.touchedIn t) :
    r.graph x = (e.abort t).store.graph x := by
  refine congrArg (Option.map Statement.content) ?_
  obtain ⟨tx, htx, hopen⟩ := isOpen_iff.1 (isOpen_of_touched (hts t ht).1 hx)
  rw [get?_abort h.orderly htx hopen]
  cases hp : tx.statements.get? x with
  | some prior =>
    exact hr.without.statements.touched t ht x prior ((readIn_eq htx).trans hp)
  | none =>
    apply hr.without.statements.untouched x
    intro t' ht'
    by_cases htt : t' = t
    · rw [htt]
      exact (readIn_eq htx).trans hp
    · by_contra hp'
      exact h.apart t t' x (Ne.symm htt) (hts t ht).2 (hts t' ht').2 hx
        (mem_touchedIn.2 (Or.inl hp'))

/-! ### Operations in a transaction -/

theorem rootOf_eq_of_akin {now back : Store} (hH : H.Lawful D) (hnow : now.graph.Sub H)
    (hback : back.graph.Sub H) (hr : now.graph.Rooted) (hr' : back.graph.Rooted)
    (hx : ∃ c, now.graph x = some c) (hz : ∃ c, back.graph z = some c) (hxz : H.Akin x z) :
    now.rootOf x = back.rootOf z := by
  have hroot (st : Store) (hsub : st.graph.Sub H) (hr : st.graph.Rooted) (y : StatementId)
      (hy : ∃ c, st.graph y = some c) :
      H.Within y (st.rootOf y) ∧ H.ownerOf (st.rootOf y) = none := by
    have hf := hH.forest_of_sub hsub hr
    obtain ⟨c, hc⟩ := hy
    have hw := hsub.within (within_rootOf (x := y))
    obtain ⟨-, c', hc'⟩ := hsub.within_of hr hc hw
    have htop := ownerOf_rootOf (x := y) hf
    rw [Graph.ownerOf, hc'] at htop
    refine ⟨hw, ?_⟩
    rw [Graph.ownerOf, hsub _ c' hc']
    exact htop
  obtain ⟨hwx, htopx⟩ := hroot now hnow hr x hx
  obtain ⟨hwz, htopz⟩ := hroot back hback hr' z hz
  exact hxz.root_eq hwx htopx hwz htopz

/-- The trees in which transactions have touched something. -/
def Region (H : Graph) (e : Engine) (ts : List TransactionId) (r : Records) (x : StatementId) :
    Prop :=
  ∃ t ∈ ts, ∃ z ∈ e.touchedIn t,
    x = z ∨ ((∃ c, e.store.graph z = some c) ∨ ∃ c, r.graph z = some c) ∧ H.Akin x z

theorem Region.touched (ht : t ∈ ts) (hx : x ∈ e.touchedIn t) : Region H e ts r x :=
  ⟨t, ht, x, hx, Or.inl rfl⟩

theorem Region.akin (h : Region H e ts r x)
    (hx : (∃ c, e.store.graph x = some c) ∨ ∃ c, r.graph x = some c) (hxy : H.Akin x y) :
    Region H e ts r y := by
  obtain ⟨t, ht, z, hz, rfl | ⟨hlive, hxz⟩⟩ := h
  · exact ⟨t, ht, x, hz, Or.inr ⟨hx, hxy.symm⟩⟩
  · exact ⟨t, ht, z, hz, Or.inr ⟨hlive, hxy.symm.trans hxz⟩⟩

theorem eq_none_of_dead {st : Store} (hm : st.Maintained H) (hx : ¬∃ c, st.graph x = some c) :
    st.get? x = none ∧ st.authority? x = none := by
  constructor
  · cases hst : st.get? x with
    | none => rfl
    | some record => exact absurd ⟨_, graph_of_get? hst⟩ hx
  · cases hau : st.authority? x with
    | none => rfl
    | some a => exact absurd (hm.authority hau).2 hx

theorem touched_of_changed (hm : e.store.Maintained H) (ha : Acts s e e')
    (hout : Outcome D s H e H' e')
    (hx : ¬(e'.store.get? x = e.store.get? x ∧ e'.store.authority? x = e.store.authority? x)) :
    x ∈ e'.touchedIn s ∧ ∃ now ∈ [e.store, e'.store], ∃ c, now.graph x = some c := by
  constructor
  · by_contra hnot
    rw [mem_touchedIn, not_or, not_not, not_not] at hnot
    exact hx ⟨(ha.statements.untouched hnot.1).2, (ha.authorities.untouched hnot.2).2⟩
  · by_contra hdead
    simp only [List.mem_cons, List.not_mem_nil, or_false, exists_eq_or_imp, exists_eq_left,
      not_or] at hdead
    obtain ⟨hst, hau⟩ := eq_none_of_dead hm hdead.1
    obtain ⟨hst', hau'⟩ := eq_none_of_dead hout.sound.maintained hdead.2
    exact hx ⟨hst'.trans hst.symm, hau'.trans hau.symm⟩

section Step

variable (h : Interleaved commits D H e) (hr : Undone H e ts us r)
  (hts : ∀ t ∈ ts, e.Unclosed t ∧ ¬commits t) (ha : Acts s e e')
  (hout : Outcome D s H e H' e') (hclear : ∀ t, t ≠ s → ¬commits t → e.Clear e' s t)

include h hr hts ha hout hclear

/-- An operation changes nothing in the trees of transactions from which it keeps clear. -/
theorem region_same (hs : s ∉ ts) (hx : Region H' e ts r x) :
    e'.store.get? x = e.store.get? x ∧ e'.store.authority? x = e.store.authority? x := by
  obtain ⟨t, ht, z, hz, hxz⟩ := hx
  have hct := hclear t (fun hts => hs (hts ▸ ht)) (hts t ht).2
  have hm := h.maintained.mono hout.history
  have hm' := hout.sound.maintained
  obtain ⟨r₁, hr₁, hgraph⟩ := h.aborting (isOpen_of_touched (hts t ht).1 hz) (hts t ht).2
  by_contra hchanged
  obtain ⟨htouched, now, hnow, hxnow⟩ := touched_of_changed h.maintained ha hout hchanged
  rcases hxz with rfl | ⟨hlive, hakin⟩
  · exact hct.disjoint htouched hz
  · have hback : ∃ back ∈ [e.store, (e.abort t).store], ∃ c, back.graph z = some c := by
      rw [h.graph_touched hr hts ht hz] at hlive
      simpa using hlive
    obtain ⟨back, hback, hzback⟩ := hback
    have hsub : now.graph.Sub H' ∧ now.graph.Rooted := by
      rcases List.mem_pair.1 hnow with rfl | rfl
      · exact ⟨hm.sub, hm.closed.owner⟩
      · exact ⟨hm'.sub, hm'.closed.owner⟩
    have hsub' : back.graph.Sub H' ∧ back.graph.Rooted := by
      rcases List.mem_pair.1 hback with rfl | rfl
      · exact ⟨hm.sub, hm.closed.owner⟩
      · rw [← hgraph]
        exact ⟨hr₁.maintained.sub.trans hout.history, hr₁.maintained.closed.owner⟩
    exact hct.trees x htouched z hz now hnow back hback
      (rootOf_eq_of_akin hout.sound.lawful hsub.1 hsub'.1 hsub.2 hsub'.2 hxnow hzback hakin)

theorem region_name {name : Identifier} (hs : s ∉ ts) (hx : Region H' e ts r x)
    (hy : ¬Region H' e ts r y)
    (hname : (r.statements x).bind Statement.scopedName = some (none, name)) :
    e'.store.scopedName y ≠ some (none, name) := by
  intro hname'
  have hn := hout.named h.named
  by_cases htouched : ∃ t ∈ ts, e.prior? t x ≠ none
  · -- a name that a transaction would give back is one that it has touched
    obtain ⟨t, ht, hp⟩ := htouched
    obtain ⟨prior, hp⟩ := Option.ne_none_iff_exists'.1 hp
    rw [hr.without.statements.touched t ht x prior hp] at hname
    obtain ⟨st, rfl, hst⟩ := Option.bind_eq_some_iff.1 hname
    have hct := hclear t (fun hts => hs (hts ▸ ht)) (hts t ht).2
    exact hy (.touched ht (hct.names name (mem_rootNamesIn hp hst) y (hn.lookupName.2 hname')))
  · have hnow : r.statements x = e.store.get? x := by
      apply hr.without.statements.untouched x
      intro t ht
      by_contra hp
      exact htouched ⟨t, ht, hp⟩
    rw [hnow, ← (region_same h hr hts ha hout hclear hs hx).1] at hname
    exact hy (hn.unique x y _ hname hname' ▸ hx)

/-- What there is without other transactions follows an operation, outside of their trees. -/
theorem Undone.others (hs : s ∉ ts) (hus : us.Nodup) : ∃ r', Undone H' e' ts us r' := by
  have hm := hr.maintained.mono hout.history
  have hm' := hout.sound.maintained.records
  have hsame {x : StatementId} (hx : Region H' e ts r x) :=
    region_same h hr hts ha hout hclear hs hx
  have hgraph {x : StatementId} (hx : Region H' e ts r x) :
      e'.store.graph x = e.store.graph x :=
    congrArg (Option.map Statement.content) (hsame hx).1
  have hnow {x : StatementId} (hx : ¬Region H' e ts r x) : r.statements x = e.store.get? x := by
    apply hr.without.statements.untouched x
    intro t ht
    by_contra hp
    exact hx (.touched ht (mem_touchedIn.2 (Or.inl hp)))
  have hw : r.graph.Whole H' (Region H' e ts r) :=
    fun x y c c' hx _ hxy hC => hC.akin (Or.inr ⟨c, hx⟩) hxy
  have hw' : e'.store.records.graph.Whole H' (Region H' e ts r) :=
    fun x y c c' hx _ hxy hC => hC.akin (Or.inl ⟨c, (hgraph hC).symm.trans hx⟩) hxy
  obtain ⟨r', hj⟩ := Records.exists_joins (Region H' e ts r) r e'.store.records
  have hin {x : StatementId} (hx : Region H' e ts r x) : r'.graph x = r.graph x :=
    congrArg (Option.map Statement.content) (hj.inside x hx).1
  have hout' {x : StatementId} (hx : ¬Region H' e ts r x) :
      r'.graph x = e'.store.graph x ∧ r.graph x = e.store.graph x :=
    ⟨congrArg (Option.map Statement.content) (hj.outside x hx).1,
      congrArg (Option.map Statement.content) (hnow hx)⟩
  refine ⟨r', ⟨?_, ?_⟩, hj.maintained hout.sound.lawful hm hm' hw hw', ?_, ?_⟩
  · exact hr.without.statements.others ha.statements hs
      (fun t ht x hx => Region.touched ht (mem_touchedIn.2 (Or.inl hx)))
      (fun x hx => (hsame hx).1) (fun x hx => (hj.inside x hx).1) fun x hx => (hj.outside x hx).1
  · exact hr.without.authorities.others ha.authorities hs
      (fun t ht x hx => Region.touched ht (mem_touchedIn.2 (Or.inr hx)))
      (fun x hx => (hsame hx).2) (fun x hx => (hj.inside x hx).2) fun x hx => (hj.outside x hx).2
  · apply hj.distinctNames hout.sound.lawful hm hm' hw hw' hr.names (hout.named h.named).unique
    intro x y name hx hy hname
    exact region_name h hr hts ha hout hclear hs hx hy hname
  · apply Graph.Buries.history _ hout.history
    apply hout.batches.others ha h.lawful hs hus _ _ hr.buried
    · intro x hx
      by_cases hC : Region H' e ts r x
      · exact hin hC
      · exact (hout' hC).1.trans (hx.trans (hout' hC).2.symm)
    · intro x hx
      have hC : ¬Region H' e ts r x := fun hC => hx (hgraph hC)
      exact ⟨(hout' hC).2, (hout' hC).1⟩

omit h in
/-- What there is without the transaction of an operation, too, stays as it is. -/
theorem Undone.own (hs : s ∈ ts) (hnd : (ts ++ us).Nodup) : Undone H' e' ts us r := by
  obtain ⟨hndt, -, hdisjoint⟩ := List.nodup_append.1 hnd
  have hus : s ∉ us := fun hu => hdisjoint s hs s hu rfl
  have hapart (x : StatementId) (hx : x ∈ e'.touchedIn s) (t : TransactionId) (ht : t ∈ ts)
      (hne : t ≠ s) : x ∉ e.touchedIn t :=
    (hclear t hne (hts t ht).2).disjoint hx
  refine ⟨⟨?_, ?_⟩, hr.maintained.mono hout.history, hr.names,
    (hout.batches.own ha hs hndt hus hr.buried).history hout.history⟩
  · apply hr.without.statements.own ha.statements hs
    intro x hx t ht hne
    by_contra hp
    exact hapart x (mem_touchedIn.2 (Or.inl hx)) t ht hne (mem_touchedIn.2 (Or.inl hp))
  · apply hr.without.authorities.own ha.authorities hs
    intro x hx t ht hne
    by_contra hp
    exact hapart x (mem_touchedIn.2 (Or.inr hx)) t ht hne (mem_touchedIn.2 (Or.inr hp))

end Step

theorem touchedIn_congr (h : e'.transactions.get? t = e.transactions.get? t) :
    e'.touchedIn t = e.touchedIn t :=
  readIn_congr h

/-- An operation in an open transaction that keeps clear of those that may be aborted. -/
theorem Interleaved.acted (h : Interleaved commits D H e) (hopen : e.isOpen s = true)
    (ho : e'.Orderly) (ha : Acts s e e') (hout : Outcome D s H e H' e')
    (hclear : ∀ t, t ≠ s → ¬commits t → e.Clear e' s t) : Interleaved commits D H' e' := by
  have hunclosed (t : TransactionId) (ht : e'.Unclosed t) : e.Unclosed t := by
    intro tx htx
    by_cases hts : t = s
    · obtain ⟨tx', htx', hclosed⟩ := isOpen_iff.1 hopen
      exact unclosed_of_open htx' hclosed tx (hts ▸ htx)
    · exact ht tx ((ha.others t hts).trans htx)
  have hdisjoint (t : TransactionId) (x : StatementId) (hts : t ≠ s) (hc : ¬commits t)
      (hx : x ∈ e'.touchedIn s) : x ∉ e'.touchedIn t := by
    rw [touchedIn_congr (ha.others t hts)]
    exact (hclear t hts hc).disjoint hx
  refine ⟨ho, hout.sound.lawful, hout.named h.named, hout.sound.counter,
    fun t t' x hne hc hc' hx hx' => ?_, fun ts us hnd hts hus => ?_⟩
  · by_cases hts : t = s
    · subst hts
      exact hdisjoint t' x (Ne.symm hne) hc' hx hx'
    · by_cases hts' : t' = s
      · subst hts'
        exact hdisjoint t x hne hc hx' hx
      · rw [touchedIn_congr (ha.others t hts)] at hx
        rw [touchedIn_congr (ha.others t' hts')] at hx'
        exact h.apart t t' x hne hc hc' hx hx'
  · have hts' : ∀ t ∈ ts, e.Unclosed t ∧ ¬commits t :=
      fun t ht => ⟨hunclosed t (hts t ht).1, (hts t ht).2⟩
    obtain ⟨r, hr⟩ := h.undoable ts us hnd hts' fun u hu => hunclosed u (hus u hu)
    by_cases hs : s ∈ ts
    · exact ⟨r, hr.own hts' ha hout hclear hs hnd⟩
    · exact hr.others h hts' ha hout hclear hs (List.nodup_append.1 hnd).2.1

/-! ### Beginning and closing -/

theorem Interleaved.aside (h : Interleaved commits D H e) (ho : e'.Orderly)
    (hstore : e'.store = e.store) (hundo : e'.undo.batches.Sublist e.undo.batches)
    (htransactions : ∀ t, e'.transactions.get? t = e.transactions.get? t ∨
      e.transactions.get? t = none ∧
        ∃ timeout, e'.transactions.get? t = some { id := t, timeout }) :
    Interleaved commits D H e' := by
  have hunclosed (t : TransactionId) (ht : e'.Unclosed t) : e.Unclosed t := by
    intro tx htx
    rcases htransactions t with hsame | ⟨hnone, -⟩
    · exact ht tx (hsame.trans htx)
    · cases hnone.symm.trans htx
  have hread {β : Type} {blank : β} {f : Transaction → β} (t : TransactionId)
      (hf : ∀ timeout, f { id := t, timeout } = blank) :
      e'.readIn t blank f = e.readIn t blank f := by
    rcases htransactions t with hsame | ⟨hnone, timeout, hnew⟩
    · exact readIn_congr hsame
    · rw [readIn_unknown hnone, readIn_eq hnew, hf]
  have hprior : e'.prior? = e.prior? := funext fun t => funext fun x => hread t fun _ => rfl
  have hauthority : e'.priorAuthority? = e.priorAuthority? :=
    funext fun t => funext fun x => hread t fun _ => rfl
  have hpopped : e'.poppedIn = e.poppedIn := funext fun t => hread t fun _ => rfl
  have hdeletions : e'.deletionsIn = e.deletionsIn := funext fun t => hread t fun _ => rfl
  have htouched (t : TransactionId) : e'.touchedIn t = e.touchedIn t := hread t fun _ => rfl
  refine ⟨ho, h.lawful, hstore ▸ h.named, hstore ▸ h.counter, fun t t' x hne hc hc' hx => ?_,
    fun ts us hnd hts hus => ?_⟩
  · rw [htouched] at hx ⊢
    exact h.apart t t' x hne hc hc' hx
  · obtain ⟨r, hr⟩ := h.undoable ts us hnd (fun t ht => ⟨hunclosed t (hts t ht).1, (hts t ht).2⟩)
      fun u hu => hunclosed u (hus u hu)
    refine ⟨r, ⟨?_, ?_⟩, hr.maintained, hr.names, hr.buried.fewer ?_⟩
    · rw [hprior, hstore]
      exact hr.without.statements
    · rw [hauthority, hstore]
      exact hr.without.authorities
    · rw [batchesAfter, batchesAfter, hpopped, hdeletions]
      exact ((hundo.append_right _).append_right _).subperm

theorem Interleaved.begun (h : Interleaved commits D H e) (timeout : Option Nat) :
    Interleaved commits D H (e.begin timeout).2 := by
  refine h.aside (h.orderly.begun timeout) rfl (List.Sublist.refl _) fun t => ?_
  rw [get?_begin]
  split
  case isFalse => exact Or.inl rfl
  case isTrue heq =>
    subst heq
    refine Or.inr ⟨?_, _, rfl⟩
    cases htx : e.transactions.get? ⟨e.nextTransaction⟩ with
    | none => rfl
    | some tx => exact absurd (h.orderly.keyed _ tx htx).2 (Nat.lt_irrefl _)

/-- Closing a transaction, if without others there is what there was. -/
theorem Interleaved.closed (h : Interleaved commits D H e) (ho : e'.Orderly)
    (hn : e'.store.Named) (hcounter : e'.store.allocator.Beyond H)
    (hothers : ∀ t, t ≠ s → e'.transactions.get? t = e.transactions.get? t)
    (hown : e'.transactions.get? s = some tx.emptied)
    (hundone : ∀ ts us, s ∉ ts → s ∉ us → (ts ++ us).Nodup →
      (∀ t ∈ ts, e.Unclosed t ∧ ¬commits t) → (∀ u ∈ us, e.Unclosed u) →
      ∃ r, Undone H e' ts us r) : Interleaved commits D H e' := by
  have hne (t : TransactionId) (ht : e'.Unclosed t) : t ≠ s := by
    rintro rfl
    cases ht _ hown
  have hunclosed (t : TransactionId) (ht : e'.Unclosed t) : e.Unclosed t :=
    fun tx htx => ht tx ((hothers t (hne t ht)).trans htx)
  have hblank (x : StatementId) : x ∉ e'.touchedIn s := by
    rw [touchedIn, readIn_eq hown]
    exact List.not_mem_nil
  refine ⟨ho, h.lawful, hn, hcounter, fun t t' x hne hc hc' hx hx' => ?_,
    fun ts us hnd hts hus => ?_⟩
  · have hts : t ≠ s := fun hts => hblank x (hts ▸ hx)
    have hts' : t' ≠ s := fun hts => hblank x (hts ▸ hx')
    rw [touchedIn_congr (hothers t hts)] at hx
    rw [touchedIn_congr (hothers t' hts')] at hx'
    exact h.apart t t' x hne hc hc' hx hx'
  · exact hundone ts us (fun hs => hne s (hts s hs).1 rfl) (fun hs => hne s (hus s hs) rfl) hnd
      (fun t ht => ⟨hunclosed t (hts t ht).1, (hts t ht).2⟩)
      fun u hu => hunclosed u (hus u hu)

theorem get?_emptied (ho : e.Orderly) (htx : e.transactions.get? s = some tx)
    (h : e'.transactions = (e.onTransaction tx.id Transaction.emptied).transactions) :
    (∀ t, t ≠ s → e'.transactions.get? t = e.transactions.get? t) ∧
      e'.transactions.get? s = some tx.emptied := by
  rw [(ho.keyed s tx htx).1] at h
  refine ⟨fun t ht => ?_, ?_⟩
  · rw [h, get?_onTransaction, if_neg ht]
  · rw [h, get?_onTransaction, if_pos rfl, htx]
    rfl

theorem Interleaved.committed (h : Interleaved commits D H e)
    (htx : e.transactions.get? s = some tx) (hopen : tx.closed = false) :
    Interleaved commits D H (e.commitWith tx) := by
  obtain ⟨hstore, hundo, htransactions, -⟩ := commitWith_fields e tx
  obtain ⟨hothers, hown⟩ := get?_emptied h.orderly htx htransactions
  refine h.closed (h.orderly.committed htx) (hstore ▸ h.named) (hstore ▸ h.counter) hothers hown
    fun ts us hs hs' hnd hts hus => ?_
  have hunclosed (u : TransactionId) (hu : u ∈ s :: us) : e.Unclosed u := by
    rcases List.mem_cons.1 hu with rfl | hu
    · exact unclosed_of_open htx hopen
    · exact hus u hu
  have hnd' : (ts ++ s :: us).Nodup := by
    rw [List.nodup_middle, List.nodup_cons]
    exact ⟨by simp [hs, hs'], hnd⟩
  obtain ⟨r, hr⟩ := h.undoable ts (s :: us) hnd' hts hunclosed
  have hne (t : TransactionId) (ht : t ∈ ts) : t ≠ s := fun heq => hs (heq ▸ ht)
  refine ⟨r, ⟨?_, ?_⟩, hr.maintained, hr.names, hr.buried.fewer ?_⟩
  · rw [hstore]
    apply hr.without.statements.congr
    intro t ht
    exact funext fun x => readIn_congr (hothers t (hne t ht))
  · rw [hstore]
    apply hr.without.authorities.congr
    intro t ht
    exact funext fun x => readIn_congr (hothers t (hne t ht))
  · -- what the transaction has deleted goes on the undo log
    have hpopped : ts.flatMap (e.commitWith tx).poppedIn = ts.flatMap e.poppedIn :=
      flatMap_readIn hothers (Or.inl hs)
    have hdeletions : us.flatMap (e.commitWith tx).deletionsIn = us.flatMap e.deletionsIn :=
      flatMap_readIn hothers (Or.inl hs')
    have hown : e.deletionsIn s = tx.deletions := readIn_eq htx
    rw [batchesAfter, batchesAfter, hundo, hpopped, hdeletions, List.flatMap_cons, hown]
    have hpush := (List.subperm_append_right (ts.flatMap e.poppedIn ++ us.flatMap e.deletionsIn)).2
      (e.undo.subperm_pushAll tx.deletions)
    rw [List.append_assoc]
    refine hpush.trans (List.Perm.subperm ?_)
    simp only [List.append_assoc]
    apply List.Perm.append_left
    rw [← List.append_assoc, ← List.append_assoc]
    exact List.perm_append_comm.append_right _

theorem Interleaved.aborted (h : Interleaved commits D H e)
    (htx : e.transactions.get? s = some tx) (hopen : tx.closed = false) (hc : ¬commits s) :
    Interleaved commits D H (e.abortWith tx) := by
  obtain ⟨hstore, hundo, htransactions, -⟩ := abortWith_fields e tx
  obtain ⟨hothers, hown⟩ := get?_emptied h.orderly htx htransactions
  have hkeyed := h.orderly.journal s tx htx
  have hrecords : (e.abortWith tx).store.records = tx.before e.store := by
    rw [hstore]
    exact records_rollbackIn (.refl _) (.refl _) hkeyed.statements
  have hunclosed : e.Unclosed s := unclosed_of_open htx hopen
  have hundo' (ts us : List TransactionId) (hs : s ∉ ts) (hs' : s ∉ us) (hnd : (ts ++ us).Nodup)
      (hts : ∀ t ∈ ts, e.Unclosed t ∧ ¬commits t) (hus : ∀ u ∈ us, e.Unclosed u) :
      ∃ r, Undone H (e.abortWith tx) ts us r := by
    have hnd' : (s :: ts ++ us).Nodup := by
      rw [List.cons_append, List.nodup_cons]
      exact ⟨by simp [hs, hs'], hnd⟩
    obtain ⟨r, hr⟩ := h.undoable (s :: ts) us hnd'
      (List.forall_mem_cons.2 ⟨⟨hunclosed, hc⟩, hts⟩) hus
    have hne (t : TransactionId) (ht : t ∈ ts) : t ≠ s := fun heq => hs (heq ▸ ht)
    refine ⟨r, ⟨?_, ?_⟩, hr.maintained, hr.names, hr.buried.fewer ?_⟩
    · apply hr.without.statements.tail
      · exact fun t ht => funext fun x => readIn_congr (hothers t (hne t ht))
      · intro x
        rw [prior?, readIn_eq htx]
        exact congrFun (congrArg Records.statements hrecords) x
    · apply hr.without.authorities.tail
      · exact fun t ht => funext fun x => readIn_congr (hothers t (hne t ht))
      · intro x
        rw [priorAuthority?, readIn_eq htx]
        exact congrFun (congrArg Records.authorities hrecords) x
    · -- what the transaction has taken off the undo log goes back to it
      have hpopped : ts.flatMap (e.abortWith tx).poppedIn = ts.flatMap e.poppedIn :=
        flatMap_readIn hothers (Or.inl hs)
      have hdeletions : us.flatMap (e.abortWith tx).deletionsIn = us.flatMap e.deletionsIn :=
        flatMap_readIn hothers (Or.inl hs')
      have hown : e.poppedIn s = tx.popped := readIn_eq htx
      rw [batchesAfter, batchesAfter, hundo, hpopped, hdeletions, List.flatMap_cons, hown,
        ← List.append_assoc]
      refine (List.subperm_append_right _).2 ((List.subperm_append_right _).2 ?_)
      exact (e.undo.subperm_pushAll tx.popped.reverse).trans
        (tx.popped.reverse_perm.append_left _).subperm
  obtain ⟨r, hr⟩ := hundo' [] [] List.not_mem_nil List.not_mem_nil List.nodup_nil
    (fun _ ht => absurd ht List.not_mem_nil) fun _ hu => absurd hu List.not_mem_nil
  have hr' := hr.without.eq_records.trans hrecords
  refine h.closed (h.orderly.aborted htx) ?_ ?_ hothers hown hundo'
  · rw [hstore]
    exact named_rollback (hr' ▸ hr.maintained.keyed) (hr' ▸ hr.names) h.named
  · rw [hstore, rollback_eq, allocator_rollbackIn]
    exact h.counter

/-! ### Runs -/

theorem clear_of_unknown (h : e.transactions.get? t = none) : e.Clear e' s t := by
  refine ⟨fun x _ z hz => ?_, fun name hname => ?_⟩
  · rw [touchedIn, readIn_unknown h] at hz
    cases hz
  · rw [rootNamesIn, readIn_unknown h] at hname
    cases hname

theorem Interleaved.refused (h : Interleaved commits D H e) (hclient : op.client? = some s)
    (hopen : e.isOpen s = false) : Interleaved commits D H (op.run e).2 := by
  rcases Op.run_closed hclient hopen with hsame | ⟨seeds, solved, rfl⟩ | ⟨always, label, rfl⟩
  · rw [hsame]
    exact h
  · obtain ⟨report, hrun⟩ := perform_propagate (h.maintained.settled h.lawful)
    rw [Op.run, Action.effect, hrun]
    exact h
  · refine h.aside (h.orderly.run _) store_onTransaction ?_
      fun t => Or.inl (get?_addHook_of_closed hopen)
    rw [Op.run, addHook, onTransaction_fields.1]

theorem Interleaved.popUndo (h : Interleaved commits D H e) :
    Interleaved commits D H e.popUndo.2 := by
  have ho : e.popUndo.2.Orderly := h.orderly.run .popUndo
  rw [Engine.popUndo, UndoLog.pop?] at ho ⊢
  cases hbatches : e.undo.batches with
  | nil => exact h
  | cons batch rest =>
    rw [hbatches] at ho
    refine h.aside ho rfl ?_ fun _ => Or.inl rfl
    rw [hbatches]
    exact List.sublist_cons_self batch rest

/-- Every isolated operation keeps what holds while transactions overlap. -/
theorem Interleaved.run (h : Interleaved commits D H e) (hnext : e.store.allocator.next ≠ 0)
    (hoffer : ∀ term ∈ op.supplied, D.Offers e.store.graph term)
    (hisolated : op.Isolated commits e) (hlast : (op.run e).1 ≠ .error exhausted) :
    ∃ H', Interleaved commits D H' (op.run e).2 := by
  have ho := h.orderly.run op
  cases hclient : op.client? with
  | some s =>
    cases hopen : e.isOpen s with
    | true =>
      have hburied : H.Buries e.store.graph e.undo.batches := by
        have hnow := h.now.buried
        simp only [batchesAfter, List.flatMap_nil, List.append_nil] at hnow
        exact hnow
      obtain ⟨H', hout⟩ := outcome_run (h.sound hopen) hnext hburied hclient hoffer hlast
      refine ⟨H', h.acted hopen ho (acts_run h.orderly hclient hopen) hout fun t ht hc => ?_⟩
      cases htx : e.transactions.get? t with
      | none => exact clear_of_unknown htx
      | some tx => exact hisolated.clear s hclient t (Table.mem_keys.2 ⟨tx, htx⟩) ht hc
    | false => exact ⟨H, h.refused hclient hopen⟩
  | none =>
    cases op with
    | begin timeout => exact ⟨H, h.begun timeout⟩
    | commit t =>
      rw [Op.run]
      rcases commit_cases e t with ⟨-, hrun⟩ | ⟨tx, htx, hopen, hrun⟩ <;> rw [hrun]
      · exact ⟨H, h⟩
      · exact ⟨H, h.committed htx hopen⟩
    | abort t =>
      rw [Op.run]
      rcases abort_cases e t with ⟨-, hrun⟩ | ⟨tx, htx, hopen, hrun⟩ <;> rw [hrun]
      · exact ⟨H, h⟩
      · exact ⟨H, h.aborted htx hopen (hisolated.abort t rfl (isOpen_iff.2 ⟨tx, htx, hopen⟩))⟩
    | popUndo => exact ⟨H, h.popUndo⟩
    | listen | unlisten | takeNotices =>
      exact ⟨H, h.aside ho rfl (List.Sublist.refl _) fun _ => Or.inl rfl⟩
    | close => exact ⟨H, h.aside ho rfl (List.nil_sublist _) fun _ => Or.inl rfl⟩
    | _ => cases hclient

theorem interleaved_create {config : Config} (h : create config .absent = .ok e) :
    Interleaved commits D (fun _ => none) e ∧ e.store.allocator.next ≠ 0 := by
  obtain ⟨hsession, hnext⟩ := session_create (D := D) h
  obtain ⟨-, hundo, -, htransactions⟩ := create_fields h
  have hnone (t : TransactionId) : e.transactions.get? t = none := by
    rw [htransactions]
    rfl
  refine ⟨⟨orderly_create h, hsession.lawful, hsession.named, hsession.counter,
    fun t t' x _ _ _ hx => ?_, fun ts us _ _ _ => ?_⟩, hnext⟩
  · rw [touchedIn, readIn_unknown (hnone t)] at hx
    cases hx
  · have hreverts {α : Type} {prior : TransactionId → StatementId → Option (Option α)}
        {now : StatementId → Option α} (hp : ∀ t x, prior t x = none) : Reverts ts prior now now :=
      ⟨fun t _ x kept hx => absurd (hp t x) (by rw [hx]; exact Option.some_ne_none kept),
        fun _ _ => rfl⟩
    refine ⟨e.store.records, ⟨hreverts fun t x => ?_, hreverts fun t x => ?_⟩,
      hsession.maintained.records, hsession.named.unique, ?_⟩
    · exact readIn_unknown (hnone t)
    · exact readIn_unknown (hnone t)
    · have hempty : e.batchesAfter ts us = [] := by
        simp [batchesAfter, poppedIn, deletionsIn, readIn, hundo, hnone]
      rw [hempty]
      exact Graph.buries_nil

end Engine

/-- Isolated runs reach only engines in which transactions can still be taken back. -/
theorem Reached.interleaved_of {D : Discipline} {permits : Engine → Op → Prop}
    {commits : TransactionId → Prop} {e : Engine}
    (hpermits : ∀ e op, permits e op →
      (∀ term ∈ op.supplied, D.Offers e.store.graph term) ∧ op.Isolated commits e)
    (h : Reached permits e) :
    (∃ H, Engine.Interleaved commits D H e) ∧ e.store.allocator.next ≠ 0 := by
  induction h with
  | start h =>
    obtain ⟨hinterleaved, hnext⟩ := Engine.interleaved_create h
    exact ⟨⟨_, hinterleaved⟩, hnext⟩
  | step _ hop hlasting ih =>
    obtain ⟨⟨H, hinterleaved⟩, hnext⟩ := ih
    obtain ⟨hoffer, hisolated⟩ := hpermits _ _ hop
    exact ⟨hinterleaved.run hnext hoffer hisolated hlasting.1, hlasting.2⟩

theorem Reached.interleaved {commits : TransactionId → Prop} {e : Engine}
    (h : Reached (fun e op => op.Faithful e ∧ op.Isolated commits e) e) :
    (∃ H, Engine.Interleaved commits .exact H e) ∧ e.store.allocator.next ≠ 0 :=
  h.interleaved_of fun _ _ hop => ⟨hop.1.offers, hop.2⟩

/-- Transactions that overlap but are isolated leave a forest, distinct names and right flags. -/
theorem Reached.interleaved_structured {commits : TransactionId → Prop} {e : Engine}
    (h : Reached (fun e op => op.Faithful e ∧ op.Isolated commits e) e) :
    e.store.Structured ∧
      (∀ x y key, e.store.scopedName x = some key → e.store.scopedName y = some key → x = y) ∧
      e.store.inconsistent = [] := by
  obtain ⟨⟨H, hinterleaved⟩, -⟩ := h.interleaved
  have hm := hinterleaved.maintained
  exact ⟨hm.structured hinterleaved.lawful, hinterleaved.named.unique,
    (hm.settled hinterleaved.lawful).inconsistent_eq_nil⟩

/-- Two transactions at a time in two roots; the second one is aborted. -/
def sideBySide : List Op :=
  [.begin none, .createRoot ⟨1⟩ (.atom "A"), .createRoot ⟨1⟩ (.atom "B"),
    .identify ⟨1⟩ (.after 1) ⟨"z", rfl⟩ false, .commit ⟨1⟩, .begin none, .begin none,
    .removeRoot ⟨3⟩ (.after 1), .openNested ⟨2⟩ (.after 0) (.atom "C"),
    .identify ⟨2⟩ (.after 0) ⟨"y", rfl⟩ false, .commit ⟨2⟩, .abort ⟨3⟩]

theorem reached_sideBySide :
    Reached (fun e op => op.Faithful e ∧ op.Isolated (fun t => t ≠ ⟨3⟩) e)
      (Op.runAll (.inMemory {}) sideBySide) :=
  reached_of_succeed (by decide +kernel)

/-- The root is back with its name, and what the other transaction did is there. -/
theorem sideBySide_structured :
    let s := (Op.runAll (.inMemory {}) sideBySide).store
    (s.ids.map StatementId.raw = [1, 2, 3] ∧ s.nameOf (.after 0) = some ⟨"y", rfl⟩ ∧
        s.nameOf (.after 1) = some ⟨"z", rfl⟩) ∧
      s.Structured ∧
      (∀ x y key, s.scopedName x = some key → s.scopedName y = some key → x = y) ∧
      s.inconsistent = [] :=
  ⟨by decide +kernel, reached_sideBySide.interleaved_structured⟩

/-- A root is aborted after another transaction has committed a declaration in it. -/
def rootAborted : List Op :=
  [.begin none, .createRoot ⟨1⟩ (.atom "A"), .begin none, .declare ⟨2⟩ (.after 0) (.atom "B"),
    .commit ⟨2⟩, .abort ⟨1⟩]

/-- A name is taken away and given to another root, and the taking is aborted. -/
def nameTaken : List Op :=
  [.begin none, .createRoot ⟨1⟩ (.atom "A"), .createRoot ⟨1⟩ (.atom "B"),
    .identify ⟨1⟩ (.after 0) ⟨"z", rfl⟩ false, .commit ⟨1⟩, .begin none, .begin none,
    .unidentify ⟨2⟩ (.after 0) false, .identify ⟨3⟩ (.after 1) ⟨"z", rfl⟩ false, .commit ⟨3⟩,
    .abort ⟨2⟩]

def untruthful : List Op :=
  [.begin none,
    .createRoot ⟨1⟩ (.function ⟨9⟩ (.function ⟨7⟩ (.atom "A") (.param ⟨7⟩ (.atom "A")))
      (.atom "B")),
    .declare ⟨1⟩ (.after 0) (.var (.after 1)
      (.function ⟨7⟩ (.atom "A") (.param ⟨7⟩ (.var (.after 4) (.atom "A"))))),
    .commit ⟨1⟩]

/-- Without isolation, a statement can lose its owner, and two roots can get the same name. -/
theorem unisolated_ill_formed :
    (((Op.runAll (.inMemory {}) rootAborted).store.get? (.after 1)).map Statement.owner =
        some (some (.after 0)) ∧
      (Op.runAll (.inMemory {}) rootAborted).store.contains (.after 0) = false) ∧
    ((Op.runAll (.inMemory {}) nameTaken).store.scopedName (.after 0) = some (none, ⟨"z", rfl⟩) ∧
      (Op.runAll (.inMemory {}) nameTaken).store.scopedName (.after 1) =
        some (none, ⟨"z", rfl⟩)) ∧
    ((Op.runAll (.inMemory {}) untruthful).store.get? (.after 2)).any
        (fun st => decide (.after 4 ∈ st.dependencies)) = true ∧
      (Op.runAll (.inMemory {}) untruthful).store.contains (.after 4) = false := by
  decide +kernel

end StatementGraph
