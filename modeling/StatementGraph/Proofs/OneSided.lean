import StatementGraph.Proofs.Signatures

namespace StatementGraph

/-- The operation makes statements or brings them back. -/
def Op.adds : Op → Bool
  | undelete _ => true
  | op => op.makes

theorem Op.plain_of_removes {op : Op} {e : Engine} (h : op.removes = true) :
    op.Sequential e ∧ op.supplied = [] := by
  cases op with
  | removeStatements | removeRoot | removeCascade => exact ⟨trivial, rfl⟩
  | _ => cases h

/-- An addition or a removal changes something only in a transaction that is open. -/
theorem Op.run_cases {op : Op} (e : Engine) (h : op.adds = true ∨ op.removes = true) :
    (op.run e).2 = e ∨ ∃ t, op.client? = some t ∧ e.isOpen t = true := by
  cases hclient : op.client? with
  | none =>
    cases op with
    | begin | commit | abort | listen | unlisten | takeNotices | popUndo | close =>
      rcases h with h | h <;> cases h
    | _ => cases hclient
  | some t =>
    cases hopen : e.isOpen t with
    | true => exact Or.inr ⟨t, rfl, hopen⟩
    | false =>
      rcases Op.run_closed hclient hopen with hsame | ⟨seeds, solved, rfl⟩ | ⟨always, label, rfl⟩
      · exact Or.inl hsame
      · rcases h with h | h <;> cases h
      · rcases h with h | h <;> cases h

/-- The same statement, which has its flag if the other one has. -/
structure Statement.Below (st st' : Statement) : Prop where
  same : st' = { st with proved := st'.proved }
  proved : st.proved = true → st'.proved = true

namespace Store

variable {s s' : Store}

/-- All statements of a store are in another one, where they may have flags that were missing. -/
def Under (s s' : Store) : Prop := ∀ x st, s.get? x = some st →
  ∃ st', s'.get? x = some st' ∧ st.Below st'

theorem Under.refl (s : Store) : s.Under s := fun _ st hst => ⟨st, hst, rfl, id⟩

theorem under_of_sub (hi : s.Indexed) (hi' : s'.Indexed) (hsub : s.graph.Sub s'.graph)
    (hnames : ∀ x c, s.graph x = some c → s'.nameOf x = s.nameOf x)
    (hproved : ∀ x, s.Proved x → s'.Proved x) : s.Under s' := by
  intro x st hst
  obtain ⟨st', hst', hcontent⟩ := graph_eq_some.1 (hsub x st.content (graph_of_get? hst))
  have hid : st'.id = st.id := (hi'.keyed x st' hst').trans (hi.keyed x st hst).symm
  have hname : st'.identifier = st.identifier := by
    have hname := hnames x st.content (graph_of_get? hst)
    rw [nameOf, nameOf, hst, hst'] at hname
    exact hname
  refine ⟨st', hst', ?_, fun hflag => ?_⟩
  · obtain ⟨id', owner', term', proved', dependencies', identifier', kind'⟩ := st'
    cases hid
    cases hname
    cases hcontent
    rfl
  · exact (proved_of_get? hst').1 (hproved x ((proved_of_get? hst).2 hflag))

end Store

namespace Engine

open Store

variable {t : TransactionId} {e e' : Engine} {l : Ledger} {op : Op}

theorem Enlarged.under {S : Engine} (h : Enlarged t S e) (hi : S.store.Indexed)
    (hlive : ∀ x c, S.store.graph x = some c → S.store.allocator.Past x)
    (hgrounded : S.store.Grounded) : S.store.Under e.store :=
  under_of_sub hi h.orderly.filed.indexed h.grown (fun x c hx => h.names x (hlive x c hx))
    (h.raises.proved hgrounded)

theorem Revives.under {batch : DeletionBatch} {report : RestoreReport}
    (h : Revives t batch e report e') (hi : e.store.Indexed) (hi' : e'.store.Indexed)
    (hdead : ∀ d ∈ batch, ∀ x ∈ d.ids, e.store.graph x = none) (hgrounded : e.store.Grounded) :
    e.store.Under e'.store := by
  refine under_of_sub hi hi' h.grown (fun x c hx => ?_) (h.raises.proved hgrounded)
  apply h.names
  intro d hd hmem
  cases hx.symm.trans (hdead d hd x hmem)

theorem under_adds (ho : e.Orderly) (hnext : e.store.allocator.next ≠ 0)
    (hgrounded : e.store.Grounded) (hl : Vouched l t e) (hclient : op.client? = some t)
    (hadds : op.adds = true) (hlast : (op.run e).1 ≠ .error exhausted) :
    e.store.Under (op.run e).2.store := by
  have hi := ho.filed.indexed
  have hmakes (h : op.makes = true) : e.store.Under (op.run e).2.store :=
    ((Enlarged.start ho hl.past hl.paired).run hclient h hlast).under hi hl.past hgrounded
  have hi' : (op.run e).2.store.Indexed := (ho.run op).filed.indexed
  cases op with
  | undelete =>
    cases hclient
    change e.store.Under ((undelete t).perform e).2.store
    change ((undelete t).perform e).2.store.Indexed at hi'
    rcases hl.undelete ho hnext with
      ⟨f, hrun⟩ | ⟨batch, rest, report, e₁, hbatches, hrun, hrevives⟩
    · rw [hrun]
      exact .refl _
    · rw [hrun, store_onTransaction] at hi' ⊢
      refine hrevives.under hi hi' (fun d hd x hx => (hl.dormant d ?_).dead x hx) hgrounded
      rw [hbatches, List.cons_append, List.flatten_cons]
      exact List.mem_append_left _ hd
  | _ => exact hmakes hadds

theorem Evicts.left (h : Evicts t e e') : e'.store.graph.Sub e.store.graph ∧
    ∀ x c, e'.store.graph x = some c → e.store.nameOf x = e'.store.nameOf x := by
  cases h with
  | refused h =>
    rw [h.store]
    exact ⟨.refl _, fun _ _ _ => rfl⟩
  | @done S e₁ r hlocks ho h he hr =>
    rw [store_onTransaction, ← hlocks.store, hr.graph]
    refine ⟨fun x c hx => ?_, fun x c hx => ?_⟩ <;>
    obtain ⟨st, hst, rfl⟩ := graph_eq_some.1 hx
    · exact graph_of_get? (h.strips.left x st hst).1
    · rw [hr.names, nameOf, nameOf, (h.strips.left x st hst).1, hst]

end Engine

namespace Reached

open Engine Store

variable {permits : Engine → Op → Prop} {e : Engine} {op : Op}

theorem attested (h : Reached permits e) (hseq : ∀ e op, permits e op → op.Sequential e) :
    ∃ n, Attested n e := by
  induction h with
  | start h => exact ⟨{}, attested_create h⟩
  | @step e op _ hpermits hlasting ih =>
    obtain ⟨n, hn⟩ := ih
    exact ⟨n.after e op, hn.run (hseq e op hpermits) hlasting⟩

/-- Adding statements only sets flags of the others, and removing only takes flags back. -/
theorem flags_oneSided (h : Reached (fun e op => op.Sequential e ∧ op.Faithful e) e)
    (hok : (op.run e).1 = .ok ()) :
    (op.adds = true → e.store.Under (op.run e).2.store) ∧
      (op.removes = true → (op.run e).2.store.Under e.store) := by
  obtain ⟨⟨H, hsession⟩, hnext⟩ :=
    h.session_counter (fun _ _ hop => hop.1) (fun _ _ hop => hop.2.offers)
  obtain ⟨n, hn⟩ := h.attested fun _ _ hop => hop.1
  have ho := hn.serial.orderly
  have hsettled := hsession.maintained.settled hsession.lawful
  have hlast : (op.run e).1 ≠ .error exhausted := fun hfail => by cases hok.symm.trans hfail
  refine ⟨fun hadds => ?_, fun hremoves => ?_⟩
  · rcases Op.run_cases e (Or.inl hadds) with hsame | ⟨t, hclient, hopen⟩
    · rw [hsame]
      exact .refl _
    · exact under_adds ho hnext hsettled.grounded (hn.busy t hopen) hclient hadds hlast
  · rcases Op.run_cases e (Or.inr hremoves) with hsame | ⟨t, hclient, hopen⟩
    · rw [hsame]
      exact .refl _
    · -- a removal is given no terms, so flags are settled again: from less, less is derivable
      obtain ⟨hseq, hplain⟩ := Op.plain_of_removes hremoves
      obtain ⟨-, H', hsession'⟩ :=
        hsession.step hnext hseq (hplain ▸ fun _ hterm => by cases hterm) hlast
      have hsettled' := hsession'.maintained.settled hsession'.lawful
      obtain ⟨hsub, hnames⟩ := (evicts_run ho (hn.busy t hopen).paired hclient hremoves).left
      refine under_of_sub hsettled'.indexed ho.filed.indexed hsub hnames fun x hx => ?_
      exact hsettled.proved_iff.2 ((hsettled'.proved_iff.1 hx).mono hsub)

end Reached

/-- A context that asks for `A`, with a ring of consequences by which it would solve itself. -/
def idleRing : List Op :=
  [.begin none,
    .createRoot ⟨1⟩ (.function ⟨0⟩ (.atom "X")
      (.function ⟨1⟩ (.function ⟨2⟩ (.atom "X") (.atom "A"))
        (.function ⟨3⟩ (.function ⟨4⟩ (.atom "A") (.atom "B"))
          (.function ⟨5⟩ (.function ⟨6⟩ (.atom "B") (.atom "A")) (.atom "Z"))))),
    .openNested ⟨1⟩ (.after 0) (.atom "A"),
    .declare ⟨1⟩ (.after 0) (.apply (.var (.after 3) (.function ⟨4⟩ (.atom "A") (.atom "B")))
      (.var (.after 5) (.atom "A"))),
    .declare ⟨1⟩ (.after 0) (.apply (.var (.after 4) (.function ⟨6⟩ (.atom "B") (.atom "A")))
      (.var (.after 6) (.atom "B")))]

def ringProof : Op := .declare ⟨1⟩ (.after 0)
  (.apply (.var (.after 2) (.function ⟨2⟩ (.atom "X") (.atom "A"))) (.var (.after 1) (.atom "X")))

theorem reached_idleRing : Reached (fun e op => op.Sequential e ∧ op.Faithful e)
    (Op.runAll (.inMemory {}) idleRing) :=
  reached_of_succeed (by decide +kernel)

/-- The ring is proved by an addition and unproved again by its removal. -/
theorem idleRing_oneSided :
    let e := Op.runAll (.inMemory {}) idleRing
    let e' := (ringProof.run e).2
    let e'' := (Op.run e' (.removeStatements ⟨1⟩ (.after 0) [.after 8])).2
    (∀ x ∈ [StatementId.after 5, .after 6, .after 7],
      e.store.isProved x = false ∧ e'.store.isProved x = true ∧ e''.store.isProved x = false) ∧
      e.store.Under e'.store ∧ e''.store.Under e'.store := by
  have hadded := reached_idleRing.runAll [ringProof] (by decide +kernel)
  have hok : (ringProof.run (Op.runAll (.inMemory {}) idleRing)).1 = .ok () := by decide +kernel
  have hok' : (Op.run (Op.runAll (Op.runAll (.inMemory {}) idleRing) [ringProof])
      (.removeStatements ⟨1⟩ (.after 0) [.after 8])).1 = .ok () := by decide +kernel
  exact ⟨by decide +kernel, (reached_idleRing.flags_oneSided hok).1 rfl,
    (hadded.flags_oneSided hok').2 rfl⟩

end StatementGraph
