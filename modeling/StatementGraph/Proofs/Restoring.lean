import StatementGraph.Proofs.Buried
import StatementGraph.Proofs.Rebuilding

namespace StatementGraph

theorem RestoreReport.breakdown?_eq_none {r : RestoreReport} :
    r.breakdown? = none ↔ ∀ entry ∈ r.failed, entry.2.breakdown? = none :=
  List.findSome?_eq_none_iff

namespace Engine

open Store

variable {D : Discipline} {t : TransactionId} {H : Graph} {e e' : Engine} {x : StatementId}

section Undelete

variable {batch : DeletionBatch} {rest : List DeletionBatch}

theorem perform_undelete_nil (hopen : e.isOpen t = true) (hbatches : e.undo.batches = []) :
    (undelete t).perform e = (.error (.undelete .nothingToUndelete), e) := by
  rw [undelete, perform_bind, perform_ensureOpen hopen]
  dsimp only
  rw [perform_get_bind, UndoLog.pop?, hbatches]
  rfl

theorem perform_undelete_cons (hopen : e.isOpen t = true)
    (hbatches : e.undo.batches = batch :: rest) :
    (undelete t).perform e =
      let rebuilt := batch.reverse.foldl (rebuildNext t)
        ({}, { e with undo := { e.undo with batches := rest } })
      let out := batch.reverse.foldl (restoreTrappings t) rebuilt
      match rebuilt.1.breakdown? with
      | some cause => (.error (.breakdown cause), e)
      | none => (.ok out.1, out.2.onTransaction t (·.addPopped batch)) := by
  have hpop : e.undo.pop? = some (batch, { e.undo with batches := rest }) := by
    rw [UndoLog.pop?, hbatches]
  rw [undelete, perform_bind, perform_ensureOpen hopen]
  dsimp only
  rw [perform_get_bind, hpop]
  dsimp only
  generalize batch.reverse.foldl (rebuildNext t)
    ({}, { e with undo := { e.undo with batches := rest } }) = rebuilt
  cases rebuilt.1.breakdown? with
  | some cause => rfl
  | none => rfl

theorem perform_undelete (hopen : e.isOpen t = true) (hbatches : e.undo.batches = batch :: rest)
    (hcalm : (batch.reverse.foldl (rebuildNext t)
      ({}, { e with undo := { e.undo with batches := rest } })).1.breakdown? = none) :
    (undelete t).perform e =
      let rebuilt := batch.reverse.foldl (rebuildNext t)
        ({}, { e with undo := { e.undo with batches := rest } })
      let out := batch.reverse.foldl (restoreTrappings t) rebuilt
      (.ok out.1, out.2.onTransaction t (·.addPopped batch)) := by
  rw [perform_undelete_cons hopen hbatches]
  dsimp only
  rw [hcalm]

theorem undelete_outcome (t : TransactionId) (e : Engine) :
    (∃ f, (undelete t).perform e = (.error f, e)) ∨
      e.isOpen t = true ∧ ∃ batch rest, e.undo.batches = batch :: rest ∧
        (undelete t).perform e =
          let rebuilt := batch.reverse.foldl (rebuildNext t)
            ({}, { e with undo := { e.undo with batches := rest } })
          let out := batch.reverse.foldl (restoreTrappings t) rebuilt
          (.ok out.1, out.2.onTransaction t (·.addPopped batch)) := by
  cases hopen : e.isOpen t with
  | false =>
    refine Or.inl ⟨closedFailure t, ?_⟩
    rw [undelete, ensureOpen, bind_assoc, perform_get_bind, hopen]
    rfl
  | true =>
    cases hbatches : e.undo.batches with
    | nil => exact Or.inl ⟨_, perform_undelete_nil hopen hbatches⟩
    | cons batch rest =>
      cases hcalm : (batch.reverse.foldl (rebuildNext t)
          ({}, { e with undo := { e.undo with batches := rest } })).1.breakdown? with
      | none => exact Or.inr ⟨rfl, batch, rest, rfl, perform_undelete hopen hbatches hcalm⟩
      | some cause =>
        refine Or.inl ⟨.breakdown cause, ?_⟩
        rw [perform_undelete_cons hopen hbatches]
        dsimp only
        rw [hcalm]

end Undelete

/-- The part of a restoration that rebuilds the statements, one after the other. -/
theorem restored_rebuildAll {batches : List DeletionBatch} (l : DeletionBatch)
    (report : RestoreReport) (hs : Sound D t H e) (hc : e.store.allocator.next ≠ 0)
    (hburied : H.Buries e.store.graph (l :: batches))
    (hlive : ∀ x ∈ report.restored, ∃ c, e.store.graph x = some c)
    (hcalm : report.breakdown? = none) :
    Restored D t H (l.flatMap Deleted.ids) e (l.foldl (rebuildNext t) (report, e)).2 ∧
      (∀ x ∈ (l.foldl (rebuildNext t) (report, e)).1.restored,
        ∃ c, (l.foldl (rebuildNext t) (report, e)).2.store.graph x = some c) ∧
      (l.foldl (rebuildNext t) (report, e)).1.breakdown? = none := by
  induction l generalizing report e with
  | nil => exact ⟨.refl hs hc _, hlive, hcalm⟩
  | cons d rest ih =>
    have hmem : d ∈ ((d :: rest) :: batches).flatten := List.mem_cons_self
    have hrebuilds := rebuilds_rebuildDeleted (t := t) hs hc (hburied.content d hmem)
      fun y hy => hburied.dead y (List.mem_flatMap.2 ⟨d, hmem, hy⟩)
    rw [List.foldl_cons, rebuildNext]
    cases hrun : (rebuildDeleted t d.statement).perform e with
    | mk r e' =>
      obtain ⟨hone, -, hback, -, hanswered⟩ := hrebuilds r e' hrun
      have hstill (x : StatementId) (hx : x ∈ report.restored) :
          ∃ c, e'.store.graph x = some c := by
        obtain ⟨c, hc⟩ := hlive x hx
        exact ⟨c, hone.kept x c hc⟩
      -- a statement that cannot be rebuilt leaves the batches below it as they are, too
      cases r with
      | ok _ =>
        obtain ⟨hrest, h⟩ := ih { report with restored := report.restored ++ [d.statement.id] }
          hone.sound hone.counter (hburied.pop hone.back) (fun x hx => by
            rcases List.mem_append.1 hx with hx | hx
            · exact hstill x hx
            · rw [List.mem_singleton.1 hx]
              exact hback rfl) hcalm
        exact ⟨hone.trans hrest, h⟩
      | error f =>
        obtain ⟨hrest, h⟩ := ih { report with failed := report.failed ++ [(d.statement.id, f)] }
          hone.sound hone.counter (hburied.pop hone.back) hstill (by
            refine RestoreReport.breakdown?_eq_none.2 fun entry hentry => ?_
            rcases List.mem_append.1 hentry with hentry | hentry
            · exact RestoreReport.breakdown?_eq_none.1 hcalm entry hentry
            · rw [List.mem_singleton.1 hentry]
              exact hanswered f rfl)
        exact ⟨hone.trans hrest, h⟩

theorem restored_restoreName {name : Identifier} (hs : Sound D t H e)
    (hc : e.store.allocator.next ≠ 0) : Restored D t H [] e (e.restoreName t x name).2 := by
  rw [restoreName]
  split
  case h_1 => exact .refl hs hc []
  case h_2 st hst =>
    split
    case isTrue => exact .refl hs hc []
    case isFalse hfree =>
      obtain ⟨hs', hg⟩ := sound_put_name (t := t) (some name) hs hst fun hn =>
        hn.write_named rfl fun y hy => absurd (hy ▸ rfl) hfree
      exact restored_of_grown hs' hg (by rw [store_put]; exact hc)

theorem restored_restoreNames (l : List Statement) (report : RestoreReport) (hs : Sound D t H e)
    (hc : e.store.allocator.next ≠ 0) :
    Restored D t H [] e (l.foldl (restoreNextName t) (report, e)).2 ∧
      (l.foldl (restoreNextName t) (report, e)).1.restored = report.restored := by
  induction l generalizing report e with
  | nil => exact ⟨.refl hs hc [], rfl⟩
  | cons st rest ih =>
    rw [List.foldl_cons, restoreNextName]
    split
    case h_1 => exact ih report hs hc
    case h_2 name hname =>
      have hone : Restored D t H [] e (e.restoreName t st.id name).2 := restored_restoreName hs hc
      dsimp only
      split
      case isTrue =>
        obtain ⟨hrest, h⟩ := ih report hone.sound hone.counter
        exact ⟨hone.trans hrest, h⟩
      case isFalse =>
        obtain ⟨hrest, h⟩ := ih { report with unnamed := report.unnamed ++ [(st.id, name)] }
          hone.sound hone.counter
        exact ⟨hone.trans hrest, h⟩

/-- The part of a restoration that brings names and authorities back. -/
theorem restored_restoreAll (l : DeletionBatch) (report : RestoreReport) (hs : Sound D t H e)
    (hc : e.store.allocator.next ≠ 0)
    (hlive : ∀ x ∈ report.restored, ∃ c, e.store.graph x = some c)
    (hauthority : ∀ d ∈ l, ∀ a, d.authority = some a → a.statement = d.statement.id) :
    Restored D t H [] e (l.foldl (restoreTrappings t) (report, e)).2 := by
  induction l generalizing report e with
  | nil => exact .refl hs hc []
  | cons d rest ih =>
    have hauthority' := fun d' hd => hauthority d' (List.mem_cons_of_mem _ hd)
    rw [List.foldl_cons, restoreTrappings]
    split
    case isFalse => exact ih report hs hc hlive hauthority'
    case isTrue hrestored =>
      obtain ⟨hnames, hsame⟩ :=
        restored_restoreNames (t := t) (d.statement :: d.assumptions) report hs hc
      generalize (d.statement :: d.assumptions).foldl (restoreNextName t) (report, e) = state
        at hnames hsame
      obtain ⟨report', e'⟩ := state
      have hlive' (x : StatementId) (hx : x ∈ report'.restored) :
          ∃ c, e'.store.graph x = some c := by
        obtain ⟨c, hc⟩ := hlive x (hsame ▸ hx)
        exact ⟨c, hnames.kept x c hc⟩
      dsimp only
      split
      case h_2 => exact hnames.trans (ih report' hnames.sound hnames.counter hlive' hauthority')
      case h_1 a ha =>
        -- an authority comes back only for a statement that did
        have hid := hauthority d List.mem_cons_self a ha
        obtain ⟨hs', hg⟩ := sound_setAuthority (t := t) (x := a.statement) (a := some a)
          hnames.sound fun b hb => by
            cases hb
            exact ⟨rfl, hid ▸ hlive' _ (hsame ▸ hrestored)⟩
        obtain ⟨hs'', hg'⟩ := sound_notify (.authorityCreated a) hs'
        have hback := restored_of_grown hs'' (hg.trans hg')
          (by rw [store_notify, store_setAuthority]; exact hnames.counter)
        refine (hnames.trans hback).trans (ih report' hback.sound hback.counter (fun x hx => ?_)
          hauthority')
        obtain ⟨c, hc⟩ := hlive' x hx
        exact ⟨c, hback.kept x c hc⟩

theorem undelete_restored {r : Except Failure RestoreReport} (hs : Sound D t H e)
    (hc : e.store.allocator.next ≠ 0) (hburied : H.Buries e.store.graph e.undo.batches)
    (hrun : (undelete t).perform e = (r, e')) :
    (r = .error (.undelete .nothingToUndelete) ∧ e.undo.batches = [] ∧ e' = e) ∨
      ∃ report batch rest e₁, r = .ok report ∧ e.undo.batches = batch :: rest ∧
        Restored D t H (batch.flatMap Deleted.ids)
          { e with undo := { e.undo with batches := rest } } e₁ ∧
        e' = e₁.onTransaction t (·.addPopped batch) := by
  cases hbatches : e.undo.batches with
  | nil =>
    rw [perform_undelete_nil hs.isOpen hbatches] at hrun
    cases hrun
    exact Or.inl ⟨rfl, rfl, rfl⟩
  | cons batch rest =>
    have hs' : Sound D t H { e with undo := { e.undo with batches := rest } } :=
      ⟨hs.lawful, hs.maintained, hs.counter, hs.isOpen⟩
    -- the statements come back in the opposite order of their removal
    have hkept : H.Buries e.store.graph (batch.reverse :: rest) := by
      refine hburied.subperm (List.Perm.subperm ?_)
      rw [hbatches, List.flatten_cons, List.flatten_cons]
      exact batch.reverse_perm.append_right _
    obtain ⟨hrebuilt, hlive, hcalm⟩ := restored_rebuildAll (t := t) batch.reverse {} hs' hc hkept
      (fun x hx => by cases hx) rfl
    rw [perform_undelete hs.isOpen hbatches hcalm] at hrun
    cases hrun
    have hback := restored_restoreAll (t := t) batch.reverse
      (batch.reverse.foldl (rebuildNext t)
        ({}, { e with undo := { e.undo with batches := rest } })).1
      hrebuilt.sound hrebuilt.counter hlive
      fun d hd => hkept.authority d (List.mem_append_left _ hd)
    refine Or.inr ⟨_, batch, rest, _, rfl, rfl, (hrebuilt.trans hback).mono fun x hx => ?_, rfl⟩
    rw [List.append_nil] at hx
    exact (batch.reverse_perm.flatMap_right _).mem_iff.1 hx

/-- A restoration keeps the engine sound, and the other batches can still be restored. -/
theorem undelete_cases {r : Except Failure RestoreReport} {batches : List DeletionBatch}
    (hs : Sound D t H e) (hc : e.store.allocator.next ≠ 0)
    (hburied : H.Buries e.store.graph (e.undo.batches ++ batches))
    (hrun : (undelete t).perform e = (r, e')) :
    (r = .error (.undelete .nothingToUndelete) ∧ e.undo.batches = [] ∧ e' = e) ∨
      ∃ report batch rest e₁, r = .ok report ∧ e.undo.batches = batch :: rest ∧ Sound D t H e₁ ∧
        e₁.store.allocator.next ≠ 0 ∧
        Evolves t { e with undo := { e.undo with batches := rest } } e₁ ∧
        H.Buries e₁.store.graph (rest ++ batches) ∧
        e' = e₁.onTransaction t (·.addPopped batch) := by
  rcases undelete_restored hs hc (hburied.fewer (List.sublist_append_left _ _).subperm) hrun with
    hnone | ⟨report, batch, rest, e₁, hreport, hbatches, hrestored, he⟩
  · exact Or.inl hnone
  · refine Or.inr ⟨report, batch, rest, e₁, hreport, hbatches, hrestored.sound, hrestored.counter,
      hrestored.evolves, ?_, he⟩
    rw [hbatches] at hburied
    exact hburied.restore hrestored.back

end Engine

end StatementGraph
