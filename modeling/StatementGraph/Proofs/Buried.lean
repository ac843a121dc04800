import Mathlib.Data.List.Flatten
import Mathlib.Data.List.Perm.Subperm
import StatementGraph.Proofs.History
import StatementGraph.UndoLog

namespace StatementGraph

def Deleted.ids (d : Deleted) : List StatementId := d.statement.id :: d.statement.assumptions

namespace Graph

/-- The batches hold statements of the history that are not live, none of them twice. -/
structure Buries (H G : Graph) (batches : List DeletionBatch) : Prop where
  content : ∀ d ∈ batches.flatten, H d.statement.id = some d.statement.content
  authority : ∀ d ∈ batches.flatten, ∀ a, d.authority = some a → a.statement = d.statement.id
  distinct : (batches.flatten.flatMap Deleted.ids).Nodup
  dead : ∀ x ∈ batches.flatten.flatMap Deleted.ids, G x = none

variable {H H' G G' : Graph} {D : Discipline} {batches batches' : List DeletionBatch}
  {batch : DeletionBatch} {d : Deleted} {x : StatementId}

theorem buries_nil : Buries H G [] :=
  ⟨fun _ hd => (by cases hd), fun _ hd => (by cases hd), List.nodup_nil,
    fun _ hx => (by cases hx)⟩

theorem Buries.subperm (h : Buries H G batches) (hp : batches'.flatten.Subperm batches.flatten) :
    Buries H G batches' := by
  obtain ⟨l, hl, hsub⟩ := hp
  have hmem (d : Deleted) (hd : d ∈ batches'.flatten) : d ∈ batches.flatten :=
    hsub.subset (hl.mem_iff.2 hd)
  have hids : (l.flatMap Deleted.ids).Perm (batches'.flatten.flatMap Deleted.ids) :=
    hl.flatMap_right _
  refine ⟨fun d hd => h.content d (hmem d hd), fun d hd => h.authority d (hmem d hd),
    hids.nodup (h.distinct.sublist (hsub.flatMap _)), fun x hx => h.dead x ?_⟩
  exact (hsub.flatMap _).subset (hids.mem_iff.2 hx)

theorem Buries.fewer (h : Buries H G batches) (hp : batches'.Subperm batches) :
    Buries H G batches' := by
  obtain ⟨l, hl, hsub⟩ := hp
  exact h.subperm ⟨l.flatten, hl.flatten, hsub.flatten⟩

theorem Buries.history (h : Buries H G batches) (hs : H.Sub H') : Buries H' G batches :=
  { h with content := fun d hd => hs _ _ (h.content d hd) }

theorem Buries.known (h : Buries H G batches) (hH : H.Lawful D)
    (hx : x ∈ batches.flatten.flatMap Deleted.ids) : ∃ c, H x = some c := by
  obtain ⟨d, hd, hx⟩ := List.mem_flatMap.1 hx
  have hc := h.content d hd
  rcases List.mem_cons.1 hx with rfl | hx
  · exact ⟨_, hc⟩
  · obtain ⟨ca, -, hca, -⟩ := hH.inside hc hx
    exact ⟨ca, hca⟩

theorem Buries.live (h : Buries H G batches) (hH : H.Lawful D)
    (hlive : ∀ x c, G' x = some c → G x = some c ∨ H x = none) : Buries H G' batches := by
  refine { h with dead := fun x hx => Option.eq_none_iff_forall_ne_some.2 fun c hc => ?_ }
  obtain ⟨c', hc'⟩ := h.known hH hx
  rcases hlive x c hc with hc | hnone
  · rw [h.dead x hx] at hc
    cases hc
  · rw [hnone] at hc'
    cases hc'

/-- A batch of statements that were live until now. -/
theorem Buries.add (h : Buries H G batches) (hb : Buries H G' [batch])
    (hlive : ∀ x c, G' x = some c → G x = some c)
    (hlost : ∀ x ∈ batch.flatMap Deleted.ids, ∃ c, G x = some c) :
    Buries H G' (batches ++ [batch]) := by
  have hflat : (batches ++ [batch]).flatten = batches.flatten ++ [batch].flatten :=
    List.flatten_append
  have hbatch : [batch].flatten = batch := List.flatten_singleton
  refine ⟨fun d hd => ?_, fun d hd => ?_, ?_, fun x hx => ?_⟩
  · rw [hflat, List.mem_append] at hd
    exact hd.elim (h.content d) (hb.content d)
  · rw [hflat, List.mem_append] at hd
    exact hd.elim (h.authority d) (hb.authority d)
  · rw [hflat, List.flatMap_append, List.nodup_append]
    refine ⟨h.distinct, hb.distinct, fun x hx y hy hxy => ?_⟩
    subst hxy
    rw [hbatch] at hy
    obtain ⟨c, hc⟩ := hlost x hy
    rw [h.dead x hx] at hc
    cases hc
  · rw [hflat, List.flatMap_append, List.mem_append] at hx
    refine hx.elim (fun hx => Option.eq_none_iff_forall_ne_some.2 fun c hc => ?_) (hb.dead x)
    have hold := hlive x c hc
    rw [h.dead x hx] at hold
    cases hold

theorem Buries.push (h : Buries H G [batch]) (hc : H d.statement.id = some d.statement.content)
    (ha : ∀ a, d.authority = some a → a.statement = d.statement.id) (hd : d.ids.Nodup)
    (hlost : ∀ x ∈ d.ids, ∃ c, G x = some c) (hdead : ∀ x ∈ d.ids, G' x = none)
    (hlive : ∀ x c, G' x = some c → G x = some c) : Buries H G' [batch ++ [d]] := by
  have hone : Buries H G' [[d]] := by
    refine ⟨?_, ?_, ?_, ?_⟩ <;>
      simp only [List.flatten_singleton, List.mem_singleton, forall_eq, List.flatMap_singleton]
    exacts [hc, ha, hd, hdead]
  have hadd := h.add hone hlive (by simpa only [List.flatMap_singleton] using hlost)
  have hflat : [batch ++ [d]].flatten = ([batch] ++ [[d]]).flatten := by simp
  exact ⟨hflat ▸ hadd.content, hflat ▸ hadd.authority, hflat ▸ hadd.distinct, hflat ▸ hadd.dead⟩

theorem Buries.restore (h : Buries H G (batch :: batches))
    (hback : ∀ x c, G' x = some c → G x = some c ∨ x ∈ batch.flatMap Deleted.ids) :
    Buries H G' batches := by
  have hrest : Buries H G batches := h.fewer List.Subperm.cons_self
  have hdistinct := h.distinct
  rw [List.flatten_cons, List.flatMap_append, List.nodup_append] at hdistinct
  refine { hrest with dead := fun x hx => Option.eq_none_iff_forall_ne_some.2 fun c hc => ?_ }
  rcases hback x c hc with hc | hin
  · cases (hrest.dead x hx).symm.trans hc
  · exact hdistinct.2.2 x hin x hx rfl

theorem Buries.pop (h : Buries H G ((d :: batch) :: batches))
    (hback : ∀ x c, G' x = some c → G x = some c ∨ x ∈ d.ids) : Buries H G' (batch :: batches) := by
  have hsplit : Buries H G ([d] :: batch :: batches) := h.subperm (.refl _)
  apply hsplit.restore
  rw [List.flatMap_singleton]
  exact hback

end Graph

end StatementGraph
