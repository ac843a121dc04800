import Mathlib.Order.Defs.Unbundled
import StatementGraph.Proofs.Operation

namespace StatementGraph

namespace Engine

variable {R : Engine → Engine → Prop} {t : TransactionId} {e e' : Engine} {α β : Type}
  {m : Action α} {k : α → Action β}

/-- An action relates the engine it starts from and the one it ends in. -/
def Within (R : Engine → Engine → Prop) (e : Engine) (m : Action α) : Prop := R e (m.perform e).2

theorem within_get_bind {k : Engine → Action β} (h : Within R e (k e)) :
    Within R e (get >>= k) := h

theorem within_set (h : R e e') : Within R e (set e' : Action Unit) := h

theorem within_modify {f : Engine → Engine} (h : R e (f e)) :
    Within R e (modify f : Action Unit) := h

section Refl

variable [Std.Refl R]

theorem within_pure {a : α} : Within R e (pure a : Action α) := refl_of R e

theorem within_throw {f : Failure} : Within R e (throw f : Action α) := refl_of R e

theorem within_lift {y : Except Failure α} : Within R e (liftM y : Action α) := by
  cases y with
  | error f => exact within_throw
  | ok a => exact within_pure

theorem within_lift_bind {y : Except Failure α} (hk : ∀ a, y = .ok a → Within R e (k a)) :
    Within R e (liftM y >>= k) := by
  cases y with
  | error f => exact within_throw
  | ok a => exact hk a rfl

theorem within_await {run : Propagation} (h : R e run.engine) : Within R e (await run) := by
  rw [Within]
  rcases await_cases run e with hrun | hrun <;> rw [hrun]
  · exact h
  · exact refl_of R e

theorem within_reserve {x : StatementId}
    (h : ∀ a, R e { e with store := { e.store with allocator := a } }) :
    Within R e (reserve x) := by
  rw [Within]
  rcases reserve_cases x e with hrun | ⟨a, -, hrun⟩ <;> rw [hrun]
  · exact refl_of R e
  · exact h a

theorem within_ensureOpen : Within R e (ensureOpen t) := by
  apply within_get_bind
  split
  · exact within_pure
  · exact within_throw

end Refl

theorem within_bind [IsTrans Engine R] (h : Within R e m)
    (hk : ∀ a e', m.perform e = (.ok a, e') → Within R e' (k a)) : Within R e (m >>= k) := by
  rw [Within] at h ⊢
  rw [perform_bind]
  cases hm : m.perform e with
  | mk r e' =>
    rw [hm] at h
    cases r with
    | error f => exact h
    | ok a => exact trans_of R h (hk a e' hm)

theorem within_forM [IsPreorder Engine R] {l : List α} {f : α → Action Unit}
    (hf : ∀ a ∈ l, ∀ e, Within R e (f a)) : Within R e (l.forM f) := by
  induction l generalizing e with
  | nil => exact within_pure
  | cons a rest ih =>
    exact within_bind (hf a List.mem_cons_self e) fun _ e' _ =>
      ih fun b hb => hf b (List.mem_cons_of_mem _ hb)

theorem within_ensureOpen_bind [Std.Refl R] {k : Unit → Action β} (h : Within R e (k ())) :
    Within R e (ensureOpen t >>= k) := by
  cases hopen : e.isOpen t with
  | false =>
    rw [Within, perform_closed hopen]
    exact refl_of R e
  | true =>
    rw [Within, perform_bind, perform_ensureOpen hopen]
    exact h

theorem foldl_within [IsPreorder Engine R] {f : Engine → α → Engine} {l : List α}
    (hf : ∀ e, ∀ a ∈ l, R e (f e a)) : R e (l.foldl f e) := by
  induction l generalizing e with
  | nil => exact refl_of R e
  | cons a rest ih =>
    exact trans_of R (hf e a List.mem_cons_self)
      (ih fun e b hb => hf e b (List.mem_cons_of_mem _ hb))

theorem foldl_snd_within [IsPreorder Engine R] {f : β × Engine → α → β × Engine} {l : List α}
    (hf : ∀ state, ∀ a ∈ l, R state.2 (f state a).2) (state : β × Engine) :
    R state.2 (l.foldl f state).2 := by
  induction l generalizing state with
  | nil => exact refl_of R state.2
  | cons a rest ih =>
    exact trans_of R (hf state a List.mem_cons_self)
      (ih (fun state b hb => hf state b (List.mem_cons_of_mem _ hb)) _)

/-! ### Propagations and restorations -/

theorem within_propagate [IsPreorder Engine R] {seeds : List StatementId} {solved : Bool}
    (h : R e (e.propagation ⟨solved, true⟩ t seeds).engine) :
    Within R e (propagate t seeds solved) :=
  within_get_bind <| within_bind (within_await h) fun _ _ _ => within_pure

theorem rebuildNext_within {state : RestoreReport × Engine} {d : Deleted}
    (h : Within R state.2 (rebuildDeleted t d.statement)) :
    R state.2 (rebuildNext t state d).2 := by
  rw [Within] at h
  rw [rebuildNext]
  cases hrun : (rebuildDeleted t d.statement).perform state.2 with
  | mk r e' =>
    rw [hrun] at h
    cases r with
    | error f => exact h
    | ok u => exact h

theorem within_undelete [IsPreorder Engine R] (hpopped : ∀ undo, R e { e with undo })
    (hrebuilt : ∀ state d, R state.2 (rebuildNext t state d).2)
    (hrestored : ∀ state d, R state.2 (restoreTrappings t state d).2)
    (hnoted : ∀ e f, R e (e.onTransaction t f)) : Within R e (undelete t) := by
  rw [Within]
  rcases undelete_outcome t e with ⟨f, hrun⟩ | ⟨-, batch, rest, -, hrun⟩ <;> rw [hrun]
  · exact refl_of R e
  · have hback := foldl_snd_within (R := R) (l := batch.reverse) (fun state d _ => hrebuilt state d)
      ({}, { e with undo := { e.undo with batches := rest } })
    have hdressed := foldl_snd_within (R := R) (l := batch.reverse)
      (fun state d _ => hrestored state d) (batch.reverse.foldl (rebuildNext t)
        ({}, { e with undo := { e.undo with batches := rest } }))
    exact trans_of R (hpopped _) (trans_of R hback (trans_of R hdressed (hnoted _ _)))

end Engine

namespace Copying

open Engine

variable {R : Engine → Engine → Prop} {α β : Type} {m : Copying α} {k : α → Copying β}

/-- A step of a copy relates the engine it starts from and the one it ends in. -/
def Stays (R : Engine → Engine → Prop) (m : Copying α) : Prop :=
  ∀ state : CopyState, R state.engine (m.run state).2.engine

theorem stays_act {action : Action α} (h : ∀ e, Within R e action) : Stays R (act action) :=
  fun state => h state.engine

section Refl

variable [Std.Refl R]

theorem stays_pure {a : α} : Stays R (pure a : Copying α) := fun state => refl_of R state.engine

theorem stays_throw {f : Failure} : Stays R (throw f : Copying α) :=
  fun state => refl_of R state.engine

theorem stays_get : Stays R (get : Copying CopyState) := fun state => refl_of R state.engine

theorem stays_lift {y : Except Failure α} : Stays R (liftM y : Copying α) := by
  cases y with
  | error f => exact stays_throw
  | ok a => exact stays_pure

end Refl

theorem stays_bind [IsTrans Engine R] (h : Stays R m) (hk : ∀ a, Stays R (k a)) :
    Stays R (m >>= k) := by
  intro state
  rw [run_bind]
  have hfirst := h state
  cases hm : m.run state with
  | mk r state' =>
    rw [hm] at hfirst
    cases r with
    | error f => exact hfirst
    | ok a => exact trans_of R hfirst (hk a state')

theorem stays_store_bind [IsPreorder Engine R] {k : Store → Copying β} (hk : ∀ s, Stays R (k s)) :
    Stays R (store >>= k) := stays_bind (stays_bind stays_get fun _ => stays_pure) hk

theorem stays_forM [IsPreorder Engine R] {l : List α} {f : α → Copying Unit}
    (hf : ∀ a ∈ l, Stays R (f a)) : Stays R (l.forM f) := by
  induction l with
  | nil => exact stays_pure
  | cons a rest ih =>
    exact stays_bind (hf a List.mem_cons_self) fun _ =>
      ih fun b hb => hf b (List.mem_cons_of_mem _ hb)

end Copying

end StatementGraph
