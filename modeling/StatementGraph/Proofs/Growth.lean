import StatementGraph.Mutation.Construct
import StatementGraph.Proofs.Allocation
import StatementGraph.Proofs.Journal

namespace StatementGraph

/-- The counter will not hand out an id of the history. -/
def Allocator.Beyond (a : Allocator) (H : Graph) : Prop := ∀ x c, H x = some c → a.Past x

/-- Every statement of the history comes before an id. -/
def Graph.Fresh (H : Graph) (x : StatementId) : Prop := ∀ y c, H y = some c → y < x

theorem Graph.Fresh.eq_none {H : Graph} {x : StatementId} (h : H.Fresh x) : H x = none :=
  Option.eq_none_iff_forall_ne_some.2 fun c hc => Nat.lt_irrefl _ (h x c hc)

namespace Engine

def exhausted : Failure := .engine (.inconsistent "statement id space exhausted")

/-- What holds of an engine and the history of its session while a transaction is open. -/
structure Sound (D : Discipline) (t : TransactionId) (H : Graph) (e : Engine) : Prop where
  lawful : H.Lawful D
  maintained : e.store.Maintained H
  counter : e.store.allocator.Beyond H
  isOpen : e.isOpen t = true

/-- Every statement is as it was, and those that are new were never there before. -/
structure Grown (t : TransactionId) (H : Graph) (e : Engine) (H' : Graph) (e' : Engine) :
    Prop where
  history : H.Sub H'
  kept : e.store.graph.Sub e'.store.graph
  new : ∀ x c, e'.store.graph x = some c → e.store.graph x = some c ∨ H x = none
  past : ∀ x, e.store.allocator.Past x → e'.store.allocator.Past x
  evolves : Evolves t e e'

variable {t : TransactionId} {H H' H'' : Graph} {e e' e'' : Engine}

theorem Grown.refl (t : TransactionId) (H : Graph) (e : Engine) : Grown t H e H e :=
  ⟨.refl H, .refl _, fun _ _ h => Or.inl h, fun _ h => h, .refl t e⟩

theorem Grown.trans (h : Grown t H e H' e') (h' : Grown t H' e' H'' e'') :
    Grown t H e H'' e'' where
  history := h.history.trans h'.history
  kept := h.kept.trans h'.kept
  new x c hx := by
    rcases h'.new x c hx with hx | hnone
    · exact h.new x c hx
    · refine Or.inr (Option.eq_none_iff_forall_ne_some.2 fun c' hc' => ?_)
      rw [h.history x c' hc'] at hnone
      cases hnone
  past x hx := h'.past x (h.past x hx)
  evolves := h.evolves.trans h'.evolves

theorem grown_of_graph_eq (hg : e'.store.graph = e.store.graph)
    (hpast : ∀ x, e.store.allocator.Past x → e'.store.allocator.Past x) (he : Evolves t e e') :
    Grown t H e H e' :=
  ⟨.refl H, hg ▸ .refl _, fun _ _ h => Or.inl (hg ▸ h), hpast, he⟩

end Engine

open Engine

def Answered {α : Type} (y : Except Failure α) : Prop :=
  ∀ f, y = .error f → f.breakdown? = none

section Answers

variable {α β : Type} {s : Store} {x o : StatementId} {owner : Option StatementId} {term : Term}

theorem answered_ok (a : α) : Answered (.ok a) := fun _ h => by cases h

theorem answered_error {f : Failure} (h : f.breakdown? = none) :
    Answered (.error f : Except Failure α) := by
  intro f' hf
  cases hf
  exact h

theorem answered_bind {y : Except Failure α} {k : α → Except Failure β} (h : Answered y)
    (hk : ∀ a, Answered (k a)) : Answered (y >>= k) := by
  cases y with
  | error f => exact answered_error (h f rfl)
  | ok a => exact hk a

theorem Answered.map {y : Except Failure α} (h : Answered y) (k : α → β) : Answered (y.map k) := by
  cases y with
  | error f => exact answered_error (h f rfl)
  | ok a => exact answered_ok (k a)

theorem answered_require : Answered (s.require x) := by
  rw [Store.require]
  split
  · exact answered_ok _
  · exact answered_error rfl

theorem answered_requireContext : Answered (s.requireContext x) := by
  refine answered_bind answered_require fun st => ?_
  split
  · exact answered_ok st
  · exact answered_error rfl

theorem answered_validate : Answered (s.validate owner term) := by
  have hcheck (o : StatementId × Term) : Answered (s.checkVariable owner o) := by
    rw [Store.checkVariable]
    repeat' split
    all_goals first | exact answered_ok _ | exact answered_error rfl
  have hall (l : List (StatementId × Term)) : Answered (l.forM (s.checkVariable owner)) := by
    induction l with
    | nil => exact answered_ok ()
    | cons o rest ih => exact answered_bind (hcheck o) fun _ => ih
  rw [Store.validate]
  split
  · exact hall _
  · exact answered_error rfl

theorem answered_declarationRecord {value : Term} :
    Answered (s.declarationRecord o value x) := by
  refine answered_bind answered_validate fun _ => ?_
  split
  · exact answered_error rfl
  · exact answered_ok _

theorem answered_specializationRecord {general : StatementId} {argument : Term} :
    Answered (s.specializationRecord o general argument x) := by
  refine answered_bind answered_require fun st => ?_
  dsimp only
  split
  · exact answered_error rfl
  refine answered_bind answered_validate fun _ => ?_
  split
  · exact answered_error rfl
  · exact answered_ok _

theorem answered_unfold {kind : ContextKind} : Answered (s.unfold owner term kind) := by
  cases kind with
  | unfolding d =>
    refine answered_bind answered_require fun st => ?_
    repeat' split
    all_goals first | exact answered_ok _ | exact answered_error rfl
  | nested => exact answered_ok _
  | root => exact answered_ok _

end Answers

section Rules

variable {α β : Type} {D : Discipline} {t : TransactionId} {H H' : Graph} {e e' : Engine}
  {m : Action α} {k : α → Action β} {Q Q' : Graph → Engine → α → Prop}
  {R : Graph → Engine → β → Prop}

/-- An action only adds to the graph, what it returns is as stated, and it does not break down. -/
def Grows (D : Discipline) (t : TransactionId) (H : Graph) (e : Engine) (m : Action α)
    (Q : Graph → Engine → α → Prop) : Prop :=
  (∀ a e', m.perform e = (.ok a, e') → ∃ H', Sound D t H' e' ∧ Grown t H e H' e' ∧ Q H' e' a) ∧
  ∀ f e', m.perform e = (.error f, e') → f = exhausted ∨
    f.breakdown? = none ∧ ∃ H', Sound D t H' e' ∧ Grown t H e H' e'

theorem Grows.answered (h : Grows D t H e m Q) : Answered (m.perform e).1 := by
  intro f hf
  rcases h.2 f (m.perform e).2 (Prod.ext hf rfl) with rfl | ⟨hnone, -⟩
  · rfl
  · exact hnone

theorem Grows.imp (h : Grows D t H e m Q)
    (hQ : ∀ H' e' a, Grown t H e H' e' → Q H' e' a → Q' H' e' a) : Grows D t H e m Q' := by
  refine ⟨fun a e' hrun => ?_, h.2⟩
  obtain ⟨H', hs, hg, hq⟩ := h.1 a e' hrun
  exact ⟨H', hs, hg, hQ H' e' a hg hq⟩

theorem grows_pure {a : α} (hs : Sound D t H e) (hq : Q H e a) : Grows D t H e (pure a) Q := by
  refine ⟨fun a' e' hrun => ?_, fun f e' hrun => by cases hrun⟩
  cases hrun
  exact ⟨H, hs, .refl t H _, hq⟩

theorem grows_throw (hs : Sound D t H e) {f : Failure} (hf : f.breakdown? = none) :
    Grows D t H e (throw f) Q := by
  refine ⟨fun a' e' hrun => (by cases hrun), fun f' e' hrun => ?_⟩
  cases hrun
  exact Or.inr ⟨hf, H, hs, .refl t H _⟩

theorem grows_throw_bind (hs : Sound D t H e) {f : Failure} (hf : f.breakdown? = none) :
    Grows D t H e (throw f >>= k) R :=
  grows_throw hs hf

theorem perform_bind : (m >>= k).perform e = match m.perform e with
    | (.ok a, e') => (k a).perform e'
    | (.error f, e') => (.error f, e') := by
  have hbind : (m >>= k).perform e = ExceptT.bindCont k (m.perform e).1 (m.perform e).2 := rfl
  rw [hbind]
  cases m.perform e with
  | mk r e' => cases r <;> rfl

theorem perform_get_bind {k : Engine → Action β} : (get >>= k).perform e = (k e).perform e := rfl

theorem perform_ok_bind {a : α} {k : α → Action β} :
    (liftM (Except.ok a : Except Failure α) >>= k).perform e = (k a).perform e := rfl

theorem performs_of_toOption {v : α} (h : (m.perform e).1.toOption = some v) :
    m.perform e = (.ok v, (m.perform e).2) := by
  cases hm : m.perform e with
  | mk r e' =>
    rw [hm] at h
    cases r with
    | error f => cases h
    | ok a =>
      cases h
      rfl

/-- An action succeeds if its first part does, and then its second part. -/
theorem bind_performs {v : β} :
    (m >>= k).perform e = (.ok v, e') ↔
      ∃ a e₁, m.perform e = (.ok a, e₁) ∧ (k a).perform e₁ = (.ok v, e') := by
  rw [perform_bind]
  cases hm : m.perform e with
  | mk r e₁ =>
    cases r with
    | error f =>
      constructor
      · intro h
        cases h
      · rintro ⟨a, e₂, h, -⟩
        cases h
    | ok a =>
      constructor
      · exact fun h => ⟨a, e₁, rfl, h⟩
      · rintro ⟨b, e₂, h, hk⟩
        cases h
        exact hk

/-- Handing out an id moves the counter and nothing else. -/
theorem allocate_performs {x : StatementId} : allocate.perform e = (.ok x, e') ↔
    ∃ b, e.store.allocator.take = (some x, b) ∧
      e' = { e with store := { e.store with allocator := b } } := by
  rw [allocate, perform_get_bind, Store.allocate]
  cases htake : e.store.allocator.take with
  | mk x? b =>
    cases x? with
    | none =>
      constructor
      · intro h
        cases h
      · rintro ⟨b, h, -⟩
        cases h
    | some y =>
      constructor
      · intro h
        cases h
        exact ⟨b, rfl, rfl⟩
      · rintro ⟨b, h, rfl⟩
        cases h
        rfl

theorem perform_ensureOpen (h : e.isOpen t = true) : (ensureOpen t).perform e = (.ok (), e) := by
  rw [ensureOpen, perform_get_bind, if_pos h]
  rfl

theorem grows_bind (h : Grows D t H e m Q)
    (hk : ∀ H' e' a, Sound D t H' e' → Grown t H e H' e' → Q H' e' a → Grows D t H' e' (k a) R) :
    Grows D t H e (m >>= k) R := by
  rw [Grows, perform_bind]
  cases hm : m.perform e with
  | mk r e' =>
    cases r with
    | error f =>
      refine ⟨fun a e'' hrun => (by cases hrun), fun f' e'' hrun => ?_⟩
      cases hrun
      exact h.2 f e' hm
    | ok a =>
      obtain ⟨H', hs, hg, hq⟩ := h.1 a e' hm
      obtain ⟨hok, herror⟩ := hk H' e' a hs hg hq
      refine ⟨fun b e'' hrun => ?_, fun f e'' hrun => ?_⟩
      · obtain ⟨H'', hs', hg', hr⟩ := hok b e'' hrun
        exact ⟨H'', hs', hg.trans hg', hr⟩
      · refine (herror f e'' hrun).imp_right ?_
        rintro ⟨hf, H'', hs', hg'⟩
        exact ⟨hf, H'', hs', hg.trans hg'⟩

theorem grows_get_bind {k : Engine → Action β} (h : Grows D t H e (k e) R) :
    Grows D t H e (get >>= k) R := h

theorem grows_lift_bind {x : Except Failure α} (hs : Sound D t H e) (hx : Answered x)
    (h : ∀ a, x = .ok a → Grows D t H e (k a) R) : Grows D t H e (liftM x >>= k) R := by
  cases x with
  | error f => exact grows_throw hs (hx f rfl)
  | ok a => exact h a rfl

theorem grows_set {Q : Graph → Engine → Unit → Prop} (hs : Sound D t H' e')
    (hg : Grown t H e H' e') (hq : Q H' e' ()) : Grows D t H e (set e') Q := by
  refine ⟨fun a' e' hrun => ?_, fun f e' hrun => by cases hrun⟩
  cases hrun
  exact ⟨H', hs, hg, hq⟩

theorem grows_set_bind {k : Unit → Action β} (hs : Sound D t H' e') (hg : Grown t H e H' e')
    (h : Grows D t H' e' (k ()) R) : Grows D t H e (set e' >>= k) R :=
  grows_bind (Q := fun K v _ => K = H' ∧ v = e') (grows_set hs hg ⟨rfl, rfl⟩) <| by
    rintro K v - - - ⟨rfl, rfl⟩
    exact h

theorem grows_modify {f : Engine → Engine} {Q : Graph → Engine → Unit → Prop}
    (h : Grows D t H e (set (f e)) Q) : Grows D t H e (modify f) Q := h

theorem grows_modify_bind {f : Engine → Engine} {k : Unit → Action β}
    (h : Grows D t H e (set (f e) >>= k) R) : Grows D t H e (modify f >>= k) R := h

theorem grows_ensureOpen (hs : Sound D t H e) :
    Grows D t H e (ensureOpen t) fun H' e' _ => H' = H ∧ e' = e := by
  refine grows_get_bind ?_
  rw [if_pos hs.isOpen]
  exact grows_pure hs ⟨rfl, rfl⟩

theorem grows_ensureOpen_bind {k : Unit → Action β} (hs : Sound D t H e)
    (h : Grows D t H e (k ()) R) : Grows D t H e (ensureOpen t >>= k) R := by
  refine grows_bind (grows_ensureOpen hs) ?_
  rintro K v - - - ⟨rfl, rfl⟩
  exact h

/-- A request on an open transaction that starts with a check of the engine. -/
theorem grows_checked_bind {x : Engine → Except Failure α} (hs : Sound D t H e)
    (hx : Answered (x e)) (h : ∀ a, x e = .ok a → Grows D t H e (k a) R) :
    Grows D t H e (ensureOpen t >>= fun _ => get >>= fun e => liftM (x e) >>= k) R :=
  grows_ensureOpen_bind hs (grows_get_bind (grows_lift_bind hs hx h))

theorem grows_forM {l : List α} {f : α → Action Unit} (I : Graph → Engine → Prop)
    (hs : Sound D t H e) (hI : I H e)
    (hf : ∀ a ∈ l, ∀ H e, Sound D t H e → I H e → Grows D t H e (f a) fun H' e' _ => I H' e') :
    Grows D t H e (l.forM f) fun H' e' _ => I H' e' := by
  induction l generalizing H e with
  | nil => exact grows_pure hs hI
  | cons a rest ih =>
    refine grows_bind (hf a List.mem_cons_self H e hs hI) fun H' e' _ hs' _ hI' => ?_
    exact ih hs' hI' fun b hb => hf b (List.mem_cons_of_mem _ hb)

end Rules

end StatementGraph
