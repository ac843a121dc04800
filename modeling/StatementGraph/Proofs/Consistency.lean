import StatementGraph.Proofs.Soundness

namespace StatementGraph

/-- The operations that make statements, and those that begin and commit transactions. -/
def Op.Creates : Op → Prop
  | begin _ | commit _ | createRoot _ _ | declare _ _ _ | specialize _ _ _ _ | openNested _ _ _
  | openUnfolding _ _ _ _ => True
  | _ => False

namespace Engine

variable {D : Discipline} {H : Graph} {e e' : Engine} {t : TransactionId} {α : Type} {op : Op}
  {Q : Graph → Engine → α → Prop}

/-- The store is kept right against some history, whatever the transactions are. -/
def Kept (D : Discipline) (e : Engine) : Prop :=
  ∃ H, H.Lawful D ∧ e.store.Maintained H ∧ e.store.allocator.Beyond H

theorem Session.kept (h : Session D H e) : Kept D e := ⟨H, h.lawful, h.maintained, h.counter⟩

theorem Kept.of_store (h : Kept D e) (hstore : e'.store = e.store) : Kept D e' := by
  rw [Kept, hstore]
  exact h

theorem Kept.act {k : Unit → Action α} (h : Kept D e)
    (hgrows : ∀ H, Sound D t H e → Grows D t H e (ensureOpen t >>= k) Q)
    (hlast : ((ensureOpen t >>= k).effect e).1 ≠ .error exhausted) :
    Kept D ((ensureOpen t >>= k).effect e).2 := by
  obtain ⟨H, hlawful, hmaintained, hcounter⟩ := id h
  rw [Action.effect] at hlast ⊢
  cases hopen : e.isOpen t with
  | false =>
    rw [perform_closed hopen]
    exact h
  | true =>
    obtain ⟨hok, herror⟩ := hgrows H ⟨hlawful, hmaintained, hcounter, hopen⟩
    cases hrun : (ensureOpen t >>= k).perform e with
    | mk r e' =>
      rw [hrun] at hlast
      cases r with
      | ok a =>
        obtain ⟨H', hs, -⟩ := hok a e' hrun
        exact ⟨H', hs.lawful, hs.maintained, hs.counter⟩
      | error f =>
        rcases herror f e' hrun with rfl | ⟨-, H', hs, -⟩
        · exact absurd rfl hlast
        · exact ⟨H', hs.lawful, hs.maintained, hs.counter⟩

theorem store_commit : ((Engine.commit t).effect e).2.store = e.store := by
  rcases commit_cases e t with ⟨-, hrun⟩ | ⟨tx, -, -, hrun⟩ <;> rw [hrun]
  exact (commitWith_fields e tx).1

/-- Making statements keeps the store right, also while other transactions are open. -/
theorem Kept.step (h : Kept D e) (hcreates : op.Creates)
    (hoffer : ∀ term ∈ op.supplied, D.Offers e.store.graph term)
    (hlast : (op.run e).1 ≠ .error exhausted) : Kept D (op.run e).2 := by
  cases op with
  | begin timeout => exact h.of_store rfl
  | commit t => exact h.of_store store_commit
  | createRoot t term =>
    exact h.act (fun _ hs => grows_createRoot hs (hoffer term List.mem_cons_self)) hlast
  | declare t context value =>
    exact h.act (fun _ hs => grows_declare hs (hoffer value List.mem_cons_self)) hlast
  | specialize t context general argument =>
    exact h.act (fun _ hs => grows_specialize hs (hoffer argument List.mem_cons_self)) hlast
  | openNested t context term =>
    exact h.act (fun _ hs => grows_openContext nofun hs (hoffer term List.mem_cons_self)) hlast
  | openUnfolding t context term declaration =>
    exact h.act (fun _ hs => grows_openContext nofun hs (hoffer term List.mem_cons_self)) hlast
  | _ => exact hcreates.elim

end Engine

open Engine

variable {e : Engine} {x : StatementId} {st : Statement}

theorem Reached.kept (h : Reached (fun _ op => op.Creates ∧ op.Paramless) e) :
    Kept .paramless e := by
  induction h with
  | start h => exact (session_create h).1.kept
  | step _ hpermits hlasting ih => exact ih.step hpermits.1 hpermits.2.offers hlasting.1

/-- Without parameters, no run of creations proves a root that is a bare atom. -/
theorem Reached.atom_unproved {name : String}
    (h : Reached (fun _ op => op.Creates ∧ op.Paramless) e) (hst : e.store.get? x = some st)
    (hroot : st.isRoot = true) (hterm : st.term = .atom name) : st.proved = false := by
  obtain ⟨H, hlawful, hmaintained, -⟩ := h.kept
  by_contra hproved
  have htrue := hmaintained.tautology hlawful hst hroot (by simpa using hproved)
    ⟨fun _ => false, fun _ => true⟩
  rw [hterm] at htrue
  cases htrue

def atomRoot (value : Term) : List Op :=
  [.begin none, .createRoot ⟨1⟩ (.atom "P"), .declare ⟨1⟩ (.after 0) value]

theorem atomRoot_unproved :
    let s := (Op.runAll (.inMemory {}) (atomRoot (.atom "A"))).store
    ∃ st, s.get? (.after 0) = some st ∧ st.isRoot = true ∧ st.term = .atom "P" ∧
      st.proved = false := by
  intro s
  have hstart : Reached (fun _ op => op.Creates ∧ op.Paramless) (.inMemory {}) :=
    @Reached.start _ {} _ rfl
  have hreached := hstart.runAll (atomRoot (.atom "A"))
    ⟨⟨trivial, by decide⟩, ⟨rfl, by decide⟩, ⟨trivial, by decide⟩, ⟨rfl, by decide⟩,
      ⟨trivial, by decide⟩, ⟨rfl, by decide⟩, trivial⟩
  have hroot : (s.get? (.after 0)).map (fun st => (st.isRoot, st.term)) =
      some (true, .atom "P") := rfl
  obtain ⟨st, hst, hroot⟩ := Option.map_eq_some_iff.1 hroot
  obtain ⟨hroot, hterm⟩ := Prod.mk.inj hroot
  exact ⟨st, hst, hroot, hterm, Reached.atom_unproved hreached hst hroot hterm⟩

/-- With parameters a run of creations can prove a bare atom. -/
theorem atom_proved : ¬∀ e, Reached (fun _ op => op.Creates) e → ∀ x st name,
    e.store.get? x = some st → st.isRoot = true → st.term = .atom name → st.proved = false := by
  intro h
  have hstart : Reached (fun _ op => op.Creates) (.inMemory {}) := @Reached.start _ {} _ rfl
  have hreached := hstart.runAll (atomRoot (.param ⟨7⟩ (.atom "P")))
    ⟨trivial, ⟨rfl, by decide⟩, trivial, ⟨rfl, by decide⟩, trivial, ⟨rfl, by decide⟩, trivial⟩
  have hroot : ((Op.runAll (.inMemory {}) (atomRoot (.param ⟨7⟩ (.atom "P")))).store.get?
      (.after 0)).map (fun st => (st.isRoot, st.term, st.proved)) =
        some (true, .atom "P", true) := rfl
  obtain ⟨st, hst, hroot⟩ := Option.map_eq_some_iff.1 hroot
  obtain ⟨hroot, hterm⟩ := Prod.mk.inj hroot
  obtain ⟨hterm, hproved⟩ := Prod.mk.inj hterm
  cases hproved.symm.trans (h _ hreached _ st "P" hst hroot hterm)

open Term in
/-- It is not enough that all parameters are bound. Here `p2` of the function `apply inner p2` is
captured by the binder of the same name in the type of `inner`, and what asked for a function of any
proposition takes the identity. -/
example :
    let domain := function ⟨100⟩ (atom "A") tau
    let any := function ⟨2⟩ tau (function ⟨101⟩ (param ⟨1⟩ domain) (param ⟨2⟩ tau))
    let inner := function ⟨1⟩ domain (function ⟨3⟩ any (function ⟨4⟩ (param ⟨1⟩ domain)
      (apply (apply (param ⟨3⟩ any) (atom "P")) (param ⟨4⟩ (param ⟨1⟩ domain)))))
    let outer := function ⟨2⟩ domain (apply inner (param ⟨2⟩ domain))
    let identity := function ⟨2⟩ tau
      (function ⟨103⟩ (param ⟨2⟩ tau) (param ⟨103⟩ (param ⟨2⟩ tau)))
    let value := apply (apply (apply outer (function ⟨102⟩ (atom "A") (atom "A"))) identity)
      (function ⟨104⟩ (atom "A") (param ⟨104⟩ (atom "A")))
    (Op.runAll (.inMemory {}) (atomRoot value)).store.isProved (.after 0) = true :=
  rfl

end StatementGraph
