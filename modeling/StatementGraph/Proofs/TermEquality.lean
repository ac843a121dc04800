import StatementGraph.Term.Equality

namespace StatementGraph

/-- What a parameter refers to: the binder at a distance, or none, so that only its name is left. -/
abbrev Place := Nat ⊕ ParamId

namespace Place

/-- The place of a parameter under binders, innermost first. -/
def locate : List ParamId → ParamId → Place
  | [], p => .inr p
  | b :: binders, p => if b = p then .inl 0 else (locate binders p).map (· + 1) id

theorem locate_cons_eq_iff {binders outer : List ParamId} {l r p q : ParamId} :
    locate (l :: binders) p = locate (r :: outer) q ↔
      (l = p ∧ r = q) ∨ (l ≠ p ∧ r ≠ q ∧ locate binders p = locate outer q) := by
  rw [locate, locate]
  by_cases hl : l = p
  · by_cases hr : r = q
    · simp [hl, hr]
    · cases locate outer q <;> simp [hl, hr]
  · by_cases hr : r = q
    · cases locate binders p <;> simp [hl, hr]
    · rw [if_neg hl, if_neg hr]
      cases locate binders p <;> cases locate outer q <;> simp [hl, hr]

theorem sameParam_iff {pairs : List (ParamId × ParamId)} {p q : ParamId} :
    Term.sameParam pairs p q = true ↔
      locate (pairs.map Prod.fst) p = locate (pairs.map Prod.snd) q := by
  induction pairs with
  | nil => simp [Term.sameParam, locate]
  | cons pair rest ih =>
    obtain ⟨l, r⟩ := pair
    rw [Term.sameParam, List.map_cons, List.map_cons, locate_cons_eq_iff, ← ih]
    by_cases hl : l = p <;> by_cases hr : r = q <;> simp [hl, hr]

end Place

/-- A term without the names of its binders. -/
inductive Nameless where
  | tau
  | atom (name : String)
  | var (id : StatementId) (type : Nameless)
  | param (place : Place) (type : Nameless)
  | function (domain body : Nameless)
  | apply (head arg : Nameless)
  | projection (inner : Nameless)
  | cast (inner : Nameless)
deriving DecidableEq

/-- A term without the types that its variables and parameters carry. -/
def Nameless.erase : Nameless → Nameless
  | tau => tau
  | atom name => atom name
  | var id _ => var id tau
  | param place _ => param place tau
  | function domain body => function domain.erase body.erase
  | apply head arg => apply head.erase arg.erase
  | projection inner => projection inner.erase
  | cast inner => cast inner.erase

namespace Term

open Place

variable {a b c : Term} {pairs : List (ParamId × ParamId)}

/-- The nameless form of a term under binders, innermost first. -/
def nameless (binders : List ParamId) : Term → Nameless
  | tau => .tau
  | atom name => .atom name
  | var id type => .var id (type.nameless [])
  | param p type => .param (locate binders p) (type.nameless binders)
  | function p domain body => .function (domain.nameless binders) (body.nameless (p :: binders))
  | apply head arg => .apply (head.nameless binders) (arg.nameless binders)
  | projection inner => .projection (inner.nameless binders)
  | cast inner => .cast (inner.nameless binders)

/-- Terms are equal under pairs of binders if their nameless forms are, apart from carried types. -/
theorem equivUnder_iff : equivUnder pairs a b = true ↔
    (a.nameless (pairs.map Prod.fst)).erase = (b.nameless (pairs.map Prod.snd)).erase := by
  induction a generalizing b pairs with
  | tau => cases b <;> simp [equivUnder, nameless, Nameless.erase]
  | atom name => cases b <;> simp [equivUnder, nameless, Nameless.erase]
  | var id type => cases b <;> simp [equivUnder, nameless, Nameless.erase]
  | param p type => cases b <;> simp [equivUnder, nameless, Nameless.erase, sameParam_iff]
  | function p domain body ihd ihb =>
    cases b <;> simp [equivUnder, nameless, Nameless.erase, ihd, ihb]
  | apply head arg ihh iha => cases b <;> simp [equivUnder, nameless, Nameless.erase, ihh, iha]
  | projection inner ih => cases b <;> simp [equivUnder, nameless, Nameless.erase, ih]
  | cast inner ih => cases b <;> simp [equivUnder, nameless, Nameless.erase, ih]

theorem equivUnder_refl (h : ∀ e ∈ pairs, e.1 = e.2) (t : Term) : equivUnder pairs t t = true := by
  rw [equivUnder_iff, List.map_congr_left h]

theorem sameParam_refl (h : ∀ e ∈ pairs, e.1 = e.2) (p : ParamId) : sameParam pairs p p = true := by
  rw [sameParam_iff, List.map_congr_left h]

theorem equivUnder_swap (pairs : List (ParamId × ParamId)) (t u : Term) :
    equivUnder (pairs.map Prod.swap) u t = equivUnder pairs t u := by
  rw [Bool.eq_iff_iff, equivUnder_iff, equivUnder_iff, List.map_map, List.map_map]
  exact eq_comm

theorem equivUnder_trans {ps qs rs : List ParamId} (hps : ps.length = qs.length)
    (hrs : qs.length = rs.length) (h : equivUnder (ps.zip qs) a b = true)
    (h' : equivUnder (qs.zip rs) b c = true) : equivUnder (ps.zip rs) a c = true := by
  rw [equivUnder_iff, List.map_fst_zip (by omega), List.map_snd_zip (by omega)] at h h' ⊢
  exact h.trans h'

theorem beq_refl (t : Term) : (t == t) = true := equivUnder_refl (fun _ he => by cases he) t

theorem beq_comm (t u : Term) : (t == u) = (u == t) := equivUnder_swap [] u t

theorem beq_trans (h : (a == b) = true) (h' : (b == c) = true) : (a == c) = true :=
  @equivUnder_trans _ _ _ [] [] [] rfl rfl h h'

/-- Equality is an equivalence whose classes are the nameless forms without carried types. -/
theorem beq_equivalence : (Equivalence fun a b : Term => (a == b) = true) ∧
    ∀ a b : Term, (a == b) = true ↔ (a.nameless []).erase = (b.nameless []).erase := by
  refine ⟨⟨beq_refl, ?_, beq_trans⟩, fun a b => equivUnder_iff⟩
  intro a b h
  rwa [beq_comm]

end Term

end StatementGraph
