import StatementGraph.Proofs.TermEquality
import StatementGraph.Term.Typing

namespace StatementGraph

namespace Place

/-- The place of a parameter once `n` binders come in outside the `c` innermost ones. -/
def shift (n c : Nat) : Place → Place
  | .inl i => .inl (if i < c then i else i + n)
  | .inr p => .inr p

/-- The place of a parameter once the binder at a distance is gone. -/
def drop (k : Nat) : Place → Option Place
  | .inl i => if i < k then some (.inl i) else if i = k then none else some (.inl (i - 1))
  | .inr p => some (.inr p)

variable {inner binders : List ParamId} {p q : ParamId}

theorem locate_append (h : p ∉ inner) :
    locate (inner ++ binders) p = (locate binders p).map (· + inner.length) id := by
  induction inner with
  | nil => cases hp : locate binders p <;> simp [hp]
  | cons b rest ih =>
    rw [List.mem_cons, not_or] at h
    obtain ⟨hb, hrest⟩ := h
    rw [List.cons_append, locate, if_neg (Ne.symm hb), ih hrest]
    cases locate binders p <;> simp [Nat.add_assoc]

theorem locate_of_mem (h : p ∈ inner) :
    ∃ i < inner.length, ∀ binders, locate (inner ++ binders) p = .inl i := by
  induction inner with
  | nil => cases h
  | cons b rest ih =>
    by_cases hb : b = p
    · exact ⟨0, by simp, fun binders => by simp [locate, hb]⟩
    · have hrest : p ∈ rest := by simpa [Ne.symm hb] using h
      obtain ⟨i, hi, hlocate⟩ := ih hrest
      exact ⟨i + 1, by simpa using hi, fun binders => by simp [locate, hb, hlocate]⟩

end Place

namespace Nameless

/-- The term under `n` more binders, outside the `c` innermost ones. -/
def lift (n c : Nat) : Nameless → Nameless
  | tau => tau
  | atom name => atom name
  | var id type => var id type
  | param place type => param (place.shift n c) (type.lift n c)
  | function domain body => function (domain.lift n c) (body.lift n (c + 1))
  | apply head arg => apply (head.lift n c) (arg.lift n c)
  | projection inner => projection (inner.lift n c)
  | cast inner => cast (inner.lift n c)

/-- Put a term in place of the parameters of the binder at a distance, which goes. -/
def subst (t image : Nameless) (k : Nat) : Nameless :=
  match t with
  | tau => tau
  | atom name => atom name
  | var id type => var id type
  | param place type =>
    match place.drop k with
    | none => image.lift k 0
    | some place => param place (type.subst image k)
  | function domain body => function (domain.subst image k) (body.subst image (k + 1))
  | apply head arg => apply (head.subst image k) (arg.subst image k)
  | projection inner => projection (inner.subst image k)
  | cast inner => cast (inner.subst image k)

/-- Strip every projection marker. -/
def unproject : Nameless → Nameless
  | tau => tau
  | atom name => atom name
  | var id type => var id type
  | param place type => param place type.unproject
  | function domain body => function domain.unproject body.unproject
  | apply head arg => apply head.unproject arg.unproject
  | projection inner => inner.unproject
  | cast inner => cast inner.unproject

/-- The number of nodes, with the types of variables. -/
def size : Nameless → Nat
  | tau => 1
  | atom _ => 1
  | var _ type => 1 + type.size
  | param _ type => 1 + type.size
  | function domain body => 1 + domain.size + body.size
  | apply head arg => 1 + head.size + arg.size
  | projection inner => 1 + inner.size
  | cast inner => 1 + inner.size

end Nameless

namespace Term

open Place

variable {t a b arg : Term} {p q : ParamId} {inner outer binders : List ParamId}

theorem sameParam_append_diag {pairs : List (ParamId × ParamId)} :
    sameParam (pairs ++ binders.map fun b => (b, b)) p q = sameParam pairs p q := by
  induction pairs with
  | nil =>
    induction binders with
    | nil => rfl
    | cons b rest ih =>
      rw [List.nil_append] at ih
      by_cases hp : b = p
      · simp [sameParam, hp]
      · by_cases hq : b = q
        · subst hq
          simp [sameParam, hp, Ne.symm hp]
        · simp [sameParam, hp, hq, ih]
  | cons pair rest ih => simp [sameParam, ih]

/-- Binders that both terms stand under do not matter for their equality. -/
theorem equivUnder_append_diag {pairs : List (ParamId × ParamId)} :
    equivUnder (pairs ++ binders.map fun b => (b, b)) a b = equivUnder pairs a b := by
  induction a generalizing b pairs with
  | tau | atom | var => cases b <;> rfl
  | param p type => cases b <;> simp [equivUnder, sameParam_append_diag]
  | function p domain body ihd ihb =>
    cases b with
    | function q domain' body' =>
      have hbody := @ihb body' ((p, q) :: pairs)
      rw [equivUnder, equivUnder, ihd, ← hbody]
      rfl
    | _ => rfl
  | apply head arg ihh iha => cases b <;> simp [equivUnder, ihh, iha]
  | projection inner ih => cases b <;> simp [equivUnder, ih]
  | cast inner ih => cases b <;> simp [equivUnder, ih]

theorem beq_iff : (a == b) = true ↔ (a.nameless binders).erase = (b.nameless binders).erase := by
  have hdiag : equivUnder ([] ++ binders.map fun b => (b, b)) a b = (a == b) :=
    equivUnder_append_diag
  rw [← hdiag, equivUnder_iff]
  simp [Function.comp_def]

theorem size_nameless : (t.nameless binders).size = t.fullSize := by
  induction t generalizing binders with
  | tau | atom => rfl
  | var id type ih => simp [nameless, Nameless.size, fullSize, ih]
  | param p type ih => simp [nameless, Nameless.size, fullSize, ih]
  | function p domain body ihd ihb => simp [nameless, Nameless.size, fullSize, ihd, ihb]
  | apply head arg ihh iha => simp [nameless, Nameless.size, fullSize, ihh, iha]
  | projection inner ih => simp [nameless, Nameless.size, fullSize, ih]
  | cast inner ih => simp [nameless, Nameless.size, fullSize, ih]

theorem nameless_unproject : t.unproject.nameless binders = (t.nameless binders).unproject := by
  induction t generalizing binders with
  | tau | atom | var => rfl
  | param p type ih => simp [nameless, Nameless.unproject, unproject, ih]
  | function p domain body ihd ihb => simp [nameless, Nameless.unproject, unproject, ihd, ihb]
  | apply head arg ihh iha => simp [nameless, Nameless.unproject, unproject, ihh, iha]
  | projection inner ih => simp [nameless, Nameless.unproject, unproject, ih]
  | cast inner ih => simp [nameless, Nameless.unproject, unproject, ih]

/-! ### Binders that a term does not mention -/

/-- Binders further out than all that a term mentions do not matter. -/
theorem nameless_outside (h : ∀ q, t.mentions q = true → q ∈ inner) :
    t.nameless (inner ++ outer) = t.nameless inner := by
  induction t generalizing inner with
  | tau | atom | var => rfl
  | param p type ih =>
    obtain ⟨i, -, hlocate⟩ := locate_of_mem (h p (by simp [mentions]))
    have hinner : locate inner p = .inl i := by simpa using hlocate []
    rw [nameless, nameless, hlocate, hinner, ih fun q hq => h q (by simp [mentions, hq])]
  | function p domain body ihd ihb =>
    rw [nameless, nameless, ihd fun q hq => h q (by simp [mentions, hq]), ← List.cons_append,
      ihb]
    intro q hq
    by_cases hp : p = q
    · simp [hp]
    · exact List.mem_cons_of_mem _ (h q (by simp [mentions, hq, hp]))
  | apply head arg ihh iha =>
    rw [nameless, nameless, ihh fun q hq => h q (by simp [mentions, hq]),
      iha fun q hq => h q (by simp [mentions, hq])]
  | projection inner ih => rw [nameless, nameless, ih h]
  | cast inner ih => rw [nameless, nameless, ih h]

/-- No parameter occurs outside the functions that bind it. -/
def Closed (t : Term) : Prop := ∀ q, t.mentions q = false

theorem Closed.nameless (h : t.Closed) : t.nameless binders = t.nameless [] := by
  have hin : ∀ q, t.mentions q = true → q ∈ [] := by
    intro q hq
    rw [h q] at hq
    cases hq
  exact nameless_outside hin

theorem mentions_param_eq_false {type : Term} :
    (param p type).mentions q = false ↔ p ≠ q ∧ type.mentions q = false := by
  simp [mentions]

theorem mentions_function_eq_false {domain body : Term} :
    (function p domain body).mentions q = false ↔
      domain.mentions q = false ∧ (p ≠ q → body.mentions q = false) := by
  simp [mentions]

theorem mentions_apply_eq_false {head : Term} :
    (apply head arg).mentions q = false ↔ head.mentions q = false ∧ arg.mentions q = false := by
  simp [mentions]

/-- Binders that a term does not mention only move its parameters. -/
theorem nameless_lift (h : ∀ q ∈ binders, q ∉ inner → t.mentions q = false) :
    t.nameless (inner ++ binders ++ outer) =
      (t.nameless (inner ++ outer)).lift binders.length inner.length := by
  induction t generalizing inner with
  | tau | atom | var => rfl
  | param p type ih =>
    have htype := ih fun q hq hin => (mentions_param_eq_false.1 (h q hq hin)).2
    rw [nameless, nameless, Nameless.lift, htype]
    congr 1
    by_cases hin : p ∈ inner
    · obtain ⟨i, hi, hlocate⟩ := locate_of_mem hin
      rw [List.append_assoc, hlocate, hlocate]
      simp [shift, hi]
    · have hout : p ∉ binders := fun hp => (mentions_param_eq_false.1 (h p hp hin)).1 rfl
      rw [List.append_assoc, locate_append hin, locate_append hout, locate_append hin]
      cases locate outer p with
      | inl i =>
        have hge : ¬i + inner.length < inner.length := by omega
        simp only [Sum.map_inl, shift, if_neg hge, Sum.inl.injEq]
        omega
      | inr r => rfl
  | function p domain body ihd ihb =>
    have hdomain := ihd fun q hq hin => (mentions_function_eq_false.1 (h q hq hin)).1
    have hfree : ∀ q ∈ binders, q ∉ p :: inner → body.mentions q = false := by
      intro q hq hin
      rw [List.mem_cons, not_or] at hin
      exact (mentions_function_eq_false.1 (h q hq hin.2)).2 (Ne.symm hin.1)
    rw [nameless, nameless, Nameless.lift, hdomain]
    congr 1
    exact ihb hfree
  | apply head arg ihh iha =>
    rw [nameless, nameless, Nameless.lift,
      ihh fun q hq hin => (mentions_apply_eq_false.1 (h q hq hin)).1,
      iha fun q hq hin => (mentions_apply_eq_false.1 (h q hq hin)).2]
  | projection inner ih => rw [nameless, nameless, Nameless.lift, ih h]
  | cast inner ih => rw [nameless, nameless, Nameless.lift, ih h]

/-! ### Substitution -/

/-- Whether no binder in between would catch a parameter of the argument. -/
def admits (t : Term) (p : ParamId) (arg : Term) : Bool :=
  match t with
  | tau => true
  | atom _ => true
  | var _ _ => true
  | param q type => q = p || type.admits p arg
  | function q domain body =>
    domain.admits p arg &&
      (q = p || ((!body.mentions p || !arg.mentions q) && body.admits p arg))
  | apply head x => head.admits p arg && x.admits p arg
  | projection inner => inner.admits p arg
  | cast inner => inner.admits p arg

theorem Closed.admits (h : arg.Closed) : t.admits p arg = true := by
  induction t with
  | tau | atom | var => rfl
  | param q type ih => simp [Term.admits, ih]
  | function q domain body ihd ihb => simp [Term.admits, ihd, ihb, h q]
  | apply head x ihh ihx => simp [Term.admits, ihh, ihx]
  | projection inner ih => exact ih
  | cast inner ih => exact ih

theorem drop_locate_self (h : p ∉ inner) :
    (locate (inner ++ p :: outer) p).drop inner.length = none := by
  rw [locate_append h]
  simp [locate, Place.drop]

theorem drop_locate (h : p ≠ q ∨ p ∈ inner) : (locate (inner ++ q :: outer) p).drop inner.length =
    some (locate (inner ++ outer) p) := by
  by_cases hin : p ∈ inner
  · obtain ⟨i, hi, hlocate⟩ := locate_of_mem hin
    simp [hlocate, Place.drop, hi]
  · rw [locate_append hin, locate_append hin, locate, if_neg (Ne.symm (h.resolve_right hin))]
    cases locate outer p with
    | inl i =>
      have hge : ¬i + 1 + inner.length < inner.length := by omega
      have hne : i + 1 + inner.length ≠ inner.length := by omega
      simp only [Sum.map_inl, Place.drop, if_neg hge, if_neg hne, Option.some.injEq, Sum.inl.injEq]
      omega
    | inr r => rfl

theorem nameless_shadowed {image : Nameless} (h : p ∈ inner) :
    t.nameless (inner ++ outer) = (t.nameless (inner ++ p :: outer)).subst image inner.length := by
  induction t generalizing inner with
  | tau | atom | var => rfl
  | param q type ih =>
    have hdrop : (locate (inner ++ p :: outer) q).drop inner.length =
        some (locate (inner ++ outer) q) := by
      apply drop_locate
      by_cases hq : q = p
      · exact Or.inr (hq ▸ h)
      · exact Or.inl hq
    rw [nameless, nameless, Nameless.subst, hdrop, ih h]
  | function q domain body ihd ihb =>
    rw [nameless, nameless, Nameless.subst, ihd h]
    congr 1
    exact ihb (List.mem_cons_of_mem q h)
  | apply head arg ihh iha => rw [nameless, nameless, Nameless.subst, ihh h, iha h]
  | projection inner ih => rw [nameless, nameless, Nameless.subst, ih h]
  | cast inner ih => rw [nameless, nameless, Nameless.subst, ih h]

/-- Where no binder catches a parameter of the argument, replacing a parameter is substitution. -/
theorem nameless_replaceParam (hp : p ∉ inner)
    (hinner : t.mentions p = true → ∀ q ∈ inner, arg.mentions q = false)
    (h : t.admits p arg = true) : (t.replaceParam p arg).nameless (inner ++ outer) =
      (t.nameless (inner ++ p :: outer)).subst (arg.nameless outer) inner.length := by
  induction t generalizing inner with
  | tau | atom | var => rfl
  | param q type ih =>
    by_cases hq : q = p
    · subst hq
      have hfree : ∀ r ∈ inner, r ∉ [] → arg.mentions r = false :=
        fun r hr _ => hinner (by simp [mentions]) r hr
      rw [replaceParam, if_pos rfl, nameless, Nameless.subst, drop_locate_self hp]
      exact nameless_lift hfree
    · have htype :=
        ih hp (fun hm => hinner (by simp [mentions, hm])) (by simpa [admits, hq] using h)
      rw [replaceParam, if_neg hq, nameless, nameless, Nameless.subst, drop_locate (Or.inl hq),
        htype]
  | function q domain body ihd ihb =>
    rw [admits, Bool.and_eq_true] at h
    have hdomain := ihd hp (fun hm => hinner (by simp [mentions, hm])) h.1
    rw [replaceParam, nameless, nameless, Nameless.subst, hdomain]
    congr 1
    by_cases hq : q = p
    · subst hq
      rw [if_pos rfl]
      have hshadowed : q ∈ q :: inner := List.mem_cons_self
      exact nameless_shadowed hshadowed
    · rw [if_neg hq]
      have hbody : (body.mentions p = false ∨ arg.mentions q = false) ∧
          body.admits p arg = true := by
        simpa [hq] using h.2
      have hout : p ∉ q :: inner := by simp [Ne.symm hq, hp]
      have hfree : body.mentions p = true → ∀ r ∈ q :: inner, arg.mentions r = false := by
        intro hm r hr
        rcases List.mem_cons.1 hr with rfl | hr
        · exact hbody.1.resolve_left (by simp [hm])
        · exact hinner (by simp [mentions, hm, hq]) r hr
      exact ihb hout hfree hbody.2
  | apply head x ihh ihx =>
    rw [admits, Bool.and_eq_true] at h
    rw [replaceParam, nameless, nameless, Nameless.subst,
      ihh hp (fun hm => hinner (by simp [mentions, hm])) h.1,
      ihx hp (fun hm => hinner (by simp [mentions, hm])) h.2]
  | projection inner ih => rw [replaceParam, nameless, nameless, Nameless.subst, ih hp hinner h]
  | cast inner ih => rw [replaceParam, nameless, nameless, Nameless.subst, ih hp hinner h]

end Term

end StatementGraph
