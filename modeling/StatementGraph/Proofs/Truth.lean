import StatementGraph.Proofs.TermParams

namespace StatementGraph

/-- Truth values for atoms, and for the variables of statements. -/
structure Valuation where
  atom : String → Bool
  var : StatementId → Bool

namespace Term

variable {v w : Valuation} {t u T arg : Term}

def truth (v : Valuation) : Term → Bool
  | tau => true
  | atom name => v.atom name
  | var id _ => v.var id
  | param _ _ => true
  | function _ domain body => !domain.truth v || body.truth v
  | apply head _ => head.truth v
  | projection inner => inner.truth v
  | cast inner => inner.truth v

def Tautology (t : Term) : Prop := ∀ v : Valuation, t.truth v = true

theorem truth_function {p : ParamId} {domain body : Term} :
    (function p domain body).truth v = true ↔ (domain.truth v = true → body.truth v = true) := by
  rw [truth]
  cases domain.truth v <;> simp

theorem truth_congr (hatom : v.atom = w.atom) (hvar : ∀ x ∈ t.freeVars, v.var x = w.var x) :
    t.truth v = t.truth w := by
  replace hvar : ∀ x type, (x, type) ∈ t.occurrences → v.var x = w.var x :=
    fun x type hx => hvar x (mem_freeVars.2 ⟨type, hx⟩)
  induction t with
  | tau => rfl
  | atom name => exact congrFun hatom name
  | var x type => exact hvar x type List.mem_cons_self
  | param => rfl
  | function p domain body ihd ihb =>
    rw [truth, truth, ihd fun x type hx => hvar x type (List.mem_append_left _ hx),
      ihb fun x type hx => hvar x type (List.mem_append_right _ hx)]
  | apply head arg ihh iha => exact ihh fun x type hx => hvar x type (List.mem_append_left _ hx)
  | projection inner ih => exact ih hvar
  | cast inner ih => exact ih hvar

theorem truth_unproject : t.unproject.truth v = t.truth v := by
  induction t with
  | function p domain body ihd ihb => rw [unproject, truth, truth, ihd, ihb]
  | apply head arg ihh iha => exact ihh
  | projection inner ih => exact ih
  | cast inner ih => exact ih
  | _ => rfl

theorem truth_unwrapped : t.unwrapped.truth v = t.truth v := by
  induction t with
  | projection inner ih => exact ih
  | _ => rfl

theorem truth_mapVars {f : StatementId → Option Term}
    (hf : ∀ x image, f x = some image → image.truth v = v.var x) :
    (t.mapVars f).truth v = t.truth v := by
  induction t with
  | var x type =>
    rw [mapVars]
    cases hx : f x with
    | none => rfl
    | some image => exact hf x image hx
  | function p domain body ihd ihb => rw [mapVars, truth, truth, ihd, ihb]
  | apply head arg ihh iha => exact ihh
  | projection inner ih => exact ih
  | cast inner ih => exact ih
  | _ => rfl

theorem truth_equivUnder {pairs : List (ParamId × ParamId)} (h : equivUnder pairs t u = true) :
    t.truth v = u.truth v := by
  fun_induction equivUnder pairs t u with
  | case1 => rfl
  | case2 => rw [of_decide_eq_true h]
  | case3 => rw [of_decide_eq_true h, truth, truth]
  | case4 => rfl
  | case5 pairs p domain body q domain' body' ihd ihb =>
    rw [Bool.and_eq_true] at h
    rw [truth, truth, ihd h.1, ihb h.2]
  | case6 pairs head arg head' arg' ihh iha =>
    rw [Bool.and_eq_true] at h
    exact ihh h.1
  | case7 pairs inner inner' ih => exact ih h
  | case8 pairs inner inner' ih => exact ih h
  | case9 => cases h

theorem truth_of_beq (h : (t == u) = true) : t.truth v = u.truth v := truth_equivUnder h

theorem truth_typeOf (hc : t.castFree = true) (h : t.typeOf = .ok T) (ht : t.paramFree = true)
    (hfree : ∀ x type, (x, type) ∈ t.occurrences → type.paramFree = true)
    (htrue : ∀ x type, (x, type) ∈ t.occurrences → type.truth v = true) : T.truth v = true := by
  obtain ⟨again, he⟩ := exists_typeOfWith t
  rw [he] at h
  clear he
  induction t generalizing T with
  | tau => cases h
  | atom =>
    cases h
    rfl
  | var x type =>
    cases h
    exact htrue x type List.mem_cons_self
  | param => cases ht
  | function q domain body ihd ihb =>
    rw [castFree, Bool.and_eq_true] at hc
    rw [paramFree, Bool.and_eq_true] at ht
    obtain ⟨type, hbody, rfl⟩ := typeOfWith_function_ok h
    rw [truth_function]
    intro _
    exact ihb hc.2 ht.2 (fun x ty hx => hfree x ty (List.mem_append_right _ hx))
      (fun x ty hx => htrue x ty (List.mem_append_right _ hx)) hbody
  | apply head arg ihh iha =>
    rw [castFree, Bool.and_eq_true] at hc
    rw [paramFree, Bool.and_eq_true] at ht
    obtain ⟨type, q, domain, body, found, hhead, hu, harg, hmatch, rfl⟩ := typeOfWith_apply_ok h
    have hfree_head := fun x ty hx => hfree x ty (List.mem_append_left _ hx)
    have hbody := paramFree_unproject (paramFree_typeOfWith hc.1 hhead ht.1 hfree_head)
    rw [hu, paramFree, Bool.and_eq_true] at hbody
    have himp := ihh hc.1 ht.1 hfree_head
      (fun x ty hx => htrue x ty (List.mem_append_left _ hx)) hhead
    rw [← truth_unproject, hu, truth_function] at himp
    -- the type of the head is an implication, and the type of the argument equals its domain
    have hfound := iha hc.2 ht.2 (fun x ty hx => hfree x ty (List.mem_append_right _ hx))
      (fun x ty hx => htrue x ty (List.mem_append_right _ hx)) harg
    rw [replaceParam_of_paramFree hbody.2]
    exact himp (truth_of_beq hmatch ▸ hfound)
  | projection inner ih => exact ih hc ht hfree htrue h
  | cast => cases hc

theorem truth_compose (h : t.compose arg = .ok T) (ht : t.paramFree = true)
    (htrue : t.truth v = true) (harg : ∀ found, arg.typeOf = .ok found → found.truth v = true) :
    T.truth v = true := by
  rw [← truth_unwrapped] at htrue
  have hu := paramFree_unwrapped ht
  rcases compose_ok h with ⟨q, domain, body, found, hfun, hty, hmatch, rfl⟩ | rfl
  · rw [hfun, truth_function] at htrue
    rw [hfun, paramFree, Bool.and_eq_true] at hu
    rw [replaceParam_of_paramFree hu.2]
    exact htrue (truth_of_beq hmatch ▸ harg found hty)
  · exact htrue

theorem truth_of_peel {ids : List StatementId} {entries : List (StatementId × Term)}
    {consequent : Term} (h : peel ids t = (entries, consequent)) (ht : t.paramFree = true)
    (htrue : (∀ e ∈ entries, e.2.truth v = true) → consequent.truth v = true) :
    t.truth v = true := by
  fun_induction peel ids t generalizing entries consequent with
  | case1 y ids q domain body rest left hpeel ih =>
    cases h
    rw [paramFree, Bool.and_eq_true] at ht
    rw [replaceParam_of_paramFree ht.2] at ih hpeel
    rw [truth_function]
    intro hdomain
    refine ih hpeel ht.2 fun hrest => htrue fun e he => ?_
    rcases List.mem_cons.1 he with rfl | he
    · exact hdomain
    · exact hrest e he
  | case2 =>
    cases h
    exact htrue fun e he => by cases he

end Term

end StatementGraph
