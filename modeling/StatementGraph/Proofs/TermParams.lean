import StatementGraph.Proofs.TermScope

namespace StatementGraph

namespace Term

variable {t u T arg : Term} {p : ParamId} {x : StatementId}

/-- Whether no parameter occurs in a term, the types of its variables apart. -/
def paramFree : Term → Bool
  | tau => true
  | atom _ => true
  | var _ _ => true
  | param _ _ => false
  | function _ domain body => domain.paramFree && body.paramFree
  | apply head arg => head.paramFree && arg.paramFree
  | projection inner => inner.paramFree
  | cast inner => inner.paramFree

theorem replaceParam_of_paramFree (h : t.paramFree = true) : t.replaceParam p u = t := by
  induction t with
  | tau => rfl
  | atom => rfl
  | var => rfl
  | param => cases h
  | function q domain body ihd ihb =>
    rw [paramFree, Bool.and_eq_true] at h
    rw [replaceParam, ihd h.1, ihb h.2, ite_self]
  | apply head arg ihh iha =>
    rw [paramFree, Bool.and_eq_true] at h
    rw [replaceParam, ihh h.1, iha h.2]
  | projection inner ih => rw [replaceParam, ih h]
  | cast inner ih => rw [replaceParam, ih h]

theorem paramFree_unproject (h : t.paramFree = true) : t.unproject.paramFree = true := by
  induction t with
  | tau => rfl
  | atom => rfl
  | var => rfl
  | param => cases h
  | function q domain body ihd ihb =>
    rw [paramFree, Bool.and_eq_true] at h
    rw [unproject, paramFree, ihd h.1, ihb h.2]
    rfl
  | apply head arg ihh iha =>
    rw [paramFree, Bool.and_eq_true] at h
    rw [unproject, paramFree, ihh h.1, iha h.2]
    rfl
  | projection inner ih => exact ih h
  | cast inner ih => exact ih h

theorem paramFree_unwrapped (h : t.paramFree = true) : t.unwrapped.paramFree = true := by
  induction t with
  | projection inner ih => exact ih h
  | _ => exact h

theorem paramFree_mapVars {f : StatementId → Option Term} (h : t.paramFree = true)
    (hf : ∀ x image, f x = some image → image.paramFree = true) :
    (t.mapVars f).paramFree = true := by
  induction t with
  | tau => rfl
  | atom => rfl
  | var x type =>
    rw [mapVars]
    cases hx : f x with
    | none => rfl
    | some image => exact hf x image hx
  | param => cases h
  | function q domain body ihd ihb =>
    rw [paramFree, Bool.and_eq_true] at h
    rw [mapVars, paramFree, ihd h.1, ihb h.2]
    rfl
  | apply head arg ihh iha =>
    rw [paramFree, Bool.and_eq_true] at h
    rw [mapVars, paramFree, ihh h.1, iha h.2]
    rfl
  | projection inner ih => exact ih h
  | cast inner ih => exact ih h

theorem paramFree_compose (h : t.compose arg = .ok T) (ht : t.paramFree = true)
    (ha : arg.paramFree = true) : T.paramFree = true := by
  have hu := paramFree_unwrapped ht
  rcases compose_ok h with ⟨q, domain, body, found, hfun, -, -, rfl⟩ | rfl
  · rw [hfun, paramFree, Bool.and_eq_true] at hu
    rw [replaceParam_of_paramFree hu.2]
    exact hu.2
  · rw [paramFree, hu, ha]
    rfl

theorem paramFree_typeOfWith {again : Term → Except TermError Term} (hc : t.castFree = true)
    (h : typeOfWith again t = .ok T) (ht : t.paramFree = true)
    (hvars : ∀ x type, (x, type) ∈ t.occurrences → type.paramFree = true) :
    T.paramFree = true := by
  induction t generalizing T with
  | tau => cases h
  | atom =>
    cases h
    rfl
  | var x type =>
    cases h
    exact hvars x type List.mem_cons_self
  | param => cases ht
  | function q domain body ihd ihb =>
    rw [castFree, Bool.and_eq_true] at hc
    rw [paramFree, Bool.and_eq_true] at ht
    obtain ⟨type, hbody, rfl⟩ := typeOfWith_function_ok h
    rw [paramFree, ht.1, Bool.true_and]
    exact ihb hc.2 hbody ht.2 fun x ty hx => hvars x ty (List.mem_append_right _ hx)
  | apply head arg ihh iha =>
    rw [castFree, Bool.and_eq_true] at hc
    rw [paramFree, Bool.and_eq_true] at ht
    obtain ⟨type, q, domain, body, found, hhead, hu, -, -, rfl⟩ := typeOfWith_apply_ok h
    have htype := paramFree_unproject
      (ihh hc.1 hhead ht.1 fun x ty hx => hvars x ty (List.mem_append_left _ hx))
    rw [hu, paramFree, Bool.and_eq_true] at htype
    rw [replaceParam_of_paramFree htype.2]
    exact htype.2
  | projection inner ih => exact ih hc h ht hvars
  | cast => cases hc

theorem paramFree_typeOf (hc : t.castFree = true) (h : t.typeOf = .ok T) (ht : t.paramFree = true)
    (hvars : ∀ x type, (x, type) ∈ t.occurrences → type.paramFree = true) :
    T.paramFree = true := by
  obtain ⟨again, he⟩ := exists_typeOfWith t
  exact paramFree_typeOfWith hc (he ▸ h) ht hvars

theorem paramFree_peel {ids : List StatementId} {entries : List (StatementId × Term)}
    {consequent : Term} (h : peel ids t = (entries, consequent)) (ht : t.paramFree = true) :
    (∀ e ∈ entries, e.2.paramFree = true) ∧ consequent.paramFree = true := by
  fun_induction peel ids t generalizing entries consequent with
  | case1 y ids q domain body rest left hpeel ih =>
    cases h
    rw [paramFree, Bool.and_eq_true] at ht
    obtain ⟨hrest, hleft⟩ := ih hpeel (by rw [replaceParam_of_paramFree ht.2]; exact ht.2)
    refine ⟨fun e he => ?_, hleft⟩
    rcases List.mem_cons.1 he with rfl | he
    · exact ht.1
    · exact hrest e he
  | case2 =>
    cases h
    exact ⟨fun e he => (by cases he), ht⟩

theorem equivUnder_paramFree {pairs : List (ParamId × ParamId)} (h : equivUnder pairs t u = true)
    (hu : u.paramFree = true) :
    t.paramFree = true ∧ t.occurrences.map Prod.fst = u.occurrences.map Prod.fst := by
  fun_induction equivUnder pairs t u with
  | case1 => exact ⟨rfl, rfl⟩
  | case2 => exact ⟨rfl, rfl⟩
  | case3 pairs x type y type' =>
    rw [of_decide_eq_true h]
    exact ⟨rfl, rfl⟩
  | case4 => cases hu
  | case5 pairs p domain body q domain' body' ihd ihb =>
    rw [Bool.and_eq_true] at h
    rw [paramFree, Bool.and_eq_true] at hu
    obtain ⟨hd, hd'⟩ := ihd h.1 hu.1
    obtain ⟨hb, hb'⟩ := ihb h.2 hu.2
    simp only [paramFree, occurrences, List.map_append, hd, hd', hb, hb']
    exact ⟨rfl, trivial⟩
  | case6 pairs head arg head' arg' ihh iha =>
    rw [Bool.and_eq_true] at h
    rw [paramFree, Bool.and_eq_true] at hu
    obtain ⟨hh, hh'⟩ := ihh h.1 hu.1
    obtain ⟨ha, ha'⟩ := iha h.2 hu.2
    simp only [paramFree, occurrences, List.map_append, hh, hh', ha, ha']
    exact ⟨rfl, trivial⟩
  | case7 pairs inner inner' ih => exact ih h hu
  | case8 pairs inner inner' ih => exact ih h hu
  | case9 => cases h

theorem paramFree_of_beq (h : (t == u) = true) (hu : u.paramFree = true) : t.paramFree = true :=
  (equivUnder_paramFree h hu).1

theorem freeVars_of_beq (h : (t == u) = true) (hu : u.paramFree = true) :
    t.freeVars = u.freeVars := by
  rw [freeVars, freeVars, (equivUnder_paramFree h hu).2]

end Term

end StatementGraph
