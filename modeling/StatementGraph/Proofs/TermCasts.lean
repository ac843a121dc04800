import StatementGraph.Proofs.TermParams
import StatementGraph.Proofs.TypingDepth

namespace StatementGraph

namespace Term

variable {t u T arg image : Term} {p : ParamId}

theorem castFree_unproject (h : t.castFree = true) : t.unproject.castFree = true := by
  induction t with
  | tau => rfl
  | atom => rfl
  | var => rfl
  | param q type ih => exact ih h
  | function q domain body ihd ihb =>
    rw [castFree, Bool.and_eq_true] at h
    rw [unproject, castFree, ihd h.1, ihb h.2]
    rfl
  | apply head arg ihh iha =>
    rw [castFree, Bool.and_eq_true] at h
    rw [unproject, castFree, ihh h.1, iha h.2]
    rfl
  | projection inner ih => exact ih h
  | cast => cases h

theorem castFree_unwrapped (h : t.castFree = true) : t.unwrapped.castFree = true := by
  induction t with
  | projection inner ih => exact ih h
  | _ => exact h

theorem castFree_replaceParam (h : t.castFree = true) (hi : image.castFree = true) :
    (t.replaceParam p image).castFree = true := by
  induction t with
  | tau => rfl
  | atom => rfl
  | var => rfl
  | param q type ih =>
    rw [replaceParam]
    split
    · exact hi
    · exact ih h
  | function q domain body ihd ihb =>
    rw [castFree, Bool.and_eq_true] at h
    rw [replaceParam, castFree, ihd h.1, Bool.true_and]
    split
    · exact h.2
    · exact ihb h.2
  | apply head arg ihh iha =>
    rw [castFree, Bool.and_eq_true] at h
    rw [replaceParam, castFree, ihh h.1, iha h.2]
    rfl
  | projection inner ih => exact ih h
  | cast => cases h

theorem castFree_mapVars {f : StatementId → Option Term} (h : t.castFree = true)
    (hf : ∀ x image, f x = some image → image.castFree = true) :
    (t.mapVars f).castFree = true := by
  induction t with
  | tau => rfl
  | atom => rfl
  | var x type =>
    rw [mapVars]
    cases hx : f x with
    | none => rfl
    | some image => exact hf x image hx
  | param q type ih => exact ih h
  | function q domain body ihd ihb =>
    rw [castFree, Bool.and_eq_true] at h
    rw [mapVars, castFree, ihd h.1, ihb h.2]
    rfl
  | apply head arg ihh iha =>
    rw [castFree, Bool.and_eq_true] at h
    rw [mapVars, castFree, ihh h.1, iha h.2]
    rfl
  | projection inner ih => exact ih h
  | cast => cases h

theorem castFree_compose (h : t.compose arg = .ok T) (ht : t.castFree = true)
    (ha : arg.castFree = true) : T.castFree = true := by
  have hu := castFree_unwrapped ht
  rcases compose_ok h with ⟨q, domain, body, found, hfun, -, -, rfl⟩ | rfl
  · rw [hfun, castFree, Bool.and_eq_true] at hu
    exact castFree_replaceParam hu.2 ha
  · rw [castFree, hu, ha]
    rfl

theorem castFree_typeOfWith {again : Term → Except TermError Term} (hc : t.castFree = true)
    (h : typeOfWith again t = .ok T)
    (hvars : ∀ x type, (x, type) ∈ t.occurrences → type.castFree = true) : T.castFree = true := by
  induction t generalizing T with
  | tau => cases h
  | atom =>
    cases h
    rfl
  | var x type =>
    cases h
    exact hvars x type List.mem_cons_self
  | param q type =>
    cases h
    exact hc
  | function q domain body ihd ihb =>
    rw [castFree, Bool.and_eq_true] at hc
    obtain ⟨type, hbody, rfl⟩ := typeOfWith_function_ok h
    rw [castFree, hc.1, Bool.true_and]
    exact ihb hc.2 hbody fun x ty hx => hvars x ty (List.mem_append_right _ hx)
  | apply head arg ihh iha =>
    rw [castFree, Bool.and_eq_true] at hc
    obtain ⟨type, q, domain, body, found, hhead, hu, -, -, rfl⟩ := typeOfWith_apply_ok h
    have htype := castFree_unproject
      (ihh hc.1 hhead fun x ty hx => hvars x ty (List.mem_append_left _ hx))
    rw [hu, castFree, Bool.and_eq_true] at htype
    exact castFree_replaceParam htype.2 hc.2
  | projection inner ih => exact ih hc h hvars
  | cast => cases hc

theorem castFree_typeOf (hc : t.castFree = true) (h : t.typeOf = .ok T)
    (hvars : ∀ x type, (x, type) ∈ t.occurrences → type.castFree = true) : T.castFree = true := by
  obtain ⟨again, he⟩ := exists_typeOfWith t
  exact castFree_typeOfWith hc (he ▸ h) hvars

theorem castFree_peel {ids : List StatementId} {entries : List (StatementId × Term)}
    {consequent : Term} (h : peel ids t = (entries, consequent)) (ht : t.castFree = true) :
    (∀ e ∈ entries, e.2.castFree = true) ∧ consequent.castFree = true := by
  fun_induction peel ids t generalizing entries consequent with
  | case1 y ids q domain body rest left hpeel ih =>
    cases h
    rw [castFree, Bool.and_eq_true] at ht
    obtain ⟨hrest, hleft⟩ := ih hpeel (castFree_replaceParam ht.2 rfl)
    refine ⟨?_, hleft⟩
    intro e he
    rcases List.mem_cons.1 he with rfl | he
    · exact ht.1
    · exact hrest e he
  | case2 =>
    cases h
    exact ⟨fun e he => (by cases he), ht⟩

theorem castFree_equivUnder {pairs : List (ParamId × ParamId)} (h : equivUnder pairs t u = true)
    (hp : u.paramFree = true) (hu : u.castFree = true) : t.castFree = true := by
  fun_induction equivUnder pairs t u with
  | case1 => rfl
  | case2 => rfl
  | case3 => rfl
  | case4 => cases hp
  | case5 pairs p domain body q domain' body' ihd ihb =>
    rw [Bool.and_eq_true] at h
    rw [paramFree, Bool.and_eq_true] at hp
    rw [castFree, Bool.and_eq_true] at hu
    rw [castFree, ihd h.1 hp.1 hu.1, ihb h.2 hp.2 hu.2]
    rfl
  | case6 pairs head arg head' arg' ihh iha =>
    rw [Bool.and_eq_true] at h
    rw [paramFree, Bool.and_eq_true] at hp
    rw [castFree, Bool.and_eq_true] at hu
    rw [castFree, ihh h.1 hp.1 hu.1, iha h.2 hp.2 hu.2]
    rfl
  | case7 pairs inner inner' ih => exact ih h hp hu
  | case8 => cases hu
  | case9 => cases h

theorem castFree_of_beq (h : (t == u) = true) (hp : u.paramFree = true) (hu : u.castFree = true) :
    t.castFree = true :=
  castFree_equivUnder h hp hu

theorem typeOfWith_eq (again again' : Term → Except TermError Term) (hc : t.castFree = true) :
    typeOfWith again t = typeOfWith again' t := by
  have hends : EndsWith again' (fun _ => False) t := endsWith_of_castFree hc
  exact hends.typeOfWith_eq fun _ h => h.elim

theorem typeOf_eq (again : Term → Except TermError Term) (hc : t.castFree = true) :
    t.typeOf = typeOfWith again t := by
  obtain ⟨again', he⟩ := exists_typeOfWith t
  rw [he]
  exact typeOfWith_eq again' again hc

end Term

end StatementGraph
