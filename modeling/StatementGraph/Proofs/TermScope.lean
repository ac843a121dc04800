import StatementGraph.Proofs.Tables
import StatementGraph.Term.Typing

namespace StatementGraph

namespace Term

variable {t u T arg image : Term} {p : ParamId} {x : StatementId} {o : StatementId × Term}

theorem mem_freeVars : x ∈ t.freeVars ↔ ∃ type, (x, type) ∈ t.occurrences := by
  rw [freeVars, IdSet.mem_ofList, List.mem_map]
  constructor
  · rintro ⟨⟨y, type⟩, h, rfl⟩
    exact ⟨type, h⟩
  · rintro ⟨type, h⟩
    exact ⟨(x, type), h, rfl⟩

theorem occurrences_unproject (t : Term) : t.unproject.occurrences = t.occurrences := by
  induction t with
  | tau => rfl
  | atom => rfl
  | var => rfl
  | param _ _ ih => simpa only [unproject, occurrences] using ih
  | function _ _ _ ihd ihb => simp only [unproject, occurrences, ihd, ihb]
  | apply _ _ ihh iha => simp only [unproject, occurrences, ihh, iha]
  | projection _ ih => simpa only [unproject, occurrences] using ih
  | cast _ ih => simpa only [unproject, occurrences] using ih

/-- A term without the projection markers around it. -/
def unwrapped : Term → Term
  | projection inner => inner.unwrapped
  | t => t

theorem occurrences_unwrapped (t : Term) : t.unwrapped.occurrences = t.occurrences := by
  induction t with
  | projection inner ih => exact ih
  | _ => rfl

theorem mem_occurrences_replaceParam (h : o ∈ (t.replaceParam p image).occurrences) :
    o ∈ t.occurrences ∨ o ∈ image.occurrences := by
  induction t with
  | tau => exact Or.inl h
  | atom => exact Or.inl h
  | var => exact Or.inl h
  | param q type ih =>
    rw [replaceParam] at h
    split at h
    · exact Or.inr h
    · exact ih h
  | function q domain body ihd ihb =>
    rw [replaceParam, occurrences] at h
    rw [occurrences, List.mem_append]
    rcases List.mem_append.1 h with h | h
    · exact (ihd h).imp Or.inl id
    · split at h
      · exact Or.inl (Or.inr h)
      · exact (ihb h).imp Or.inr id
  | apply head arg ihh iha =>
    rw [replaceParam, occurrences] at h
    rw [occurrences, List.mem_append]
    rcases List.mem_append.1 h with h | h
    · exact (ihh h).imp Or.inl id
    · exact (iha h).imp Or.inr id
  | projection inner ih => exact ih h
  | cast inner ih => exact ih h

theorem instantiate_ok {domain body found : Term}
    (h : instantiate p domain body arg found = .ok T) :
    (found == domain) = true ∧ T = body.replaceParam p arg := by
  rw [instantiate] at h
  split at h
  · rename_i he
    cases h
    exact ⟨he, rfl⟩
  · cases h

theorem checked_ok (h : (do let _ ← (apply t arg).typeOf; return apply t arg) = Except.ok T) :
    T = apply t arg := by
  cases hty : (apply t arg).typeOf with
  | error e =>
    rw [hty] at h
    cases h
  | ok ty =>
    rw [hty] at h
    cases h
    rfl

/-- A composed term is the body of a function with the argument put in, or an application. -/
theorem compose_ok (h : t.compose arg = .ok T) :
    (∃ q domain body found, t.unwrapped = function q domain body ∧ arg.typeOf = .ok found ∧
      (found == domain) = true ∧ T = body.replaceParam q arg) ∨ T = apply t.unwrapped arg := by
  induction t with
  | function q domain body =>
    rw [compose] at h
    cases hty : arg.typeOf with
    | error e =>
      rw [hty] at h
      cases h
    | ok found =>
      rw [hty] at h
      obtain ⟨he, hT⟩ := instantiate_ok h
      exact Or.inl ⟨q, domain, body, found, rfl, rfl, he, hT⟩
  | projection inner ih =>
    rw [compose] at h
    exact ih h
  | tau => exact Or.inr (checked_ok h)
  | atom => exact Or.inr (checked_ok h)
  | var => exact Or.inr (checked_ok h)
  | param => exact Or.inr (checked_ok h)
  | apply => exact Or.inr (checked_ok h)
  | cast => exact Or.inr (checked_ok h)

theorem mem_occurrences_compose (h : t.compose arg = .ok T) (ho : o ∈ T.occurrences) :
    o ∈ t.occurrences ∨ o ∈ arg.occurrences := by
  rw [← occurrences_unwrapped]
  rcases compose_ok h with ⟨q, domain, body, found, ht, _, _, rfl⟩ | rfl
  · rw [ht, occurrences, List.mem_append]
    exact (mem_occurrences_replaceParam ho).imp Or.inr id
  · exact List.mem_append.1 ho

theorem typeOfWith_apply_ok {again : Term → Except TermError Term}
    (h : typeOfWith again (apply t arg) = .ok T) :
    ∃ head q domain body found, typeOfWith again t = .ok head ∧
      head.unproject = function q domain body ∧ typeOfWith again arg = .ok found ∧
      (found == domain) = true ∧ T = body.replaceParam q arg := by
  rw [typeOfWith] at h
  cases hhead : typeOfWith again t with
  | error e =>
    rw [hhead] at h
    cases h
  | ok head =>
    rw [hhead] at h
    dsimp only [bind, Except.bind] at h
    split at h
    · rename_i q domain body hu
      cases harg : typeOfWith again arg with
      | error e =>
        rw [harg] at h
        cases h
      | ok found =>
        rw [harg] at h
        obtain ⟨he, hT⟩ := instantiate_ok h
        exact ⟨head, q, domain, body, found, rfl, hu, rfl, he, hT⟩
    · cases h

theorem typeOfWith_function_ok {again : Term → Except TermError Term} {domain body : Term}
    (h : typeOfWith again (function p domain body) = .ok T) :
    ∃ type, typeOfWith again body = .ok type ∧ T = function p domain type := by
  rw [typeOfWith] at h
  cases hbody : typeOfWith again body with
  | error e =>
    rw [hbody] at h
    cases h
  | ok type =>
    rw [hbody] at h
    cases h
    exact ⟨type, rfl, rfl⟩

theorem exists_typeOfWith (t : Term) : ∃ again, t.typeOf = typeOfWith again t := by
  have hpos : 0 < Nat.pow 2 t.fullSize := Nat.pow_pos (by decide)
  obtain ⟨depth, hdepth⟩ := Nat.exists_eq_add_of_lt hpos
  exact ⟨typeOfDepth depth, by rw [typeOf, hdepth, Nat.zero_add]; rfl⟩

theorem mem_occurrences_typeOf (hc : t.castFree = true) (h : t.typeOf = .ok T)
    (ho : o ∈ T.occurrences) :
    o ∈ t.occurrences ∨ ∃ x type, (x, type) ∈ t.occurrences ∧ o ∈ type.occurrences := by
  obtain ⟨again, he⟩ := exists_typeOfWith t
  rw [he] at h
  clear he
  induction t generalizing T with
  | tau => cases h
  | atom =>
    cases h
    cases ho
  | var x type =>
    cases h
    exact Or.inr ⟨x, type, List.mem_cons_self, ho⟩
  | param q type =>
    cases h
    exact Or.inl ho
  | function q domain body ihd ihb =>
    rw [castFree, Bool.and_eq_true] at hc
    obtain ⟨type, hbody, rfl⟩ := typeOfWith_function_ok h
    simp only [occurrences, List.mem_append] at ho ⊢
    rcases ho with ho | ho
    · exact Or.inl (Or.inl ho)
    · rcases ihb hc.2 ho hbody with ho | ⟨x, ty, hx, ho⟩
      · exact Or.inl (Or.inr ho)
      · exact Or.inr ⟨x, ty, Or.inr hx, ho⟩
  | apply head arg ihh iha =>
    rw [castFree, Bool.and_eq_true] at hc
    obtain ⟨ty, q, domain, body, found, hhead, hu, _, _, rfl⟩ := typeOfWith_apply_ok h
    simp only [occurrences, List.mem_append]
    rcases mem_occurrences_replaceParam ho with ho | ho
    · have ho' : o ∈ ty.occurrences := by
        rw [← occurrences_unproject, hu, occurrences, List.mem_append]
        exact Or.inr ho
      rcases ihh hc.1 ho' hhead with ho | ⟨x, ty, hx, ho⟩
      · exact Or.inl (Or.inl ho)
      · exact Or.inr ⟨x, ty, Or.inl hx, ho⟩
    · exact Or.inl (Or.inr ho)
  | projection inner ih => exact ih hc ho h
  | cast inner => cases hc

theorem mem_occurrences_mapVars {f : StatementId → Option Term}
    (h : o ∈ (t.mapVars f).occurrences) :
    o ∈ t.occurrences ∨
      ∃ x type image, (x, type) ∈ t.occurrences ∧ f x = some image ∧ o ∈ image.occurrences := by
  induction t with
  | tau => exact Or.inl h
  | atom => exact Or.inl h
  | var x type =>
    rw [mapVars] at h
    cases hf : f x with
    | none =>
      rw [hf] at h
      exact Or.inl h
    | some image =>
      rw [hf] at h
      exact Or.inr ⟨x, type, image, List.mem_cons_self, hf, h⟩
  | param q type ih => exact ih h
  | function q domain body ihd ihb =>
    simp only [mapVars, occurrences, List.mem_append] at h ⊢
    rcases h with h | h
    · rcases ihd h with h | ⟨x, ty, image, hx, hf, h⟩
      · exact Or.inl (Or.inl h)
      · exact Or.inr ⟨x, ty, image, Or.inl hx, hf, h⟩
    · rcases ihb h with h | ⟨x, ty, image, hx, hf, h⟩
      · exact Or.inl (Or.inr h)
      · exact Or.inr ⟨x, ty, image, Or.inr hx, hf, h⟩
  | apply head arg ihh iha =>
    simp only [mapVars, occurrences, List.mem_append] at h ⊢
    rcases h with h | h
    · rcases ihh h with h | ⟨x, ty, image, hx, hf, h⟩
      · exact Or.inl (Or.inl h)
      · exact Or.inr ⟨x, ty, image, Or.inl hx, hf, h⟩
    · rcases iha h with h | ⟨x, ty, image, hx, hf, h⟩
      · exact Or.inl (Or.inr h)
      · exact Or.inr ⟨x, ty, image, Or.inr hx, hf, h⟩
  | projection inner ih => exact ih h
  | cast inner ih => exact ih h

theorem mem_occurrences_peel {ids : List StatementId} {entries : List (StatementId × Term)}
    {consequent : Term} (h : peel ids t = (entries, consequent)) :
    (∀ i a domain, entries[i]? = some (a, domain) → ∀ o ∈ domain.occurrences,
      o ∈ t.occurrences ∨ o ∈ entries.take i) ∧
    ∀ o ∈ consequent.occurrences, o ∈ t.occurrences ∨ o ∈ entries := by
  fun_induction peel ids t generalizing entries consequent with
  | case1 y ids q domain body rest left hpeel ih =>
    cases h
    obtain ⟨hdomains, hleft⟩ := ih hpeel
    have hlift (o : StatementId × Term)
        (ho : o ∈ (body.replaceParam q (var y domain)).occurrences) :
        o ∈ (function q domain body).occurrences ∨ o = (y, domain) := by
      rw [occurrences, List.mem_append]
      rcases mem_occurrences_replaceParam ho with ho | ho
      · exact Or.inl (Or.inr ho)
      · exact Or.inr (List.mem_singleton.1 ho)
    constructor
    · intro i a dom hi o ho
      cases i with
      | zero =>
        cases hi
        rw [occurrences, List.mem_append]
        exact Or.inl (Or.inl ho)
      | succ i =>
        rw [List.take_succ_cons, List.mem_cons]
        rcases hdomains i a dom hi o ho with ho | ho
        · exact (hlift o ho).imp id Or.inl
        · exact Or.inr (Or.inr ho)
    · intro o ho
      rw [List.mem_cons]
      rcases hleft o ho with ho | ho
      · exact (hlift o ho).imp id Or.inl
      · exact Or.inr (Or.inr ho)
  | case2 =>
    cases h
    exact ⟨fun i a domain hi => by simp at hi, fun o ho => Or.inl ho⟩

theorem arity_replaceParam_var (t : Term) (p : ParamId) (x : StatementId) (type : Term) :
    (t.replaceParam p (var x type)).arity = t.arity := by
  induction t with
  | param q ty ih =>
    rw [replaceParam]
    split <;> rfl
  | function q domain body ihd ihb =>
    simp only [replaceParam, arity]
    split
    · rfl
    · rw [ihb]
  | _ => rfl

theorem peel_ids {ids : List StatementId} {entries : List (StatementId × Term)}
    {consequent : Term} (h : peel ids t = (entries, consequent)) (hl : ids.length = t.arity) :
    entries.map Prod.fst = ids := by
  fun_induction peel ids t generalizing entries consequent with
  | case1 y ids q domain body rest left hpeel ih =>
    cases h
    have hl' : ids.length = (body.replaceParam q (var y domain)).arity := by
      rw [arity_replaceParam_var]
      simpa [arity] using hl
    rw [List.map_cons, ih hpeel hl']
  | case2 ids t hne =>
    cases h
    cases ids with
    | nil => rfl
    | cons y rest =>
      cases t with
      | function q domain body => exact absurd rfl (hne y rest q domain body rfl)
      | _ => cases hl

end Term

end StatementGraph
