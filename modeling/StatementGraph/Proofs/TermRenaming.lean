import Mathlib.Logic.Basic
import StatementGraph.Proofs.TermCasts

namespace StatementGraph

namespace Term

variable {f g f' g' : StatementId → Option Term} {t u T arg : Term} {p : ParamId}

theorem mapVars_var {x : StatementId} {type : Term} :
    (var x type).mapVars f = (f x).getD (var x type) := rfl

/-- Two renamings one after the other come to the same if they do for every variable. -/
theorem mapVars_mapVars_congr
    (h : ∀ x type, (x, type) ∈ t.occurrences →
      ((var x type).mapVars f).mapVars g = ((var x type).mapVars f').mapVars g') :
    (t.mapVars f).mapVars g = (t.mapVars f').mapVars g' := by
  induction t with
  | tau => rfl
  | atom => rfl
  | var x type => exact h x type List.mem_cons_self
  | param q type ih => exact congrArg (param q) (ih h)
  | function q domain body ihd ihb =>
    have hd := ihd fun x ty hx => h x ty (List.mem_append_left _ hx)
    have hb := ihb fun x ty hx => h x ty (List.mem_append_right _ hx)
    exact congrArg₂ (function q) hd hb
  | apply head arg ihh iha =>
    have hh := ihh fun x ty hx => h x ty (List.mem_append_left _ hx)
    have ha := iha fun x ty hx => h x ty (List.mem_append_right _ hx)
    exact congrArg₂ apply hh ha
  | projection inner ih => exact congrArg projection (ih h)
  | cast inner ih => exact congrArg cast (ih h)

theorem mapVars_none (t : Term) : t.mapVars (fun _ => none) = t := by
  induction t with
  | tau => rfl
  | atom => rfl
  | var => rfl
  | param q type ih => exact congrArg (param q) ih
  | function q domain body ihd ihb => exact congrArg₂ (function q) ihd ihb
  | apply head arg ihh iha => exact congrArg₂ apply ihh iha
  | projection inner ih => exact congrArg projection ih
  | cast inner ih => exact congrArg cast ih

theorem mapVars_congr (h : ∀ x ∈ t.freeVars, f x = g x) : t.mapVars f = t.mapVars g := by
  rw [← mapVars_none (t.mapVars f), ← mapVars_none (t.mapVars g)]
  apply mapVars_mapVars_congr
  intro x type hx
  rw [mapVars_var, mapVars_var, h x (mem_freeVars.2 ⟨type, hx⟩)]

theorem mapVars_eq_self (h : ∀ x ∈ t.freeVars, f x = none) : t.mapVars f = t :=
  (mapVars_congr h).trans (mapVars_none t)

def Renaming (f : StatementId → Option Term) : Prop :=
  ∀ x image, f x = some image → ∃ y type, image = var y type

theorem Renaming.var (hf : Renaming f) (x : StatementId) (type : Term) :
    ∃ y type', (Term.var x type).mapVars f = Term.var y type' := by
  rw [mapVars_var]
  cases hx : f x with
  | none => exact ⟨x, type, rfl⟩
  | some image => exact hf x image hx

theorem map_fst_occurrences {k : StatementId → StatementId}
    (hk : ∀ x type, ∃ type', (Term.var x type).mapVars f = Term.var (k x) type') (t : Term) :
    (t.mapVars f).occurrences.map Prod.fst = (t.occurrences.map Prod.fst).map k := by
  induction t with
  | tau => rfl
  | atom => rfl
  | var x type =>
    obtain ⟨type', hvar⟩ := hk x type
    rw [hvar]
    rfl
  | param q type ih => exact ih
  | function q domain body ihd ihb =>
    rw [mapVars, occurrences, occurrences, List.map_append, List.map_append, List.map_append, ihd,
      ihb]
  | apply head arg ihh iha =>
    rw [mapVars, occurrences, occurrences, List.map_append, List.map_append, List.map_append, ihh,
      iha]
  | projection inner ih => exact ih
  | cast inner ih => exact ih

theorem mem_freeVars_mapVars {k : StatementId → StatementId} {y : StatementId}
    (hk : ∀ x type, ∃ type', (Term.var x type).mapVars f = Term.var (k x) type') :
    y ∈ (t.mapVars f).freeVars ↔ ∃ x ∈ t.freeVars, k x = y := by
  simp only [freeVars, IdSet.mem_ofList, map_fst_occurrences hk, List.mem_map]

theorem Renaming.castFree (hf : Renaming f) (h : t.castFree = true) :
    (t.mapVars f).castFree = true := by
  apply castFree_mapVars h
  intro x image hx
  obtain ⟨y, type, rfl⟩ := hf x image hx
  rfl

theorem Renaming.unproject (hf : Renaming f) (t : Term) :
    (t.mapVars f).unproject = t.unproject.mapVars f := by
  induction t with
  | tau => rfl
  | atom => rfl
  | var x type =>
    obtain ⟨y, type', hvar⟩ := hf.var x type
    rw [Term.unproject, hvar]
    rfl
  | param q type ih => exact congrArg (param q) ih
  | function q domain body ihd ihb => exact congrArg₂ (function q) ihd ihb
  | apply head arg ihh iha => exact congrArg₂ Term.apply ihh iha
  | projection inner ih => exact ih
  | cast inner ih => exact congrArg cast ih

theorem Renaming.replaceParam (hf : Renaming f) (t : Term) (p : ParamId) (image : Term) :
    (t.replaceParam p image).mapVars f = (t.mapVars f).replaceParam p (image.mapVars f) := by
  induction t with
  | tau => rfl
  | atom => rfl
  | var x type =>
    obtain ⟨y, type', hvar⟩ := hf.var x type
    rw [Term.replaceParam, hvar]
    rfl
  | param q type ih =>
    rw [Term.replaceParam, mapVars, Term.replaceParam]
    split
    · rfl
    · exact congrArg (param q) ih
  | function q domain body ihd ihb =>
    rw [Term.replaceParam, mapVars, ihd, mapVars, Term.replaceParam]
    split
    · rfl
    · rw [ihb]
  | apply head arg ihh iha => exact congrArg₂ Term.apply ihh iha
  | projection inner ih => exact congrArg projection ih
  | cast inner ih => exact congrArg cast ih

theorem Renaming.arity (hf : Renaming f) (t : Term) : (t.mapVars f).arity = t.arity := by
  induction t with
  | var x type =>
    obtain ⟨y, type', hvar⟩ := hf.var x type
    rw [hvar]
    rfl
  | function q domain body ihd ihb => exact congrArg (· + 1) ihb
  | _ => rfl

theorem Renaming.equivUnder (hf : Renaming f) {pairs : List (ParamId × ParamId)}
    (h : equivUnder pairs t u = true) :
    Term.equivUnder pairs (t.mapVars f) (u.mapVars f) = true := by
  fun_induction Term.equivUnder pairs t u with
  | case1 => rfl
  | case2 pairs a b => exact h
  | case3 pairs a type b type' =>
    cases of_decide_eq_true h
    rw [mapVars_var, mapVars_var]
    cases hx : f a with
    | none => exact decide_eq_true rfl
    | some image =>
      obtain ⟨y, ty, rfl⟩ := hf a image hx
      exact decide_eq_true rfl
  | case4 pairs a type b type' => exact h
  | case5 pairs q domain body q' domain' body' ihd ihb =>
    rw [Bool.and_eq_true] at h
    rw [mapVars, mapVars, Term.equivUnder, ihd h.1, ihb h.2]
    rfl
  | case6 pairs head arg head' arg' ihh iha =>
    rw [Bool.and_eq_true] at h
    rw [mapVars, mapVars, Term.equivUnder, ihh h.1, iha h.2]
    rfl
  | case7 pairs inner inner' ih => exact ih h
  | case8 pairs inner inner' ih => exact ih h
  | case9 => cases h

theorem Renaming.beq (hf : Renaming f) (h : (t == u) = true) :
    (t.mapVars f == u.mapVars f) = true :=
  hf.equivUnder h

/-- The image of each variable of a term carries the renamed type. -/
def Respects (f : StatementId → Option Term) (t : Term) : Prop :=
  ∀ x type, (x, type) ∈ t.occurrences → ∃ y, (var x type).mapVars f = var y (type.mapVars f)

theorem instantiate_mapVars {domain body found : Term} (hf : Renaming f)
    (h : (found == domain) = true) :
    instantiate p (domain.mapVars f) (body.mapVars f) (arg.mapVars f) (found.mapVars f) =
      .ok ((body.replaceParam p arg).mapVars f) := by
  rw [instantiate, if_pos (hf.beq h), hf.replaceParam]

theorem typeOfWith_mapVars {again : Term → Except TermError Term} (hf : Renaming f)
    (hc : t.castFree = true) (hr : t.Respects f) (h : typeOfWith again t = .ok T) :
    typeOfWith again (t.mapVars f) = .ok (T.mapVars f) := by
  induction t generalizing T with
  | tau => cases h
  | atom =>
    cases h
    rfl
  | var x type =>
    cases h
    obtain ⟨y, hy⟩ := hr x type List.mem_cons_self
    rw [hy]
    rfl
  | param q type =>
    cases h
    rfl
  | function q domain body ihd ihb =>
    rw [castFree, Bool.and_eq_true] at hc
    obtain ⟨type, hbody, rfl⟩ := typeOfWith_function_ok h
    have hbody' := ihb hc.2 (fun x ty hx => hr x ty (List.mem_append_right _ hx)) hbody
    rw [mapVars, typeOfWith, hbody']
    rfl
  | apply head arg ihh iha =>
    rw [castFree, Bool.and_eq_true] at hc
    obtain ⟨type, q, domain, body, found, hhead, hu, harg, heq, rfl⟩ := typeOfWith_apply_ok h
    have hhead' := ihh hc.1 (fun x ty hx => hr x ty (List.mem_append_left _ hx)) hhead
    have harg' := iha hc.2 (fun x ty hx => hr x ty (List.mem_append_right _ hx)) harg
    have hu' : (type.mapVars f).unproject =
        function q (domain.mapVars f) (body.mapVars f) := by
      rw [hf.unproject, hu]
      rfl
    rw [mapVars, typeOfWith, hhead']
    dsimp only [bind, Except.bind]
    rw [hu']
    dsimp only
    rw [harg']
    exact instantiate_mapVars hf heq
  | projection inner ih => exact ih hc hr h
  | cast => cases hc

theorem typeOf_mapVars (hf : Renaming f) (hc : t.castFree = true) (hr : t.Respects f)
    (h : t.typeOf = .ok T) : (t.mapVars f).typeOf = .ok (T.mapVars f) := by
  obtain ⟨again, hagain⟩ := exists_typeOfWith t
  rw [typeOf_eq again (hf.castFree hc)]
  exact typeOfWith_mapVars hf hc hr (hagain ▸ h)

theorem compose_mapVars (hf : Renaming f) (ht : t.castFree = true) (ha : arg.castFree = true)
    (hr : arg.Respects f) (hT : T.Respects f) (h : t.compose arg = .ok T) :
    (t.mapVars f).compose (arg.mapVars f) = .ok (T.mapVars f) := by
  have happly {t : Term} (ht : t.castFree = true)
      (h : (do let _ ← (apply t arg).typeOf; return apply t arg) = Except.ok T) :
      (do let _ ← (apply (t.mapVars f) (arg.mapVars f)).typeOf
          return apply (t.mapVars f) (arg.mapVars f)) = Except.ok (T.mapVars f) := by
    cases hty : (apply t arg).typeOf with
    | error e =>
      rw [hty] at h
      cases h
    | ok type =>
      rw [hty] at h
      cases h
      have hc : (apply t arg).castFree = true := by rw [castFree, ht, ha]; rfl
      have htype : (apply (t.mapVars f) (arg.mapVars f)).typeOf = .ok (type.mapVars f) :=
        typeOf_mapVars hf hc hT hty
      rw [htype]
      rfl
  induction t with
  | function q domain body =>
    rw [compose] at h
    cases hty : arg.typeOf with
    | error e =>
      rw [hty] at h
      cases h
    | ok found =>
      rw [hty] at h
      obtain ⟨heq, rfl⟩ := instantiate_ok h
      rw [mapVars, compose, typeOf_mapVars hf ha hr hty]
      exact instantiate_mapVars hf heq
  | projection inner ih => exact ih ht h
  | var x type =>
    have hnext := happly ht h
    obtain ⟨y, type', hvar⟩ := hf.var x type
    rw [hvar] at hnext ⊢
    exact hnext
  | tau => exact happly ht h
  | atom => exact happly ht h
  | param => exact happly ht h
  | apply => exact happly ht h
  | cast => cases ht

theorem peel_nil (t : Term) : peel [] t = ([], t) := by
  cases t <;> rfl

/-- Taking functions off the front of a renamed term, for ids that are renamed as well. -/
theorem peel_mapVars {ids ids' : List StatementId} {entries entries' : List (StatementId × Term)}
    {consequent consequent' : Term} (hf : Renaming f) (hlen : ids'.length = ids.length)
    (h : peel ids t = (entries, consequent))
    (h' : peel ids' (t.mapVars f) = (entries', consequent'))
    (hids : ∀ (i : Nat) x y type, ids[i]? = some x → entries'[i]? = some (y, type) →
      f x = some (var y type)) :
    entries'.map Prod.snd = entries.map (fun e => e.2.mapVars f) ∧
      consequent' = consequent.mapVars f := by
  induction ids generalizing ids' t entries entries' consequent consequent' with
  | nil =>
    cases List.eq_nil_of_length_eq_zero hlen
    cases (peel_nil t).symm.trans h
    cases (peel_nil (t.mapVars f)).symm.trans h'
    exact ⟨rfl, rfl⟩
  | cons x ids ih =>
    cases ids' with
    | nil => cases hlen
    | cons y ids' =>
      cases t with
      | function q domain body =>
        rw [peel] at h
        rw [mapVars, peel] at h'
        cases hrest : peel ids (body.replaceParam q (var x domain)) with
        | mk rest left =>
          cases hrest' : peel ids'
              ((body.mapVars f).replaceParam q (var y (domain.mapVars f))) with
          | mk rest' left' =>
            rw [hrest] at h
            rw [hrest'] at h'
            cases h
            cases h'
            have hx : f x = some (var y (domain.mapVars f)) := hids 0 x y _ rfl rfl
            have himage : (var x domain).mapVars f = var y (domain.mapVars f) := by
              rw [mapVars_var, hx]
              rfl
            rw [← himage, ← hf.replaceParam] at hrest'
            obtain ⟨hdomains, hleft⟩ := ih (Nat.succ.inj hlen) hrest hrest'
              fun i z w type hz hw => hids (i + 1) z w type hz hw
            exact ⟨by rw [List.map_cons, List.map_cons, hdomains], hleft⟩
      | var z type =>
        obtain ⟨w, type', hvar⟩ := hf.var z type
        rw [hvar] at h'
        cases h
        cases h'
        exact ⟨rfl, hvar.symm⟩
      | _ =>
        cases h
        cases h'
        exact ⟨rfl, rfl⟩

end Term

end StatementGraph
