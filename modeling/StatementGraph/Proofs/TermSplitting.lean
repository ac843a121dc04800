import StatementGraph.Proofs.Nameless
import StatementGraph.Proofs.TermScope

namespace StatementGraph

/-! ### Variables that become parameters -/

namespace Place

theorem drop_eq_none {k : Nat} {place : Place} (h : place.drop k = none) : place = .inl k := by
  cases place with
  | inl i =>
    rw [drop] at h
    split at h
    · cases h
    · split at h
      case isTrue heq => rw [heq]
      case isFalse => cases h
  | inr p => cases h

theorem shift_of_drop {k : Nat} {place place' : Place} (h : place.drop k = some place') :
    place'.shift 1 k = place := by
  cases place with
  | inl i =>
    rw [drop] at h
    split at h
    case isTrue hlt =>
      cases h
      rw [shift, if_pos hlt]
    case isFalse hge =>
      split at h
      case isTrue => cases h
      case isFalse hne =>
        cases h
        have hlast : ¬i - 1 < k := by omega
        have hback : i - 1 + 1 = i := by omega
        rw [shift, if_neg hlast, hback]
  | inr p =>
    cases h
    rfl

end Place

/-- Make the variable of a statement a parameter of a new binder, outside the `k` innermost ones. -/
def Nameless.bindVar (a : StatementId) (k : Nat) : Nameless → Nameless
  | tau => tau
  | atom name => atom name
  | var id type => if id = a then param (.inl k) tau else var id type
  | param place type => param (place.shift 1 k) (type.bindVar a k)
  | function domain body => function (domain.bindVar a k) (body.bindVar a (k + 1))
  | apply head arg => apply (head.bindVar a k) (arg.bindVar a k)
  | projection inner => projection (inner.bindVar a k)
  | cast inner => cast (inner.bindVar a k)

namespace Term

open Place

variable {t D : Term} {p q r : ParamId} {a : StatementId} {inner outer binders : List ParamId}
  {ids : List StatementId} {entries : List (StatementId × Term)} {consequent : Term}

/-- The names of the parameters of a term, without those in carried types. -/
def names : Term → List ParamId
  | tau => []
  | atom _ => []
  | var _ _ => []
  | param p _ => [p]
  | function p domain body => p :: (domain.names ++ body.names)
  | apply head arg => head.names ++ arg.names
  | projection inner => inner.names
  | cast inner => inner.names

theorem nameless_replaceVar (hp : p ∉ inner) (h : p ∉ t.names) :
    ((t.replaceVar a (param p D)).nameless (inner ++ p :: outer)).erase =
      (t.nameless (inner ++ outer)).erase.bindVar a inner.length := by
  rw [replaceVar]
  induction t generalizing inner with
  | tau | atom => rfl
  | var x type =>
    rw [mapVars]
    by_cases hx : x = a
    · rw [if_pos hx, Option.getD_some, nameless, nameless, locate_append hp]
      simp [Nameless.erase, Nameless.bindVar, locate, hx]
    · rw [if_neg hx, Option.getD_none, nameless, nameless]
      simp [Nameless.erase, Nameless.bindVar, hx]
  | param q type =>
    have hq : q ≠ p := fun hq => h (List.mem_singleton.2 hq.symm)
    rw [mapVars, nameless, nameless, Nameless.erase, Nameless.erase, Nameless.bindVar,
      shift_of_drop (drop_locate (Or.inl hq)), Nameless.bindVar]
  | function q domain body ihd ihb =>
    simp only [names, List.mem_cons, List.mem_append, not_or] at h
    have hinner : p ∉ q :: inner := by simp [h.1, hp]
    rw [mapVars, nameless, nameless, Nameless.erase, Nameless.erase, Nameless.bindVar,
      ihd hp h.2.1]
    congr 1
    exact ihb hinner h.2.2
  | apply head arg ihh iha =>
    simp only [names, List.mem_append, not_or] at h
    rw [mapVars, nameless, nameless, Nameless.erase, Nameless.erase, Nameless.bindVar, ihh hp h.1,
      iha hp h.2]
  | projection inner ih =>
    rw [mapVars, nameless, nameless, Nameless.erase, Nameless.erase, Nameless.bindVar, ih hp h]
  | cast inner ih =>
    rw [mapVars, nameless, nameless, Nameless.erase, Nameless.erase, Nameless.bindVar, ih hp h]

theorem bindVar_subst {type : Nameless} {k : Nat} (h : ∀ o ∈ t.occurrences, o.1 ≠ a) :
    ((t.nameless binders).subst (.var a type) k).erase.bindVar a k =
      (t.nameless binders).erase := by
  induction t generalizing binders k with
  | tau | atom => rfl
  | var x carried =>
    have hx : x ≠ a := h (x, carried) List.mem_cons_self
    simp [nameless, Nameless.subst, Nameless.erase, Nameless.bindVar, hx]
  | param q carried =>
    rw [nameless, Nameless.subst]
    cases hdrop : (locate binders q).drop k with
    | none => simp [Nameless.lift, Nameless.erase, Nameless.bindVar, drop_eq_none hdrop]
    | some place => simp [Nameless.erase, Nameless.bindVar, shift_of_drop hdrop]
  | function q domain body ihd ihb =>
    rw [nameless, Nameless.subst, Nameless.erase, Nameless.bindVar,
      ihd fun o ho => h o (List.mem_append_left _ ho),
      ihb fun o ho => h o (List.mem_append_right _ ho), Nameless.erase]
  | apply head arg ihh iha =>
    rw [nameless, Nameless.subst, Nameless.erase, Nameless.bindVar,
      ihh fun o ho => h o (List.mem_append_left _ ho),
      iha fun o ho => h o (List.mem_append_right _ ho), Nameless.erase]
  | projection inner ih =>
    rw [nameless, Nameless.subst, Nameless.erase, Nameless.bindVar, ih h, Nameless.erase]
  | cast inner ih =>
    rw [nameless, Nameless.subst, Nameless.erase, Nameless.bindVar, ih h, Nameless.erase]

theorem function_beq {body u : Term} (hu : (u == body.replaceParam q (var a D)) = true)
    (hp : p ∉ u.names) (ha : ∀ o ∈ body.occurrences, o.1 ≠ a) :
    (function p D (u.replaceVar a (param p D)) == function q D body) = true := by
  have hbody : ((u.replaceVar a (param p D)).nameless [p]).erase = (body.nameless [q]).erase :=
    calc ((u.replaceVar a (param p D)).nameless [p]).erase
      _ = (u.nameless []).erase.bindVar a 0 := nameless_replaceVar List.not_mem_nil hp
      _ = ((body.replaceParam q (var a D)).nameless []).erase.bindVar a 0 := by
        rw [(@beq_iff _ _ []).1 hu]
      _ = ((body.nameless [q]).subst ((var a D).nameless []) 0).erase.bindVar a 0 := by
        have hclosed : (var a D).Closed := fun _ => rfl
        have hsubst := @nameless_replaceParam body (var a D) q [] [] List.not_mem_nil
          (fun _ r hr => by cases hr) hclosed.admits
        rw [List.nil_append] at hsubst
        rw [hsubst]
        rfl
      _ = (body.nameless [q]).erase := bindVar_subst ha
  change equivUnder [] _ _ = true
  rw [equivUnder, Bool.and_eq_true]
  exact ⟨beq_refl D, equivUnder_iff.2 hbody⟩

/-! ### Names -/

theorem mem_names_replaceVar (h : r ∈ (t.replaceVar a (param p D)).names) :
    r ∈ t.names ∨ r = p := by
  rw [replaceVar] at h
  induction t with
  | tau | atom => exact Or.inl h
  | var x type =>
    rw [mapVars] at h
    split at h
    · exact Or.inr (List.mem_singleton.1 h)
    · exact Or.inl h
  | param q type => exact Or.inl h
  | function q domain body ihd ihb =>
    simp only [mapVars, names, List.mem_cons, List.mem_append] at h ⊢
    rcases h with h | h | h
    · exact Or.inl (Or.inl h)
    · exact (ihd h).imp_left fun hr => Or.inr (Or.inl hr)
    · exact (ihb h).imp_left fun hr => Or.inr (Or.inr hr)
  | apply head arg ihh iha =>
    simp only [mapVars, names, List.mem_append] at h ⊢
    rcases h with h | h
    · exact (ihh h).imp_left Or.inl
    · exact (iha h).imp_left Or.inr
  | projection inner ih => exact ih h
  | cast inner ih => exact ih h

theorem mem_names_replaceParam (h : r ∈ (t.replaceParam q (var a D)).names) : r ∈ t.names := by
  induction t with
  | tau | atom | var => exact h
  | param p type =>
    rw [replaceParam] at h
    split at h
    · cases h
    · exact h
  | function p domain body ihd ihb =>
    simp only [replaceParam, names, List.mem_cons, List.mem_append] at h ⊢
    refine h.imp_right (Or.imp ihd fun h => ?_)
    split at h
    · exact h
    · exact ihb h
  | apply head arg ihh iha =>
    simp only [replaceParam, names, List.mem_append] at h ⊢
    exact h.imp ihh iha
  | projection inner ih => exact ih h
  | cast inner ih => exact ih h

/-! ### All functions at the front -/

/-- Functions over the terms of statements, in front of a term in which they are parameters. -/
def reabstract : List (ParamId × StatementId × Term) → Term → Term
  | [], t => t
  | (p, a, domain) :: rest, t =>
    function p domain ((reabstract rest t).replaceVar a (param p domain))

theorem mem_names_reabstract {ps : List ParamId} (h : peel ids t = (entries, consequent))
    (hr : r ∈ (reabstract (ps.zip entries) consequent).names) : r ∈ ps ∨ r ∈ t.names := by
  fun_induction peel ids t generalizing entries consequent ps with
  | case1 y ids q domain body rest left hpeel ih =>
    cases h
    have hback (hr : r ∈ (body.replaceParam q (var y domain)).names) :
        r ∈ (function q domain body).names := by
      simp only [names, List.mem_cons, List.mem_append]
      exact Or.inr (Or.inr (mem_names_replaceParam hr))
    cases ps with
    | nil => exact Or.inr (hback ((@ih rest left [] hpeel hr).resolve_left List.not_mem_nil))
    | cons p ps =>
      simp only [List.zip_cons_cons, reabstract, names, List.mem_cons, List.mem_append] at hr ⊢
      rcases hr with hr | hr | hr
      · exact Or.inl (Or.inl hr)
      · exact Or.inr (Or.inr (Or.inl hr))
      · rcases mem_names_replaceVar hr with hr | hr
        · rcases ih hpeel hr with hr | hr
          · exact Or.inl (Or.inr hr)
          · exact Or.inr (Or.inr (Or.inr (mem_names_replaceParam hr)))
        · exact Or.inl (Or.inl hr)
  | case2 ids t hne =>
    cases h
    rw [List.zip_nil_right] at hr
    exact Or.inr hr

/-- A term is equal to what its parts are put together to, under any new names. -/
theorem reabstract_beq {ps : List ParamId} (h : peel ids t = (entries, consequent))
    (hids : ids.Nodup) (hnew : ∀ a ∈ ids, ∀ o ∈ t.occurrences, o.1 ≠ a)
    (hlen : ps.length = entries.length) (hps : ps.Nodup) (hfresh : ∀ p ∈ ps, p ∉ t.names) :
    (reabstract (ps.zip entries) consequent == t) = true := by
  fun_induction peel ids t generalizing entries consequent ps with
  | case1 y ids q domain body rest left hpeel ih =>
    cases h
    obtain ⟨p, ps, rfl⟩ : ∃ p ps', ps = p :: ps' :=
      List.exists_cons_of_length_pos (hlen ▸ Nat.succ_pos _)
    obtain ⟨hy, hids⟩ := List.nodup_cons.1 hids
    obtain ⟨hp, hps⟩ := List.nodup_cons.1 hps
    have hbody (r : ParamId) (hr : r ∈ p :: ps) :
        r ∉ (body.replaceParam q (var y domain)).names := by
      intro hmem
      refine hfresh r hr ?_
      simp only [names, List.mem_cons, List.mem_append]
      exact Or.inr (Or.inr (mem_names_replaceParam hmem))
    have hleft (a : StatementId) (ha : a ∈ ids) :
        ∀ o ∈ (body.replaceParam q (var y domain)).occurrences, o.1 ≠ a := by
      intro o ho
      rcases mem_occurrences_replaceParam ho with ho | ho
      · exact hnew a (List.mem_cons_of_mem _ ha) o (List.mem_append_right _ ho)
      · rw [List.mem_singleton.1 ho]
        rintro rfl
        exact hy ha
    have hrest := ih hpeel hids hleft (Nat.succ.inj hlen) hps
      fun r hr => hbody r (List.mem_cons_of_mem _ hr)
    refine function_beq hrest (fun hmem => ?_) fun o ho =>
      hnew y List.mem_cons_self o (List.mem_append_right _ ho)
    exact (mem_names_reabstract hpeel hmem).elim hp (hbody p List.mem_cons_self)
  | case2 ids t hne =>
    cases h
    rw [List.zip_nil_right]
    exact beq_refl _

theorem isFunction_peel (h : peel ids t = (entries, consequent)) (hlen : ids.length = t.arity) :
    consequent.isFunction = false := by
  fun_induction peel ids t generalizing entries consequent with
  | case1 y ids q domain body rest left hpeel ih =>
    cases h
    refine ih hpeel ?_
    rw [arity_replaceParam_var]
    exact Nat.succ.inj hlen
  | case2 ids t hne =>
    cases h
    cases t with
    | function q domain body =>
      cases ids with
      | nil => cases hlen
      | cons y rest => exact absurd rfl (hne y rest q domain body rfl)
    | _ => rfl

/-- Put together again, under any new names, the parts are equal to the term. -/
structure Splits (t : Term) (entries : List (StatementId × Term)) (consequent : Term) : Prop where
  bare : consequent.isFunction = false
  earlier : ∀ i a domain, entries[i]? = some (a, domain) → ∀ d ∈ domain.freeVars,
    d ∈ entries.map Prod.fst → d ∈ (entries.take i).map Prod.fst
  whole : ∀ ps : List ParamId, ps.length = entries.length → ps.Nodup → (∀ p ∈ ps, p ∉ t.names) →
    (reabstract (ps.zip entries) consequent == t) = true

theorem splits_peel (h : peel ids t = (entries, consequent)) (hlen : ids.length = t.arity)
    (hids : ids.Nodup) (hnew : ∀ a ∈ ids, a ∉ t.freeVars) : t.Splits entries consequent := by
  have hids' : entries.map Prod.fst = ids := peel_ids h hlen
  have hnew' (a : StatementId) (ha : a ∈ ids) (o : StatementId × Term) (ho : o ∈ t.occurrences) :
      o.1 ≠ a := by
    rintro rfl
    exact hnew o.1 ha (mem_freeVars.2 ⟨o.2, ho⟩)
  refine ⟨isFunction_peel h hlen, fun i a domain hi d hd hmem => ?_,
    fun ps hps hnd hfresh => reabstract_beq h hids hnew' hps hnd hfresh⟩
  obtain ⟨type, hd⟩ := mem_freeVars.1 hd
  rcases (mem_occurrences_peel h).1 i a domain hi (d, type) hd with ho | ho
  · exact absurd rfl (hnew' d (hids' ▸ hmem) (d, type) ho)
  · exact List.mem_map_of_mem ho

end Term

end StatementGraph
