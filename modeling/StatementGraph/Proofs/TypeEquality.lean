import StatementGraph.Proofs.Nameless
import StatementGraph.Proofs.TypingDepth

namespace StatementGraph

namespace Nameless

/-- Put an argument of type `found` in place of the outermost parameter, of type `domain`. -/
def instantiate (domain body arg found : Nameless) : Option Nameless :=
  if found.erase = domain.erase then some (body.subst arg 0) else none

/-- The type of a nameless term, where `again` types the type of what is inside a cast. -/
def typeOfWith (again : Nameless → Option Nameless) : Nameless → Option Nameless
  | tau => none
  | atom _ => some tau
  | var _ type => some type
  | param _ type => some type
  | function domain body => (typeOfWith again body).map (function domain)
  | apply head arg => do
    match (← typeOfWith again head).unproject with
    | function domain body => instantiate domain body arg (← typeOfWith again arg)
    | _ => none
  | projection inner => typeOfWith again inner
  | cast inner => do again (← typeOfWith again inner)

/-- The type of a nameless term whose casts are at most `depth` deep in one another. -/
def typeOfDepth : Nat → Nameless → Option Nameless
  | 0 => fun _ => none
  | depth + 1 => typeOfWith (typeOfDepth depth)

def EndsWith (again : Nameless → Option Nameless) (ended : Nameless → Prop) : Nameless → Prop
  | tau => True
  | atom _ => True
  | var _ _ => True
  | param _ _ => True
  | function _ body => EndsWith again ended body
  | apply head arg => EndsWith again ended head ∧ EndsWith again ended arg
  | projection inner => EndsWith again ended inner
  | cast inner => EndsWith again ended inner ∧ ∀ T, typeOfWith again inner = some T → ended T

def EndsWithin : Nat → Nameless → Prop
  | 0 => fun _ => False
  | depth + 1 => EndsWith (typeOfDepth depth) (EndsWithin depth)

end Nameless

namespace Term

section Typing

variable {t u v arg T : Term} {p : ParamId} {binders : List ParamId} {depth : Nat}
variable {again : Term → Except TermError Term} {clean : Term → Bool}

/-! ### Variables of closed types -/

/-- The variables of a term carry closed types, and so do the variables of these types. -/
inductive Anchored : Term → Prop
  | intro {t : Term} (closed : ∀ x type, (x, type) ∈ t.occurrences → type.Closed)
    (types : ∀ x type, (x, type) ∈ t.occurrences → Anchored type) : Anchored t

theorem Anchored.join (ht : t.Anchored) (hu : u.Anchored)
    (h : ∀ o ∈ v.occurrences, o ∈ t.occurrences ∨ o ∈ u.occurrences) : v.Anchored := by
  obtain ⟨hct, hat⟩ := ht
  obtain ⟨hcu, hau⟩ := hu
  constructor
  · intro x type hx
    exact (h _ hx).elim (hct x type) (hcu x type)
  · intro x type hx
    exact (h _ hx).elim (hat x type) (hau x type)

theorem Anchored.mono (ht : t.Anchored) (h : ∀ o ∈ u.occurrences, o ∈ t.occurrences) :
    u.Anchored :=
  ht.join ht fun o ho => Or.inl (h o ho)

theorem Anchored.typeOfWith (hagain : ∀ u U, u.Anchored → again u = .ok U → U.Anchored)
    (ht : t.Anchored) (h : typeOfWith again t = .ok T) : T.Anchored := by
  induction t generalizing T with
  | tau => cases h
  | atom =>
    cases h
    exact ht.mono fun o ho => ho
  | var x type =>
    cases h
    obtain ⟨-, htypes⟩ := ht
    exact htypes x type List.mem_cons_self
  | param p type =>
    cases h
    exact ht.mono fun o ho => ho
  | function p domain body ihd ihb =>
    obtain ⟨type, hbody, rfl⟩ := typeOfWith_function_ok h
    have hdomain : domain.Anchored := ht.mono fun o ho => List.mem_append_left _ ho
    have htype := ihb (ht.mono fun o ho => List.mem_append_right _ ho) hbody
    exact hdomain.join htype fun o ho => List.mem_append.1 ho
  | apply head arg ihh iha =>
    obtain ⟨type, q, domain, body, found, hhead, hu, -, -, rfl⟩ := typeOfWith_apply_ok h
    have htype := ihh (ht.mono fun o ho => List.mem_append_left _ ho) hhead
    have hbody : body.Anchored := htype.mono fun o ho => by
      rw [← occurrences_unproject, hu]
      exact List.mem_append_right _ ho
    have harg : arg.Anchored := ht.mono fun o ho => List.mem_append_right _ ho
    exact hbody.join harg fun o ho => mem_occurrences_replaceParam ho
  | projection inner ih => exact ih (ht.mono fun o ho => ho) h
  | cast inner ih =>
    rw [Term.typeOfWith] at h
    cases hinner : Term.typeOfWith again inner with
    | error e =>
      rw [hinner] at h
      cases h
    | ok type =>
      rw [hinner] at h
      exact hagain type T (ih (ht.mono fun o ho => ho) hinner) h

theorem Anchored.typeOfDepth (ht : t.Anchored) (h : typeOfDepth depth t = .ok T) :
    T.Anchored := by
  induction depth generalizing t T with
  | zero => cases h
  | succ depth ih => exact ht.typeOfWith (fun u U hu hU => ih hu hU) h

/-! ### Typing without capture -/

/-- Whether an argument of type `found` goes into a function type, if it does, without capture. -/
def takesCleanly (type arg found : Term) : Bool :=
  match type.unproject with
  | function p domain body => !(found == domain) || body.admits p arg
  | _ => true

def typesCleanlyWith (again : Term → Except TermError Term) (clean : Term → Bool) : Term → Bool
  | tau => true
  | atom _ => true
  | var _ _ => true
  | param _ _ => true
  | function _ _ body => typesCleanlyWith again clean body
  | apply head arg =>
    typesCleanlyWith again clean head && typesCleanlyWith again clean arg &&
      (typeOfWith again head).toOption.all fun type =>
        (typeOfWith again arg).toOption.all fun found => type.takesCleanly arg found
  | projection inner => typesCleanlyWith again clean inner
  | cast inner =>
    typesCleanlyWith again clean inner && (typeOfWith again inner).toOption.all clean

def typesCleanlyDepth : Nat → Term → Bool
  | 0 => fun _ => true
  | depth + 1 => typesCleanlyWith (typeOfDepth depth) (typesCleanlyDepth depth)

def typesCleanly (t : Term) : Bool := typesCleanlyDepth (Nat.pow 2 t.fullSize) t

theorem nameless_instantiate {domain body found : Term}
    (h : (found == domain) = true → body.admits p arg = true) :
    (instantiate p domain body arg found).toOption.map (nameless binders) =
      (domain.nameless binders).instantiate (body.nameless (p :: binders)) (arg.nameless binders)
        (found.nameless binders) := by
  rw [instantiate, Nameless.instantiate]
  by_cases he : (found == domain) = true
  · have hsubst : (body.replaceParam p arg).nameless ([] ++ binders) =
        (body.nameless ([] ++ p :: binders)).subst (arg.nameless binders) 0 :=
      nameless_replaceParam List.not_mem_nil (by simp) (h he)
    rw [if_pos he, if_pos (beq_iff.1 he)]
    exact congrArg some hsubst
  · have hne : ¬(found.nameless binders).erase = (domain.nameless binders).erase :=
      fun hf => he (beq_iff.2 hf)
    rw [if_neg he, if_neg hne]
    rfl

/-- Typing a term without capture is typing its nameless form. -/
theorem nameless_typeOfWith {again' : Nameless → Option Nameless}
    (hagain : ∀ u U, u.Anchored → again u = .ok U → U.Anchored)
    (hsame : ∀ u binders, u.Anchored → clean u = true →
      (again u).toOption.map (nameless binders) = again' (u.nameless binders))
    (ht : t.Anchored) (hc : typesCleanlyWith again clean t = true) :
    (typeOfWith again t).toOption.map (nameless binders) =
      (t.nameless binders).typeOfWith again' := by
  induction t generalizing binders with
  | tau | atom | param => rfl
  | var x type =>
    obtain ⟨hclosed, -⟩ := ht
    exact congrArg some (hclosed x type List.mem_cons_self).nameless
  | function p domain body ihd ihb =>
    rw [nameless, Nameless.typeOfWith, ← ihb (ht.mono fun o ho => List.mem_append_right _ ho) hc,
      typeOfWith]
    cases typeOfWith again body <;> rfl
  | apply head arg ihh iha =>
    rw [typesCleanlyWith, Bool.and_eq_true, Bool.and_eq_true] at hc
    obtain ⟨⟨hhead, harg⟩, htakes⟩ := hc
    rw [nameless, Nameless.typeOfWith, ← ihh (ht.mono fun o ho => List.mem_append_left _ ho) hhead,
      ← iha (ht.mono fun o ho => List.mem_append_right _ ho) harg, typeOfWith]
    cases hth : typeOfWith again head with
    | error e => rfl
    | ok type =>
      dsimp only [Except.toOption, Option.map_some, bind, Option.bind_some, Except.bind]
      rw [← nameless_unproject]
      cases hu : type.unproject with
      | function p domain body =>
        cases hta : typeOfWith again arg with
        | error e => rfl
        | ok found =>
          rw [hth, hta] at htakes
          apply nameless_instantiate
          intro he
          simpa [Except.toOption, takesCleanly, hu, he] using htakes
      | _ => rfl
  | projection inner ih => exact ih (ht.mono fun o ho => ho) hc
  | cast inner ih =>
    rw [typesCleanlyWith, Bool.and_eq_true] at hc
    obtain ⟨hclean, htype⟩ := hc
    have hinner : inner.Anchored := ht.mono fun o ho => ho
    rw [nameless, Nameless.typeOfWith, ← ih hinner hclean, typeOfWith]
    cases hti : typeOfWith again inner with
    | error e => rfl
    | ok type =>
      rw [hti] at htype
      exact hsame type binders (hinner.typeOfWith hagain hti)
        (by simpa [Except.toOption] using htype)

theorem nameless_typeOfDepth (ht : t.Anchored) (hc : typesCleanlyDepth depth t = true) :
    (typeOfDepth depth t).toOption.map (nameless binders) =
      (t.nameless binders).typeOfDepth depth := by
  induction depth generalizing t binders with
  | zero => rfl
  | succ depth ih =>
    exact nameless_typeOfWith (fun u U hu hU => hu.typeOfDepth hU) (fun u bs hu hcu => ih hu hcu)
      ht hc

theorem nameless_endsWith {again' : Nameless → Option Nameless} {ended : Term → Prop}
    {ended' : Nameless → Prop} (hagain : ∀ u U, u.Anchored → again u = .ok U → U.Anchored)
    (hsame : ∀ u binders, u.Anchored → clean u = true →
      (again u).toOption.map (nameless binders) = again' (u.nameless binders))
    (hended : ∀ u binders, u.Anchored → clean u = true →
      (ended u ↔ ended' (u.nameless binders)))
    (ht : t.Anchored) (hc : typesCleanlyWith again clean t = true) :
    EndsWith again ended t ↔ (t.nameless binders).EndsWith again' ended' := by
  induction t generalizing binders with
  | tau | atom | var | param => exact Iff.rfl
  | function p domain body ihd ihb =>
    exact ihb (ht.mono fun o ho => List.mem_append_right _ ho) hc
  | apply head arg ihh iha =>
    rw [typesCleanlyWith, Bool.and_eq_true, Bool.and_eq_true] at hc
    exact and_congr (ihh (ht.mono fun o ho => List.mem_append_left _ ho) hc.1.1)
      (iha (ht.mono fun o ho => List.mem_append_right _ ho) hc.1.2)
  | projection inner ih => exact ih (ht.mono fun o ho => ho) hc
  | cast inner ih =>
    rw [typesCleanlyWith, Bool.and_eq_true] at hc
    obtain ⟨hclean, htype⟩ := hc
    have hinner : inner.Anchored := ht.mono fun o ho => ho
    refine and_congr (ih hinner hclean) ?_
    rw [← nameless_typeOfWith hagain hsame hinner hclean]
    cases hti : typeOfWith again inner with
    | error e => exact iff_of_true (fun _ hT => by cases hT) fun _ hT => by cases hT
    | ok type =>
      rw [hti] at htype
      have hiff := hended type binders (hinner.typeOfWith hagain hti)
        (by simpa [Except.toOption] using htype)
      constructor
      · intro h T hT
        cases hT
        exact hiff.1 (h type rfl)
      · intro h T hT
        cases hT
        exact hiff.2 (h _ rfl)

theorem nameless_endsWithin (ht : t.Anchored) (hc : typesCleanlyDepth depth t = true) :
    EndsWithin depth t ↔ (t.nameless binders).EndsWithin depth := by
  induction depth generalizing t binders with
  | zero => exact Iff.rfl
  | succ depth ih =>
    exact nameless_endsWith (fun u U hu hU => hu.typeOfDepth hU)
      (fun u bs hu hcu => nameless_typeOfDepth hu hcu) (fun u bs hu hcu => ih hu hcu) ht hc

end Typing

/-! ### Carried types -/

/-- Variables carry the types of their statements, and parameters those of their binders. -/
inductive Carried (σ : StatementId → Term) : List (ParamId × Term) → Term → Prop
  | tau {Γ} : Carried σ Γ tau
  | atom {Γ name} : Carried σ Γ (atom name)
  | var {Γ x} (type : Carried σ [] (σ x)) : Carried σ Γ (var x (σ x))
  | param {Γ p type} (bound : Γ.lookup p = some type) : Carried σ Γ (param p type)
  | function {Γ p D B} (domain : Carried σ Γ D) (body : Carried σ ((p, D) :: Γ) B) :
    Carried σ Γ (function p D B)
  | apply {Γ h x} (head : Carried σ Γ h) (arg : Carried σ Γ x) : Carried σ Γ (apply h x)
  | projection {Γ t} (inner : Carried σ Γ t) : Carried σ Γ (projection t)
  | cast {Γ t} (inner : Carried σ Γ t) : Carried σ Γ (cast t)

/-- The parameters of a term are bound around it, and its variables carry closed types. -/
structure Scoped (binders : List ParamId) (t : Term) : Prop where
  bound : ∀ q, t.mentions q = true → q ∈ binders
  anchored : t.Anchored

/-- Whether no carried type mentions its own binder or one in between. -/
def unshadowed (binders : List ParamId) : Term → Bool
  | tau => true
  | atom _ => true
  | var _ _ => true
  | param p type => (p :: binders.takeWhile (· ≠ p)).all fun q => !type.mentions q
  | function p domain body => domain.unshadowed binders && body.unshadowed (p :: binders)
  | apply head arg => head.unshadowed binders && arg.unshadowed binders
  | projection inner => inner.unshadowed binders
  | cast inner => inner.unshadowed binders

/-- Binders on both sides whose domains have the same nameless forms. -/
inductive Aligned : List (ParamId × Term) → List (ParamId × Term) → Prop
  | nil : Aligned [] []
  | cons {Γ Δ p q D E} (rest : Aligned Γ Δ)
    (domains : D.nameless (Γ.map Prod.fst) = E.nameless (Δ.map Prod.fst)) :
    Aligned ((p, D) :: Γ) ((q, E) :: Δ)

variable {σ : StatementId → Term} {Γ Δ : List (ParamId × Term)} {t a b D E : Term} {p q : ParamId}
variable {binders : List ParamId}

theorem Scoped.closed (h : t.Scoped []) : t.Closed := by
  intro q
  cases hq : t.mentions q with
  | false => rfl
  | true => cases h.bound q hq

theorem Scoped.cons (h : t.Scoped binders) : t.Scoped (p :: binders) :=
  ⟨fun q hq => List.mem_cons_of_mem p (h.bound q hq), h.anchored⟩

theorem mem_of_lookup_eq_some (h : Γ.lookup p = some D) : (p, D) ∈ Γ := by
  obtain ⟨before, after, rfl, -⟩ := List.lookup_eq_some_iff.1 h
  simp

theorem Carried.scoped (h : Carried σ Γ t) (hΓ : ∀ e ∈ Γ, e.2.Scoped (Γ.map Prod.fst)) :
    t.Scoped (Γ.map Prod.fst) := by
  induction h with
  | tau | atom =>
    constructor
    · simp [mentions]
    · constructor <;> simp [occurrences]
  | var _ ih =>
    have htype := ih (by simp)
    constructor
    · simp [mentions]
    · constructor
      · simpa [occurrences] using htype.closed
      · simpa [occurrences] using htype.anchored
  | @param Γ p type bound =>
    have hmem := mem_of_lookup_eq_some bound
    have htype := hΓ (p, type) hmem
    constructor
    · intro q hq
      rcases Bool.or_eq_true_iff.1 hq with hq | hq
      · exact List.mem_map.2 ⟨(p, type), hmem, by simpa using hq⟩
      · exact htype.bound q hq
    · exact htype.anchored.mono fun o ho => ho
  | @function Γ p D B _ _ ihd ihb =>
    have hdomain := ihd hΓ
    have hinside : ∀ e ∈ (p, D) :: Γ, e.2.Scoped (p :: Γ.map Prod.fst) := by
      intro e he
      rcases List.mem_cons.1 he with rfl | he
      · exact hdomain.cons
      · exact (hΓ e he).cons
    have hbody := ihb hinside
    constructor
    · intro q hq
      simp only [mentions, Bool.or_eq_true, Bool.and_eq_true, decide_eq_true_eq] at hq
      rcases hq with hq | ⟨hne, hq⟩
      · exact hdomain.bound q hq
      · exact (List.mem_cons.1 (hbody.bound q hq)).resolve_left (Ne.symm hne)
    · exact hdomain.anchored.join hbody.anchored fun o ho => List.mem_append.1 ho
  | apply _ _ ihh iha =>
    have hhead := ihh hΓ
    have harg := iha hΓ
    constructor
    · intro q hq
      exact (Bool.or_eq_true_iff.1 hq).elim (hhead.bound q) (harg.bound q)
    · exact hhead.anchored.join harg.anchored fun o ho => List.mem_append.1 ho
  | projection _ ih =>
    constructor
    · exact (ih hΓ).bound
    · exact (ih hΓ).anchored.mono fun o ho => ho
  | cast _ ih =>
    constructor
    · exact (ih hΓ).bound
    · exact (ih hΓ).anchored.mono fun o ho => ho

theorem Carried.anchored (h : Carried σ [] t) : t.Anchored := (h.scoped (by simp)).anchored

/-! ### Equal terms with the same carried types -/

theorem nameless_cons (h : t.mentions p = false) :
    t.nameless (p :: binders) = (t.nameless binders).lift 1 0 := by
  have hfree : ∀ q ∈ [p], q ∉ [] → t.mentions q = false := by simpa using h
  exact nameless_lift hfree

theorem unshadowed_param_iff : (param p D).unshadowed binders = true ↔
    D.mentions p = false ∧ ∀ q ∈ binders.takeWhile (· ≠ p), D.mentions q = false := by
  simp [unshadowed]

theorem unshadowed_param_cons (hne : q ≠ p) (h : (param p D).unshadowed (q :: binders) = true) :
    D.mentions q = false ∧ (param p D).unshadowed binders = true := by
  obtain ⟨hself, hbetween⟩ := unshadowed_param_iff.1 h
  rw [List.takeWhile_cons_of_pos (by simpa using hne)] at hbetween
  have hq := hbetween q List.mem_cons_self
  exact ⟨hq, unshadowed_param_iff.2 ⟨hself, fun r hr => hbetween r (List.mem_cons_of_mem q hr)⟩⟩

theorem lookup_cons_of_ne (h : q ≠ p) : List.lookup p ((q, E) :: Γ) = Γ.lookup p := by
  rw [List.lookup_cons, beq_false_of_ne (Ne.symm h)]

/-- Parameters at the same place carry types with the same nameless form. -/
theorem Aligned.types (h : Aligned Γ Δ) (hp : Γ.lookup p = some D) (hq : Δ.lookup q = some E)
    (hplace : Place.locate (Γ.map Prod.fst) p = Place.locate (Δ.map Prod.fst) q)
    (hD : (param p D).unshadowed (Γ.map Prod.fst) = true)
    (hE : (param q E).unshadowed (Δ.map Prod.fst) = true) :
    D.nameless (Γ.map Prod.fst) = E.nameless (Δ.map Prod.fst) := by
  induction h with
  | nil => cases hp
  | @cons Γ Δ r s R S rest domains ih =>
    rw [List.map_cons] at hD hE
    rw [List.map_cons, List.map_cons] at hplace ⊢
    rcases Place.locate_cons_eq_iff.1 hplace with ⟨rfl, rfl⟩ | ⟨hr, hs, hplace⟩
    · obtain rfl : R = D := by simpa using hp
      obtain rfl : S = E := by simpa using hq
      rw [nameless_cons (unshadowed_param_iff.1 hD).1, nameless_cons (unshadowed_param_iff.1 hE).1,
        domains]
    · rw [lookup_cons_of_ne hr] at hp
      rw [lookup_cons_of_ne hs] at hq
      obtain ⟨hDr, hD⟩ := unshadowed_param_cons hr hD
      obtain ⟨hEs, hE⟩ := unshadowed_param_cons hs hE
      rw [nameless_cons hDr, nameless_cons hEs, ih hp hq hplace hD hE]

/-- Equal terms whose parameters carry the types of their binders have the same nameless form. -/
theorem nameless_eq_of_erase_eq (ha : Carried σ Γ a) (hb : Carried σ Δ b) (hΓ : Aligned Γ Δ)
    (hua : a.unshadowed (Γ.map Prod.fst) = true) (hub : b.unshadowed (Δ.map Prod.fst) = true)
    (h : (a.nameless (Γ.map Prod.fst)).erase = (b.nameless (Δ.map Prod.fst)).erase) :
    a.nameless (Γ.map Prod.fst) = b.nameless (Δ.map Prod.fst) := by
  induction ha generalizing b Δ with
  | tau =>
    cases hb with
    | tau => rfl
    | _ => cases h
  | atom =>
    cases hb with
    | atom => exact h
    | _ => cases h
  | @var Γ x _ _ =>
    cases hb with
    | @var _ y _ =>
      obtain rfl : x = y := by simpa [nameless, Nameless.erase] using h
      rfl
    | _ => cases h
  | @param Γ p D hp =>
    cases hb with
    | @param _ q E hq =>
      have hplace : Place.locate (Γ.map Prod.fst) p = Place.locate (Δ.map Prod.fst) q := by
        simpa [nameless, Nameless.erase] using h
      rw [nameless, nameless, hplace, hΓ.types hp hq hplace hua hub]
    | _ => cases h
  | @function Γ p D B _ _ ihd ihb =>
    cases hb with
    | @function _ q E C hE hC =>
      rw [unshadowed, Bool.and_eq_true] at hua hub
      rw [nameless, nameless, Nameless.erase, Nameless.erase, Nameless.function.injEq] at h
      have hdomain := ihd hE hΓ hua.1 hub.1 h.1
      have hbody := ihb hC (hΓ.cons hdomain) hua.2 hub.2 h.2
      rw [nameless, nameless, hdomain]
      exact congrArg _ hbody
    | _ => cases h
  | apply _ _ ihh iha =>
    cases hb with
    | apply hhead harg =>
      rw [unshadowed, Bool.and_eq_true] at hua hub
      rw [nameless, nameless, Nameless.erase, Nameless.erase, Nameless.apply.injEq] at h
      rw [nameless, nameless, ihh hhead hΓ hua.1 hub.1 h.1, iha harg hΓ hua.2 hub.2 h.2]
    | _ => cases h
  | projection _ ih =>
    cases hb with
    | projection hinner =>
      rw [nameless, nameless, Nameless.erase, Nameless.erase, Nameless.projection.injEq] at h
      rw [nameless, nameless, ih hinner hΓ hua hub h]
    | _ => cases h
  | cast _ ih =>
    cases hb with
    | cast hinner =>
      rw [nameless, nameless, Nameless.erase, Nameless.erase, Nameless.cast.injEq] at h
      rw [nameless, nameless, ih hinner hΓ hua hub h]
    | _ => cases h

theorem typeOfDepth_agrees (ha : Carried σ [] a) (hb : Carried σ [] b) (h : (a == b) = true)
    (hua : a.unshadowed [] = true) (hub : b.unshadowed [] = true) {depth : Nat}
    (hca : typesCleanlyDepth depth a = true) (hcb : typesCleanlyDepth depth b = true) :
    (EndsWithin depth a ↔ EndsWithin depth b) ∧
      ((∃ A B, typeOfDepth depth a = .ok A ∧ typeOfDepth depth b = .ok B ∧ (A == B) = true) ∨
        ∃ e f, typeOfDepth depth a = .error e ∧ typeOfDepth depth b = .error f) := by
  have hsame : a.nameless [] = b.nameless [] :=
    nameless_eq_of_erase_eq ha hb .nil hua hub (beq_iff.1 h)
  have hends : EndsWithin depth a ↔ EndsWithin depth b := by
    rw [nameless_endsWithin ha.anchored hca, nameless_endsWithin hb.anchored hcb, hsame]
  have htypes : (typeOfDepth depth a).toOption.map (nameless []) =
      (typeOfDepth depth b).toOption.map (nameless []) := by
    rw [nameless_typeOfDepth ha.anchored hca, nameless_typeOfDepth hb.anchored hcb, hsame]
  refine ⟨hends, ?_⟩
  cases hA : typeOfDepth depth a with
  | error e =>
    cases hB : typeOfDepth depth b with
    | error f => exact Or.inr ⟨e, f, rfl, rfl⟩
    | ok B =>
      rw [hA, hB] at htypes
      cases htypes
  | ok A =>
    cases hB : typeOfDepth depth b with
    | error f =>
      rw [hA, hB] at htypes
      cases htypes
    | ok B =>
      rw [hA, hB] at htypes
      have hAB : A.nameless [] = B.nameless [] := Option.some.inj htypes
      exact Or.inl ⟨A, B, rfl, rfl, beq_iff.2 (congrArg Nameless.erase hAB)⟩

/-- Equal terms that carry exact types have equal types, as long as nothing is captured. -/
theorem typeOf_agrees (ha : Carried σ [] a) (hb : Carried σ [] b) (h : (a == b) = true)
    (hua : a.unshadowed [] = true) (hub : b.unshadowed [] = true)
    (hca : a.typesCleanly = true) (hcb : b.typesCleanly = true) :
    (a.TypingEnds ↔ b.TypingEnds) ∧
      ((∃ A B, a.typeOf = .ok A ∧ b.typeOf = .ok B ∧ (A == B) = true) ∨
        ∃ e f, a.typeOf = .error e ∧ b.typeOf = .error f) := by
  have hsize : a.fullSize = b.fullSize := by
    rw [← size_nameless, nameless_eq_of_erase_eq ha hb .nil hua hub (beq_iff.1 h), size_nameless]
  rw [typesCleanly, ← hsize] at hcb
  rw [TypingEnds, TypingEnds, typeOf, typeOf, ← hsize]
  exact typeOfDepth_agrees ha hb h hua hub hca hcb

/-- The type of a statement that takes two propositions and stands for the first. -/
def firstOf : Term :=
  function ⟨1⟩ (atom "A") (function ⟨2⟩ (atom "A") (param ⟨1⟩ (atom "A")))

theorem carried_firstOf : Carried (fun _ => firstOf) [] firstOf :=
  .function .atom (.function .atom (.param rfl))

/-- That statement, applied to the parameter of a function around it. -/
def firstAt (p : ParamId) : Term :=
  function p (atom "A") (apply (var ⟨1, by decide, by decide⟩ firstOf) (param p (atom "A")))

theorem carried_firstAt : Carried (fun _ => firstOf) [] (firstAt p) :=
  .function .atom (.apply (.var carried_firstOf) (.param (by simp)))

theorem firstAt_agrees :
    (firstAt ⟨3⟩ == firstAt ⟨4⟩) = true ∧
      ((firstAt ⟨3⟩).TypingEnds ↔ (firstAt ⟨4⟩).TypingEnds) ∧
      ((∃ A B, (firstAt ⟨3⟩).typeOf = .ok A ∧ (firstAt ⟨4⟩).typeOf = .ok B ∧ (A == B) = true) ∨
        ∃ e f, (firstAt ⟨3⟩).typeOf = .error e ∧ (firstAt ⟨4⟩).typeOf = .error f) :=
  ⟨rfl, typeOf_agrees carried_firstAt carried_firstAt rfl rfl rfl rfl rfl⟩

/-- A parameter whose type mentions the first of two binders, with another binder between. -/
def throughBinder (p : ParamId) : Term :=
  function ⟨1⟩ (atom "A") (function ⟨2⟩ (apply (atom "F") (param ⟨1⟩ (atom "A")))
    (function p (atom "A") (param ⟨2⟩ (apply (atom "F") (param ⟨1⟩ (atom "A"))))))

theorem carried_throughBinder (h : p ≠ ⟨2⟩) : Carried σ [] (throughBinder p) := by
  refine .function .atom (.function (.apply .atom (.param rfl)) (.function .atom (.param ?_)))
  rw [lookup_cons_of_ne h]
  rfl

/-- Equal terms whose variables and parameters carry the right types, but whose types differ. -/
def Disagree (σ : StatementId → Term) (a b : Term) : Prop :=
  Carried σ [] a ∧ Carried σ [] b ∧ (a == b) = true ∧
    ∃ A B, a.typeOf = .ok A ∧ b.typeOf = .ok B ∧ (A == B) = false

theorem typeOf_disagrees :
    (Disagree (fun _ => firstOf) (firstAt ⟨2⟩) (firstAt ⟨3⟩) ∧
      (firstAt ⟨2⟩).unshadowed [] = true ∧ (firstAt ⟨3⟩).unshadowed [] = true) ∧
    (Disagree (fun _ => firstOf) (throughBinder ⟨1⟩) (throughBinder ⟨3⟩) ∧
      (throughBinder ⟨1⟩).typesCleanly = true ∧ (throughBinder ⟨3⟩).typesCleanly = true) :=
  ⟨⟨⟨carried_firstAt, carried_firstAt, rfl, _, _, rfl, rfl, rfl⟩, rfl, rfl⟩,
    ⟨carried_throughBinder (by decide), carried_throughBinder (by decide), rfl, _, _, rfl, rfl,
      rfl⟩,
    rfl, rfl⟩

end Term

end StatementGraph
