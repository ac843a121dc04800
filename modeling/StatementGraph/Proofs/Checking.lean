import StatementGraph.Mutation.Construct
import StatementGraph.Proofs.History

namespace StatementGraph

theorem bind_eq_ok {ε α β : Type} {x : Except ε α} {f : α → Except ε β} {b : β} :
    (x >>= f) = .ok b ↔ ∃ a, x = .ok a ∧ f a = .ok b := by
  cases x with
  | error => exact ⟨fun h => (by cases h), fun ⟨_, h, _⟩ => (by cases h)⟩
  | ok a =>
    refine ⟨fun h => ⟨a, rfl, h⟩, ?_⟩
    rintro ⟨a', ha, h⟩
    cases ha
    exact h

theorem forM_eq_ok {ε α : Type} {f : α → Except ε Unit} {l : List α} :
    l.forM f = .ok () ↔ ∀ a ∈ l, f a = .ok () := by
  induction l with
  | nil => exact ⟨fun _ _ h => (by cases h), fun _ => rfl⟩
  | cons a rest ih =>
    rw [show (a :: rest).forM f = (f a >>= fun _ => rest.forM f) from rfl, bind_eq_ok]
    simp only [List.mem_cons, forall_eq_or_imp]
    constructor
    · rintro ⟨u, ha, hrest⟩
      exact ⟨ha, ih.1 hrest⟩
    · rintro ⟨ha, hrest⟩
      exact ⟨(), ha, ih.2 hrest⟩

theorem mapM_ok {ε α β : Type} {f : α → Except ε β} {l : List α}
    (h : ∀ a ∈ l, ∃ b, f a = .ok b) :
    ∃ r, l.mapM f = .ok r ∧ ∀ b, b ∈ r ↔ ∃ a ∈ l, f a = .ok b := by
  induction l with
  | nil => exact ⟨[], rfl, fun b => by simp⟩
  | cons a rest ih =>
    obtain ⟨b, hb⟩ := h a List.mem_cons_self
    obtain ⟨r, hr, hmem⟩ := ih fun a ha => h a (List.mem_cons_of_mem _ ha)
    refine ⟨b :: r, ?_, fun b' => ?_⟩
    · rw [List.mapM_cons, hb, hr]
      rfl
    · simp [hb, hmem, eq_comm]

namespace Store

variable {s : Store} {context id general : StatementId} {t value argument : Term} {st : Statement}
  {owner : Option StatementId}

theorem require_eq_ok : s.require id = .ok st ↔ s.get? id = some st := by
  rw [require]
  cases s.get? id <;> simp

theorem requireContext_eq_ok : s.requireContext id = .ok st ↔
    s.get? id = some st ∧ st.isContext = true := by
  rw [requireContext, bind_eq_ok]
  constructor
  · rintro ⟨st', hst', h⟩
    split at h
    case isTrue hctx =>
      cases h
      exact ⟨require_eq_ok.1 hst', hctx⟩
    case isFalse => cases h
  · rintro ⟨hst, hctx⟩
    exact ⟨st, require_eq_ok.2 hst, if_pos hctx⟩

theorem validate_eq_ok : s.validate owner t = .ok () ↔
    t.castFree = true ∧ ∀ o ∈ t.occurrences, s.checkVariable owner o = .ok () := by
  rw [validate]
  split
  case isTrue hc => rw [forM_eq_ok, and_iff_right hc]
  case isFalse hc => exact ⟨fun h => (by cases h), fun h => absurd h.1 hc⟩

theorem checkVariable_eq_ok {o : StatementId × Term} : s.checkVariable owner o = .ok () ↔
    ∃ st, s.get? o.1 = some st ∧ (owner.any fun ctx => s.isVisible o.1 ctx) = true ∧
      (o.2 == st.term) = true := by
  simp only [checkVariable]
  cases s.get? o.1 with
  | none => simp
  | some st =>
    by_cases hv : (owner.any fun ctx => s.isVisible o.1 ctx) = true
    · by_cases ht : (o.2 == st.term) = true <;> simp [hv, ht]
    · simp [hv]

theorem checks_of_validate (h : s.validate (some context) t = .ok ()) :
    s.graph.Checks context t := by
  obtain ⟨hcast, hvars⟩ := validate_eq_ok.1 h
  refine ⟨hcast, fun x type hx => ?_⟩
  obtain ⟨st, hst, hvisible, heq⟩ := checkVariable_eq_ok.1 (hvars (x, type) hx)
  exact ⟨isVisible_iff.1 hvisible, st.content, graph_of_get? hst, heq⟩

theorem validate_of_checks (h : s.graph.Checks context t) :
    s.validate (some context) t = .ok () := by
  rw [validate_eq_ok]
  refine ⟨h.1, fun o ho => ?_⟩
  obtain ⟨hsees, c, hc, heq⟩ := h.2 o.1 o.2 ho
  obtain ⟨st, hst, rfl⟩ := graph_eq_some.1 hc
  exact checkVariable_eq_ok.2 ⟨st, hst, isVisible_iff.2 hsees, heq⟩

theorem occurrences_of_validate_none (h : s.validate none t = .ok ()) : t.occurrences = [] := by
  obtain ⟨-, hvars⟩ := validate_eq_ok.1 h
  refine List.eq_nil_iff_forall_not_mem.2 fun o ho => ?_
  obtain ⟨-, -, hvisible, -⟩ := checkVariable_eq_ok.1 (hvars o ho)
  cases hvisible

theorem sees_of_validate {x : StatementId} (h : s.validate owner t = .ok ())
    (hx : x ∈ t.freeVars) : ∃ o, owner = some o ∧ s.graph.Sees o x := by
  cases owner with
  | none =>
    obtain ⟨type, hx⟩ := Term.mem_freeVars.1 hx
    rw [occurrences_of_validate_none h] at hx
    cases hx
  | some o => exact ⟨o, rfl, (checks_of_validate h).sees hx⟩

theorem declarationRecord_eq_ok : s.declarationRecord context value id = .ok st ↔
    s.validate (some context) value = .ok () ∧ ∃ term, value.typeOf = .ok term ∧
      st = { id, owner := some context, term, proved := false,
             dependencies := term.freeVars.union value.freeVars, identifier := none,
             kind := .declaration value } := by
  rw [declarationRecord, bind_eq_ok]
  constructor
  · rintro ⟨u, hvalid, h⟩
    split at h
    case h_1 => cases h
    case h_2 term hterm =>
      cases h
      exact ⟨hvalid, term, hterm, rfl⟩
  · rintro ⟨hvalid, term, hterm, rfl⟩
    refine ⟨(), hvalid, ?_⟩
    rw [hterm]
    rfl

theorem declarationRecord_of_checks {term : Term} (h : s.graph.Checks context value)
    (htype : value.typeOf = .ok term) :
    ∃ st, s.declarationRecord context value id = .ok st :=
  ⟨_, declarationRecord_eq_ok.2 ⟨validate_of_checks h, term, htype, rfl⟩⟩

theorem specializationRecord_eq_ok_visible :
    s.specializationRecord context general argument id = .ok st ↔
    s.validate (some context) argument = .ok () ∧ s.isVisible general context = true ∧
      ∃ g term, s.get? general = some g ∧ g.term.compose argument = .ok term ∧
        st = { id, owner := some context, term, proved := false,
               dependencies := (term.freeVars.insert general).union argument.freeVars,
               identifier := none, kind := .specialization general argument } := by
  rw [specializationRecord, bind_eq_ok]
  constructor
  · rintro ⟨g, hg, h⟩
    rw [require_eq_ok] at hg
    cases hv : s.isVisible general context with
    | false =>
      rw [hv] at h
      cases h
    | true =>
      simp only [hv, Bool.not_true, Bool.false_eq_true, if_false] at h
      rw [bind_eq_ok] at h
      obtain ⟨u, hvalid, h⟩ := h
      split at h
      case h_1 => cases h
      case h_2 term hterm =>
        cases h
        exact ⟨hvalid, rfl, g, term, hg, hterm, rfl⟩
  · rintro ⟨hvalid, hv, g, term, hg, hterm, rfl⟩
    refine ⟨g, require_eq_ok.2 hg, ?_⟩
    rw [hv, hvalid, hterm]
    rfl

theorem specializationRecord_eq_ok
    (h : s.specializationRecord context general argument id = .ok st) :
    s.validate (some context) argument = .ok () ∧ s.graph.Sees context general ∧
      ∃ c term, s.graph general = some c ∧ c.term.compose argument = .ok term ∧
        st = { id, owner := some context, term, proved := false,
               dependencies := (term.freeVars.insert general).union argument.freeVars,
               identifier := none, kind := .specialization general argument } := by
  obtain ⟨hvalid, hv, g, term, hg, hterm, hst⟩ := specializationRecord_eq_ok_visible.1 h
  exact ⟨hvalid, isVisible_iff.1 hv, g.content, term, graph_of_get? hg, hterm, hst⟩

theorem specializationRecord_of_checks {c : Content} {term : Term}
    (hc : s.graph general = some c) (hsees : s.graph.Sees context general)
    (h : s.graph.Checks context argument) (hcompose : c.term.compose argument = .ok term) :
    ∃ st, s.specializationRecord context general argument id = .ok st := by
  obtain ⟨g, hg, rfl⟩ := graph_eq_some.1 hc
  exact ⟨_, specializationRecord_eq_ok_visible.2 ⟨validate_of_checks h, isVisible_iff.2 hsees,
    g, term, hg, hcompose, rfl⟩⟩

theorem unfold_eq_ok_visible {kind : ContextKind} {dependencies : IdSet} {inner : Term}
    (h : s.unfold owner t kind = .ok (dependencies, inner)) :
    s.graph.Unfolds t dependencies inner kind ∧
      ∀ d, kind = .unfolding d → ∃ o, owner = some o ∧ s.isVisible d o = true := by
  cases kind with
  | unfolding d =>
    rw [unfold, bind_eq_ok] at h
    obtain ⟨st, hst, h⟩ := h
    rw [require_eq_ok] at hst
    split at h
    case h_1 value hvalue =>
      split at h
      case isTrue hv =>
        cases h
        refine ⟨⟨st.content, value, graph_of_get? hst, hvalue, rfl, rfl⟩, fun d' hd => ?_⟩
        cases hd
        exact (Option.any_eq_true _ _).1 hv
      case isFalse => cases h
    case h_2 => cases h
  | nested =>
    cases h
    exact ⟨⟨rfl, rfl⟩, fun _ hd => by cases hd⟩
  | root =>
    cases h
    exact ⟨⟨rfl, rfl⟩, fun _ hd => by cases hd⟩

theorem unfold_eq_ok {kind : ContextKind} {dependencies : IdSet} {inner : Term}
    (h : s.unfold owner t kind = .ok (dependencies, inner)) :
    s.graph.Unfolds t dependencies inner kind ∧
      ∀ d, kind = .unfolding d → ∃ o, owner = some o ∧ s.graph.Sees o d := by
  obtain ⟨hunfolds, hvisible⟩ := unfold_eq_ok_visible h
  refine ⟨hunfolds, fun d hd => ?_⟩
  obtain ⟨o, ho, hv⟩ := hvisible d hd
  exact ⟨o, ho, isVisible_iff.1 hv⟩

theorem unfold_of_unfolds {kind : ContextKind} {dependencies : IdSet} {inner : Term}
    (h : s.graph.Unfolds t dependencies inner kind)
    (hsees : ∀ d, kind = .unfolding d → ∃ o, owner = some o ∧ s.graph.Sees o d) :
    s.unfold owner t kind = .ok (dependencies, inner) := by
  cases kind with
  | unfolding d =>
    obtain ⟨c, value, hc, hk, rfl, rfl⟩ := h
    obtain ⟨st, hst, rfl⟩ := graph_eq_some.1 hc
    obtain ⟨o, rfl, hd⟩ := hsees d rfl
    have hk : st.kind = .declaration value := hk
    have hvisible : ((some o).any fun ctx => s.isVisible d ctx) = true :=
      isVisible_iff.2 hd
    rw [unfold, require_eq_ok.2 hst]
    dsimp only [bind, Except.bind]
    rw [hk]
    dsimp only
    rw [hvisible]
    rfl
  | nested =>
    obtain ⟨rfl, rfl⟩ := h
    rfl
  | root =>
    obtain ⟨rfl, rfl⟩ := h
    rfl

end Store

end StatementGraph
