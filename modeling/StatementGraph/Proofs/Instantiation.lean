import StatementGraph.Proofs.Auditing
import StatementGraph.Proofs.Lockstep
import StatementGraph.Proofs.Making
import StatementGraph.Proofs.TermMarkers

namespace StatementGraph

/-- A new record that asks for no solver and depends on exactly what its rule looks at. -/
structure Statement.Plain (st : Statement) : Prop where
  unproved : st.proved = false
  asksNot : ∀ data, st.kind ≠ .context data
  tracks : ∀ d, d ∈ st.dependencies ↔ d ∈ st.term.freeVars ∨ st.kind.Reads d

namespace Store

variable {s : Store} {context general id : StatementId} {g st : Statement} {p : ParamId}
  {domain body x : Term}

theorem validate_apply_toVar (hg : s.get? general = some g) (hid : g.id = general)
    (hvisible : s.isVisible general context = true) :
    s.validate (some context) (.apply g.toVar x) = .ok () ↔
      s.validate (some context) x = .ok () := by
  have hown : s.checkVariable (some context) (g.id, g.term) = .ok () :=
    checkVariable_eq_ok.2 ⟨g, hid ▸ hg, hid ▸ hvisible, Term.beq_refl _⟩
  rw [validate_eq_ok, validate_eq_ok]
  refine and_congr Iff.rfl ⟨fun h o ho => h o (List.mem_append_right _ ho), fun h o ho => ?_⟩
  rcases List.mem_append.1 ho with ho | ho
  · rw [List.mem_singleton.1 ho]
    exact hown
  · exact h o ho

theorem specializationRecord_of_function (hg : s.get? general = some g)
    (hvisible : s.isVisible general context = true) (hterm : g.term = .function p domain body) :
    s.specializationRecord context general x id = .ok st ↔
      s.validate (some context) x = .ok () ∧
        (∃ found, x.typeOf = .ok found ∧ (found == domain) = true) ∧
        st = { id, owner := some context, term := body.replaceParam p x, proved := false,
               dependencies :=
                ((body.replaceParam p x).freeVars.insert general).union x.freeVars,
               identifier := none, kind := .specialization general x } := by
  rw [specializationRecord_eq_ok_visible]
  constructor
  · rintro ⟨hvalid, -, g', term, hg', hcompose, rfl⟩
    cases hg.symm.trans hg'
    rw [hterm, Term.compose_function_eq_ok] at hcompose
    obtain ⟨found, hfound, hdomain, rfl⟩ := hcompose
    exact ⟨hvalid, ⟨found, hfound, hdomain⟩, rfl⟩
  · rintro ⟨hvalid, ⟨found, hfound, hdomain⟩, rfl⟩
    refine ⟨hvalid, hvisible, g, _, hg, ?_, rfl⟩
    rw [hterm, Term.compose_function_eq_ok]
    exact ⟨found, hfound, hdomain, rfl⟩

/-- Its application is declared for the arguments of its domain without markers. -/
theorem declarationRecord_of_function (hg : s.get? general = some g) (hid : g.id = general)
    (hvisible : s.isVisible general context = true) (hterm : g.term = .function p domain body) :
    s.declarationRecord context (.apply g.toVar x) id = .ok st ↔
      s.validate (some context) x = .ok () ∧
        (∃ found, x.typeOf = .ok found ∧ (found == domain.unproject) = true) ∧
        st = { id, owner := some context, term := body.unproject.replaceParam p x, proved := false,
               dependencies :=
                (body.unproject.replaceParam p x).freeVars.union (Term.apply g.toVar x).freeVars,
               identifier := none, kind := .declaration (.apply g.toVar x) } := by
  rw [declarationRecord_eq_ok, validate_apply_toVar hg hid hvisible]
  refine and_congr_right fun hvalid => ?_
  have htype (T : Term) : (Term.apply g.toVar x).typeOf = .ok T ↔
      ∃ found, x.typeOf = .ok found ∧ (found == domain.unproject) = true ∧
        T = body.unproject.replaceParam p x := by
    rw [Statement.toVar, hterm]
    exact Term.typeOf_apply_var_eq_ok (validate_eq_ok.1 hvalid).1
  constructor
  · rintro ⟨term, hterm', rfl⟩
    obtain ⟨found, hfound, hdomain, rfl⟩ := (htype term).1 hterm'
    exact ⟨⟨found, hfound, hdomain⟩, rfl⟩
  · rintro ⟨⟨found, hfound, hdomain⟩, rfl⟩
    exact ⟨_, (htype _).2 ⟨found, hfound, hdomain, rfl⟩, rfl⟩

theorem plain_specializationRecord (h : s.specializationRecord context general x id = .ok st) :
    st.Plain := by
  obtain ⟨-, -, g, term, -, -, rfl⟩ := specializationRecord_eq_ok_visible.1 h
  refine ⟨rfl, fun data hdata => (by cases hdata), fun d => ?_⟩
  simp only [StatementKind.Reads, IdSet.mem_union, IdSet.mem_insert]
  tauto

theorem plain_declarationRecord (h : s.declarationRecord context x id = .ok st) : st.Plain := by
  obtain ⟨-, term, -, rfl⟩ := declarationRecord_eq_ok.1 h
  exact ⟨rfl, fun data hdata => (by cases hdata), fun d => IdSet.mem_union⟩

theorem instance_dependencies (hid : g.id = general) :
    (body.unproject.replaceParam p x).freeVars.union (Term.apply g.toVar x).freeVars =
      ((body.replaceParam p x).freeVars.insert general).union x.freeVars := by
  have hvars : (body.unproject.replaceParam p x).freeVars = (body.replaceParam p x).freeVars := by
    rw [Term.freeVars, Term.freeVars, Term.occurrences_replaceParam_unproject]
  have happly (d : StatementId) :
      d ∈ (Term.apply g.toVar x).freeVars ↔ d = general ∨ d ∈ x.freeVars := by
    simp [Term.freeVars, Statement.toVar, Term.occurrences, hid]
  refine IdSet.eq_of_mem fun d => ?_
  rw [hvars, IdSet.mem_union, IdSet.mem_union, IdSet.mem_insert, happly]
  tauto

end Store

namespace Engine

open Store Propagation

variable {e : Engine} {t : TransactionId} {mode : PropagationMode} {x : StatementId}
  {st : Statement}

/-- A propagation from one statement sets its flag if the rule says so at once, and never else. -/
theorem proved_propagation_single (hi : e.store.Indexed) (h : e.store.Grounded)
    (hst : e.store.get? x = some st) :
    (e.propagation mode t [x]).engine.store.Proved x ↔ e.store.holds st = true := by
  have hway : OneWay mode true (e.store.ids ++ Walk.unseen [] [x]) (fun _ => True)
      { engine := e, queue := [x] } := ⟨contained_anywhere hi, fun x st _ => h x st⟩
  obtain ⟨steps, hsteps⟩ : ∃ steps, bound (e.store.size + [x].length) = steps + 1 :=
    Nat.exists_eq_succ_of_ne_zero (Nat.pos_iff_ne_zero.1 (Nat.pow_pos (Nat.succ_pos _)))
  have hrun : (e.propagation mode t [x]).engine =
      (drain mode t steps (step mode t { engine := e, queue := [x] })).engine := by
    change (drain mode t (bound (e.store.size + [x].length))
      { engine := e, queue := [x] }).engine = _
    rw [hsteps]
    rfl
  rw [hrun]
  rcases @step_cases { engine := e, queue := [x] } x [] mode t rfl with
    ⟨hs, hqueue, hsame⟩ | ⟨st', hst', hne, hs, -⟩
  · rw [drain_of_empty hqueue, hs, hsame st hst]
    exact proved_of_get? hst
  · cases hst.symm.trans hst'
    have hholds := hway.holds_eq trivial hst hne
    refine iff_of_true ((hway.step rfl).isProved_drain ?_ steps) hholds
    rw [hs, isProved_setProved hst, if_pos rfl]
    exact hholds

theorem enter_rests (hi : e.store.Indexed) (h : e.store.Grounded)
    (hnew : e.store.graph st.id = none) (hplain : st.Plain) : (e.enter t st).queue = [] := by
  have hstore : (addRecord t e st).store = e.store.write st := store_addRecord
  have hi' : (addRecord t e st).store.Indexed := hstore ▸ hi.write
  have hwritten : (addRecord t e st).store.Grounded := by
    rw [hstore]
    exact (raises_writeAll hi (l := [st]) (by simpa using hnew)
      (by simpa using hplain.unproved)).grounded h
  have hway : OneWay ⟨true, true⟩ true
      ((addRecord t e st).store.ids ++ Walk.unseen [] [st.id]) (fun _ => True)
      { engine := addRecord t e st, queue := Walk.unseen [] [st.id] } :=
    ⟨contained_anywhere hi', fun x st' _ => hwritten x st'⟩
  exact (hway.drain potential_start_le).2

theorem proved_enter_iff (hi : e.store.Indexed) (ht : e.store.graph.Tracked)
    (h : e.store.Grounded) (hnew : e.store.graph st.id = none) (hplain : st.Plain) :
    (e.enter t st).engine.store.Proved st.id ↔ ∀ d ∈ st.dependencies, e.store.Proved d := by
  have hnewAll : ∀ st' ∈ [st], e.store.graph st'.id = none := by simpa using hnew
  have hflagAll : ∀ st' ∈ [st], st'.proved = false := by simpa using hplain.unproved
  have hwritten : (e.store.write st).Grounded :=
    (raises_writeAll hi hnewAll hflagAll).grounded h
  have hproved (d : StatementId) : (e.store.write st).Proved d ↔ e.store.Proved d :=
    proved_writeAll hnewAll hflagAll
  have hst : (e.store.write st).get? st.id = some st := by rw [get?_write, if_pos rfl]
  have hstore : (addRecord t e st).store = e.store.write st := store_addRecord
  rw [← hstore] at hst hwritten
  have hi' : (addRecord t e st).store.Indexed := hstore ▸ hi.write
  rw [enter, proved_propagation_single hi' hwritten hst]
  rw [hstore] at hst ⊢
  rw [holds_iff hi.write (tracked_write ht hplain.tracks) hst]
  constructor
  · rintro ⟨c, hc, hd, -⟩ d hmem
    cases (graph_of_get? hst).symm.trans hc
    exact (hproved d).1 (hd d hmem)
  · intro hd
    exact ⟨st.content, graph_of_get? hst, fun d hmem => (hproved d).2 (hd d hmem),
      fun data hdata => absurd hdata (hplain.asksNot data)⟩

theorem lockstep_enter {st' : Statement} (hi : e.store.Indexed) (ht : e.store.graph.Tracked)
    (h : st.Plain) (h' : st'.Plain) (hid : st'.id = st.id) (howner : st'.owner = st.owner)
    (hdeps : st'.dependencies = st.dependencies) (hterm : (st.term == st'.term) = true) :
    (∀ y, (e.enter t st').engine.store.isProved y = (e.enter t st).engine.store.isProved y) ∧
      (e.enter t st').queue = (e.enter t st).queue := by
  have halike : st.content.Alike st'.content := ⟨howner, hdeps, (Term.beq_comm _ _).trans hterm,
    fun data => iff_of_false (h'.asksNot data) (h.asksNot data)⟩
  obtain ⟨hstores, hqueue⟩ := alike_enter (t := t) hi ht halike hid
    (h'.unproved.trans h.unproved.symm) h.tracks h'.tracks
  exact ⟨fun y => (hstores.left.proved y).symm, hqueue⟩

/-- New statements with the same dependencies have the same flag, in a grounded store. -/
theorem flag_enter_eq {st' r r' : Statement} (hi : e.store.Indexed) (ht : e.store.graph.Tracked)
    (hgrounded : e.store.Grounded) (hnew : e.store.graph x = none) (h : st.Plain) (h' : st'.Plain)
    (hid : st.id = x) (hid' : st'.id = x) (hdeps : st'.dependencies = st.dependencies)
    (hr : (e.enter t st).engine.store.get? x = some r)
    (hr' : (e.enter t st').engine.store.get? x = some r') : r'.proved = r.proved := by
  have hflag {st r : Statement} (hr : (e.enter t st).engine.store.get? x = some r)
      (hid : st.id = x) (hplain : st.Plain) :
      r.proved = true ↔ ∀ d ∈ st.dependencies, e.store.Proved d := by
    subst hid
    rw [← proved_of_get? hr]
    exact proved_enter_iff hi ht hgrounded hnew hplain
  rw [Bool.eq_iff_iff, hflag hr hid h, hflag hr' hid' h', hdeps]

/-- A context can take an argument that has a given type. -/
def Suits (e : Engine) (t : TransactionId) (context : StatementId) (arg type : Term) : Prop :=
  e.isOpen t = true ∧ (∃ ctx, e.store.requireContext context = .ok ctx) ∧
    (∃ id e₀, allocate.perform e = (.ok id, e₀) ∧ e₀.store.validate (some context) arg = .ok ()) ∧
    ∃ found, arg.typeOf = .ok found ∧ (found == type) = true

theorem Suits.of_beq {context : StatementId} {arg type type' : Term}
    (h : e.Suits t context arg type) (heq : (type == type') = true) :
    e.Suits t context arg type' := by
  obtain ⟨hopen, hctx, hvalid, found, hfound, htype⟩ := h
  exact ⟨hopen, hctx, hvalid, found, hfound, Term.beq_trans htype heq⟩

theorem Suits.beq {context : StatementId} {arg type type' : Term} (h : e.Suits t context arg type)
    (h' : e.Suits t context arg type') : (type == type') = true := by
  obtain ⟨-, -, -, found, hfound, htype⟩ := h
  obtain ⟨-, -, -, found', hfound', htype'⟩ := h'
  cases hfound.symm.trans hfound'
  rw [Term.beq_comm] at htype
  exact Term.beq_trans htype htype'

section Function

variable {e₀ : Engine} {context general : StatementId} {g : Statement} {p : ParamId}
  {domain body arg : Term}

theorem visible_allocate (h : allocate.perform e = (.ok x, e₀)) (hg : e.store.get? general = some g)
    (hvisible : e.store.isVisible general context = true) :
    e₀.store.get? general = some g ∧ e₀.store.isVisible general context = true := by
  rw [get?_allocate h, isVisible_congr (graph_allocate h)]
  exact ⟨hg, hvisible⟩

theorem specialize_suits (hg : e.store.get? general = some g)
    (hvisible : e.store.isVisible general context = true)
    (hterm : g.term = .function p domain body) :
    Accepted ((specialize t context general arg).perform e).1 ↔ e.Suits t context arg domain := by
  rw [specialize_accepted, Suits]
  refine and_congr_right fun _ => and_congr_right fun _ => ?_
  constructor
  · rintro ⟨id, e₀, hid, st, hst⟩
    obtain ⟨hg₀, hvisible₀⟩ := visible_allocate hid hg hvisible
    obtain ⟨hvalid, hfound, -⟩ := (specializationRecord_of_function hg₀ hvisible₀ hterm).1 hst
    exact ⟨⟨id, e₀, hid, hvalid⟩, hfound⟩
  · rintro ⟨⟨id, e₀, hid, hvalid⟩, hfound⟩
    obtain ⟨hg₀, hvisible₀⟩ := visible_allocate hid hg hvisible
    exact ⟨id, e₀, hid, _,
      (specializationRecord_of_function hg₀ hvisible₀ hterm).2 ⟨hvalid, hfound, rfl⟩⟩

theorem declare_suits (hg : e.store.get? general = some g) (hid : g.id = general)
    (hvisible : e.store.isVisible general context = true)
    (hterm : g.term = .function p domain body) :
    Accepted ((declare t context (.apply g.toVar arg)).perform e).1 ↔
      e.Suits t context arg domain.unproject := by
  rw [declare_accepted, Suits]
  refine and_congr_right fun _ => and_congr_right fun _ => ?_
  constructor
  · rintro ⟨id, e₀, hnew, st, hst⟩
    obtain ⟨hg₀, hvisible₀⟩ := visible_allocate hnew hg hvisible
    obtain ⟨hvalid, hfound, -⟩ := (declarationRecord_of_function hg₀ hid hvisible₀ hterm).1 hst
    exact ⟨⟨id, e₀, hnew, hvalid⟩, hfound⟩
  · rintro ⟨⟨id, e₀, hnew, hvalid⟩, hfound⟩
    obtain ⟨hg₀, hvisible₀⟩ := visible_allocate hnew hg hvisible
    exact ⟨id, e₀, hnew, _,
      (declarationRecord_of_function hg₀ hid hvisible₀ hterm).2 ⟨hvalid, hfound, rfl⟩⟩

/-- The records of an instance that is made in both ways. -/
structure Twins (body : Term) (x : StatementId) (st₁ st₂ : Statement) : Prop where
  special : st₁.Plain
  declared : st₂.Plain
  id : st₁.id = x ∧ st₂.id = x
  owner : st₂.owner = st₁.owner
  dependencies : st₂.dependencies = st₁.dependencies
  term : (st₁.term == st₂.term) = true ↔ body.markers = 0

theorem twins_of_records {st₁ st₂ : Statement} (hg : e.store.get? general = some g)
    (hid : g.id = general) (hvisible : e.store.isVisible general context = true)
    (hterm : g.term = .function p domain body)
    (h₁ : e.store.specializationRecord context general arg x = .ok st₁)
    (h₂ : e.store.declarationRecord context (.apply g.toVar arg) x = .ok st₂) :
    Twins body x st₁ st₂ := by
  have hplain₁ := plain_specializationRecord h₁
  have hplain₂ := plain_declarationRecord h₂
  obtain ⟨-, -, rfl⟩ := (specializationRecord_of_function hg hvisible hterm).1 h₁
  obtain ⟨-, -, rfl⟩ := (declarationRecord_of_function hg hid hvisible hterm).1 h₂
  exact ⟨hplain₁, hplain₂, ⟨rfl, rfl⟩, rfl, instance_dependencies hid,
    Term.replaceParam_unproject_beq⟩

variable {st₁ st₂ : Statement}

theorem Twins.lockstep (h : Twins body x st₁ st₂) (hi : e.store.Indexed)
    (ht : e.store.graph.Tracked) (hbody : body.markers = 0) :
    (∀ y, (e.enter t st₂).engine.store.isProved y = (e.enter t st₁).engine.store.isProved y) ∧
      (e.enter t st₂).queue = (e.enter t st₁).queue :=
  lockstep_enter hi ht h.special h.declared (h.id.2.trans h.id.1.symm) h.owner h.dependencies
    (h.term.2 hbody)

theorem Twins.entered (h : Twins body x st₁ st₂) (hi : e.store.Indexed)
    (ht : e.store.graph.Tracked) (hnew : e.store.graph x = none) :
    ∃ r₁ r₂, (e.enter t st₁).engine.store.get? x = some r₁ ∧
      (e.enter t st₂).engine.store.get? x = some r₂ ∧ r₂.dependencies = r₁.dependencies ∧
      ((r₁.term == r₂.term) = true ↔ body.markers = 0) ∧
      (e.store.Grounded → r₂.proved = r₁.proved) := by
  obtain ⟨hid₁, hid₂⟩ := h.id
  obtain ⟨r₁, hr₁, hcontent₁⟩ := @get?_enter t e st₁
  obtain ⟨r₂, hr₂, hcontent₂⟩ := @get?_enter t e st₂
  have hdeps₁ : r₁.dependencies = st₁.dependencies := congrArg Content.dependencies hcontent₁
  have hdeps₂ : r₂.dependencies = st₂.dependencies := congrArg Content.dependencies hcontent₂
  have hterm₁ : r₁.term = st₁.term := congrArg Content.term hcontent₁
  have hterm₂ : r₂.term = st₂.term := congrArg Content.term hcontent₂
  rw [hid₁] at hr₁
  rw [hid₂] at hr₂
  refine ⟨r₁, r₂, hr₁, hr₂, by rw [hdeps₁, hdeps₂, h.dependencies], by rw [hterm₁, hterm₂, h.term],
    fun hgrounded => ?_⟩
  exact flag_enter_eq hi ht hgrounded hnew h.special h.declared hid₁ hid₂ h.dependencies hr₁ hr₂

end Function

end Engine

theorem Reached.allocated {permits : Engine → Op → Prop} {e e₀ : Engine} {id : StatementId}
    (h : Reached permits e) (hnew : Engine.allocate.perform e = (.ok id, e₀)) :
    e₀.store.Indexed ∧ e₀.store.graph.Tracked ∧ e₀.store.graph id = none ∧
      (e.store.Grounded → e₀.store.Grounded) := by
  obtain ⟨hstatements, hindex⟩ := Engine.store_allocate hnew
  refine ⟨h.audited.orderly.filed.indexed.of_eq hstatements hindex,
    Engine.graph_allocate hnew ▸ h.audited.accounted.tracked, ?_,
    fun hgrounded => hgrounded.of_eq hstatements hindex⟩
  rw [Engine.graph_allocate hnew, Store.graph, h.audited.get?_eq_none hnew]
  rfl

section Answers

variable {permits : Engine → Op → Prop} {e : Engine} {context general : StatementId} {x : Term}
  {t : TransactionId}

theorem Reached.specialize_answered (h : Reached permits e) (hgrounded : e.store.Grounded) :
    Answered ((Engine.specialize t context general x).perform e).1 := by
  refine Engine.answered_of_accepted fun haccepted => ?_
  obtain ⟨hopen, hctx, id, e₀, hnew, st, hst⟩ := Engine.specialize_accepted.1 haccepted
  obtain ⟨hi, -, hfree, hgrounded₀⟩ := h.allocated hnew
  have hplain := Store.plain_specializationRecord hst
  obtain ⟨-, -, g', term, -, -, rfl⟩ := Store.specializationRecord_eq_ok_visible.1 hst
  exact (Engine.specialize_isOk hopen hctx hnew hst).2
    (Engine.enter_rests hi (hgrounded₀ hgrounded) hfree hplain)

theorem Reached.declare_answered (h : Reached permits e) (hgrounded : e.store.Grounded) :
    Answered ((Engine.declare t context x).perform e).1 := by
  refine Engine.answered_of_accepted fun haccepted => ?_
  obtain ⟨hopen, hctx, id, e₀, hnew, st, hst⟩ := Engine.declare_accepted.1 haccepted
  obtain ⟨hi, -, hfree, hgrounded₀⟩ := h.allocated hnew
  have hplain := Store.plain_declarationRecord hst
  obtain ⟨-, term, -, rfl⟩ := Store.declarationRecord_eq_ok.1 hst
  exact (Engine.declare_isOk hopen hctx hnew hst).2
    (Engine.enter_rests hi (hgrounded₀ hgrounded) hfree hplain)

end Answers

/-- Specializing a function and declaring its application agree as far as there are no markers. -/
theorem Reached.specialize_agrees {permits : Engine → Op → Prop} {e : Engine}
    (h : Reached permits e) {context general : StatementId} {g : Statement} {p : ParamId}
    {domain body : Term} (hg : e.store.get? general = some g)
    (hvisible : e.store.isVisible general context = true)
    (hterm : g.term = .function p domain body) (t : TransactionId) (x : Term) :
    let special := (Engine.specialize t context general x).perform e
    let declared := (Engine.declare t context (.apply g.toVar x)).perform e
    (domain.markers = 0 → (Engine.Accepted special.1 ↔ Engine.Accepted declared.1)) ∧
    (domain.markers ≠ 0 → ¬(Engine.Accepted special.1 ∧ Engine.Accepted declared.1)) ∧
    (domain.markers = 0 → body.markers = 0 → special.1.isOk = declared.1.isOk) ∧
    (e.store.Grounded → Answered special.1 ∧ Answered declared.1) ∧
    ∀ id e₁ id' e₂, special = (.ok id, e₁) → declared = (.ok id', e₂) → id' = id ∧
      ∃ st₁ st₂, e₁.store.get? id = some st₁ ∧ e₂.store.get? id = some st₂ ∧
        st₂.dependencies = st₁.dependencies ∧
        ((st₁.term == st₂.term) = true ↔ body.markers = 0) ∧
        (body.markers = 0 → ∀ y, e₂.store.isProved y = e₁.store.isProved y) ∧
        (e.store.Grounded → st₂.proved = st₁.proved) := by
  intro special declared
  have hid : g.id = general := h.audited.orderly.filed.indexed.keyed general g hg
  have hspecial : Engine.Accepted special.1 ↔ e.Suits t context x domain :=
    Engine.specialize_suits hg hvisible hterm
  have hdeclared : Engine.Accepted declared.1 ↔ e.Suits t context x domain.unproject :=
    Engine.declare_suits hg hid hvisible hterm
  have hsame (hmarkers : domain.markers = 0) :
      Engine.Accepted special.1 ↔ Engine.Accepted declared.1 := by
    have hplain := Term.unproject_beq.2 hmarkers
    rw [hspecial, hdeclared]
    exact ⟨fun hs => hs.of_beq ((Term.beq_comm _ _).trans hplain), fun hd => hd.of_beq hplain⟩
  have htwins {id : StatementId} {e₀ : Engine} {st₁ st₂ : Statement}
      (hnew : Engine.allocate.perform e = (.ok id, e₀))
      (hst₁ : e₀.store.specializationRecord context general x id = .ok st₁)
      (hst₂ : e₀.store.declarationRecord context (.apply g.toVar x) id = .ok st₂) :
      Engine.Twins body id st₁ st₂ := by
    obtain ⟨hg₀, hvisible₀⟩ := Engine.visible_allocate hnew hg hvisible
    exact Engine.twins_of_records hg₀ hid hvisible₀ hterm hst₁ hst₂
  refine ⟨hsame, fun hmarkers hboth => ?_, fun hmarkers hbody => ?_,
    fun hgrounded => ⟨h.specialize_answered hgrounded, h.declare_answered hgrounded⟩,
    fun id e₁ id' e₂ hrun₁ hrun₂ => ?_⟩
  · exact hmarkers (Term.unproject_beq.1 ((hdeclared.1 hboth.2).beq (hspecial.1 hboth.1)))
  · -- the propagations go in lockstep, so both end or neither
    by_cases haccepted : Engine.Accepted special.1
    · obtain ⟨hopen, hctx, id, e₀, hnew, st₁, hst₁⟩ := Engine.specialize_accepted.1 haccepted
      obtain ⟨-, -, id', e₀', hnew', st₂, hst₂⟩ :=
        Engine.declare_accepted.1 ((hsame hmarkers).1 haccepted)
      cases hnew.symm.trans hnew'
      obtain ⟨hi, ht, -, -⟩ := h.allocated hnew
      obtain ⟨-, hqueue⟩ := (htwins hnew hst₁ hst₂).lockstep (t := t) hi ht hbody
      rw [Bool.eq_iff_iff, Engine.specialize_isOk hopen hctx hnew hst₁,
        Engine.declare_isOk hopen hctx hnew hst₂, hqueue]
    · have hrefused (y : Except Failure StatementId) (hy : ¬Engine.Accepted y) : y.isOk = false :=
        Bool.eq_false_iff.2 fun hok => hy (Engine.isOk_iff_accepted.1 hok).1
      rw [hrefused _ haccepted, hrefused _ (mt (hsame hmarkers).2 haccepted)]
  · obtain ⟨-, -, e₀, hnew, st₁, hst₁, -, rfl⟩ := Engine.specialize_performs.1 hrun₁
    obtain ⟨-, -, e₀', hnew', st₂, hst₂, -, rfl⟩ := Engine.declare_performs.1 hrun₂
    cases hnew.symm.trans hnew'
    obtain ⟨hi, ht, hfree, hgrounded₀⟩ := h.allocated hnew
    have htwin := htwins hnew hst₁ hst₂
    obtain ⟨r₁, r₂, hr₁, hr₂, hdeps, hterms, hflag⟩ := htwin.entered (t := t) hi ht hfree
    exact ⟨rfl, r₁, r₂, hr₁, hr₂, hdeps, hterms, fun hbody => (htwin.lockstep hi ht hbody).1,
      fun hgrounded => hflag (hgrounded₀ hgrounded)⟩

/-- A hypothesis, and contexts with markers in a domain, at the front and in a body. -/
def markedTerms : List Op :=
  [.begin none,
    .createRoot ⟨1⟩ (.function ⟨0⟩ (.atom "A") (.atom "Z")),
    .openNested ⟨1⟩ (.after 0) (.function ⟨1⟩ (.projection (.atom "A")) (.atom "B")),
    .openNested ⟨1⟩ (.after 0) (.projection (.atom "A")),
    .openNested ⟨1⟩ (.after 0) (.function ⟨2⟩ (.atom "A") (.projection (.atom "B")))]

theorem reached_markedTerms :
    Reached (fun _ _ => True) (Op.runAll (.inMemory {}) markedTerms) :=
  reached_of_succeed (by decide +kernel)

theorem markedTerms_agree :
    let e := Op.runAll (.inMemory {}) markedTerms
    let general := Term.function ⟨2⟩ (.atom "A") (.projection (.atom "B"))
    let x := Term.var (.after 1) (.atom "A")
    let special := (Engine.specialize ⟨1⟩ (.after 0) (.after 5) x).perform e
    let declared := (Engine.declare ⟨1⟩ (.after 0) (.apply (.var (.after 5) general) x)).perform e
    special.1.isOk = true ∧ declared.1.isOk = true ∧
      ∀ id e₁ id' e₂, special = (.ok id, e₁) → declared = (.ok id', e₂) → id' = id ∧
        ∃ st₁ st₂, e₁.store.get? id = some st₁ ∧ e₂.store.get? id = some st₂ ∧
          st₂.dependencies = st₁.dependencies ∧ (st₁.term == st₂.term) = false ∧
          st₂.proved = st₁.proved := by
  intro e general x special declared
  have hg : e.store.get? (.after 5) = some
      { id := .after 5, owner := some (.after 0), term := general, proved := false,
        dependencies := IdSet.ofList [], identifier := none,
        kind := .context
          { kind := .nested, assumptions := [.after 6], consequent := .atom "B" } } :=
    rfl
  have hgrounded : e.store.Grounded := by
    refine Store.grounded_of_inconsistent reached_markedTerms.audited.orderly.filed.indexed ?_
    decide +kernel
  have hvisible : e.store.isVisible (.after 5) (.after 0) = true := by decide +kernel
  obtain ⟨haccept, -, -, hanswers, hmade⟩ :=
    reached_markedTerms.specialize_agrees hg hvisible rfl ⟨1⟩ x
  have hspecial : special.1.isOk = true := by decide +kernel
  have hdeclared : declared.1.isOk = true := Engine.isOk_iff_accepted.2
    ⟨(haccept rfl).1 (Engine.isOk_iff_accepted.1 hspecial).1, (hanswers hgrounded).2⟩
  refine ⟨hspecial, hdeclared, fun id e₁ id' e₂ hrun₁ hrun₂ => ?_⟩
  obtain ⟨hid, st₁, st₂, hst₁, hst₂, hdeps, hterms, -, hflags⟩ := hmade id e₁ id' e₂ hrun₁ hrun₂
  refine ⟨hid, st₁, st₂, hst₁, hst₂, hdeps, Bool.eq_false_iff.2 fun heq => ?_, hflags hgrounded⟩
  cases hterms.1 heq

/-- With a marker in the domain, each way refuses what the other accepts. -/
theorem markedTerms_disagree :
    let e := Op.runAll (.inMemory {}) markedTerms
    let general := Term.var (.after 2) (.function ⟨1⟩ (.projection (.atom "A")) (.atom "B"))
    let marked := Term.var (.after 4) (.projection (.atom "A"))
    let plain := Term.var (.after 1) (.atom "A")
    ((Engine.specialize ⟨1⟩ (.after 0) (.after 2) marked).perform e).1.isOk = true ∧
      ((Engine.declare ⟨1⟩ (.after 0) (.apply general marked)).perform e).1.isOk = false ∧
      ((Engine.specialize ⟨1⟩ (.after 0) (.after 2) plain).perform e).1.isOk = false ∧
      ((Engine.declare ⟨1⟩ (.after 0) (.apply general plain)).perform e).1.isOk = true := by
  decide +kernel

end StatementGraph
