import StatementGraph.Proofs.Auditing
import StatementGraph.Proofs.Consistency
import StatementGraph.Proofs.Isolation

namespace StatementGraph

/-- A variable whose type mentions no more than the term of its statement, all the way down. -/
inductive Graph.Modest (H : Graph) : StatementId → Term → Prop where
  | own {x : StatementId} {c : Content} (hx : H x = some c) : Modest H x c.term
  | like {x : StatementId} {c : Content} {type : Term} (hx : H x = some c)
      (hvars : ∀ y ∈ type.freeVars, y ∈ c.term.freeVars)
      (hcast : c.term.castFree = true → type.castFree = true)
      (hinside : ∀ y inner, (y, inner) ∈ type.occurrences → Modest H y inner) : Modest H x type

theorem Graph.Modest.mono {G H : Graph} {x : StatementId} {type : Term} (hs : G.Sub H)
    (h : G.Modest x type) : H.Modest x type := by
  induction h with
  | own hx => exact .own (hs _ _ hx)
  | like hx hvars hcast _ ih => exact .like (hs _ _ hx) hvars hcast ih

theorem Graph.Modest.freeVars {H : Graph} {x y : StatementId} {c : Content} {type : Term}
    (h : H.Modest x type) (hx : H x = some c) (hy : y ∈ type.freeVars) : y ∈ c.term.freeVars := by
  cases h with
  | own hx' =>
    cases hx.symm.trans hx'
    exact hy
  | like hx' hvars =>
    cases hx.symm.trans hx'
    exact hvars y hy

/-- Every variable carries a type that mentions no more than the term of its statement. -/
def Discipline.modest : Discipline where
  leaf := Graph.Modest
  params := True
  mono hs h := h.mono hs
  own hx := .own hx
  carried := by
    intro H x c type h hx hobeys _
    refine ⟨?_, fun y hy => h.freeVars hx hy⟩
    cases h with
    | own hx' =>
      cases hx.symm.trans hx'
      exact hobeys
    | like hx' _ hcast hinside =>
      cases hx.symm.trans hx'
      exact ⟨hinside, Or.inl trivial, hcast hobeys.2.2⟩

def Op.Modest (e : Engine) (op : Op) : Prop := ∀ term ∈ op.supplied, ∀ x type,
  (x, type) ∈ term.occurrences → ∀ c, e.store.graph x = some c → e.store.graph.Modest x type

theorem Op.Modest.offers {e : Engine} {op : Op} (h : op.Modest e) :
    ∀ term ∈ op.supplied, Discipline.modest.Offers e.store.graph term :=
  fun term hterm => ⟨h term hterm, Or.inl trivial⟩

theorem Op.Faithful.modest {e : Engine} {op : Op} (h : op.Faithful e) : op.Modest e := by
  intro term hterm x type hx c hc
  obtain ⟨st, hst, rfl⟩ := Store.graph_eq_some.1 hc
  rw [h term hterm x type hx st hst]
  exact .own hc

theorem Reached.scoped {permits : Engine → Op → Prop} {e : Engine}
    (hmodest : ∀ e op, permits e op → op.Modest e)
    (hapart : (∀ e op, permits e op → op.Sequential e) ∨
      ∃ commits : TransactionId → Prop, ∀ e op, permits e op → op.Isolated commits e)
    (h : Reached permits e) : e.store.graph.Scoped := by
  have hoffer (e : Engine) (op : Op) (hop : permits e op) := (hmodest e op hop).offers
  have hkept : Engine.Kept .modest e := by
    rcases hapart with hseq | ⟨commits, hisolated⟩
    · obtain ⟨H, hsession⟩ := h.session hseq hoffer
      exact hsession.kept
    · obtain ⟨⟨H, hinterleaved⟩, -⟩ := h.interleaved_of fun e op hop =>
        ⟨hoffer e op hop, hisolated e op hop⟩
      exact ⟨H, hinterleaved.lawful, hinterleaved.maintained, hinterleaved.counter⟩
  obtain ⟨H, hlawful, hm, -⟩ := hkept
  exact hlawful.scoped_of_sub hm.sub hm.closed

namespace Store

variable {s : Store} {context id d : StatementId} {value : Term} {st : Statement}

/-- How a declaration comes to depend on what its context does not see. -/
def Leaks (s : Store) (value : Term) (d : StatementId) : Prop :=
  ∃ x type st, (x, type) ∈ value.occurrences ∧ s.get? x = some st ∧ d ∈ type.freeVars ∧
    (d ∉ st.term.freeVars ∨
      d ∈ st.dependencies ∧ ∀ o, st.owner = some o → s.isVisible d o = false)

theorem leaks_congr {s' : Store} (h : s'.get? = s.get?) : s'.Leaks = s.Leaks := by
  have hgraph : s'.graph = s.graph := funext fun y => by rw [graph, graph, h]
  funext value d
  rw [Leaks, Leaks, h, isVisible_congr hgraph]

theorem visible_or_leaks (ht : s.graph.Tracked)
    (hrecord : s.declarationRecord context value id = .ok st) (hd : d ∈ st.dependencies) :
    s.isVisible d context = true ∨ s.Leaks value d := by
  obtain ⟨hvalid, term, hterm, rfl⟩ := declarationRecord_eq_ok.1 hrecord
  obtain ⟨hcast, hvars⟩ := validate_eq_ok.1 hvalid
  have hown (y : StatementId) (type : Term) (hy : (y, type) ∈ value.occurrences) :
      ∃ sy, s.get? y = some sy ∧ s.isVisible y context = true := by
    obtain ⟨sy, hsy, hvisible, -⟩ := checkVariable_eq_ok.1 (hvars (y, type) hy)
    exact ⟨sy, hsy, hvisible⟩
  have hvalue (hd : d ∈ value.freeVars) : s.isVisible d context = true := by
    obtain ⟨type, hd⟩ := Term.mem_freeVars.1 hd
    obtain ⟨-, -, hvisible⟩ := hown d type hd
    exact hvisible
  rcases IdSet.mem_union.1 hd with hd | hd
  · obtain ⟨inner, hd⟩ := Term.mem_freeVars.1 hd
    rcases Term.mem_occurrences_typeOf hcast hterm hd with hd | ⟨y, type, hy, hd⟩
    · exact Or.inl (hvalue (Term.mem_freeVars.2 ⟨inner, hd⟩))
    · have hmention : d ∈ type.freeVars := Term.mem_freeVars.2 ⟨inner, hd⟩
      obtain ⟨sy, hsy, hvisible⟩ := hown y type hy
      by_cases hstored : d ∈ sy.term.freeVars
      · have hdep : d ∈ sy.dependencies :=
          (ht y sy.content (graph_of_get? hsy) d).2 (Or.inl hstored)
        by_cases hsees : ∃ o, sy.owner = some o ∧ s.isVisible d o = true
        · -- what is seen from around a context is seen from the context
          obtain ⟨o, ho, hdo⟩ := hsees
          obtain ⟨c, o', hc, ho', hw⟩ := isVisible_iff.1 hvisible
          cases (graph_of_get? hsy).symm.trans hc
          cases ho.symm.trans ho'
          exact Or.inl (isVisible_iff.2 ((isVisible_iff.1 hdo).within hw))
        · refine Or.inr ⟨y, type, sy, hy, hsy, hmention, Or.inr ⟨hdep, fun o ho => ?_⟩⟩
          exact Bool.eq_false_iff.2 fun hdo => hsees ⟨o, ho, hdo⟩
      · exact Or.inr ⟨y, type, sy, hy, hsy, hmention, Or.inl hstored⟩
  · exact Or.inl (hvalue hd)

theorem not_leaks (hscoped : s.graph.Scoped)
    (hmodest : ∀ x type, (x, type) ∈ value.occurrences → ∀ c, s.graph x = some c →
      s.graph.Modest x type) : ¬s.Leaks value d := by
  rintro ⟨x, type, st, hx, hst, hd, hleak⟩
  have hgraph := graph_of_get? hst
  rcases hleak with hnot | ⟨hdep, hblind⟩
  · exact hnot ((hmodest x type hx st.content hgraph).freeVars hgraph hd)
  · obtain ⟨o, ho, hsees⟩ := hscoped x st.content d hgraph hdep
    exact Bool.eq_false_iff.1 (hblind o ho) (isVisible_iff.2 hsees)

end Store

/-- A declaration depends on what its context sees, and on what leaks in by carried types. -/
theorem Reached.declare_sees {permits : Engine → Op → Prop} {e e' : Engine} (h : Reached permits e)
    {t : TransactionId} {context id : StatementId} {value : Term}
    (hrun : (Engine.declare t context value).perform e = (.ok id, e')) :
    ∃ st, e'.store.get? id = some st ∧ st.owner = some context ∧ st.kind = .declaration value ∧
      (∀ d ∈ st.dependencies,
        e'.store.contains d = true ∧ e'.store.isVisible d context = true ∨
          e.store.Leaks value d) ∧
      ((∀ e op, permits e op → op.Modest e) →
        ((∀ e op, permits e op → op.Sequential e) ∨
          ∃ commits : TransactionId → Prop, ∀ e op, permits e op → op.Isolated commits e) →
        (Op.declare t context value).Modest e → ∀ d ∈ st.dependencies,
          e'.store.contains d = true ∧ e'.store.isVisible d context = true) := by
  obtain ⟨-, -, e₀, hnew, st, hst, -, rfl⟩ := Engine.declare_performs.1 hrun
  have hid : st.id = id ∧ st.owner = some context ∧ st.kind = .declaration value := by
    obtain ⟨-, term, -, rfl⟩ := Store.declarationRecord_eq_ok.1 hst
    exact ⟨rfl, rfl, rfl⟩
  obtain ⟨rfl, howner, hkind⟩ := hid
  have hgraph : e₀.store.graph = e.store.graph := Engine.graph_allocate hnew
  have hsub := h.audited.sub_enter (t := t) hnew
  have hshown (d : StatementId) (hd : e.store.isVisible d context = true) :
      (e₀.enter t st).engine.store.contains d = true ∧
        (e₀.enter t st).engine.store.isVisible d context = true := by
    have hsees := hsub.sees (Store.isVisible_iff.1 hd)
    obtain ⟨c, -, hc, -⟩ := id hsees
    obtain ⟨sd, hsd, -⟩ := Store.graph_eq_some.1 hc
    exact ⟨Table.contains_iff.2 ⟨sd, hsd⟩, Store.isVisible_iff.2 hsees⟩
  have hcause (d : StatementId) (hd : d ∈ st.dependencies) :
      e.store.isVisible d context = true ∨ e.store.Leaks value d := by
    have ht : e₀.store.graph.Tracked := hgraph ▸ h.audited.accounted.tracked
    have hcause := Store.visible_or_leaks ht hst hd
    rwa [Store.isVisible_congr hgraph, Store.leaks_congr (Engine.get?_allocate hnew)] at hcause
  obtain ⟨st', hst', hcontent⟩ := @Engine.get?_enter t e₀ st
  have hdeps : st'.dependencies = st.dependencies := congrArg Content.dependencies hcontent
  refine ⟨st', hst', (congrArg Content.owner hcontent).trans howner,
    (congrArg Content.kind hcontent).trans hkind, fun d hd => ?_,
    fun hpermits hapart hmodest d hd => ?_⟩
  · exact (hcause d (hdeps ▸ hd)).imp_left (hshown d)
  · refine hshown d ((hcause d (hdeps ▸ hd)).resolve_right ?_)
    exact Store.not_leaks (h.scoped hpermits hapart) (hmodest value List.mem_cons_self)

def functionOnProofs : List Op :=
  [.begin none, .createRoot ⟨1⟩ (.function ⟨0⟩ (.atom "A") (.function ⟨1⟩
    (.function ⟨7⟩ (.param ⟨0⟩ (.atom "A")) (.param ⟨7⟩ (.param ⟨0⟩ (.atom "A")))) (.atom "Z")))]

theorem reached_functionOnProofs :
    Reached (fun e op => op.Modest e ∧ op.Isolated (fun _ => False) e)
      (Op.runAll (.inMemory {}) functionOnProofs) := by
  have hfaithful : Reached (fun e op => op.Faithful e ∧ op.Isolated (fun _ => False) e)
      (Op.runAll (.inMemory {}) functionOnProofs) := reached_of_succeed (by decide +kernel)
  exact hfaithful.mono fun _ _ hop => ⟨hop.1.modest, hop.2⟩

/-- The variable of the function carries a type with another name for the parameter. -/
theorem functionOnProofs_sees :
    let e := Op.runAll (.inMemory {}) functionOnProofs
    let proof := Term.var (.after 1) (.atom "A")
    let made := (Engine.declare ⟨1⟩ (.after 0)
      (.var (.after 2) (.function ⟨8⟩ proof (.param ⟨8⟩ proof)))).perform e
    ∃ st, made.2.store.get? (.after 3) = some st ∧
      st.dependencies.toList = [.after 1, .after 2] ∧
      ∀ d ∈ st.dependencies, made.2.store.contains d = true ∧
        made.2.store.isVisible d (.after 0) = true := by
  intro e proof made
  have hrun : made = (.ok (.after 3), made.2) :=
    performs_of_toOption (by decide +kernel)
  have hproof : e.store.graph (.after 1) =
      some ⟨some (.after 0), .atom "A", IdSet.ofList [], .assumption 0⟩ := rfl
  have hfunction : e.store.graph (.after 2) = some ⟨some (.after 0),
      .function ⟨7⟩ proof (.param ⟨7⟩ proof), IdSet.ofList [.after 1], .assumption 1⟩ := rfl
  obtain ⟨st, hst, -, -, -, hsees⟩ := reached_functionOnProofs.declare_sees hrun
  refine ⟨st, hst, ?_, hsees (fun _ _ hop => hop.1) (Or.inr ⟨_, fun _ _ hop => hop.2⟩) ?_⟩
  · have hdeps : (made.2.store.get? (.after 3)).map (fun st => st.dependencies.toList) =
        some [.after 1, .after 2] := by decide +kernel
    rw [hst] at hdeps
    exact Option.some.inj hdeps
  · intro term hterm x type hx c hc
    cases List.mem_singleton.1 hterm
    cases List.mem_singleton.1 hx
    refine .like hfunction (by decide) (fun _ => rfl) fun y inner hy => ?_
    have hy : (y, inner) = (.after 1, .atom "A") := by simpa [Term.occurrences, proof] using hy
    cases hy
    exact .own hproof

def assumedFunction : List Op :=
  [.begin none,
    .createRoot ⟨1⟩ (.function ⟨9⟩ (.function ⟨7⟩ (.atom "A") (.param ⟨7⟩ (.atom "A")))
      (.atom "B"))]

/-- A declaration is aborted after another transaction has opened a context that mentions it. -/
def abortedMention : List Op :=
  [.begin none, .createRoot ⟨1⟩ (.function ⟨0⟩ (.atom "A") (.atom "Z")), .commit ⟨1⟩, .begin none,
    .begin none, .declare ⟨2⟩ (.after 0) (.var (.after 1) (.atom "A")),
    .openNested ⟨3⟩ (.after 0) (.apply (.atom "P") (.var (.after 2) (.atom "A"))), .abort ⟨2⟩]

/-- The type of a variable can bring in what is not there, in the type of a parameter. -/
theorem declare_leaks :
    let hidden := (Engine.declare ⟨1⟩ (.after 0) (.var (.after 1)
      (.function ⟨7⟩ (.atom "A") (.param ⟨7⟩ (.var (.after 4) (.atom "A")))))).perform
        (Op.runAll (.inMemory {}) assumedFunction)
    let aborted := (Engine.declare ⟨3⟩ (.after 0) (.var (.after 3)
      (.apply (.atom "P") (.var (.after 2) (.atom "A"))))).perform
        (Op.runAll (.inMemory {}) abortedMention)
    (hidden.1.toOption = some (.after 2) ∧
      (hidden.2.store.get? (.after 2)).any (fun st => decide (.after 4 ∈ st.dependencies)) = true ∧
      hidden.2.store.contains (.after 4) = false) ∧
    aborted.1.toOption = some (.after 4) ∧
      (aborted.2.store.get? (.after 4)).any (fun st => decide (.after 2 ∈ st.dependencies)) = true ∧
      aborted.2.store.contains (.after 2) = false := by
  decide +kernel

end StatementGraph
