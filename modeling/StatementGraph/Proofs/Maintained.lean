import StatementGraph.Proofs.History
import StatementGraph.Proofs.Propagation

namespace StatementGraph

/-- The records of statements and authorities as look-ups. -/
structure Records where
  statements : StatementId → Option Statement
  authorities : StatementId → Option Authority

namespace Records

def graph (r : Records) : Graph := fun x => (r.statements x).map Statement.content

/-- What truth maintenance keeps. -/
structure Maintained (r : Records) (H : Graph) : Prop where
  keyed : ∀ x st, r.statements x = some st → st.id = x
  sub : r.graph.Sub H
  closed : r.graph.Closed
  proved : ∀ x, (r.statements x).any Statement.proved = true ↔ r.graph.Derivable x
  authority : ∀ x a, r.authorities x = some a → a.statement = x ∧ ∃ c, r.graph x = some c

theorem Maintained.mono {r : Records} {G H : Graph} (h : r.Maintained G) (hs : G.Sub H) :
    r.Maintained H :=
  { h with sub := h.sub.trans hs }

end Records

namespace Graph

variable {G H : Graph} {x : StatementId} {c : Content} {l : List Statement}

/-- The graph with statements put in, one after the other. -/
def setAll (G : Graph) (l : List Statement) : Graph :=
  l.foldl (fun G st => G.set st.id (some st.content)) G

theorem setAll_cases (h : G.setAll l x = some c) :
    (∃ st ∈ l, st.id = x ∧ st.content = c) ∨ G x = some c := by
  induction l generalizing G with
  | nil => exact Or.inr h
  | cons st rest ih =>
    rcases ih (G := G.set st.id (some st.content)) h with ⟨st', hst', h⟩ | h
    · exact Or.inl ⟨st', List.mem_cons_of_mem _ hst', h⟩
    · by_cases hx : x = st.id
      · subst hx
        rw [set_self] at h
        exact Or.inl ⟨st, List.mem_cons_self, rfl, Option.some.inj h⟩
      · rw [set_ne hx] at h
        exact Or.inr h

theorem setAll_of_notMem (h : x ∉ l.map Statement.id) : G.setAll l x = G x := by
  induction l generalizing G with
  | nil => rfl
  | cons st rest ih =>
    rw [List.map_cons, List.mem_cons, not_or] at h
    exact (ih h.2).trans (set_ne h.1)

theorem setAll_mem {st : Statement} (hnd : (l.map Statement.id).Nodup) (h : st ∈ l) :
    G.setAll l st.id = some st.content := by
  induction l generalizing G with
  | nil => cases h
  | cons st' rest ih =>
    rw [List.map_cons, List.nodup_cons] at hnd
    rcases List.mem_cons.1 h with rfl | h
    · exact (setAll_of_notMem hnd.1).trans set_self
    · exact ih hnd.2 h

theorem Sub.setAll_new (h : ∀ st ∈ l, G st.id = none) : G.Sub (G.setAll l) := by
  intro x c hx
  refine (setAll_of_notMem fun hmem => ?_).trans hx
  obtain ⟨st, hst, rfl⟩ := List.mem_map.1 hmem
  rw [h st hst] at hx
  cases hx

theorem Sub.setAll (hs : G.Sub H) (h : ∀ st ∈ l, H st.id = some st.content) :
    (G.setAll l).Sub H := by
  intro x c hx
  rcases setAll_cases hx with ⟨st, hst, rfl, rfl⟩ | hx
  · exact h st hst
  · exact hs x c hx

end Graph

namespace Store

variable {s s' : Store} {H K : Graph} {D : Discipline} {x : StatementId} {l : List Statement}

def records (s : Store) : Records := ⟨s.get?, s.authority?⟩

/-- The indexes are current, and the records are maintained. -/
structure Maintained (s : Store) (H : Graph) : Prop where
  indexed : s.Indexed
  records : s.records.Maintained H

namespace Maintained

variable (h : s.Maintained H)

include h

theorem sub : s.graph.Sub H := h.records.sub

theorem closed : s.graph.Closed := h.records.closed

theorem proved_iff : s.Proved x ↔ s.graph.Derivable x := h.records.proved x

theorem authority {a : Authority} (ha : s.authority? x = some a) :
    a.statement = x ∧ ∃ c, s.graph x = some c :=
  h.records.authority x a ha

theorem mono (hs : H.Sub K) : s.Maintained K := ⟨h.indexed, h.records.mono hs⟩

theorem forest (hH : H.Lawful D) : s.graph.Forest := hH.forest_of_sub h.sub h.closed.owner

theorem tracked (hH : H.Lawful D) : s.graph.Tracked := hH.tracked_of_sub h.sub

theorem listed {c : Content} {data : ContextData} {i : Nat} {a : StatementId} (hH : H.Lawful D)
    (hx : s.graph x = some c) (hk : c.kind = .context data) (ha : data.assumptions[i]? = some a) :
    ∃ ca, s.graph a = some ca ∧ ca.owner = some x ∧ ca.kind = .assumption i := by
  obtain ⟨ca, hca⟩ := h.closed.assumption x c data a hx hk (List.mem_of_getElem? ha)
  obtain ⟨ca', hca', howner, hkind⟩ := hH.listed (h.sub x c hx) hk ha
  cases hca'.symm.trans (h.sub a ca hca)
  exact ⟨ca, hca, howner, hkind⟩

theorem settled (hH : H.Lawful D) : s.Settled :=
  settled_of_proved_iff h.indexed (h.forest hH) (h.tracked hH) fun _ => h.proved_iff

end Maintained

theorem Settled.maintained (h : s.Settled) (hsub : s.graph.Sub H) (hclosed : s.graph.Closed)
    (hauth : ∀ x a, s.authority? x = some a → a.statement = x ∧ ∃ c, s.graph x = some c) :
    s.Maintained H where
  indexed := h.indexed
  records :=
    { keyed := h.indexed.keyed
      sub := hsub
      closed := hclosed
      proved := fun _ => h.proved_iff
      authority := hauth }

def writeAll (s : Store) (l : List Statement) : Store := l.foldl write s

theorem nameOf_writeAll (hl : ∀ st ∈ l, st.identifier = none) (hs : ∀ st ∈ l, s.nameOf st.id = none)
    (y : StatementId) : (s.writeAll l).nameOf y = s.nameOf y := by
  induction l generalizing s with
  | nil => rfl
  | cons st rest ih =>
    have hone (z : StatementId) : (s.write st).nameOf z = s.nameOf z := by
      rw [nameOf_write]
      split
      · rename_i he
        rw [he, hs st List.mem_cons_self, hl st List.mem_cons_self]
      · rfl
    rw [← hone y]
    apply ih
    · intro st' hst'
      exact hl st' (List.mem_cons_of_mem _ hst')
    · intro st' hst'
      rw [hone]
      exact hs st' (List.mem_cons_of_mem _ hst')

theorem graph_writeAll : (s.writeAll l).graph = s.graph.setAll l := by
  induction l generalizing s with
  | nil => rfl
  | cons st rest ih =>
    rw [writeAll, List.foldl_cons]
    exact ih.trans (by rw [graph_write]; rfl)

theorem Indexed.writeAll (h : s.Indexed) : (s.writeAll l).Indexed := by
  induction l generalizing s with
  | nil => exact h
  | cons st rest ih => exact ih h.write

theorem authorities_writeAll : (s.writeAll l).authorities = s.authorities := by
  induction l generalizing s with
  | nil => rfl
  | cons st rest ih => exact ih

theorem allocator_writeAll : (s.writeAll l).allocator = s.allocator := by
  induction l generalizing s with
  | nil => rfl
  | cons st rest ih => exact ih

theorem proved_writeAll (hnew : ∀ st ∈ l, s.graph st.id = none)
    (hflag : ∀ st ∈ l, st.proved = false) : (s.writeAll l).Proved x ↔ s.Proved x := by
  have hget (x : StatementId) : (s.writeAll l).get? x = s.get? x ∨
      ∃ st ∈ l, st.id = x ∧ (s.writeAll l).get? x = some st := by
    clear hnew hflag
    induction l generalizing s with
    | nil => exact Or.inl rfl
    | cons st rest ih =>
      rcases ih (s := s.write st) with h | ⟨st', hst', h⟩
      · by_cases hx : x = st.id
        · refine Or.inr ⟨st, List.mem_cons_self, hx.symm, h.trans ?_⟩
          rw [get?_write, if_pos hx]
        · refine Or.inl (h.trans ?_)
          rw [get?_write, if_neg hx]
      · exact Or.inr ⟨st', List.mem_cons_of_mem _ hst', h⟩
  rw [Proved, Proved, isProved, isProved]
  rcases hget x with h | ⟨st, hst, rfl, h⟩
  · rw [h]
  · have hnone : s.get? st.id = none := Option.map_eq_none_iff.1 (hnew st hst)
    simp [h, hnone, hflag st hst]

/-- New records without flags leave no statement late but themselves. -/
theorem approaches_writeAll (h : s.Settled) (hr : s.graph.Rooted)
    (hnew : ∀ st ∈ l, s.graph st.id = none) (hflag : ∀ st ∈ l, st.proved = false)
    (hf : (s.writeAll l).graph.Forest) (ht : (s.writeAll l).graph.Tracked) :
    (s.writeAll l).Approaches fun x => x ∈ l.map Statement.id := by
  have hflags : (s.writeAll l).Proved = s.Proved :=
    funext fun x => propext (proved_writeAll hnew hflag)
  have hsub : s.graph.Sub (s.writeAll l).graph := by
    rw [graph_writeAll]
    exact Graph.Sub.setAll_new hnew
  refine ⟨h.indexed.writeAll, hf, ht, fun x hx => ?_, fun x hx => ?_, fun x hx hn => ?_⟩
  · rw [hflags] at hx
    exact (h.derivable x hx).mono hsub
  · rw [hflags] at hx ⊢
    exact (h.follows x hx).sub hsub
  · rw [hflags] at hx hn
    by_contra hmem
    -- an old statement is solved by old statements only, so it followed before
    refine h.late x ?_ hn
    obtain ⟨c, hc, hd, hk⟩ := hx
    have hc' : s.graph x = some c := by
      rw [graph_writeAll, Graph.setAll_of_notMem hmem] at hc
      exact hc
    refine ⟨c, hc', hd, fun data hdata => ?_⟩
    obtain ⟨y, hsolves, hy⟩ := hk data hdata
    obtain ⟨cy, hcy⟩ := (h.derivable y hy).live
    exact ⟨y, hsub.solves_of hr hcy hc' hsolves, hy⟩

end Store

end StatementGraph
