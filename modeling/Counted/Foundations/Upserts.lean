import Counted.Foundations.Run

namespace Counted.Foundations

/-- One row that commands load, decide on and save by upsert, each statement in a transaction that
reads what is committed. `take` is a statement that loads the row, with what it writes on its way;
`again` is a later statement of the same load, which may find another row or none. A `fenced` write
asks that the row be there when its statement begins. -/
structure Upserts (Take Row Loaded Command Write : Type) where
  take : Take → Row → Option (Option Row × Loaded)
  again : Loaded → Option Row → Loaded
  decide : Loaded → Command → Option Write
  fenced : Write → Bool
  insert : Write → Row
  update : Row → Write → Row

namespace Upserts

variable {Take Row Loaded Command Write : Type}

inductive Statement (Write : Type)
  | save (write : Write)
  | delete

/-- A statement that has begun knows how many deletions had committed then, and whether it found the
row. It runs once it has the row's lock. -/
inductive Stage (Write : Type)
  | loaded
  | issued (statement : Statement Write) (since : ℕ) (seen : Bool)
  | done

/-- A command, with the number of deletions committed when it loaded. -/
structure Process (Loaded Write : Type) where
  value : Loaded
  since : ℕ
  stage : Stage Write

/-- What is committed, the transaction that holds the row's lock and what it leaves of the row, the
commands, and the number of deletions committed. -/
structure System (Row Loaded Write : Type) where
  row : Option Row
  held : Option (ℕ × Option Row)
  processes : List (Process Loaded Write)
  deletions : ℕ

inductive Action (Take Command : Type)
  | load (take : Take)
  | again (index : ℕ)
  | save (index : ℕ) (command : Command)
  | delete (index : ℕ)
  | execute (index : ℕ)
  | commit (index : ℕ)
  | rollback (index : ℕ)

def start (row : Row) : System Row Loaded Write := ⟨some row, none, [], 0⟩

namespace System

variable (s : System Row Loaded Write)

def put (index : ℕ) (p : Process Loaded Write) : System Row Loaded Write :=
  { s with processes := s.processes.set index p }

def issue (index : ℕ) (p : Process Loaded Write) (statement : Statement Write) :
    System Row Loaded Write :=
  s.put index { p with stage := .issued statement s.deletions s.row.isSome }

/-- The end of a transaction that leaves the row as `after`. -/
def settle (after : Option Row) : System Row Loaded Write :=
  { s with
    row := after
    held := none
    deletions := if after.isNone then s.deletions + 1 else s.deletions }

end System

variable (u : Upserts Take Row Loaded Command Write)

/-- What a statement that runs now leaves of the row, if it touches it. A deletion touches the row
that it found, unless that one has gone in the meantime. -/
def effect (s : System Row Loaded Write) (since : ℕ) (seen : Bool) :
    Statement Write → Option (Option Row)
  | .delete => if seen && since == s.deletions then some none else none
  | .save write =>
    if u.fenced write && !seen then none
    else some (some (match s.row with
      | none => u.insert write
      | some row => u.update row write))

def step (s : System Row Loaded Write) : Action Take Command → Option (System Row Loaded Write)
  | .load take => s.row.bind fun row ↦ (u.take take row).bind fun taken ↦
    match taken.1 with
    | none => some { s with processes := s.processes ++ [⟨taken.2, s.deletions, .loaded⟩] }
    | some written =>
      if s.held.isSome then none
      else some { s with
        row := some written
        processes := s.processes ++ [⟨taken.2, s.deletions, .loaded⟩] }
  | .again index => s.processes[index]?.map fun p ↦
    s.put index { p with value := u.again p.value s.row }
  | .save index command => s.processes[index]?.bind fun p ↦
    match p.stage with
    | .loaded => (u.decide p.value command).map fun write ↦ s.issue index p (.save write)
    | .issued .. | .done => none
  | .delete index => s.processes[index]?.bind fun p ↦
    match p.stage with
    | .loaded => some (s.issue index p .delete)
    | .issued .. | .done => none
  | .execute index => s.processes[index]?.bind fun p ↦
    match p.stage with
    | .issued statement since seen =>
      match u.effect s since seen statement with
      | none => some (s.put index { p with stage := .done })
      | some after =>
        if s.held.isSome then none
        else some { s.put index { p with stage := .done } with held := some (index, after) }
    | .loaded | .done => none
  | .commit index => s.processes[index]?.bind fun p ↦
    match p.stage with
    | .done =>
      match s.held with
      | some (holder, after) =>
        if holder = index then some ((s.put index { p with stage := .loaded }).settle after)
        else some (s.put index { p with stage := .loaded })
      | none => some (s.put index { p with stage := .loaded })
    | .loaded | .issued .. => none
  | .rollback index => s.processes[index]?.map fun p ↦
    { s.put index { p with stage := .loaded } with
      held := s.held.filter (fun held ↦ held.1 ≠ index) }

/-- No save runs after a deletion has committed since its command loaded the row. A fenced one may,
where its statement has not begun before the deletion committed. -/
def Timely (s : System Row Loaded Write) : Action Take Command → Prop
  | .execute index => ∀ p write since seen, s.processes[index]? = some p →
      p.stage = .issued (.save write) since seen →
        if u.fenced write then seen = true → since = s.deletions else p.since = s.deletions
  | .load _ | .again _ | .save .. | .delete _ | .commit _ | .rollback _ => True

/-- A committed deletion lasts. -/
def System.StaysDeleted (s : System Row Loaded Write) : Prop := 0 < s.deletions → s.row = none

structure System.Inv (s : System Row Loaded Write) : Prop where
  gone : s.StaysDeleted
  present : s.deletions = 0 → s.row.isSome
  loads : ∀ p ∈ s.processes, p.since = 0
  sees : ∀ p ∈ s.processes, ∀ statement since, p.stage = .issued statement since true → since = 0
  holds : s.held.isSome → s.deletions = 0

variable {u} {s t : System Row Loaded Write} {a : Action Take Command} {p : Process Loaded Write}
  {index : ℕ}

theorem start_inv (row : Row) : (start row : System Row Loaded Write).Inv :=
  ⟨fun h ↦ absurd h (lt_irrefl 0), fun _ ↦ rfl, List.forall_mem_nil _, List.forall_mem_nil _,
    fun h ↦ by simp [start] at h⟩

namespace System.Inv

/-- Where there is a row, none has been deleted. -/
theorem deletions_eq_zero (h : s.Inv) (hr : s.row.isSome) : s.deletions = 0 := by
  by_contra hn
  rw [h.gone (Nat.pos_of_ne_zero hn)] at hr
  exact absurd hr (by simp)

theorem put (h : s.Inv) (hp : p.since = 0)
    (hs : ∀ statement since, p.stage = .issued statement since true → since = 0) :
    (s.put index p).Inv := by
  refine ⟨h.gone, h.present, ?_, ?_, h.holds⟩
  · intro q hq
    rcases List.mem_or_eq_of_mem_set hq with hq | rfl
    · exact h.loads q hq
    · exact hp
  · intro q hq
    rcases List.mem_or_eq_of_mem_set hq with hq | rfl
    · exact h.sees q hq
    · exact hs

theorem issue (h : s.Inv) (hp : p.since = 0) (statement : Statement Write) :
    (s.issue index p statement).Inv := by
  refine h.put hp ?_
  intro _ since hst
  simp only [Stage.issued.injEq] at hst
  exact hst.2.1 ▸ h.deletions_eq_zero hst.2.2

theorem settle (h : s.Inv) (hd : s.deletions = 0) (after : Option Row) :
    (s.settle after).Inv := by
  cases after with
  | none =>
    exact ⟨fun _ ↦ rfl, fun h0 ↦ absurd h0 (Nat.succ_ne_zero _), h.loads, h.sees,
      fun hh ↦ by simp [System.settle] at hh⟩
  | some row =>
    exact ⟨fun hpos ↦ absurd hd hpos.ne', fun _ ↦ rfl, h.loads, h.sees,
      fun hh ↦ by simp [System.settle] at hh⟩

theorem append (h : s.Inv) (hd : s.deletions = 0) (value : Loaded) :
    ({ s with processes := s.processes ++ [⟨value, s.deletions, .loaded⟩] } :
      System Row Loaded Write).Inv := by
  refine ⟨h.gone, h.present, ?_, ?_, h.holds⟩
  · intro q hq
    rcases List.mem_append.1 hq with hq | hq
    · exact h.loads q hq
    · rw [List.mem_singleton.1 hq]
      exact hd
  · intro q hq statement since hst
    rcases List.mem_append.1 hq with hq | hq
    · exact h.sees q hq statement since hst
    · rw [List.mem_singleton.1 hq] at hst
      cases hst

/-- What touches the row does so before any deletion has committed. -/
theorem effect (h : s.Inv) (hp : s.processes[index]? = some p)
    (hc : u.Timely s (.execute index)) {statement : Statement Write} {since : ℕ} {seen : Bool}
    (hst : p.stage = .issued statement since seen) {after : Option Row}
    (he : u.effect s since seen statement = some after) : s.deletions = 0 := by
  have hmem := List.mem_of_getElem? hp
  cases statement with
  | delete =>
    simp only [Upserts.effect] at he
    split_ifs at he with hseen
    rw [Bool.and_eq_true, beq_iff_eq] at hseen
    rw [hseen.1] at hst
    exact hseen.2 ▸ h.sees p hmem .delete since hst
  | save write =>
    have htime := hc p write since seen hp hst
    by_cases hf : u.fenced write
    · rw [if_pos hf] at htime
      cases seen with
      | true => exact htime rfl ▸ h.sees p hmem _ since hst
      | false => simp [Upserts.effect, hf] at he
    · rw [if_neg hf] at htime
      exact htime ▸ h.loads p hmem

theorem step (h : s.Inv) (hc : u.Timely s a) (hs : u.step s a = some t) : t.Inv := by
  cases a with
  | load take =>
    obtain ⟨row, hrow, hs⟩ := Option.bind_eq_some_iff.1 hs
    obtain ⟨⟨written, value⟩, -, hs⟩ := Option.bind_eq_some_iff.1 hs
    have hd := h.deletions_eq_zero (Option.isSome_of_mem hrow)
    cases written with
    | none =>
      cases hs
      exact h.append hd value
    | some row' =>
      dsimp only at hs
      split_ifs at hs
      cases hs
      have happ := h.append hd value
      exact ⟨fun hpos ↦ absurd hd hpos.ne', fun _ ↦ rfl, happ.loads, happ.sees, h.holds⟩
  | again index =>
    obtain ⟨p, hp, rfl⟩ := Option.map_eq_some_iff.1 hs
    have hmem := List.mem_of_getElem? hp
    exact h.put (h.loads p hmem) (h.sees p hmem)
  | save index command =>
    obtain ⟨p, hp, hs⟩ := Option.bind_eq_some_iff.1 hs
    cases hst : p.stage with
    | loaded =>
      rw [hst] at hs
      obtain ⟨write, -, rfl⟩ := Option.map_eq_some_iff.1 hs
      exact h.issue (h.loads p (List.mem_of_getElem? hp)) _
    | issued | done => simp [hst] at hs
  | delete index =>
    obtain ⟨p, hp, hs⟩ := Option.bind_eq_some_iff.1 hs
    cases hst : p.stage with
    | loaded =>
      rw [hst] at hs
      cases hs
      exact h.issue (h.loads p (List.mem_of_getElem? hp)) _
    | issued | done => simp [hst] at hs
  | execute index =>
    obtain ⟨p, hp, hs⟩ := Option.bind_eq_some_iff.1 hs
    have hput : (s.put index { p with stage := .done }).Inv :=
      h.put (h.loads p (List.mem_of_getElem? hp)) fun _ _ hst ↦ by cases hst
    cases hst : p.stage with
    | issued statement since seen =>
      simp only [hst] at hs
      cases he : u.effect s since seen statement with
      | none =>
        simp only [he] at hs
        cases hs
        exact hput
      | some after =>
        simp only [he] at hs
        split_ifs at hs
        cases hs
        exact ⟨hput.gone, hput.present, hput.loads, hput.sees, fun _ ↦ h.effect hp hc hst he⟩
    | loaded | done => simp [hst] at hs
  | commit index =>
    obtain ⟨p, hp, hs⟩ := Option.bind_eq_some_iff.1 hs
    have hput : (s.put index { p with stage := .loaded }).Inv :=
      h.put (h.loads p (List.mem_of_getElem? hp)) fun _ _ hst ↦ by cases hst
    cases hst : p.stage with
    | done =>
      simp only [hst] at hs
      cases hh : s.held with
      | none =>
        simp only [hh] at hs
        cases hs
        exact hput
      | some held =>
        simp only [hh] at hs
        split_ifs at hs <;> cases hs
        · exact hput.settle (h.holds (hh ▸ rfl)) _
        · exact hput
    | loaded | issued => simp [hst] at hs
  | rollback index =>
    obtain ⟨p, hp, rfl⟩ := Option.map_eq_some_iff.1 hs
    have hput : (s.put index { p with stage := .loaded }).Inv :=
      h.put (h.loads p (List.mem_of_getElem? hp)) fun _ _ hst ↦ by cases hst
    refine ⟨hput.gone, hput.present, hput.loads, hput.sees, fun hh ↦ h.holds ?_⟩
    cases hheld : s.held with
    | none => simp [hheld] at hh
    | some held => rfl

end System.Inv

/-- In a run whose saves are timely, what is deleted stays so. -/
theorem staysDeleted_run (row : Row) {l : List (Action Take Command)}
    (h : Along u.step u.Timely (start row) l) :
    Throughout u.step System.StaysDeleted (start row) l :=
  (throughout_of_along (fun _ _ _ hi hc hs ↦ System.Inv.step hi hc hs) (start_inv row) h).mono
    fun _ hi ↦ hi.gone

end Upserts

end Counted.Foundations
