import Counted.Ingestion.Assembly

namespace Counted.Ingestion

open Foundations Relation

/-- The requests waiting in a group. -/
def Group.ids (g : Group) : Multiset ℕ := (g.waiters.map (·.submit) : List ℕ)

section

variable (deps : GroupCommitDeps)

/-- What an answer of the sink settles, all in all. -/
def SinkAnswer.settlements (g : Group) (answer : SinkAnswer) : List (ℕ × Settlement) :=
  match answer.refusal deps g.events.length, answer with
  | some error, _ => g.refuse error
  | none, .ok receipt => g.acknowledge receipt
  | none, _ => []

def Commit.settlements (c : Commit) : List (ℕ × Settlement) :=
  match c.phase with
  | .writing | .recording _ => []
  | .finishing | .finished => (c.answer.map (·.settlements deps c.group)).getD []

/-- The phase of a commit agrees with the answer it got. -/
def Commit.Sound (c : Commit) : Prop :=
  match c.phase with
  | .writing => c.answer = none
  | .recording receipt => c.answer = some (.ok receipt) ∧
      (SinkAnswer.ok receipt).refusal deps c.group.events.length = none
  | .finishing | .finished => c.answer.isSome

/-- A request whose batch was admitted. -/
def State.Known (s : State) (p : Pending) : Prop :=
  s.submits[p.submit]? = some p.batch ∧
    admitBatch deps.runtime deps.admission p.batch = .ok p.outcome

/-- Every promise is settled, or held by one suspended call, open group or unsettled commit. -/
structure Accounted (s : State) (early : List (ℕ × Settlement)) : Prop where
  settled : s.settled.Perm (early ++ s.commits.flatMap (·.settlements deps))
  unwritten : ∀ e ∈ early, ∃ batch, s.submits[e.1]? = some batch ∧ Early deps batch e.2
  owners : (early.map (fun e ↦ ({e.1} : Multiset ℕ))).sum +
    (s.checking.map (fun p ↦ ({p.submit} : Multiset ℕ))).sum + (s.groups.map Group.ids).sum +
    (s.commits.map (·.group.ids)).sum = Multiset.range s.submits.length

structure State.Inv (s : State) : Prop where
  known : ∀ p, p ∈ s.checking ∨ p ∈ s.joined → s.Known deps p
  sound : ∀ c ∈ s.commits, c.Sound deps
  grouped : ∀ g, g ∈ s.groups ∨ g ∈ s.commits.map (·.group) →
    ∃ ps, Assembled deps g ps ∧ ps.Sublist s.joined
  accounted : ∃ early, Accounted deps s early

end

variable {deps : GroupCommitDeps} {s t : State} {p : Pending}

theorem getElem?_append_of_eq_some {α : Type} {l m : List α} {i : ℕ} {a : α} (h : l[i]? = some a) :
    (l ++ m)[i]? = some a := by
  rw [List.getElem?_append_left (List.getElem?_eq_some_iff.1 h).1, h]

theorem Advance.sound {c c' : Commit} {out : List (ℕ × Settlement)} (h : Advance deps c c' out)
    (hc : c.Sound deps) : c'.Sound deps ∧ c'.group = c.group ∧
      c'.settlements deps = c.settlements deps ++ out := by
  cases h with
  | fail h => simp [Commit.Sound, Commit.settlements, SinkAnswer.settlements, h]
  | record h => simpa [Commit.Sound, Commit.settlements] using h
  | acknowledge =>
    obtain ⟨rfl, hr⟩ := hc
    simp [Commit.Sound, Commit.settlements, SinkAnswer.settlements, hr]
  | finish => simpa [Commit.Sound, Commit.settlements] using hc

section

variable {M : Type} [AddCommMonoid M] (f : Group → M)

theorem groupFor_cases (batch : IngestBatch) (opened : Instant) :
    s.groupFor batch opened ∈ s.groups ∧ (s.groupFor batch opened).project = batch.project ∨
      s.groupFor batch opened = .new batch opened ∧ batch.project ∉ s.groups.map (·.project) := by
  rw [State.groupFor]
  cases h : Keyed.lookup (·.project) batch.project s.groups with
  | none => exact .inr ⟨rfl, Keyed.lookup_eq_none.1 h⟩
  | some g => exact .inl (Keyed.lookup_eq_some h)

/-- What joining does to a total over the open groups. -/
theorem sum_join (hs : s.Projects) (opened : Instant) (hf : f (.new p.batch opened) = 0) :
    f (s.groupFor p.batch opened) + ((s.join p opened).groups.map f).sum =
      f ((s.groupFor p.batch opened).join p) + (s.groups.map f).sum := by
  rcases groupFor_cases p.batch opened with ⟨hg, hk⟩ | ⟨hg, hk⟩
  · exact Keyed.sum_upsert (a := (s.groupFor p.batch opened).join p) hs hg rfl f
  · rw [State.join, hg, hf, zero_add]
    dsimp only
    rw [Keyed.upsert_of_notMem hk, List.map_append, List.sum_append, add_comm]
    simp

theorem sum_flush (hs : s.Projects) {g : Group} (hg : g ∈ s.groups) :
    (s.groups.map f).sum = f g + ((s.flush g).groups.map f).sum := Keyed.sum_remove hs hg f

end

theorem mem_join {g : Group} {opened : Instant} (hg : g ∈ (s.join p opened).groups) :
    g = (s.groupFor p.batch opened).join p ∨ g ∈ s.groups :=
  (Keyed.mem_upsert.1 hg).imp_right (·.1)

theorem State.Known.append (h : s.Known deps p) (l : List IngestBatch) :
    { s with submits := s.submits ++ l }.Known deps p := ⟨getElem?_append_of_eq_some h.1, h.2⟩

theorem Move.known (h : Move deps s t)
    (hs : ∀ p, p ∈ s.checking ∨ p ∈ s.joined → s.Known deps p) :
    ∀ p, p ∈ t.checking ∨ p ∈ t.joined → t.Known deps p := by
  cases h with
  | entry h =>
    cases h with
    | answer => exact fun p hp ↦ (hs p hp).append _
    | @suspend batch outcome h =>
      intro p hp
      rcases hp with hp | hp
      · rcases List.mem_append.1 hp with hp | hp
        · exact (hs p (.inl hp)).append [batch]
        · rw [List.mem_singleton.1 hp]
          exact ⟨List.getElem?_concat_length, h⟩
      · exact (hs p (.inr hp)).append [batch]
    | refuse hp ho => exact fun q hq ↦ hs q (hq.imp_left (fun h ↦ (Keyed.mem_remove.1 h).1))
    | @join p opened hp hr =>
      intro q hq
      rcases hq with hq | hq
      · exact hs q (.inl (Keyed.mem_remove.1 hq).1)
      · rcases List.mem_append.1 hq with hq | hq
        · exact hs q (.inr hq)
        · rw [List.mem_singleton.1 hq]
          exact hs p (.inl hp)
    | drains | commit => exact hs
  | flush h =>
    cases h
    exact hs

theorem Move.sound (h : Move deps s t) (hs : ∀ c ∈ s.commits, c.Sound deps) :
    ∀ c ∈ t.commits, c.Sound deps := by
  cases h with
  | entry h =>
    cases h with
    | answer | suspend | refuse | join | drains => exact hs
    | @commit l m c c' out ps hl hc =>
      have hsc : c.Sound deps := hs c (by simp [hl])
      intro d hd
      rcases List.mem_append.1 hd with hd | hd
      · exact hs d (by simp [hl, hd])
      · rcases List.mem_cons.1 hd with rfl | hd
        · exact (hc.sound hsc).1
        · exact hs d (by simp [hl, hd])
  | flush h =>
    cases h
    intro c hc
    rcases List.mem_append.1 hc with hc | hc
    · exact hs c hc
    · rw [List.mem_singleton.1 hc]
      rfl

theorem Advance.group {c c' : Commit} {out : List (ℕ × Settlement)} (h : Advance deps c c' out) :
    c'.group = c.group := by
  cases h <;> rfl

theorem Move.grouped (h : Move deps s t)
    (hk : ∀ p, p ∈ s.checking ∨ p ∈ s.joined → s.Known deps p)
    (hs : ∀ g, g ∈ s.groups ∨ g ∈ s.commits.map (·.group) →
      ∃ ps, Assembled deps g ps ∧ ps.Sublist s.joined) :
    ∀ g, g ∈ t.groups ∨ g ∈ t.commits.map (·.group) →
      ∃ ps, Assembled deps g ps ∧ ps.Sublist t.joined := by
  cases h with
  | entry h =>
    cases h with
    | answer | suspend | refuse | drains => exact hs
    | @join p opened hp hr =>
      have hold (g) (hg : g ∈ s.groups ∨ g ∈ s.commits.map (·.group)) :
          ∃ ps, Assembled deps g ps ∧ ps.Sublist (s.joined ++ [p]) := by
        obtain ⟨ps, ha, hj⟩ := hs g hg
        exact ⟨ps, ha, hj.trans (List.sublist_append_left _ _)⟩
      intro g hg
      rcases hg with hg | hg
      · rcases mem_join hg with rfl | hg
        · have hbase : ∃ ps, Assembled deps (s.groupFor p.batch opened) ps ∧
              ps.Sublist s.joined ∧ p.batch.project = (s.groupFor p.batch opened).project := by
            rcases groupFor_cases p.batch opened with ⟨hg, hpr⟩ | ⟨hg, -⟩
            · obtain ⟨ps, ha, hj⟩ := hs _ (.inl hg)
              exact ⟨ps, ha, hj, hpr.symm⟩
            · rw [hg]
              exact ⟨[], .new p.batch opened, by simp, rfl⟩
          obtain ⟨ps, ha, hj, hpr⟩ := hbase
          exact ⟨ps ++ [p], ha.join hpr (hk p (.inl hp)).2, hj.append_right [p]⟩
        · exact hold g (.inl hg)
      · exact hold g (.inr hg)
    | commit ps hl hc =>
      intro g hg
      refine hs g (hg.imp_right fun hg ↦ ?_)
      rw [hl]
      simpa [hc.group] using hg
  | flush h =>
    obtain ⟨g, hg⟩ := h
    intro b hb
    rcases hb with hb | hb
    · exact hs b (.inl (Keyed.mem_remove.1 hb).1)
    · rw [State.flush, List.map_append] at hb
      rcases List.mem_append.1 hb with hb | hb
      · exact hs b (.inr hb)
      · rw [List.mem_singleton.1 hb]
        exact hs g (.inl hg)

theorem sum_singletons {α : Type} (f : α → ℕ) (l : List α) :
    (l.map (fun a ↦ ({f a} : Multiset ℕ))).sum = (l.map f : List ℕ) := by
  induction l with
  | nil => rfl
  | cons a l ih => rw [List.map_cons, List.sum_cons, ih]; rfl

theorem Accounted.checking_nodup {early : List (ℕ × Settlement)} (h : Accounted deps s early) :
    (s.checking.map (·.submit)).Nodup := by
  have hle : (s.checking.map (fun p ↦ ({p.submit} : Multiset ℕ))).sum ≤
      Multiset.range s.submits.length := by
    rw [← h.owners, add_comm (early.map _).sum, add_assoc, add_assoc]
    exact Multiset.le_add_right _ _
  rw [sum_singletons] at hle
  exact Multiset.coe_nodup.1 (Multiset.nodup_of_le hle (Multiset.nodup_range _))

theorem range_concat (l : List IngestBatch) (batch : IngestBatch) :
    Multiset.range (l ++ [batch]).length = Multiset.range l.length + {l.length} := by
  rw [List.length_append, List.length_singleton, Multiset.range_succ, add_comm]
  rfl

theorem Group.ids_join (g : Group) (p : Pending) : (g.join p).ids = g.ids + {p.submit} := by
  rw [Group.ids, Group.join, List.map_append, ← Multiset.coe_add]
  rfl

theorem Move.accounted {early : List (ℕ × Settlement)} (h : Move deps s t) (hp : s.Projects)
    (hk : ∀ p, p ∈ s.checking ∨ p ∈ s.joined → s.Known deps p)
    (hs : ∀ c ∈ s.commits, c.Sound deps) (ha : Accounted deps s early) :
    ∃ early, Accounted deps t early := by
  obtain ⟨hset, hun, hown⟩ := ha
  have hold (l : List IngestBatch) : ∀ e ∈ early, ∃ batch, (s.submits ++ l)[e.1]? = some batch ∧
      Early deps batch e.2 := fun e he ↦
    (hun e he).imp fun batch hb ↦ ⟨getElem?_append_of_eq_some hb.1, hb.2⟩
  cases h with
  | entry h =>
    cases h with
    | @answer batch o ho =>
      refine ⟨early ++ [(s.submits.length, o)], ?_, fun e he ↦ ?_, ?_⟩
      · refine (hset.append_right _).trans ?_
        simp only [List.append_assoc]
        exact List.perm_append_comm.append_left _
      · rcases List.mem_append.1 he with he | he
        · exact hold [batch] e he
        · rw [List.mem_singleton.1 he]
          exact ⟨batch, List.getElem?_concat_length, ho⟩
      · simp only [List.map_append, List.map_cons, List.map_nil, List.sum_append, List.sum_cons,
          List.sum_nil, range_concat, ← hown]
        abel
    | @suspend batch outcome ho =>
      refine ⟨early, hset, hold [batch], ?_⟩
      simp only [List.map_append, List.map_cons, List.map_nil, List.sum_append, List.sum_cons,
        List.sum_nil, range_concat, ← hown]
      abel
    | @refuse p o hpc ho =>
      refine ⟨early ++ [(p.submit, o)], ?_, fun e he ↦ ?_, ?_⟩
      · refine (hset.append_right _).trans ?_
        simp only [List.append_assoc]
        exact List.perm_append_comm.append_left _
      · rcases List.mem_append.1 he with he | he
        · exact hun e he
        · rw [List.mem_singleton.1 he]
          obtain ⟨hb, had⟩ := hk p (.inl hpc)
          exact ⟨p.batch, hb, ho had⟩
      · have hc := Keyed.sum_remove (Accounted.checking_nodup ⟨hset, hun, hown⟩) hpc
          (fun p ↦ ({p.submit} : Multiset ℕ))
        rw [hc] at hown
        simp only [State.settle, State.unsuspend, List.map_append, List.map_cons, List.map_nil,
          List.sum_append, List.sum_cons, List.sum_nil, ← hown]
        abel
    | @join p opened hpc hr =>
      refine ⟨early, hset, hun, ?_⟩
      have hc := Keyed.sum_remove (Accounted.checking_nodup ⟨hset, hun, hown⟩) hpc
        (fun p ↦ ({p.submit} : Multiset ℕ))
      have hg := sum_join (s := s.unsuspend p.submit) (p := p) Group.ids hp opened rfl
      rw [Group.ids_join, add_assoc, add_right_inj] at hg
      rw [hc] at hown
      rw [hg]
      simp only [State.join, State.unsuspend, ← hown]
      abel
    | drains => exact ⟨early, hset, hun, hown⟩
    | @commit l m c c' out ps hl hc =>
      obtain ⟨-, hg, hst⟩ := hc.sound (hs c (by simp [hl]))
      refine ⟨early, ?_, hun, ?_⟩
      · refine (hset.append_right out).trans ?_
        simp only [hl, List.flatMap_append, List.flatMap_cons, hst, List.append_assoc]
        refine (List.Perm.append_left _ (List.Perm.append_left _ (List.Perm.append_left _ ?_)))
        exact List.perm_append_comm
      · simpa [hl, hg] using hown
  | flush h =>
    obtain ⟨g, hg⟩ := h
    refine ⟨early, ?_, hun, ?_⟩
    · simpa [State.flush, Commit.settlements] using hset
    · rw [sum_flush Group.ids hp hg] at hown
      simp only [State.flush, List.map_append, List.map_cons, List.map_nil, List.sum_append,
        List.sum_cons, List.sum_nil, ← hown]
      abel

theorem Move.inv (h : Move deps s t) (hp : s.Projects) (hs : s.Inv deps) : t.Inv deps where
  known := h.known hs.known
  sound := h.sound hs.sound
  grouped := h.grouped hs.known hs.grouped
  accounted := hs.accounted.elim (fun _ ha ↦ h.accounted hp hs.known hs.sound ha)

theorem initial_inv : State.initial.Inv deps where
  known p hp := by simp [State.initial] at hp
  sound c hc := by cases hc
  grouped g hg := by simp [State.initial] at hg
  accounted := ⟨[], .nil, by simp, rfl⟩

/-- The invariant holds in every state a run reaches. -/
theorem reached_inv {l : List Action} (h : run (State.step deps) .initial l = some t) :
    t.Inv deps := (reached (fun _ _ hp hs hm ↦ hm.inv hp hs) initial_inv h).2

end Counted.Ingestion
