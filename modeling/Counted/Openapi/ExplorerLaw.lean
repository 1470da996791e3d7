import Counted.Openapi.Explorer

namespace Counted.Openapi

open Foundations Prog

variable {document : Json} {seeds s : Schema} {schema t r : Schema} {seen : List JsString}
  {c d : Call} {e : Failure} {n : ℕ}

/-! ### What a call makes, raises and returns -/

variable (document seeds) in
/-- The schema that stands for another. -/
def Resolves (t r : Schema) : Prop := Returns (body document seeds) (.resolve t) (.ok r)

/-- Neither a value that is given nor a choice: the type decides. -/
def Typed (r : Schema) : Prop := given r = none ∧ alternatives r = none

theorem called_chase (h : Called (body document seeds) (.chase schema seen) d) :
    ∃ text x, ref schema = some text ∧ text ∉ seen ∧ localRef document schema text = .ok x ∧
      d = .chase x (text :: seen) := by
  rw [Called, body, chaseRefs] at h
  cases htext : ref schema with
  | none =>
    rw [htext] at h
    exact absurd h not_calls_pure
  | some text =>
    rw [htext] at h
    dsimp only at h
    split_ifs at h with hseen
    · exact absurd h not_calls_fail
    · cases hx : localRef document schema text with
      | error e =>
        rw [hx] at h
        exact absurd h not_calls_fail
      | ok x =>
        rw [hx] at h
        exact ⟨text, x, rfl, hseen, hx, calls_ask.1 h⟩

theorem called_resolve (h : Called (body document seeds) (.resolve t) d) :
    d = .chase t [] ∨ ∃ part, d = .resolve part := by
  rw [Called, body, resolveSchema, calls_bind] at h
  rcases h with h | ⟨x, -, h⟩
  · exact .inl (calls_ask.1 h)
  · cases hall : field x (js "allOf") with
    | none =>
      rw [hall] at h
      exact absurd h not_calls_pure
    | some allOf =>
      rw [hall] at h
      rcases calls_bind.1 h with h | ⟨parts, -, h⟩
      · obtain ⟨part, -, h⟩ := calls_each h
        exact .inr ⟨_, calls_ask.1 h⟩
      · exact absurd h not_calls_pure

theorem calls_entryOf {ends : (c : Call) → Except Failure (Answer c) → Prop} {f : JsString × Json}
    (h : (entryOf seeds n f).Calls ends d) : d = .value (fieldsOf f.2) (n + 1) := by
  rw [entryOf] at h
  split at h
  · rcases calls_bind.1 h with h | ⟨v, -, h⟩
    · exact calls_ask.1 h
    · exact absurd h not_calls_pure
  · rcases calls_bind.1 h with h | ⟨v, -, h⟩
    · exact calls_ask.1 h
    · exact absurd h not_calls_pure
  · exact absurd h not_calls_pure

theorem calls_byType {ends : (c : Call) → Except Failure (Answer c) → Prop}
    (h : (byType seeds r n).Calls ends d) : ∃ f, d = .value f (n + 1) := by
  rw [byType] at h
  split_ifs at h with hobject hdeep harray
  · exact absurd h not_calls_pure
  · rcases calls_bind.1 h with h | ⟨fields, -, h⟩
    · obtain ⟨f, -, h⟩ := calls_each h
      exact ⟨_, calls_entryOf h⟩
    · exact absurd h not_calls_pure
  · rcases calls_bind.1 h with h | ⟨items, -, h⟩
    · obtain ⟨i, -, h⟩ := calls_each h
      exact ⟨_, calls_ask.1 h⟩
    · exact absurd h not_calls_pure
  · exact absurd h not_calls_pure

theorem called_value (h : Called (body document seeds) (.value t n) d) :
    d = .resolve t ∨ ∃ f, d = .value f (n + 1) := by
  rw [Called, body, initialValue, calls_bind] at h
  rcases h with h | ⟨r, -, h⟩
  · exact .inl (calls_ask.1 h)
  · right
    rw [valueOf] at h
    split at h
    · exact absurd h not_calls_pure
    · split at h
      · exact absurd h not_calls_fail
      · exact ⟨_, calls_ask.1 h⟩
      · exact calls_byType h

theorem localRef_ok_iff {text : JsString} : (∃ x, localRef document schema text = .ok x) ↔
    JsString.startsWith text (js "#/") ∧ (pointer document text).isSome := by
  rw [localRef]
  cases hlocal : JsString.startsWith text (js "#/") with
  | false => simp
  | true => cases hp : pointer document text <;> simp

theorem localRef_ne_circular {text : JsString} :
    localRef document schema text ≠ .error .circular := by
  rw [localRef]
  split_ifs
  · intro h
    cases h
  · cases pointer document text with
    | none =>
      intro h
      cases h
    | some value =>
      intro h
      cases h

theorem raises_chase (h : (body document seeds (.chase schema seen)).Raises
      (Returns (body document seeds)) e) :
    ∃ text, ref schema = some text ∧
      (text ∈ seen ∧ e = .circular ∨ text ∉ seen ∧ localRef document schema text = .error e) := by
  rw [body, chaseRefs] at h
  cases htext : ref schema with
  | none =>
    rw [htext] at h
    exact absurd h not_raises_pure
  | some text =>
    rw [htext] at h
    dsimp only at h
    split_ifs at h with hseen
    · exact ⟨text, rfl, .inl ⟨hseen, raises_fail.1 h⟩⟩
    · cases hx : localRef document schema text with
      | error e' =>
        rw [hx] at h
        obtain rfl := raises_fail.1 h
        exact ⟨text, rfl, .inr ⟨hseen, hx⟩⟩
      | ok x =>
        rw [hx] at h
        exact absurd h not_raises_ask

theorem not_raises_resolve : ¬ (body document seeds (.resolve t)).Raises
    (Returns (body document seeds)) e := by
  intro h
  rw [body, resolveSchema, raises_bind] at h
  rcases h with h | ⟨x, -, h⟩
  · exact absurd h not_raises_ask
  · cases hall : field x (js "allOf") with
    | none =>
      rw [hall] at h
      exact absurd h not_raises_pure
    | some allOf =>
      rw [hall] at h
      rcases raises_bind.1 h with h | ⟨parts, -, h⟩
      · obtain ⟨part, -, h⟩ := raises_each h
        exact absurd h not_raises_ask
      · exact absurd h not_raises_pure

theorem not_raises_entryOf {ends : (c : Call) → Except Failure (Answer c) → Prop}
    {f : JsString × Json} : ¬ (entryOf seeds n f).Raises ends e := by
  intro h
  rw [entryOf] at h
  split at h
  · rcases raises_bind.1 h with h | ⟨v, -, h⟩
    · exact absurd h not_raises_ask
    · exact absurd h not_raises_pure
  · rcases raises_bind.1 h with h | ⟨v, -, h⟩
    · exact absurd h not_raises_ask
    · exact absurd h not_raises_pure
  · exact absurd h not_raises_pure

theorem not_raises_byType {ends : (c : Call) → Except Failure (Answer c) → Prop} :
    ¬ (byType seeds r n).Raises ends e := by
  intro h
  rw [byType] at h
  split_ifs at h with hobject hdeep harray
  · exact absurd h not_raises_pure
  · rcases raises_bind.1 h with h | ⟨fields, -, h⟩
    · obtain ⟨f, -, h⟩ := raises_each h
      exact absurd h not_raises_entryOf
    · exact absurd h not_raises_pure
  · rcases raises_bind.1 h with h | ⟨items, -, h⟩
    · obtain ⟨i, -, h⟩ := raises_each h
      exact absurd h not_raises_ask
    · exact absurd h not_raises_pure
  · exact absurd h not_raises_pure

theorem raises_value (h : (body document seeds (.value t n)).Raises
      (Returns (body document seeds)) e) :
    ∃ r, Resolves document seeds t r ∧ given r = none ∧ alternatives r = some [] ∧
      e = .typeError := by
  rw [body, initialValue, raises_bind] at h
  rcases h with h | ⟨r, hr, h⟩
  · exact absurd h not_raises_ask
  · refine ⟨r, yields_ask.1 hr, ?_⟩
    rw [valueOf] at h
    split at h
    · exact absurd h not_raises_pure
    · rename_i hgiven
      split at h
      · rename_i hempty
        exact ⟨hgiven, hempty, raises_fail.1 h⟩
      · exact absurd h not_raises_ask
      · exact absurd h not_raises_byType

/-! ### The keys of a value -/

def Value.keys : Value → List JsString
  | .json v => (fieldsOf v).map (·.1)
  | .obj fields => fields.map (·.1)
  | .arr _ | .inherited _ => []

variable {v : Value} {key : JsString}

theorem exists_resolves (h : Returns (body document seeds) (.value t n) (.ok v)) :
    ∃ r, Resolves document seeds t r := by
  rw [returns_iff, body, initialValue, yields_bind] at h
  rcases h with ⟨r, hr, -⟩ | ⟨e, -, he⟩
  · exact ⟨r, yields_ask.1 hr⟩
  · cases he

theorem returns_value (hr : Resolves document seeds t r) {o : Except Failure Value} :
    Returns (body document seeds) (.value t n) o ↔
      (valueOf seeds r n).Yields (Returns (body document seeds)) o := by
  rw [returns_iff, body, initialValue, yields_bind]
  constructor
  · rintro (⟨r', hr', h⟩ | ⟨e, he, -⟩)
    · obtain rfl := Except.ok.inj (Returns.unique (yields_ask.1 hr') hr)
      exact h
    · cases Returns.unique (yields_ask.1 he) hr
  · exact fun h ↦ .inl ⟨r, yields_ask.2 hr, h⟩

theorem keys_entries {ends : (c : Call) → Except Failure (Answer c) → Prop} {l : Schema}
    {fields : List (JsString × Value)}
    (h : List.Forall₂ (fun f t ↦ (entryOf seeds n f).Yields ends (.ok t)) l fields) :
    fields.map (·.1) = l.map (·.1) := by
  induction h with
  | nil => rfl
  | cons hf _ ih =>
    rw [List.map_cons, List.map_cons, ih]
    congr 1
    rw [entryOf] at hf
    split at hf
    · rcases yields_bind.1 hf with ⟨v, -, hf⟩ | ⟨e, -, he⟩
      · exact congrArg Prod.fst (Except.ok.inj (yields_pure.1 hf))
      · cases he
    · rcases yields_bind.1 hf with ⟨v, -, hf⟩ | ⟨e, -, he⟩
      · exact congrArg Prod.fst (Except.ok.inj (yields_pure.1 hf))
      · cases he
    · exact congrArg Prod.fst (Except.ok.inj (yields_pure.1 hf))

theorem fieldsOf_scalar : fieldsOf (scalar r) = [] := by
  rw [scalar]
  split_ifs <;> rfl

theorem keys_byType {ends : (c : Call) → Except Failure (Answer c) → Prop}
    (h : (byType seeds r n).Yields ends (.ok v)) :
    key ∈ v.keys ↔ describesObject r ∧ n ≤ 12 ∧ key ∈ (included seeds r).map (·.1) := by
  rw [byType] at h
  split_ifs at h with hobject hdeep harray
  · obtain rfl := Except.ok.inj (yields_pure.1 h)
    exact iff_of_false List.not_mem_nil fun hk ↦ absurd hk.2.1 hdeep.not_ge
  · rcases yields_bind.1 h with ⟨fields, hfields, h⟩ | ⟨e, -, he⟩
    · obtain rfl := Except.ok.inj (yields_pure.1 h)
      rw [Value.keys, keys_entries (yields_each hfields)]
      exact ⟨fun hk ↦ ⟨hobject, not_lt.1 hdeep, hk⟩, fun hk ↦ hk.2.2⟩
    · cases he
  · rcases yields_bind.1 h with ⟨items, -, h⟩ | ⟨e, -, he⟩
    · obtain rfl := Except.ok.inj (yields_pure.1 h)
      exact iff_of_false List.not_mem_nil fun hk ↦ hobject hk.1
    · cases he
  · obtain rfl := Except.ok.inj (yields_pure.1 h)
    refine iff_of_false ?_ fun hk ↦ hobject hk.1
    rw [Value.keys, fieldsOf_scalar, List.map_nil]
    exact List.not_mem_nil

variable (document seeds) in
/-- A key that the given value, the first alternative or the included properties bring. -/
inductive Provides : Schema → ℕ → JsString → Prop
  | given {t r : Schema} {n : ℕ} {key : JsString} {v : Json} : Resolves document seeds t r →
      given r = some v → key ∈ (fieldsOf v).map (·.1) → Provides t n key
  | chosen {t r : Schema} {n : ℕ} {key : JsString} {first : Json} {rest : List Json} :
      Resolves document seeds t r → given r = none → alternatives r = some (first :: rest) →
      Provides (fieldsOf first) (n + 1) key → Provides t n key
  | included {t r : Schema} {n : ℕ} {key : JsString} : Resolves document seeds t r → Typed r →
      describesObject r → n ≤ 12 → key ∈ (included seeds r).map (·.1) → Provides t n key

theorem called_first {first : Json} {rest : List Json} (hr : Resolves document seeds t r)
    (hgiven : given r = none) (hfirst : alternatives r = some (first :: rest)) :
    Called (body document seeds) (.value t n) (.value (fieldsOf first) (n + 1)) := by
  rw [Called, body, initialValue, calls_bind]
  refine .inr ⟨r, yields_ask.2 hr, ?_⟩
  rw [valueOf, hgiven, hfirst]
  exact calls_ask.2 rfl

theorem called_item (hr : Resolves document seeds t r) (htyped : Typed r)
    (hobject : ¬ describesObject r) (harray : typeOf r = some (js "array"))
    (hcount : 0 < itemCount r) :
    Called (body document seeds) (.value t n)
      (.value (((field r (js "items")).map fieldsOf).getD []) (n + 1)) := by
  obtain ⟨count, hcount⟩ := Nat.exists_eq_add_of_lt hcount
  rw [Called, body, initialValue, calls_bind]
  refine .inr ⟨r, yields_ask.2 hr, ?_⟩
  rw [valueOf, htyped.1, htyped.2]
  dsimp only
  rw [byType, if_neg hobject, if_pos harray, hcount, calls_bind]
  left
  rw [List.range_eq_range', List.range'_succ, each, calls_bind]
  exact .inl (calls_ask.2 rfl)

theorem Provides.mem_keys (h : Provides document seeds t n key)
    (hv : Returns (body document seeds) (.value t n) (.ok v)) : key ∈ v.keys := by
  induction h with
  | given hr hgiven hkey =>
    rw [returns_value hr, valueOf, hgiven] at hv
    obtain rfl := Except.ok.inj (yields_pure.1 hv)
    exact hkey
  | chosen hr hgiven hfirst _ ih =>
    rw [returns_value hr, valueOf, hgiven, hfirst] at hv
    exact ih (yields_ask.1 hv)
  | included hr htyped hobject hn hkey =>
    rw [returns_value hr, valueOf, htyped.1, htyped.2] at hv
    exact (keys_byType hv).2 ⟨hobject, hn, hkey⟩

theorem provides_of_mem (hv : Returns (body document seeds) (.value t n) (.ok v))
    (hkey : key ∈ v.keys) : Provides document seeds t n key := by
  have hacc := returns_iff_acc.1 ⟨_, hv⟩
  generalize hc : Call.value t n = c at hacc
  induction hacc generalizing t n with
  | intro c _ ih =>
    subst hc
    obtain ⟨r, hr⟩ := exists_resolves hv
    have hbody := (returns_value hr).1 hv
    cases hgiven : given r with
    | some value =>
      rw [valueOf, hgiven] at hbody
      obtain rfl := Except.ok.inj (yields_pure.1 hbody)
      exact .given hr hgiven hkey
    | none =>
      rw [valueOf, hgiven] at hbody
      cases hchoice : alternatives r with
      | none =>
        rw [hchoice] at hbody
        obtain ⟨hobject, hn, hkey⟩ := (keys_byType hbody).1 hkey
        exact .included hr ⟨hgiven, hchoice⟩ hobject hn hkey
      | some items =>
        rw [hchoice] at hbody
        cases items with
        | nil => cases yields_fail.1 hbody
        | cons first rest =>
          exact .chosen hr hgiven hchoice (ih _ (called_first hr hgiven hchoice)
            (yields_ask.1 hbody) rfl)

/-! ### When a value is filled in -/

/-- A call for a property of an object, which the depth limit bounds. -/
def Guarded (document : Json) (seeds : Schema) (c d : Call) : Prop :=
  ∃ t f n r, c = .value t n ∧ d = .value f (n + 1) ∧ n ≤ 12 ∧ Resolves document seeds t r ∧
    Typed r ∧ describesObject r

def Unguarded (document : Json) (seeds : Schema) (c d : Call) : Prop :=
  Called (body document seeds) c d ∧ ¬ Guarded document seeds c d

/-- A reference that has been followed on the way is met again below a call. -/
def Circular (document : Json) (seeds : Schema) (c : Call) : Prop :=
  ∃ schema seen text, Reached (body document seeds) c (.chase schema seen) ∧
    ref schema = some text ∧ text ∈ seen

/-- A value, or the error of a circular reference. -/
def Ends (document : Json) (seeds : Schema) (c : Call) : Prop :=
  ∃ o, Returns (body document seeds) c o ∧ ∀ e, o = .error e → e = .circular

structure Explored (document : Json) (seeds s : Schema) : Prop where
  resolved : Ends document seeds (.resolve s)
  ends : Ends document seeds (.value s 0)
  required : ∀ t n r v, Reached (body document seeds) (.value s 0) (.value t n) → n ≤ 12 →
    Resolves document seeds t r → describesObject r →
    Returns (body document seeds) (.value t n) (.ok v) → ∀ key ∈ required r, key ∈ v.keys

structure Explorable (document : Json) (seeds s : Schema) : Prop where
  /-- The references that are met lead somewhere in the document. -/
  located : ∀ schema seen text, Reached (body document seeds) (.value s 0) (.chase schema seen) →
    ref schema = some text → text ∉ seen → JsString.startsWith text (js "#/") ∧
      (pointer document text).isSome
  guarded : ∀ c, Reached (body document seeds) (.value s 0) c →
    Acc (fun b a ↦ Unguarded document seeds a b) c
  chosen : ∀ t n r, Reached (body document seeds) (.value s 0) (.value t n) →
    Resolves document seeds t r → given r = none → alternatives r ≠ some []
  provided : ∀ t n r, Reached (body document seeds) (.value s 0) (.value t n) → n ≤ 12 →
    Resolves document seeds t r → describesObject r → ¬ Circular document seeds (.value t n) →
    ∀ key ∈ required r, Provides document seeds t n key

def rank : Call → ℕ
  | .value _ n => 13 - n
  | _ => 0

theorem rank_le (h : Called (body document seeds) c d) : rank d ≤ rank c := by
  cases c with
  | chase schema seen =>
    obtain ⟨text, x, -, -, -, rfl⟩ := called_chase h
    exact le_rfl
  | resolve t =>
    rcases called_resolve h with rfl | ⟨part, rfl⟩
    · exact le_rfl
    · exact le_rfl
  | value t n =>
    rcases called_value h with rfl | ⟨f, rfl⟩
    · exact Nat.zero_le _
    · exact Nat.sub_le_sub_left (Nat.le_succ n) 13

theorem unguarded_or_rank_lt (h : Called (body document seeds) c d) :
    Unguarded document seeds c d ∨ rank d < rank c := by
  by_cases hg : Guarded document seeds c d
  · right
    obtain ⟨t, f, n, r, rfl, rfl, hn, -⟩ := hg
    exact Nat.sub_lt_sub_left (Nat.lt_succ_of_le hn) (Nat.lt_succ_self n)
  · exact .inl ⟨h, hg⟩

theorem circular_iff : Circular document seeds c ↔
    ∃ d, Reached (body document seeds) c d ∧
      (body document seeds d).Raises (Returns (body document seeds)) .circular := by
  constructor
  · rintro ⟨schema, seen, text, hd, htext, hseen⟩
    refine ⟨_, hd, ?_⟩
    rw [body, chaseRefs, htext]
    dsimp only
    rw [if_pos hseen]
    exact raises_fail.2 rfl
  · rintro ⟨d, hd, hraises⟩
    cases d with
    | chase schema seen =>
      obtain ⟨text, htext, ⟨hseen, -⟩ | ⟨-, hfails⟩⟩ := raises_chase hraises
      · exact ⟨schema, seen, text, hd, htext, hseen⟩
      · exact absurd hfails localRef_ne_circular
    | resolve t => exact absurd hraises not_raises_resolve
    | value t n =>
      obtain ⟨r, -, -, -, he⟩ := raises_value hraises
      cases he

theorem Ends.fails (h : Ends document seeds c) (hd : Reached (body document seeds) c d)
    (he : Returns (body document seeds) d (.error e)) : e = .circular := by
  obtain ⟨o, ho, hcircular⟩ := h
  exact hcircular e (ho.unique (hd.fails he))

theorem Ends.returns (h : Ends document seeds c) (hd : Reached (body document seeds) c d) :
    ∃ o, Returns (body document seeds) d o := by
  obtain ⟨o, ho, -⟩ := h
  exact returns_iff_acc.2 (hd.acc (fun _ _ h ↦ h) ⟨o, ho⟩)

theorem Circular.fails (h : Circular document seeds c) :
    Returns (body document seeds) c (.error .circular) := by
  obtain ⟨schema, seen, text, hd, htext, hseen⟩ := h
  refine hd.fails (returns_iff.2 ?_)
  rw [body, chaseRefs, htext]
  dsimp only
  rw [if_pos hseen]
  exact yields_fail.2 rfl

theorem Explored.explorable (h : Explored document seeds s) : Explorable document seeds s where
  located schema seen text hreached htext hseen := by
    cases hx : localRef document schema text with
    | ok x => exact localRef_ok_iff.1 ⟨x, hx⟩
    | error e =>
      have hfails : Returns (body document seeds) (.chase schema seen) (.error e) := by
        rw [returns_iff, body, chaseRefs, htext]
        dsimp only
        rw [if_neg hseen, hx]
        exact yields_fail.2 rfl
      obtain rfl := h.ends.fails hreached hfails
      exact absurd hx localRef_ne_circular
  guarded c hc := by
    obtain ⟨o, ho, -⟩ := h.ends
    exact hc.acc (fun _ _ hu ↦ hu.1) ⟨o, ho⟩
  chosen t n r hreached hr hgiven hempty := by
    have hfails : Returns (body document seeds) (.value t n) (.error .typeError) := by
      rw [returns_value hr, valueOf, hgiven, hempty]
      exact yields_fail.2 rfl
    cases h.ends.fails hreached hfails
  provided t n r hreached hn hr hobject hcircular key hkey := by
    obtain ⟨o, ho⟩ := h.ends.returns hreached
    cases o with
    | ok v => exact provides_of_mem ho (h.required t n r v hreached hn hr hobject ho key hkey)
    | error e =>
      obtain rfl := h.ends.fails hreached ho
      exact absurd (circular_iff.2 (exists_raises ho)) hcircular

theorem Explorable.ends (h : Explorable document seeds s)
    (hc : Reached (body document seeds) (.value s 0) c) : Ends document seeds c := by
  have hacc := acc_of_layers (u := Unguarded document seeds) (fun _ _ h ↦ rank_le h)
    (fun _ _ h ↦ unguarded_or_rank_lt h) fun d hd ↦ h.guarded d (hc.trans hd)
  obtain ⟨o, ho⟩ := returns_iff_acc.2 hacc
  refine ⟨o, ho, ?_⟩
  rintro e rfl
  obtain ⟨d, hd, hraises⟩ := exists_raises ho
  have hreached := hc.trans hd
  cases d with
  | chase schema seen =>
    obtain ⟨text, htext, ⟨-, he⟩ | ⟨hseen, he⟩⟩ := raises_chase hraises
    · exact he
    · obtain ⟨x, hx⟩ := localRef_ok_iff.2 (h.located schema seen text hreached htext hseen)
      rw [hx] at he
      cases he
  | resolve t => exact absurd hraises not_raises_resolve
  | value t n =>
    obtain ⟨r, hr, hgiven, hempty, -⟩ := raises_value hraises
    exact absurd hempty (h.chosen t n r hreached hr hgiven)

theorem Explorable.explored (h : Explorable document seeds s) : Explored document seeds s where
  resolved := by
    refine h.ends (.single ?_)
    rw [Called, body, initialValue, calls_bind]
    exact .inl (calls_ask.2 rfl)
  ends := h.ends .refl
  required t n r v hreached hn hr hobject hv key hkey := by
    refine (h.provided t n r hreached hn hr hobject ?_ key hkey).mem_keys hv
    intro hcircular
    cases hcircular.fails.unique hv

def pointing (name : String) : Schema := [(js "$ref", .str (js "#/components/schemas/" ++ js name))]

def group : Schema :=
  [(js "type", .str (js "array")), (js "minItems", .num (1 : ℤ)), (js "items", .obj (pointing "Term"))]

def term : Schema :=
  [(js "oneOf", .arr [.obj (pointing "Group"), .obj [(js "type", .str (js "string"))]])]

def node : Schema := [(js "allOf", .arr [.obj (pointing "Node")])]

/-- An object whose required property is not among its properties. -/
def named : Schema :=
  [(js "type", .str (js "object")), (js "required", .arr [.str (js "name")])]

def looped : Json :=
  .obj [(js "components", .obj [(js "schemas", .obj [(js "Group", .obj group),
    (js "Term", .obj term), (js "Node", .obj node), (js "Named", .obj named)])])]

theorem looped_resolves_group : Resolves looped [] (pointing "Group") group := ⟨4, rfl⟩

theorem looped_resolves_term : Resolves looped [] (pointing "Term") term := ⟨4, rfl⟩

theorem node_calls_node : Called (body looped []) (.resolve (pointing "Node"))
    (.resolve (pointing "Node")) := by
  rw [Called, body, resolveSchema, calls_bind]
  refine .inr ⟨node, yields_ask.2 ⟨3, rfl⟩, ?_⟩
  exact .here

/-- Between a list that has a first item and the alternatives that the item is one of. -/
def swing (n : ℕ) : Call :=
  if n % 2 = 0 then .value (pointing "Group") n else .value (pointing "Term") n

theorem swing_called (n : ℕ) : Called (body looped []) (swing n) (swing (n + 1)) := by
  rw [swing, swing]
  rcases Nat.mod_two_eq_zero_or_one n with h | h
  · rw [if_pos h, if_neg (by omega)]
    exact called_item looped_resolves_group ⟨rfl, rfl⟩ (by decide) rfl
      (by decide +kernel)
  · rw [if_neg (by omega), if_pos (by omega)]
    exact called_first looped_resolves_term rfl rfl

theorem group_never_ends : ¬ ∃ o, Returns (body looped []) (.value (pointing "Group") 0) o :=
  not_returns_of_chain (f := swing) swing_called

theorem node_never_ends : ¬ ∃ o, Returns (body looped []) (.resolve (pointing "Node")) o :=
  not_returns_of_chain (f := fun _ ↦ Call.resolve (pointing "Node")) fun _ ↦ node_calls_node

end Counted.Openapi
