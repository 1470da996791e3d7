import Counted.AgentTelemetry.Fingerprint
import Counted.Foundations.Decoding

namespace Counted.AgentTelemetry

open Foundations
open Decimal (IsNumberUnit)

namespace Value

/-- One property for every part of a value at a time. -/
theorem induction {motive : Value → Prop} (undefined : motive .undefined) (null : motive .null)
    (bool : ∀ b, motive (.bool b)) (num : ∀ n, motive (.num n)) (str : ∀ s, motive (.str s))
    (foreign : ∀ f, motive (.foreign f))
    (arr : ∀ items, (∀ v ∈ items, motive v) → motive (.arr items))
    (obj : ∀ fields, (∀ f ∈ fields, motive f.2) → motive (.obj fields)) (v : Value) : motive v := by
  induction hn : sizeOf v using Nat.strongRecOn generalizing v with
  | ind n ih =>
    subst hn
    cases v with
    | undefined => exact undefined
    | null => exact null
    | bool b => exact bool b
    | num n => exact num n
    | str s => exact str s
    | foreign f => exact foreign f
    | arr items =>
      refine arr items fun v hv ↦ ih _ ?_ v rfl
      have := List.sizeOf_lt_of_mem hv
      simp only [Value.arr.sizeOf_spec]
      omega
    | obj fields =>
      refine obj fields fun f hf ↦ ih _ ?_ f.2 rfl
      have := List.sizeOf_lt_of_mem hf
      have hpair : sizeOf f.2 < sizeOf f := by
        obtain ⟨key, v⟩ := f
        simp only [Prod.mk.sizeOf_spec]
        omega
      simp only [Value.obj.sizeOf_spec]
      omega

/-! ### What is refused -/

theorem canonicalizeItems_eq (items : List Value) :
    canonicalizeItems items = items.mapM canonicalize := by
  induction items with
  | nil => rfl
  | cons v items ih =>
    rw [canonicalizeItems, List.mapM_cons, ih]

def isUndefined : Value → Bool
  | .undefined => true
  | _ => false

@[simp] theorem isUndefined_iff {v : Value} : v.isUndefined = true ↔ v = .undefined := by
  cases v <;> simp [isUndefined]

theorem canonicalizeEntries_eq (fields : List (JsString × Value)) :
    canonicalizeEntries fields =
      (fields.filter (fun f ↦ !f.2.isUndefined)).map (fun f ↦ (f.1, canonicalize f.2)) := by
  induction fields with
  | nil => rfl
  | cons f fields ih =>
    obtain ⟨key, v⟩ := f
    cases v <;> rw [canonicalizeEntries, ih] <;> first | rfl | simp

/-- The entries that are written, in the order of their keys. -/
def entries (fields : List (JsString × Value)) : List (JsString × Value) :=
  sortBy KeyLe (·.1) (fields.filter (fun f ↦ !f.2.isUndefined))

theorem mem_entries {fields : List (JsString × Value)} {f : JsString × Value} :
    f ∈ entries fields ↔ f ∈ fields ∧ f.2 ≠ .undefined := by
  rw [entries, (sortBy_perm KeyLe _ _).mem_iff, List.mem_filter, Bool.not_eq_true', ne_eq,
    ← isUndefined_iff, Bool.not_eq_true]

theorem canonicalize_arr (items : List Value) : canonicalize (.arr items) =
    (items.mapM canonicalize).map (fun ts ↦ js "[" ++ JsString.join (js ",") ts ++ js "]") := by
  rw [canonicalize, canonicalizeItems_eq]
  rfl

theorem canonicalize_obj (fields : List (JsString × Value)) : canonicalize (.obj fields) =
    ((entries fields).mapM (fun f ↦ entryText (f.1, canonicalize f.2))).map
      (fun ts ↦ [123] ++ JsString.join (js ",") ts ++ [125]) := by
  have hsort : sortBy KeyLe (·.1) (canonicalizeEntries fields) =
      (entries fields).map (fun f ↦ (f.1, canonicalize f.2)) := by
    rw [canonicalizeEntries_eq, entries,
      map_sortBy KeyLe _ (fun e : JsString × Except JsString JsString ↦ e.1) fun _ ↦ rfl]
  rw [canonicalize, hsort, List.mapM_map]
  rfl

theorem exists_map_ok {α β ε : Type} {x : Except ε α} {f : α → β} :
    (∃ b, x.map f = .ok b) ↔ ∃ a, x = .ok a := by
  cases x <;> simp [Except.map]

theorem exists_mapM_ok {α β ε : Type} {f : α → Except ε β} {l : List α} :
    (∃ m, l.mapM f = .ok m) ↔ ∀ a ∈ l, ∃ b, f a = .ok b := by
  simp only [mapM_ok_iff]
  constructor
  · rintro ⟨m, hm⟩ a ha
    obtain ⟨b, -, hb⟩ := forall₂_left hm ha
    exact ⟨b, hb⟩
  · exact exists_forall₂

theorem exists_entryText {key : JsString} {x : Except JsString JsString} :
    (∃ t, entryText (key, x) = .ok t) ↔ ∃ t, x = .ok t :=
  exists_map_ok (f := fun text ↦ Json.quote key ++ js ":" ++ text)

/-- A value has a canonical text unless something in it has none. -/
theorem exists_canonicalize {v : Value} : (∃ t, canonicalize v = .ok t) ↔ ¬ v.Unwritable := by
  induction v using induction with
  | undefined => exact iff_of_false nofun fun h ↦ h .undefined
  | null => exact iff_of_true ⟨_, rfl⟩ nofun
  | bool b => exact iff_of_true ⟨_, rfl⟩ nofun
  | num n =>
    cases n with
    | finite d => exact iff_of_true ⟨_, rfl⟩ nofun
    | infinity negative => exact iff_of_false nofun fun h ↦ h (.infinity negative)
    | nan => exact iff_of_false nofun fun h ↦ h .nan
  | str s => exact iff_of_true ⟨_, rfl⟩ nofun
  | foreign f => exact iff_of_false nofun fun h ↦ h (.foreign f)
  | arr items ih =>
    rw [canonicalize_arr, exists_map_ok, exists_mapM_ok]
    constructor
    · rintro h (_ | _ | _ | _ | ⟨hv, hbad⟩)
      exact (ih _ hv).1 (h _ hv) hbad
    · intro h v hv
      exact (ih v hv).2 fun hbad ↦ h (.item hv hbad)
  | obj fields ih =>
    rw [canonicalize_obj, exists_map_ok, exists_mapM_ok]
    constructor
    · rintro h (_ | _ | _ | _ | _ | ⟨hf, hne, hbad⟩)
      exact (ih _ hf).1 (exists_entryText.1 (h _ (mem_entries.2 ⟨hf, hne⟩))) hbad
    · intro h f hf
      obtain ⟨hf, hne⟩ := mem_entries.1 hf
      exact exists_entryText.2 ((ih f hf).2 fun hbad ↦ h (.field hf hne hbad))

/-! ### The text of a JSON value -/

/-- The canonical text, where there is one. -/
def written (v : Value) : JsString := (canonicalize v).toOption.getD []

def fieldText (f : JsString × Value) : JsString := Json.quote f.1 ++ js ":" ++ written f.2

theorem canonicalize_eq {v : Value} (h : ∃ t, canonicalize v = .ok t) :
    canonicalize v = .ok v.written := by
  obtain ⟨t, ht⟩ := h
  rw [written, ht]
  rfl

theorem mapM_eq_map {α β ε : Type} {f : α → Except ε β} {g : α → β} {l : List α}
    (h : ∀ a ∈ l, f a = .ok (g a)) : l.mapM f = .ok (l.map g) := by
  rw [mapM_ok_iff, List.forall₂_map_right_iff, List.forall₂_same]
  exact h

namespace IsJson

theorem not_undefined {v : Value} (h : v.IsJson) : v ≠ .undefined := by
  rintro rfl
  cases h

theorem ok {v : Value} (h : v.IsJson) : canonicalize v = .ok v.written := by
  refine canonicalize_eq (exists_canonicalize.2 ?_)
  induction h with
  | null => exact nofun
  | bool b => exact nofun
  | num d => exact nofun
  | str s => exact nofun
  | arr _ ih =>
    rintro (_ | _ | _ | _ | ⟨hv, hbad⟩)
    exact ih _ hv hbad
  | obj _ _ ih =>
    rintro (_ | _ | _ | _ | _ | ⟨hf, -, hbad⟩)
    exact ih _ hf hbad

theorem items {items : List Value} (h : (Value.arr items).IsJson) : ∀ v ∈ items, v.IsJson := by
  cases h with
  | arr h => exact h

theorem nodup {fields : List (JsString × Value)} (h : (Value.obj fields).IsJson) :
    (fields.map (·.1)).Nodup := by
  cases h with
  | obj hn _ => exact hn

theorem fields {fields : List (JsString × Value)} (h : (Value.obj fields).IsJson) :
    ∀ f ∈ fields, f.2.IsJson := by
  cases h with
  | obj _ h => exact h

end IsJson

theorem written_arr {items : List Value} (h : ∀ v ∈ items, v.IsJson) :
    written (.arr items) = js "[" ++ JsString.join (js ",") (items.map written) ++ js "]" := by
  rw [written, canonicalize_arr, mapM_eq_map fun v hv ↦ (h v hv).ok]
  rfl

theorem entries_eq {fields : List (JsString × Value)} (h : ∀ f ∈ fields, f.2.IsJson) :
    entries fields = sortBy KeyLe (·.1) fields := by
  rw [entries, List.filter_eq_self.2]
  intro f hf
  rw [Bool.not_eq_true', ← Bool.not_eq_true, isUndefined_iff]
  exact (h f hf).not_undefined

theorem written_obj {fields : List (JsString × Value)} (h : ∀ f ∈ fields, f.2.IsJson) :
    written (.obj fields) = [123] ++
      JsString.join (js ",") ((sortBy KeyLe (·.1) fields).map fieldText) ++ [125] := by
  have hf : (sortBy KeyLe (·.1) fields).mapM (fun f ↦ entryText (f.1, canonicalize f.2)) =
      .ok ((sortBy KeyLe (·.1) fields).map fieldText) := by
    refine mapM_eq_map fun f hf ↦ ?_
    rw [(h f ((sortBy_perm KeyLe _ _).mem_iff.1 hf)).ok]
    rfl
  rw [written, canonicalize_obj, entries_eq h, hf]
  rfl

/-! ### Key order does not matter -/

theorem written_obj_congr {fields others : List (JsString × Value)}
    (hf : ∀ f ∈ fields, f.2.IsJson) (ho : ∀ f ∈ others, f.2.IsJson)
    (h : fields.map (fun f ↦ (f.1, f.2.written)) = others.map (fun f ↦ (f.1, f.2.written))) :
    written (.obj fields) = written (.obj others) := by
  have hsort (l : List (JsString × Value)) : (sortBy KeyLe (·.1) l).map fieldText =
      (sortBy KeyLe (·.1) (l.map (fun f ↦ (f.1, f.2.written)))).map
        (fun e ↦ Json.quote e.1 ++ js ":" ++ e.2) := by
    rw [← map_sortBy KeyLe _ (fun e : JsString × JsString ↦ e.1) fun _ ↦ rfl, List.map_map]
    rfl
  rw [written_obj hf, written_obj ho, hsort, hsort, h]

theorem Rearranged.written_eq {v w : Value} (h : v.Rearranged w) :
    v.IsJson → w.IsJson ∧ v.written = w.written := by
  induction h with
  | refl v => exact fun hv ↦ ⟨hv, rfl⟩
  | trans _ _ ih ih' =>
    intro hu
    obtain ⟨hv, huv⟩ := ih hu
    obtain ⟨hw, hvw⟩ := ih' hv
    exact ⟨hw, huv.trans hvw⟩
  | @item pre post v w _ ih =>
    intro hv
    have hitems := hv.items
    obtain ⟨hw, hvw⟩ := ih (hitems v (by simp))
    have hitems' : ∀ x ∈ pre ++ w :: post, x.IsJson := by
      intro x hx
      rcases List.mem_append.1 hx with hx | hx
      · exact hitems x (List.mem_append_left _ hx)
      · rcases List.mem_cons.1 hx with rfl | hx
        · exact hw
        · exact hitems x (by simp [hx])
    refine ⟨.arr hitems', ?_⟩
    rw [written_arr hitems, written_arr hitems', List.map_append, List.map_append, List.map_cons,
      List.map_cons, hvw]
  | @field pre post key v w _ ih =>
    intro hv
    have hfields := hv.fields
    obtain ⟨hw, hvw⟩ := ih (hfields (key, v) (by simp))
    have hfields' : ∀ f ∈ pre ++ (key, w) :: post, f.2.IsJson := by
      intro f hf
      rcases List.mem_append.1 hf with hf | hf
      · exact hfields f (List.mem_append_left _ hf)
      · rcases List.mem_cons.1 hf with rfl | hf
        · exact hw
        · exact hfields f (by simp [hf])
    refine ⟨.obj (by simpa using hv.nodup) hfields', written_obj_congr hfields hfields' ?_⟩
    rw [List.map_append, List.map_append, List.map_cons, List.map_cons, hvw]
  | @keys fields others hperm =>
    intro hv
    have hothers : ∀ f ∈ others, f.2.IsJson := fun f hf ↦ hv.fields f (hperm.mem_iff.2 hf)
    refine ⟨.obj ((hperm.map _).nodup_iff.1 hv.nodup) hothers, ?_⟩
    rw [written_obj hv.fields, written_obj hothers, sortBy_eq_of_perm hv.nodup hperm]

theorem Rearranged.symm {v w : Value} (h : v.Rearranged w) : w.Rearranged v := by
  induction h with
  | refl v => exact .refl v
  | trans _ _ ih ih' => exact ih'.trans ih
  | item pre post _ ih => exact .item pre post ih
  | field pre post key _ ih => exact .field pre post key ih
  | keys hperm => exact .keys hperm.symm

/-! ### Nothing else is lost -/

/-- What may follow a value in the text of another one. -/
def Delimited (t : JsString) : Prop := ∀ u ∈ t.head?, ¬ IsNumberUnit u

theorem delimited_cons {u : UInt16} (h : ¬ IsNumberUnit u) (t : JsString) : Delimited (u :: t) := by
  intro v hv
  rw [List.head?_cons, Option.mem_some_iff] at hv
  exact hv ▸ h

/-- Numbers that end where their units end. -/
theorem units_cancel {x y t t' : JsString} (hx : ∀ u ∈ x, IsNumberUnit u)
    (hy : ∀ u ∈ y, IsNumberUnit u) (ht : Delimited t) (ht' : Delimited t')
    (h : x ++ t = y ++ t') : x = y ∧ t = t' := by
  induction x generalizing y with
  | nil =>
    cases y with
    | nil => exact ⟨rfl, h⟩
    | cons u y =>
      rw [List.nil_append] at h
      rw [h] at ht
      exact absurd (hy u List.mem_cons_self) (ht u rfl)
  | cons u x ih =>
    cases y with
    | nil =>
      rw [List.nil_append] at h
      rw [← h] at ht'
      exact absurd (hx u List.mem_cons_self) (ht' u rfl)
    | cons v y =>
      rw [List.cons_append, List.cons_append, List.cons.injEq] at h
      obtain ⟨rfl, h⟩ := h
      obtain ⟨rfl, rfl⟩ := ih (fun w hw ↦ hx w (List.mem_cons_of_mem _ hw))
        (fun w hw ↦ hy w (List.mem_cons_of_mem _ hw)) h
      exact ⟨rfl, rfl⟩

/-- Parts after the first one, each behind a comma. -/
def tails {α : Type} (f : α → JsString) (l : List α) : JsString := l.flatMap fun a ↦ 44 :: f a

theorem tails_cons {α : Type} (f : α → JsString) (a : α) (l : List α) :
    tails f (a :: l) = 44 :: (f a ++ tails f l) := rfl

theorem join_map {α : Type} (f : α → JsString) (a : α) (l : List α) :
    JsString.join (js ",") ((a :: l).map f) = f a ++ tails f l := by
  induction l generalizing a with
  | nil => simp [JsString.join, tails]
  | cons b l ih =>
    rw [List.map_cons, List.map_cons, JsString.join, List.intercalate_cons_cons, ← List.map_cons,
      ← JsString.join, ih b, tails, tails, List.flatMap_cons]
    simp [js]

section Parts

variable {α : Type} {f : α → JsString} {R : α → α → Prop} {stop : UInt16} {xs ys : List α}
  {t t' : JsString}

theorem delimited_tails (hstop : ¬ IsNumberUnit stop) (l : List α) (t : JsString) :
    Delimited (tails f l ++ stop :: t) := by
  cases l with
  | nil => exact delimited_cons hstop t
  | cons a l => exact delimited_cons (by decide) _

theorem tails_cancel (hstop : stop ≠ 44 ∧ ¬ IsNumberUnit stop)
    (hf : ∀ x ∈ xs, ∀ y ∈ ys, ∀ t t', Delimited t → Delimited t' → f x ++ t = f y ++ t' →
      R x y ∧ t = t') (h : tails f xs ++ stop :: t = tails f ys ++ stop :: t') :
    List.Forall₂ R xs ys ∧ t = t' := by
  induction xs generalizing ys with
  | nil =>
    cases ys with
    | nil => exact ⟨.nil, (List.cons.inj h).2⟩
    | cons y ys => exact absurd (List.cons.inj h).1 hstop.1
  | cons x xs ih =>
    cases ys with
    | nil => exact absurd (List.cons.inj h).1.symm hstop.1
    | cons y ys =>
      rw [tails_cons, tails_cons] at h
      simp only [List.cons_append, List.append_assoc, List.cons.injEq, true_and] at h
      obtain ⟨hxy, hrest⟩ := hf x List.mem_cons_self y List.mem_cons_self _ _
        (delimited_tails hstop.2 xs t) (delimited_tails hstop.2 ys t') h
      obtain ⟨hall, ht⟩ := ih (fun x hx y hy ↦ hf x (List.mem_cons_of_mem _ hx) y
        (List.mem_cons_of_mem _ hy)) hrest
      exact ⟨.cons hxy hall, ht⟩

/-- Joined parts can be told apart. -/
theorem parts_cancel (stop : UInt16) (xs ys : List α) (hstop : stop ≠ 44 ∧ ¬ IsNumberUnit stop)
    (hopen : ∀ x ∈ xs ++ ys, ∃ u r, f x = u :: r ∧ u ≠ stop)
    (hf : ∀ x ∈ xs, ∀ y ∈ ys, ∀ t t', Delimited t → Delimited t' → f x ++ t = f y ++ t' →
      R x y ∧ t = t')
    (h : JsString.join (js ",") (xs.map f) ++ stop :: t =
      JsString.join (js ",") (ys.map f) ++ stop :: t') : List.Forall₂ R xs ys ∧ t = t' := by
  cases xs with
  | nil =>
    cases ys with
    | nil => exact ⟨.nil, (List.cons.inj h).2⟩
    | cons y ys =>
      obtain ⟨u, r, hu, hne⟩ := hopen y (by simp)
      rw [join_map, hu] at h
      exact absurd (List.cons.inj h).1.symm hne
  | cons x xs =>
    cases ys with
    | nil =>
      obtain ⟨u, r, hu, hne⟩ := hopen x (by simp)
      rw [join_map, hu] at h
      exact absurd (List.cons.inj h).1 hne
    | cons y ys =>
      rw [join_map, join_map, List.append_assoc, List.append_assoc] at h
      obtain ⟨hxy, hrest⟩ := hf x List.mem_cons_self y List.mem_cons_self _ _
        (delimited_tails hstop.2 xs t) (delimited_tails hstop.2 ys t') h
      obtain ⟨hall, ht⟩ := tails_cancel hstop (fun x hx y hy ↦ hf x (List.mem_cons_of_mem _ hx) y
        (List.mem_cons_of_mem _ hy)) hrest
      exact ⟨.cons hxy hall, ht⟩

end Parts

theorem toJs_ne_nil (d : Decimal) : d.toJs ≠ [] := by
  have hs := natText_ne_nil d.mant.natAbs
  unfold Decimal.toJs Decimal.layout
  dsimp only
  split_ifs <;> simp [hs, js]

/-- The sort of a value, as the first unit of its text tells it. -/
def kind : Value → ℕ
  | .null => 0
  | .bool true => 1
  | .bool false => 2
  | .num _ => 3
  | .str _ => 4
  | .arr _ => 5
  | .obj _ => 6
  | _ => 7

def kindOf (u : UInt16) : ℕ :=
  if u = 110 then 0 else if u = 116 then 1 else if u = 102 then 2 else if IsNumberUnit u then 3
  else if u = 34 then 4 else if u = 91 then 5 else if u = 123 then 6 else 8

theorem IsJson.opening {v : Value} (h : v.IsJson) :
    ∃ u r, v.written = u :: r ∧ kindOf u = v.kind := by
  cases h with
  | null => exact ⟨110, js "ull", rfl, rfl⟩
  | bool b => cases b
              · exact ⟨102, js "alse", rfl, rfl⟩
              · exact ⟨116, js "rue", rfl, rfl⟩
  | num d =>
    obtain ⟨u, r, hd⟩ := List.exists_cons_of_ne_nil (toJs_ne_nil d)
    have hu : IsNumberUnit u := d.toJs_units u (hd ▸ List.mem_cons_self)
    refine ⟨u, r, hd, ?_⟩
    have h110 : u ≠ 110 := by rintro rfl; exact absurd hu (by decide)
    have h116 : u ≠ 116 := by rintro rfl; exact absurd hu (by decide)
    have h102 : u ≠ 102 := by rintro rfl; exact absurd hu (by decide)
    rw [kindOf, if_neg h110, if_neg h116, if_neg h102, if_pos hu, kind]
  | str s => exact ⟨34, _, rfl, rfl⟩
  | arr h => exact ⟨91, _, written_arr h, rfl⟩
  | obj _ h => exact ⟨123, _, written_obj h, rfl⟩

theorem kind_ne {v : Value} : v.kind ≠ 8 := by
  unfold kind
  split <;> decide

theorem IsJson.opening_ne {v : Value} (h : v.IsJson) {stop : UInt16} (hstop : kindOf stop = 8) :
    ∃ u r, v.written = u :: r ∧ u ≠ stop := by
  obtain ⟨u, r, hu, hk⟩ := h.opening
  refine ⟨u, r, hu, ?_⟩
  rintro rfl
  exact kind_ne (hk.symm.trans hstop)

theorem kind_eq {v w : Value} (hv : v.IsJson) (hw : w.IsJson) {t t' : JsString}
    (h : v.written ++ t = w.written ++ t') : v.kind = w.kind := by
  obtain ⟨u, r, hu, hk⟩ := hv.opening
  obtain ⟨u', r', hu', hk'⟩ := hw.opening
  rw [hu, hu'] at h
  rw [← hk, ← hk', (List.cons.inj h).1]

mutual

/-- The value with the keys of all objects in order. -/
def ordered : Value → Value
  | .arr items => .arr (orderedItems items)
  | .obj fields => .obj (sortBy KeyLe (·.1) (orderedFields fields))
  | v => v

def orderedItems : List Value → List Value
  | [] => []
  | v :: items => ordered v :: orderedItems items

def orderedFields : List (JsString × Value) → List (JsString × Value)
  | [] => []
  | (key, v) :: fields => (key, ordered v) :: orderedFields fields

end

theorem orderedItems_eq (items : List Value) : orderedItems items = items.map ordered := by
  induction items with
  | nil => rfl
  | cons v items ih => rw [orderedItems, ih, List.map_cons]

theorem orderedFields_eq (fields : List (JsString × Value)) :
    orderedFields fields = fields.map (fun f ↦ (f.1, f.2.ordered)) := by
  induction fields with
  | nil => rfl
  | cons f fields ih => rw [orderedFields, ih, List.map_cons]

theorem rearranged_items {items others : List Value} (pre : List Value)
    (h : List.Forall₂ Rearranged items others) :
    (Value.arr (pre ++ items)).Rearranged (.arr (pre ++ others)) := by
  induction h generalizing pre with
  | nil => exact .refl _
  | @cons v w items others hvw _ ih =>
    refine .trans (.item pre items hvw) ?_
    simpa using ih (pre ++ [w])

theorem rearranged_fields {fields others : List (JsString × Value)}
    (pre : List (JsString × Value))
    (h : List.Forall₂ (fun f g ↦ f.1 = g.1 ∧ f.2.Rearranged g.2) fields others) :
    (Value.obj (pre ++ fields)).Rearranged (.obj (pre ++ others)) := by
  induction h generalizing pre with
  | nil => exact .refl _
  | @cons f g fields others hfg _ ih =>
    obtain ⟨key, v⟩ := f
    obtain ⟨key', w⟩ := g
    obtain ⟨rfl, hvw⟩ : key = key' ∧ v.Rearranged w := hfg
    refine .trans (.field pre fields key hvw) ?_
    simpa using ih (pre ++ [(key, w)])

theorem rearranged_ordered (v : Value) : v.Rearranged v.ordered := by
  induction v using induction with
  | arr items ih =>
    rw [ordered, orderedItems_eq]
    refine rearranged_items [] ?_
    rw [List.forall₂_map_right_iff, List.forall₂_same]
    exact ih
  | obj fields ih =>
    rw [ordered, orderedFields_eq]
    have hall : List.Forall₂ (fun f g ↦ f.1 = g.1 ∧ f.2.Rearranged g.2) fields
        (fields.map fun f ↦ (f.1, f.2.ordered)) := by
      rw [List.forall₂_map_right_iff, List.forall₂_same]
      exact fun f hf ↦ ⟨rfl, ih f hf⟩
    exact .trans (rearranged_fields [] hall) (.keys (sortBy_perm KeyLe _ _).symm)
  | _ => exact .refl _

theorem map_eq_of_forall₂ {α β : Type} {f : α → β} {l m : List α}
    (h : List.Forall₂ (fun a b ↦ f a = f b) l m) : l.map f = m.map f := by
  induction h with
  | nil => rfl
  | cons h _ ih => rw [List.map_cons, List.map_cons, h, ih]

/-- Two JSON values with the same text are the same up to the order of keys. -/
theorem IsJson.cancel {v w : Value} (hv : v.IsJson) (hw : w.IsJson) {t t' : JsString}
    (ht : Delimited t) (ht' : Delimited t') (h : v.written ++ t = w.written ++ t') :
    v.ordered = w.ordered ∧ t = t' := by
  have hkind := kind_eq hv hw h
  induction hv generalizing w t t' with
  | null =>
    cases hw with
    | null => exact ⟨rfl, List.append_cancel_left h⟩
    | bool b => cases b <;> cases hkind
    | _ => cases hkind
  | bool b =>
    cases hw with
    | bool b' =>
      have hb : b = b' := by cases b <;> cases b' <;> first | rfl | cases hkind
      subst hb
      exact ⟨rfl, List.append_cancel_left h⟩
    | _ => cases b <;> cases hkind
  | num d =>
    cases hw with
    | num d' =>
      obtain ⟨hd, ht⟩ := units_cancel d.toJs_units d'.toJs_units ht ht' h
      exact ⟨by rw [Decimal.toJs_injective hd], ht⟩
    | bool b => cases b <;> cases hkind
    | _ => cases hkind
  | str s =>
    cases hw with
    | str s' =>
      obtain ⟨rfl, ht⟩ := JsonReader.quote_cancel h
      exact ⟨rfl, ht⟩
    | bool b => cases b <;> cases hkind
    | _ => cases hkind
  | @arr items hitems ih =>
    cases hw with
    | @arr others hothers =>
      rw [written_arr hitems, written_arr hothers] at h
      simp only [List.append_assoc] at h
      have hparts := parts_cancel (R := fun v w ↦ v.ordered = w.ordered) (f := written)
        93 items others (by decide) (fun x hx ↦ ?_)
        (fun x hx y hy t t' ht ht' hxy ↦ ih x hx (hothers y hy) ht ht' hxy
          (kind_eq (hitems x hx) (hothers y hy) hxy)) (List.append_cancel_left h)
      · rw [ordered, ordered, orderedItems_eq, orderedItems_eq, map_eq_of_forall₂ hparts.1]
        exact ⟨rfl, hparts.2⟩
      · have hj : x.IsJson := (List.mem_append.1 hx).elim (hitems x) (hothers x)
        exact hj.opening_ne (by decide)
    | bool b => cases b <;> cases hkind
    | _ => cases hkind
  | @obj fields hnodup hfields ih =>
    cases hw with
    | @obj others hnodup' hothers =>
      rw [written_obj hfields, written_obj hothers] at h
      simp only [List.append_assoc] at h
      have hin {l : List (JsString × Value)} {f : JsString × Value} (hf : f ∈ sortBy KeyLe (·.1) l) :
          f ∈ l := (sortBy_perm KeyLe _ _).mem_iff.1 hf
      have hparts := parts_cancel (R := fun f g ↦ (f.1, f.2.ordered) = (g.1, g.2.ordered))
        (f := fieldText) 125 (sortBy KeyLe (·.1) fields) (sortBy KeyLe (·.1) others) (by decide)
        (fun f _ ↦ ⟨34, _, rfl, by decide⟩)
        (fun f hf g hg t t' ht ht' hfg ↦ ?_) (List.append_cancel_left h)
      · have hmap (l : List (JsString × Value)) :
            sortBy KeyLe (·.1) (l.map fun f ↦ (f.1, f.2.ordered)) =
              (sortBy KeyLe (·.1) l).map fun f ↦ (f.1, f.2.ordered) :=
          (map_sortBy KeyLe _ (fun e : JsString × Value ↦ e.1) (fun _ ↦ rfl) l).symm
        rw [ordered, ordered, orderedFields_eq, orderedFields_eq, hmap, hmap,
          map_eq_of_forall₂ hparts.1]
        exact ⟨rfl, hparts.2⟩
      · simp only [fieldText, List.append_assoc] at hfg
        obtain ⟨hkey, hrest⟩ := JsonReader.quote_cancel hfg
        have hvalue := List.append_cancel_left hrest
        obtain ⟨hord, ht⟩ := ih f (hin hf) (hothers g (hin hg)) ht ht' hvalue
          (kind_eq (hfields f (hin hf)) (hothers g (hin hg)) hvalue)
        exact ⟨by rw [hkey, hord], ht⟩
    | bool b => cases b <;> cases hkind
    | _ => cases hkind

/-- Equal canonical texts, and equal values up to the order of keys. -/
theorem IsJson.canonicalize_eq_iff {v w : Value} (hv : v.IsJson) (hw : w.IsJson) :
    canonicalize v = canonicalize w ↔ v.Rearranged w := by
  rw [hv.ok, hw.ok]
  constructor
  · intro h
    have hnil : Delimited [] := nofun
    have hord := (hv.cancel hw hnil hnil (congrArg (· ++ []) (Except.ok.inj h))).1
    exact .trans (rearranged_ordered v) (hord ▸ (rearranged_ordered w).symm)
  · intro h
    rw [(h.written_eq hv).2]

theorem Rearranged.unwritable {v w : Value} (h : v.Rearranged w) :
    (v = .undefined ↔ w = .undefined) ∧ (v.Unwritable → w.Unwritable) := by
  induction h with
  | refl v => exact ⟨.rfl, id⟩
  | trans _ _ ih ih' => exact ⟨ih.1.trans ih'.1, ih'.2 ∘ ih.2⟩
  | @item pre post v w _ ih =>
    refine ⟨⟨nofun, nofun⟩, ?_⟩
    rintro (_ | _ | _ | _ | ⟨hx, hbad⟩)
    rcases List.mem_append.1 hx with hx | hx
    · exact .item (List.mem_append_left _ hx) hbad
    · rcases List.mem_cons.1 hx with rfl | hx
      · exact .item (by simp) (ih.2 hbad)
      · exact .item (by simp [hx]) hbad
  | @field pre post key v w _ ih =>
    refine ⟨⟨nofun, nofun⟩, ?_⟩
    rintro (_ | _ | _ | _ | _ | ⟨hf, hne, hbad⟩)
    rcases List.mem_append.1 hf with hf | hf
    · exact .field (List.mem_append_left _ hf) hne hbad
    · rcases List.mem_cons.1 hf with rfl | hf
      · exact .field (f := (key, w)) (by simp) (fun h ↦ hne (ih.1.2 h)) (ih.2 hbad)
      · exact .field (by simp [hf]) hne hbad
  | @keys fields others hperm =>
    refine ⟨⟨nofun, nofun⟩, ?_⟩
    rintro (_ | _ | _ | _ | _ | ⟨hf, hne, hbad⟩)
    exact .field (hperm.mem_iff.1 hf) hne hbad

end Value

/-! ### Projections -/

namespace SetupProjection

/-- The numbers of the projection are finite. -/
def Finite (p : SetupProjection) : Prop :=
  (∀ n ∈ p.sampling.temperature, ∃ d, n = .finite d) ∧ ∀ n ∈ p.sampling.topP, ∃ d, n = .finite d

/-- The digests given for one prompt. -/
def digests (p : SetupProjection) (id : JsString) : List PromptDigest :=
  p.prompts.filter (·.id = id)

/-- The same setup, whatever the order of prompts and of tools. -/
structure Same (p q : SetupProjection) : Prop where
  host : p.host = q.host
  model : p.model = q.model
  prompts : p.prompts.Perm q.prompts
  allow : p.tools.allow.Perm q.tools.allow
  deny : p.tools.deny.Perm q.tools.deny
  mode : p.tools.mode = q.tools.mode
  sampling : p.sampling = q.sampling

theorem value_injective : Function.Injective SetupProjection.value := by
  have htext : Function.Injective Value.text := by
    intro a b h
    cases a <;> cases b <;> cases h <;> rfl
  have hnumber : Function.Injective Value.number := by
    intro a b h
    cases a <;> cases b <;> cases h <;> rfl
  have htexts : Function.Injective Value.texts := by
    intro a b h
    exact List.map_injective_iff.2 (fun _ _ h ↦ Value.str.inj h) (Value.arr.inj h)
  have hprompts : Function.Injective (List.map PromptDigest.value) := by
    refine List.map_injective_iff.2 fun a b h ↦ ?_
    obtain ⟨id, sha256⟩ := a
    obtain ⟨id', sha256'⟩ := b
    simpa [PromptDigest.value] using h
  have hhost : Function.Injective AgentHost.name := by
    intro a b h
    revert h
    cases a <;> cases b <;> decide
  intro p q h
  obtain ⟨host, model, prompts, ⟨allow, deny, mode⟩, ⟨temperature, topP, effort⟩⟩ := p
  obtain ⟨host', model', prompts', ⟨allow', deny', mode'⟩, ⟨temperature', topP', effort'⟩⟩ := q
  simp only [SetupProjection.value, Tools.value, Sampling.value, Value.obj.injEq, Value.arr.injEq, Value.str.injEq,
    List.cons.injEq, Prod.mk.injEq, true_and, and_true] at h
  obtain ⟨h₁, h₂, h₃, ⟨h₄, h₅, h₆⟩, h₇, h₈, h₉⟩ := h
  rw [hhost h₁, htext h₂, hprompts h₃, htext h₄, hnumber h₅, hnumber h₆, htexts h₇, htexts h₈,
    htext h₉]

theorem value_ordered (p : SetupProjection) : p.value.ordered = p.value := by
  have htext (t : Option JsString) : (Value.text t).ordered = .text t := by cases t <;> rfl
  have hnumber (n : Option JsNumber) : (Value.number n).ordered = .number n := by cases n <;> rfl
  have htexts (l : List JsString) : (Value.texts l).ordered = .texts l := by
    rw [Value.texts, Value.ordered, Value.orderedItems_eq, List.map_map]
    rfl
  have hprompts : Value.orderedItems (p.prompts.map PromptDigest.value) =
      p.prompts.map PromptDigest.value := by
    rw [Value.orderedItems_eq, List.map_map]
    exact List.map_congr_left fun d _ ↦ rfl
  simp only [value, Tools.value, Sampling.value, Value.ordered, Value.orderedFields, htext, hnumber,
    htexts, hprompts]
  rfl

theorem Finite.isJson {p : SetupProjection} (h : p.Finite) : p.value.IsJson := by
  have htext (t : Option JsString) : (Value.text t).IsJson := by
    cases t with
    | none => exact .null
    | some s => exact .str s
  have hnumber {n : Option JsNumber} (hn : ∀ m ∈ n, ∃ d, m = .finite d) :
      (Value.number n).IsJson := by
    cases n with
    | none => exact .null
    | some n =>
      obtain ⟨d, rfl⟩ := hn n rfl
      exact .num d
  have htexts (l : List JsString) : (Value.texts l).IsJson :=
    .arr (List.forall_mem_map.2 fun s _ ↦ .str s)
  have hprompts : (Value.arr (p.prompts.map PromptDigest.value)).IsJson := by
    refine .arr (List.forall_mem_map.2 fun d _ ↦ .obj ?_ (by simp [Value.IsJson.str]))
    exact show [js "id", js "sha256"].Nodup by decide
  have hsampling : p.sampling.value.IsJson := by
    refine .obj (show [js "reasoningEffort", js "temperature", js "topP"].Nodup by decide) ?_
    simp only [List.forall_mem_cons, List.not_mem_nil, false_implies, implies_true, and_true]
    exact ⟨htext _, hnumber h.1, hnumber h.2⟩
  have htools : p.tools.value.IsJson := by
    refine .obj (show [js "allow", js "deny", js "mode"].Nodup by decide) ?_
    simp only [List.forall_mem_cons, List.not_mem_nil, false_implies, implies_true, and_true]
    exact ⟨htexts _, htexts _, htext _⟩
  refine .obj (show [js "host", js "model", js "prompts", js "sampling", js "spec",
    js "tools"].Nodup by decide) ?_
  simp only [List.forall_mem_cons, List.not_mem_nil, false_implies, implies_true, and_true]
  exact ⟨.str _, htext _, hprompts, hsampling, .str _, htools⟩

theorem finite_of_writable {p : SetupProjection} (h : ¬ p.value.Unwritable) : p.Finite := by
  have hnumber {n : JsNumber} (hn : ¬ (Value.num n).Unwritable) : ∃ d, n = .finite d := by
    cases n with
    | finite d => exact ⟨d, rfl⟩
    | infinity negative => exact absurd (.infinity negative) hn
    | nan => exact absurd .nan hn
  have hsampling : ¬ p.sampling.value.Unwritable := fun hbad ↦
    h (.field (f := (js "sampling", p.sampling.value)) (by simp) nofun hbad)
  constructor
  · intro n hn
    refine hnumber fun hbad ↦ hsampling (.field (f := (js "temperature", .num n)) ?_ nofun hbad)
    rw [Option.mem_def.1 hn]
    simp [Value.number]
  · intro n hn
    refine hnumber fun hbad ↦ hsampling (.field (f := (js "topP", .num n)) ?_ nofun hbad)
    rw [Option.mem_def.1 hn]
    simp [Value.number]

theorem normalize_eq_iff {p q : SetupProjection} : normalize p = normalize q ↔
    (p.host = q.host ∧ p.model = q.model ∧ p.tools.mode = q.tools.mode ∧ p.sampling = q.sampling ∧
      p.tools.allow.Perm q.tools.allow ∧ p.tools.deny.Perm q.tools.deny) ∧
      ∀ id, p.digests id = q.digests id := by
  obtain ⟨host, model, prompts, ⟨allow, deny, mode⟩, sampling⟩ := p
  obtain ⟨host', model', prompts', ⟨allow', deny', mode'⟩, sampling'⟩ := q
  simp only [normalize, SetupProjection.mk.injEq, Tools.mk.injEq, JsString.sort_eq_iff,
    sortBy_eq_iff, digests]
  constructor
  · rintro ⟨rfl, rfl, hp, ⟨ha, hd, rfl⟩, rfl⟩
    exact ⟨⟨rfl, rfl, rfl, rfl, ha, hd⟩, hp⟩
  · rintro ⟨⟨rfl, rfl, rfl, rfl, ha, hd⟩, hp⟩
    exact ⟨rfl, rfl, hp, ⟨ha, hd, rfl⟩, rfl⟩

/-- Lists that agree on every prompt hold the same prompts. -/
theorem perm_of_digests {p q : SetupProjection} (h : ∀ id, p.digests id = q.digests id) :
    p.prompts.Perm q.prompts := by
  have hsort : sortBy KeyLe PromptDigest.id p.prompts = sortBy KeyLe PromptDigest.id q.prompts :=
    sortBy_eq_iff.2 h
  have hp := (sortBy_perm KeyLe PromptDigest.id p.prompts).symm
  rw [hsort] at hp
  exact hp.trans (sortBy_perm KeyLe _ _)

end SetupProjection

open SetupProjection

/-- A projection has a fingerprint when its numbers are finite. The order of keys is lost in it. -/
theorem fingerprintInput_eq {p : SetupProjection} (v : Spelling p) {t : JsString} :
    fingerprintInput v = .ok t ↔ p.Finite ∧ canonicalize (normalize p).value = .ok t := by
  have hfinite : (normalize p).Finite ↔ p.Finite := Iff.rfl
  constructor
  · intro h
    have hwritable : ¬ (normalize p).value.Unwritable := fun hbad ↦
      Value.exists_canonicalize.1 ⟨t, h⟩ (v.spells.unwritable.2 hbad)
    have hp : (normalize p).Finite := finite_of_writable hwritable
    have heq := (hp.isJson.canonicalize_eq_iff (v.spells.written_eq hp.isJson).1).2 v.spells
    exact ⟨hfinite.1 hp, heq.trans h⟩
  · rintro ⟨hp, h⟩
    have hjson := (hfinite.2 hp).isJson
    exact ((hjson.canonicalize_eq_iff (v.spells.written_eq hjson).1).2 v.spells).symm.trans h

/-- Two projections have one fingerprint input exactly when they are the same setup and list the
digests of each prompt in one order. -/
theorem fingerprintInput_same {p q : SetupProjection} (v : Spelling p) (w : Spelling q) :
    (∃ t, fingerprintInput v = .ok t ∧ fingerprintInput w = .ok t) ↔
      p.Finite ∧ p.Same q ∧ ∀ id, p.digests id = q.digests id := by
  simp only [fingerprintInput_eq]
  constructor
  · rintro ⟨t, ⟨hp, ht⟩, hq, ht'⟩
    have hjson : (normalize p).value.IsJson := SetupProjection.Finite.isJson (p := normalize p) hp
    have hjson' : (normalize q).value.IsJson := SetupProjection.Finite.isJson (p := normalize q) hq
    have hnil : Value.Delimited [] := nofun
    have htext : (normalize p).value.written = (normalize q).value.written := by
      rw [hjson.ok] at ht
      rw [hjson'.ok] at ht'
      exact (Except.ok.inj ht).trans (Except.ok.inj ht').symm
    have hord := (hjson.cancel hjson' hnil hnil (congrArg (· ++ []) htext)).1
    rw [value_ordered, value_ordered] at hord
    obtain ⟨⟨h₁, h₂, h₃, h₄, h₅, h₆⟩, hdigests⟩ := normalize_eq_iff.1 (value_injective hord)
    exact ⟨hp, ⟨h₁, h₂, perm_of_digests hdigests, h₅, h₆, h₃, h₄⟩, hdigests⟩
  · rintro ⟨hp, hsame, hdigests⟩
    have hnorm : normalize p = normalize q := normalize_eq_iff.2
      ⟨⟨hsame.host, hsame.model, hsame.mode, hsame.sampling, hsame.allow, hsame.deny⟩, hdigests⟩
    have hq : q.Finite := by
      rw [SetupProjection.Finite, ← hsame.sampling]
      exact hp
    refine ⟨_, ⟨hp, (SetupProjection.Finite.isJson (p := normalize p) hp).ok⟩, hq, ?_⟩
    rw [← hnorm]
    exact (SetupProjection.Finite.isJson (p := normalize p) hp).ok

/-- The fingerprint is a canonical form where the digests of each prompt are listed in one order,
and `undefined` is refused unless it is only ever the value of a field. -/
theorem fingerprint_canonical_iff (p q : SetupProjection) (v : Spelling p) (w : Spelling q)
    (x y : JsonValue) (u : Value) :
    (((∃ t, fingerprintInput v = .ok t ∧ fingerprintInput w = .ok t) ↔ p.Finite ∧ p.Same q) ↔
      (p.Finite → p.Same q → ∀ id, p.digests id = q.digests id)) ∧
    (canonicalize x.value = canonicalize y.value ↔ x.value.Rearranged y.value) ∧
    ((u.HoldsUndefined → ∃ e, canonicalize u = .error e) ↔ (u.HoldsUndefined → u.Unwritable)) := by
  refine ⟨?_, x.isJson.canonicalize_eq_iff y.isJson, ?_⟩
  · rw [fingerprintInput_same]
    constructor
    · intro h hp hsame
      exact (h.2 ⟨hp, hsame⟩).2.2
    · intro h
      exact ⟨fun ⟨hp, hsame, _⟩ ↦ ⟨hp, hsame⟩, fun ⟨hp, hsame⟩ ↦ ⟨hp, hsame, h hp hsame⟩⟩
  · have hrefused : (∃ e, canonicalize u = .error e) ↔ u.Unwritable := by
      rw [← not_iff_not, ← Value.exists_canonicalize]
      cases canonicalize u <;> simp
    rw [hrefused]

section Samples

def samplePrompts (prompts : List PromptDigest) : SetupProjection :=
  ⟨.claudeCode, none, prompts, ⟨[], [], none⟩, ⟨none, none, none⟩⟩

def sampleSpelling (p : SetupProjection) : Spelling p := ⟨_, .refl _⟩

/-- Two digests of one prompt, listed in either order, and a field that is `undefined`. -/
theorem fingerprint_not_canonical :
    (fingerprintInput (sampleSpelling (samplePrompts [⟨js "a", js "1"⟩, ⟨js "a", js "2"⟩])) ≠
      fingerprintInput (sampleSpelling (samplePrompts [⟨js "a", js "2"⟩, ⟨js "a", js "1"⟩]))) ∧
    (samplePrompts [⟨js "a", js "1"⟩, ⟨js "a", js "2"⟩]).Same
      (samplePrompts [⟨js "a", js "2"⟩, ⟨js "a", js "1"⟩]) ∧
    canonicalize (.obj [(js "a", .undefined)]) = .ok [123, 125] ∧
    (Value.obj [(js "a", .undefined)]).HoldsUndefined := by
  refine ⟨by decide, ⟨rfl, rfl, .swap _ _ _, .nil, .nil, rfl, rfl⟩, rfl, ?_⟩
  exact .field (List.mem_singleton_self _) .undefined

end Samples

end Counted.AgentTelemetry
