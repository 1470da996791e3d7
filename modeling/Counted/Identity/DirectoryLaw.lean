import Counted.Identity.OrganizationDirectory

namespace Counted.Identity

open Foundations
open Ingestion (WorkspaceId)

variable {c : Collation} {a b k : RowKey}

instance (c : Collation) : Std.Total c.keyLe := ⟨fun a b ↦ by
  rcases lt_trichotomy a.1 b.1 with h | h | h
  · exact .inl (.inl h)
  · exact (c.total a.2 b.2).imp (fun hle ↦ .inr ⟨h, hle⟩) fun hle ↦ .inr ⟨h.symm, hle⟩
  · exact .inr (.inl h)⟩

instance (c : Collation) : IsTrans RowKey c.keyLe := ⟨fun x y z hxy hyz ↦ by
  rcases hxy with hxy | ⟨hxy, hle⟩
  · exact .inl (hyz.elim (hxy.trans ·) fun h ↦ h.1 ▸ hxy)
  · rcases hyz with hyz | ⟨hyz, hle'⟩
    · exact .inl (hxy ▸ hyz)
    · exact .inr ⟨hxy.trans hyz, c.trans _ _ _ hle hle'⟩⟩

instance (c : Collation) : Std.Antisymm c.keyLe := ⟨fun x y hxy hyx ↦ by
  rcases hxy with hxy | ⟨hxy, hle⟩
  · rcases hyx with hyx | ⟨hyx, -⟩ <;> omega
  · rcases hyx with hyx | ⟨-, hle'⟩
    · omega
    · exact Prod.ext hxy (c.antisymm _ _ hle hle')⟩

theorem before_iff : c.before a b = true ↔ ¬ c.keyLe b a := by
  rw [Collation.before, Collation.keyLe, Bool.or_eq_true, Bool.and_eq_true, decide_eq_true_eq,
    decide_eq_true_eq, Bool.not_eq_true', ← Bool.not_eq_true]
  constructor
  · rintro (h | ⟨h, hle⟩) (h' | ⟨h', hle'⟩)
    · omega
    · omega
    · omega
    · exact hle hle'
  · intro h
    rcases lt_trichotomy a.1 b.1 with hlt | heq | hgt
    · exact .inl hlt
    · exact .inr ⟨heq, fun hle ↦ h (.inr ⟨heq.symm, hle⟩)⟩
    · exact absurd (.inl hgt) h

theorem before_asymm (a b : RowKey) (h : c.before a b = true) : c.before b a = false := by
  rw [← Bool.not_eq_true, before_iff, not_not]
  exact (Std.Total.total b a).resolve_left (before_iff.1 h)

theorem increasing_sortBy {α : Type} {key : α → RowKey} {rows : List α} (h : (rows.map key).Nodup) :
    Increasing key c.before (sortBy c.keyLe key rows) := by
  have hdistinct : (sortBy c.keyLe key rows).Pairwise (fun x y ↦ key x ≠ key y) := by
    rw [← List.pairwise_map (R := (· ≠ ·)), ← List.nodup_iff_pairwise_ne]
    exact (((sortBy_perm c.keyLe key rows).map key).nodup_iff).2 h
  refine ((pairwise_sortBy c.keyLe key rows).and hdistinct).imp fun hxy ↦ before_iff.2 fun hyx ↦ ?_
  exact hxy.2 (Std.Antisymm.antisymm _ _ hxy.1 hyx)

/-! ### The loop over the pages follows the cursors -/

section

variable {α : Type} {key : α → RowKey} {before : RowKey → RowKey → Bool} {cut : RowKey → RowKey}
  {limit : ℕ} {rows : List α} {record : α → OrganizationRecord}
  {toKey : OrganizationCursor → RowKey} {records : RecordsAfter}

theorem organizationPage_eq (hlimit : 1 ≤ limit) (hlimit' : limit ≤ 10000)
    (hrecords : ∀ cursor n, records cursor n =
      (pageAfter key before (cursor.map toKey) n rows).map record)
    (hcursor : ∀ a, toKey (record a).cursor = cut (key a)) (c : Option OrganizationCursor) :
    ∃ cursor, organizationPage records limit c =
      .ok ⟨(nextPage key before cut limit rows (c.map toKey)).1.map record, cursor⟩ ∧
        cursor.map toKey = (nextPage key before cut limit rows (c.map toKey)).2 := by
  rw [organizationPage, if_neg (by omega), hrecords, nextPage]
  refine ⟨_, by rw [List.map_take], ?_⟩
  rw [List.length_map, ← List.map_take, List.getLast?_map]
  split_ifs
  · rw [Option.map_map, Option.map_map]
    exact Option.map_congr fun a _ ↦ hcursor a
  · rfl

/-- The state of the loop and that of the walk over the rows. -/
def Walks (toKey : OrganizationCursor → RowKey) (record : α → OrganizationRecord)
    (s : Option OrganizationCursor × List OrganizationRecord) (u : Option RowKey × List α) : Prop :=
  s.1.map toKey = u.1 ∧ s.2 = u.2.map record

theorem scan_step (hlimit : 1 ≤ limit) (hlimit' : limit ≤ 10000)
    (hrecords : ∀ cursor n, records cursor n =
      (pageAfter key before (cursor.map toKey) n rows).map record)
    (hcursor : ∀ a, toKey (record a).cursor = cut (key a))
    (s : Option OrganizationCursor × List OrganizationRecord) (u : Option RowKey × List α)
    (h : Walks toKey record s u) :
    (∃ s' u', scan records limit s = .inl s' ∧ follow key before cut limit rows u = .inl u' ∧
      Walks toKey record s' u') ∨
    ∃ t t', scan records limit s = .inr t ∧ follow key before cut limit rows u = .inr t' ∧
      t = .ok (t'.map record) := by
  obtain ⟨cursor, hpage, hkey⟩ := organizationPage_eq hlimit hlimit' hrecords hcursor s.1
  obtain ⟨hs, hseen⟩ := h
  rw [hs] at hpage hkey
  rw [scan, follow, hpage, ← hkey]
  cases cursor with
  | none => exact .inr ⟨_, _, rfl, rfl, by rw [hseen, List.map_append]⟩
  | some c => exact .inl ⟨_, _, rfl, rfl, rfl, by rw [hseen, List.map_append]⟩

theorem halts_scan (hlimit : 1 ≤ limit) (hlimit' : limit ≤ 10000)
    (hrecords : ∀ cursor n, records cursor n =
      (pageAfter key before (cursor.map toKey) n rows).map record)
    (hcursor : ∀ a, toKey (record a).cursor = cut (key a)) {t : List α}
    (h : Halts (follow key before cut limit rows) (none, []) t) :
    Halts (scan records limit) (none, []) (.ok (t.map record)) := by
  have hstep := scan_step hlimit hlimit' hrecords hcursor
  have hstart : Walks toKey record (none, []) (none, []) := ⟨rfl, rfl⟩
  obtain ⟨t', ht', heq⟩ := h.related (R := fun u s ↦ Walks toKey record s u)
    (S := fun (t : List α) (t' : Except JsString (List OrganizationRecord)) ↦
      t' = .ok (t.map record)) (fun u s hR ↦ by
      rcases hstep s u hR with ⟨s', u', hs, hu, hR'⟩ | ⟨t, t', hs, hu, heq⟩
      · exact .inl ⟨u', s', hu, hs, hR'⟩
      · exact .inr ⟨t', t, hu, hs, heq⟩) hstart
  exact heq ▸ ht'

theorem halts_follow (hlimit : 1 ≤ limit) (hlimit' : limit ≤ 10000)
    (hrecords : ∀ cursor n, records cursor n =
      (pageAfter key before (cursor.map toKey) n rows).map record)
    (hcursor : ∀ a, toKey (record a).cursor = cut (key a)) {visited : List OrganizationRecord}
    (h : Halts (scan records limit) (none, []) (.ok visited)) :
    ∃ t, Halts (follow key before cut limit rows) (none, []) t ∧ visited = t.map record := by
  have hstart : Walks toKey record (none, []) (none, []) := ⟨rfl, rfl⟩
  obtain ⟨t, ht, heq⟩ := h.related (R := Walks toKey record)
    (S := fun (t : Except JsString (List OrganizationRecord)) (t' : List α) ↦
      t = .ok (t'.map record)) (scan_step hlimit hlimit' hrecords hcursor) hstart
  exact ⟨t, ht, Except.ok.inj heq⟩

/-- A page size that is refused ends the loop. -/
theorem limit_of_halts {visited : List OrganizationRecord}
    (h : Halts (scan records limit) (none, []) (.ok visited)) : 1 ≤ limit ∧ limit ≤ 10000 := by
  by_contra hlimit
  have hrefused : scan records limit (none, []) =
      .inr (.error (js "Organization page size must be between 1 and 10000.")) := by
    rw [scan, organizationPage, if_pos (by omega)]
  cases h with
  | done hs => cases hrefused.symm.trans hs
  | next hs _ => cases hrefused.symm.trans hs

end

/-! ### What is visited -/

section

variable {α : Type} (rows : List α) (key : α → RowKey) (c : Collation)

/-- The number of rows before a row. -/
def rank (r : α) : ℕ := (rows.filter fun x ↦ c.before (key x) (key r)).length

end

/-- The pages come to an end, and their rows are each of these once, in order. -/
def VisitsOnce {α : Type} (records : RecordsAfter) (limit : ℕ) (key : α → RowKey) (c : Collation)
    (record : α → OrganizationRecord) (rows : List α) : Prop :=
  ∃ visited : List α, Halts (scan records limit) (none, []) (.ok (visited.map record)) ∧
    visited.Nodup ∧ (∀ o, o ∈ visited ↔ o ∈ rows) ∧
    visited.Pairwise fun x y ↦ c.before (key x) (key y) = true

section

variable {α : Type} {rows : List α} {key : α → RowKey} {cut : RowKey → RowKey} {limit : ℕ}
  {record : α → OrganizationRecord} {toKey : OrganizationCursor → RowKey} {records : RecordsAfter}

theorem visitsOnce_iff (cut : RowKey → RowKey) (hrows : (rows.map key).Nodup)
    (hcut : ∀ k, cut k = k ∨ c.before (cut k) k = true)
    (hrecords : ∀ cursor n, records cursor n =
      (pageAfter key c.before (cursor.map toKey) n (sortBy c.keyLe key rows)).map record)
    (hcursor : ∀ a, toKey (record a).cursor = cut (key a))
    (hinj : ∀ a ∈ rows, ∀ b ∈ rows, record a = record b → a = b) :
    VisitsOnce records limit key c record rows ↔
      1 ≤ limit ∧ limit ≤ 10000 ∧ KeysKept key cut limit (sortBy c.keyLe key rows) 0 := by
  have hinc : Increasing key c.before (sortBy c.keyLe key rows) := increasing_sortBy hrows
  have hmem (o : α) : o ∈ sortBy c.keyLe key rows ↔ o ∈ rows := (sortBy_perm _ _ _).mem_iff
  constructor
  · rintro ⟨visited, hhalts, hnodup, hvisited, -⟩
    obtain ⟨hlimit, hlimit'⟩ := limit_of_halts hhalts
    obtain ⟨t, ht, heq⟩ := halts_follow hlimit hlimit' hrecords hcursor hhalts
    have hnodup' : (visited.map record).Nodup := hnodup.map_on fun a ha b hb ↦
      hinj a ((hvisited a).1 ha) b ((hvisited b).1 hb)
    rw [heq] at hnodup'
    exact ⟨hlimit, hlimit', keysKept_of_nodup before_asymm hcut hinc hlimit ht hnodup'.of_map⟩
  · rintro ⟨hlimit, hlimit', hkept⟩
    refine ⟨sortBy c.keyLe key rows, halts_scan hlimit hlimit' hrecords hcursor
      (follow_all before_asymm hinc hlimit hkept), ?_, hmem, hinc⟩
    exact (hinc.nodup before_asymm).of_map

/-- Where the cursors keep the keys, in terms of the rows. -/
theorem keysKept_iff (hrows : (rows.map key).Nodup) (hlimit : 1 ≤ limit) :
    KeysKept key cut limit (sortBy c.keyLe key rows) 0 ↔
      ∀ o ∈ rows, limit ∣ rank rows key c o + 1 → rank rows key c o + 1 < rows.length →
        cut (key o) = key o := by
  have hperm := sortBy_perm c.keyLe key rows
  have hinc : Increasing key c.before (sortBy c.keyLe key rows) := increasing_sortBy hrows
  have hrank {j : ℕ} (hj : j < (sortBy c.keyLe key rows).length) :
      rank rows key c (sortBy c.keyLe key rows)[j] = j := by
    rw [rank, ← (hperm.filter _).length_eq]
    exact hinc.length_before before_asymm hj
  rw [← hperm.length_eq]
  constructor
  · intro hkept o ho hdvd hmore
    obtain ⟨j, hj, rfl⟩ := List.getElem_of_mem (hperm.mem_iff.2 ho)
    rw [hrank hj] at hdvd hmore
    obtain ⟨q, hq⟩ := hdvd
    cases q with
    | zero => omega
    | succ m =>
      have hsum : 0 + (m + 1) * limit = j + 1 := by rw [hq]; ring
      have hkey := hkept m (by rwa [hsum])
      rw [hsum, lastKey_succ hj, Option.map_some] at hkey
      exact Option.some.inj hkey
  · intro hall m hm
    have hpos : 0 < (m + 1) * limit := Nat.mul_pos (Nat.succ_pos m) hlimit
    obtain ⟨j, hsum⟩ : ∃ j, 0 + (m + 1) * limit = j + 1 := ⟨(m + 1) * limit - 1, by omega⟩
    rw [hsum] at hm ⊢
    have hj := Nat.lt_of_succ_lt hm
    have hkey := hall _ (hperm.mem_iff.1 (List.getElem_mem hj))
      (by rw [hrank hj, ← hsum, zero_add]; exact Nat.dvd_mul_left _ _) (by rwa [hrank hj])
    rw [lastKey_succ hj, Option.map_some, hkey]

end

/-! ### The two adapters -/

/-- What is left of a key when its instant has gone through a `Date`. -/
def wholeMillis (k : RowKey) : RowKey := (k.1 / 1000 * 1000, k.2)

theorem wholeMillis_le (k : RowKey) : wholeMillis k = k ∨ c.before (wholeMillis k) k = true := by
  by_cases h : k.1 / 1000 * 1000 = k.1
  · exact .inl (Prod.ext h rfl)
  · rw [Collation.before, Bool.or_eq_true, decide_eq_true_eq]
    have hlt : k.1 / 1000 * 1000 < k.1 := by omega
    exact .inr (.inl hlt)

theorem nodup_key {α κ : Type} {id : α → κ} {rows : List α} (f : α → ℤ)
    (h : (rows.map id).Nodup) : (rows.map fun o ↦ (f o, id o)).Nodup := by
  refine List.Nodup.of_map Prod.snd ?_
  rwa [List.map_map]

variable (db : IdentityTables) (holding : WorkspaceId) (since : Instant) (limit : ℕ)

theorem IdentityTables.eligible_distinct : ((db.eligible holding since).map (·.id)).Nodup :=
  db.distinct.sublist (List.filter_sublist.map _)

/-- Where a page ends and rows are left, the last row was created on a whole millisecond. -/
def IdentityTables.EndsWhole (c : Collation) : Prop :=
  ∀ o ∈ db.eligible holding since,
    limit ∣ rank (db.eligible holding since) (·.key) c o + 1 →
      rank (db.eligible holding since) (·.key) c o + 1 < (db.eligible holding since).length →
        1000 ∣ o.createdAt

theorem directory_visits_once_iff (c : Collation) :
    VisitsOnce (db.recordsAfter c holding since) limit (·.key) c (db.record c)
        (db.eligible holding since) ↔
      1 ≤ limit ∧ limit ≤ 10000 ∧ db.EndsWhole holding since limit c := by
  have hids := db.eligible_distinct holding since
  have hrows : ((db.eligible holding since).map (·.key)).Nodup := nodup_key (·.createdAt) hids
  have hrecords (cursor : Option OrganizationCursor) (n : ℕ) :
      db.recordsAfter c holding since cursor n =
        (pageAfter (·.key) c.before (cursor.map fun k ↦ (k.createdAt * 1000, k.workspace)) n
          (sortBy c.keyLe (·.key) (db.eligible holding since))).map (db.record c) := by
    rw [IdentityTables.recordsAfter, sortBy_filter hrows, pageAfter]
    simp only [Option.all_map]
  rw [visitsOnce_iff wholeMillis hrows wholeMillis_le hrecords (fun _ ↦ rfl)
    fun a ha b hb h ↦ List.inj_on_of_nodup_map hids ha hb (congrArg (·.workspace) h)]
  refine and_congr_right fun hlimit ↦ and_congr_right fun _ ↦ (keysKept_iff hrows hlimit).trans ?_
  refine forall₄_congr fun o _ _ _ ↦ ?_
  rw [wholeMillis, OrganizationRow.key, Prod.mk.injEq]
  simp only [and_true]
  omega

/-- The other adapter compares the instants that its cursors hold. -/
theorem found_visits_once {rows : List FoundOrganization} (hrows : (rows.map (·.id)).Nodup)
    (hlimit : 1 ≤ limit) (hlimit' : limit ≤ 10000) :
    VisitsOnce (foundAfter rows holding since) limit (·.key) codeUnits (·.record)
      (eligibleFound rows holding since) := by
  have hids : ((eligibleFound rows holding since).map (·.id)).Nodup :=
    hrows.sublist (List.filter_sublist.map _)
  have hkeys : ((eligibleFound rows holding since).map (·.key)).Nodup := nodup_key (·.instant) hids
  have hrecords (cursor : Option OrganizationCursor) (n : ℕ) :
      foundAfter rows holding since cursor n =
        (pageAfter (·.key) codeUnits.before (cursor.map fun k ↦ (k.createdAt, k.workspace)) n
          (sortBy codeUnits.keyLe (·.key) (eligibleFound rows holding since))).map (·.record) := by
    rw [foundAfter, sortBy_filter hkeys, pageAfter]
    simp only [Option.all_map]
  rw [visitsOnce_iff id hkeys (fun _ ↦ .inl rfl) hrecords (fun _ ↦ rfl)
    fun a ha b hb h ↦ List.inj_on_of_nodup_map hids ha hb (congrArg (·.workspace) h)]
  exact ⟨hlimit, hlimit', fun m _ ↦ congrFun Option.map_id _⟩

/-! ### A row that comes again -/

/-- One and a half milliseconds after the epoch, and two seconds after it. -/
def fractional : IdentityTables where
  organizations := [⟨js "a", js "A", 1500⟩, ⟨js "b", js "B", 2000000⟩]
  members := []
  users := []
  distinct := by decide

theorem fractional_page_repeats :
    organizationPage (fractional.recordsAfter codeUnits (js "holding") 0) 1 none =
        .ok ⟨[⟨js "a", js "A", 1, none⟩], some ⟨1, js "a"⟩⟩ ∧
      organizationPage (fractional.recordsAfter codeUnits (js "holding") 0) 1 (some ⟨1, js "a"⟩) =
        .ok ⟨[⟨js "a", js "A", 1, none⟩], some ⟨1, js "a"⟩⟩ ∧
      ¬ VisitsOnce (fractional.recordsAfter codeUnits (js "holding") 0) 1 (·.key) codeUnits
        (fractional.record codeUnits) (fractional.eligible (js "holding") 0) := by
  have hfirst : organizationPage (fractional.recordsAfter codeUnits (js "holding") 0) 1 none =
      .ok ⟨[⟨js "a", js "A", 1, none⟩], some ⟨1, js "a"⟩⟩ := by decide +kernel
  have hagain : organizationPage (fractional.recordsAfter codeUnits (js "holding") 0) 1
      (some ⟨1, js "a"⟩) = .ok ⟨[⟨js "a", js "A", 1, none⟩], some ⟨1, js "a"⟩⟩ := by decide +kernel
  refine ⟨hfirst, hagain, fun ⟨visited, hhalts, _⟩ ↦ ?_⟩
  have hscan (s : Option OrganizationCursor × List OrganizationRecord)
      (hs : s.1 = none ∨ s.1 = some ⟨1, js "a"⟩) :
      scan (fractional.recordsAfter codeUnits (js "holding") 0) 1 s =
        .inl (some ⟨1, js "a"⟩, s.2 ++ [⟨js "a", js "A", 1, none⟩]) := by
    rcases hs with hs | hs
    · rw [scan, hs, hfirst]
    · rw [scan, hs, hagain]
  -- the loop never ends, as the cursor is the same after each page
  refine hhalts.invariant (P := fun s ↦ s.1 = none ∨ s.1 = some ⟨1, js "a"⟩) (Q := fun _ ↦ False)
    (fun s s' hs hstep ↦ ?_) (fun s t hs hstep ↦ ?_) (.inl rfl)
  · rw [hscan s hs] at hstep
    exact .inr (Sum.inl.inj hstep ▸ rfl)
  · rw [hscan s hs] at hstep
    cases hstep

end Counted.Identity
