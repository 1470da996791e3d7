import Counted.Ingestion.Geography

namespace Counted.Ingestion

/-! ### The grammar -/

def IsOctet (text : JsString) : Prop := isOctetText text = true ∧ parseDigits 10 text ≤ 255

/-- A dotted quad. -/
def QuadText (text : JsString) (value : ℕ) : Prop :=
  ∃ a b c d, (∀ p ∈ [a, b, c, d], IsOctet p) ∧ text = JsString.join [46] [a, b, c, d] ∧
    value = ((parseDigits 10 a * 256 + parseDigits 10 b) * 256 + parseDigits 10 c) * 256 +
      parseDigits 10 d

/-- Groups of up to four hexadecimal digits, the last two of which may be written as a quad. -/
inductive Groups : List JsString → List ℕ → Prop
  | hextets (l : List JsString) (h : ∀ g ∈ l, isHextet g = true) :
      Groups l (l.map (parseDigits 16))
  | quad (l : List JsString) (h : ∀ g ∈ l, isHextet g = true) {text : JsString} {value : ℕ}
      (hq : QuadText text value) :
      Groups (l ++ [text]) (l.map (parseDigits 16) ++ [value / 65536, value % 65536])

/-- The text forms of an IPv6 address: eight groups, or fewer around one `::`. -/
inductive V6Text : JsString → List ℕ → Prop
  | full {l : List JsString} {words : List ℕ} (h : Groups l words) (hlen : words.length = 8) :
      V6Text (JsString.join [58] l) words
  | compressed {l r : List JsString} {words : List ℕ} (hl : ∀ g ∈ l, isHextet g = true)
      (hr : Groups r words) (hlen : l.length + words.length < 8) :
      V6Text (JsString.join [58] l ++ 58 :: 58 :: JsString.join [58] r)
        (l.map (parseDigits 16) ++ List.replicate (8 - l.length - words.length) 0 ++ words)

inductive Address
  | v4 (value : ℕ)
  | v6 (words : List ℕ)

/-- The IPv4 address that an IPv6 address maps, or its first 48 bits. -/
def Address.key : Address → AddressKey
  | .v4 value => .v4 value
  | .v6 [0, 0, 0, 0, 0, 65535, g, h] => .v4 (g * 65536 + h)
  | .v6 words => .v6 (words.getD 0 0 * 2 ^ 32 + words.getD 1 0 * 2 ^ 16 + words.getD 2 0)

inductive AddressText : JsString → Address → Prop
  | v4 {text : JsString} {value : ℕ} (h : QuadText text value) : AddressText text (.v4 value)
  | v6 {text : JsString} {words : List ℕ} (h : V6Text text words) : AddressText text (.v6 words)

/-! ### Halves -/

attribute [local simp] halvesFrom

theorem halvesFrom_cons {piece rest : JsString} {u : UInt16} (h : u ≠ 58) :
    halvesFrom piece (u :: rest) = halvesFrom (piece ++ [u]) rest := by
  rw [halvesFrom]
  rintro _ rfl
  exact absurd rfl h

theorem halvesFrom_colon {piece rest : JsString} {u : UInt16} (h : u ≠ 58) :
    halvesFrom piece (58 :: u :: rest) = halvesFrom (piece ++ [58]) (u :: rest) := by
  rw [halvesFrom]
  rintro _ - heq
  exact absurd (List.cons.inj heq).1 h

theorem halvesFrom_append {g : JsString} (hg : 58 ∉ g) (piece rest : JsString) :
    halvesFrom piece (g ++ rest) = halvesFrom (piece ++ g) rest := by
  induction g generalizing piece with
  | nil => rw [List.append_nil, List.nil_append]
  | cons u g ih =>
    have hu : u ≠ 58 := fun h ↦ hg (h ▸ List.mem_cons_self)
    rw [List.cons_append, halvesFrom_cons hu, ih (fun h ↦ hg (List.mem_cons_of_mem _ h)),
      List.append_assoc, List.singleton_append]

theorem join_cons_cons (sep g g' : JsString) (l : List JsString) :
    JsString.join sep (g :: g' :: l) = g ++ (sep ++ JsString.join sep (g' :: l)) := by
  rw [JsString.join, List.intercalate_cons_cons, List.append_assoc]
  rfl

theorem join_head (sep t : JsString) (u : UInt16) (l : List JsString) :
    JsString.join sep ((u :: t) :: l) = u :: JsString.join sep (t :: l) := by
  cases l with
  | nil => simp [JsString.join]
  | cons g l => rw [join_cons_cons, join_cons_cons, List.cons_append]

/-- Groups that are not empty hold no separator. -/
theorem halvesFrom_join {l : List JsString} (hl : ∀ g ∈ l, g ≠ [] ∧ 58 ∉ g) (piece rest : JsString) :
    halvesFrom piece (JsString.join [58] l ++ rest) =
      halvesFrom (piece ++ JsString.join [58] l) rest := by
  induction l generalizing piece with
  | nil => rw [JsString.join, List.intercalate_nil, List.append_nil, List.nil_append]
  | cons g l ih =>
    obtain ⟨-, hg⟩ := hl g List.mem_cons_self
    have hrest := fun g' hg' ↦ hl g' (List.mem_cons_of_mem g hg')
    cases l with
    | nil =>
      rw [JsString.join, List.intercalate_singleton]
      exact halvesFrom_append hg piece rest
    | cons g' l =>
      obtain ⟨hne, hcolon⟩ := hrest g' List.mem_cons_self
      obtain ⟨u, t, rfl⟩ := List.exists_cons_of_ne_nil hne
      have hu : u ≠ 58 := fun h ↦ hcolon (h ▸ List.mem_cons_self)
      have hih := ih hrest (piece ++ g ++ [58])
      rw [join_cons_cons, List.append_assoc, halvesFrom_append hg]
      rw [join_head, List.cons_append] at hih ⊢
      simp only [List.cons_append, List.nil_append]
      rw [halvesFrom_colon hu, hih]
      simp only [List.append_assoc, List.cons_append, List.nil_append]

theorem halvesFrom_ne_nil (piece text : JsString) : halvesFrom piece text ≠ [] := by
  induction piece, text using halvesFrom.induct with
  | case1 piece rest ih => simp [halvesFrom]
  | case2 piece u rest h ih =>
    rwa [halvesFrom]
    exact h
  | case3 piece => simp [halvesFrom]

/-- The halves are what the text was before it was split. -/
theorem join_halvesFrom (text piece : JsString) :
    JsString.join [58, 58] (halvesFrom piece text) = piece ++ text := by
  induction piece, text using halvesFrom.induct with
  | case1 piece rest ih =>
    rw [halvesFrom]
    cases hrest : halvesFrom [] rest with
    | nil => exact absurd hrest (halvesFrom_ne_nil [] rest)
    | cons g l =>
      rw [join_cons_cons, ← hrest, ih]
      rfl
  | case2 piece u rest h ih =>
    rw [halvesFrom, ih, List.append_assoc, List.singleton_append]
    exact h
  | case3 piece => simp [halvesFrom, JsString.join]

/-! ### Numbers -/

theorem isHextet_iff {g : JsString} : isHextet g = true ↔
    g ≠ [] ∧ g.length ≤ 4 ∧ ∀ u ∈ g, isHexDigit u = true := by
  simp [isHextet, and_assoc]

theorem hextet_clean {g : JsString} (h : isHextet g = true) :
    g ≠ [] ∧ 58 ∉ g ∧ 46 ∉ g := by
  obtain ⟨hne, -, hall⟩ := isHextet_iff.1 h
  exact ⟨hne, fun hmem ↦ absurd (hall 58 hmem) (by decide),
    fun hmem ↦ absurd (hall 46 hmem) (by decide)⟩

theorem octet_clean {p : JsString} (h : IsOctet p) : p ≠ [] ∧ 58 ∉ p ∧ 46 ∉ p := by
  have hparts : p ≠ [] ∧ p.length ≤ 3 ∧ ∀ u ∈ p, isDigit u = true := by
    simpa [isOctetText, and_assoc] using h.1
  exact ⟨hparts.1, fun hmem ↦ absurd (hparts.2.2 58 hmem) (by decide),
    fun hmem ↦ absurd (hparts.2.2 46 hmem) (by decide)⟩

theorem hexDigit_value (d : ℕ) (h : d < 16) : isHexDigit (Json.hexDigit d) = true ∧
    (if Json.hexDigit d ≤ 57 then (Json.hexDigit d).toNat - 48
      else if Json.hexDigit d ≤ 70 then (Json.hexDigit d).toNat - 55
      else (Json.hexDigit d).toNat - 87) = d := by
  interval_cases d <;> decide

theorem parseDigits_hexDigits (l : List ℕ) (h : ∀ d ∈ l, d < 16) :
    parseDigits 16 (l.reverse.map Json.hexDigit) = Nat.ofDigits 16 l := by
  induction l with
  | nil => rfl
  | cons d l ih =>
    have hd := (hexDigit_value d (h d List.mem_cons_self)).2
    have hl := ih fun e he ↦ h e (List.mem_cons_of_mem _ he)
    rw [parseDigits] at hl
    rw [parseDigits, List.reverse_cons, List.map_append, List.foldl_append, hl, Nat.ofDigits_cons]
    simp only [List.map_cons, List.map_nil, List.foldl_cons, List.foldl_nil, hd]
    rw [add_comm]

/-- A word written in hexadecimal is a group that is read as the word. -/
theorem hexText_hextet {n : ℕ} (h : n < 65536) :
    isHextet (hexText n) = true ∧ parseDigits 16 (hexText n) = n := by
  rw [hexText]
  split_ifs with hzero
  · subst hzero
    exact ⟨by decide, by decide⟩
  · have hlt : ∀ d ∈ Nat.digits 16 n, d < 16 := fun d hd ↦ Nat.digits_lt_base (by decide) hd
    constructor
    · refine isHextet_iff.2 ⟨?_, ?_, ?_⟩
      · simp [Nat.digits_ne_nil_iff_ne_zero.2 hzero]
      · rw [List.length_map, List.length_reverse]
        exact (Nat.digits_length_le_iff (by decide) n).2 h
      · intro u hu
        obtain ⟨d, hd, rfl⟩ := List.mem_map.1 hu
        exact (hexDigit_value d (hlt d (List.mem_reverse.1 hd))).1
    · rw [parseDigits_hexDigits _ hlt, Nat.ofDigits_digits]

/-! ### Quads -/

theorem parseOctets_join {a b c d : JsString} (h : ∀ p ∈ [a, b, c, d], IsOctet p) :
    parseOctets (JsString.join [46] [a, b, c, d]) =
      some (((parseDigits 10 a * 256 + parseDigits 10 b) * 256 + parseDigits 10 c) * 256 +
        parseDigits 10 d) := by
  have hparts : parts (JsString.join [46] [a, b, c, d]) = [a, b, c, d] :=
    List.splitOn_intercalate 46 (fun p hp ↦ (octet_clean (h p hp)).2.2) (by simp)
  have hstep (p : JsString) (hp : p ∈ [a, b, c, d]) :
      (isOctetText p && parseDigits 10 p ≤ 255) = true := by
    simpa [IsOctet] using h p hp
  rw [parseOctets, hparts, if_neg (by simp)]
  simp only [List.foldlM_cons, List.foldlM_nil, Option.bind_eq_bind]
  rw [if_pos (hstep a (by simp)), Option.bind_some, if_pos (hstep b (by simp)), Option.bind_some,
    if_pos (hstep c (by simp)), Option.bind_some, if_pos (hstep d (by simp)), Option.bind_some,
    Nat.zero_mul, Nat.zero_add]
  rfl

theorem foldlM_octets {l : List JsString} {value result : ℕ}
    (h : l.foldlM (fun value part ↦ if isOctetText part && parseDigits 10 part ≤ 255 then
      some (value * 256 + parseDigits 10 part) else none) value = some result) :
    ∀ p ∈ l, IsOctet p := by
  induction l generalizing value with
  | nil => simp
  | cons p l ih =>
    rw [List.foldlM_cons] at h
    obtain ⟨next, hp, hl⟩ := Option.bind_eq_some_iff.1 h
    split_ifs at hp with hoctet
    intro q hq
    rcases List.mem_cons.1 hq with rfl | hq
    · simpa [IsOctet] using hoctet
    · exact ih hl q hq

theorem parseOctets_iff {text : JsString} {value : ℕ} :
    parseOctets text = some value ↔ QuadText text value := by
  constructor
  · intro h
    rw [parseOctets] at h
    split_ifs at h with hlen
    have hoctets := foldlM_octets h
    have hjoin : JsString.join [46] (parts text) = text := List.intercalate_splitOn 46
    match hparts : parts text, not_not.1 hlen with
    | [a, b, c, d], _ =>
      rw [hparts] at hoctets hjoin
      have hvalue := parseOctets_join hoctets
      rw [hjoin] at hvalue
      refine ⟨a, b, c, d, hoctets, hjoin.symm, ?_⟩
      rw [parseOctets, if_neg hlen] at hvalue
      exact Option.some.inj (h.symm.trans hvalue)
  · rintro ⟨a, b, c, d, hoctets, rfl, rfl⟩
    exact parseOctets_join hoctets

theorem QuadText.lt {text : JsString} {value : ℕ} (h : QuadText text value) :
    value < 65536 * 65536 := by
  obtain ⟨a, b, c, d, hoctets, -, rfl⟩ := h
  have ha := (hoctets a (by simp)).2
  have hb := (hoctets b (by simp)).2
  have hc := (hoctets c (by simp)).2
  have hd := (hoctets d (by simp)).2
  omega

/-- A quad is not empty, holds a dot, and no colon. -/
theorem QuadText.shape {text : JsString} {value : ℕ} (h : QuadText text value) :
    text ≠ [] ∧ 58 ∉ text ∧ 46 ∈ text := by
  obtain ⟨a, b, c, d, hoctets, rfl, -⟩ := h
  have ha := octet_clean (hoctets a (by simp))
  have hb := octet_clean (hoctets b (by simp))
  have hc := octet_clean (hoctets c (by simp))
  have hd := octet_clean (hoctets d (by simp))
  simp [JsString.join, ha.1, ha.2.1, hb.2.1, hc.2.1, hd.2.1]

/-! ### Groups -/

theorem expandTail_hextets {l : List JsString} (h : ∀ g ∈ l, isHextet g = true) :
    expandTail l = some l := by
  rw [expandTail]
  cases hlast : l.getLast? with
  | none => rfl
  | some last =>
    have hclean := (hextet_clean (h last (List.mem_of_getLast? hlast))).2.2
    exact if_neg (by simpa using hclean)

/-- The groups that the grammar reads are those that are hexadecimal once a quad is rewritten. -/
theorem groups_iff {l : List JsString} {words : List ℕ} : Groups l words ↔
    ∃ e, expandTail l = some e ∧ (∀ g ∈ e, isHextet g = true) ∧
      words = e.map (parseDigits 16) := by
  constructor
  · intro h
    cases h with
    | hextets _ h => exact ⟨l, expandTail_hextets h, h, rfl⟩
    | @quad l h text value hq =>
      have hhigh := hexText_hextet (n := value / 65536) (Nat.div_lt_of_lt_mul hq.lt)
      have hlow := hexText_hextet (n := value % 65536) (Nat.mod_lt _ (by decide))
      refine ⟨l ++ [hexText (value / 65536), hexText (value % 65536)], ?_, ?_, ?_⟩
      · rw [expandTail, List.getLast?_concat]
        dsimp only
        rw [if_pos (by simpa using hq.shape.2.2), parseOctets_iff.2 hq, List.dropLast_concat]
        rfl
      · intro g hg
        rcases List.mem_append.1 hg with hg | hg
        · exact h g hg
        · rcases List.mem_pair.1 hg with rfl | rfl
          · exact hhigh.1
          · exact hlow.1
      · rw [List.map_append, List.map_cons, List.map_cons, hhigh.2, hlow.2]
        rfl
  · rintro ⟨e, he, hall, rfl⟩
    rw [expandTail] at he
    cases hlast : l.getLast? with
    | none =>
      rw [hlast] at he
      obtain rfl := Option.some.inj he
      exact .hextets l hall
    | some last =>
      rw [hlast] at he
      dsimp only at he
      split_ifs at he with hdot
      · obtain ⟨packed, hpacked, rfl⟩ := Option.map_eq_some_iff.1 he
        have hq := parseOctets_iff.1 hpacked
        have hl : l = l.dropLast ++ [last] := (List.dropLast_append_getLast? last hlast).symm
        have hhigh := hexText_hextet (n := packed / 65536) (Nat.div_lt_of_lt_mul hq.lt)
        have hlow := hexText_hextet (n := packed % 65536) (Nat.mod_lt _ (by decide))
        have hgroups := Groups.quad l.dropLast (fun g hg ↦ hall g (List.mem_append_left _ hg)) hq
        rw [← hl] at hgroups
        rw [List.map_append, List.map_cons, List.map_cons, hhigh.2, hlow.2]
        exact hgroups
      · obtain rfl := Option.some.inj he
        exact .hextets l hall

theorem Groups.clean {l : List JsString} {words : List ℕ} (h : Groups l words) :
    ∀ g ∈ l, g ≠ [] ∧ 58 ∉ g := by
  cases h with
  | hextets _ h => exact fun g hg ↦ ⟨(hextet_clean (h g hg)).1, (hextet_clean (h g hg)).2.1⟩
  | quad l h hq =>
    intro g hg
    rcases List.mem_append.1 hg with hg | hg
    · exact ⟨(hextet_clean (h g hg)).1, (hextet_clean (h g hg)).2.1⟩
    · rw [List.mem_singleton.1 hg]
      exact ⟨hq.shape.1, hq.shape.2.1⟩

theorem hextetsOf_join {l : List JsString} (h : ∀ g ∈ l, g ≠ [] ∧ 58 ∉ g) :
    hextetsOf (JsString.join [58] l) = l := by
  cases l with
  | nil => rfl
  | cons g l =>
    have hne : JsString.join [58] (g :: l) ≠ [] := by
      obtain ⟨u, t, rfl⟩ := List.exists_cons_of_ne_nil (h g List.mem_cons_self).1
      rw [join_head]
      exact List.cons_ne_nil _ _
    rw [hextetsOf, if_neg hne]
    exact List.splitOn_intercalate 58 (fun g hg ↦ (h g hg).2) (by simp)

theorem join_hextetsOf (half : JsString) : JsString.join [58] (hextetsOf half) = half := by
  rw [hextetsOf]
  split_ifs with hnil
  · rw [hnil]
    rfl
  · exact List.intercalate_splitOn 58

theorem keyOfHextets_eq {e : List JsString} (hlen : e.length = 8)
    (hall : ∀ g ∈ e, isHextet g = true) :
    keyOfHextets e = some (Address.v6 (e.map (parseDigits 16))).key := by
  have hlen' : (e.map (parseDigits 16)).length = 8 := by rw [List.length_map, hlen]
  rw [keyOfHextets, if_pos (by simpa [hlen] using hall)]
  generalize e.map (parseDigits 16) = words at hlen' ⊢
  match words, hlen' with
  | [a, b, c, d, x, y, g, h], _ =>
    by_cases hmapped : a = 0 ∧ b = 0 ∧ c = 0 ∧ d = 0 ∧ x = 0 ∧ y = 65535
    · obtain ⟨rfl, rfl, rfl, rfl, rfl, rfl⟩ := hmapped
      rfl
    · have hkey : (Address.v6 [a, b, c, d, x, y, g, h]).key =
          .v6 (a * 2 ^ 32 + b * 2 ^ 16 + c) := by
        unfold Address.key
        split
        · rename_i heq
          simp_all
        · rename_i heq
          simp_all
        · rename_i words hno heq
          obtain rfl := Address.v6.inj heq
          rfl
      rw [hkey]
      split
      · simp_all
      · simp_all
      · rename_i hno
        exact (hno a b c [d, x, y, g, h] rfl).elim

theorem keyOfHextets_some {e : List JsString} {key : AddressKey} (h : keyOfHextets e = some key) :
    e.length = 8 ∧ ∀ g ∈ e, isHextet g = true := by
  rw [keyOfHextets] at h
  split_ifs at h with hall
  simpa using hall

/-! ### What the reader reads -/

/-- The groups on the two sides of `::`, a quad among the last of them rewritten. -/
def sidesOf (before after : JsString) : Option (List JsString × List JsString) :=
  if hextetsOf after = [] then (expandTail (hextetsOf before)).map (·, [])
  else (expandTail (hextetsOf after)).map (hextetsOf before, ·)

/-- Around the only `::` there are more than eight groups; or they are hexadecimal once a quad is
rewritten, and there are eight of them or the quad does not end the text. -/
def Misread (text : JsString) : Prop :=
  ∃ before after left right, halvesFrom [] text = [before, after] ∧
    sidesOf before after = some (left, right) ∧
    (8 < left.length + right.length ∨ left.length + right.length ≤ 8 ∧
      (∀ g ∈ left ++ right, isHextet g = true) ∧
        (left.length + right.length = 8 ∨ left ≠ hextetsOf before))

theorem parseV6Key_whole {text whole : JsString} (h : halvesFrom [] text = [whole]) :
    parseV6Key text = .ok ((expandTail (hextetsOf whole)).bind keyOfHextets) := by
  rw [parseV6Key, h]

theorem parseV6Key_halves {text before after : JsString} (h : halvesFrom [] text = [before, after]) :
    parseV6Key text = match sidesOf before after with
      | none => .ok none
      | some (left, right) =>
        if 8 < left.length + right.length then .error invalidArrayLength
        else .ok (keyOfHextets
          (left ++ List.replicate (8 - left.length - right.length) (js "0") ++ right)) := by
  rw [parseV6Key, h, sidesOf]
  dsimp only
  by_cases hnil : hextetsOf after = []
  · rw [if_pos hnil, if_pos hnil, hnil] <;> rfl
  · rw [if_neg hnil, if_neg hnil] <;> rfl

theorem halves_whole {l : List JsString} (h : ∀ g ∈ l, g ≠ [] ∧ 58 ∉ g) :
    halvesFrom [] (JsString.join [58] l) = [JsString.join [58] l] := by
  have hjoin := halvesFrom_join h [] []
  rw [List.append_nil, List.nil_append] at hjoin
  rw [hjoin, halvesFrom]

theorem halves_sides {l r : List JsString} (hl : ∀ g ∈ l, g ≠ [] ∧ 58 ∉ g)
    (hr : ∀ g ∈ r, g ≠ [] ∧ 58 ∉ g) :
    halvesFrom [] (JsString.join [58] l ++ 58 :: 58 :: JsString.join [58] r) =
      [JsString.join [58] l, JsString.join [58] r] := by
  rw [halvesFrom_join hl, List.nil_append, halvesFrom, halves_whole hr]

theorem isHextet_zero : isHextet (js "0") = true := by decide

theorem sides_of_groups {l r : List JsString} {words : List ℕ}
    (hl : ∀ g ∈ l, isHextet g = true) (hr : Groups r words) :
    ∃ e, sidesOf (JsString.join [58] l) (JsString.join [58] r) = some (l, e) ∧
      (∀ g ∈ e, isHextet g = true) ∧ words = e.map (parseDigits 16) := by
  obtain ⟨e, he, hall, hwords⟩ := groups_iff.1 hr
  have hclean : ∀ g ∈ l, g ≠ [] ∧ 58 ∉ g :=
    fun g hg ↦ ⟨(hextet_clean (hl g hg)).1, (hextet_clean (hl g hg)).2.1⟩
  refine ⟨e, ?_, hall, hwords⟩
  rw [sidesOf, hextetsOf_join hclean, hextetsOf_join hr.clean, he, expandTail_hextets hl]
  split_ifs with hnil
  · subst hnil
    obtain rfl := Option.some.inj he
    rfl
  · rfl

/-- Of a text of the grammar nothing is misread, and its key is found. -/
theorem parseV6Key_of_text {text : JsString} {words : List ℕ} (h : V6Text text words) :
    ¬ Misread text ∧ parseV6Key text = .ok (some (Address.v6 words).key) := by
  cases h with
  | @full l words hl hlen =>
    obtain ⟨e, he, hall, rfl⟩ := groups_iff.1 hl
    rw [List.length_map] at hlen
    have hhalves := halves_whole hl.clean
    constructor
    · rintro ⟨before, after, left, right, htwo, -⟩
      rw [hhalves] at htwo
      exact absurd htwo (by simp)
    · rw [parseV6Key_whole hhalves, hextetsOf_join hl.clean, he, Option.bind_some,
        keyOfHextets_eq hlen hall]
  | @compressed l r words hl hr hlen =>
    have hclean : ∀ g ∈ l, g ≠ [] ∧ 58 ∉ g :=
      fun g hg ↦ ⟨(hextet_clean (hl g hg)).1, (hextet_clean (hl g hg)).2.1⟩
    have hhalves := halves_sides hclean hr.clean
    obtain ⟨e, hsides, hall, rfl⟩ := sides_of_groups hl hr
    rw [List.length_map] at hlen
    constructor
    · rintro ⟨before, after, left, right, htwo, hsides', hwrong⟩
      rw [hhalves] at htwo
      obtain ⟨rfl, htail⟩ := List.cons.inj htwo
      obtain rfl := (List.cons.inj htail).1
      obtain ⟨rfl, rfl⟩ := Prod.mk.inj (Option.some.inj (hsides.symm.trans hsides'))
      rw [hextetsOf_join hclean] at hwrong
      rcases hwrong with hmany | ⟨-, -, height | hquad⟩
      · omega
      · omega
      · exact hquad rfl
    · rw [parseV6Key_halves hhalves, hsides]
      dsimp only
      rw [if_neg (by omega), keyOfHextets_eq]
      · rw [List.map_append, List.map_append, List.map_replicate, List.length_map]
        rfl
      · simp only [List.length_append, List.length_replicate]
        omega
      · intro g hg
        rcases List.mem_append.1 hg with hg | hg
        · rcases List.mem_append.1 hg with hg | hg
          · exact hl g hg
          · rw [List.eq_of_mem_replicate hg]
            exact isHextet_zero
        · exact hall g hg

/-- A text that is misread has a key or stops the reader. -/
theorem parseV6Key_of_misread {text : JsString} (h : Misread text) :
    parseV6Key text = .error invalidArrayLength ∨ ∃ key, parseV6Key text = .ok (some key) := by
  obtain ⟨before, after, left, right, hhalves, hsides, hwrong⟩ := h
  rw [parseV6Key_halves hhalves, hsides]
  dsimp only
  rcases hwrong with hmany | ⟨hfew, hall, -⟩
  · exact .inl (if_pos hmany)
  · rw [if_neg (by omega), keyOfHextets_eq]
    · exact .inr ⟨_, rfl⟩
    · simp only [List.length_append, List.length_replicate]
      omega
    · intro g hg
      rcases List.mem_append.1 hg with hg | hg
      · rcases List.mem_append.1 hg with hg | hg
        · exact hall g (List.mem_append_left _ hg)
        · rw [List.eq_of_mem_replicate hg]
          exact isHextet_zero
      · exact hall g (List.mem_append_right _ hg)

/-- A key is found for a text of the grammar, or for one that is misread. -/
theorem text_of_parseV6Key {text : JsString} {key : AddressKey}
    (h : parseV6Key text = .ok (some key)) (hread : ¬ Misread text) :
    ∃ words, V6Text text words ∧ (Address.v6 words).key = key := by
  have hjoin := join_halvesFrom text []
  rw [List.nil_append] at hjoin
  match hhalves : halvesFrom [] text with
  | [] => exact absurd hhalves (halvesFrom_ne_nil [] text)
  | [whole] =>
    rw [hhalves] at hjoin
    obtain rfl : whole = text := (List.intercalate_singleton ..).symm.trans hjoin
    rw [parseV6Key_whole hhalves] at h
    obtain ⟨e, he, hkey⟩ := Option.bind_eq_some_iff.1 (Except.ok.inj h)
    obtain ⟨hlen, hall⟩ := keyOfHextets_some hkey
    have hgroups := groups_iff.2 ⟨e, he, hall, rfl⟩
    have hfull := V6Text.full hgroups (by rw [List.length_map, hlen])
    rw [join_hextetsOf] at hfull
    exact ⟨_, hfull, Option.some.inj ((keyOfHextets_eq hlen hall).symm.trans hkey)⟩
  | [before, after] =>
    rw [hhalves] at hjoin
    have htext : text = before ++ 58 :: 58 :: after := by
      rw [← hjoin, join_cons_cons, JsString.join, List.intercalate_singleton]
      rfl
    rw [parseV6Key_halves hhalves] at h
    cases hsides : sidesOf before after with
    | none =>
      rw [hsides] at h
      exact absurd h (by simp)
    | some sides =>
      obtain ⟨left, right⟩ := sides
      rw [hsides] at h
      dsimp only at h
      split_ifs at h with hmany
      obtain hkey := Except.ok.inj h
      obtain ⟨hlen, hall⟩ := keyOfHextets_some hkey
      have hside : ∀ g ∈ left ++ right, isHextet g = true := by
        intro g hg
        rcases List.mem_append.1 hg with hg | hg
        · exact hall g (List.mem_append_left _ (List.mem_append_left _ hg))
        · exact hall g (List.mem_append_right _ hg)
      have hfew : left.length + right.length ≠ 8 := fun height ↦
        hread ⟨before, after, left, right, hhalves, hsides, .inr ⟨height.le, hside, .inl height⟩⟩
      have hleft : left = hextetsOf before := by
        by_contra hquad
        exact hread ⟨before, after, left, right, hhalves, hsides,
          .inr ⟨not_lt.1 hmany, hside, .inr hquad⟩⟩
      have hright : expandTail (hextetsOf after) = some right := by
        rw [sidesOf] at hsides
        split_ifs at hsides with hnil
        · obtain ⟨e, -, heq⟩ := Option.map_eq_some_iff.1 hsides
          rw [hnil, ← (Prod.mk.inj heq).2]
          rfl
        · obtain ⟨e, he, heq⟩ := Option.map_eq_some_iff.1 hsides
          rw [he, (Prod.mk.inj heq).2]
      have hgroups := groups_iff.2
        ⟨right, hright, fun g hg ↦ hside g (List.mem_append_right _ hg), rfl⟩
      have hcompressed := V6Text.compressed (l := left)
        (fun g hg ↦ hside g (List.mem_append_left _ hg)) hgroups
        (by rw [List.length_map]; omega)
      rw [hleft, join_hextetsOf, join_hextetsOf, ← htext, ← hleft] at hcompressed
      refine ⟨_, hcompressed, ?_⟩
      rw [← Option.some.inj ((keyOfHextets_eq hlen hall).symm.trans hkey)]
      rw [List.map_append, List.map_append, List.map_replicate, List.length_map]
      rfl
  | a :: b :: c :: l =>
    rw [parseV6Key, hhalves] at h
    exact absurd h (by simp)

theorem misread_of_error {text : JsString} {e : JsString} (h : parseV6Key text = .error e) :
    Misread text := by
  match hhalves : halvesFrom [] text with
  | [] => exact absurd hhalves (halvesFrom_ne_nil [] text)
  | [whole] =>
    rw [parseV6Key_whole hhalves] at h
    exact absurd h (by simp)
  | [before, after] =>
    rw [parseV6Key_halves hhalves] at h
    cases hsides : sidesOf before after with
    | none =>
      rw [hsides] at h
      exact absurd h (by simp)
    | some sides =>
      rw [hsides] at h
      dsimp only at h
      split_ifs at h with hmany
      exact ⟨before, after, sides.1, sides.2, hhalves, hsides, .inl hmany⟩
  | a :: b :: c :: l =>
    rw [parseV6Key, hhalves] at h
    exact absurd h (by simp)

theorem V6Text.colon {text : JsString} {words : List ℕ} (h : V6Text text words) : 58 ∈ text := by
  cases h with
  | @full l words hl hlen =>
    have htwo : 2 ≤ l.length := by
      cases hl with
      | hextets _ h =>
        rw [List.length_map] at hlen
        omega
      | quad l h hq =>
        rw [List.length_append, List.length_map, List.length_cons, List.length_singleton] at hlen
        rw [List.length_append, List.length_singleton]
        omega
    match l, htwo with
    | g :: g' :: l, _ =>
      rw [join_cons_cons]
      exact List.mem_append_right _ List.mem_cons_self
  | compressed hl hr hlen => exact List.mem_append_right _ List.mem_cons_self

theorem not_misread_of_whole {text : JsString} (h : halvesFrom [] text = [text]) :
    ¬ Misread text := by
  rintro ⟨before, after, left, right, htwo, -⟩
  rw [h] at htwo
  exact absurd htwo (by simp)

theorem halves_of_no_colon {text : JsString} (h : 58 ∉ text) : halvesFrom [] text = [text] := by
  have hwhole := halvesFrom_append h [] []
  rw [List.append_nil, List.nil_append] at hwhole
  rw [hwhole, halvesFrom]

/-- A port stands behind a text without colons, and holds digits only. -/
theorem quadWithPort_some {text quad : JsString} (h : quadWithPort text = some quad) :
    ∃ port, text = quad ++ 58 :: port ∧ 58 ∉ quad ∧ port ≠ [] ∧ 58 ∉ port := by
  unfold quadWithPort at h
  extract_lets quad' at h
  have htake : 58 ∉ text.takeWhile (· ≠ 58) := fun hmem ↦ by
    simpa using List.mem_takeWhile_imp hmem
  split at h
  · rename_i port hdrop
    split_ifs at h with hall
    obtain rfl := Option.some.inj h
    simp only [Bool.and_eq_true, decide_eq_true_eq, List.all_eq_true] at hall
    refine ⟨port, ?_, htake, hall.1.2, fun hmem ↦ absurd (hall.2 58 hmem) (by decide)⟩
    rw [← hdrop]
    exact (List.prefix_iff_eq_append.1 (List.takeWhile_prefix _)).symm
  · exact absurd h (by simp)

theorem not_misread_of_port {text quad : JsString} (h : quadWithPort text = some quad) :
    ¬ Misread text := by
  obtain ⟨port, rfl, hquad, hne, hport⟩ := quadWithPort_some h
  obtain ⟨u, rest, rfl⟩ := List.exists_cons_of_ne_nil hne
  have hu : u ≠ 58 := fun heq ↦ hport (heq ▸ List.mem_cons_self)
  apply not_misread_of_whole
  have hrest := halvesFrom_append hport (quad ++ [58]) []
  rw [List.append_nil] at hrest
  rw [halvesFrom_append hquad, halvesFrom_colon hu, List.nil_append, hrest, halvesFrom,
    List.append_assoc]
  rfl

theorem quadWithPort_eq_none {text : JsString} (h : 58 ∉ text) : quadWithPort text = none := by
  cases hquad : quadWithPort text with
  | none => rfl
  | some quad =>
    obtain ⟨port, rfl, -⟩ := quadWithPort_some hquad
    exact absurd (List.mem_append_right _ List.mem_cons_self) h

/-! ### An entry -/

/-- What is left of an entry without its brackets and its zone. -/
def entryText (raw : JsString) : JsString :=
  ((bracketed raw.trim).getD raw.trim).takeWhile (· ≠ 37)

/-- What is left of an entry without its brackets, its zone and its port. -/
def addressText (raw : JsString) : JsString := (quadWithPort (entryText raw)).getD (entryText raw)

def Short (raw : JsString) : Prop := 1 ≤ raw.trim.length ∧ raw.trim.length ≤ 64

def Denotes (raw : JsString) (a : Address) : Prop := Short raw ∧ AddressText (addressText raw) a

/-- The reader does not stop, and finds the key of what the entry denotes, or none. -/
def ReadExactly (raw : JsString) : Prop :=
  ∃ found, addressKey raw = .ok found ∧ ∀ key, found = some key ↔ ∃ a, Denotes raw a ∧ a.key = key

variable {raw : JsString}

theorem addressKey_of_short (h : Short raw) : addressKey raw =
    if (entryText raw).contains 58 then
      match quadWithPort (entryText raw) with
      | some quad => .ok ((parseOctets quad).map .v4)
      | none => parseV6Key (entryText raw)
    else .ok ((parseOctets (entryText raw)).map .v4) := by
  have hlen : (raw.trim.length = 0 || 64 < raw.trim.length) = false := by
    obtain ⟨hlow, hhigh⟩ := h
    rw [decide_eq_false (by omega), decide_eq_false (by omega)]
    rfl
  rw [addressKey]
  dsimp only
  rw [hlen]
  rfl

theorem readExactly_of_long (h : ¬ Short raw) : ReadExactly raw := by
  have hlen : (raw.trim.length = 0 || 64 < raw.trim.length) = true := by
    rw [Short] at h
    rw [Bool.or_eq_true, decide_eq_true_eq, decide_eq_true_eq]
    omega
  refine ⟨none, ?_, fun key ↦ iff_of_false (by simp) ?_⟩
  · rw [addressKey]
    dsimp only
    rw [hlen]
    rfl
  · rintro ⟨a, ⟨hshort, -⟩, -⟩
    exact h hshort

/-- A text without colons is a quad or nothing. -/
theorem readExactly_of_quad (hshort : Short raw) (hcolon : 58 ∉ addressText raw)
    (hkey : addressKey raw = .ok ((parseOctets (addressText raw)).map .v4)) : ReadExactly raw := by
  refine ⟨_, hkey, fun key ↦ ?_⟩
  constructor
  · intro h
    obtain ⟨value, hvalue, rfl⟩ := Option.map_eq_some_iff.1 h
    exact ⟨.v4 value, ⟨hshort, .v4 (parseOctets_iff.1 hvalue)⟩, rfl⟩
  · rintro ⟨a, ⟨-, ha⟩, rfl⟩
    cases ha with
    | v4 h => exact congrArg (Option.map AddressKey.v4) (parseOctets_iff.2 h)
    | v6 h => exact absurd h.colon hcolon

theorem readExactly_iff : ReadExactly raw ↔ (Short raw → ¬ Misread (entryText raw)) := by
  by_cases hshort : Short raw
  · rw [forall_prop_of_true hshort]
    have hread := addressKey_of_short hshort
    by_cases hcolon : 58 ∈ entryText raw
    · rw [if_pos (by simpa using hcolon)] at hread
      cases hport : quadWithPort (entryText raw) with
      | some quad =>
        have htext : addressText raw = quad := by rw [addressText, hport, Option.getD_some]
        rw [hport] at hread
        obtain ⟨port, -, hquad, -⟩ := quadWithPort_some hport
        refine iff_of_true (readExactly_of_quad hshort ?_ ?_) (not_misread_of_port hport)
        · rwa [htext]
        · rw [hread, htext]
      | none =>
        have htext : addressText raw = entryText raw := by rw [addressText, hport, Option.getD_none]
        rw [hport] at hread
        dsimp only at hread
        have hdenotes (a : Address) : Denotes raw a ↔ ∃ words, V6Text (entryText raw) words ∧ .v6 words = a := by
          rw [Denotes, htext]
          constructor
          · rintro ⟨-, ha⟩
            cases ha with
            | v4 h => exact absurd hcolon h.shape.2.1
            | v6 h => exact ⟨_, h, rfl⟩
          · rintro ⟨words, h, rfl⟩
            exact ⟨hshort, .v6 h⟩
        constructor
        · rintro ⟨found, hfound, hkeys⟩ hmisread
          rw [hread] at hfound
          rcases parseV6Key_of_misread hmisread with herror | ⟨key, hkey⟩
          · exact absurd (herror.symm.trans hfound) (by simp)
          · obtain ⟨a, ha, -⟩ := (hkeys key).1 (Except.ok.inj (hfound.symm.trans hkey))
            obtain ⟨words, hwords, -⟩ := (hdenotes a).1 ha
            exact (parseV6Key_of_text hwords).1 hmisread
        · intro hmisread
          cases hfound : parseV6Key (entryText raw) with
          | error e => exact absurd (misread_of_error hfound) hmisread
          | ok found =>
            refine ⟨found, hread.trans hfound, fun key ↦ ?_⟩
            constructor
            · rintro rfl
              obtain ⟨words, hwords, hkey⟩ := text_of_parseV6Key hfound hmisread
              exact ⟨.v6 words, (hdenotes _).2 ⟨words, hwords, rfl⟩, hkey⟩
            · rintro ⟨a, ha, rfl⟩
              obtain ⟨words, hwords, rfl⟩ := (hdenotes a).1 ha
              exact Except.ok.inj (hfound.symm.trans (parseV6Key_of_text hwords).2)
    · rw [if_neg (by simpa using hcolon)] at hread
      have htext : addressText raw = entryText raw := by
        rw [addressText, quadWithPort_eq_none hcolon, Option.getD_none]
      refine iff_of_true (readExactly_of_quad hshort ?_ ?_)
        (not_misread_of_whole (halves_of_no_colon hcolon))
      · rwa [htext]
      · rw [hread, htext]
  · exact iff_of_true (readExactly_of_long hshort) fun h ↦ absurd h hshort

theorem Denotes.not_misread {a : Address} (h : Denotes raw a) : ¬ Misread (entryText raw) := by
  cases hport : quadWithPort (entryText raw) with
  | some quad => exact not_misread_of_port hport
  | none =>
    have htext : addressText raw = entryText raw := by rw [addressText, hport, Option.getD_none]
    have ha := htext ▸ h.2
    cases ha with
    | v4 hquad => exact not_misread_of_whole (halves_of_no_colon hquad.shape.2.1)
    | v6 hwords => exact (parseV6Key_of_text hwords).1

/-- Every entry is read exactly but those that are misread; and all the forms of one address have
one key. -/
theorem address_key_exact_iff (raw raw' : JsString) (a : Address) :
    (ReadExactly raw ↔ (Short raw → ¬ Misread (entryText raw))) ∧
      (Denotes raw a → Denotes raw' a → addressKey raw = addressKey raw') := by
  refine ⟨readExactly_iff, fun h h' ↦ ?_⟩
  have hkey (raw : JsString) (h : Denotes raw a) : addressKey raw = .ok (some a.key) := by
    obtain ⟨found, hfound, hkeys⟩ := readExactly_iff.2 fun _ ↦ h.not_misread
    rw [hfound, (hkeys a.key).2 ⟨a, h, rfl⟩]
  rw [hkey raw h, hkey raw' h']

/-- The loopback address, in brackets with a port, and written out. -/
theorem address_key_exact_sample :
    addressKey (js "[::1]:443") = addressKey (js "0:0:0:0:0:0:0:01") := by
  refine (address_key_exact_iff _ _ (.v6 [0, 0, 0, 0, 0, 0, 0, 1])).2
    ⟨⟨by decide, by decide⟩, .v6 ?_⟩ ⟨⟨by decide, by decide⟩, .v6 ?_⟩
  · exact .compressed (l := []) (r := [js "1"]) (by simp) (.hextets _ (by decide)) (by decide)
  · exact .full (l := [js "0", js "0", js "0", js "0", js "0", js "0", js "0", js "01"])
      (.hextets _ (by decide)) rfl

/-- Nine groups before `::` stop the reader; eight are read, as if `::` stood for none, and so is a
quad before it. -/
theorem address_key_misreads :
    addressKey (js "1:2:3:4:5:6:7:8:9::") = .error invalidArrayLength ∧
    addressKey (js "1:2:3:4:5:6:7:8::") = .ok (some (.v6 0x000100020003)) ∧
    addressKey (js "1.2.3.4::") = .ok (some (.v6 0x010203040000)) := by
  decide

end Counted.Ingestion
