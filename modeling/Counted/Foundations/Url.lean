import Counted.Foundations.PercentEncoding

namespace Counted.Foundations

/-! How the URL standard resolves a reference that begins with a slash, where the scheme is `http`
or `https`. -/

structure Origin where
  secure : Bool
  host : Units
  port : Option ℕ
  deriving DecidableEq

structure Url where
  origin : Origin
  path : List Units
  query : Option Units
  fragment : Option Units

/-- The rest of the parser: references that name a host, after their two slashes, and those that do
not begin with a slash. -/
structure UrlParser where
  network : Bool → Units → Option Url
  other : Origin → Units → Option Url

/-- A slash, or the backslash that counts as one. -/
def isSlash (u : UInt16) : Bool := u == 47 || u == 92

def isBlank (u : UInt16) : Bool := u ≤ 32

def isTabOrNewline (u : UInt16) : Bool := u == 9 || u == 10 || u == 13

/-- Without blanks at its ends, and without tabs and newlines anywhere. -/
def stripped (s : Units) : Units :=
  ((s.dropWhile isBlank).rdropWhile isBlank).filter (!isTabOrNewline ·)

/-- What stands before the first `d`, and after it. -/
def cut (d : UInt16) (s : Units) : Units × Option Units :=
  (s.takeWhile (· ≠ d), (s.dropWhile (· ≠ d)).tail?)

/-! ### Dot segments -/

def after (d : UInt16 → Bool) : Units → Option Units
  | [] => none
  | u :: s => if d u then some s else none

/-- The segment without a dot at its front, which may be escaped. -/
def afterDot : Units → Option Units
  | [] => none
  | u :: s =>
    if u = 46 then some s
    else if u = 37 then (after (· == 50) s).bind (after (fun e ↦ e == 69 || e == 101))
    else none

def isDot (s : Units) : Bool := afterDot s = some []

def isDoubleDot (s : Units) : Bool := (afterDot s).bind afterDot = some []

/-- What a segment with a slash after it does to the path. -/
def descend (path : List Units) (s : Units) : List Units :=
  if isDoubleDot s then path.dropLast else if isDot s then path else path ++ [s]

/-- What the last segment does. -/
def arrive (path : List Units) (s : Units) : List Units :=
  if isDoubleDot s then path.dropLast ++ [[]] else if isDot s then path ++ [[]] else path ++ [s]

def walk (path : List Units) : List Units → List Units
  | [] => path
  | [s] => arrive path s
  | s :: t :: rest => walk (descend path s) (t :: rest)

/-! ### Resolving -/

def keptInFragment (p : ℕ) : Bool := 33 ≤ p && p ≤ 126 && p ∉ [34, 60, 62, 96]

def keptInQuery (p : ℕ) : Bool := 33 ≤ p && p ≤ 126 && p ∉ [34, 35, 39, 60, 62]

def keptInPath (p : ℕ) : Bool := 33 ≤ p && p ≤ 126 && p ∉ [34, 35, 60, 62, 63, 94, 96, 123, 125]

/-- The segments of the path of a reference, after its first slash. -/
def segments (s : Units) : List Units := (cut 63 (cut 35 s).1).1.splitOnP isSlash

/-- A reference after its slash, on the host of its base. -/
def localUrl (base : Origin) (s : Units) : Url :=
  let (beforeFragment, fragment) := cut 35 s
  let (_, query) := cut 63 beforeFragment
  { origin := base
    path := walk [] ((segments s).map (percentEncode keptInPath))
    query := query.map (percentEncode keptInQuery)
    fragment := fragment.map (percentEncode keptInFragment) }

def resolve (parser : UrlParser) (base : Origin) (reference : Units) : Option Url :=
  match stripped reference with
  | [] => parser.other base []
  | u :: s =>
    if isSlash u then
      match s with
      | [] => some (localUrl base [])
      | v :: t => if isSlash v then parser.network base.secure t else some (localUrl base (v :: t))
    else parser.other base (u :: s)

namespace Url

def pathname (u : Url) : Units := u.path.flatMap (fun s ↦ 47 :: s)

/-- The text after its mark, where there is any. -/
def marked (mark : UInt16) : Option Units → Units
  | none | some [] => []
  | some (u :: s) => mark :: u :: s

def search (u : Url) : Units := marked 63 u.query

def hash (u : Url) : Units := marked 35 u.fragment

end Url

/-! ### Dot segments of encoded text -/

variable {kept : ℕ → Bool} {base : Origin} {parser : UrlParser} {d u : UInt16} {a b r s : Units}
  {path l rest : List Units}

attribute [local simp] after afterDot walk

theorem after_percentEncode {c : UInt16 → Bool} (hc : ∀ u, c u = true → Plain kept u)
    (hpercent : c 37 = false) :
    after c (percentEncode kept s) = (after c s).map (percentEncode kept) := by
  obtain rfl | ⟨u, t, rfl, -, hcons⟩ | ⟨u, t, b, r, rfl, hu, -, -, hescape⟩ :=
    percentEncode_cases kept s
  · rfl
  · rw [hcons, after, after]
    split_ifs <;> rfl
  · have hcu : ¬ c u = true := fun h ↦ hu (hc u h)
    rw [hescape, escapeByte, List.cons_append, after, after, hpercent, if_neg Bool.false_ne_true,
      if_neg hcu, Option.map_none]

/-- Only the escape of a dot counts as one. -/
theorem afterDot_escapeByte {b : ℕ} (hb : b < 256) (hne : b ≠ 46) :
    afterDot (escapeByte b ++ r) = none := by
  have hdigits : ¬ (hexDigit (b / 16) = 50 ∧
      (hexDigit (b % 16) = 69 ∨ hexDigit (b % 16) = 101)) := by
    simp only [← UInt16.toNat_inj, hexDigit_toNat (by omega : b / 16 < 16),
      hexDigit_toNat (by omega : b % 16 < 16), UInt16.reduceToNat]
    split_ifs <;> omega
  simp only [escapeByte, List.cons_append, List.nil_append, afterDot, after, beq_iff_eq,
    Bool.or_eq_true]
  rw [if_neg (by decide), if_true]
  by_cases h : hexDigit (b / 16) = 50
  · rw [if_pos h, Option.bind_some, after, if_neg]
    simp only [Bool.or_eq_true, beq_iff_eq]
    exact fun h' ↦ hdigits ⟨h, h'⟩
  · rw [if_neg h, Option.bind_none]

/-- The characters dots and their escapes are written with stay. -/
structure KeepsDots (kept : ℕ → Bool) : Prop extends Stable kept where
  dot : kept 46 = true
  lower : kept 101 = true

theorem afterDot_percentEncode (hk : KeepsDots kept) :
    afterDot (percentEncode kept s) = (afterDot s).map (percentEncode kept) := by
  have hdigit {n : ℕ} (hn : n < 16) : Plain kept (hexDigit n) := Escape.plain hk.toStable (.inr ⟨n, hn, rfl⟩)
  obtain rfl | ⟨u, t, rfl, -, hcons⟩ | ⟨u, t, b, r, rfl, hu, hb, hbk, hescape⟩ :=
    percentEncode_cases kept s
  · rfl
  · rw [hcons, afterDot, afterDot]
    split_ifs
    · rfl
    · rw [after_percentEncode _ rfl]
      · cases after (· == 50) t with
        | none => rfl
        | some t' =>
          refine after_percentEncode (fun v hv ↦ ?_) rfl
          rcases Bool.or_eq_true_iff.1 hv with hv | hv
          · rw [beq_iff_eq.1 hv]
            exact hdigit (n := 14) (by decide)
          · rw [beq_iff_eq.1 hv]
            exact ⟨by decide, hk.lower⟩
      · intro v hv
        rw [beq_iff_eq.1 hv]
        exact hdigit (n := 2) (by decide)
    · rfl
  · have hne : b ≠ 46 := by
      rintro rfl
      exact hbk ⟨by decide, hk.dot⟩
    have hplain {v : UInt16} (hv : Plain kept v) : u ≠ v := fun h ↦ hu (h ▸ hv)
    rw [hescape, afterDot_escapeByte hb hne, afterDot, if_neg (hplain (v := 46) ⟨by decide, hk.dot⟩),
      if_neg (hplain (v := 37) ⟨by decide, hk.percent⟩), Option.map_none]

theorem isDot_percentEncode (hk : KeepsDots kept) : isDot (percentEncode kept s) = isDot s := by
  rw [isDot, isDot, afterDot_percentEncode hk, decide_eq_decide, Option.map_eq_some_iff]
  simp only [percentEncode_eq_nil, exists_eq_right]

theorem isDoubleDot_percentEncode (hk : KeepsDots kept) :
    isDoubleDot (percentEncode kept s) = isDoubleDot s := by
  rw [isDoubleDot, isDoubleDot, afterDot_percentEncode hk, decide_eq_decide]
  cases afterDot s with
  | none => exact iff_of_false nofun nofun
  | some t =>
    rw [Option.map_some, Option.bind_some, Option.bind_some, afterDot_percentEncode hk,
      Option.map_eq_some_iff]
    simp only [percentEncode_eq_nil, exists_eq_right]

/-! ### Walking over segments -/

def Dotless (s : Units) : Prop := isDot s = false ∧ isDoubleDot s = false

theorem walk_map {f : Units → Units} (hdot : ∀ s, isDot (f s) = isDot s)
    (hdouble : ∀ s, isDoubleDot (f s) = isDoubleDot s) (hnil : f [] = []) (path l : List Units) :
    walk (path.map f) (l.map f) = (walk path l).map f := by
  induction l generalizing path with
  | nil => rfl
  | cons s l ih =>
    cases l with
    | nil =>
      rw [List.map_cons, List.map_nil, walk, walk, arrive, arrive, hdot, hdouble]
      split_ifs <;> simp [hnil]
    | cons t l =>
      have hdescend : descend (path.map f) (f s) = (descend path s).map f := by
        rw [descend, descend, hdot, hdouble]
        split_ifs <;> simp
      rw [List.map_cons, List.map_cons, walk, walk, hdescend, ← List.map_cons]
      exact ih _

theorem walk_append (h : rest ≠ []) :
    walk path (l ++ rest) = walk (l.foldl descend path) rest := by
  induction l generalizing path with
  | nil => rfl
  | cons s l ih =>
    obtain ⟨t, m, htm⟩ := List.exists_cons_of_ne_nil (List.append_ne_nil_of_right_ne_nil l h)
    rw [List.cons_append, htm, walk, ← htm, ih, List.foldl_cons]

theorem mem_walk (h : s ∈ walk path l) : s ∈ path ∨ s = [] ∨ s ∈ l ∧ Dotless s := by
  have hdrop {p : List Units} {t : Units} (ht : t ∈ p.dropLast) : t ∈ p := List.dropLast_subset _ ht
  induction l generalizing path with
  | nil => exact .inl h
  | cons t l ih =>
    cases l with
    | nil =>
      rw [walk, arrive] at h
      split_ifs at h with hdouble hdot <;> rcases List.mem_append.1 h with h | h
      · exact .inl (hdrop h)
      · exact .inr (.inl (List.mem_singleton.1 h))
      · exact .inl h
      · exact .inr (.inl (List.mem_singleton.1 h))
      · exact .inl h
      · rw [List.mem_singleton.1 h]
        exact .inr (.inr ⟨List.mem_cons_self, Bool.eq_false_iff.2 hdot, Bool.eq_false_iff.2 hdouble⟩)
    | cons t' l =>
      rw [walk] at h
      rcases ih h with h | h | ⟨h, hs⟩
      · rw [descend] at h
        split_ifs at h with hdouble hdot
        · exact .inl (hdrop h)
        · exact .inl h
        · rcases List.mem_append.1 h with h | h
          · exact .inl h
          · rw [List.mem_singleton.1 h]
            exact .inr (.inr ⟨List.mem_cons_self, Bool.eq_false_iff.2 hdot,
              Bool.eq_false_iff.2 hdouble⟩)
      · exact .inr (.inl h)
      · exact .inr (.inr ⟨List.mem_cons_of_mem _ h, hs⟩)

theorem walk_of_dotless (h : ∀ s ∈ l, Dotless s) : walk path l = path ++ l := by
  induction l generalizing path with
  | nil => exact (List.append_nil path).symm
  | cons s l ih =>
    obtain ⟨hdot, hdouble⟩ := h s List.mem_cons_self
    cases l with
    | nil => rw [walk, arrive, hdouble, hdot, if_neg Bool.false_ne_true, if_neg Bool.false_ne_true]
    | cons t l =>
      rw [walk, descend, hdouble, hdot, if_neg Bool.false_ne_true, if_neg Bool.false_ne_true,
        ih fun s' hs' ↦ h s' (List.mem_cons_of_mem _ hs'), List.append_assoc, List.singleton_append]

theorem walk_ne_nil (h : l ≠ []) : walk path l ≠ [] := by
  induction l generalizing path with
  | nil => exact absurd rfl h
  | cons s l ih =>
    cases l with
    | nil =>
      rw [walk, arrive]
      split_ifs <;> simp
    | cons t l =>
      rw [walk]
      exact ih (List.cons_ne_nil _ _)

/-- No segment climbs out of the directory that has `n` segments below it. -/
def Stays : ℕ → List Units → Prop
  | _, [] => True
  | n, s :: l =>
    if isDoubleDot s then 0 < n ∧ Stays (n - 1) l else if isDot s then Stays n l else Stays (n + 1) l

theorem walk_cons (h : Stays path.length l) : walk (s :: path) l = s :: walk path l := by
  induction l generalizing path with
  | nil => rfl
  | cons t l ih =>
    have hstep : Stays (descend path t).length l ∧ descend (s :: path) t = s :: descend path t ∧
        arrive (s :: path) t = s :: arrive path t := by
      rw [Stays] at h
      rw [descend, descend, arrive, arrive]
      split_ifs at h ⊢
      · obtain ⟨hpos, hstays⟩ := h
        have hne : path ≠ [] := List.ne_nil_of_length_pos hpos
        rw [List.length_dropLast]
        exact ⟨hstays, List.dropLast_cons_of_ne_nil hne,
          congrArg (· ++ [[]]) (List.dropLast_cons_of_ne_nil hne)⟩
      · exact ⟨h, rfl, rfl⟩
      · rw [List.length_append]
        exact ⟨h, rfl, rfl⟩
    obtain ⟨hstays, hdescend, harrive⟩ := hstep
    cases l with
    | nil => rw [walk, walk, harrive]
    | cons t' l => rw [walk, walk, hdescend, ih hstays]

/-- What climbs out of a directory does so somewhere. -/
theorem exists_climb (h : ¬ Stays path.length l) :
    ∃ pre t post, l = pre ++ t :: post ∧ isDoubleDot t = true ∧
      pre.foldl descend (s :: path) = [s] := by
  induction l generalizing path with
  | nil => exact absurd trivial h
  | cons t l ih =>
    have hcons {path' : List Units} (hd : descend (s :: path) t = s :: path')
        (hn : ¬ Stays path'.length l) :
        ∃ pre t' post, t :: l = pre ++ t' :: post ∧ isDoubleDot t' = true ∧
          pre.foldl descend (s :: path) = [s] := by
      obtain ⟨pre, t', post, rfl, hdouble, hfold⟩ := ih hn
      refine ⟨t :: pre, t', post, rfl, hdouble, ?_⟩
      rw [List.foldl_cons, hd, hfold]
    rw [Stays] at h
    split_ifs at h with hdouble hdot
    · cases path with
      | nil => exact ⟨[], t, l, rfl, hdouble, rfl⟩
      | cons a path =>
        have hn : ¬ Stays (a :: path).dropLast.length l := by
          rw [List.length_dropLast]
          exact fun hs ↦ h ⟨Nat.succ_pos _, hs⟩
        refine hcons ?_ hn
        rw [descend, if_pos hdouble, List.dropLast_cons_of_ne_nil (List.cons_ne_nil _ _)]
    · exact hcons (by rw [descend, if_neg hdouble, if_pos hdot]) h
    · have hd : descend (s :: path) t = s :: (path ++ [t]) := by
        rw [descend, if_neg hdouble, if_neg hdot, List.cons_append]
      refine hcons hd ?_
      rwa [List.length_append]

/-- An empty segment comes to stand at the front of others: what is before it cancels out, and
nothing after it climbs over it. -/
def BeginsEmpty (l : List Units) : Prop :=
  ∃ pre post, l = pre ++ [] :: post ∧ post ≠ [] ∧ pre.foldl descend [] = [] ∧ Stays 0 post

theorem BeginsEmpty.prepend (h : BeginsEmpty rest) (hl : l.foldl descend [] = []) :
    BeginsEmpty (l ++ rest) := by
  obtain ⟨pre, post, rfl, hpost, hpre, hstays⟩ := h
  refine ⟨l ++ pre, post, (List.append_assoc ..).symm, hpost, ?_, hstays⟩
  rw [List.foldl_append, hl, hpre]

theorem walk_begins_empty : (∃ t rest, walk [] l = [] :: t :: rest) ↔ BeginsEmpty l := by
  constructor
  · rintro ⟨t, rest, h⟩
    induction hn : l.length using Nat.strongRecOn generalizing l with
    | ind n ih =>
      cases l with
      | nil => cases h
      | cons s l =>
        cases l with
        | nil =>
          rw [walk, arrive] at h
          split_ifs at h <;> cases h
        | cons s' l =>
          have hshort (m : List Units) (hm : m.length < n) (hw : walk [] m = [] :: t :: rest) :
              BeginsEmpty m := ih _ hm hw rfl
          rw [List.length_cons, List.length_cons] at hn
          rw [walk] at h
          by_cases hs : descend [] s = []
          · rw [hs] at h
            exact BeginsEmpty.prepend (l := [s])
              (hshort _ (by rw [List.length_cons]; omega) h) hs
          · have hpush : descend [] s = [s] := by
              rw [descend] at hs ⊢
              split_ifs at hs ⊢ <;> first | exact absurd rfl hs | rfl
            rw [hpush] at h
            by_cases hstays : Stays 0 (s' :: l)
            · rw [walk_cons (show Stays ([] : List Units).length _ from hstays)] at h
              obtain ⟨rfl, -⟩ := List.cons.inj h
              exact ⟨[], s' :: l, rfl, List.cons_ne_nil _ _, rfl, hstays⟩
            · obtain ⟨pre, u, post, hl, hdouble, hfold⟩ :=
                exists_climb (s := s) (show ¬ Stays ([] : List Units).length _ from hstays)
              have hout : descend [s] u = [] := by rw [descend, if_pos hdouble]; rfl
              rw [hl, walk_append (List.cons_ne_nil _ _), hfold] at h
              cases post with
              | nil =>
                rw [walk, arrive, if_pos hdouble] at h
                cases h
              | cons v post =>
                rw [walk, hout] at h
                have hlength := congrArg List.length hl
                rw [List.length_append, List.length_cons, List.length_cons] at hlength
                have hbegins := hshort (v :: post) (by rw [List.length_cons] at hlength ⊢; omega) h
                have hall := hbegins.prepend (l := s :: (pre ++ [u])) (by
                  rw [List.foldl_cons, hpush, List.foldl_append, hfold, List.foldl_cons, hout]
                  rfl)
                rw [hl]
                simpa using hall
  · rintro ⟨pre, post, rfl, hpost, hpre, hstays⟩
    obtain ⟨s, m, rfl⟩ := List.exists_cons_of_ne_nil hpost
    rw [walk_append (List.cons_ne_nil _ _), hpre, walk]
    have hpush : descend [] [] = [[]] := rfl
    rw [hpush, walk_cons (show Stays ([] : List Units).length _ from hstays)]
    have hne : walk [] (s :: m) ≠ [] := walk_ne_nil hpost
    obtain ⟨t, rest, hw⟩ := List.exists_cons_of_ne_nil hne
    exact ⟨t, rest, by rw [hw]⟩

/-! ### Reading the text of a URL again -/

theorem cut_append (ha : d ∉ a) (hb : b = [] ∨ ∃ c, b = d :: c) : (cut d (a ++ b)).1 = a := by
  have hall : ∀ u ∈ a, decide (u ≠ d) = true := fun u hu ↦
    decide_eq_true fun h ↦ ha (h ▸ hu)
  rw [cut, List.takeWhile_append_of_pos hall]
  rcases hb with rfl | ⟨c, rfl⟩
  · rw [List.takeWhile_nil, List.append_nil]
  · rw [List.takeWhile_cons_of_neg (by simp), List.append_nil]

theorem not_mem_cut : d ∉ (cut d s).1 := fun h ↦ by
  have := List.mem_takeWhile_imp h
  simp at this

theorem splitOnP_slashes {p : Units} (hp : ∀ u ∈ p, isSlash u = false)
    (hl : ∀ t ∈ l, ∀ u ∈ t, isSlash u = false) :
    (p ++ l.flatMap (fun t ↦ 47 :: t)).splitOnP isSlash = p :: l := by
  induction l generalizing p with
  | nil =>
    rw [List.flatMap_nil, List.append_nil]
    exact List.splitOnP_eq_singleton hp
  | cons t l ih =>
    rw [List.flatMap_cons, List.cons_append, List.splitOnP_append_cons_of_forall_mem hp 47 rfl,
      ih (hl t List.mem_cons_self) fun t' ht' ↦ hl t' (List.mem_cons_of_mem _ ht')]

theorem not_slash_of_mem_splitOnP (h : s ∈ a.splitOnP isSlash) : ∀ u ∈ s, isSlash u = false := by
  induction a generalizing s with
  | nil =>
    rw [List.splitOnP_nil, List.mem_singleton] at h
    exact h ▸ nofun
  | cons v a ih =>
    rw [List.splitOnP_cons_eq_if_modifyHead] at h
    split_ifs at h with hv
    · rcases List.mem_cons.1 h with rfl | h
      · exact nofun
      · exact ih h
    · obtain ⟨t, m, htm⟩ := List.exists_cons_of_ne_nil (List.splitOnP_ne_nil isSlash a)
      rw [htm, List.modifyHead_cons] at h
      rcases List.mem_cons.1 h with rfl | h
      · exact List.forall_mem_cons.2 ⟨Bool.eq_false_iff.2 hv, ih (htm ▸ List.mem_cons_self)⟩
      · exact ih (htm ▸ List.mem_cons_of_mem _ h)

/-- The segments of a path as the parser leaves them. -/
structure Clean (path : List Units) : Prop where
  ne : path ≠ []
  plain : ∀ s ∈ path, ∀ u ∈ s, Plain keptInPath u
  slashes : ∀ s ∈ path, ∀ u ∈ s, isSlash u = false
  dotless : ∀ s ∈ path, Dotless s

structure Url.Encoded (u : Url) : Prop where
  path : Clean u.path
  query : ∀ q, u.query = some q → ∀ c ∈ q, Plain keptInQuery c
  fragment : ∀ f, u.fragment = some f → ∀ c ∈ f, Plain keptInFragment c

theorem keptInPath_dots : KeepsDots keptInPath := ⟨⟨rfl, by decide⟩, rfl, rfl⟩

theorem keptInQuery_stable : Stable keptInQuery := ⟨rfl, by decide⟩

theorem keptInFragment_stable : Stable keptInFragment := ⟨rfl, by decide⟩

theorem isSlash_percentEncode (h : ∀ u ∈ s, isSlash u = false) :
    ∀ u ∈ percentEncode kept s, isSlash u = false := by
  intro u hu
  rcases mem_percentEncode hu with (rfl | ⟨n, hn, rfl⟩) | ⟨-, hu⟩
  · rfl
  · exact (by decide : ∀ n < 16, isSlash (hexDigit n) = false) n hn
  · exact h u hu

theorem walk_percentEncode (l : List Units) :
    walk [] (l.map (percentEncode keptInPath)) = (walk [] l).map (percentEncode keptInPath) :=
  walk_map (fun _ ↦ isDot_percentEncode keptInPath_dots)
    (fun _ ↦ isDoubleDot_percentEncode keptInPath_dots) rfl [] l

theorem localUrl_encoded (base : Origin) (s : Units) : (localUrl base s).Encoded := by
  have hmem {t : Units} (ht : t ∈ (localUrl base s).path) :
      t = [] ∨ (∃ t' ∈ segments s, t = percentEncode keptInPath t') ∧ Dotless t := by
    rcases mem_walk ht with ht | ht | ⟨ht, hdotless⟩
    · cases ht
    · exact .inl ht
    · obtain ⟨t', ht', rfl⟩ := List.mem_map.1 ht
      exact .inr ⟨⟨t', ht', rfl⟩, hdotless⟩
  refine ⟨⟨?_, fun t ht ↦ ?_, fun t ht ↦ ?_, fun t ht ↦ ?_⟩, ?_, ?_⟩
  · exact walk_ne_nil fun h ↦ List.splitOnP_ne_nil _ _ (List.map_eq_nil_iff.1 h)
  · rcases hmem ht with rfl | ⟨⟨t', -, rfl⟩, -⟩
    · exact nofun
    · exact fun u hu ↦ plain_of_mem keptInPath_dots.toStable hu
  · rcases hmem ht with rfl | ⟨⟨t', ht', rfl⟩, -⟩
    · exact nofun
    · exact isSlash_percentEncode (not_slash_of_mem_splitOnP ht')
  · rcases hmem ht with rfl | ⟨-, hdotless⟩
    · exact ⟨rfl, rfl⟩
    · exact hdotless
  · intro q hq c hc
    obtain ⟨q', -, rfl⟩ := Option.map_eq_some_iff.1 hq
    exact plain_of_mem keptInQuery_stable hc
  · intro f hf c hc
    obtain ⟨f', -, rfl⟩ := Option.map_eq_some_iff.1 hf
    exact plain_of_mem keptInFragment_stable hc

theorem stripped_of_visible (h : ∀ u ∈ s, 32 < u) : stripped s = s := by
  have hblank {u : UInt16} (hu : u ∈ s) : ¬ isBlank u = true := fun hb ↦
    absurd (of_decide_eq_true hb) (UInt16.not_le.2 (h u hu))
  have htab {u : UInt16} (hu : 32 < u) : isTabOrNewline u = false := by
    simp only [isTabOrNewline, Bool.or_eq_false_iff, beq_eq_false_iff_ne]
    exact ⟨⟨fun he ↦ absurd (he ▸ hu) (by decide), fun he ↦ absurd (he ▸ hu) (by decide)⟩,
      fun he ↦ absurd (he ▸ hu) (by decide)⟩
  rw [stripped, List.dropWhile_eq_self_iff.2 fun hl ↦ hblank (List.get_mem s ⟨0, hl⟩),
    List.rdropWhile_eq_self_iff.2 fun hl ↦ hblank (List.getLast_mem hl), List.filter_eq_self]
  exact fun u hu ↦ by rw [htab (h u hu)]; rfl

theorem resolve_slash (hs : stripped s = 47 :: a) (ha : ∀ u t, a = u :: t → isSlash u = false)
    (parser : UrlParser) (base : Origin) : resolve parser base s = some (localUrl base a) := by
  rw [resolve, hs]
  cases a with
  | nil => rfl
  | cons u t =>
    dsimp only
    rw [ha u t rfl]
    rfl

/-- After a slash: tabs and newlines, which go away, and another slash. -/
def Doubled (s : Units) : Prop :=
  ∃ blanks u rest, s = blanks ++ u :: rest ∧ (∀ v ∈ blanks, isTabOrNewline v = true) ∧
    isSlash u = true

theorem rdropWhile_append_cons {p : UInt16 → Bool} (h : ¬ p u = true) (a b : Units) :
    (a ++ u :: b).rdropWhile p = a ++ u :: b.rdropWhile p := by
  induction b using List.reverseRecOn with
  | nil =>
    rw [List.rdropWhile_nil, List.rdropWhile_eq_self_iff.2]
    intro hl
    simpa using h
  | append_singleton b v ih =>
    rw [← List.cons_append, ← List.append_assoc, List.rdropWhile_concat, List.rdropWhile_concat]
    split_ifs
    · exact ih
    · rw [List.append_assoc, List.cons_append]

theorem stripped_slash (s : Units) :
    stripped (47 :: s) = 47 :: (s.rdropWhile isBlank).filter (!isTabOrNewline ·) := by
  have hr := rdropWhile_append_cons (u := 47) (p := isBlank) (by decide) [] s
  rw [List.nil_append, List.nil_append] at hr
  rw [stripped, List.dropWhile_cons_of_neg (by decide), hr]
  rfl

theorem doubled_iff : Doubled s ↔
    ∃ u t, (s.rdropWhile isBlank).filter (!isTabOrNewline ·) = u :: t ∧ isSlash u = true := by
  constructor
  · rintro ⟨blanks, u, rest, rfl, hblanks, hu⟩
    have hslash : u = 47 ∨ u = 92 := by
      simpa [isSlash] using hu
    have hvisible : ¬ isBlank u = true ∧ isTabOrNewline u = false := by
      rcases hslash with rfl | rfl <;> decide
    refine ⟨u, (rest.rdropWhile isBlank).filter (!isTabOrNewline ·), ?_, hu⟩
    rw [rdropWhile_append_cons hvisible.1, List.filter_append, List.filter_eq_nil_iff.2,
      List.nil_append, List.filter_cons_of_pos (by rw [hvisible.2]; rfl)]
    intro v hv
    rw [hblanks v hv]
    exact Bool.false_ne_true
  · rintro ⟨u, t, h, hu⟩
    obtain ⟨blanks, rest, hr, hblanks, -, -⟩ := List.filter_eq_cons_iff.1 h
    obtain ⟨tail, htail⟩ := List.rdropWhile_prefix isBlank (l := s)
    refine ⟨blanks, u, rest ++ tail, ?_, fun v hv ↦ by simpa using hblanks v hv, hu⟩
    rw [← htail, hr, List.append_assoc, List.cons_append]

theorem resolve_single (h : ¬ Doubled s) (parser : UrlParser) (base : Origin) :
    ∃ u, resolve parser base (47 :: s) = some u ∧ u.origin = base :=
  ⟨_, resolve_slash (stripped_slash s) (fun u t hut ↦ Bool.eq_false_iff.2 fun hu ↦
    h (doubled_iff.2 ⟨u, t, hut, hu⟩)) parser base, rfl⟩

theorem resolve_doubled (h : Doubled s) : ∃ t, ∀ (parser : UrlParser) (base : Origin),
    resolve parser base (47 :: s) = parser.network base.secure t := by
  obtain ⟨u, t, hut, hu⟩ := doubled_iff.1 h
  refine ⟨t, fun parser base ↦ ?_⟩
  rw [resolve, stripped_slash, hut]
  dsimp only
  rw [hu]
  rfl

/-- What names a host does not stay on the host of its base. -/
theorem network_leaves {parser : UrlParser} (h : ∀ base, resolve parser base s =
    parser.network base.secure a) : ¬ ∀ base, ∃ u, resolve parser base s = some u ∧ u.origin = base := by
  intro hall
  cases hn : parser.network true a with
  | none =>
    obtain ⟨u, hu, -⟩ := hall ⟨true, [], none⟩
    rw [h, hn] at hu
    cases hu
  | some v =>
    obtain ⟨u, hu, horigin⟩ := hall ⟨true, 97 :: v.origin.host, none⟩
    rw [h, hn] at hu
    obtain rfl : v = u := Option.some.inj hu
    have hlength := congrArg (fun o : Origin ↦ o.host.length) horigin
    simp at hlength

namespace Url

def text (u : Url) : Units := u.pathname ++ u.search ++ u.hash

theorem marked_cases (mark : UInt16) (t : Option Units) :
    marked mark t = [] ∨ ∃ s, t = some s ∧ marked mark t = mark :: s := by
  cases t with
  | none => exact .inl rfl
  | some s =>
    cases s with
    | nil => exact .inl rfl
    | cons u s => exact .inr ⟨_, rfl, rfl⟩

theorem visible_of_kept (hk : ∀ p < 0x80, kept p = true → 32 < p) (h : Plain kept u) : 32 < u :=
  UInt16.lt_iff_toNat_lt.2 (hk _ h.1 h.2)

variable {url : Url}

theorem Encoded.visible (h : url.Encoded) : ∀ u ∈ url.text, 32 < u := by
  have hmarked {mark : UInt16} {t : Option Units} (hmark : 32 < mark)
      (ht : ∀ s, t = some s → ∀ u ∈ s, 32 < u) : ∀ u ∈ marked mark t, 32 < u := by
    rcases marked_cases mark t with hnil | ⟨s, hs, hcons⟩
    · rw [hnil]
      exact nofun
    · rw [hcons]
      exact List.forall_mem_cons.2 ⟨hmark, ht s hs⟩
  intro u hu
  rw [text, List.append_assoc, List.mem_append, List.mem_append] at hu
  rcases hu with hu | hu | hu
  · obtain ⟨s, hs, hu⟩ := List.mem_flatMap.1 hu
    rcases List.mem_cons.1 hu with rfl | hu
    · decide
    · exact visible_of_kept (by decide) (h.path.plain s hs u hu)
  · exact hmarked (by decide) (fun s hs u hu ↦ visible_of_kept (by decide) (h.query s hs u hu)) u hu
  · exact hmarked (by decide) (fun s hs u hu ↦ visible_of_kept (by decide) (h.fragment s hs u hu))
      u hu

/-- The path is read as it was written. -/
theorem Encoded.segments (h : url.Encoded) {p : Units} (hp : url.path = p :: l) :
    segments (p ++ l.flatMap (fun t ↦ 47 :: t) ++ url.search ++ url.hash) = p :: l := by
  have hpath {c : UInt16} (hc : ∀ u, Plain keptInPath u → u ≠ c) (hslash : c ≠ 47) :
      c ∉ p ++ l.flatMap (fun t ↦ 47 :: t) := by
    intro hmem
    have hin {t : Units} (ht : t ∈ url.path) (hct : c ∈ t) : False :=
      hc c (h.path.plain t ht c hct) rfl
    rcases List.mem_append.1 hmem with hmem | hmem
    · exact hin (hp ▸ List.mem_cons_self) hmem
    · obtain ⟨t, ht, hct⟩ := List.mem_flatMap.1 hmem
      exact hin (hp ▸ List.mem_cons_of_mem _ ht) ((List.mem_cons.1 hct).resolve_left hslash)
  have hmark (mark : UInt16) (t : Option Units) :
      marked mark t = [] ∨ ∃ c, marked mark t = mark :: c :=
    (marked_cases mark t).imp id fun ⟨s, _, hs⟩ ↦ ⟨s, hs⟩
  have hsearch : 35 ∉ url.search := by
    rcases marked_cases 63 url.query with hnil | ⟨s, hs, hcons⟩
    · rw [search, hnil]
      exact List.not_mem_nil
    · rw [search, hcons, List.mem_cons, not_or]
      exact ⟨by decide, fun hmem ↦ absurd (h.query s hs 35 hmem).2 (by decide)⟩
  have hhash : 35 ∉ p ++ l.flatMap (fun t ↦ 47 :: t) ++ url.search := by
    rw [List.mem_append, not_or]
    exact ⟨hpath (fun u hu heq ↦ absurd hu.2 (by rw [heq]; decide)) (by decide), hsearch⟩
  rw [Foundations.segments, cut_append (b := url.hash) hhash (hmark 35 _),
    cut_append (b := url.search)
      (hpath (fun u hu heq ↦ absurd hu.2 (by rw [heq]; decide)) (by decide)) (hmark 63 _)]
  exact splitOnP_slashes (h.path.slashes p (hp ▸ List.mem_cons_self))
    fun t ht ↦ h.path.slashes t (hp ▸ List.mem_cons_of_mem _ ht)

theorem Encoded.path_eq (h : url.Encoded) {p : Units} (hp : url.path = p :: l) (base : Origin) :
    (localUrl base (p ++ l.flatMap (fun t ↦ 47 :: t) ++ url.search ++ url.hash)).path = url.path := by
  change walk [] ((Foundations.segments _).map _) = _
  rw [h.segments hp, ← hp, walk_percentEncode, walk_of_dotless h.path.dotless, List.nil_append]
  exact (List.map_congr_left fun s hs ↦ percentEncode_of_plain (h.path.plain s hs)).trans
    (List.map_id _)

theorem text_eq {p : Units} (hp : url.path = p :: l) :
    url.text = 47 :: (p ++ l.flatMap (fun t ↦ 47 :: t) ++ url.search ++ url.hash) := by
  rw [text, pathname, hp, List.flatMap_cons, List.cons_append, List.cons_append, List.cons_append]

/-- Where the path does not begin with two slashes, the text of a URL stands for the same path
on every host. -/
theorem Encoded.resolve_local (h : url.Encoded) (hp : ∀ t rest, url.path ≠ [] :: t :: rest)
    (parser : UrlParser) (base : Origin) :
    ∃ v, resolve parser base url.text = some v ∧ v.origin = base ∧ v.path = url.path := by
  obtain ⟨p, l, hpl⟩ := List.exists_cons_of_ne_nil h.path.ne
  have htext := text_eq hpl
  generalize htail : p ++ l.flatMap (fun t ↦ 47 :: t) ++ url.search ++ url.hash = tail at htext
  have hfirst : ∀ u t, tail = u :: t → isSlash u = false := by
    intro u t hut
    rw [← htail] at hut
    cases p with
    | cons c p =>
      obtain ⟨rfl, -⟩ := List.cons.inj hut
      exact h.path.slashes _ (hpl ▸ List.mem_cons_self) _ List.mem_cons_self
    | nil =>
      cases l with
      | cons t' l => exact absurd hpl (hp t' l)
      | nil =>
        rw [List.flatMap_nil, List.nil_append, List.nil_append] at hut
        rcases marked_cases 63 url.query with hnil | ⟨q, -, hcons⟩
        · rw [search, hnil, List.nil_append] at hut
          rcases marked_cases 35 url.fragment with hnil | ⟨f, -, hcons⟩
          · rw [hash, hnil] at hut
            cases hut
          · rw [hash, hcons] at hut
            obtain ⟨rfl, -⟩ := List.cons.inj hut
            rfl
        · rw [search, hcons, List.cons_append] at hut
          obtain ⟨rfl, -⟩ := List.cons.inj hut
          rfl
  refine ⟨localUrl base tail, resolve_slash ?_ hfirst parser base, rfl, htail ▸ h.path_eq hpl base⟩
  rw [stripped_of_visible h.visible, htext]

/-- Where it does, its text names a host. -/
theorem Encoded.resolve_network (h : url.Encoded) {t : Units} (hp : url.path = [] :: t :: rest) :
    ∃ s, ∀ (parser : UrlParser) (base : Origin),
      resolve parser base url.text = parser.network base.secure s := by
  refine ⟨t ++ rest.flatMap (fun t ↦ 47 :: t) ++ url.search ++ url.hash, fun parser base ↦ ?_⟩
  rw [resolve, stripped_of_visible h.visible, text_eq hp]
  rfl

end Url

/-- The path of a reference begins with two slashes where its segments come to begin empty. -/
theorem localUrl_begins_empty :
    (∃ t rest, (localUrl base s).path = [] :: t :: rest) ↔ BeginsEmpty (segments s) := by
  have hpath : (localUrl base s).path = (walk [] (segments s)).map (percentEncode keptInPath) :=
    walk_percentEncode _
  rw [← walk_begins_empty, hpath]
  constructor
  · rintro ⟨t, rest, h⟩
    obtain ⟨a, l, hw, ha, hl⟩ := List.map_eq_cons_iff.1 h
    obtain ⟨b, m, rfl, -, -⟩ := List.map_eq_cons_iff.1 hl
    exact ⟨b, m, by rw [hw, percentEncode_eq_nil.1 ha]⟩
  · rintro ⟨t, rest, h⟩
    exact ⟨_, _, by rw [h, List.map_cons, List.map_cons, percentEncode_nil]⟩

end Counted.Foundations
