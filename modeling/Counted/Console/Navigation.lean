import Counted.Foundations.Url
import Counted.Kernel.JsString

namespace Counted.Console

open Foundations

/-! ### Where the console sends its reader -/

/-- `https://console.invalid`. -/
def consoleInvalid : Origin := ⟨true, js "console.invalid", none⟩

/-- `/[\\\u0000-\u0020]/.test(input)`. -/
def hasBackslashOrBlank (input : JsString) : Bool := input.any (fun u ↦ u == 92 || isBlank u)

/-- A value that is not a string is `none`. -/
def safeNext (parser : UrlParser) (input : Option JsString) (fallback : JsString) : JsString :=
  match input with
  | none => fallback
  | some input =>
    if !input.startsWith (js "/") || input.startsWith (js "//") || hasBackslashOrBlank input then
      fallback
    else
      match resolve parser consoleInvalid input with
      | none => fallback
      | some parsed =>
        if parsed.origin ≠ consoleInvalid then fallback
        else if JsString.startsWith parsed.pathname (js "/api/") || parsed.pathname = js "/sign-in" then fallback
        else parsed.pathname ++ parsed.search ++ parsed.hash

/-- A field of a form. One that is absent or a file is `none`. -/
def text (field : Option JsString) : JsString := (field.map JsString.trim).getD []

def returnTo (field : Option JsString) (fallback : JsString) : JsString :=
  let raw := text field
  if !raw.startsWith (js "/") || raw.startsWith (js "//") || raw.startsWith (js "/\\") then fallback
  else raw

/-- A path of the console, as its actions give for want of a better one. -/
structure PagePath where
  path : JsString
  rooted : path = [47] ∨
    ∃ u rest, path = 47 :: u :: rest ∧ isSlash u = false ∧ isTabOrNewline u = false

variable {parser : UrlParser} {input s : JsString} {field : Option JsString}

/-- What `safeNext` looks at before it parses. -/
def Accepted (input : JsString) : Prop :=
  input.startsWith (js "/") = true ∧ input.startsWith (js "//") = false ∧
    hasBackslashOrBlank input = false

theorem Accepted.resolve (h : Accepted input) (parser : UrlParser) (base : Origin) :
    Foundations.resolve parser base input = some (localUrl base input.tail) := by
  obtain ⟨hslash, hdouble, hany⟩ := h
  cases input with
  | nil => cases hslash
  | cons u s =>
    have hu : 47 = u := by simpa [JsString.startsWith, js] using hslash
    subst hu
    have hplain : ∀ v ∈ 47 :: s, (v == 92) = false ∧ isBlank v = false := by
      intro v hv
      have := List.any_eq_false.1 hany v hv
      simpa using this
    have hvisible : ∀ v ∈ 47 :: s, 32 < v := fun v hv ↦
      UInt16.not_le.1 fun hle ↦ Bool.eq_false_iff.1 (hplain v hv).2 (decide_eq_true hle)
    refine resolve_slash (stripped_of_visible hvisible) (fun v t hvt ↦ ?_) parser base
    have hv : v ∈ 47 :: s := hvt ▸ List.mem_cons_of_mem _ List.mem_cons_self
    have hne : (v == 47) = false := by
      rw [beq_eq_false_iff_ne]
      rintro rfl
      rw [hvt] at hdouble
      exact absurd hdouble (by simp [JsString.startsWith, js])
    rw [isSlash, hne, (hplain v hv).1]
    rfl

theorem safeNext_refused (h : ¬ Accepted input) (fallback : JsString) :
    safeNext parser (some input) fallback = fallback := by
  rw [safeNext]
  refine if_pos ?_
  by_contra hc
  rw [Bool.not_eq_true, Bool.or_eq_false_iff, Bool.or_eq_false_iff, Bool.not_eq_false'] at hc
  exact h ⟨hc.1.1, hc.1.2, hc.2⟩

theorem safeNext_accepted (h : Accepted input) (fallback : JsString) :
    safeNext parser (some input) fallback =
      if JsString.startsWith (localUrl consoleInvalid input.tail).pathname (js "/api/") ||
        (localUrl consoleInvalid input.tail).pathname = js "/sign-in" then fallback
      else (localUrl consoleInvalid input.tail).text := by
  rw [safeNext, h.resolve]
  dsimp only
  rw [if_neg, if_neg (fun hne ↦ hne rfl)]
  · rfl
  · rw [h.1, h.2.1, h.2.2]
    exact Bool.false_ne_true

/-! ### Whether it stays on the console -/

theorem resolve_page (p : PagePath) (parser : UrlParser) (base : Origin) :
    ∃ u, resolve parser base p.path = some u ∧ u.origin = base := by
  have hsingle (rest : JsString) (h : ¬ Doubled rest) (hp : p.path = 47 :: rest) :
      ∃ u, resolve parser base p.path = some u ∧ u.origin = base := by
    rw [hp]
    exact resolve_single h parser base
  rcases p.rooted with hp | ⟨u, rest, hp, hslash, htab⟩
  · refine hsingle [] ?_ hp
    rintro ⟨blanks, u, rest, hnil, -⟩
    simp at hnil
  · refine hsingle (u :: rest) ?_ hp
    rintro ⟨blanks, v, rest', heq, hblanks, hv⟩
    cases blanks with
    | nil =>
      obtain ⟨rfl, -⟩ := List.cons.inj heq
      rw [hslash] at hv
      cases hv
    | cons b blanks =>
      obtain ⟨rfl, -⟩ := List.cons.inj heq
      have := hblanks u List.mem_cons_self
      rw [htab] at this
      cases this

/-- The local page a reader is sent to after signing in. -/
structure LocalPage (base : Origin) (u : Url) : Prop where
  origin : u.origin = base
  api : JsString.startsWith u.pathname (js "/api/") = false
  signIn : u.pathname ≠ js "/sign-in"

theorem localPage_root (parser : UrlParser) (base : Origin) :
    ∃ u, resolve parser base (js "/") = some u ∧ LocalPage base u :=
  ⟨localUrl base [], rfl, rfl, rfl, (by decide : ([47] : JsString) ≠ js "/sign-in")⟩

theorem safeNext_local_iff : (∀ base, ∃ u,
    resolve parser base (safeNext parser (some input) (js "/")) = some u ∧ LocalPage base u) ↔
    ¬ (Accepted input ∧ BeginsEmpty (segments input.tail)) := by
  by_cases ha : Accepted input
  · have hbegins : (∃ t rest, (localUrl consoleInvalid input.tail).path = [] :: t :: rest) ↔
        BeginsEmpty (segments input.tail) := localUrl_begins_empty
    rw [safeNext_accepted ha, ← hbegins]
    have henc := localUrl_encoded consoleInvalid input.tail
    by_cases hb : ∃ t rest, (localUrl consoleInvalid input.tail).path = [] :: t :: rest
    · refine iff_of_false (fun hall ↦ ?_) fun hn ↦ hn ⟨ha, hb⟩
      obtain ⟨t, rest, hpath⟩ := hb
      have hname : (localUrl consoleInvalid input.tail).pathname =
          47 :: 47 :: (t ++ rest.flatMap (fun t ↦ 47 :: t)) := by
        rw [Url.pathname, hpath, List.flatMap_cons, List.flatMap_cons]
        rfl
      rw [if_neg] at hall
      · obtain ⟨s, hs⟩ := henc.resolve_network hpath
        refine network_leaves (hs parser) fun base ↦ ?_
        obtain ⟨u, hu, hlocal⟩ := hall base
        exact ⟨u, hu, hlocal.origin⟩
      · rw [hname]
        simp [JsString.startsWith, js]
    · refine iff_of_true (fun base ↦ ?_) fun h ↦ hb h.2
      split_ifs with hrefused
      · exact localPage_root parser base
      · rw [Bool.or_eq_true, not_or, Bool.not_eq_true, decide_eq_true_eq] at hrefused
        obtain ⟨v, hv, horigin, hpath⟩ := henc.resolve_local
          (fun t rest h ↦ hb ⟨t, rest, h⟩) parser base
        have hname : v.pathname = (localUrl consoleInvalid input.tail).pathname := by
          rw [Url.pathname, hpath, Url.pathname]
        exact ⟨v, hv, horigin, hname ▸ hrefused.1, hname ▸ hrefused.2⟩
  · rw [safeNext_refused ha]
    exact iff_of_true (localPage_root parser) fun h ↦ ha h.1

/-- A slash, tabs or newlines, and another slash. -/
def HiddenSlash (raw : JsString) : Prop :=
  ∃ b rest, raw = 47 :: b :: rest ∧ isTabOrNewline b = true ∧ Doubled rest

theorem HiddenSlash.doubled {rest : JsString} (h : HiddenSlash (47 :: rest)) : Doubled rest := by
  obtain ⟨b, rest', hraw, hb, blanks, u, t, rfl, hblanks, hu⟩ := h
  obtain ⟨-, rfl⟩ := List.cons.inj hraw
  exact ⟨b :: blanks, u, t, rfl, List.forall_mem_cons.2 ⟨hb, hblanks⟩, hu⟩

theorem hiddenSlash_of_doubled {rest : JsString} (h : Doubled rest)
    (hfirst : ∀ u t, rest = u :: t → isSlash u = false) : HiddenSlash (47 :: rest) := by
  obtain ⟨blanks, u, t, rfl, hblanks, hu⟩ := h
  cases blanks with
  | nil =>
    rw [hfirst u t rfl] at hu
    cases hu
  | cons b blanks =>
    obtain ⟨hb, hblanks⟩ := List.forall_mem_cons.1 hblanks
    exact ⟨b, _, rfl, hb, blanks, u, t, rfl, hblanks, hu⟩

/-- What `returnTo` keeps: a slash that no slash or backslash follows. -/
theorem returnTo_keeps (raw : JsString) :
    ¬ (!raw.startsWith (js "/") || raw.startsWith (js "//") || raw.startsWith (js "/\\")) = true ↔
      ∃ rest, raw = 47 :: rest ∧ ∀ u t, rest = u :: t → isSlash u = false := by
  rw [Bool.not_eq_true, Bool.or_eq_false_iff, Bool.or_eq_false_iff, Bool.not_eq_false']
  have hone : js "/" = [47] := rfl
  have htwo : js "//" = [47, 47] := rfl
  have hback : js "/\\" = [47, 92] := rfl
  rw [hone, htwo, hback]
  cases raw with
  | nil => exact iff_of_false (fun h ↦ absurd h.1.1 Bool.false_ne_true) fun ⟨rest, h, _⟩ ↦ nomatch h
  | cons v rest =>
    cases rest with
    | nil =>
      simp only [JsString.startsWith, List.isPrefixOf, Bool.and_true, Bool.and_false, beq_iff_eq,
        and_true]
      constructor
      · rintro rfl
        exact ⟨[], rfl, nofun⟩
      · rintro ⟨rest, h, -⟩
        exact (List.cons.inj h).1.symm
    | cons w rest =>
      simp only [JsString.startsWith, List.isPrefixOf, Bool.and_true, beq_iff_eq,
        Bool.and_eq_false_iff, beq_eq_false_iff_ne, isSlash, List.cons.injEq,
        Bool.or_eq_false_iff]
      constructor
      · rintro ⟨⟨rfl, hw⟩, hw'⟩
        refine ⟨w :: rest, ⟨rfl, rfl⟩, fun u t hut ↦ ?_⟩
        obtain ⟨rfl, -⟩ := List.cons.inj hut
        exact ⟨Ne.symm (hw.resolve_left fun h ↦ h rfl), Ne.symm (hw'.resolve_left fun h ↦ h rfl)⟩
      · rintro ⟨_, ⟨rfl, rfl⟩, h⟩
        obtain ⟨hw, hw'⟩ := h w rest rfl
        exact ⟨⟨rfl, .inr (Ne.symm hw)⟩, .inr (Ne.symm hw')⟩

theorem returnTo_local_iff {fallback : PagePath} : (∀ base, ∃ u,
    resolve parser base (returnTo field fallback.path) = some u ∧ u.origin = base) ↔
    ¬ HiddenSlash (text field) := by
  rw [returnTo]
  by_cases hkept : ∃ rest, text field = 47 :: rest ∧ ∀ u t, rest = u :: t → isSlash u = false
  · rw [if_neg ((returnTo_keeps _).2 hkept)]
    obtain ⟨rest, hraw, hfirst⟩ := hkept
    rw [hraw]
    by_cases hd : Doubled rest
    · obtain ⟨t, ht⟩ := resolve_doubled hd
      exact iff_of_false (network_leaves (ht parser))
        fun hn ↦ hn (hiddenSlash_of_doubled hd hfirst)
    · exact iff_of_true (resolve_single hd parser) fun h ↦ hd h.doubled
  · rw [if_pos (not_not.1 fun h ↦ hkept ((returnTo_keeps _).1 h))]
    refine iff_of_true (resolve_page fallback parser) fun hn ↦ hkept ?_
    obtain ⟨b, rest, hraw, hb, -⟩ := hn
    refine ⟨b :: rest, hraw, fun u t hut ↦ ?_⟩
    obtain ⟨rfl, -⟩ := List.cons.inj hut
    simp only [isTabOrNewline, Bool.or_eq_true, beq_iff_eq] at hb
    rcases hb with (rfl | rfl) | rfl <;> rfl

/-- Where the targets stay on the console's host, whichever host that is. -/
theorem redirects_stay (parser : UrlParser) (input : JsString) (field : Option JsString)
    (fallback : PagePath) :
    ((∀ base, ∃ u, resolve parser base (safeNext parser (some input) (js "/")) = some u ∧
        LocalPage base u) ↔
      ¬ (Accepted input ∧ BeginsEmpty (segments input.tail))) ∧
    ((∀ base, ∃ u, resolve parser base (returnTo field fallback.path) = some u ∧
        u.origin = base) ↔
      ¬ HiddenSlash (text field)) :=
  ⟨safeNext_local_iff, returnTo_local_iff⟩

section Samples

/-- Hosts are read up to the next slash and taken as they are. -/
def plainParser : UrlParser where
  network secure s := some ⟨⟨secure, s.takeWhile (!isSlash ·), none⟩, [[]], none, none⟩
  other _ _ := none

def ourConsole : Origin := ⟨true, js "app.counted.dev", none⟩

/-- An empty segment after a dot, and a tab between two slashes. -/
theorem redirects_leave :
    safeNext plainParser (some (js "/.//evil.test")) (js "/") = js "//evil.test" ∧
    (resolve plainParser ourConsole (js "//evil.test")).map (·.origin) =
      some ⟨true, js "evil.test", none⟩ ∧
    returnTo (some (js "/\t/evil.example")) (js "/") = js "/\t/evil.example" ∧
    (resolve plainParser ourConsole (js "/\t/evil.example")).map (·.origin) =
      some ⟨true, js "evil.example", none⟩ := by
  refine ⟨by decide, by decide, by decide, by decide⟩

end Samples

end Counted.Console
