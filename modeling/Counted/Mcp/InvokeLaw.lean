import Counted.Mcp.Tools
import Counted.Foundations.Attempt
import Counted.Foundations.Keyed

namespace Counted.Mcp

open Foundations

variable {args : Arguments} {route : Route} {name pre t : JsString} {template : List Segment}
  {f : JsString × Json} {v : Json}

/-! ### What the API reads -/

/-- The text of a value without parts. -/
def scalarText : Json → Option JsString
  | .arr _ | .obj _ => none
  | v => stringOf v

mutual

/-- `JSON.parse(JSON.stringify(value))`: a number that is not finite is written as `null`. -/
def reread : Json → Json
  | .num (.finite d) => .num (.finite d)
  | .num _ => .null
  | .arr items => .arr (rereadItems items)
  | .obj fields => .obj (rereadFields fields)
  | v => v

def rereadItems : List Json → List Json
  | [] => []
  | v :: items => reread v :: rereadItems items

def rereadFields : Arguments → Arguments
  | [] => []
  | (key, v) :: fields => (key, reread v) :: rereadFields fields

end

mutual

/-- What is read has the text that it was read from. -/
theorem stringify_reread : ∀ v : Json, (reread v).stringify = v.stringify
  | .null => rfl
  | .bool _ => rfl
  | .num (.finite _) => rfl
  | .num (.infinity _) => rfl
  | .num .nan => rfl
  | .str _ => rfl
  | .arr items => by
    rw [reread, Json.stringify, Json.stringify, stringify_rereadItems items]
  | .obj fields => by
    rw [reread, Json.stringify, Json.stringify, stringify_rereadFields fields]

theorem stringify_rereadItems :
    ∀ items : List Json, Json.stringifyItems (rereadItems items) = Json.stringifyItems items
  | [] => rfl
  | [v] => stringify_reread v
  | v :: w :: items => by
    have hrest := stringify_rereadItems (w :: items)
    rw [rereadItems] at hrest
    rw [rereadItems, rereadItems, Json.stringifyItems, Json.stringifyItems, stringify_reread v,
      hrest]

theorem stringify_rereadFields :
    ∀ fields : Arguments, Json.stringifyFields (rereadFields fields) = Json.stringifyFields fields
  | [] => rfl
  | [(key, v)] => by
    rw [rereadFields, rereadFields, Json.stringifyFields, Json.stringifyFields, stringify_reread v]
  | (key, v) :: (key', w) :: fields => by
    have hrest := stringify_rereadFields ((key', w) :: fields)
    rw [rereadFields] at hrest
    rw [rereadFields, rereadFields, Json.stringifyFields, Json.stringifyFields, stringify_reread v,
      hrest]

end

/-- Where an argument arrives: as a text of the path or the query, or in the body. -/
inductive Place
  | text (t : JsString)
  | json (v : Json)

def Place.Holds : Place → Json → Prop
  | text t, v => scalarText v = some t
  | json w, v => w = v

def pathPlace (s : Segment × Units) : Option (JsString × Place) :=
  s.1.name.bind fun name ↦ (decodeComponent s.2).map fun t ↦ (name, .text t)

def queryPlaces (query : Option Units) : List (JsString × Place) :=
  ((query.bind formParse).getD []).map fun f ↦ (f.1, .text f.2)

def bodyPlaces : Option Json → List (JsString × Place)
  | some (.obj fields) => fields.map fun f ↦ (f.1, .json (reread f.2))
  | _ => []

/-- The places in which the API finds a name. -/
def found (route : Route) (r : Request) (url : Url) (key : JsString) : List Place :=
  (((route.template.zip url.path).filterMap pathPlace ++ queryPlaces url.query ++
    bodyPlaces r.body).filter (·.1 = key)).map (·.2)

/-- A segment of a path for one of a template. -/
def Matches (args : Arguments) : Segment → Units → Prop
  | .literal t, s => s = t
  | .parameter name, s =>
    ∃ v t, JsObject.get args name = some v ∧ scalarText v = some t ∧ decodeComponent s = some t

structure Faithful (site : Site) (route : Route) (args : Arguments) (r : Request) (url : Url) :
    Prop where
  origin : url.origin = site.origin
  path : List.Forall₂ (Matches args) route.template url.path
  arguments : ∀ f ∈ args, ∃ p, found route r url f.1 = [p] ∧ p.Holds f.2

/-- The call is refused, or its request is faithful. -/
def Exact (site : Site) (route : Route) (args : Arguments) : Except Stop Request → Prop
  | .error (.refused _) => True
  | .error .threw => False
  | .ok r => ∃ url, site.parse r.url = some url ∧ Faithful site route args r url

/-! ### What stops a call -/

def paramStop (args : Arguments) (name : JsString) : Option Stop :=
  match propertyOf args name with
  | .missing | .own .null => some (.refused (.missingPathParam name))
  | .own (.str s) => if wellFormed s then none else some .threw
  | .own (.num _) => none
  | .own v => some (.refused (.unusablePathParam name (typeof v)))
  | .inherited => some (.refused (.unusablePathParam name
      (if name = js "__proto__" then js "object" else js "function")))

def fieldStop (route : Route) (f : JsString × Json) : Option Stop :=
  if f.1 ∈ route.pathParams then none
  else
    match propertyOf route.query f.1 with
    | .own _ => if (stringOf f.2).isSome then none else some .threw
    | .inherited => none
    | .missing =>
      if isBodyless route.method then some (.refused (.undeclaredQueryParam f.1)) else none

/-- The path parameters come first, in their order, and then the fields in theirs. -/
def firstStop (route : Route) (args : Arguments) : Option Stop :=
  (route.pathParams.findSome? (paramStop args)).or (args.findSome? (fieldStop route))

/-- A field that is no path parameter arrives as it is. -/
def Kept (route : Route) (f : JsString × Json) : Prop :=
  match propertyOf route.query f.1 with
  | .own _ => ∃ t, scalarText f.2 = some t ∧ wellFormed t = true
  | .inherited => False
  | .missing => reread f.2 = f.2

def textOf (args : Arguments) (name : JsString) : JsString :=
  ((JsObject.get args name).bind scalarText).getD []

def Sendable (route : Route) (args : Arguments) : Prop :=
  (∃ failure, firstStop route args = some (.refused failure)) ∨
    firstStop route args = none ∧
      (∀ name ∈ route.pathParams, textOf args name ≠ js "." ∧ textOf args name ≠ js "..") ∧
      ∀ f ∈ args, f.1 ∉ route.pathParams → Kept route f

/-! ### The path -/

theorem wellFormed_of_ascii {s : JsString} (hs : ∀ u ∈ s, u.toNat < 128) : wellFormed s = true := by
  induction s with
  | nil => rfl
  | cons u s ih =>
    have hu : isSurrogate u = false :=
      isSurrogate_eq_false.2 (.inl (lt_trans (hs u List.mem_cons_self) (by decide)))
    rw [← List.nil_append (u :: s), wellFormed_append hu,
      ih fun v hv ↦ hs v (List.mem_cons_of_mem u hv)]
    rfl

theorem wellFormed_toJs (n : JsNumber) : wellFormed n.toJs = true := by
  cases n with
  | finite d =>
    refine wellFormed_of_ascii fun u hu ↦ ?_
    rcases Decimal.toJs_units d u hu with h | h
    · have hle := UInt16.le_iff_toNat_le.1 h.2
      rw [show (57 : UInt16).toNat = 57 from rfl] at hle
      omega
    · have hall : (js ".-+e").all (fun u ↦ decide (u.toNat < 128)) = true := by decide
      exact of_decide_eq_true (List.all_eq_true.1 hall u h)
  | infinity negative => cases negative <;> decide
  | nan => decide

theorem paramText_eq (args : Arguments) (name : JsString) : paramText args name =
    match paramStop args name with
    | some e => .error e
    | none => .ok (percentEncode keptInComponent (textOf args name)) := by
  have hown {v : Json} (h : propertyOf args name = .own v) : JsObject.get args name = some v := by
    rw [propertyOf] at h
    split at h
    · rename_i w hw
      rw [hw]
      exact congrArg some (Property.own.inj h)
    · split_ifs at h
  cases hproperty : propertyOf args name with
  | missing => rw [paramText, paramStop, hproperty]
  | inherited => rw [paramText, paramStop, hproperty]
  | own v =>
    rw [paramText, paramStop, hproperty, textOf, hown hproperty]
    cases v with
    | str s =>
      dsimp only
      rw [encoded, encodeComponent]
      split_ifs <;> rfl
    | num n =>
      dsimp only
      rw [encoded, encodeComponent, if_pos (wellFormed_toJs n)]
      rfl
    | _ => rfl

def segmentOf (args : Arguments) : Segment → Units
  | .literal t => t
  | .parameter name => percentEncode keptInComponent (textOf args name)

theorem replaceFirst_braced (hpre : 123 ∉ pre) (name s rest : JsString) :
    replaceFirst (braced name) s (pre ++ (braced name ++ rest)) = pre ++ (s ++ rest) := by
  induction pre with
  | nil =>
    rw [List.nil_append, List.nil_append]
    have hne : braced name ++ rest = 123 :: (name ++ [125] ++ rest) := rfl
    rw [hne, replaceFirst, ← hne, if_pos (List.isPrefixOf_iff_prefix.2 (List.prefix_append ..)),
      List.drop_left]
  | cons u pre ih =>
    have hhead : ¬ (braced name).isPrefixOf (u :: (pre ++ (braced name ++ rest))) = true := by
      rw [List.isPrefixOf_iff_prefix, braced, List.cons_append, List.cons_prefix_cons]
      exact fun h ↦ hpre (h.1 ▸ List.mem_cons_self)
    rw [List.cons_append, replaceFirst, if_neg hhead,
      ih fun h ↦ hpre (List.mem_cons_of_mem u h), List.cons_append]

theorem plain_segmentOf {segment : Segment} (h : segment.clean = true) :
    ∀ u ∈ segmentOf args segment, Escape u ∨ Foundations.Plain keptInComponent u := by
  intro u hu
  cases segment with
  | literal t => exact .inr ((Segment.clean_literal h).1 u hu)
  | parameter name => exact (mem_percentEncode hu).imp_right fun h ↦ h.1

theorem unit_cases {u : UInt16} (h : Escape u ∨ Foundations.Plain keptInComponent u) :
    Foundations.Plain keptInPath u ∧ isSlash u = false ∧ u ≠ 123 := by
  have hcases : 48 ≤ u.toNat ∧ u.toNat ≤ 57 ∨ 65 ≤ u.toNat ∧ u.toNat ≤ 90 ∨
      97 ≤ u.toNat ∧ u.toNat ≤ 122 ∨ u.toNat ∈ [33, 37, 39, 40, 41, 42, 45, 46, 95, 126] := by
    simp only [List.mem_cons, List.not_mem_nil, or_false]
    rcases h with h | h
    · have := escape_cases h
      omega
    · rcases keptInComponent_cases h.2 with h | h
      · have := isAlphanumeric_cases h
        omega
      · simp only [List.mem_cons, List.not_mem_nil, or_false] at h
        omega
  simp only [List.mem_cons, List.not_mem_nil, or_false] at hcases
  refine ⟨⟨by omega, ?_⟩, ?_, ?_⟩
  · simp only [keptInPath, Bool.and_eq_true, decide_eq_true_eq, List.mem_cons, List.not_mem_nil,
      or_false]
    omega
  · rw [isSlash, Bool.or_eq_false_iff, beq_eq_false_iff_ne, beq_eq_false_iff_ne]
    constructor
    · rintro rfl
      exact absurd hcases (by decide)
    · rintro rfl
      exact absurd hcases (by decide)
  · rintro rfl
    exact absurd hcases (by decide)

/-- The parameters are filled in one after the other. -/
theorem fill_template (h : ∀ s ∈ template, s.clean = true) (hpre : 123 ∉ pre) :
    (template.filterMap Segment.name).foldlM (fun path param ↦ do
        let text ← paramText args param
        return replaceFirst (braced param) text path) (pre ++ templateText template) =
      match (template.filterMap Segment.name).findSome? (paramStop args) with
      | some e => .error e
      | none => .ok (pre ++ (template.map (segmentOf args)).flatMap fun s ↦ 47 :: s) := by
  induction template generalizing pre with
  | nil => rfl
  | cons segment template ih =>
    have hrest := fun s hs ↦ h s (List.mem_cons_of_mem segment hs)
    have hclean := h segment List.mem_cons_self
    have hnext : 123 ∉ pre ++ 47 :: segmentOf args segment := by
      rw [List.mem_append, List.mem_cons, not_or, not_or]
      exact ⟨hpre, by decide, fun hm ↦ (unit_cases (plain_segmentOf hclean _ hm)).2.2 rfl⟩
    have hstep := ih hrest hnext
    rw [List.append_assoc, List.append_assoc, List.cons_append, List.cons_append] at hstep
    cases segment with
    | literal t => exact hstep
    | parameter name =>
      rw [List.filterMap_cons_some (show (Segment.parameter name).name = some name from rfl),
        List.foldlM_cons, paramText_eq, List.findSome?_cons]
      cases hstop : paramStop args name with
      | some e => rfl
      | none =>
        have hbrace : 123 ∉ pre ++ [47] := by
          rw [List.mem_append, List.mem_singleton, not_or]
          exact ⟨hpre, by decide⟩
        have hreplace : replaceFirst (braced name) (percentEncode keptInComponent (textOf args name))
            (pre ++ templateText (.parameter name :: template)) =
            pre ++ 47 :: (segmentOf args (.parameter name) ++ templateText template) := by
          have h := replaceFirst_braced hbrace name
            (percentEncode keptInComponent (textOf args name)) (templateText template)
          rw [List.append_assoc, List.append_assoc] at h
          exact h
        rw [← hreplace] at hstep
        exact hstep

theorem fillPath_eq (h : route.Clean) (args : Arguments) : fillPath route args =
    match route.pathParams.findSome? (paramStop args) with
    | some e => .error e
    | none => .ok ((route.template.map (segmentOf args)).flatMap fun s ↦ 47 :: s) := by
  have hfill := @fill_template args [] _ h.segments (List.not_mem_nil (a := 123))
  rw [List.nil_append, ← h.text, ← h.pathParams] at hfill
  exact hfill

/-! ### The fields -/

def queryOf (route : Route) (f : JsString × Json) : Option (JsString × JsString) :=
  if f.1 ∈ route.pathParams then none
  else
    match propertyOf route.query f.1 with
    | .own _ => (stringOf f.2).map fun t ↦ (f.1, t)
    | _ => none

def bodyOf (route : Route) (f : JsString × Json) : Option (JsString × Json) :=
  if f.1 ∈ route.pathParams then none
  else
    match propertyOf route.query f.1 with
    | .missing => some f
    | _ => none

theorem mem_of_own {α : Type} {fields : List (JsString × α)} {key : JsString} {value : α}
    (h : propertyOf fields key = .own value) : (key, value) ∈ fields := by
  rw [propertyOf] at h
  split at h
  · rename_i v hv
    obtain ⟨g, hg, rfl⟩ := Option.map_eq_some_iff.1 hv
    have hfound := List.find?_some hg
    have hkey : g.1 = key := of_decide_eq_true hfound
    rw [← Property.own.inj h, ← hkey]
    exact List.mem_of_find?_eq_some hg
  · split_ifs at h

theorem addField_eq (h : route.Clean) (acc : List (JsString × JsString) × Arguments)
    (f : JsString × Json) : addField route acc f =
      match fieldStop route f with
      | some e => .error e
      | none => .ok (acc.1 ++ (queryOf route f).toList,
          ((bodyOf route f).toList).foldl (fun body f ↦ JsObject.set body f.1 f.2) acc.2) := by
  rw [addField, fieldStop, queryOf, bodyOf]
  by_cases hparam : f.1 ∈ route.pathParams
  · rw [if_pos hparam, if_pos hparam, if_pos hparam, if_pos hparam]
    dsimp only
    rw [Option.toList_none, List.append_nil]
    rfl
  · rw [if_neg hparam, if_neg hparam, if_neg hparam, if_neg hparam]
    cases hproperty : propertyOf route.query f.1 with
    | own style =>
      have hstyle := (h.styles _ (mem_of_own hproperty)).1
      dsimp only at hstyle ⊢
      rw [hstyle, appended]
      cases stringOf f.2 <;> rfl
    | inherited =>
      dsimp only
      rw [Option.toList_none, List.append_nil]
      rfl
    | missing =>
      dsimp only
      split_ifs
      · rfl
      · rw [Option.toList_none, List.append_nil]
        rfl

theorem addFields_eq (h : route.Clean) (acc : List (JsString × JsString) × Arguments) :
    args.foldlM (addField route) acc =
      match args.findSome? (fieldStop route) with
      | some e => .error e
      | none => .ok (acc.1 ++ args.filterMap (queryOf route),
          (args.filterMap (bodyOf route)).foldl (fun body f ↦ JsObject.set body f.1 f.2) acc.2) := by
  induction args generalizing acc with
  | nil =>
    rw [List.filterMap_nil, List.append_nil]
    rfl
  | cons f args ih =>
    rw [List.foldlM_cons, addField_eq h, List.findSome?_cons]
    cases fieldStop route f with
    | some e => rfl
    | none =>
      refine (ih _).trans ?_
      cases args.findSome? (fieldStop route) with
      | some e => rfl
      | none =>
        cases hquery : queryOf route f <;> cases hbody : bodyOf route f <;>
          simp [hquery, hbody]

theorem bodyOf_distinct (hargs : (args.map (·.1)).Nodup) :
    JsObject.Distinct (args.filterMap (bodyOf route)) := by
  have hfrom : ∀ f f', bodyOf route f = some f' → f' = f ∧ propertyOf route.query f.1 = .missing := by
    intro f f' h
    rw [bodyOf] at h
    split_ifs at h
    cases hproperty : propertyOf route.query f.1 with
    | own style =>
      rw [hproperty] at h
      cases h
    | inherited =>
      rw [hproperty] at h
      cases h
    | missing =>
      rw [hproperty] at h
      exact ⟨(Option.some.inj h).symm, rfl⟩
  constructor
  · have hsub : (args.filterMap (bodyOf route)).Sublist args := by
      have hguard : args.filterMap (bodyOf route) =
          args.filter (fun f ↦ (bodyOf route f).isSome) := by
        rw [← List.filterMap_eq_filter]
        refine List.filterMap_congr fun f _ ↦ ?_
        cases hbody : bodyOf route f with
        | none => simp [Option.guard, hbody]
        | some f' => simp [Option.guard, hbody, (hfrom f f' hbody).1]
      rw [hguard]
      exact List.filter_sublist
    exact hargs.sublist (hsub.map _)
  · intro f' hf' hkey
    obtain ⟨f, -, hbody⟩ := List.mem_filterMap.1 hf'
    obtain ⟨rfl, hmissing⟩ := hfrom f f' hbody
    rw [hkey, propertyOf] at hmissing
    split at hmissing
    · cases hmissing
    · rw [if_pos (by decide)] at hmissing
      cases hmissing

/-- What is built when nothing stops the call. -/
def requestOf (baseUrl : JsString) (tool : Tool) (args : Arguments) (token : Option JsString) :
    Request where
  method := tool.route.method
  url := withoutSlash baseUrl ++
    target (tool.route.template.map (segmentOf args)) (args.filterMap (queryOf tool.route))
  headers := headersOf tool.route token
  body := if isBodyless tool.route.method then none
    else some (.obj (args.filterMap (bodyOf tool.route)))

theorem buildRequest_eq {tool : Tool} (h : tool.route.Clean) (hargs : (args.map (·.1)).Nodup)
    (baseUrl : JsString) (token : Option JsString) : buildRequest baseUrl tool args token =
      match firstStop tool.route args with
      | some e => .error e
      | none => .ok (requestOf baseUrl tool args token) := by
  rw [buildRequest, fillPath_eq h, firstStop]
  cases tool.route.pathParams.findSome? (paramStop args) with
  | some e => rfl
  | none =>
    have hfields : args.foldlM (addField tool.route) ([], []) = _ := addFields_eq h ([], [])
    rw [Option.none_or]
    change args.foldlM (addField tool.route) ([], []) >>= _ = _
    cases hstop : args.findSome? (fieldStop tool.route) with
    | some e =>
      rw [hstop] at hfields
      rw [hfields]
      rfl
    | none =>
      rw [hstop, JsObject.foldl_set (by simpa using bodyOf_distinct hargs)] at hfields
      rw [hfields, requestOf, target, ← List.append_assoc]
      rfl

/-! ### Reading the request -/

variable {site : Site} {tool : Tool} {baseUrl : JsString} {token : Option JsString}

theorem template_ne_nil (route : Route) : route.template ≠ [] := by
  rw [Route.template, ne_eq, List.map_eq_nil_iff]
  exact List.splitOn_ne_nil 47 _

theorem parse_requestOf (h : tool.route.Clean) (hbase : withoutSlash baseUrl = site.text) :
    site.parse (requestOf baseUrl tool args token).url = some
      { origin := site.origin
        path := walk [] (tool.route.template.map (segmentOf args))
        query := if formText (args.filterMap (queryOf tool.route)) = [] then none
          else some (formText (args.filterMap (queryOf tool.route)))
        fragment := none } := by
  obtain ⟨p, l, hpl⟩ := List.exists_cons_of_ne_nil
    (show tool.route.template.map (segmentOf args) ≠ [] from
      fun he ↦ template_ne_nil tool.route (List.map_eq_nil_iff.1 he))
  rw [requestOf, hbase, hpl]
  refine Site.parse_target fun s hs u hu ↦ ?_
  rw [← hpl] at hs
  obtain ⟨segment, hsegment, rfl⟩ := List.mem_map.1 hs
  have hunit := unit_cases (plain_segmentOf (h.segments segment hsegment) u hu)
  exact ⟨hunit.1, hunit.2.1⟩

theorem get_of_own {α : Type} {fields : List (JsString × α)} {key : JsString} {value : α}
    (h : propertyOf fields key = .own value) : JsObject.get fields key = some value := by
  rw [propertyOf] at h
  split at h
  · rename_i w hw
    rw [hw]
    exact congrArg some (Property.own.inj h)
  · split_ifs at h

/-- A parameter that stops nothing has a text. -/
theorem exists_text (h : paramStop args name = none) : ∃ v, JsObject.get args name = some v ∧
    scalarText v = some (textOf args name) ∧ wellFormed (textOf args name) = true := by
  rw [paramStop] at h
  split at h
  · cases h
  · cases h
  · rename_i s hs
    have hget := get_of_own hs
    split_ifs at h with hwell
    rw [textOf, hget]
    exact ⟨_, rfl, rfl, hwell⟩
  · rename_i n hn
    have hget := get_of_own hn
    rw [textOf, hget]
    exact ⟨_, rfl, rfl, wellFormed_toJs n⟩
  · cases h
  · cases h

/-- Every segment is the encoding of the text that it is decoded to. -/
theorem segment_encoded {segment : Segment} (h : segment.clean = true)
    (hstop : ∀ n, segment.name = some n → paramStop args n = none) :
    ∃ t, segmentOf args segment = percentEncode keptInComponent t ∧ wellFormed t = true ∧
      (∀ l, segment = .literal l → t = l) ∧ ∀ n, segment = .parameter n → t = textOf args n := by
  cases segment with
  | literal l =>
    have hplain := (Segment.clean_literal h).1
    refine ⟨l, (percentEncode_of_plain hplain).symm, wellFormed_of_ascii fun u hu ↦ (hplain u hu).1,
      fun l' h ↦ Segment.literal.inj h, fun n h ↦ (by cases h)⟩
  | parameter n =>
    obtain ⟨v, -, -, hwell⟩ := exists_text (hstop n rfl)
    refine ⟨textOf args n, rfl, hwell, fun l h ↦ (by cases h), fun n' h ↦ ?_⟩
    rw [Segment.parameter.inj h]

theorem decode_encoded (h : wellFormed t = true) :
    decodeComponent (percentEncode keptInComponent t) = some t :=
  decodeComponent_encodeComponent (by rw [encodeComponent, if_pos h])

def Undotted (route : Route) (args : Arguments) : Prop :=
  ∀ name ∈ route.pathParams, textOf args name ≠ js "." ∧ textOf args name ≠ js ".."

variable (h : route.Clean) (hstop : ∀ n ∈ route.pathParams, paramStop args n = none)

include h

/-- Without dots the parser leaves the path as it is. -/
theorem walk_of_undotted (hdots : Undotted route args) :
    walk [] (route.template.map (segmentOf args)) = route.template.map (segmentOf args) := by
  refine (walk_of_dotless fun s hs ↦ ?_).trans (List.nil_append _)
  obtain ⟨segment, hsegment, rfl⟩ := List.mem_map.1 hs
  cases segment with
  | literal l => exact (Segment.clean_literal (h.segments _ hsegment)).2
  | parameter n =>
    refine (dotless_encoded rfl rfl).2 (hdots n ?_)
    rw [h.pathParams]
    exact List.mem_filterMap.2 ⟨_, hsegment, rfl⟩

include hstop

theorem segments_encoded : ∀ segment ∈ route.template,
    ∃ t, segmentOf args segment = percentEncode keptInComponent t ∧ wellFormed t = true ∧
      (∀ l, segment = .literal l → t = l) ∧ ∀ n, segment = .parameter n → t = textOf args n := by
  intro segment hsegment
  refine segment_encoded (h.segments segment hsegment) fun n hn ↦ hstop n ?_
  rw [h.pathParams]
  exact List.mem_filterMap.2 ⟨segment, hsegment, hn⟩

theorem matches_segments :
    List.Forall₂ (Matches args) route.template (route.template.map (segmentOf args)) := by
  rw [List.forall₂_map_right_iff, List.forall₂_same]
  intro segment hsegment
  obtain ⟨t, hencoded, hwell, hliteral, hparameter⟩ := segments_encoded h hstop segment hsegment
  cases segment with
  | literal l => rfl
  | parameter n =>
    have hn : n ∈ route.pathParams := by
      rw [h.pathParams]
      exact List.mem_filterMap.2 ⟨_, hsegment, rfl⟩
    obtain ⟨v, hv, htext, -⟩ := exists_text (hstop n hn)
    refine ⟨v, _, hv, htext, ?_⟩
    rw [hencoded, decode_encoded hwell, hparameter n rfl]

/-- A dot does not arrive as a segment. -/
theorem undotted_of_matches (hmatches : List.Forall₂ (Matches args) route.template
    (walk [] (route.template.map (segmentOf args)))) : Undotted route args := by
  intro name hname
  by_contra hdots
  have hdot : textOf args name = js "." ∨ textOf args name = js ".." := by
    by_contra hne
    rw [not_or] at hne
    exact hdots hne
  rw [h.pathParams] at hname
  obtain ⟨segment, hsegment, hnamed⟩ := List.mem_filterMap.1 hname
  cases segment with
  | literal l => cases hnamed
  | parameter n =>
    obtain rfl := Option.some.inj hnamed
    obtain ⟨s, hs, v, t, hv, ht, hdecoded⟩ :=
      (Attempt.exists_of_forall₂ hmatches).1 _ hsegment
    have htext : t = textOf args n := by
      rw [textOf, hv, Option.bind_some, ht, Option.getD_some]
    subst htext
    rcases mem_walk hs with hs | rfl | ⟨hs, hdotless⟩
    · cases hs
    · have hnil : decodeComponent [] = some [] := rfl
      rw [hnil] at hdecoded
      rcases hdot with hdot | hdot <;> rw [hdot] at hdecoded <;> cases hdecoded
    · obtain ⟨other, hother, rfl⟩ := List.mem_map.1 hs
      obtain ⟨t, hencoded, hwell, -, -⟩ := segments_encoded h hstop other hother
      rw [hencoded, decode_encoded hwell, Option.some_inj] at hdecoded
      rw [hencoded, dotless_encoded rfl rfl, hdecoded] at hdotless
      rcases hdot with hdot | hdot
      · exact hdotless.1 hdot
      · exact hdotless.2 hdot

/-! ### Finding the arguments -/

theorem filterMap_pathPlace : (route.template.zip (route.template.map (segmentOf args))).filterMap
    pathPlace = route.pathParams.map fun n ↦ (n, Place.text (textOf args n)) := by
  rw [h.pathParams, List.map_filterMap, ← List.map_prod_left_eq_zip, List.filterMap_map]
  refine List.filterMap_congr fun segment hsegment ↦ ?_
  obtain ⟨t, hencoded, hwell, -, hparameter⟩ := segments_encoded h hstop segment hsegment
  cases segment with
  | literal l => rfl
  | parameter n =>
    rw [Function.comp_apply, pathPlace, hencoded, decode_encoded hwell, hparameter n rfl]
    rfl

omit h hstop

theorem filter_of_filterMap {α β : Type} {g : α → Option β} {ka : α → JsString} {kb : β → JsString}
    (hg : ∀ a b, g a = some b → kb b = ka a) (l : List α) (key : JsString) :
    (l.filterMap g).filter (fun b ↦ kb b = key) = (l.filter (fun a ↦ ka a = key)).filterMap g := by
  rw [List.filter_filterMap, List.filterMap_filter]
  refine List.filterMap_congr fun a _ ↦ ?_
  cases hb : g a with
  | none => simp
  | some b => simp [Option.filter, hg a b hb]

theorem queryPlaces_form (pairs : List (JsString × JsString)) :
    queryPlaces (if formText pairs = [] then none else some (formText pairs)) =
      pairs.map fun f ↦ (repaired f.1, .text (repaired f.2)) := by
  have hparse := formParse_formText pairs
  split_ifs with hempty
  · rw [hempty] at hparse
    have hnil : pairs = [] := List.map_eq_nil_iff.1 (Option.some.inj hparse).symm
    rw [hnil]
    rfl
  · rw [queryPlaces, Option.bind_some, hparse, Option.getD_some, List.map_map]
    rfl

theorem queryOf_key {g : JsString × JsString} (hg : queryOf route f = some g) : g.1 = f.1 := by
  rw [queryOf] at hg
  split_ifs at hg
  split at hg
  · obtain ⟨t, -, rfl⟩ := Option.map_eq_some_iff.1 hg
    rfl
  · cases hg

theorem bodyOf_key {g : JsString × Json} (hg : bodyOf route f = some g) : g.1 = f.1 := by
  rw [bodyOf] at hg
  split_ifs at hg
  split at hg
  · rw [Option.some.inj hg]
  · cases hg

theorem bodyOf_bodyless (hbodyless : isBodyless route.method = true)
    (hfield : fieldStop route f = none) : bodyOf route f = none := by
  rw [fieldStop] at hfield
  rw [bodyOf]
  by_cases hparam : f.1 ∈ route.pathParams
  · rw [if_pos hparam]
  · rw [if_neg hparam] at hfield ⊢
    cases hproperty : propertyOf route.query f.1 with
    | missing =>
      rw [hproperty] at hfield
      dsimp only at hfield
      rw [if_pos hbodyless] at hfield
      cases hfield
    | _ => rfl

theorem filterMap_one {α β : Type} (g : α → Option β) (a : α) : [a].filterMap g = (g a).toList := by
  cases hg : g a <;> simp [hg]

/-- The address of a request whose path has no dots. -/
def urlOf (site : Site) (route : Route) (args : Arguments) : Url where
  origin := site.origin
  path := route.template.map (segmentOf args)
  query := if formText (args.filterMap (queryOf route)) = [] then none
    else some (formText (args.filterMap (queryOf route)))
  fragment := none

theorem repaired_name (h : route.Clean) {g : JsString × JsString} (hg : queryOf route f = some g) :
    repaired g.1 = g.1 := by
  have hkey := queryOf_key hg
  rw [queryOf] at hg
  split_ifs at hg
  split at hg
  · rename_i style hstyle
    rw [hkey]
    exact repaired_eq_iff.2 (h.styles _ (mem_of_own hstyle)).2
  · cases hg

theorem found_eq {tool : Tool} (h : tool.route.Clean)
    (hstop : ∀ n ∈ tool.route.pathParams, paramStop args n = none)
    (hfields : ∀ f ∈ args, fieldStop tool.route f = none) (hargs : (args.map (·.1)).Nodup)
    (hf : f ∈ args) :
    found tool.route (requestOf baseUrl tool args token) (urlOf site tool.route args) f.1 =
      (if f.1 ∈ tool.route.pathParams then [Place.text (textOf args f.1)] else []) ++
        (queryOf tool.route f).toList.map (fun g ↦ .text (repaired g.2)) ++
        (bodyOf tool.route f).toList.map fun g ↦ .json (reread g.2) := by
  have hone : args.filter (fun g ↦ g.1 = f.1) = [f] := Keyed.filter_key hargs hf
  rw [found, List.filter_append, List.filter_append, List.map_append, List.map_append]
  congr 1
  · congr 1
    · rw [urlOf, filterMap_pathPlace h hstop]
      have hnames : ((tool.route.pathParams.map fun n ↦
          (n, Place.text (textOf args n))).map Prod.fst).Nodup := by
        rw [List.map_map, show Prod.fst ∘ (fun n ↦ (n, Place.text (textOf args n))) = id from rfl,
          List.map_id, h.pathParams]
        exact h.names
      split_ifs with hparam
      · have hplace := Keyed.filter_key hnames (List.mem_map_of_mem hparam)
        rw [hplace]
        rfl
      · rw [List.map_eq_nil_iff, List.filter_eq_nil_iff]
        intro place hplace
        obtain ⟨n, hn, rfl⟩ := List.mem_map.1 hplace
        rw [decide_eq_true_eq]
        exact fun he ↦ hparam (he ▸ hn)
    · have hsame : (args.filterMap (queryOf tool.route)).map (fun g ↦
          (repaired g.1, Place.text (repaired g.2))) =
          (args.filterMap (queryOf tool.route)).map fun g ↦ (g.1, Place.text (repaired g.2)) := by
        refine List.map_congr_left fun g hg ↦ ?_
        obtain ⟨f', -, hg⟩ := List.mem_filterMap.1 hg
        rw [repaired_name h hg]
      rw [urlOf, queryPlaces_form, hsame, List.filter_map]
      have hfilter : (args.filterMap (queryOf tool.route)).filter (fun g ↦ g.1 = f.1) =
          (args.filter fun g ↦ g.1 = f.1).filterMap (queryOf tool.route) :=
        filter_of_filterMap (fun _ _ hg ↦ queryOf_key hg) args f.1
      rw [hone, filterMap_one] at hfilter
      rw [List.map_map]
      exact congrArg (List.map _) hfilter
  · have hfilter : (args.filterMap (bodyOf tool.route)).filter (fun g ↦ g.1 = f.1) =
        (args.filter fun g ↦ g.1 = f.1).filterMap (bodyOf tool.route) :=
      filter_of_filterMap (fun _ _ hg ↦ bodyOf_key hg) args f.1
    rw [hone, filterMap_one] at hfilter
    have hbody : bodyPlaces (requestOf baseUrl tool args token).body =
        (args.filterMap (bodyOf tool.route)).map fun g ↦ (g.1, Place.json (reread g.2)) := by
      rw [requestOf]
      split_ifs with hbodyless
      · have hnone : args.filterMap (bodyOf tool.route) = [] :=
          List.filterMap_eq_nil_iff.2 fun g hg ↦ bodyOf_bodyless hbodyless (hfields g hg)
        rw [hnone]
        rfl
      · rfl
    rw [hbody, List.filter_map, List.map_map]
    exact congrArg (List.map _) hfilter

theorem scalarText_cases (v : Json) : scalarText v = none ∨ scalarText v = stringOf v := by
  cases v with
  | arr items => exact .inl rfl
  | obj fields => exact .inl rfl
  | _ => exact .inr rfl

theorem arrives_iff {tool : Tool} (h : tool.route.Clean)
    (hstop : ∀ n ∈ tool.route.pathParams, paramStop args n = none)
    (hfields : ∀ f ∈ args, fieldStop tool.route f = none) (hargs : (args.map (·.1)).Nodup)
    (hf : f ∈ args) :
    (∃ p, found tool.route (requestOf baseUrl tool args token) (urlOf site tool.route args) f.1 =
      [p] ∧ p.Holds f.2) ↔ (f.1 ∉ tool.route.pathParams → Kept tool.route f) := by
  rw [found_eq h hstop hfields hargs hf]
  by_cases hparam : f.1 ∈ tool.route.pathParams
  · refine iff_of_true ⟨.text (textOf args f.1), ?_, ?_⟩ (absurd hparam)
    · rw [if_pos hparam, queryOf, if_pos hparam, bodyOf, if_pos hparam]
      rfl
    · obtain ⟨v, hv, htext, -⟩ := exists_text (hstop f.1 hparam)
      have hget : JsObject.get args f.1 = some f.2 :=
        congrArg (Option.map Prod.snd) (Keyed.lookup_of_mem hargs hf)
      rw [hget] at hv
      rw [Option.some.inj hv]
      exact htext
  · rw [if_neg hparam, List.nil_append, queryOf, if_neg hparam, bodyOf, if_neg hparam,
      imp_iff_right hparam, Kept]
    have hfield := hfields f hf
    rw [fieldStop, if_neg hparam] at hfield
    cases hproperty : propertyOf tool.route.query f.1 with
    | own style =>
      rw [hproperty] at hfield
      dsimp only at hfield ⊢
      split_ifs at hfield with hsome
      obtain ⟨t, ht⟩ := Option.isSome_iff_exists.1 hsome
      rw [ht]
      constructor
      · rintro ⟨p, hp, hholds⟩
        obtain rfl := List.singleton_injective hp
        have hscalar := (scalarText_cases f.2).resolve_left (by rw [hholds]; exact Option.some_ne_none _)
        have hrepaired := hholds.symm.trans (hscalar.trans ht)
        exact ⟨t, hscalar.trans ht, repaired_eq_iff.1 (Option.some.inj hrepaired)⟩
      · rintro ⟨t', ht', hwell⟩
        have hscalar := (scalarText_cases f.2).resolve_left (by rw [ht']; exact Option.some_ne_none _)
        obtain rfl : t' = t := Option.some.inj (ht'.symm.trans (hscalar.trans ht))
        refine ⟨.text (repaired t'), rfl, ?_⟩
        rw [repaired_eq_iff.2 hwell]
        exact ht'
    | inherited =>
      refine iff_of_false ?_ id
      rintro ⟨p, hp, -⟩
      cases hp
    | missing =>
      constructor
      · rintro ⟨p, hp, hholds⟩
        obtain rfl := List.singleton_injective hp
        exact hholds
      · exact fun hkept ↦ ⟨_, rfl, hkept⟩

theorem faithful_iff {tool : Tool} (h : tool.route.Clean) (hstop : firstStop tool.route args = none)
    (hargs : (args.map (·.1)).Nodup) (hbase : withoutSlash baseUrl = site.text) :
    (∃ url, site.parse (requestOf baseUrl tool args token).url = some url ∧
      Faithful site tool.route args (requestOf baseUrl tool args token) url) ↔
      Undotted tool.route args ∧ ∀ f ∈ args, f.1 ∉ tool.route.pathParams → Kept tool.route f := by
  rw [firstStop, Option.or_eq_none_iff, List.findSome?_eq_none_iff, List.findSome?_eq_none_iff] at hstop
  obtain ⟨hparams, hfields⟩ := hstop
  rw [parse_requestOf h hbase]
  constructor
  · rintro ⟨url, hurl, hfaithful⟩
    obtain rfl := Option.some.inj hurl
    have hdots := undotted_of_matches h hparams hfaithful.path
    have hwalk := walk_of_undotted h hdots
    rw [hwalk] at hfaithful
    exact ⟨hdots, fun f hf ↦ (arrives_iff h hparams hfields hargs hf).1 (hfaithful.arguments f hf)⟩
  · rintro ⟨hdots, hkept⟩
    refine ⟨urlOf site tool.route args, ?_, ?_⟩
    · rw [walk_of_undotted h hdots]
      rfl
    · exact ⟨rfl, matches_segments h hparams,
        fun f hf ↦ (arrives_iff h hparams hfields hargs hf).2 (hkept f hf)⟩

/-- Refused or faithful, for the routes whose templates no parser changes. -/
theorem exact_iff {tool : Tool} (h : tool.route.Clean) (hargs : (args.map (·.1)).Nodup)
    (hbase : withoutSlash baseUrl = site.text) :
    Exact site tool.route args (buildRequest baseUrl tool args token) ↔
      Sendable tool.route args := by
  rw [buildRequest_eq h hargs, Sendable]
  cases hstop : firstStop tool.route args with
  | some e =>
    cases e with
    | refused failure => exact iff_of_true trivial (.inl ⟨failure, rfl⟩)
    | threw =>
      refine iff_of_false id ?_
      rintro (⟨failure, hfailure⟩ | ⟨hnone, -⟩)
      · cases hfailure
      · cases hnone
  | none =>
    refine (faithful_iff h hstop hargs hbase).trans ⟨fun hgood ↦ .inr ⟨rfl, hgood⟩, ?_⟩
    rintro (⟨failure, hfailure⟩ | ⟨-, hgood⟩)
    · cases hfailure
    · exact hgood

theorem call_exact_iff {site : Site} {tool : Tool} {args : Arguments} {baseUrl : JsString}
    {token : Option JsString} (htool : tool ∈ tools) (hargs : (args.map (·.1)).Nodup)
    (hbase : withoutSlash baseUrl = site.text) :
    Exact site tool.route args (buildRequest baseUrl tool args token) ↔
      Sendable tool.route args :=
  exact_iff (tools_clean tool htool) hargs hbase

def api : Site := ⟨js "https://api.counted.dev", ⟨true, js "api.counted.dev", none⟩⟩

def removeTile : Tool := exposure "tiles.remove" .delete "/v1/dashboards/{dashboardId}/tiles/{tileId}" []

theorem removeTile_exact_iff :
    Exact api removeTile.route [(js "dashboardId", .str (js "d_1")), (js "tileId", .str (js "t_1"))]
      (buildRequest (js "https://api.counted.dev/") removeTile
        [(js "dashboardId", .str (js "d_1")), (js "tileId", .str (js "t_1"))] none) ↔
      Sendable removeTile.route
        [(js "dashboardId", .str (js "d_1")), (js "tileId", .str (js "t_1"))] :=
  call_exact_iff (by simp [tools, removeTile]) (by decide) rfl

def upwards : Arguments := [(js "dashboardId", .str (js "d_1")), (js "tileId", .str (js ".."))]

def createDashboard : Tool := exposure "dashboards.create" .post "/v1/workspaces/{workspaceId}/dashboards" []

def inheritedName : Arguments :=
  [(js "workspaceId", .str (js "ws_1")), (js "constructor", .str (js "me"))]

/-- The call to remove a tile becomes one to delete the dashboard, and a field is dropped whose
name every object inherits. -/
theorem dots_reach_another_route :
    (buildRequest (js "https://api.counted.dev") removeTile upwards none).toOption.map
      (fun r ↦ (r.method, (api.parse r.url).map Url.pathname)) =
      some (.delete, some (js "/v1/dashboards/d_1/")) ∧
    (¬ Exact api removeTile.route upwards
      (buildRequest (js "https://api.counted.dev") removeTile upwards none)) ∧
    ¬ Exact api createDashboard.route inheritedName
      (buildRequest (js "https://api.counted.dev") createDashboard inheritedName none) := by
  refine ⟨by decide +kernel, ?_, ?_⟩
  · rw [exact_iff (by decide +kernel) (by decide) rfl]
    rintro (⟨failure, hfailure⟩ | ⟨-, hdots, -⟩)
    · cases hfailure
    · exact (hdots (js "tileId") (by decide +kernel)).2 (by decide +kernel)
  · rw [exact_iff (by decide +kernel) (by decide) rfl]
    rintro (⟨failure, hfailure⟩ | ⟨-, -, hkept⟩)
    · cases hfailure
    · exact hkept (js "constructor", .str (js "me")) (by simp [inheritedName]) (by decide +kernel)

end Counted.Mcp
