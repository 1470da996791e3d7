import Counted.Mcp.Invoke

namespace Counted.Mcp

open Foundations

def exposure (id : String) (method : Method) (path : String)
    (query : List (JsString × QueryStyle)) : Tool := ⟨js id, ⟨method, js path, query⟩⟩

/-- The exposed procedures, with the routes that the contract gives them. -/
def tools : List Tool :=
  [ exposure "account.me" .get "/v1/me" [],
    exposure "credentials.self" .get "/v1/me/credential" [],
    exposure "workspaces.list" .get "/v1/workspaces" [],
    exposure "workspaces.get" .get "/v1/workspaces/{workspaceId}" [],
    exposure "workspaces.usage" .get "/v1/workspaces/{workspaceId}/usage" [],
    exposure "projects.list" .get "/v1/workspaces/{workspaceId}/projects"
      [(js "includeArchived", .primitive)],
    exposure "projects.get" .get "/v1/projects/{projectId}" [],
    exposure "projects.create" .post "/v1/workspaces/{workspaceId}/projects" [],
    exposure "projects.provision" .post "/v1/projects/provision" [],
    exposure "projects.claim" .post "/v1/projects/{projectId}/claim" [],
    exposure "projects.rename" .patch "/v1/projects/{projectId}" [],
    exposure "projects.setRetention" .put "/v1/projects/{projectId}/retention" [],
    exposure "projects.archive" .post "/v1/projects/{projectId}/archive" [],
    exposure "projects.restore" .post "/v1/projects/{projectId}/restore" [],
    exposure "credentials.list" .get "/v1/projects/{projectId}/credentials" [],
    exposure "credentials.listForWorkspace" .get "/v1/workspaces/{workspaceId}/credentials" [],
    exposure "credentials.issue" .post "/v1/projects/{projectId}/credentials" [],
    exposure "credentials.rotate" .post
      "/v1/projects/{projectId}/credentials/{credentialId}/rotate" [],
    exposure "dashboards.list" .get "/v1/workspaces/{workspaceId}/dashboards" [],
    exposure "dashboards.create" .post "/v1/workspaces/{workspaceId}/dashboards" [],
    exposure "dashboards.get" .get "/v1/dashboards/{dashboardId}" [],
    exposure "dashboards.layout" .put "/v1/dashboards/{dashboardId}/layout" [],
    exposure "dashboards.rename" .patch "/v1/dashboards/{dashboardId}" [],
    exposure "dashboards.setDefault" .put "/v1/dashboards/{dashboardId}/default" [],
    exposure "dashboards.readouts" .post "/v1/dashboards/{dashboardId}/readouts" [],
    exposure "tiles.get" .get "/v1/dashboards/{dashboardId}/tiles/{tileId}" [],
    exposure "tiles.add" .post "/v1/dashboards/{dashboardId}/tiles" [],
    exposure "tiles.update" .patch "/v1/dashboards/{dashboardId}/tiles/{tileId}" [],
    exposure "tiles.resize" .put "/v1/dashboards/{dashboardId}/tiles/{tileId}/width" [],
    exposure "tiles.move" .put "/v1/dashboards/{dashboardId}/tiles/{tileId}/position" [],
    exposure "tiles.reorder" .put "/v1/dashboards/{dashboardId}/tile-order" [],
    exposure "tiles.remove" .delete "/v1/dashboards/{dashboardId}/tiles/{tileId}" [],
    exposure "monitors.list" .get "/v1/workspaces/{workspaceId}/monitors" [],
    exposure "monitors.listForProject" .get "/v1/projects/{projectId}/monitors" [],
    exposure "monitors.create" .post "/v1/projects/{projectId}/monitors" [],
    exposure "monitors.get" .get "/v1/monitors/{monitorId}" [],
    exposure "monitors.update" .patch "/v1/monitors/{monitorId}" [],
    exposure "monitors.enable" .post "/v1/monitors/{monitorId}/enable" [],
    exposure "monitors.disable" .post "/v1/monitors/{monitorId}/disable" [],
    exposure "queries.run" .post "/v1/projects/{projectId}/queries" [],
    exposure "queries.schema" .get "/v1/projects/{projectId}/schema" [],
    exposure "queries.dimensionValues" .get "/v1/projects/{projectId}/dimensions/{dimension}/values"
      [(js "limit", .primitive)] ]

/-! ### Templates -/

inductive Segment
  | literal (text : JsString)
  | parameter (name : JsString)
  deriving DecidableEq

namespace Segment

def text : Segment → JsString
  | literal t => t
  | parameter name => braced name

def name : Segment → Option JsString
  | literal _ => none
  | parameter name => some name

/-- A segment as it stands in a path, which is a parameter if it is in braces. -/
def ofText (s : JsString) : Segment :=
  if s.head? = some 123 ∧ s.getLast? = some 125 then parameter s.tail.dropLast else literal s

/-- Literals that no parser changes, and names of letters and digits. -/
def clean : Segment → Bool
  | literal t => t.all (fun u ↦ keptInComponent u.toNat && u < 128) && !isDot t && !isDoubleDot t
  | parameter name =>
    name ≠ [] && name.all (fun u ↦ isAlphanumeric u.toNat) && !JsObject.inherited.contains name

end Segment

def templateText (template : List Segment) : JsString := template.flatMap fun s ↦ 47 :: s.text

def Route.template (route : Route) : List Segment := (route.path.tail.splitOn 47).map Segment.ofText

structure Route.Clean (route : Route) : Prop where
  text : route.path = templateText route.template
  segments : ∀ s ∈ route.template, s.clean = true
  names : (route.template.filterMap Segment.name).Nodup
  styles : ∀ f ∈ route.query, f.2 = .primitive ∧ wellFormed f.1 = true

instance (route : Route) : Decidable route.Clean :=
  decidable_of_iff (route.path = templateText route.template ∧
      (∀ s ∈ route.template, s.clean = true) ∧ (route.template.filterMap Segment.name).Nodup ∧
      ∀ f ∈ route.query, f.2 = .primitive ∧ wellFormed f.1 = true)
    ⟨fun h ↦ ⟨h.1, h.2.1, h.2.2.1, h.2.2.2⟩,
      fun h ↦ ⟨h.text, h.segments, h.names, h.styles⟩⟩

theorem tools_clean : ∀ tool ∈ tools, tool.route.Clean := by
  decide +kernel

/-! ### The parameters of a template -/

variable {name s t : JsString} {template : List Segment} {route : Route}

theorem pathParamsFrom_plain (hs : ∀ u ∈ s, u ≠ 123) :
    pathParamsFrom none (s ++ t) = pathParamsFrom none t := by
  induction s with
  | nil => rfl
  | cons u s ih =>
    rw [List.cons_append, pathParamsFrom, if_neg (hs u List.mem_cons_self),
      ih fun v hv ↦ hs v (List.mem_cons_of_mem u hv)]

theorem pathParamsFrom_open (hs : ∀ u ∈ s, u ≠ 125) :
    pathParamsFrom (some name) (s ++ t) = pathParamsFrom (some (name ++ s)) t := by
  induction s generalizing name with
  | nil => rw [List.append_nil, List.nil_append]
  | cons u s ih =>
    rw [List.cons_append, pathParamsFrom, if_neg (hs u List.mem_cons_self),
      ih fun v hv ↦ hs v (List.mem_cons_of_mem u hv), List.append_assoc, List.singleton_append]

theorem pathParamsFrom_braced (hne : s ≠ []) (hs : ∀ u ∈ s, u ≠ 125) :
    pathParamsFrom none (braced s ++ t) = s :: pathParamsFrom none t := by
  rw [braced, List.cons_append, List.cons_append, pathParamsFrom, if_pos rfl, List.append_assoc,
    pathParamsFrom_open hs, List.nil_append, List.singleton_append, pathParamsFrom, if_pos rfl,
    if_neg hne]

theorem isAlphanumeric_cases {p : ℕ} (h : isAlphanumeric p = true) :
    48 ≤ p ∧ p ≤ 57 ∨ 65 ≤ p ∧ p ≤ 90 ∨ 97 ≤ p ∧ p ≤ 122 := by
  simp only [isAlphanumeric, Bool.or_eq_true, Bool.and_eq_true, decide_eq_true_eq] at h
  omega

theorem keptInComponent_cases {p : ℕ} (h : keptInComponent p = true) :
    isAlphanumeric p = true ∨ p ∈ [33, 39, 40, 41, 42, 45, 46, 95, 126] := by
  simpa only [keptInComponent, Bool.or_eq_true, decide_eq_true_eq] using h

namespace Segment

variable {segment : Segment}

theorem clean_literal (h : (literal t).clean = true) :
    (∀ u ∈ t, Foundations.Plain keptInComponent u) ∧ Dotless t := by
  simp only [clean, Bool.and_eq_true, Bool.not_eq_true', List.all_eq_true, decide_eq_true_eq] at h
  exact ⟨fun u hu ↦ ⟨UInt16.lt_iff_toNat_lt.1 (h.1.1 u hu).2, (h.1.1 u hu).1⟩, h.1.2, h.2⟩

theorem clean_parameter (h : (parameter name).clean = true) :
    name ≠ [] ∧ (∀ u ∈ name, isAlphanumeric u.toNat = true) ∧ name ∉ JsObject.inherited := by
  simp only [clean, Bool.and_eq_true, Bool.not_eq_true', List.all_eq_true, decide_eq_true_eq] at h
  refine ⟨h.1.1, h.1.2, fun hm ↦ ?_⟩
  rw [List.contains_eq_mem, decide_eq_true hm] at h
  exact absurd h.2 (by decide)

end Segment

theorem pathParams_template (h : ∀ s ∈ template, s.clean = true) :
    pathParamsOf (templateText template) = template.filterMap Segment.name := by
  rw [pathParamsOf, templateText]
  induction template with
  | nil => rfl
  | cons segment template ih =>
    have hrest := ih fun s hs ↦ h s (List.mem_cons_of_mem segment hs)
    have hclean := h segment List.mem_cons_self
    rw [List.flatMap_cons, List.cons_append, pathParamsFrom, if_neg (by decide)]
    cases segment with
    | literal t =>
      rw [List.filterMap_cons_none rfl, ← hrest]
      refine pathParamsFrom_plain fun u hu ↦ ?_
      rintro rfl
      exact absurd ((Segment.clean_literal hclean).1 123 hu).2 (by decide)
    | parameter name =>
      obtain ⟨hne, hname, -⟩ := Segment.clean_parameter hclean
      rw [List.filterMap_cons_some (show (Segment.parameter name).name = some name from rfl), ← hrest]
      refine pathParamsFrom_braced hne fun u hu ↦ ?_
      rintro rfl
      exact absurd (hname 125 hu) (by decide)

theorem Route.Clean.pathParams (h : route.Clean) :
    route.pathParams = route.template.filterMap Segment.name := by
  rw [Route.pathParams, h.text]
  exact pathParams_template h.segments

end Counted.Mcp
