import Counted.Foundations.Cursors
import Counted.Foundations.StableSort
import Counted.Identity.Membership

namespace Counted.Identity

open Foundations
open Ingestion (WorkspaceId)

structure OrganizationRecord where
  workspace : WorkspaceId
  name : JsString
  createdAt : Instant
  owner : Option AccountId
  deriving DecidableEq

structure OrganizationCursor where
  createdAt : Instant
  workspace : WorkspaceId
  deriving DecidableEq

def OrganizationRecord.cursor (r : OrganizationRecord) : OrganizationCursor := ⟨r.createdAt, r.workspace⟩

structure OrganizationPage where
  items : List OrganizationRecord
  cursor : Option OrganizationCursor
  deriving DecidableEq

/-- The records past a cursor, in order, up to a number of them. -/
abbrev RecordsAfter := Option OrganizationCursor → ℕ → List OrganizationRecord

/-- `page`, of either adapter. -/
def organizationPage (records : RecordsAfter) (limit : ℕ) (cursor : Option OrganizationCursor) :
    Except JsString OrganizationPage :=
  if limit < 1 ∨ 10000 < limit then
    .error (js "Organization page size must be between 1 and 10000.")
  else
    let found := records cursor (limit + 1)
    let items := found.take limit
    .ok ⟨items, if limit < found.length then items.getLast?.map (·.cursor) else none⟩

/-! ### PostgreSQL -/

/-- The order of the database for texts. -/
structure Collation where
  le : JsString → JsString → Bool
  total : ∀ a b, le a b = true ∨ le b a = true
  trans : ∀ a b c, le a b = true → le b c = true → le a c = true
  antisymm : ∀ a b, le a b = true → le b a = true → a = b

/-- A row of `organization`. A `timestamptz` counts microseconds. -/
structure OrganizationRow where
  id : WorkspaceId
  name : JsString
  createdAt : ℤ
  deriving DecidableEq

structure MemberColumns where
  organizationId : WorkspaceId
  userId : AccountId
  role : JsString
  createdAt : ℤ

structure IdentityTables where
  organizations : List OrganizationRow
  members : List MemberColumns
  users : List AccountId
  distinct : (organizations.map (·.id)).Nodup

abbrev RowKey := ℤ × JsString

/-- `ORDER BY` an instant and a text. -/
def Collation.keyLe (c : Collation) (a b : RowKey) : Prop := a.1 < b.1 ∨ a.1 = b.1 ∧ c.le a.2 b.2

instance (c : Collation) : DecidableRel c.keyLe := fun _ _ ↦ inferInstanceAs (Decidable (_ ∨ _))

/-- The comparison of two rows `(a) < (b)`. -/
def Collation.before (c : Collation) (a b : RowKey) : Bool :=
  a.1 < b.1 || (a.1 = b.1 && !c.le b.2 a.2)

def OrganizationRow.key (o : OrganizationRow) : RowKey := (o.createdAt, o.id)

namespace IdentityTables

variable (db : IdentityTables) (c : Collation) (holding : WorkspaceId) (since : Instant)

/-- The first owner of an organization that has an account. -/
def ownerOf (organization : WorkspaceId) : Option AccountId :=
  (sortBy c.keyLe (fun m : MemberColumns ↦ (m.createdAt, m.userId)) (db.members.filter fun m ↦
    m.organizationId = organization && m.role = js "owner" && db.users.contains m.userId)).head?.map
      (·.userId)

/-- A row as the driver reads it: a `Date` counts milliseconds. -/
def record (o : OrganizationRow) : OrganizationRecord :=
  ⟨o.id, o.name, o.createdAt / 1000, db.ownerOf c o.id⟩

/-- The condition of the query but for the cursor. -/
def eligible : List OrganizationRow :=
  db.organizations.filter fun o ↦ since * 1000 ≤ o.createdAt && o.id ≠ holding

def recordsAfter : RecordsAfter := fun cursor n ↦
  ((sortBy c.keyLe (·.key) ((db.eligible holding since).filter fun o ↦
    cursor.all fun k ↦ c.before (k.createdAt * 1000, k.workspace) o.key)).take n).map (db.record c)

end IdentityTables

/-! ### Every other database -/

/-- A row as the adapter finds it, the time as `instantOf` reads it. -/
structure FoundOrganization where
  id : WorkspaceId
  name : JsString
  createdAt : Option Instant
  owner : Option AccountId

def FoundOrganization.instant (o : FoundOrganization) : Instant := o.createdAt.getD 0

def FoundOrganization.key (o : FoundOrganization) : RowKey := (o.instant, o.id)

def codeUnits : Collation where
  le := JsString.le
  total := JsString.le_total
  trans _ _ _ := JsString.le_trans
  antisymm _ _ := JsString.le_antisymm

def FoundOrganization.record (o : FoundOrganization) : OrganizationRecord :=
  ⟨o.id, o.name, o.instant, o.owner⟩

def eligibleFound (rows : List FoundOrganization) (holding : WorkspaceId) (since : Instant) :
    List FoundOrganization :=
  rows.filter fun o ↦ o.id ≠ holding && since ≤ o.instant

def foundAfter (rows : List FoundOrganization) (holding : WorkspaceId) (since : Instant) :
    RecordsAfter := fun cursor n ↦
  ((sortBy codeUnits.keyLe (·.key) ((eligibleFound rows holding since).filter fun o ↦
    cursor.all fun k ↦ codeUnits.before (k.createdAt, k.workspace) o.key)).take n).map (·.record)

/-! ### The reconciler's pages -/

/-- The loop of `reconcileWorkspaces`, as far as it asks for pages. -/
def scan (records : RecordsAfter) (limit : ℕ)
    (s : Option OrganizationCursor × List OrganizationRecord) :
    (Option OrganizationCursor × List OrganizationRecord) ⊕ Except JsString (List OrganizationRecord) :=
  match organizationPage records limit s.1 with
  | .error e => .inr (.error e)
  | .ok page =>
    match page.cursor with
    | some c => .inl (some c, s.2 ++ page.items)
    | none => .inr (.ok (s.2 ++ page.items))

end Counted.Identity
