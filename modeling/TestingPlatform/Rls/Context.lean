import TestingPlatform.Core.Basic

/-!
# The context of a transaction

`core/rls.py` keeps the asserted identity in three custom parameters of the database session, set with
`set_config(…, is_local => true)`. A local setting ends with its transaction. What is left then is NULL
while the parameter was never set in this session and the empty string once it was;
`NULLIF(current_setting(name, true), '')::uuid` reads both as NULL.
-/

namespace TestingPlatform.Rls

/-- What `_set_all` stores in a parameter: the text of an identifier or the empty string. -/
inductive GucText where
  | empty
  | uuid (id : Uuid)
  deriving DecidableEq, Repr

/-- One custom parameter of a session. -/
structure Guc where
  /-- The session has set the parameter in an earlier transaction. -/
  known : Bool := false
  /-- The value of the current transaction, if it set one. -/
  «local» : Option GucText := none
  deriving DecidableEq, Repr

namespace Guc

/-- `set_config(name, value, true)`. -/
def setLocal (g : Guc) (value : GucText) : Guc := { g with «local» := some value }

/-- The end of a transaction: the local value goes, the parameter stays known. -/
def endTransaction (g : Guc) : Guc where
  known := g.known || g.local.isSome

/-- `current_setting(name, true)`: NULL for a parameter the session does not know, else a text. -/
def current (g : Guc) : Option GucText := g.local.or (if g.known then some .empty else none)

/-- `NULLIF(current_setting(name, true), '')::uuid`. -/
def read (g : Guc) : Option Uuid :=
  match g.current with
  | some (.uuid id) => some id
  | some .empty | none => none

end Guc

/-- The identifiers the policies read: `_ORG`, `_USER` and `_JOB`. -/
structure Gucs where
  org : Option Uuid := none
  user : Option Uuid := none
  job : Option Uuid := none
  deriving DecidableEq, Repr

/-- The three parameters of one database session. -/
structure Session where
  org : Guc := {}
  user : Guc := {}
  job : Guc := {}
  deriving DecidableEq, Repr

namespace Session

def gucs (s : Session) : Gucs := ⟨s.org.read, s.user.read, s.job.read⟩

/-- `"" if value is None else str(value)`. -/
def text : Option Uuid → GucText
  | some id => .uuid id
  | none => .empty

/-- `_set_all`: one statement sets all three. -/
def setAll (s : Session) (org user job : Option Uuid) : Session where
  org := s.org.setLocal (text org)
  user := s.user.setLocal (text user)
  job := s.job.setLocal (text job)

def setOrgContext (s : Session) (orgId : Uuid) (userId : Option Uuid) : Session := s.setAll (some orgId) userId none
def setUserContext (s : Session) (userId : Uuid) : Session := s.setAll none (some userId) none
def setGuestJobContext (s : Session) (jobId : Uuid) : Session := s.setAll none none (some jobId)

/-- Commit and rollback end the transaction alike for the parameters. -/
def endTransaction (s : Session) : Session := ⟨s.org.endTransaction, s.user.endTransaction, s.job.endTransaction⟩

/-- `_set_hint_context`: opens the arm the payload names, or none at all. -/
def setHintContext (s : Session) (orgId scanJobId : Option Uuid) : Session :=
  match orgId, scanJobId with
  | some org, _ => s.setOrgContext org none
  | none, some job => s.setGuestJobContext job
  | none, none => s

@[simp] theorem gucs_setAll (s : Session) (org user job : Option Uuid) : (s.setAll org user job).gucs = ⟨org, user, job⟩ := by
  cases org <;> cases user <;> cases job <;> rfl

@[simp] theorem gucs_setOrgContext (s : Session) (orgId : Uuid) (userId : Option Uuid) :
    (s.setOrgContext orgId userId).gucs = { org := some orgId, user := userId } := gucs_setAll ..

@[simp] theorem gucs_setUserContext (s : Session) (userId : Uuid) :
    (s.setUserContext userId).gucs = { user := some userId } := gucs_setAll ..

@[simp] theorem gucs_setGuestJobContext (s : Session) (jobId : Uuid) :
    (s.setGuestJobContext jobId).gucs = { job := some jobId } := gucs_setAll ..

end Session

end TestingPlatform.Rls
