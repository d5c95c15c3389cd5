import CmTrace.Export.Publish

/-!
# The registry of export sessions

Sessions are registered under their identifiers and reserve what their destinations
resolve to.  A reservation goes when the session is closed, expires or is pruned,
unless its finalizer runs: the finalizer keeps it until its command returns.
-/

namespace CmTrace
namespace Export

open Text Streamed

def maxExportSessionIdBytes : Nat := 128
def maxExportSessions : Nat := 16
def exportSessionIdleTtl : Nat := 60 * 60 * 1000

inductive RegistryError where
  | invalidSessionId
  | capacityInUse
  | destinationInUse
  | notFound
  | alreadyFinalizing
  deriving DecidableEq

def isControl (c : Char) : Bool := c.toNat < 0x20 || (0x7F ≤ c.toNat && c.toNat < 0xA0)

def validateSessionId (sessionId : Text) : Except RegistryError Unit :=
  if sessionId = [] ∨ byteLen sessionId > maxExportSessionIdBytes ∨ sessionId.any isControl then
    .error .invalidSessionId
  else .ok ()

structure EventLogExportSessionEntry where
  id : Text
  destinationIdentity : Text
  lastAccess : Nat
  finalizing : Bool := false
  deriving DecidableEq

/-- A finalizer that holds its session's lock. -/
structure Running (δ : Type) where
  session : EventLogExportSession
  state : Finalizer δ

/-- The registry, and what commands share with it: sessions, cancel flags and
finalizers by session identifier, and what was published. -/
structure System (δ : Type) where
  registry : List EventLogExportSessionEntry := []
  sessions : Text → Option EventLogExportSession := fun _ => none
  cancelled : Text → Bool := fun _ => false
  finalizers : Text → Option (Running δ) := fun _ => none
  published : List (Text × List UInt8) := []

variable {δ : Type}

namespace System

def setSession (S : System δ) (id : Text) (session : Option EventLogExportSession) : System δ :=
  { S with sessions := Function.update S.sessions id session }

def setFinalizer (S : System δ) (id : Text) (running : Option (Running δ)) : System δ :=
  { S with finalizers := Function.update S.finalizers id running }

@[simp] theorem setSession_self (S : System δ) (id : Text)
    (session : Option EventLogExportSession) : (S.setSession id session).sessions id = session :=
  Function.update_self ..

theorem setSession_of_ne (S : System δ) {id id' : Text} (h : id' ≠ id)
    (session : Option EventLogExportSession) :
    (S.setSession id session).sessions id' = S.sessions id' := Function.update_of_ne h ..

@[simp] theorem setFinalizer_self (S : System δ) (id : Text) (running : Option (Running δ)) :
    (S.setFinalizer id running).finalizers id = running := Function.update_self ..

theorem setFinalizer_of_ne (S : System δ) {id id' : Text} (h : id' ≠ id)
    (running : Option (Running δ)) :
    (S.setFinalizer id running).finalizers id' = S.finalizers id' := Function.update_of_ne h ..

/-! ## Operations on the registry -/

def stale (now : Nat) (entry : EventLogExportSessionEntry) : Bool :=
  !(entry.finalizing || decide (now - entry.lastAccess < exportSessionIdleTtl))

/-- The entries outside `gone` stay, and the flags of the others are set. -/
def drop (S : System δ) (gone : EventLogExportSessionEntry → Bool) : System δ :=
  { S with
    registry := S.registry.filter (!gone ·)
    cancelled := fun id => S.cancelled id || S.registry.any fun e => decide (e.id = id) && gone e }

def pruneStaleExportSessions (S : System δ) (now : Nat) : System δ := S.drop (stale now)

def removeExportSession (S : System δ) (sessionId : Text) : System δ :=
  { S with registry := S.registry.filter (·.id ≠ sessionId) }

def insertExportSession (S : System δ) (session : EventLogExportSession) (now : Nat) :
    Except RegistryError EventLogExportSessionStatus × System δ :=
  let S := S.pruneStaleExportSessions now
  if S.registry.length ≥ maxExportSessions then (.error .capacityInUse, S)
  else if S.registry.any (·.destinationIdentity == session.destinationIdentity) then
    (.error .destinationInUse, S)
  else
    let entry := ⟨session.id, session.destinationIdentity, now, false⟩
    (.ok session.status, { S.setSession session.id (some session) with
      registry := S.registry ++ [entry]
      cancelled := Function.update S.cancelled session.id false })

def update (S : System δ) (sessionId : Text)
    (f : EventLogExportSessionEntry → EventLogExportSessionEntry) : System δ :=
  { S with registry := S.registry.map fun e => if e.id = sessionId then f e else e }

def findSession (S : System δ) (sessionId : Text) (now : Nat) :
    Except RegistryError Unit × System δ :=
  match validateSessionId sessionId with
  | .error error => (.error error, S)
  | .ok () =>
    let S := S.pruneStaleExportSessions now
    if S.registry.any (·.id == sessionId) then
      (.ok (), S.update sessionId fun e => { e with lastAccess := now })
    else (.error .notFound, S)

def beginFinalizeSession (S : System δ) (sessionId : Text) (now : Nat) :
    Except RegistryError Unit × System δ :=
  match validateSessionId sessionId with
  | .error error => (.error error, S)
  | .ok () =>
    let S := S.pruneStaleExportSessions now
    match S.registry.find? (·.id == sessionId) with
    | none => (.error .notFound, S)
    | some entry =>
      if entry.finalizing then (.error .alreadyFinalizing, S)
      else (.ok (), S.update sessionId fun e => { e with finalizing := true, lastAccess := now })

/-- The flag is set, and the entry goes unless its finalizer runs. -/
def cancelExportSession (S : System δ) (sessionId : Text) : System δ :=
  { S with
    registry := S.registry.filter fun e => e.id ≠ sessionId || e.finalizing
    cancelled := fun id =>
      S.cancelled id || (decide (id = sessionId) && S.registry.any (·.id == sessionId)) }

def expireExportSession (S : System δ) (sessionId : Text) (now : Nat) : System δ :=
  S.drop fun e => decide (e.id = sessionId) && stale now e

end System

/-! ## Commands and finalizers -/

/-- What the sessions of a process share, and the files each meets. -/
structure World (δ : Type) where
  rendering : Rendering
  decoder : StreamDecoder δ EvtxRecord Text
  decode : Text → Except Text (List UInt8)
  files : Text → Files

inductive Action where
  | create (session : EventLogExportSession) (now : Nat)
  | append (sessionId : Text) (request : EventLogExportSession.Request) (now : Nat)
  | finalize (sessionId : Text) (now : Nat)
  /-- The finalizer goes on to its next look at the flag. -/
  | poll (sessionId : Text)
  /-- The finalize command resumes after its finalizer. -/
  | returned (sessionId : Text)
  | close (sessionId : Text)
  | expire (sessionId : Text) (now : Nat)

namespace World

variable (W : World δ)

def finalization (session : EventLogExportSession) : Finalization δ :=
  ⟨W.rendering, W.decoder, W.files session.id, session⟩

/-- Identifiers are made once: a session that is created has a fresh one. -/
def create (S : System δ) (session : EventLogExportSession) (now : Nat) : System δ :=
  if (S.sessions session.id).isSome then S else (S.insertExportSession session now).2

/-- An append that finds a finalizer at work comes to a session without a spool. -/
def append (S : System δ) (sessionId : Text) (r : EventLogExportSession.Request) (now : Nat) :
    System δ :=
  match S.findSession sessionId now with
  | (.error _, S) => S
  | (.ok (), S) =>
    if (S.finalizers sessionId).isSome then S
    else
      S.setSession sessionId ((S.sessions sessionId).map fun s => (s.appendChunk W.decode r).2)

def beginFinalize (S : System δ) (sessionId : Text) (now : Nat) : System δ :=
  match S.beginFinalizeSession sessionId now with
  | (.error _, S) => S
  | (.ok (), S) =>
    match S.sessions sessionId with
    | none => S
    | some session =>
      S.setFinalizer sessionId (some ⟨session, (W.finalization session).start⟩)

def poll (S : System δ) (sessionId : Text) : System δ :=
  match S.finalizers sessionId with
  | none => S
  | some running =>
    let state := (W.finalization running.session).poll (S.cancelled sessionId) running.state
    { S.setFinalizer sessionId (some { running with state }) with
      published := S.published ++
        (if running.state.isFinished then []
          else (state.published.map fun bytes => (sessionId, bytes)).toList) }

def finalizeReturned (S : System δ) (sessionId : Text) : System δ :=
  match S.finalizers sessionId with
  | none => S
  | some running =>
    if running.state.isFinished then
      ((S.removeExportSession sessionId).setFinalizer sessionId none).setSession sessionId
        (some { running.session with state := .terminal, spool := none })
    else S

def close (S : System δ) (sessionId : Text) : System δ :=
  match validateSessionId sessionId with
  | .error _ => S
  | .ok () => S.cancelExportSession sessionId

def step (S : System δ) : Action → System δ
  | .create session now => create S session now
  | .append sessionId r now => append W S sessionId r now
  | .finalize sessionId now => beginFinalize W S sessionId now
  | .poll sessionId => poll W S sessionId
  | .returned sessionId => finalizeReturned S sessionId
  | .close sessionId => close S sessionId
  | .expire sessionId now => S.expireExportSession sessionId now

def exec (S : System δ) (actions : List Action) : System δ := actions.foldl W.step S

/-- The states of a process that starts without sessions. -/
def Reachable (S : System δ) : Prop := ∃ actions, W.exec {} actions = S

end World
end Export
end CmTrace
