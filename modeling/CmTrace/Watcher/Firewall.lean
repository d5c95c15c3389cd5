import CmTrace.Firewall.Snapshot
import CmTrace.Watcher.Reader

/-!
# The owner of a firewall source

The owner of an open source holds the checkpoint from which the next read
continues.  A worker takes a request, reads outside the owner's lock and brings
back an outcome.  The owner commits it when nothing was accepted in between: every
accepted transition moves the revision, and a request carries the revision it was
taken at.

A file that was replaced or cut, and bytes that turn out to be no UTF-8, leave a
transition pending.  While one is pending only a read from byte 0 yields a
checkpoint.
-/

namespace CmTrace
namespace Watcher

open Text Log Firewall

structure FirewallControlToken where
  sourceSessionId : Text
  watchEpoch : Nat
  deriving DecidableEq, Repr

inductive StartAdmission where
  | started
  | current
  | rejected
  deriving DecidableEq, Repr

/-- What has to happen before the source can be continued. -/
inductive FirewallTransition where
  | generation
  | windows1252
  deriving DecidableEq, Repr

inductive FirewallDecodingKind where
  | ready
  | pending
  | gap
  deriving DecidableEq, Repr

inductive FirewallGapReason where
  | readFailed
  | invalidEncoding
  | generationUnverifiable
  deriving DecidableEq, Repr

structure FirewallDecodingStatus where
  kind : FirewallDecodingKind
  pendingBytes : Nat
  reason : Option FirewallGapReason := none
  deriving DecidableEq, Repr

def FirewallDecodingStatus.fromDecoder (decoder : FirewallDecoder) : FirewallDecodingStatus :=
  { kind         := if decoder.carry.length = 0 then .ready else .pending
    pendingBytes := decoder.carry.length }

/-- `I` is what the platform tells open files apart by. -/
structure FirewallCheckpoint (I : Type) where
  decoder : FirewallDecoder
  stream : FirewallStream
  identity : Option I
  deriving DecidableEq

structure FirewallOwner (I : Type) where
  sessionId : Text
  checkpoint : FirewallCheckpoint I
  pending : Option FirewallTransition := none
  decoding : FirewallDecodingStatus
  epoch : Nat := 0
  revision : Nat := 0
  active : Bool := false
  paused : Bool := false
  deriving DecidableEq

structure FirewallReadRequest (I : Type) where
  revision : Nat
  checkpoint : FirewallCheckpoint I
  pending : Option FirewallTransition
  deriving DecidableEq

structure FirewallBatch where
  entries : List LogEntry := []
  replacements : List FirewallRowReplacement := []
  coverage : FirewallCoverage
  observedThroughLine : Nat
  reset : Bool := false
  decoding : FirewallDecodingStatus
  deriving DecidableEq, Repr

structure FirewallReadOutcome (I : Type) where
  checkpoint : Option (FirewallCheckpoint I)
  pending : Option FirewallTransition
  batch : FirewallBatch
  changed : Bool
  deriving DecidableEq

/-- Epochs are integers that the client can hold exactly. -/
def maxWatchEpoch : Nat := 9007199254740991

variable {I : Type}

namespace FirewallOwner

def new (sessionId : Text) (snapshot : FirewallSourceSnapshot) (identity : Option I) :
    FirewallOwner I :=
  { sessionId  := sessionId
    checkpoint := ⟨snapshot.decoder, snapshot.stream, identity⟩
    decoding   := .fromDecoder snapshot.decoder }

def sameSession (o : FirewallOwner I) (token : FirewallControlToken) : Bool :=
  decide (token.sourceSessionId = o.sessionId ∧ 0 < token.watchEpoch ∧
    token.watchEpoch ≤ maxWatchEpoch)

def isCurrent (o : FirewallOwner I) (token : FirewallControlToken) : Bool :=
  o.sameSession token && token.watchEpoch == o.epoch && o.active

def start (o : FirewallOwner I) (token : Option FirewallControlToken) :
    StartAdmission × FirewallOwner I :=
  match token.filter o.sameSession with
  | none => (.rejected, o)
  | some t =>
    if t.watchEpoch < o.epoch then (.rejected, o)
    else if t.watchEpoch = o.epoch then (if o.active then .current else .rejected, o)
    else (.started,
      { o with epoch := t.watchEpoch, revision := o.revision + 1, active := true, paused := false })

def stop (o : FirewallOwner I) (token : Option FirewallControlToken) : Bool × FirewallOwner I :=
  match token.filter fun t => o.sameSession t && decide (o.epoch ≤ t.watchEpoch) with
  | none => (false, o)
  | some t =>
    (true, { o with epoch := t.watchEpoch, revision := o.revision + 1, active := false })

def setPaused (o : FirewallOwner I) (token : Option FirewallControlToken) (paused : Bool) :
    Bool × FirewallOwner I :=
  match token.filter o.isCurrent with
  | none => (false, o)
  | some _ => (true, { o with paused := paused, revision := o.revision + 1 })

def request (o : FirewallOwner I) (token : FirewallControlToken) : Option (FirewallReadRequest I) :=
  if o.isCurrent token && !o.paused then some ⟨o.revision, o.checkpoint, o.pending⟩ else none

/-- The batch is published when it carries something or changes the decoding
status. -/
def commit (o : FirewallOwner I) (token : FirewallControlToken) (revision : Nat)
    (outcome : FirewallReadOutcome I) : Bool × Option FirewallBatch × FirewallOwner I :=
  if !o.isCurrent token || o.paused || revision != o.revision then (false, none, o)
  else
    (true,
      if outcome.changed || outcome.batch.decoding != o.decoding then some outcome.batch else none,
      { o with
        checkpoint := outcome.checkpoint.getD o.checkpoint
        pending    := outcome.pending
        revision   := o.revision + 1
        decoding   := outcome.batch.decoding })

end FirewallOwner

/-! ## Reading a candidate -/

/-- What the path leads to while it is read. -/
structure OpenedSource (I : Type) where
  identity : Option I
  /-- The length at the time of opening. -/
  size : Nat
  /-- The bytes from the checkpoint's offset on, unless seeking or reading fails. -/
  appended : Option (List UInt8)
  /-- The bytes from 0 on, unless seeking or reading fails. -/
  whole : Option (List UInt8)
  deriving DecidableEq, Repr

def firewallReadChunkBytes : Nat := 65536

section
variable [DecidableEq I] (parseFromStr : Text → Option Int) (path : Text)

def wholeOutcome (identity : Option I) (result : ParseResult) (snapshot : FirewallSourceSnapshot) :
    FirewallReadOutcome I :=
  { checkpoint := some ⟨snapshot.decoder, snapshot.stream, identity⟩
    pending    := none
    changed    := true
    batch      :=
      { entries             := result.entries
        coverage            := result.firewallCoverage
        observedThroughLine := result.totalLines
        reset               := true
        decoding            := .fromDecoder snapshot.decoder } }

/-- The outcome of decoding `bytes` after the checkpoint. -/
def appendedOutcome (checkpoint : FirewallCheckpoint I) (bytes : List UInt8)
    (decoded : DecodedFirewallChunk) (decoder : FirewallDecoder) : FirewallReadOutcome I :=
  let (delta, stream) := checkpoint.stream.pushText parseFromStr decoded.text path
  { checkpoint := some ⟨decoder, stream, checkpoint.identity⟩
    pending    := none
    changed    := !bytes.isEmpty
    batch      :=
      { entries             := delta.entries
        replacements        := delta.replacements
        coverage            := delta.coverage
        observedThroughLine := delta.observedThroughLine
        decoding            := .fromDecoder decoder } }

/-- A failed read brings no checkpoint and says why. -/
def gapOutcome (checkpoint : FirewallCheckpoint I) (pending : Option FirewallTransition)
    (reason : FirewallGapReason) : FirewallReadOutcome I :=
  let (delta, stream) := checkpoint.stream.pushText parseFromStr [] path
  { checkpoint := none
    pending    := pending
    changed    := false
    batch      :=
      { coverage            := stream.coverage
        observedThroughLine := delta.observedThroughLine
        decoding            := { kind         := .gap
                                 pendingBytes := checkpoint.decoder.carry.length
                                 reason       := some reason } } }

/-- Read the source anew.  A forced reading is refused when the file cannot be
shown to be the one of the checkpoint. -/
def readWhole (checkpoint : FirewallCheckpoint I) (file : OpenedSource I)
    (transition : FirewallTransition) : Except FirewallGapReason (FirewallReadOutcome I) :=
  let forceCp : Bool := decide (transition = .windows1252)
  if forceCp ∧ (file.identity = none ∨ file.identity ≠ checkpoint.identity) then
    .error .generationUnverifiable
  else match file.whole with
    | none => .error .readFailed
    | some bytes =>
      match snapshotBytes parseFromStr bytes path checkpoint.stream.nextId forceCp with
      | .error _ => .error .invalidEncoding
      | .ok (result, snapshot) => .ok (wholeOutcome file.identity result snapshot)

/-- Continue the checkpoint, or read the source anew when a transition is
pending; the second answer is what is pending if this fails. -/
def readOpened (checkpoint : FirewallCheckpoint I) (file : OpenedSource I)
    (pending : Option FirewallTransition) :
    Except FirewallGapReason (FirewallReadOutcome I) × Option FirewallTransition :=
  match pending with
  | some transition => (readWhole parseFromStr path checkpoint file transition, some transition)
  | none =>
    match file.appended with
    | none => (.error .readFailed, none)
    | some appended =>
      let bytes := appended.take firewallReadChunkBytes
      match checkpoint.decoder.push bytes with
      | (.ok decoded, decoder) =>
        (.ok (appendedOutcome parseFromStr path checkpoint bytes decoded decoder), none)
      | (.error .needsWindows1252, _) =>
        (readWhole parseFromStr path checkpoint file .windows1252, some .windows1252)
      | (.error .invalidExplicitEncoding, _) => (.error .invalidEncoding, none)

/-- The file is another one, or shorter than what was read of it. -/
def OpenedSource.Replaces (file : OpenedSource I) (checkpoint : FirewallCheckpoint I) : Prop :=
  TailReader.identitiesDiffer checkpoint.identity file.identity = true ∨
    file.size < checkpoint.decoder.rawOffset

instance (file : OpenedSource I) (checkpoint : FirewallCheckpoint I) :
    Decidable (file.Replaces checkpoint) :=
  inferInstanceAs (Decidable (_ ∨ _))

/-- What is pending once the file has been looked at. -/
def pendingAt (request : FirewallReadRequest I) (file : OpenedSource I) :
    Option FirewallTransition :=
  if file.Replaces request.checkpoint then some .generation else request.pending

def concludeRead (checkpoint : FirewallCheckpoint I) :
    Except FirewallGapReason (FirewallReadOutcome I) × Option FirewallTransition →
      FirewallReadOutcome I
  | (.ok outcome, _) => outcome
  | (.error reason, pending) => gapOutcome parseFromStr path checkpoint pending reason

/-- Read once; `none` stands for a path that cannot be opened. -/
def readCandidate (request : FirewallReadRequest I) (attempt : Option (OpenedSource I)) :
    FirewallReadOutcome I :=
  concludeRead parseFromStr path request.checkpoint
    (match attempt with
    | none => (.error .readFailed, request.pending)
    | some file => readOpened parseFromStr path request.checkpoint file (pendingAt request file))

/-! ## What an outcome can be -/

/-- After a read that failed at `attempt`, what was pending is still owed: it
stays, or the file was replaced and a new generation is owed instead. -/
def Owed (request : FirewallReadRequest I) (attempt : Option (OpenedSource I))
    (pending : Option FirewallTransition) : Prop :=
  ∀ transition, request.pending = some transition → pending = some transition ∨
    transition = .windows1252 ∧ pending = some .generation ∧
      ∃ file, attempt = some file ∧ file.Replaces request.checkpoint

theorem readWhole_cases (checkpoint : FirewallCheckpoint I) (file : OpenedSource I)
    (transition : FirewallTransition) :
    (∃ reason, readWhole parseFromStr path checkpoint file transition = .error reason) ∨
    ∃ bytes force opened,
      snapshotBytes parseFromStr bytes path checkpoint.stream.nextId force = .ok opened ∧
        readWhole parseFromStr path checkpoint file transition =
          .ok (wholeOutcome file.identity opened.1 opened.2) := by
  rw [readWhole]
  split
  · exact .inl ⟨_, rfl⟩
  · cases file.whole with
    | none => exact .inl ⟨_, rfl⟩
    | some bytes =>
      dsimp only
      cases hs : snapshotBytes parseFromStr bytes path checkpoint.stream.nextId
          (decide (transition = .windows1252)) with
      | error e => exact .inl ⟨_, rfl⟩
      | ok opened => exact .inr ⟨bytes, _, opened, hs, rfl⟩

theorem pendingAt_owed (request : FirewallReadRequest I) (file : OpenedSource I) :
    Owed request (some file) (pendingAt request file) := by
  intro transition h
  rw [pendingAt]
  by_cases hr : file.Replaces request.checkpoint
  · rw [if_pos hr]
    cases transition with
    | generation => exact .inl rfl
    | windows1252 => exact .inr ⟨rfl, rfl, file, rfl, hr⟩
  · rw [if_neg hr]
    exact .inl h

theorem pendingAt_none {request : FirewallReadRequest I} {file : OpenedSource I}
    (h : pendingAt request file = none) : request.pending = none := by
  rw [pendingAt] at h
  by_cases hr : file.Replaces request.checkpoint
  · rw [if_pos hr] at h
    cases h
  · rwa [if_neg hr] at h

/-- A read fails and keeps what is owed, continues the checkpoint when nothing is
pending, or reads the source anew. -/
theorem readCandidate_cases (request : FirewallReadRequest I) (attempt : Option (OpenedSource I)) :
    (∃ pending reason, Owed request attempt pending ∧
      readCandidate parseFromStr path request attempt =
        gapOutcome parseFromStr path request.checkpoint pending reason) ∨
    (∃ bytes decoded decoder, request.pending = none ∧
      request.checkpoint.decoder.push bytes = (.ok decoded, decoder) ∧
        readCandidate parseFromStr path request attempt =
          appendedOutcome parseFromStr path request.checkpoint bytes decoded decoder) ∨
    ∃ identity bytes force opened,
      snapshotBytes parseFromStr bytes path request.checkpoint.stream.nextId force = .ok opened ∧
        readCandidate parseFromStr path request attempt =
          wholeOutcome identity opened.1 opened.2 := by
  cases attempt with
  | none => exact .inl ⟨_, .readFailed, fun transition h => .inl h, rfl⟩
  | some file =>
    have howed := pendingAt_owed request file
    have hwhole : ∀ transition, Owed request (some file) (some transition) →
        readCandidate parseFromStr path request (some file) =
          concludeRead parseFromStr path request.checkpoint
            (readWhole parseFromStr path request.checkpoint file transition, some transition) →
        (∃ pending reason, Owed request (some file) pending ∧
          readCandidate parseFromStr path request (some file) =
            gapOutcome parseFromStr path request.checkpoint pending reason) ∨
        ∃ identity bytes force opened,
          snapshotBytes parseFromStr bytes path request.checkpoint.stream.nextId force =
              .ok opened ∧
            readCandidate parseFromStr path request (some file) =
              wholeOutcome identity opened.1 opened.2 := by
      intro transition ho hread
      rcases readWhole_cases parseFromStr path request.checkpoint file transition with
        ⟨reason, he⟩ | ⟨bytes, force, opened, hs, hok⟩
      · exact .inl ⟨_, reason, ho, by rw [hread, he]; rfl⟩
      · exact .inr ⟨file.identity, bytes, force, opened, hs, by rw [hread, hok]; rfl⟩
    have hread : readCandidate parseFromStr path request (some file) =
        concludeRead parseFromStr path request.checkpoint
          (readOpened parseFromStr path request.checkpoint file (pendingAt request file)) := rfl
    unfold readOpened at hread
    cases hpending : pendingAt request file with
    | some transition =>
      rw [hpending] at hread howed
      rcases hwhole transition howed hread with h | h
      · exact .inl h
      · exact .inr (.inr h)
    | none =>
      rw [hpending] at hread
      have hfree := pendingAt_none hpending
      have hany : ∀ pending, Owed request (some file) pending := fun pending transition h => by
        rw [hfree] at h
        cases h
      cases happended : file.appended with
      | none =>
        rw [happended] at hread
        exact .inl ⟨_, _, hany _, hread⟩
      | some appended =>
        rw [happended] at hread
        dsimp only at hread
        generalize hp : request.checkpoint.decoder.push (appended.take firewallReadChunkBytes) = r
          at hread
        obtain ⟨answer, decoder⟩ := r
        cases answer with
        | ok decoded => exact .inr (.inl ⟨_, decoded, decoder, hfree, hp, hread⟩)
        | error e =>
          cases e with
          | needsWindows1252 =>
            rcases hwhole .windows1252 (hany _) hread with h | h
            · exact .inl h
            · exact .inr (.inr h)
          | invalidExplicitEncoding => exact .inl ⟨_, _, hany _, hread⟩

end
end Watcher
end CmTrace
