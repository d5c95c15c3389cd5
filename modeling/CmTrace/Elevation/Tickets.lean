import CmTrace.Text.Json

/-!
# Restore tickets

A process that restarts as administrator leaves a ticket in a directory, and the elevated
process claims it: the file is renamed before it is read, so that of all calls that race
for one ticket at most one restores it, whatever else happens in the directory between
their operations.
-/

namespace CmTrace
namespace Elevation

open Text

/-! ## Requests -/

inductive AppWorkspace where
  | log
  | intune
  | newIntune
  | dsregcmd
  | macosDiag
  | macosJamf
  | deployment
  | eventLog
  | espDiagnostics
  | secureboot
  | sysmon
  | timeline
  | dnsDhcp
  deriving DecidableEq, Repr

inductive ElevationReason where
  | explicitMenu
  | accessDenied
  | coverageRecommended
  deriving DecidableEq, Repr

inductive RestoreTarget where
  | workspace
  | file (path : Text)
  | folder (path : Text)
  | knownSource (sourceId : Text)
  deriving DecidableEq, Repr

inductive ElevationValidationError where
  | emptyPath
  | relativePath
  | pathTooLong
  | unsafePathCharacter
  | emptySourceId
  | sourceIdTooLong
  | unsafeSourceId
  deriving DecidableEq, Repr

structure ElevationRequest where
  reason : ElevationReason
  workspace : AppWorkspace
  target : RestoreTarget
  deriving DecidableEq, Repr

def maxSourceIdLen : Nat := 128

def maxRestorePathLen : Nat := 4096

/-- `isAbsolute` is the platform's. -/
def validateRestorePath (isAbsolute : Text → Bool) (path : Text) :
    Except ElevationValidationError Text :=
  if path = [] then .error .emptyPath
  else if maxRestorePathLen < byteLen path then .error .pathTooLong
  else if path.any isControl then .error .unsafePathCharacter
  else if !isAbsolute path then .error .relativePath
  else .ok path

def validateSourceId (sourceId : Text) : Except ElevationValidationError Text :=
  if sourceId = [] then .error .emptySourceId
  else if maxSourceIdLen < byteLen sourceId then .error .sourceIdTooLong
  else if sourceId.all fun c => isAsciiAlphanumeric c || ['.', '_', ':', '-'].contains c then
    .ok sourceId
  else .error .unsafeSourceId

def validateTarget (isAbsolute : Text → Bool) :
    RestoreTarget → Except ElevationValidationError RestoreTarget
  | .workspace => .ok .workspace
  | .file path => (validateRestorePath isAbsolute path).map .file
  | .folder path => (validateRestorePath isAbsolute path).map .folder
  | .knownSource sourceId => (validateSourceId sourceId).map .knownSource

def ElevationRequest.validated (isAbsolute : Text → Bool) (request : ElevationRequest) :
    Except ElevationValidationError ElevationRequest :=
  (validateTarget isAbsolute request.target).map fun target => { request with target := target }

/-! ## Tickets -/

structure RestoreTicket where
  schemaVersion : Nat
  ticketId : Text
  createdAtMs : Int
  originPid : Nat
  workspace : AppWorkspace
  target : RestoreTarget
  reason : ElevationReason
  retryAttempted : Bool
  deriving DecidableEq, Repr

inductive TicketError where
  | malformedId
  | notFound
  | notARegularFile
  | tooLarge
  | unreadable
  | unwritable
  | malformed
  | unsupportedSchema
  | expired
  | invalidContents
  deriving DecidableEq, Repr

def ticketSchemaVersion : Nat := 1

def ticketTtlMs : Int := 5 * 60 * 1000

def maxTicketBytes : Nat := 8 * 1024

def ticketIdLen : Nat := 36

/-- A lowercase UUID with its hyphens. -/
def isTicketIdChar (index : Nat) (c : Char) : Bool :=
  if [8, 13, 18, 23].contains index then c == '-'
  else isAsciiDigit c || (decide ('a' ≤ c) && decide (c ≤ 'f'))

def validateTicketId (id : Text) : Except TicketError Unit :=
  if byteLen id ≠ ticketIdLen then .error .malformedId
  else if id.zipIdx.all fun entry => isTicketIdChar entry.2 entry.1 then .ok ()
  else .error .malformedId

/-- Subtraction of the program's signed numbers. -/
def saturatingSub (a b : Int) : Int := max (-2 ^ 63) (min (2 ^ 63 - 1) (a - b))

section

-- the program's JSON, and the paths of the platform that are absolute
variable (encode : RestoreTicket → Text) (decode : Text → Option RestoreTicket)
  (isAbsolute : Text → Bool)

/-- What is made of the contents of a claim. -/
def acceptTicket (id : Text) (nowMs : Int) (contents : Text) : Except TicketError RestoreTicket :=
  match decode contents with
  | none => .error .malformed
  | some ticket =>
    if ticket.schemaVersion ≠ ticketSchemaVersion then .error .unsupportedSchema
    else if ticket.ticketId ≠ id then .error .invalidContents
    else if ticketTtlMs < saturatingSub nowMs ticket.createdAtMs ∨ nowMs < ticket.createdAtMs then
      .error .expired
    else
      match validateTarget isAbsolute ticket.target with
      | .error _ => .error .invalidContents
      | .ok _ => .ok ticket

/-! ## The directory -/

/-- A file by what its metadata say and what reading it gives. -/
structure TicketFile where
  regular : Bool
  size : Nat
  text : Option Text
  deriving DecidableEq, Repr

/-- The file that `writeTicket` leaves under the identifier of the ticket. -/
def writeTicket (ticket : RestoreTicket) : Except TicketError (Text × TicketFile) :=
  match validateTicketId ticket.ticketId with
  | .error e => .error e
  | .ok () =>
    let encoded := encode ticket
    if maxTicketBytes < byteLen encoded then .error .tooLarge
    else .ok (ticket.ticketId, { regular := true, size := byteLen encoded, text := some encoded })

/-- The operation a call of `consume_ticket` does next. -/
inductive Phase where
  | stat
  | removeOversized
  | rename
  | read
  | removeClaim (contents : Except TicketError Text)
  | returned (result : Except TicketError RestoreTicket)
  deriving DecidableEq

structure Call where
  id : Text
  nowMs : Int
  phase : Phase
  deriving DecidableEq

/-- The files by identifier: the tickets, and the claims. -/
structure Directory where
  pending : Text → Option TicketFile
  claims : Text → Option TicketFile

def without (files : Text → Option TicketFile) (id : Text) : Text → Option TicketFile :=
  Function.update files id none

/-- The next operation of a call; every operation may fail. -/
def Call.operate (call : Call) (directory : Directory) (fails : Bool) :
    Option (Directory × Phase) :=
  match call.phase with
  | .stat =>
    if fails then some (directory, .returned (.error .unreadable))
    else
      match directory.pending call.id with
      | none => some (directory, .returned (.error .notFound))
      | some file =>
        if !file.regular then some (directory, .returned (.error .notARegularFile))
        else if maxTicketBytes < file.size then some (directory, .removeOversized)
        else some (directory, .rename)
  | .removeOversized =>
    some (if fails then directory
      else { directory with pending := without directory.pending call.id },
      .returned (.error .tooLarge))
  | .rename =>
    if fails then some (directory, .returned (.error .unreadable))
    else
      match directory.pending call.id with
      | none => some (directory, .returned (.error .notFound))
      | some file =>
        some ({ pending := without directory.pending call.id
                claims  := Function.update directory.claims call.id (some file) }, .read)
  | .read =>
    let contents := if fails then none else (directory.claims call.id).bind TicketFile.text
    some (directory, .removeClaim (contents.elim (.error .unreadable) .ok))
  | .removeClaim contents =>
    some (if fails then directory
      else { directory with claims := without directory.claims call.id },
      .returned (contents.bind (acceptTicket decode isAbsolute call.id call.nowMs)))
  | .returned _ => none

structure State where
  directory : Directory
  calls : List Call

/-- What happens next: a file appears or goes, a call begins, or a call goes on. -/
inductive Event where
  | place (id : Text) (file : TicketFile)
  | discard (id : Text)
  | prune (id : Text)
  | consume (id : Text) (nowMs : Int)
  | operate (k : Nat) (fails : Bool)
  deriving DecidableEq

def State.step (s : State) : Event → Option State
  | .place id file =>
    some { s with directory.pending := Function.update s.directory.pending id (some file) }
  | .discard id => some { s with directory.pending := without s.directory.pending id }
  | .prune id => some { s with directory.claims := without s.directory.claims id }
  | .consume id nowMs =>
    let phase := match validateTicketId id with
      | .error e => .returned (.error e)
      | .ok () => .stat
    some { s with calls := s.calls ++ [{ id := id, nowMs := nowMs, phase := phase }] }
  | .operate k fails =>
    match s.calls[k]? with
    | none => none
    | some call =>
      (call.operate decode isAbsolute s.directory fails).map fun next =>
        { directory := next.1, calls := s.calls.set k { call with phase := next.2 } }

def State.run (s : State) (events : List Event) : Option State :=
  events.foldlM (State.step decode isAbsolute) s

def State.start : State :=
  { directory := { pending := fun _ => none, claims := fun _ => none }, calls := [] }

end

/-! ## A file is restored once -/

def Phase.holds : Phase → Bool
  | .read => true
  | .removeClaim _ => true
  | .returned (.ok _) => true
  | _ => false

/-- A call that has claimed a file under `id`, and has not failed. -/
def Call.holds (id : Text) (call : Call) : Bool := call.id == id && call.phase.holds

def Call.restored (id : Text) (call : Call) : Bool :=
  call.id == id &&
    match call.phase with
    | .returned (.ok _) => true
    | _ => false

def Event.places (id : Text) : Event → Bool
  | .place id' _ => id' == id
  | _ => false

/-- The files under `id` that were placed and can still be restored, or were. -/
def State.tokens (s : State) (id : Text) : Nat :=
  s.calls.countP (Call.holds id) + (s.directory.pending id).isSome.toNat

theorem countP_set {A : Type} (p : A → Bool) {xs : List A} {k : Nat} {a : A} (h : xs[k]? = some a)
    (b : A) : (xs.set k b).countP p + (p a).toNat = xs.countP p + (p b).toNat := by
  induction xs generalizing k with
  | nil => cases h
  | cons x xs ih =>
    cases k with
    | zero =>
      obtain rfl := Option.some_inj.mp h
      rw [List.set_cons_zero, List.countP_cons, List.countP_cons]
      cases p x <;> cases p b <;> simp
    | succ k =>
      have hk := ih (k := k) h
      rw [List.set_cons_succ, List.countP_cons, List.countP_cons]
      omega

theorem isSome_without_le (files : Text → Option TicketFile) (id id' : Text) :
    (without files id id').isSome.toNat ≤ (files id').isSome.toNat := by
  by_cases h : id' = id
  · rw [without, h, Function.update_self]
    exact Nat.zero_le _
  · rw [without, Function.update_of_ne h]

section

variable {decode : Text → Option RestoreTicket} {isAbsolute : Text → Bool}

/-- Only renaming claims a file, and then the file is gone. -/
theorem operate_tokens {call : Call} {directory directory' : Directory} {fails : Bool}
    {phase : Phase}
    (h : call.operate decode isAbsolute directory fails = some (directory', phase)) (id : Text) :
    (Call.holds id { call with phase := phase }).toNat +
        (directory'.pending id).isSome.toNat ≤
      (call.holds id).toNat + (directory.pending id).isSome.toNat := by
  obtain ⟨callId, nowMs, before⟩ := call
  have hle := isSome_without_le directory.pending callId id
  cases before with
  | stat =>
    simp only [Call.operate] at h
    split_ifs at h
    · cases h
      simp [Call.holds, Phase.holds]
    · split at h
      · cases h
        simp [Call.holds, Phase.holds]
      · split_ifs at h <;> cases h <;> simp [Call.holds, Phase.holds]
  | removeOversized =>
    cases fails <;> cases h <;> simp [Call.holds, Phase.holds, hle]
  | rename =>
    simp only [Call.operate] at h
    split_ifs at h
    · cases h
      simp [Call.holds, Phase.holds]
    · split at h
      · cases h
        simp [Call.holds, Phase.holds]
      · rename_i file hfile
        cases h
        by_cases hid : callId = id
        · subst hid
          simp [Call.holds, Phase.holds, without, hfile]
        · simpa [Call.holds, Phase.holds, beq_false_of_ne hid] using hle
  | read =>
    cases h
    exact Nat.le_refl _
  | removeClaim contents =>
    have hholds : (Call.holds id { id := callId, nowMs := nowMs, phase := phase }).toNat ≤
        (Call.holds id { id := callId, nowMs := nowMs, phase := .removeClaim contents }).toNat := by
      simp only [Call.holds, Phase.holds]
      cases callId == id <;> simp [Bool.toNat_le]
    cases fails <;> cases h <;> exact Nat.add_le_add_right hholds _
  | returned result => cases h

theorem step_tokens {s s' : State} {event : Event}
    (h : s.step decode isAbsolute event = some s') (id : Text) :
    s'.tokens id ≤ s.tokens id + (event.places id).toNat := by
  cases event with
  | place id' file =>
    cases h
    show _ + (Function.update s.directory.pending id' (some file) id).isSome.toNat ≤
      _ + (s.directory.pending id).isSome.toNat + (id' == id).toNat
    by_cases hid : id' = id
    · rw [hid, Function.update_self, beq_self_eq_true]
      exact Nat.add_le_add_right (Nat.le_add_right _ _) 1
    · rw [Function.update_of_ne (Ne.symm hid)]
      exact Nat.le_add_right _ _
  | discard id' =>
    cases h
    exact Nat.add_le_add_left (isSome_without_le s.directory.pending id' id) _
  | prune id' =>
    cases h
    exact Nat.le_refl _
  | consume id' nowMs =>
    cases h
    show (s.calls ++ [_]).countP _ + _ ≤ _
    rw [List.countP_append, List.countP_singleton]
    cases hid : validateTicketId id' <;> simp [Call.holds, Phase.holds, State.tokens]
  | operate k fails =>
    simp only [State.step] at h
    split at h
    · cases h
    · rename_i call hcall
      obtain ⟨⟨directory', phase⟩, hoperate, rfl⟩ := Option.map_eq_some_iff.mp h
      have htokens := operate_tokens hoperate id
      have hcount := countP_set (Call.holds id) hcall { call with phase := phase }
      show (s.calls.set k { call with phase := phase }).countP (Call.holds id) +
        (directory'.pending id).isSome.toNat ≤ s.calls.countP (Call.holds id) +
          (s.directory.pending id).isSome.toNat + 0
      omega

theorem run_tokens {s s' : State} {events : List Event}
    (h : s.run decode isAbsolute events = some s') (id : Text) :
    s'.tokens id ≤ s.tokens id + events.countP (Event.places id) := by
  induction events generalizing s with
  | nil =>
    cases h
    exact Nat.le_refl _
  | cons event events ih =>
    rw [State.run, List.foldlM_cons] at h
    obtain ⟨next, hstep, hrest⟩ := Option.bind_eq_some_iff.mp h
    have hnext := step_tokens hstep id
    have hrun := ih hrest
    rw [List.countP_cons]
    cases hplaces : event.places id <;> rw [hplaces] at hnext <;> simp at hnext ⊢ <;> omega

/-- However the operations of all calls fall together, the calls that restore a ticket of one
identifier are no more than the files that were placed under it. -/
theorem restored_le_placed {s : State} {events : List Event}
    (h : State.start.run decode isAbsolute events = some s) (id : Text) :
    s.calls.countP (Call.restored id) ≤ events.countP (Event.places id) := by
  have htokens := run_tokens h id
  have hrestored : s.calls.countP (Call.restored id) ≤ s.calls.countP (Call.holds id) := by
    apply List.countP_mono_left
    intro call _ hcall
    simp only [Call.restored, Call.holds, Bool.and_eq_true] at hcall ⊢
    refine ⟨hcall.1, ?_⟩
    cases hphase : call.phase with
    | returned result =>
      rw [hphase] at hcall
      cases result with
      | error e => exact hcall.2
      | ok ticket => rfl
    | _ =>
      rw [hphase] at hcall
      cases hcall.2
  have hstart : State.start.tokens id = 0 := rfl
  rw [hstart, State.tokens] at htokens
  omega

/-! ## What is restored -/

/-- What a ticket fulfils that a call restores. -/
structure Accepted (isAbsolute : Text → Bool) (id : Text) (nowMs : Int) (ticket : RestoreTicket) :
    Prop where
  schema : ticket.schemaVersion = ticketSchemaVersion
  ticketId : ticket.ticketId = id
  fresh : ticket.createdAtMs ≤ nowMs ∧ nowMs ≤ ticket.createdAtMs + ticketTtlMs
  target : validateTarget isAbsolute ticket.target = .ok ticket.target

theorem validateTarget_eq {target target' : RestoreTarget}
    (h : validateTarget isAbsolute target = .ok target') : target' = target := by
  cases target with
  | workspace =>
    cases h
    rfl
  | file path =>
    simp only [validateTarget, validateRestorePath] at h
    split_ifs at h <;> cases h
    rfl
  | folder path =>
    simp only [validateTarget, validateRestorePath] at h
    split_ifs at h <;> cases h
    rfl
  | knownSource sourceId =>
    simp only [validateTarget, validateSourceId] at h
    split_ifs at h <;> cases h
    rfl

theorem acceptTicket_iff {id contents : Text} {nowMs : Int} {ticket : RestoreTicket} :
    acceptTicket decode isAbsolute id nowMs contents = .ok ticket ↔
      decode contents = some ticket ∧ Accepted isAbsolute id nowMs ticket := by
  have hsub : ∀ created : Int, ticketTtlMs < saturatingSub nowMs created ∨ nowMs < created ↔
      ¬ (created ≤ nowMs ∧ nowMs ≤ created + ticketTtlMs) := by
    intro created
    unfold saturatingSub ticketTtlMs
    omega
  rw [acceptTicket]
  cases decode contents with
  | none => exact iff_of_false nofun fun h => nomatch h.1
  | some read =>
    dsimp only
    rw [Option.some_inj]
    constructor
    · intro h
      split_ifs at h with hschema hid hfresh
      split at h
      · cases h
      · rename_i target htarget
        cases h
        rw [validateTarget_eq htarget] at htarget
        exact ⟨rfl, not_not.mp hschema, not_not.mp hid,
          not_not.mp (mt (hsub _).mpr hfresh), htarget⟩
    · rintro ⟨rfl, hschema, hid, hfresh, htarget⟩
      rw [if_neg (not_not.mpr hschema), if_neg (not_not.mpr hid),
        if_neg fun hlate => (hsub _).mp hlate hfresh, htarget]

/-- What a call holds or has restored was placed under its identifier. -/
def Call.Traced (decode : Text → Option RestoreTicket) (isAbsolute : Text → Bool)
    (events : List Event) (call : Call) : Prop :=
  match call.phase with
  | .removeClaim (.ok text) => ∃ file, .place call.id file ∈ events ∧ file.text = some text
  | .returned (.ok ticket) => ∃ file text, .place call.id file ∈ events ∧ file.text = some text ∧
      acceptTicket decode isAbsolute call.id call.nowMs text = .ok ticket
  | _ => True

structure Traced (decode : Text → Option RestoreTicket) (isAbsolute : Text → Bool)
    (events : List Event) (s : State) : Prop where
  files : ∀ id file, s.directory.pending id = some file ∨ s.directory.claims id = some file →
    .place id file ∈ events
  calls : ∀ call ∈ s.calls, call.Traced decode isAbsolute events

theorem of_without {files : Text → Option TicketFile} {id id' : Text} {file : TicketFile}
    (h : without files id' id = some file) : files id = some file := by
  by_cases hid : id = id'
  · rw [without, hid, Function.update_self] at h
    cases h
  · rwa [without, Function.update_of_ne hid] at h

theorem of_update {files : Text → Option TicketFile} {id id' : Text} {file file' : TicketFile}
    (h : Function.update files id' (some file') id = some file) :
    id = id' ∧ file' = file ∨ files id = some file := by
  by_cases hid : id = id'
  · rw [hid, Function.update_self] at h
    exact .inl ⟨hid, Option.some_inj.mp h⟩
  · rw [Function.update_of_ne hid] at h
    exact .inr h

theorem Call.Traced.mono {events more : List Event} {call : Call}
    (h : call.Traced decode isAbsolute events) :
    call.Traced decode isAbsolute (events ++ more) := by
  unfold Call.Traced at h ⊢
  split <;> rename_i hphase <;> simp only [hphase] at h
  · obtain ⟨file, hplace, htext⟩ := h
    exact ⟨file, List.mem_append_left _ hplace, htext⟩
  · obtain ⟨file, text, hplace, hrest⟩ := h
    exact ⟨file, text, List.mem_append_left _ hplace, hrest⟩
  · trivial

theorem operate_traced {events : List Event} {call : Call} {directory directory' : Directory}
    {fails : Bool} {phase : Phase} {calls : List Call}
    (h : Traced decode isAbsolute events { directory := directory, calls := calls })
    (hcall : call.Traced decode isAbsolute events)
    (hop : call.operate decode isAbsolute directory fails = some (directory', phase)) :
    Traced decode isAbsolute events { directory := directory', calls := calls } ∧
      Call.Traced decode isAbsolute events { call with phase := phase } := by
  have hremove : Traced decode isAbsolute events
      { directory := { directory with pending := without directory.pending call.id }
        calls := calls } :=
    ⟨fun id file hfile => h.files id file (hfile.imp_left of_without), h.calls⟩
  obtain ⟨callId, nowMs, before⟩ := call
  cases before with
  | stat =>
    simp only [Call.operate] at hop
    split_ifs at hop
    · cases hop
      exact ⟨h, trivial⟩
    · split at hop
      · cases hop
        exact ⟨h, trivial⟩
      · split_ifs at hop <;> cases hop <;> exact ⟨h, trivial⟩
  | removeOversized =>
    cases fails <;> cases hop
    · exact ⟨hremove, trivial⟩
    · exact ⟨h, trivial⟩
  | rename =>
    simp only [Call.operate] at hop
    split_ifs at hop
    · cases hop
      exact ⟨h, trivial⟩
    · split at hop
      · cases hop
        exact ⟨h, trivial⟩
      · rename_i file hfile
        cases hop
        refine ⟨⟨fun id found hfound => ?_, h.calls⟩, trivial⟩
        rcases hfound with hfound | hfound
        · exact h.files id found (.inl (of_without hfound))
        · rcases of_update hfound with ⟨rfl, rfl⟩ | hfound
          · exact h.files id file (.inl hfile)
          · exact h.files id found (.inr hfound)
  | read =>
    cases hop
    refine ⟨h, ?_⟩
    cases fails with
    | true => trivial
    | false =>
      cases hfile : directory.claims callId with
      | none => simp [Call.Traced]
      | some file =>
        cases htext : file.text with
        | none => simp [Call.Traced, htext]
        | some text =>
          simp only [Call.Traced, Option.bind_some, htext]
          exact ⟨file, h.files callId file (.inr hfile), htext⟩
  | removeClaim contents =>
    have hreturned : Call.Traced decode isAbsolute events
        { id := callId, nowMs := nowMs
          phase := .returned (contents.bind (acceptTicket decode isAbsolute callId nowMs)) } := by
      cases contents with
      | error e => trivial
      | ok text =>
        obtain ⟨file, hplace, htext⟩ := hcall
        show Call.Traced _ _ _
          { phase := .returned (acceptTicket decode isAbsolute callId nowMs text), .. }
        cases haccept : acceptTicket decode isAbsolute callId nowMs text with
        | error e => trivial
        | ok ticket => exact ⟨file, text, hplace, htext, haccept⟩
    cases fails <;> cases hop
    · exact ⟨⟨fun id file hfile => h.files id file (hfile.imp_right of_without), h.calls⟩,
        hreturned⟩
    · exact ⟨h, hreturned⟩
  | returned result => cases hop

theorem step_traced {events : List Event} {s s' : State} {event : Event}
    (h : Traced decode isAbsolute events s) (hstep : s.step decode isAbsolute event = some s') :
    Traced decode isAbsolute (events ++ [event]) s' := by
  have hmore : Traced decode isAbsolute (events ++ [event]) s :=
    ⟨fun id file hfile => List.mem_append_left _ (h.files id file hfile),
      fun call hcall => (h.calls call hcall).mono⟩
  cases event with
  | place id file =>
    cases hstep
    refine ⟨fun id' found hfound => ?_, hmore.calls⟩
    rcases hfound with hfound | hfound
    · rcases of_update hfound with ⟨rfl, rfl⟩ | hfound
      · exact List.mem_append_right _ List.mem_cons_self
      · exact hmore.files id' found (.inl hfound)
    · exact hmore.files id' found (.inr hfound)
  | discard id =>
    cases hstep
    exact ⟨fun id' file hfile => hmore.files id' file (hfile.imp_left of_without), hmore.calls⟩
  | prune id =>
    cases hstep
    exact ⟨fun id' file hfile => hmore.files id' file (hfile.imp_right of_without), hmore.calls⟩
  | consume id nowMs =>
    cases hstep
    refine ⟨hmore.files, fun call hcall => ?_⟩
    rcases List.mem_append.mp hcall with hcall | hcall
    · exact hmore.calls call hcall
    · rw [List.mem_singleton.mp hcall, Call.Traced]
      cases validateTicketId id <;> trivial
  | operate k fails =>
    simp only [State.step] at hstep
    split at hstep
    · cases hstep
    · rename_i call hcall
      obtain ⟨next, hoperate, rfl⟩ := Option.map_eq_some_iff.mp hstep
      obtain ⟨hfiles, hphase⟩ :=
        operate_traced hmore (hmore.calls call (List.mem_of_getElem? hcall)) hoperate
      refine ⟨hfiles.files, fun other hother => ?_⟩
      rcases List.mem_or_eq_of_mem_set hother with hother | rfl
      · exact hmore.calls other hother
      · exact hphase

theorem run_traced {events more : List Event} {s s' : State}
    (h : Traced decode isAbsolute events s) (hrun : s.run decode isAbsolute more = some s') :
    Traced decode isAbsolute (events ++ more) s' := by
  induction more generalizing events s with
  | nil =>
    cases hrun
    rwa [List.append_nil]
  | cons event more ih =>
    rw [State.run, List.foldlM_cons] at hrun
    obtain ⟨next, hstep, hrest⟩ := Option.bind_eq_some_iff.mp hrun
    have hnext := ih (step_traced h hstep) hrest
    rwa [List.append_assoc] at hnext

/-- A ticket is restored only as it stands in a file placed under its own identifier, in time,
and for a target that is valid. -/
theorem restored_accepted {s : State} {events : List Event}
    (h : State.start.run decode isAbsolute events = some s) {call : Call} (hcall : call ∈ s.calls)
    {ticket : RestoreTicket} (hreturned : call.phase = .returned (.ok ticket)) :
    (∃ file text, .place call.id file ∈ events ∧ file.text = some text ∧
      decode text = some ticket) ∧ Accepted isAbsolute call.id call.nowMs ticket := by
  have hstart : Traced decode isAbsolute [] State.start :=
    { files := fun id file h => by rcases h with h | h <;> cases h
      calls := fun call h => absurd h List.not_mem_nil }
  have htraced := (run_traced hstart h).calls call hcall
  rw [Call.Traced, hreturned] at htraced
  obtain ⟨file, text, hplace, htext, haccept⟩ := htraced
  obtain ⟨hdecode, haccepted⟩ := acceptTicket_iff.mp haccept
  exact ⟨⟨file, text, hplace, htext, hdecode⟩, haccepted⟩

/-! ## A ticket that is left alone is restored -/

/-- What leaves `id` alone: other identifiers, and operations of the call `k` that succeed. -/
def Quiet (id : Text) (k : Nat) (s : State) : Event → Prop
  | .place id' _ => id' ≠ id
  | .discard id' => id' ≠ id
  | .prune id' => id' ≠ id
  | .consume id' _ => id' ≠ id
  | .operate j fails =>
    if j = k then fails = false else ∀ call, s.calls[j]? = some call → call.id ≠ id

inductive QuietRun (decode : Text → Option RestoreTicket) (isAbsolute : Text → Bool) (id : Text)
    (k : Nat) : State → List Event → State → Prop
  | nil (s : State) : QuietRun decode isAbsolute id k s [] s
  | cons {s next s' : State} {event : Event} {events : List Event}
      (quiet : Quiet id k s event) (step : s.step decode isAbsolute event = some next)
      (rest : QuietRun decode isAbsolute id k next events s') :
      QuietRun decode isAbsolute id k s (event :: events) s'

/-- The call `k` after `n` of its operations on the file. -/
def Restoring (decode : Text → Option RestoreTicket) (isAbsolute : Text → Bool) (id : Text)
    (nowMs : Int) (file : TicketFile) (text : Text) (k n : Nat) (s : State) : Prop :=
  ∃ phase, s.calls[k]? = some { id := id, nowMs := nowMs, phase := phase } ∧
    match n with
    | 0 => phase = .stat ∧ s.directory.pending id = some file
    | 1 => phase = .rename ∧ s.directory.pending id = some file
    | 2 => phase = .read ∧ s.directory.claims id = some file
    | 3 => phase = .removeClaim (.ok text)
    | _ => phase = .returned (acceptTicket decode isAbsolute id nowMs text)

/-- A step that does not touch the call or its files keeps it where it is. -/
theorem Restoring.frame {id text : Text} {nowMs : Int} {file : TicketFile} {k n : Nat}
    {s s' : State} (h : Restoring decode isAbsolute id nowMs file text k n s)
    (hcall : s'.calls[k]? = s.calls[k]?)
    (hpending : s'.directory.pending id = s.directory.pending id)
    (hclaims : s'.directory.claims id = s.directory.claims id) :
    Restoring decode isAbsolute id nowMs file text k n s' := by
  unfold Restoring at h ⊢
  rwa [hcall, hpending, hclaims]

theorem operate_other {call : Call} {directory directory' : Directory} {fails : Bool}
    {phase : Phase} {id : Text} (hid : call.id ≠ id)
    (h : call.operate decode isAbsolute directory fails = some (directory', phase)) :
    directory'.pending id = directory.pending id ∧ directory'.claims id = directory.claims id := by
  have hupdate : ∀ (files : Text → Option TicketFile) file,
      Function.update files call.id file id = files id := fun files file =>
    Function.update_of_ne (Ne.symm hid) ..
  unfold Call.operate at h
  split at h
  all_goals
    repeat' split at h
    all_goals cases h
    all_goals try cases fails
    all_goals exact ⟨by simp [without, hupdate], by simp [without, hupdate]⟩

theorem step_restoring {id text : Text} {nowMs : Int} {file : TicketFile} {k n : Nat}
    {s s' : State} {event : Event} (hregular : file.regular = true)
    (hsize : file.size ≤ maxTicketBytes) (htext : file.text = some text)
    (h : Restoring decode isAbsolute id nowMs file text k n s) (hquiet : Quiet id k s event)
    (hstep : s.step decode isAbsolute event = some s') :
    Restoring decode isAbsolute id nowMs file text k
      (n + if event = .operate k false then 1 else 0) s' := by
  have hother : ∀ {id' : Text}, id' ≠ id → ∀ (files : Text → Option TicketFile) file,
      Function.update files id' file id = files id := fun hid files file =>
    Function.update_of_ne (Ne.symm hid) ..
  cases event with
  | place id' placed =>
    cases hstep
    exact h.frame rfl (hother hquiet ..) rfl
  | discard id' =>
    cases hstep
    exact h.frame rfl (hother hquiet ..) rfl
  | prune id' =>
    cases hstep
    exact h.frame rfl rfl (hother hquiet ..)
  | consume id' later =>
    cases hstep
    have hbefore := h
    obtain ⟨phase, hcall, -⟩ := hbefore
    exact h.frame (List.getElem?_append_left (List.getElem?_eq_some_iff.mp hcall).1) rfl rfl
  | operate j fails =>
    simp only [State.step] at hstep
    by_cases hj : j = k
    · subst hj
      obtain rfl : fails = false := by simpa [Quiet] using hquiet
      obtain ⟨phase, hcall, hphase⟩ := h
      rw [hcall] at hstep
      obtain ⟨next, hop, rfl⟩ := Option.map_eq_some_iff.mp hstep
      have hset : (s.calls.set j { id := id, nowMs := nowMs, phase := next.2 })[j]? =
          some { id := id, nowMs := nowMs, phase := next.2 } :=
        List.getElem?_set_self (List.getElem?_eq_some_iff.mp hcall).1
      rw [if_pos rfl]
      refine ⟨next.2, hset, ?_⟩
      match n with
      | 0 =>
        obtain ⟨rfl, hfile⟩ := hphase
        simp only [Call.operate, hfile, hregular, Nat.not_lt.mpr hsize] at hop
        cases hop
        exact ⟨rfl, hfile⟩
      | 1 =>
        obtain ⟨rfl, hfile⟩ := hphase
        simp only [Call.operate, hfile] at hop
        cases hop
        exact ⟨rfl, Function.update_self ..⟩
      | 2 =>
        obtain ⟨rfl, hfile⟩ := hphase
        simp only [Call.operate, hfile, Option.bind_some, htext] at hop
        cases hop
        rfl
      | 3 =>
        obtain rfl := hphase
        cases hop
        rfl
      | n + 4 =>
        obtain rfl := hphase
        cases hop
    · rw [if_neg (by simp [hj])]
      split at hstep
      · cases hstep
      · rename_i call hcall
        obtain ⟨next, hop, rfl⟩ := Option.map_eq_some_iff.mp hstep
        have hid : call.id ≠ id := by
          rw [Quiet, if_neg hj] at hquiet
          exact hquiet call hcall
        obtain ⟨hpending, hclaims⟩ := operate_other hid hop
        exact h.frame (List.getElem?_set_ne hj) hpending hclaims

theorem run_restoring {id text : Text} {nowMs : Int} {file : TicketFile} {k n : Nat}
    {s s' : State} {events : List Event} (hregular : file.regular = true)
    (hsize : file.size ≤ maxTicketBytes) (htext : file.text = some text)
    (h : Restoring decode isAbsolute id nowMs file text k n s)
    (hrun : QuietRun decode isAbsolute id k s events s') :
    Restoring decode isAbsolute id nowMs file text k
      (n + events.count (.operate k false)) s' := by
  induction hrun generalizing n with
  | nil s => exact h
  | @cons s next s' event events hquiet hstep _ ih =>
    have hnext := ih (step_restoring hregular hsize htext h hquiet hstep)
    rw [List.count_cons, Nat.add_comm (events.count _), ← Nat.add_assoc]
    by_cases hevent : event = .operate k false
    · rw [if_pos hevent] at hnext
      rwa [if_pos (beq_iff_eq.mpr hevent)]
    · rw [if_neg hevent] at hnext
      rwa [if_neg (by simpa using hevent)]

/-- A ticket that was written is restored by the call that follows, when nothing else touches it
and the call's four operations succeed, whatever other calls do in between. -/
theorem written_restored {encode : RestoreTicket → Text} {ticket : RestoreTicket} {nowMs : Int}
    {id : Text} {file : TicketFile} (hround : decode (encode ticket) = some ticket)
    (haccepted : Accepted isAbsolute id nowMs ticket)
    (hwritten : writeTicket encode ticket = .ok (id, file)) {s begun s' : State}
    (hbegun : s.run decode isAbsolute [.place id file, .consume id nowMs] = some begun)
    {events : List Event} (hrun : QuietRun decode isAbsolute id s.calls.length begun events s')
    (hops : 4 ≤ events.count (.operate s.calls.length false)) :
    s'.calls[s.calls.length]? =
      some { id := id, nowMs := nowMs, phase := .returned (.ok ticket) } := by
  simp only [writeTicket] at hwritten
  split at hwritten
  · cases hwritten
  · rename_i hvalid
    split_ifs at hwritten with hsize
    cases hwritten
    have hbegin : Restoring decode isAbsolute ticket.ticketId nowMs
        { regular := true, size := byteLen (encode ticket), text := some (encode ticket) }
        (encode ticket) s.calls.length 0 begun := by
      cases hbegun
      refine ⟨.stat, ?_, rfl, Function.update_self ..⟩
      show (s.calls ++ [_])[s.calls.length]? = _
      rw [List.getElem?_concat_length, hvalid]
    obtain ⟨phase, hcall, hphase⟩ := run_restoring rfl (Nat.not_lt.mp hsize) rfl hbegin hrun
    obtain ⟨m, hm⟩ := Nat.exists_eq_add_of_le hops
    rw [Nat.zero_add, hm, Nat.add_comm] at hphase
    rw [hcall, show phase = _ from hphase, acceptTicket_iff.mpr ⟨hround, haccepted⟩]

/-! ## Two calls for one ticket -/

def sampleTicket : RestoreTicket :=
  { schemaVersion := 1, ticketId := "0a1b2c3d-0000-4000-8000-0123456789ab".toList
    createdAtMs := 1000, originPid := 7, workspace := .log, target := .workspace
    reason := .explicitMenu, retryAttempted := true }

def sampleEncode (_ : RestoreTicket) : Text := ['t']

def sampleDecode (text : Text) : Option RestoreTicket :=
  if text = ['t'] then some sampleTicket else none

def sampleFile : TicketFile := { regular := true, size := 1, text := some ['t'] }

/-- Both calls find the file before the first of them renames it. -/
def sampleRace : List Event :=
  [.place sampleTicket.ticketId sampleFile, .consume sampleTicket.ticketId 2000,
    .consume sampleTicket.ticketId 2001, .operate 0 false, .operate 1 false, .operate 0 false,
    .operate 1 false, .operate 0 false, .operate 0 false]

theorem restored_le_placed_race :
    ∃ s, State.start.run sampleDecode (fun _ => true) sampleRace = some s ∧
      s.calls.countP (Call.restored sampleTicket.ticketId) ≤
        sampleRace.countP (Event.places sampleTicket.ticketId) :=
  ⟨_, rfl, restored_le_placed rfl sampleTicket.ticketId⟩

theorem restored_accepted_race :
    (∃ file text, .place sampleTicket.ticketId file ∈ sampleRace ∧ file.text = some text ∧
      sampleDecode text = some sampleTicket) ∧
        Accepted (fun _ => true) sampleTicket.ticketId 2000 sampleTicket :=
  @restored_accepted sampleDecode (fun _ => true) _ sampleRace rfl
    { id := sampleTicket.ticketId, nowMs := 2000, phase := .returned (.ok sampleTicket) }
    List.mem_cons_self sampleTicket rfl

/-- The ticket is written, and a call has begun. -/
def sampleBegun : State :=
  { directory :=
      { pending := Function.update (fun _ => none) sampleTicket.ticketId (some sampleFile)
        claims  := fun _ => none }
    calls := [{ id := sampleTicket.ticketId, nowMs := 2000, phase := .stat }] }

theorem written_restored_sample :
    ∃ s' : State, s'.calls[0]? = some
      { id := sampleTicket.ticketId, nowMs := 2000, phase := .returned (.ok sampleTicket) } := by
  have hquiet : ∀ s, Quiet sampleTicket.ticketId 0 s (.operate 0 false) := by
    intro s
    rw [Quiet, if_pos rfl]
  have hrun : ∃ s', QuietRun sampleDecode (fun _ => true) sampleTicket.ticketId 0 sampleBegun
      (List.replicate 4 (.operate 0 false)) s' :=
    ⟨_, .cons (hquiet _) rfl (.cons (hquiet _) rfl (.cons (hquiet _) rfl (.cons (hquiet _) rfl
      (.nil _))))⟩
  obtain ⟨s', hrun⟩ := hrun
  exact ⟨s', @written_restored sampleDecode (fun _ => true) sampleEncode sampleTicket 2000
    sampleTicket.ticketId sampleFile rfl ⟨rfl, rfl, by decide, rfl⟩ rfl .start sampleBegun s' rfl
    _ hrun (by decide)⟩

end

end Elevation
end CmTrace
