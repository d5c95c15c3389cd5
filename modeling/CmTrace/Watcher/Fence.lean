import CmTrace.Watcher.Firewall

/-!
# The fence around a firewall source

Control commands and workers call the owner in any order: a token may be late or
repeated, and an outcome may come back long after its request.  `Fence` is the
owner with the requests it has handed out, the rows in view and every row id given
so far; `run` makes calls one after the other.

`Fenced` is the invariant.  A request of the owner's revision still describes the
owner, so a commit of that revision continues the very checkpoint that was read.
-/

namespace CmTrace
namespace Watcher

open Text Log Firewall

variable {I : Type}

/-! ## What accepted calls do to the owner -/

namespace FirewallOwner

variable {o : FirewallOwner I}

theorem isCurrent_iff {token : FirewallControlToken} :
    o.isCurrent token = true ↔
      o.sameSession token = true ∧ token.watchEpoch = o.epoch ∧ o.active = true := by
  simp [isCurrent, and_assoc]

theorem sameSession_id {token : FirewallControlToken} (h : o.sameSession token = true) :
    token.sourceSessionId = o.sessionId := by
  rw [sameSession, decide_eq_true_eq] at h
  exact h.1

theorem isCurrent_unique {a b : FirewallControlToken} (ha : o.isCurrent a = true)
    (hb : o.isCurrent b = true) : a = b := by
  rw [isCurrent_iff] at ha hb
  cases a with
  | mk session epoch =>
    cases b with
    | mk session' epoch' =>
      have hs := (sameSession_id ha.1).trans (sameSession_id hb.1).symm
      have he := ha.2.1.trans hb.2.1.symm
      simp only at hs he
      rw [hs, he]

theorem start_cases (token : Option FirewallControlToken) :
    ((o.start token).1 ≠ .started ∧ (o.start token).2 = o) ∨
    ∃ t, token = some t ∧ o.epoch < t.watchEpoch ∧
      o.start token = (.started,
        { o with epoch    := t.watchEpoch
                 revision := o.revision + 1
                 active   := true
                 paused   := false }) := by
  unfold start
  cases hf : token.filter o.sameSession with
  | none => exact .inl ⟨(by simp), rfl⟩
  | some t =>
    have htoken : token = some t := (Option.filter_eq_some_iff.mp hf).1
    dsimp only
    by_cases hlt : t.watchEpoch < o.epoch
    · rw [if_pos hlt]
      exact .inl ⟨(by simp), rfl⟩
    · rw [if_neg hlt]
      by_cases heq : t.watchEpoch = o.epoch
      · rw [if_pos heq]
        refine .inl ⟨?_, rfl⟩
        cases o.active <;> simp
      · rw [if_neg heq]
        exact .inr ⟨t, htoken, by omega, rfl⟩

theorem stop_cases (token : Option FirewallControlToken) :
    o.stop token = (false, o) ∨
    ∃ t, token = some t ∧ o.epoch ≤ t.watchEpoch ∧
      o.stop token = (true,
        { o with epoch := t.watchEpoch, revision := o.revision + 1, active := false }) := by
  unfold stop
  cases hf : token.filter fun t => o.sameSession t && decide (o.epoch ≤ t.watchEpoch) with
  | none => exact .inl rfl
  | some t =>
    obtain ⟨htoken, hle⟩ := Option.filter_eq_some_iff.mp hf
    rw [Bool.and_eq_true, decide_eq_true_eq] at hle
    exact .inr ⟨t, htoken, hle.2, rfl⟩

theorem setPaused_cases (token : Option FirewallControlToken) (paused : Bool) :
    o.setPaused token paused = (false, o) ∨
      o.setPaused token paused = (true, { o with paused := paused, revision := o.revision + 1 }) := by
  unfold setPaused
  cases token.filter o.isCurrent with
  | none => exact .inl rfl
  | some t => exact .inr rfl

theorem request_some {token : FirewallControlToken} {request : FirewallReadRequest I}
    (h : o.request token = some request) :
    o.isCurrent token = true ∧ o.paused = false ∧
      request = ⟨o.revision, o.checkpoint, o.pending⟩ := by
  unfold FirewallOwner.request at h
  split at h
  · rename_i hc
    rw [Bool.and_eq_true, Bool.not_eq_true'] at hc
    exact ⟨hc.1, hc.2, (Option.some.inj h).symm⟩
  · cases h

theorem commit_cases (token : FirewallControlToken) (revision : Nat)
    (outcome : FirewallReadOutcome I) :
    o.commit token revision outcome = (false, none, o) ∨
    o.isCurrent token = true ∧ o.paused = false ∧ revision = o.revision ∧
      o.commit token revision outcome =
        (true,
          if outcome.changed || outcome.batch.decoding != o.decoding then some outcome.batch
          else none,
          { o with checkpoint := outcome.checkpoint.getD o.checkpoint
                   pending    := outcome.pending
                   revision   := o.revision + 1
                   decoding   := outcome.batch.decoding }) := by
  unfold commit
  split
  · exact .inl rfl
  · rename_i h
    simp only [Bool.or_eq_true, Bool.not_eq_true', bne_iff_ne, not_or, not_not,
      Bool.not_eq_false, Bool.not_eq_true] at h
    exact .inr ⟨h.1.1, h.1.2, h.2, rfl⟩

end FirewallOwner

/-! ## Calls in any order -/

inductive FenceCall (I : Type) where
  | start (token : Option FirewallControlToken)
  | stop (token : Option FirewallControlToken)
  | setPaused (token : Option FirewallControlToken) (paused : Bool)
  | request (token : FirewallControlToken)
  /-- A worker brings back what its read of the request handed out as number
  `request` found. -/
  | commit (token : FirewallControlToken) (request : Nat) (attempt : Option (OpenedSource I))
  deriving DecidableEq

structure Fence (I : Type) where
  owner : FirewallOwner I
  issued : List (FirewallReadRequest I) := []
  /-- The rows in view. -/
  rows : List LogEntry
  /-- The ids of all rows that have been in view. -/
  given : List Nat
  deriving DecidableEq

namespace Fence

def opened (sessionId : Text) (identity : Option I)
    (source : ParseResult × FirewallSourceSnapshot) : Fence I :=
  { owner := .new sessionId source.2 identity
    rows  := source.1.entries
    given := source.1.entries.map fun e => e.id }

def showBatch (rows : List LogEntry) (batch : FirewallBatch) : List LogEntry :=
  applyDelta (if batch.reset then [] else rows)
    { entries := batch.entries, replacements := batch.replacements }

section
variable [DecidableEq I] (parseFromStr : Text → Option Int) (path : Text)

def outcome (f : Fence I) (request : Nat) (attempt : Option (OpenedSource I)) :
    Option (FirewallReadRequest I × FirewallReadOutcome I) :=
  f.issued[request]?.map fun r => (r, readCandidate parseFromStr path r attempt)

/-- Whether the owner accepts the call as a transition, what it publishes and the
owner afterwards. -/
def answer (f : Fence I) : FenceCall I → Bool × Option FirewallBatch × FirewallOwner I
  | .start token =>
    let (admission, owner) := f.owner.start token
    (admission == .started, none, owner)
  | .stop token =>
    let (accepted, owner) := f.owner.stop token
    (accepted, none, owner)
  | .setPaused token paused =>
    let (accepted, owner) := f.owner.setPaused token paused
    (accepted, none, owner)
  | .request _ => (false, none, f.owner)
  | .commit token request attempt =>
    match f.outcome parseFromStr path request attempt with
    | none => (false, none, f.owner)
    | some (r, outcome) => f.owner.commit token r.revision outcome

def handed (f : Fence I) : FenceCall I → Option (FirewallReadRequest I)
  | .request token => f.owner.request token
  | _ => none

def call (f : Fence I) (c : FenceCall I) : Fence I :=
  let (_, published, owner) := f.answer parseFromStr path c
  { owner  := owner
    issued := f.issued ++ (f.handed c).toList
    rows   := published.elim f.rows (showBatch f.rows)
    given  := f.given ++ published.elim [] fun batch => batch.entries.map fun e => e.id }

def accepts (f : Fence I) (c : FenceCall I) : Bool := (f.answer parseFromStr path c).1

def run (calls : List (FenceCall I)) (f : Fence I) : Fence I := calls.foldl (call parseFromStr path) f

/-! ## One call -/

def current (o : FirewallOwner I) : FirewallReadRequest I := ⟨o.revision, o.checkpoint, o.pending⟩

/-- The transitions an owner can make, with the call and what is published. -/
inductive Moves (o : FirewallOwner I) :
    FenceCall I → Option FirewallBatch → FirewallOwner I → Prop where
  | start (token : FirewallControlToken) (later : o.epoch < token.watchEpoch) :
      Moves o (.start (some token)) none
        { o with epoch    := token.watchEpoch
                 revision := o.revision + 1
                 active   := true
                 paused   := false }
  | stop (token : FirewallControlToken) (notEarlier : o.epoch ≤ token.watchEpoch) :
      Moves o (.stop (some token)) none
        { o with epoch := token.watchEpoch, revision := o.revision + 1, active := false }
  | setPaused (token : Option FirewallControlToken) (paused : Bool) :
      Moves o (.setPaused token paused) none { o with paused := paused, revision := o.revision + 1 }
  | commit (token : FirewallControlToken) (request : Nat) (attempt : Option (OpenedSource I))
      (outcome : FirewallReadOutcome I) (published : Option FirewallBatch)
      (isCurrent : o.isCurrent token = true) (running : o.paused = false)
      (read : outcome = readCandidate parseFromStr path (current o) attempt)
      (publishes : published = some outcome.batch ∨ published = none ∧ outcome.changed = false) :
      Moves o (.commit token request attempt) published
        { o with checkpoint := outcome.checkpoint.getD o.checkpoint
                 pending    := outcome.pending
                 revision   := o.revision + 1
                 decoding   := outcome.batch.decoding }

/-- The rows in view and the ids given, seen from the stream that goes on. -/
structure Ledger (stream : FirewallStream) (rows : List LogEntry) (given : List Nat) : Prop where
  distinct : given.Nodup
  below : ∀ id ∈ given, id < stream.nextId
  shown : (rows.map fun e => e.id).Sublist given
  /-- The row the stream may still replace is in view. -/
  provisional : ∀ id, stream.provisionalId = some id → (id, stream.nextLine) ∈ rows.map rowKey

/-- What every fence keeps. -/
structure Fenced (f : Fence I) : Prop where
  issued : ∀ r ∈ f.issued, r.revision ≤ f.owner.revision ∧
    (r.revision = f.owner.revision → r = current f.owner)
  ledger : Ledger f.owner.checkpoint.stream f.rows f.given

variable {f : Fence I}

theorem answer_cases (h : Fenced f) (c : FenceCall I) :
    f.answer parseFromStr path c = (false, none, f.owner) ∨
    ∃ published owner, f.answer parseFromStr path c = (true, published, owner) ∧
      Moves parseFromStr path f.owner c published owner := by
  cases c with
  | start token =>
    have heq : f.answer parseFromStr path (.start token) =
        ((f.owner.start token).1 == .started, none, (f.owner.start token).2) := rfl
    rw [heq]
    rcases FirewallOwner.start_cases token with ⟨hne, hsame⟩ | ⟨t, rfl, hlater, hstart⟩
    · rw [hsame, beq_eq_false_iff_ne.mpr hne]
      exact .inl rfl
    · rw [hstart]
      exact .inr ⟨_, _, rfl, .start t hlater⟩
  | stop token =>
    have heq : f.answer parseFromStr path (.stop token) =
        ((f.owner.stop token).1, none, (f.owner.stop token).2) := rfl
    rw [heq]
    rcases FirewallOwner.stop_cases token with hsame | ⟨t, rfl, hle, hstop⟩
    · rw [hsame]
      exact .inl rfl
    · rw [hstop]
      exact .inr ⟨_, _, rfl, .stop t hle⟩
  | setPaused token paused =>
    have heq : f.answer parseFromStr path (.setPaused token paused) =
        ((f.owner.setPaused token paused).1, none, (f.owner.setPaused token paused).2) := rfl
    rw [heq]
    rcases FirewallOwner.setPaused_cases token paused with hsame | hset
    · rw [hsame]
      exact .inl rfl
    · rw [hset]
      exact .inr ⟨_, _, rfl, .setPaused token paused⟩
  | request token => exact .inl rfl
  | commit token request attempt =>
    have heq : f.answer parseFromStr path (.commit token request attempt) =
        match f.issued[request]? with
        | none => (false, none, f.owner)
        | some r => f.owner.commit token r.revision (readCandidate parseFromStr path r attempt) := by
      simp only [answer, outcome]
      cases f.issued[request]? <;> rfl
    rw [heq]
    cases hr : f.issued[request]? with
    | none => exact .inl rfl
    | some r =>
      dsimp only
      rcases FirewallOwner.commit_cases token r.revision (readCandidate parseFromStr path r attempt)
        with hsame | ⟨hactive, hrunning, hrevision, hcommit⟩
      · exact .inl hsame
      · -- the request is of this revision, hence of this owner
        have hcurrent := (h.issued r (List.mem_of_getElem? hr)).2 hrevision
        rw [hcommit]
        refine .inr ⟨_, _, rfl,
          .commit token request attempt _ _ hactive hrunning (by rw [hcurrent]) ?_⟩
        split
        · exact .inl rfl
        · rename_i hno
          rw [Bool.not_eq_true, Bool.or_eq_false_iff] at hno
          exact .inr ⟨rfl, hno.1⟩

def Extends (a b : FirewallCheckpoint I) : Prop :=
  ∃ bytes decoded, a.decoder.push bytes = (.ok decoded, b.decoder) ∧
    b.stream = (a.stream.pushText parseFromStr decoded.text path).2 ∧ b.identity = a.identity

/-- One checkpoint follows another with the source read from byte 0; row ids go on. -/
def Restarts (a b : FirewallCheckpoint I) : Prop :=
  ∃ bytes force opened, snapshotBytes parseFromStr bytes path a.stream.nextId force = .ok opened ∧
    b.decoder = opened.2.decoder ∧ b.stream = opened.2.stream

/-- What the outcome of a read does to the checkpoint, to what is pending and to the
rows, whether or not its batch is published. -/
theorem candidate_cases {r : FirewallReadRequest I} {attempt : Option (OpenedSource I)}
    {outcome : FirewallReadOutcome I} {published : Option FirewallBatch}
    (read : outcome = readCandidate parseFromStr path r attempt)
    (publishes : published = some outcome.batch ∨ published = none ∧ outcome.changed = false) :
    (outcome.checkpoint = none ∧ outcome.batch.decoding.kind = .gap ∧
      Owed r attempt outcome.pending ∧
      ∀ batch ∈ published, batch.entries = [] ∧ batch.replacements = [] ∧ batch.reset = false) ∨
    (∃ next, outcome.checkpoint = some next ∧ outcome.batch.decoding.kind ≠ .gap ∧
      r.pending = none ∧ outcome.pending = none ∧ Extends parseFromStr path r.checkpoint next ∧
      ∃ delta, Numbers r.checkpoint.stream (next.stream, delta) ∧ ∀ batch ∈ published,
        batch.entries = delta.entries ∧ batch.replacements = delta.replacements ∧
          batch.reset = false) ∨
    ∃ next, outcome.checkpoint = some next ∧ outcome.batch.decoding.kind ≠ .gap ∧
      outcome.pending = none ∧ Restarts parseFromStr path r.checkpoint next ∧
      ∃ batch, published = some batch ∧ batch.reset = true ∧ batch.replacements = [] ∧
        r.checkpoint.stream.nextId ≤ next.stream.nextId ∧
        batch.entries.map (fun e => e.id) = List.range' r.checkpoint.stream.nextId
          (next.stream.nextId - r.checkpoint.stream.nextId) ∧
        ∀ id, next.stream.provisionalId = some id →
          (id, next.stream.nextLine) ∈ batch.entries.map rowKey := by
  have hbatch : ∀ batch ∈ published, batch = outcome.batch := by
    intro batch hb
    rcases publishes with h | ⟨h, -⟩
    · rw [h] at hb
      exact (Option.some.inj hb).symm
    · rw [h] at hb
      cases hb
  have hready : ∀ decoder, (FirewallDecodingStatus.fromDecoder decoder).kind ≠ .gap := by
    intro decoder
    simp only [FirewallDecodingStatus.fromDecoder]
    split <;> simp
  rcases readCandidate_cases parseFromStr path r attempt with
    ⟨pending, reason, howed, hread⟩ | ⟨bytes, decoded, decoder, hpending, hpush, hread⟩ |
    ⟨identity, bytes, force, opened, hsource, hread⟩
  · rw [← read] at hread
    subst hread
    refine .inl ⟨rfl, rfl, howed, fun batch hb => ?_⟩
    rw [hbatch batch hb]
    exact ⟨rfl, rfl, rfl⟩
  · rw [← read] at hread
    subst hread
    refine .inr (.inl ⟨_, rfl, hready decoder, hpending, rfl, ⟨bytes, decoded, hpush, rfl, rfl⟩,
      _, r.checkpoint.stream.pushText_numbers parseFromStr decoded.text path, fun batch hb => ?_⟩)
    rw [hbatch batch hb]
    exact ⟨rfl, rfl, rfl⟩
  · rw [← read] at hread
    subst hread
    obtain ⟨decoded, decoder, -, rfl⟩ := snapshotBytes_ok parseFromStr hsource
    have hnumbers := snapshotDecoded_numbers parseFromStr path r.checkpoint.stream.nextId
      bytes.length decoded decoder
    refine .inr (.inr ⟨_, rfl, hready _, rfl, ⟨bytes, force, _, hsource, rfl, rfl⟩, _,
      publishes.resolve_right (fun h => by cases h.2), rfl, rfl, hnumbers.1, hnumbers.2.1,
      hnumbers.2.2⟩)

theorem call_eq {c : FenceCall I} {accepted : Bool} {published : Option FirewallBatch}
    {owner : FirewallOwner I} (h : f.answer parseFromStr path c = (accepted, published, owner)) :
    f.call parseFromStr path c =
      { owner  := owner
        issued := f.issued ++ (f.handed c).toList
        rows   := published.elim f.rows (showBatch f.rows)
        given  := f.given ++ published.elim [] fun batch => batch.entries.map fun e => e.id } := by
  rw [call, h]

theorem run_issued (calls : List (FenceCall I)) (f : Fence I) :
    ∃ more, (f.run parseFromStr path calls).issued = f.issued ++ more := by
  induction calls generalizing f with
  | nil => exact ⟨[], (List.append_nil _).symm⟩
  | cons c rest ih =>
    obtain ⟨more, h⟩ := ih (f.call parseFromStr path c)
    exact ⟨(f.handed c).toList ++ more, h.trans (List.append_assoc _ _ _)⟩

theorem moves_revision {o owner : FirewallOwner I} {c : FenceCall I}
    {published : Option FirewallBatch} (h : Moves parseFromStr path o c published owner) :
    owner.revision = o.revision + 1 := by
  cases h <;> rfl

omit [DecidableEq I] in
theorem handed_current {c : FenceCall I} {r : FirewallReadRequest I} (h : f.handed c = some r) :
    r = current f.owner := by
  cases c with
  | request token => exact (FirewallOwner.request_some h).2.2
  | start token => cases h
  | stop token => cases h
  | setPaused token paused => cases h
  | commit token request attempt => cases h

theorem call_issued (h : Fenced f) (c : FenceCall I) :
    ∀ r ∈ (f.call parseFromStr path c).issued,
      r.revision ≤ (f.call parseFromStr path c).owner.revision ∧
        (r.revision = (f.call parseFromStr path c).owner.revision →
          r = current (f.call parseFromStr path c).owner) := by
  have hissued : ∀ r ∈ f.issued ++ (f.handed c).toList, r.revision ≤ f.owner.revision ∧
      (r.revision = f.owner.revision → r = current f.owner) := by
    intro r hr
    rcases List.mem_append.mp hr with hr | hr
    · exact h.issued r hr
    · rw [handed_current (Option.mem_toList.mp hr)]
      exact ⟨Nat.le_refl _, fun _ => rfl⟩
  intro r hr
  have hold := hissued r hr
  have howner : (f.call parseFromStr path c).owner = (f.answer parseFromStr path c).2.2 := rfl
  rw [howner]
  rcases answer_cases parseFromStr path h c with hsame | ⟨published, owner, hanswer, hmoves⟩
  · rw [hsame]
    exact hold
  · rw [hanswer]
    have hrevision := moves_revision parseFromStr path hmoves
    dsimp only
    rw [hrevision]
    exact ⟨by omega, fun heq => by omega⟩

theorem given_append {given fresh : List Nat} {start next : Nat} (distinct : given.Nodup)
    (below : ∀ id ∈ given, id < start) (grows : start ≤ next)
    (ids : fresh = List.range' start (next - start)) :
    (given ++ fresh).Nodup ∧ ∀ id ∈ given ++ fresh, id < next := by
  subst ids
  have hrange : ∀ id ∈ List.range' start (next - start), start ≤ id ∧ id < next := by
    intro id hid
    rw [List.mem_range'_1] at hid
    omega
  refine ⟨List.nodup_append.mpr ⟨distinct, List.nodup_range', fun a ha b hb hab => ?_⟩,
    fun id hid => ?_⟩
  · have hlt := below a ha
    have hle := (hrange b hb).1
    omega
  · rcases List.mem_append.mp hid with hid | hid
    · exact Nat.lt_of_lt_of_le (below id hid) grows
    · exact (hrange id hid).2

/-- The keys in view after a batch: those in view before it unless it resets, then
those it brings. -/
theorem showBatch_keys (rows : List LogEntry) {batch : FirewallBatch}
    (keeps : ∀ rep ∈ batch.replacements, rep.Keeps) :
    (showBatch rows batch).map rowKey =
      (if batch.reset then [] else rows).map rowKey ++ batch.entries.map rowKey := by
  rw [showBatch, applyDelta, keys_foldl_replaceRow _ _ keeps, List.map_append]

theorem ids_of_keys {a b : List LogEntry} {c : List (Nat × Nat)}
    (h : a.map rowKey = c ++ b.map rowKey) :
    a.map (fun e => e.id) = c.map Prod.fst ++ b.map (fun e => e.id) := by
  have hfst : ∀ rows : List LogEntry, (rows.map rowKey).map Prod.fst = rows.map fun e => e.id := by
    intro rows
    rw [List.map_map]
    rfl
  rw [← hfst a, h, List.map_append, hfst]

section
variable {s t : FirewallStream} {rows : List LogEntry} {given : List Nat} {batch : FirewallBatch}

theorem ledger_extend {delta : FirewallDelta} (h : Ledger s rows given)
    (hn : Numbers s (t, delta)) (entries : batch.entries = delta.entries)
    (replacements : batch.replacements = delta.replacements) (noReset : batch.reset = false) :
    Ledger t (showBatch rows batch) (given ++ batch.entries.map fun e => e.id) := by
  have hkeys := showBatch_keys rows
    (by rw [replacements]; exact fun rep hrep => (hn.settles rep hrep).2.2)
  rw [noReset, if_neg Bool.false_ne_true] at hkeys
  have hids : batch.entries.map (fun e => e.id) = List.range' s.nextId (t.nextId - s.nextId) := by
    rw [entries]
    exact hn.ids
  obtain ⟨hdistinct, hbelow⟩ := given_append h.distinct h.below hn.grows hids
  refine ⟨hdistinct, hbelow, ?_, fun id hid => ?_⟩
  · rw [ids_of_keys hkeys, List.map_map]
    exact h.shown.append (List.Sublist.refl _)
  · rw [hkeys]
    refine List.mem_append_left _ ?_
    rcases hn.held with hnone | ⟨hsame, hline⟩
    · rw [hnone] at hid
      cases hid
    · simp only at hsame hline
      rw [hline]
      exact h.provisional id (hsame.symm.trans hid)

theorem ledger_silent {delta : FirewallDelta} (h : Ledger s rows given)
    (hn : Numbers s (t, delta)) : Ledger t rows given := by
  refine ⟨h.distinct, fun id hid => Nat.lt_of_lt_of_le (h.below id hid) hn.grows, h.shown,
    fun id hid => ?_⟩
  rcases hn.held with hnone | ⟨hsame, hline⟩
  · rw [hnone] at hid
    cases hid
  · simp only at hsame hline
    rw [hline]
    exact h.provisional id (hsame.symm.trans hid)

theorem ledger_restart (h : Ledger s rows given) (grows : s.nextId ≤ t.nextId)
    (ids : batch.entries.map (fun e => e.id) = List.range' s.nextId (t.nextId - s.nextId))
    (provisional : ∀ id, t.provisionalId = some id →
      (id, t.nextLine) ∈ batch.entries.map rowKey)
    (replacements : batch.replacements = []) (reset : batch.reset = true) :
    Ledger t (showBatch rows batch) (given ++ batch.entries.map fun e => e.id) := by
  have hrows : showBatch rows batch = batch.entries := by
    rw [showBatch, applyDelta, replacements, reset, if_pos rfl]
    rfl
  obtain ⟨hdistinct, hbelow⟩ := given_append h.distinct h.below grows ids
  rw [hrows]
  exact ⟨hdistinct, hbelow, List.sublist_append_right _ _, provisional⟩

theorem showBatch_empty (entries : batch.entries = []) (replacements : batch.replacements = [])
    (noReset : batch.reset = false) : showBatch rows batch = rows := by
  rw [showBatch, applyDelta, entries, replacements, noReset, if_neg Bool.false_ne_true]
  exact List.append_nil rows

end

theorem call_fenced (h : Fenced f) (c : FenceCall I) : Fenced (f.call parseFromStr path c) := by
  refine ⟨call_issued parseFromStr path h c, ?_⟩
  rcases answer_cases parseFromStr path h c with hsame | ⟨published, owner, hanswer, hmoves⟩
  · rw [call_eq parseFromStr path hsame]
    simpa using h.ledger
  · rw [call_eq parseFromStr path hanswer]
    cases hmoves with
    | start token later => simpa using h.ledger
    | stop token notEarlier => simpa using h.ledger
    | setPaused token paused => simpa using h.ledger
    | commit token request attempt outcome published isCurrent running read publishes =>
      rcases candidate_cases parseFromStr path read publishes with
        ⟨hnone, -, -, hempty⟩ | ⟨next, hnext, -, -, -, -, delta, hnumbers, hrows⟩ |
        ⟨next, hnext, -, -, -, batch, hpublished, hreset, hreps, hgrows, hids, hprov⟩
      · rw [hnone]
        cases published with
        | none => simpa using h.ledger
        | some batch =>
          obtain ⟨he, hreps, hreset⟩ := hempty batch rfl
          simp only [Option.getD_none, Option.elim_some]
          rw [showBatch_empty he hreps hreset, he, List.map_nil, List.append_nil]
          exact h.ledger
      · rw [hnext]
        cases published with
        | none =>
          simp only [Option.getD_some, Option.elim_none, List.append_nil]
          exact ledger_silent h.ledger hnumbers
        | some batch =>
          obtain ⟨he, hreps, hreset⟩ := hrows batch rfl
          exact ledger_extend h.ledger hnumbers he hreps hreset
      · rw [hnext, hpublished]
        exact ledger_restart h.ledger hgrows hids hprov hreps hreset

theorem run_fenced (calls : List (FenceCall I)) (h : Fenced f) :
    Fenced (f.run parseFromStr path calls) := by
  induction calls generalizing f with
  | nil => exact h
  | cons c rest ih => exact ih (call_fenced parseFromStr path h c)

omit [DecidableEq I] in
theorem opened_fenced {bytes : List UInt8} {nextId : Nat} {force : Bool}
    {source : ParseResult × FirewallSourceSnapshot} (sessionId : Text) (identity : Option I)
    (h : snapshotBytes parseFromStr bytes path nextId force = .ok source) :
    Fenced (opened sessionId identity source) := by
  obtain ⟨decoded, decoder, -, rfl⟩ := snapshotBytes_ok parseFromStr h
  have hn := snapshotDecoded_numbers parseFromStr path nextId bytes.length decoded decoder
  obtain ⟨hdistinct, hbelow⟩ :=
    given_append List.nodup_nil (fun id hid => by cases hid) hn.1 hn.2.1
  exact ⟨fun r hr => (by cases hr), hdistinct, hbelow, List.Sublist.refl _, hn.2.2⟩

/-! ## Runs -/

theorem run_rule {P : FirewallOwner I → Prop} (h : Fenced f) (calls : List (FenceCall I))
    (start : P f.owner)
    (step : ∀ o c published owner, Moves parseFromStr path o c published owner → P o → P owner) :
    P (f.run parseFromStr path calls).owner := by
  induction calls generalizing f with
  | nil => exact start
  | cons c rest ih =>
    refine ih (call_fenced parseFromStr path h c) ?_
    rcases answer_cases parseFromStr path h c with hsame | ⟨published, owner, hanswer, hmoves⟩
    · rw [call_eq parseFromStr path hsame]
      exact start
    · rw [call_eq parseFromStr path hanswer]
      exact step _ _ _ _ hmoves start

theorem run_idle (h : Fenced f) (calls : List (FenceCall I)) :
    f.owner.revision ≤ (f.run parseFromStr path calls).owner.revision ∧
      ((f.run parseFromStr path calls).owner.revision = f.owner.revision →
        (f.run parseFromStr path calls).owner = f.owner ∧
          ∀ before c after, calls = before ++ c :: after →
            (f.run parseFromStr path before).accepts parseFromStr path c = false) := by
  induction calls generalizing f with
  | nil => exact ⟨Nat.le_refl _, fun _ => ⟨rfl, fun before c after hsplit => (by simp at hsplit)⟩⟩
  | cons c rest ih =>
    obtain ⟨hle, hidle⟩ := ih (call_fenced parseFromStr path h c)
    have hrun : f.run parseFromStr path (c :: rest) =
        (f.call parseFromStr path c).run parseFromStr path rest := rfl
    rw [hrun]
    rcases answer_cases parseFromStr path h c with hsame | ⟨published, owner, hanswer, hmoves⟩
    · have howner : (f.call parseFromStr path c).owner = f.owner :=
        by rw [call_eq parseFromStr path hsame]
      rw [howner] at hle hidle
      refine ⟨hle, fun hrevision => ⟨(hidle hrevision).1, fun before c' after hsplit => ?_⟩⟩
      cases before with
      | nil =>
        obtain ⟨rfl, -⟩ := List.cons.inj hsplit
        exact congrArg Prod.fst hsame
      | cons b before =>
        obtain ⟨rfl, hrest⟩ := List.cons.inj hsplit
        exact (hidle hrevision).2 before c' after hrest
    · have hmoved : (f.call parseFromStr path c).owner.revision = f.owner.revision + 1 := by
        rw [call_eq parseFromStr path hanswer]
        exact moves_revision parseFromStr path hmoves
      rw [hmoved] at hle
      exact ⟨by omega, fun hrevision => by omega⟩

/-- A committed candidate was read from the owner as it is: nothing was accepted
since its request, and the same token is still current. -/
theorem commit_undisturbed (h : Fenced f) {token token' : FirewallControlToken}
    {request : FirewallReadRequest I} (hrequest : f.owner.request token = some request)
    (between : List (FenceCall I)) (attempt : Option (OpenedSource I))
    (haccepted : ((f.call parseFromStr path (.request token)).run parseFromStr path between).accepts
      parseFromStr path (.commit token' f.issued.length attempt) = true) :
    (∀ before c after, between = before ++ c :: after →
      ((f.call parseFromStr path (.request token)).run parseFromStr path before).accepts
        parseFromStr path c = false) ∧
    token' = token ∧
    ((f.call parseFromStr path (.request token)).run parseFromStr path between).owner = f.owner ∧
    f.owner.isCurrent token = true ∧ f.owner.paused = false := by
  have hfenced := call_fenced parseFromStr path h (.request token)
  have hcall := call_eq parseFromStr path (f := f) (c := .request token) rfl
  have howner : (f.call parseFromStr path (.request token)).owner = f.owner := by rw [hcall]
  have hissued : (f.call parseFromStr path (.request token)).issued = f.issued ++ [request] := by
    rw [hcall]
    show f.issued ++ (f.owner.request token).toList = _
    rw [hrequest]
    rfl
  obtain ⟨-, hidle⟩ := run_idle parseFromStr path hfenced between
  obtain ⟨more, hmore⟩ := run_issued parseFromStr path between
    (f.call parseFromStr path (.request token))
  generalize (f.call parseFromStr path (.request token)).run parseFromStr path between = g
    at haccepted hidle hmore ⊢
  obtain ⟨hcurrent, hrunning, rfl⟩ := FirewallOwner.request_some hrequest
  -- the commit finds the request just handed out
  have hfind : g.issued[f.issued.length]? = some ⟨f.owner.revision, f.owner.checkpoint, f.owner.pending⟩ := by
    rw [hmore, hissued, List.append_assoc]
    simp
  have hanswer : g.answer parseFromStr path (.commit token' f.issued.length attempt) =
      g.owner.commit token' f.owner.revision
        (readCandidate parseFromStr path ⟨f.owner.revision, f.owner.checkpoint, f.owner.pending⟩
          attempt) := by
    simp only [answer, outcome, hfind, Option.map_some]
  rw [accepts, hanswer] at haccepted
  rcases FirewallOwner.commit_cases token' f.owner.revision
      (readCandidate parseFromStr path ⟨f.owner.revision, f.owner.checkpoint, f.owner.pending⟩
        attempt) with hrefused | ⟨hcurrent', -, hrevision, -⟩
  · rw [hrefused] at haccepted
    cases haccepted
  · rw [howner] at hidle
    obtain ⟨hsame, hnone⟩ := hidle hrevision.symm
    rw [hsame] at hcurrent'
    exact ⟨hnone, FirewallOwner.isCurrent_unique hcurrent' hcurrent, hsame, hcurrent, hrunning⟩

/-- A call leaves the checkpoint as it is, or is an accepted commit that extends
it or starts over. -/
theorem call_checkpoint (h : Fenced f) (c : FenceCall I) :
    (f.call parseFromStr path c).owner.checkpoint = f.owner.checkpoint ∨
    (∃ token request attempt, c = .commit token request attempt) ∧
      f.accepts parseFromStr path c = true ∧
      (Extends parseFromStr path f.owner.checkpoint (f.call parseFromStr path c).owner.checkpoint ∨
        Restarts parseFromStr path f.owner.checkpoint
          (f.call parseFromStr path c).owner.checkpoint) := by
  rcases answer_cases parseFromStr path h c with hsame | ⟨published, owner, hanswer, hmoves⟩
  · rw [call_eq parseFromStr path hsame]
    exact .inl rfl
  · rw [call_eq parseFromStr path hanswer, accepts, hanswer]
    cases hmoves with
    | start token later => exact .inl rfl
    | stop token notEarlier => exact .inl rfl
    | setPaused token paused => exact .inl rfl
    | commit token request attempt outcome published isCurrent running read publishes =>
      rcases candidate_cases parseFromStr path read publishes with
        ⟨hnone, -⟩ | ⟨next, hnext, -, -, -, hextends, -⟩ | ⟨next, hnext, -, -, hrestarts, -⟩
      · rw [hnone]
        exact .inl rfl
      · rw [hnext]
        exact .inr ⟨⟨token, request, attempt, rfl⟩, rfl, .inl hextends⟩
      · rw [hnext]
        exact .inr ⟨⟨token, request, attempt, rfl⟩, rfl, .inr hrestarts⟩

theorem call_gap {token : FirewallControlToken} {request : Nat}
    {attempt : Option (OpenedSource I)} {r : FirewallReadRequest I} {outcome : FirewallReadOutcome I}
    (houtcome : f.outcome parseFromStr path request attempt = some (r, outcome))
    (hgap : outcome.batch.decoding.kind = .gap) :
    (f.call parseFromStr path (.commit token request attempt)).owner.checkpoint =
      f.owner.checkpoint := by
  have hanswer : f.answer parseFromStr path (.commit token request attempt) =
      f.owner.commit token r.revision outcome := by
    simp only [answer, houtcome]
  have hread : outcome = readCandidate parseFromStr path r attempt := by
    rw [Fence.outcome, Option.map_eq_some_iff] at houtcome
    obtain ⟨r', -, heq⟩ := houtcome
    cases heq
    rfl
  have hnone : outcome.checkpoint = none := by
    rcases candidate_cases parseFromStr path hread (.inl rfl) with
      ⟨hnone, -⟩ | ⟨next, -, hkind, -⟩ | ⟨next, -, hkind, -⟩
    · exact hnone
    · exact absurd hgap hkind
    · exact absurd hgap hkind
  rcases FirewallOwner.commit_cases (o := f.owner) token r.revision outcome with
    hrefused | ⟨-, -, -, hcommit⟩
  · rw [call_eq parseFromStr path (hanswer.trans hrefused)]
  · rw [call_eq parseFromStr path (hanswer.trans hcommit), hnone]
    rfl

theorem run_epoch (h : Fenced f) (calls : List (FenceCall I)) :
    f.owner.epoch ≤ (f.run parseFromStr path calls).owner.epoch := by
  refine run_rule parseFromStr path (P := fun o => f.owner.epoch ≤ o.epoch) h calls (Nat.le_refl _) ?_
  intro o c published owner hmoves hle
  cases hmoves with
  | start token later => exact Nat.le_of_lt (Nat.lt_of_le_of_lt hle later)
  | stop token notEarlier => exact Nat.le_trans hle notEarlier
  | setPaused token paused => exact hle
  | commit token request attempt outcome published isCurrent running read publishes => exact hle

theorem run_stopped (h : Fenced f) {token : FirewallControlToken}
    (hstop : f.accepts parseFromStr path (.stop (some token)) = true) (calls : List (FenceCall I))
    (hactive : ((f.call parseFromStr path (.stop (some token))).run parseFromStr path
      calls).owner.active = true) :
    token.watchEpoch <
      ((f.call parseFromStr path (.stop (some token))).run parseFromStr path calls).owner.epoch := by
  have hstart : token.watchEpoch ≤ (f.call parseFromStr path (.stop (some token))).owner.epoch ∧
      (f.call parseFromStr path (.stop (some token))).owner.active = false := by
    rcases answer_cases parseFromStr path h (.stop (some token)) with
      hsame | ⟨published, owner, hanswer, hmoves⟩
    · rw [accepts, hsame] at hstop
      cases hstop
    · rw [call_eq parseFromStr path hanswer]
      cases hmoves with
      | stop token notEarlier => exact ⟨Nat.le_refl _, rfl⟩
  have hrun := run_rule parseFromStr path
    (P := fun o => token.watchEpoch ≤ o.epoch ∧ (o.active = true → token.watchEpoch < o.epoch))
    (call_fenced parseFromStr path h (.stop (some token))) calls
    ⟨hstart.1, fun ha => (by rw [hstart.2] at ha; cases ha)⟩ ?_
  · exact hrun.2 hactive
  · intro o c published owner hmoves ⟨hle, hlater⟩
    cases hmoves with
    | start t later =>
      have hlt := Nat.lt_of_le_of_lt hle later
      exact ⟨Nat.le_of_lt hlt, fun _ => hlt⟩
    | stop t notEarlier => exact ⟨Nat.le_trans hle notEarlier, fun ha => (by cases ha)⟩
    | setPaused t paused => exact ⟨hle, hlater⟩
    | commit t request attempt outcome published isCurrent running read publishes =>
      exact ⟨hle, hlater⟩

def RestartedIn (f : Fence I) (calls : List (FenceCall I)) : Prop :=
  ∃ before c after, calls = before ++ c :: after ∧
    (f.run parseFromStr path before).accepts parseFromStr path c = true ∧
    Restarts parseFromStr path (f.run parseFromStr path before).owner.checkpoint
      ((f.run parseFromStr path before).call parseFromStr path c).owner.checkpoint

def ReplacedIn (f : Fence I) (calls : List (FenceCall I)) : Prop :=
  ∃ before token request file after, calls = before ++ .commit token request (some file) :: after ∧
    file.Replaces (f.run parseFromStr path before).owner.checkpoint

theorem call_pending (h : Fenced f) (c : FenceCall I) {transition : FirewallTransition}
    (howing : f.owner.pending = some transition) :
    (f.call parseFromStr path c).owner.pending = some transition ∨
    (transition = .windows1252 ∧ (f.call parseFromStr path c).owner.pending = some .generation ∧
      ReplacedIn parseFromStr path f [c]) ∨
    RestartedIn parseFromStr path f [c] := by
  rcases answer_cases parseFromStr path h c with hsame | ⟨published, owner, hanswer, hmoves⟩
  · rw [call_eq parseFromStr path hsame]
    exact .inl howing
  · have haccepts : f.accepts parseFromStr path c = true := congrArg Prod.fst hanswer
    have hcall := call_eq parseFromStr path hanswer
    rw [hcall]
    cases hmoves with
    | start token later => exact .inl howing
    | stop token notEarlier => exact .inl howing
    | setPaused token paused => exact .inl howing
    | commit token request attempt outcome published isCurrent running read publishes =>
      rcases candidate_cases parseFromStr path read publishes with
        ⟨-, -, howed, -⟩ | ⟨next, -, -, hpending, -⟩ | ⟨next, hnext, -, -, hrestarts, -⟩
      · rcases howed transition howing with hkept | ⟨hwas, hnow, file, rfl, hreplaces⟩
        · exact .inl hkept
        · exact .inr (.inl ⟨hwas, hnow, [], token, request, file, [], rfl, hreplaces⟩)
      · have hfree : f.owner.pending = none := hpending
        rw [howing] at hfree
        cases hfree
      · refine .inr (.inr ⟨[], _, [], rfl, haccepts, ?_⟩)
        show Restarts parseFromStr path f.owner.checkpoint (f.call parseFromStr path _).owner.checkpoint
        rw [hcall, hnext]
        exact hrestarts

/-- What is pending stays so until the source has been read from byte 0, but that
a fallback turns to a new generation once the file is seen replaced or cut. -/
theorem run_pending (h : Fenced f) (calls : List (FenceCall I)) {transition : FirewallTransition}
    (howing : f.owner.pending = some transition) :
    (f.run parseFromStr path calls).owner.pending = some transition ∨
    (transition = .windows1252 ∧
      (f.run parseFromStr path calls).owner.pending = some .generation ∧
      ReplacedIn parseFromStr path f calls) ∨
    RestartedIn parseFromStr path f calls := by
  induction calls generalizing f transition with
  | nil => exact .inl howing
  | cons c rest ih =>
    have hnext := call_fenced parseFromStr path h c
    have hlaterReplaced : ReplacedIn parseFromStr path (f.call parseFromStr path c) rest →
        ReplacedIn parseFromStr path f (c :: rest) := by
      rintro ⟨before, token, request, file, after, rfl, hfile⟩
      exact ⟨c :: before, token, request, file, after, rfl, hfile⟩
    have hlaterRestarted : RestartedIn parseFromStr path (f.call parseFromStr path c) rest →
        RestartedIn parseFromStr path f (c :: rest) := by
      rintro ⟨before, c', after, rfl, haccepts, hrestarts⟩
      exact ⟨c :: before, c', after, rfl, haccepts, hrestarts⟩
    rcases call_pending parseFromStr path h c howing with hkept | ⟨hwas, hnow, hreplaced⟩ | hrestarted
    · rcases ih hnext hkept with hkept | ⟨hwas, hnow, hreplaced⟩ | hrestarted
      · exact .inl hkept
      · exact .inr (.inl ⟨hwas, hnow, hlaterReplaced hreplaced⟩)
      · exact .inr (.inr (hlaterRestarted hrestarted))
    · have hfirst : ReplacedIn parseFromStr path f (c :: rest) := by
        obtain ⟨before, token, request, file, after, hsplit, hfile⟩ := hreplaced
        exact ⟨before, token, request, file, after ++ rest,
          by rw [← List.cons_append, ← List.append_assoc, ← hsplit]; rfl, hfile⟩
      rcases ih hnext hnow with hkept | ⟨hgone, -⟩ | hrestarted
      · exact .inr (.inl ⟨hwas, hkept, hfirst⟩)
      · cases hgone
      · exact .inr (.inr (hlaterRestarted hrestarted))
    · obtain ⟨before, c', after, hsplit, haccepts, hrestarts⟩ := hrestarted
      exact .inr (.inr ⟨before, c', after ++ rest,
        by rw [← List.cons_append, ← List.append_assoc, ← hsplit]; rfl, haccepts, hrestarts⟩)

theorem call_replacements (h : Fenced f) (c : FenceCall I) {batch : FirewallBatch}
    (hpublished : (f.answer parseFromStr path c).2.1 = some batch) :
    ∀ rep ∈ batch.replacements, rep.Targets f.rows ∧ rep.Keeps := by
  intro rep hrep
  rcases answer_cases parseFromStr path h c with hsame | ⟨published, owner, hanswer, hmoves⟩
  · rw [hsame] at hpublished
    cases hpublished
  · rw [hanswer] at hpublished
    cases hmoves with
    | start token later => cases hpublished
    | stop token notEarlier => cases hpublished
    | setPaused token paused => cases hpublished
    | commit token request attempt outcome published isCurrent running read publishes =>
      simp only at hpublished
      subst hpublished
      rcases candidate_cases parseFromStr path read publishes with
        ⟨-, -, -, hempty⟩ | ⟨next, -, -, -, -, -, delta, hnumbers, hrows⟩ |
        ⟨next, -, -, -, -, whole, hwhole, -, hreps, -⟩
      · rw [(hempty batch rfl).2.1] at hrep
        cases hrep
      · rw [(hrows batch rfl).2.1] at hrep
        obtain ⟨hid, hline, hkeeps⟩ := hnumbers.settles rep hrep
        refine ⟨?_, hkeeps⟩
        have hmem := h.ledger.provisional rep.expectedId hid
        have hline' : rep.expectedLineNumber = f.owner.checkpoint.stream.nextLine := hline
        rw [← hline'] at hmem
        exact hmem
      · rw [Option.some.inj hwhole, hreps] at hrep
        cases hrep

/-- What the fence guarantees at `f`, whatever is called from there on. -/
structure Guarded (f : Fence I) : Prop where
  /-- A candidate is committed only if no call was accepted since its request, by
  the token of the request, which is current and not paused. -/
  undisturbed : ∀ token token' request between attempt, f.owner.request token = some request →
    let g := (f.call parseFromStr path (.request token)).run parseFromStr path between
    g.accepts parseFromStr path (.commit token' f.issued.length attempt) = true →
      (∀ before c after, between = before ++ c :: after →
        ((f.call parseFromStr path (.request token)).run parseFromStr path before).accepts
          parseFromStr path c = false) ∧
      token' = token ∧ g.owner.isCurrent token = true ∧ g.owner.paused = false
  /-- The checkpoint moves only by a commit, which extends it or starts over. -/
  chained : ∀ c, (f.call parseFromStr path c).owner.checkpoint = f.owner.checkpoint ∨
    (∃ token request attempt, c = .commit token request attempt) ∧
      f.accepts parseFromStr path c = true ∧
      (Extends parseFromStr path f.owner.checkpoint (f.call parseFromStr path c).owner.checkpoint ∨
        Restarts parseFromStr path f.owner.checkpoint
          (f.call parseFromStr path c).owner.checkpoint)
  ascending : ∀ calls, f.owner.epoch ≤ (f.run parseFromStr path calls).owner.epoch
  stopped : ∀ token calls, f.accepts parseFromStr path (.stop (some token)) = true →
    let g := (f.call parseFromStr path (.stop (some token))).run parseFromStr path calls
    g.owner.active = true → token.watchEpoch < g.owner.epoch
  gap : ∀ token request attempt r outcome,
    f.outcome parseFromStr path request attempt = some (r, outcome) →
      outcome.batch.decoding.kind = .gap →
        (f.call parseFromStr path (.commit token request attempt)).owner.checkpoint =
          f.owner.checkpoint
  /-- A pending transition is owed until a read from byte 0 is committed; a fallback
  may turn to a new generation when the file is seen replaced or cut. -/
  owed : ∀ calls transition, f.owner.pending = some transition →
    (f.run parseFromStr path calls).owner.pending = some transition ∨
    (transition = .windows1252 ∧
      (f.run parseFromStr path calls).owner.pending = some .generation ∧
      ReplacedIn parseFromStr path f calls) ∨
    RestartedIn parseFromStr path f calls
  /-- No id was given to two rows. -/
  distinct : f.given.Nodup
  /-- A row that replaces another keeps its id and its line. -/
  replaced : ∀ c batch, (f.answer parseFromStr path c).2.1 = some batch →
    ∀ rep ∈ batch.replacements, rep.Targets f.rows ∧ rep.Keeps

/-- Every run from an opened source stays behind the fence. -/
theorem run_guarded {bytes : List UInt8} {nextId : Nat} {force : Bool}
    {source : ParseResult × FirewallSourceSnapshot}
    (h : snapshotBytes parseFromStr bytes path nextId force = .ok source)
    (sessionId : Text) (identity : Option I) (calls : List (FenceCall I)) :
    Guarded parseFromStr path ((opened sessionId identity source).run parseFromStr path calls) := by
  have hf := run_fenced parseFromStr path calls (opened_fenced parseFromStr path sessionId identity h)
  generalize (opened sessionId identity source).run parseFromStr path calls = f at hf ⊢
  exact
    { undisturbed := fun token token' request between attempt hrequest haccepted => by
        obtain ⟨hnone, htoken, hsame, hcurrent, hrunning⟩ :=
          commit_undisturbed parseFromStr path hf hrequest between attempt haccepted
        rw [hsame]
        exact ⟨hnone, htoken, hcurrent, hrunning⟩
      chained     := call_checkpoint parseFromStr path hf
      ascending   := run_epoch parseFromStr path hf
      stopped     := fun token calls hstop => run_stopped parseFromStr path hf hstop calls
      gap         := fun token request attempt r outcome => call_gap parseFromStr path
      owed        := fun calls transition => run_pending parseFromStr path hf calls
      distinct    := hf.ledger.distinct
      replaced    := fun c batch => call_replacements parseFromStr path hf c }

/-! ## Control commands -/

inductive TailCommand where
  /-- Start following; `launched` says whether the worker could be started. -/
  | admitTailStart (control : Option FirewallControlToken) (launched : Bool)
  | stop (control : Option FirewallControlToken)
  | pause (control : Option FirewallControlToken)
  | resume (control : Option FirewallControlToken)
  deriving DecidableEq, Repr

def admitTailStart (control : Option FirewallControlToken) (launched : Bool) (f : Fence I) :
    Fence I :=
  let g := f.call parseFromStr path (.start control)
  if f.accepts parseFromStr path (.start control) && !launched then
    g.call parseFromStr path (.stop control)
  else g

def controlTail (f : Fence I) : TailCommand → Fence I
  | .admitTailStart control launched => f.admitTailStart parseFromStr path control launched
  | .stop control => f.call parseFromStr path (.stop control)
  | .pause control => f.call parseFromStr path (.setPaused control true)
  | .resume control => f.call parseFromStr path (.setPaused control false)

/-- A command is a run, so commands between the calls of workers stay behind the
fence as well. -/
theorem controlTail_run (f : Fence I) (command : TailCommand) :
    ∃ calls, f.controlTail parseFromStr path command = f.run parseFromStr path calls := by
  cases command with
  | admitTailStart control launched =>
    rw [controlTail, admitTailStart]
    split
    · exact ⟨[.start control, .stop control], rfl⟩
    · exact ⟨[.start control], rfl⟩
  | stop control => exact ⟨[.stop control], rfl⟩
  | pause control => exact ⟨[.setPaused control true], rfl⟩
  | resume control => exact ⟨[.setPaused control false], rfl⟩

end

/-! ## A source that is replaced before its fallback -/

def emptySource : Fence Nat :=
  opened ['s'] (some 1) (snapshotDecoded (fun _ => none) [] 0 0 {} {})

def firstToken : FirewallControlToken := ⟨['s'], 1⟩

def fallbackOwed : List (FenceCall Nat) :=
  [.start (some firstToken), .request firstToken,
   .commit firstToken 0 (some { identity := some 1, size := 2, appended := some [0xE9, 0x0A], whole := none }),
   .request firstToken]

theorem run_guarded_fallback :
    Guarded (fun _ => none) [] (emptySource.run (fun _ => none) [] fallbackOwed) :=
  have hopened : snapshotBytes (fun _ => none) [] [] 0 false =
      .ok (snapshotDecoded (fun _ => none) [] 0 0 {} {}) := rfl
  run_guarded (fun _ => none) [] hopened ['s'] (some 1) fallbackOwed

/-- A fallback that is pending is not kept when the file has been replaced by then:
the failed read leaves a new generation pending instead. -/
theorem run_fallback_replaced :
    let f := emptySource.run (fun _ => none) [] fallbackOwed
    let read : FenceCall Nat := .commit firstToken 1
      (some { identity := some 2, size := 5, appended := none, whole := none })
    f.owner.pending = some .windows1252 ∧ f.accepts (fun _ => none) [] read = true ∧
      (f.call (fun _ => none) [] read).owner.decoding.kind = .gap ∧
      (f.call (fun _ => none) [] read).owner.pending = some .generation := by
  decide +kernel

end Fence
end Watcher
end CmTrace
