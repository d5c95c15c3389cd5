import CmTrace.Machine

/-!
# Decoding a source one read at a time

A decoder asks for one byte, or learns that there is none, and then wants more,
hands out a record, ends or fails.  A source can fail as well, at a position of
its own.  `Decodes` says what the decoding of a whole source comes to, and
`Reading` is the loop that folds a body over the records, one read a step.
-/

namespace CmTrace
namespace Streamed

/-- What a decoder makes of one read. -/
inductive Fed (δ R E : Type) where
  | more (decoder : δ)
  | record (record : R) (decoder : δ)
  | done
  | failed (error : E)

/-- A decoder with states `δ`.  At the end of its input it cannot go on reading
for ever, which `patience` bounds. -/
structure StreamDecoder (δ R E : Type) where
  start : δ
  feed : δ → Option UInt8 → Fed δ R E
  patience : δ → Nat
  more_lt : ∀ d d', feed d none = .more d' → patience d' < patience d
  record_lt : ∀ d r d', feed d none = .record r d' → patience d' < patience d

/-- Bytes to read, and the position from which reading them fails. -/
structure Source (E : Type) where
  bytes : List UInt8
  fault : Option (Nat × E) := none

variable {δ R E σ ε : Type}

namespace Source

def read (source : Source E) (cursor : Nat) : Except E (Option UInt8) :=
  match source.fault with
  | some (first, e) => if first ≤ cursor then .error e else .ok source.bytes[cursor]?
  | none => .ok source.bytes[cursor]?

def after (cursor : Nat) : Option UInt8 → Nat
  | some _ => cursor + 1
  | none => cursor

theorem read_ok {source : Source E} {cursor : Nat} {b : Option UInt8}
    (h : source.read cursor = .ok b) : b = source.bytes[cursor]? := by
  unfold read at h
  split at h
  · split_ifs at h
    exact (Except.ok.inj h).symm
  · exact (Except.ok.inj h).symm

end Source

/-! ## The decoding of a source -/

namespace StreamDecoder

variable (D : StreamDecoder δ R E)

/-- One read of the source, given to the decoder. -/
def pull (source : Source E) (place : Nat × δ) : Fed (Nat × δ) R E :=
  match source.read place.1 with
  | .error e => .failed e
  | .ok b =>
    match D.feed place.2 b with
    | .more d => .more (Source.after place.1 b, d)
    | .record r d => .record r (Source.after place.1 b, d)
    | .done => .done
    | .failed e => .failed e

/-- The records handed out from a place on, and the error that ends them. -/
inductive Decodes (source : Source E) : Nat × δ → List R → Option E → Prop where
  | more {p p' rs e} : D.pull source p = .more p' → Decodes source p' rs e → Decodes source p rs e
  | record {p r p' rs e} : D.pull source p = .record r p' → Decodes source p' rs e →
      Decodes source p (r :: rs) e
  | done {p} : D.pull source p = .done → Decodes source p [] none
  | failed {p e} : D.pull source p = .failed e → Decodes source p [] (some e)

variable {D}

theorem Decodes.unique {source : Source E} {p : Nat × δ} {rs rs' : List R} {e e' : Option E}
    (h : D.Decodes source p rs e) (h' : D.Decodes source p rs' e') : rs = rs' ∧ e = e' := by
  induction h generalizing rs' e' with
  | more hpull _ ih =>
    cases h' with
    | more hpull' hrest => rw [hpull] at hpull'; cases hpull'; exact ih hrest
    | _ => simp_all
  | record hpull _ ih =>
    cases h' with
    | record hpull' hrest =>
      rw [hpull] at hpull'
      cases hpull'
      obtain ⟨rfl, rfl⟩ := ih hrest
      exact ⟨rfl, rfl⟩
    | _ => simp_all
  | done hpull => cases h' with
    | done _ => exact ⟨rfl, rfl⟩
    | _ => simp_all
  | failed hpull => cases h' with
    | failed hpull' => rw [hpull] at hpull'; cases hpull'; exact ⟨rfl, rfl⟩
    | _ => simp_all

def left (D : StreamDecoder δ R E) (source : Source E) (p : Nat × δ) : Nat ×ₗ Nat :=
  toLex (source.bytes.length - p.1, D.patience p.2)

theorem left_lt {source : Source E} {c : Nat} {d d' : δ} {b : Option UInt8}
    (hread : source.read c = .ok b) (hend : b = none → D.patience d' < D.patience d) :
    D.left source (Source.after c b, d') < D.left source (c, d) := by
  unfold left
  rw [Prod.Lex.toLex_lt_toLex]
  cases b with
  | none => exact .inr ⟨rfl, hend rfl⟩
  | some b =>
    have hlt : c < source.bytes.length := by
      have hget := Source.read_ok hread
      exact (List.getElem?_eq_some_iff.mp hget.symm).1
    left
    show source.bytes.length - (c + 1) < source.bytes.length - c
    omega

theorem pull_lt {source : Source E} {p p' : Nat × δ}
    (h : D.pull source p = .more p' ∨ ∃ r, D.pull source p = .record r p') :
    D.left source p' < D.left source p := by
  obtain ⟨c, d⟩ := p
  unfold pull at h
  cases hread : source.read c with
  | error e => simp [hread] at h
  | ok b =>
    simp only [hread] at h
    cases hfeed : D.feed d b with
    | more d' =>
      simp only [hfeed, Fed.more.injEq, reduceCtorEq, exists_false, or_false] at h
      rw [← h]
      refine left_lt hread fun hb => ?_
      rw [hb] at hfeed
      exact D.more_lt _ _ hfeed
    | record r d' =>
      simp only [hfeed, Fed.record.injEq, reduceCtorEq, false_or] at h
      obtain ⟨_, _, hp⟩ := h
      rw [← hp]
      refine left_lt hread fun hb => ?_
      rw [hb] at hfeed
      exact D.record_lt _ _ _ hfeed
    | done => simp [hfeed] at h
    | failed e => simp [hfeed] at h

theorem exists_decodes (D : StreamDecoder δ R E) (source : Source E) (p : Nat × δ) :
    ∃ rs e, D.Decodes source p rs e := by
  cases hpull : D.pull source p with
  | more p' =>
    obtain ⟨rs, e, hrest⟩ := exists_decodes D source p'
    exact ⟨rs, e, .more hpull hrest⟩
  | record r p' =>
    obtain ⟨rs, e, hrest⟩ := exists_decodes D source p'
    exact ⟨r :: rs, e, .record hpull hrest⟩
  | done => exact ⟨[], none, .done hpull⟩
  | failed e => exact ⟨[], some e, .failed hpull⟩
termination_by D.left source p
decreasing_by
  · exact pull_lt (.inl hpull)
  · exact pull_lt (.inr ⟨r, hpull⟩)

theorem Decodes.faultless {source : Source E} {p : Nat × δ} {rs : List R}
    (h : D.Decodes source p rs none) : D.Decodes ⟨source.bytes, none⟩ p rs none := by
  have hclean : ∀ p : Nat × δ, (∀ e, D.pull source p ≠ .failed e) →
      D.pull ⟨source.bytes, none⟩ p = D.pull source p := by
    intro p hp
    unfold pull at hp ⊢
    cases hread : source.read p.1 with
    | error e => exact absurd (by rw [hread]) (hp e)
    | ok b =>
      have hb := Source.read_ok hread
      have hread' : Source.read (⟨source.bytes, none⟩ : Source E) p.1 = .ok b := by
        rw [hb]
        rfl
      rw [hread']
  generalize he : (none : Option E) = e at h
  induction h with
  | more hpull _ ih =>
    refine .more ?_ (ih he)
    rw [hclean _ (by simp [hpull]), hpull]
  | record hpull _ ih =>
    refine .record ?_ (ih he)
    rw [hclean _ (by simp [hpull]), hpull]
  | done hpull =>
    refine .done ?_
    rw [hclean _ (by simp [hpull]), hpull]
  | failed _ => cases he

end StreamDecoder

/-! ## A loop over the records -/

/-- A loop that waits for its next read. -/
structure Reading (δ σ : Type) where
  place : Nat × δ
  state : σ

/-- A loop is at its next read, or over. -/
inductive Advance (δ σ ε : Type) where
  | reading (loop : Reading δ σ)
  | ended (result : Except ε σ)

def Advance.elim {α : Type} (reading : Reading δ σ → α) (ended : Except ε σ → α) :
    Advance δ σ ε → α
  | .reading loop => reading loop
  | .ended result => ended result

namespace Reading

variable (D : StreamDecoder δ R E) (source : Source E) (body : σ → R → Except ε σ)
  (onError : E → ε)

/-- One read, and the body on the record it completes. -/
def advance (loop : Reading δ σ) : Advance δ σ ε :=
  match D.pull source loop.place with
  | .more p => .reading { loop with place := p }
  | .record r p =>
    match body loop.state r with
    | .ok state => .reading ⟨p, state⟩
    | .error e => .ended (.error e)
  | .done => .ended (.ok loop.state)
  | .failed e => .ended (.error (onError e))

/-- The fold of the body over the records, and then the error of the decoding. -/
def outcome (state : σ) (rs : List R) (e : Option E) : Except ε σ :=
  match rs.foldlM body state with
  | .ok state => e.elim (.ok state) fun e => .error (onError e)
  | .error e => .error e

variable {D source body onError}

/-- A machine that runs the loop leaves it after finitely many steps, with the outcome
of the decoding. -/
theorem leaves_loop {S : Type} {step : S → S} {wrap : Reading δ σ → S}
    {leave : Except ε σ → S}
    (hstep : ∀ loop, step (wrap loop) = (advance D source body onError loop).elim wrap leave)
    {p : Nat × δ} {rs : List R} {e : Option E} (h : D.Decodes source p rs e) (state : σ) :
    ∃ n, step^[n] (wrap ⟨p, state⟩) = leave (outcome body onError state rs e) := by
  induction h generalizing state with
  | more hpull _ ih =>
    obtain ⟨n, hn⟩ := ih state
    refine ⟨n + 1, ?_⟩
    rw [Function.iterate_succ_apply, hstep, advance, hpull]
    exact hn
  | @record _ r _ rs e hpull _ ih =>
    cases hbody : body state r with
    | error e =>
      refine ⟨1, ?_⟩
      rw [Function.iterate_one, hstep, advance, hpull]
      simp [hbody, outcome, bind, Except.bind, Advance.elim]
    | ok next =>
      obtain ⟨n, hn⟩ := ih next
      refine ⟨n + 1, ?_⟩
      have houtcome : outcome body onError state (r :: rs) e = outcome body onError next rs e := by
        simp [outcome, hbody, bind, Except.bind]
      rw [Function.iterate_succ_apply, hstep, advance, hpull, houtcome, ← hn]
      simp only [hbody]
      rfl
  | done hpull =>
    refine ⟨1, ?_⟩
    rw [Function.iterate_one, hstep, advance, hpull]
    rfl
  | failed hpull =>
    refine ⟨1, ?_⟩
    rw [Function.iterate_one, hstep, advance, hpull]
    rfl

theorem outcome_ok {state state' : σ} {rs : List R} {e : Option E} :
    outcome body onError state rs e = .ok state' ↔
      e = none ∧ rs.foldlM body state = .ok state' := by
  unfold outcome
  cases rs.foldlM body state with
  | error e => simp
  | ok last =>
    cases e with
    | some e => simp
    | none => simp

end Reading
end Streamed
end CmTrace
