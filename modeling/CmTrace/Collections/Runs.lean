import Mathlib

/-!
# Runs of a partial step

A run takes the events of a list one after another and stops being one where an
event cannot happen.  What one step keeps, a run keeps, and what is known of the
events so far may be kept along with it.
-/

namespace CmTrace
namespace Collections

variable {S E : Type}

def runFrom (step : S → E → Option S) (s : S) (events : List E) : Option S := events.foldlM step s

section Runs

variable {step : S → E → Option S} {s t : S}

@[simp]
theorem runFrom_nil : runFrom step s [] = some s := rfl

theorem runFrom_cons (e : E) (events : List E) :
    runFrom step s (e :: events) = (step s e).bind fun m => runFrom step m events := rfl

theorem runFrom_append (events events' : List E) :
    runFrom step s (events ++ events') =
      (runFrom step s events).bind fun m => runFrom step m events' :=
  List.foldlM_append

theorem runFrom_append_eq_some {events events' : List E} :
    runFrom step s (events ++ events') = some t ↔
      ∃ m, runFrom step s events = some m ∧ runFrom step m events' = some t := by
  rw [runFrom_append, Option.bind_eq_some_iff]

theorem runFrom_snoc {events : List E} {e : E} :
    runFrom step s (events ++ [e]) = some t ↔
      ∃ m, runFrom step s events = some m ∧ step m e = some t := by
  rw [runFrom_append_eq_some]
  refine exists_congr fun m => and_congr_right fun _ => ?_
  rw [runFrom_cons]
  cases step m e <;> rfl

/-- What holds at the start and is kept by every step, along with the events that led
there, holds at the end. -/
theorem runFrom_induct {P : List E → S → Prop} (hstart : P [] s)
    (hstep : ∀ {events : List E} {e : E} {m m' : S}, runFrom step s events = some m →
      P events m → step m e = some m' → P (events ++ [e]) m') :
    ∀ {events : List E} {t : S}, runFrom step s events = some t → P events t := by
  intro events
  induction events using List.reverseRecOn with
  | nil =>
    intro t h
    rw [runFrom_nil, Option.some_inj] at h
    exact h ▸ hstart
  | append_singleton events e ih =>
    intro t h
    obtain ⟨m, hm, he⟩ := runFrom_snoc.mp h
    exact hstep hm (ih hm) he

theorem runFrom_keeps {P : S → Prop} (hstart : P s)
    (hstep : ∀ {e : E} {m m' : S}, P m → step m e = some m' → P m') {events : List E}
    (h : runFrom step s events = some t) : P t :=
  runFrom_induct (P := fun _ => P) hstart (fun _ hm he => hstep hm he) h

theorem runFrom_total {f : S → Nat} {limit : Nat}
    (hstep : ∀ (m : S) (e : E), f m < limit → ∃ m', step m e = some m' ∧ f m' ≤ f m + 1)
    (events : List E) (h : f s + events.length ≤ limit) :
    ∃ t, runFrom step s events = some t ∧ f t ≤ f s + events.length := by
  induction events generalizing s with
  | nil => exact ⟨s, rfl, le_rfl⟩
  | cons e events ih =>
    rw [List.length_cons] at h
    obtain ⟨m, hm, hle⟩ := hstep s e (by omega)
    obtain ⟨t, ht, hlast⟩ := @ih m (by omega)
    refine ⟨t, by rw [runFrom_cons, hm, Option.bind_some, ht], ?_⟩
    rw [List.length_cons]
    omega

end Runs

end Collections
end CmTrace
