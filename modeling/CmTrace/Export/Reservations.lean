import CmTrace.Export.Registry
import CmTrace.Export.Chunks

/-!
# Reservations of destinations

At any time one session at most holds a destination.  A session that is cancelled
leaves the registry with its finalizer, when the finalizer next checks the flag.  When
it next reads instead, it is at that read for ever and keeps its destination.
-/

namespace CmTrace
namespace Export

open Text Streamed

variable {δ : Type} {W : World δ}

/-! ## What holds in every state -/

/-- Identifiers and destinations are each registered once, and a finalizer at work has
its entry. -/
structure Reserved (S : System δ) : Prop where
  ids : (S.registry.map (·.id)).Nodup
  identities : (S.registry.map (·.destinationIdentity)).Nodup
  known : ∀ e ∈ S.registry, (S.sessions e.id).isSome
  running : ∀ id, (S.finalizers id).isSome → ∃ e ∈ S.registry, e.id = id ∧ e.finalizing = true
  valid : ∀ id, (S.finalizers id).isSome → validateSessionId id = .ok ()

theorem reserved_init : Reserved ({} : System δ) where
  ids := List.nodup_nil
  identities := List.nodup_nil
  known := fun _ h => by cases h
  running := fun _ h => by cases h
  valid := fun _ h => by cases h

theorem nodup_map_filter {α β : Type} {f : α → β} {xs : List α} {p : α → Bool}
    (h : (xs.map f).Nodup) : ((xs.filter p).map f).Nodup :=
  h.sublist (List.filter_sublist.map f)

theorem Reserved.filter {S S' : System δ} (h : Reserved S)
    {keep : EventLogExportSessionEntry → Bool} (hregistry : S'.registry = S.registry.filter keep)
    (hsessions : S'.sessions = S.sessions) (hfinalizers : S'.finalizers = S.finalizers)
    (hkeep : ∀ e, e.finalizing = true → keep e = true) : Reserved S' where
  ids := by rw [hregistry]; exact nodup_map_filter h.ids
  identities := by rw [hregistry]; exact nodup_map_filter h.identities
  known := fun e he => by
    rw [hregistry] at he
    rw [hsessions]
    exact h.known e (List.mem_filter.mp he).1
  running := fun id hid => by
    rw [hfinalizers] at hid
    obtain ⟨e, he, hsame, hfinalizing⟩ := h.running id hid
    rw [hregistry]
    exact ⟨e, List.mem_filter.mpr ⟨he, hkeep e hfinalizing⟩, hsame, hfinalizing⟩
  valid := fun id hid => h.valid id (by rwa [hfinalizers] at hid)

theorem Reserved.drop {S : System δ} (h : Reserved S) {gone : EventLogExportSessionEntry → Bool}
    (hgone : ∀ e, e.finalizing = true → gone e = false) : Reserved (S.drop gone) :=
  h.filter rfl rfl rfl fun e he => by rw [hgone e he]; rfl

theorem stale_finalizing {now : Nat} {e : EventLogExportSessionEntry} (h : e.finalizing = true) :
    System.stale now e = false := by
  unfold System.stale
  rw [h]
  rfl

theorem Reserved.prune {S : System δ} (h : Reserved S) (now : Nat) :
    Reserved (S.pruneStaleExportSessions now) := h.drop fun _ => stale_finalizing

theorem Reserved.update {S : System δ} (h : Reserved S) {id : Text}
    {f : EventLogExportSessionEntry → EventLogExportSessionEntry} (hid : ∀ e, (f e).id = e.id)
    (hidentity : ∀ e, (f e).destinationIdentity = e.destinationIdentity)
    (hfinalizing : ∀ e, e.finalizing = true → (f e).finalizing = true) :
    Reserved (S.update id f) := by
  let g := fun e : EventLogExportSessionEntry => if e.id = id then f e else e
  have hg : ∀ e, (g e).id = e.id ∧ (g e).destinationIdentity = e.destinationIdentity ∧
      (e.finalizing = true → (g e).finalizing = true) := fun e => by
    by_cases he : e.id = id
    · simp only [g, if_pos he]
      exact ⟨hid e, hidentity e, hfinalizing e⟩
    · simp only [g, if_neg he]
      exact ⟨trivial, trivial, fun h => h⟩
  have hmap : ∀ {β : Type} (k : EventLogExportSessionEntry → β), (∀ e, k (g e) = k e) →
      (S.update id f).registry.map k = S.registry.map k := fun k hk => by
    show (S.registry.map g).map k = _
    rw [List.map_map]
    exact List.map_congr_left fun e _ => hk e
  refine ⟨?_, ?_, fun e he => ?_, fun id' hid' => ?_, h.valid⟩
  · rw [hmap (·.id) fun e => (hg e).1]
    exact h.ids
  · rw [hmap (·.destinationIdentity) fun e => (hg e).2.1]
    exact h.identities
  · obtain ⟨e', he', rfl⟩ := List.mem_map.mp he
    rw [(hg e').1]
    exact h.known e' he'
  · obtain ⟨e, he, hsame, hf⟩ := h.running id' hid'
    exact ⟨g e, List.mem_map_of_mem he, by rw [(hg e).1, hsame], (hg e).2.2 hf⟩

theorem Reserved.setSession {S : System δ} (h : Reserved S) {id : Text}
    {session : Option EventLogExportSession} (hsome : (S.sessions id).isSome → session.isSome) :
    Reserved (S.setSession id session) :=
  ⟨h.ids, h.identities, fun e he => by
    by_cases hid : e.id = id
    · have hold := h.known e he
      rw [hid] at hold ⊢
      rw [System.setSession_self]
      exact hsome hold
    · rw [System.setSession_of_ne _ hid]
      exact h.known e he, h.running, h.valid⟩

theorem Reserved.setFinalizer {S : System δ} (h : Reserved S) {id : Text} {r : Running δ}
    (hentry : ∃ e ∈ S.registry, e.id = id ∧ e.finalizing = true)
    (hvalid : validateSessionId id = .ok ()) : Reserved (S.setFinalizer id (some r)) := by
  refine ⟨h.ids, h.identities, h.known, fun id' hid' => ?_, fun id' hid' => ?_⟩
  · by_cases hsame : id' = id
    · rw [hsame]
      exact hentry
    · refine h.running id' ?_
      rwa [System.setFinalizer_of_ne _ hsame] at hid'
  · by_cases hsame : id' = id
    · rw [hsame]
      exact hvalid
    · refine h.valid id' ?_
      rwa [System.setFinalizer_of_ne _ hsame] at hid'

theorem Reserved.insert {S : System δ} (h : Reserved S) {session : EventLogExportSession}
    (hfresh : S.sessions session.id = none) (now : Nat) :
    Reserved (S.insertExportSession session now).2 := by
  have hpruned := h.prune now
  unfold System.insertExportSession
  dsimp only
  split_ifs with hfull htaken
  · exact hpruned
  · exact hpruned
  have hid : ∀ e ∈ (S.pruneStaleExportSessions now).registry, e.id ≠ session.id := by
    intro e he hsame
    have hknown := hpruned.known e he
    rw [hsame] at hknown
    rw [show (S.pruneStaleExportSessions now).sessions = S.sessions from rfl, hfresh] at hknown
    cases hknown
  have hidentity : ∀ e ∈ (S.pruneStaleExportSessions now).registry,
      e.destinationIdentity ≠ session.destinationIdentity := by
    intro e he hsame
    exact htaken (List.any_eq_true.mpr ⟨e, he, beq_iff_eq.mpr hsame⟩)
  refine ⟨?_, ?_, fun e he => ?_, fun id hrunning => ?_, hpruned.valid⟩
  · show (List.map _ (_ ++ [_])).Nodup
    rw [List.map_append, List.nodup_append]
    refine ⟨hpruned.ids, List.nodup_singleton _, fun a ha b hb => ?_⟩
    obtain ⟨e, he, rfl⟩ := List.mem_map.mp ha
    rw [List.mem_singleton.mp hb]
    exact hid e he
  · show (List.map _ (_ ++ [_])).Nodup
    rw [List.map_append, List.nodup_append]
    refine ⟨hpruned.identities, List.nodup_singleton _, fun a ha b hb => ?_⟩
    obtain ⟨e, he, rfl⟩ := List.mem_map.mp ha
    rw [List.mem_singleton.mp hb]
    exact hidentity e he
  · rcases List.mem_append.mp he with he | he
    · show ((System.setSession _ _ _).sessions e.id).isSome
      rw [System.setSession_of_ne _ (hid e he)]
      exact hpruned.known e he
    · rw [List.mem_singleton.mp he]
      show ((System.setSession _ _ _).sessions session.id).isSome
      rw [System.setSession_self]
      rfl
  · obtain ⟨e, he, hsame⟩ := hpruned.running id hrunning
    exact ⟨e, List.mem_append_left _ he, hsame⟩

theorem Reserved.find {S : System δ} (h : Reserved S) (id : Text) (now : Nat) :
    Reserved (S.findSession id now).2 := by
  unfold System.findSession
  split
  · exact h
  · dsimp only
    split_ifs
    · exact (h.prune now).update (fun _ => rfl) (fun _ => rfl) fun _ he => he
    · exact h.prune now

theorem beginFinalizeSession_ok {S S' : System δ} {id : Text} {now : Nat}
    (h : S.beginFinalizeSession id now = (.ok (), S')) :
    validateSessionId id = .ok () ∧
      (∃ e ∈ (S.pruneStaleExportSessions now).registry, e.id = id ∧ ¬ e.finalizing = true) ∧
      S' = (S.pruneStaleExportSessions now).update id
        fun e => { e with finalizing := true, lastAccess := now } := by
  unfold System.beginFinalizeSession at h
  split at h
  · cases h
  · rename_i hvalid
    dsimp only at h
    split at h
    · cases h
    · rename_i entry hfind
      by_cases hfinalizing : entry.finalizing = true
      · rw [if_pos hfinalizing] at h
        cases h
      · rw [if_neg hfinalizing] at h
        have hid := List.find?_some hfind
        exact ⟨hvalid, ⟨entry, List.mem_of_find?_eq_some hfind, beq_iff_eq.mp hid,
          hfinalizing⟩, (Prod.mk.inj h).2.symm⟩

theorem Reserved.beginFinalizeSession {S : System δ} (h : Reserved S) (id : Text) (now : Nat) :
    Reserved (S.beginFinalizeSession id now).2 := by
  unfold System.beginFinalizeSession
  split
  · exact h
  · dsimp only
    split
    · exact h.prune now
    · split_ifs
      · exact h.prune now
      · exact (h.prune now).update (fun _ => rfl) (fun _ => rfl) fun _ _ => rfl

theorem Reserved.beginFinalize {S : System δ} (h : Reserved S) (id : Text) (now : Nat) :
    Reserved (W.beginFinalize S id now) := by
  have hbegun := h.beginFinalizeSession id now
  unfold World.beginFinalize
  cases hbegin : S.beginFinalizeSession id now with
  | mk result S' =>
    rw [hbegin] at hbegun
    cases result with
    | error e => exact hbegun
    | ok u =>
      obtain ⟨hvalid, ⟨e, he, hid, -⟩, hS'⟩ := beginFinalizeSession_ok hbegin
      cases hsession : S'.sessions id with
      | none => simp only [hsession]; exact hbegun
      | some session =>
        simp only [hsession]
        refine hbegun.setFinalizer ?_ hvalid
        rw [hS']
        refine ⟨_, List.mem_map_of_mem he, ?_⟩
        rw [if_pos hid]
        exact ⟨hid, rfl⟩

theorem Reserved.poll {S : System δ} (h : Reserved S) (id : Text) : Reserved (W.poll S id) := by
  unfold World.poll
  split
  · exact h
  · rename_i r hr
    have hsome : (S.finalizers id).isSome := by rw [hr]; rfl
    obtain ⟨hids, hidentities, hknown, hrunning, hvalid⟩ :=
      h.setFinalizer (h.running id hsome) (h.valid id hsome)
        (r := { r with state := (W.finalization r.session).poll (S.cancelled id) r.state })
    exact ⟨hids, hidentities, hknown, hrunning, hvalid⟩

theorem Reserved.append {S : System δ} (h : Reserved S) (id : Text)
    (r : EventLogExportSession.Request) (now : Nat) : Reserved (W.append S id r now) := by
  have hfound := h.find id now
  unfold World.append
  cases hfind : S.findSession id now with
  | mk result S' =>
    rw [hfind] at hfound
    cases result with
    | error e => exact hfound
    | ok u =>
      dsimp only
      split_ifs
      · exact hfound
      · refine hfound.setSession fun hsome => ?_
        rwa [Option.isSome_map]

theorem Reserved.returned {S : System δ} (h : Reserved S) (id : Text) :
    Reserved (World.finalizeReturned S id) := by
  unfold World.finalizeReturned
  split
  · exact h
  · split_ifs
    · refine ⟨nodup_map_filter h.ids, nodup_map_filter h.identities, fun e he => ?_,
        fun id' hid' => ?_, fun id' hid' => ?_⟩
      · obtain ⟨he, hne⟩ := List.mem_filter.mp he
        rw [System.setSession_of_ne _ (of_decide_eq_true hne)]
        exact h.known e he
      · have hne : id' ≠ id := by
          rintro rfl
          change ((System.setFinalizer _ id' none).finalizers id').isSome at hid'
          rw [System.setFinalizer_self] at hid'
          cases hid'
        change ((System.setFinalizer _ id none).finalizers id').isSome at hid'
        rw [System.setFinalizer_of_ne _ hne] at hid'
        obtain ⟨e, he, hsame, hfinalizing⟩ := h.running id' hid'
        refine ⟨e, List.mem_filter.mpr ⟨he, decide_eq_true ?_⟩, hsame, hfinalizing⟩
        rw [hsame]
        exact hne
      · by_cases hne : id' = id
        · rw [hne] at hid'
          change ((System.setFinalizer _ id none).finalizers id).isSome at hid'
          rw [System.setFinalizer_self] at hid'
          cases hid'
        · change ((System.setFinalizer _ id none).finalizers id').isSome at hid'
          rw [System.setFinalizer_of_ne _ hne] at hid'
          exact h.valid id' hid'
    · exact h

theorem Reserved.close {S : System δ} (h : Reserved S) (id : Text) :
    Reserved (World.close S id) := by
  unfold World.close
  split
  · exact h
  · exact h.filter rfl rfl rfl fun e he => by rw [he, Bool.or_true]

theorem Reserved.expire {S : System δ} (h : Reserved S) (id : Text) (now : Nat) :
    Reserved (S.expireExportSession id now) :=
  h.drop fun e he => by rw [stale_finalizing he, Bool.and_false]

theorem Reserved.step {S : System δ} (h : Reserved S) (a : Action) : Reserved (W.step S a) := by
  cases a with
  | create session now =>
    show Reserved (World.create S session now)
    unfold World.create
    split_ifs with hknown
    · exact h
    · exact h.insert (Option.not_isSome_iff_eq_none.mp hknown) now
  | append id r now => exact h.append id r now
  | finalize id now => exact h.beginFinalize id now
  | poll id => exact h.poll id
  | returned id => exact h.returned id
  | close id => exact h.close id
  | expire id now => exact h.expire id now

theorem Reserved.exec {S : System δ} (h : Reserved S) (actions : List Action) :
    Reserved (W.exec S actions) := by
  induction actions generalizing S with
  | nil => exact h
  | cons a actions ih => exact ih (h.step a)

theorem reserved_of_reachable {S : System δ} (h : W.Reachable S) : Reserved S := by
  obtain ⟨actions, rfl⟩ := h
  exact reserved_init.exec actions

/-! ## What a step leaves alone -/

/-- From `S` to `S'`, the finalization of a session stays as it is. -/
structure Frame (id : Text) (S S' : System δ) : Prop where
  finalizer : S'.finalizers id = S.finalizers id
  cancelled : S.cancelled id = true → S'.cancelled id = true
  entry : ∀ e ∈ S.registry, e.id = id → e.finalizing = true → ∃ e' ∈ S'.registry,
    e'.id = id ∧ e'.destinationIdentity = e.destinationIdentity ∧ e'.finalizing = true
  gone : (∀ e ∈ S.registry, e.id ≠ id) → ∀ e ∈ S'.registry, e.id ≠ id
  known : (S.sessions id).isSome → (S'.sessions id).isSome
  silent : (∀ p ∈ S.published, p.1 ≠ id) → ∀ p ∈ S'.published, p.1 ≠ id

theorem Frame.refl (id : Text) (S : System δ) : Frame id S S :=
  ⟨rfl, fun h => h, fun e he hid hf => ⟨e, he, hid, rfl, hf⟩, fun h => h, fun h => h, fun h => h⟩

theorem Frame.trans {id : Text} {S S' S'' : System δ} (h : Frame id S S') (h' : Frame id S' S'') :
    Frame id S S'' where
  finalizer := h'.finalizer.trans h.finalizer
  cancelled := fun hc => h'.cancelled (h.cancelled hc)
  entry := fun e he hid hf => by
    obtain ⟨e', he', hid', hsame, hf'⟩ := h.entry e he hid hf
    obtain ⟨e'', he'', hid'', hsame', hf''⟩ := h'.entry e' he' hid' hf'
    exact ⟨e'', he'', hid'', hsame'.trans hsame, hf''⟩
  gone := fun hg => h'.gone (h.gone hg)
  known := fun hk => h'.known (h.known hk)
  silent := fun hs => h'.silent (h.silent hs)

theorem frame_drop (id : Text) (S : System δ) {gone : EventLogExportSessionEntry → Bool}
    (hgone : ∀ e, e.finalizing = true → gone e = false) : Frame id S (S.drop gone) where
  finalizer := rfl
  cancelled := fun h => by
    show (S.cancelled id || _) = true
    rw [h, Bool.true_or]
  entry := fun e he hid hf => by
    refine ⟨e, List.mem_filter.mpr ⟨he, ?_⟩, hid, rfl, hf⟩
    rw [hgone e hf]
    rfl
  gone := fun h e he => h e (List.mem_filter.mp he).1
  known := fun h => h
  silent := fun h => h

theorem frame_prune (id : Text) (S : System δ) (now : Nat) :
    Frame id S (S.pruneStaleExportSessions now) := frame_drop id S fun _ => stale_finalizing

theorem frame_update (id : Text) (S : System δ) {id' : Text}
    {f : EventLogExportSessionEntry → EventLogExportSessionEntry} (hid : ∀ e, (f e).id = e.id)
    (hidentity : ∀ e, (f e).destinationIdentity = e.destinationIdentity)
    (hfinalizing : ∀ e, e.finalizing = true → (f e).finalizing = true) :
    Frame id S (S.update id' f) where
  finalizer := rfl
  cancelled := fun h => h
  entry := fun e he hsame hf => by
    refine ⟨_, List.mem_map_of_mem he, ?_⟩
    split_ifs
    · exact ⟨(hid e).trans hsame, hidentity e, hfinalizing e hf⟩
    · exact ⟨hsame, rfl, hf⟩
  gone := fun h e he => by
    obtain ⟨e', he', rfl⟩ := List.mem_map.mp he
    split_ifs
    · rw [hid]
      exact h e' he'
    · exact h e' he'
  known := fun h => h
  silent := fun h => h

theorem frame_find (id : Text) (S : System δ) (id' : Text) (now : Nat) :
    Frame id S (S.findSession id' now).2 := by
  unfold System.findSession
  split
  · exact Frame.refl _ _
  · dsimp only
    split_ifs
    · exact (frame_prune id S now).trans
        (frame_update id _ (fun _ => rfl) (fun _ => rfl) fun _ he => he)
    · exact frame_prune id S now

theorem frame_insert {id : Text} {S : System δ} {session : EventLogExportSession}
    (hne : session.id ≠ id) (now : Nat) : Frame id S (S.insertExportSession session now).2 := by
  refine (frame_prune id S now).trans ?_
  unfold System.insertExportSession
  dsimp only
  split_ifs
  · exact Frame.refl _ _
  · exact Frame.refl _ _
  · refine ⟨rfl, fun h => ?_, fun e he hid hf => ⟨e, List.mem_append_left _ he, hid, rfl, hf⟩,
      fun h e he => ?_, fun h => ?_, fun h => h⟩
    · show Function.update (S.pruneStaleExportSessions now).cancelled session.id false id = true
      rw [Function.update_of_ne (Ne.symm hne)]
      exact h
    · rcases List.mem_append.mp he with he | he
      · exact h e he
      · rw [List.mem_singleton.mp he]
        exact hne
    · show ((System.setSession _ session.id _).sessions id).isSome
      rw [System.setSession_of_ne _ (Ne.symm hne)]
      exact h

theorem frame_setSession {id id' : Text} {S : System δ} {session : Option EventLogExportSession}
    (h : (S.sessions id').isSome → session.isSome) : Frame id S (S.setSession id' session) where
  finalizer := rfl
  cancelled := fun h => h
  entry := fun e he hid hf => ⟨e, he, hid, rfl, hf⟩
  gone := fun h => h
  known := fun hknown => by
    by_cases hsame : id = id'
    · rw [hsame, System.setSession_self]
      exact h (by rwa [hsame] at hknown)
    · rw [System.setSession_of_ne _ hsame]
      exact hknown
  silent := fun h => h

theorem frame_append (id : Text) (S : System δ) (id' : Text) (r : EventLogExportSession.Request)
    (now : Nat) : Frame id S (W.append S id' r now) := by
  have hfound := frame_find id S id' now
  unfold World.append
  cases hfind : S.findSession id' now with
  | mk result S' =>
    rw [hfind] at hfound
    cases result with
    | error e => exact hfound
    | ok u =>
      dsimp only
      split_ifs
      · exact hfound
      · exact hfound.trans (frame_setSession fun hsome => by rwa [Option.isSome_map])

theorem frame_close (id : Text) (S : System δ) (id' : Text) : Frame id S (World.close S id') := by
  unfold World.close
  split
  · exact Frame.refl _ _
  · refine ⟨rfl, fun h => ?_, fun e he hid hf => ⟨e, List.mem_filter.mpr ⟨he, ?_⟩, hid, rfl, hf⟩,
      fun h e he => h e (List.mem_filter.mp he).1, fun h => h, fun h => h⟩
    · show (S.cancelled id || _) = true
      rw [h, Bool.true_or]
    · rw [hf, Bool.or_true]

theorem frame_expire (id : Text) (S : System δ) (id' : Text) (now : Nat) :
    Frame id S (S.expireExportSession id' now) :=
  frame_drop id S fun e he => by rw [stale_finalizing he, Bool.and_false]

theorem beginFinalizeSession_error {S S' : System δ} {id : Text} {now : Nat} {e : RegistryError}
    (h : S.beginFinalizeSession id now = (.error e, S')) :
    S' = S ∨ S' = S.pruneStaleExportSessions now := by
  unfold System.beginFinalizeSession at h
  split at h
  · exact .inl (Prod.mk.inj h).2.symm
  · right
    dsimp only at h
    split at h
    · exact (Prod.mk.inj h).2.symm
    · split_ifs at h
      · exact (Prod.mk.inj h).2.symm
      · cases (Prod.mk.inj h).1

theorem frame_beginFinalize {id : Text} {S : System δ} (hreserved : Reserved S)
    (hentry : (∃ e ∈ S.registry, e.id = id ∧ e.finalizing = true) ∨ ∀ e ∈ S.registry, e.id ≠ id)
    (id' : Text) (now : Nat) : Frame id S (W.beginFinalize S id' now) := by
  have hpruned := frame_prune id S now
  unfold World.beginFinalize
  cases hbegin : S.beginFinalizeSession id' now with
  | mk result S' =>
    cases result with
    | error e =>
      rcases beginFinalizeSession_error hbegin with rfl | rfl
      · exact Frame.refl _ _
      · exact hpruned
    | ok u =>
      obtain ⟨-, ⟨e, he, hid, hidle⟩, rfl⟩ := beginFinalizeSession_ok hbegin
      have hne : id ≠ id' := by
        rintro rfl
        rcases hentry with ⟨e₀, he₀, hid₀, hf₀⟩ | hgone
        · obtain ⟨e₁, he₁, hid₁, -, hf₁⟩ := hpruned.entry e₀ he₀ hid₀ hf₀
          have hsame := List.inj_on_of_nodup_map (hreserved.prune now).ids he₁ he
            (hid₁.trans hid.symm)
          rw [hsame] at hf₁
          exact hidle hf₁
        · exact hpruned.gone hgone e he hid
      have hbegun := hpruned.trans (@frame_update _ id (S.pruneStaleExportSessions now) id'
        (fun e => { e with finalizing := true, lastAccess := now }) (fun _ => rfl) (fun _ => rfl)
        fun _ _ => rfl)
      cases hsession : ((S.pruneStaleExportSessions now).update id' fun e =>
          { e with finalizing := true, lastAccess := now }).sessions id' with
      | none => simp only [hsession]; exact hbegun
      | some session =>
        simp only [hsession]
        refine hbegun.trans ⟨?_, fun h => h, fun e he hid hf => ⟨e, he, hid, rfl, hf⟩, fun h => h,
          fun h => h, fun h => h⟩
        exact System.setFinalizer_of_ne _ hne _

theorem frame_poll {id : Text} {S : System δ} {id' : Text} (hne : id' ≠ id) :
    Frame id S (W.poll S id') := by
  unfold World.poll
  split
  · exact Frame.refl _ _
  · refine ⟨System.setFinalizer_of_ne _ (Ne.symm hne) _, fun h => h,
      fun e he hid hf => ⟨e, he, hid, rfl, hf⟩, fun h => h, fun h => h, fun h p hp => ?_⟩
    rcases List.mem_append.mp hp with hp | hp
    · exact h p hp
    · split_ifs at hp
      · cases hp
      · rw [Option.mem_toList, Option.map_eq_some_iff] at hp
        obtain ⟨_, -, rfl⟩ := hp
        exact hne

theorem frame_returned {id : Text} {S : System δ} {id' : Text} (hne : id' ≠ id) :
    Frame id S (World.finalizeReturned S id') := by
  unfold World.finalizeReturned
  split
  · exact Frame.refl _ _
  · split_ifs
    · refine ⟨System.setFinalizer_of_ne _ (Ne.symm hne) _, fun h => h, fun e he hid hf => ?_,
        fun h e he => h e (List.mem_filter.mp he).1, fun h => ?_, fun h => h⟩
      · refine ⟨e, List.mem_filter.mpr ⟨he, decide_eq_true ?_⟩, hid, rfl, hf⟩
        rw [hid]
        exact Ne.symm hne
      · rw [System.setSession_of_ne _ (Ne.symm hne)]
        exact h
    · exact Frame.refl _ _

def Action.moves (id : Text) : Action → Bool
  | .poll id' | .returned id' => decide (id' = id)
  | _ => false

theorem frame_step {id : Text} {S : System δ} (hreserved : Reserved S)
    (hknown : (S.sessions id).isSome)
    (hentry : (∃ e ∈ S.registry, e.id = id ∧ e.finalizing = true) ∨ ∀ e ∈ S.registry, e.id ≠ id)
    {a : Action} (ha : a.moves id = false) : Frame id S (W.step S a) := by
  cases a with
  | create session now =>
    show Frame id S (World.create S session now)
    unfold World.create
    split_ifs with hfresh
    · exact Frame.refl _ _
    · refine frame_insert (fun hsame => ?_) now
      rw [hsame] at hfresh
      exact hfresh hknown
  | append id' r now => exact frame_append id S id' r now
  | finalize id' now => exact frame_beginFinalize hreserved hentry id' now
  | poll id' => exact frame_poll (of_decide_eq_false ha)
  | returned id' => exact frame_returned (of_decide_eq_false ha)
  | close id' => exact frame_close id S id'
  | expire id' now => exact frame_expire id S id' now

/-! ## After a cancellation -/

/-- The finalizer of a cancelled session, whose entry holds `identity`. -/
structure Waiting (S : System δ) (id identity : Text) (r : Running δ) : Prop where
  finalizer : S.finalizers id = some r
  cancelled : S.cancelled id = true
  entry : ∃ e ∈ S.registry, e.id = id ∧ e.destinationIdentity = identity ∧ e.finalizing = true
  known : (S.sessions id).isSome
  silent : ∀ p ∈ S.published, p.1 ≠ id

/-- The session is over and published nothing. -/
structure Gone (S : System δ) (id : Text) : Prop where
  finalizer : S.finalizers id = none
  entry : ∀ e ∈ S.registry, e.id ≠ id
  known : (S.sessions id).isSome
  silent : ∀ p ∈ S.published, p.1 ≠ id

theorem Waiting.frame {S S' : System δ} {id identity : Text} {r : Running δ}
    (h : Waiting S id identity r) (hframe : Frame id S S') : Waiting S' id identity r := by
  obtain ⟨e, he, hid, hidentity, hf⟩ := h.entry
  obtain ⟨e', he', hid', hsame, hf'⟩ := hframe.entry e he hid hf
  exact ⟨hframe.finalizer.trans h.finalizer, hframe.cancelled h.cancelled,
    ⟨e', he', hid', hsame.trans hidentity, hf'⟩, hframe.known h.known, hframe.silent h.silent⟩

theorem Gone.frame {S S' : System δ} {id : Text} (h : Gone S id) (hframe : Frame id S S') :
    Gone S' id :=
  ⟨hframe.finalizer.trans h.finalizer, hframe.gone h.entry, hframe.known h.known,
    hframe.silent h.silent⟩

theorem Waiting.poll {S : System δ} {id identity : Text} {r : Running δ}
    (h : Waiting S id identity r)
    (hpublished : r.state.isFinished = true ∨
      ((W.finalization r.session).poll true r.state).published = none) :
    Waiting (W.poll S id) id identity
      { r with state := (W.finalization r.session).poll true r.state } := by
  have hpoll : W.poll S id =
      { S.setFinalizer id
          (some { r with state := (W.finalization r.session).poll true r.state }) with
        published := S.published ++
          (if r.state.isFinished then []
            else ((((W.finalization r.session).poll true r.state).published.map
              fun bytes => (id, bytes)).toList)) } := by
    unfold World.poll
    simp only [h.finalizer, h.cancelled]
  rw [hpoll]
  refine ⟨System.setFinalizer_self _ _ _, h.cancelled, h.entry, h.known, fun p hp => ?_⟩
  rcases List.mem_append.mp hp with hp | hp
  · exact h.silent p hp
  · rcases hpublished with hfinished | hnone
    · rw [if_pos hfinished] at hp
      cases hp
    · rw [hnone] at hp
      split_ifs at hp <;> cases hp

theorem Waiting.returned {S : System δ} {id identity : Text} {r : Running δ}
    (h : Waiting S id identity r) (hfinished : r.state.isFinished = true) :
    Gone (World.finalizeReturned S id) id := by
  unfold World.finalizeReturned
  simp only [h.finalizer, hfinished, if_true]
  refine ⟨System.setFinalizer_self _ _ _, fun e he => of_decide_eq_true (List.mem_filter.mp he).2,
    ?_, h.silent⟩
  rw [System.setSession_self]
  rfl

theorem Waiting.returned_unfinished {S : System δ} {id identity : Text} {r : Running δ}
    (h : Waiting S id identity r) (hfinished : ¬ r.state.isFinished = true) :
    World.finalizeReturned S id = S := by
  unfold World.finalizeReturned
  simp only [h.finalizer]
  rw [if_neg hfinished]

theorem Waiting.stuck_step {S : System δ} {id identity : Text} {r : Running δ}
    (hreserved : Reserved S) (h : Waiting S id identity r) (hread : r.state.awaitsRead = true)
    (a : Action) : Waiting (W.step S a) id identity r := by
  have hunfinished := Finalization.not_finished_of_awaitsRead hread
  by_cases ha : a.moves id = false
  · obtain ⟨e, he, hid, -, hf⟩ := h.entry
    exact h.frame (frame_step hreserved h.known (.inl ⟨e, he, hid, hf⟩) ha)
  · cases a with
    | poll id' =>
      obtain rfl : id' = id := by simpa [Action.moves] using ha
      have hsame : (W.finalization r.session).poll true r.state = r.state :=
        Finalization.poll_cancelled_of_awaitsRead hread
      have hpublished : r.state.published = none := by
        cases hstate : r.state with
        | finished result published => rw [hstate] at hread; cases hread
        | _ => rfl
      have hwaits := h.poll (W := W) (.inr (by rw [hsame]; exact hpublished))
      rwa [hsame] at hwaits
    | returned id' =>
      obtain rfl : id' = id := by simpa [Action.moves] using ha
      show Waiting (World.finalizeReturned S id') id' identity r
      rw [h.returned_unfinished hunfinished]
      exact h
    | _ => exact absurd rfl ha

theorem Waiting.stuck {S : System δ} {id identity : Text} {r : Running δ}
    (hreserved : Reserved S) (h : Waiting S id identity r) (hread : r.state.awaitsRead = true)
    (later : List Action) : Waiting (W.exec S later) id identity r := by
  induction later generalizing S with
  | nil => exact h
  | cons a later ih => exact ih (hreserved.step a) (h.stuck_step hreserved hread a)

/-- The finalizer of `id` has ended with an error and published nothing, and its
command frees the destination when it returns, or has returned. -/
def Freed (W : World δ) (S : System δ) (id : Text) : Prop :=
  (∀ p ∈ S.published, p.1 ≠ id) ∧
  ((∃ session error, S.finalizers id = some ⟨session, .finished (.error error) none⟩ ∧
      ∀ e ∈ S.registry, e.id = id → ∀ e' ∈ (W.step S (.returned id)).registry,
        e'.destinationIdentity ≠ e.destinationIdentity) ∨
    S.finalizers id = none ∧ ∀ e ∈ S.registry, e.id ≠ id)

theorem freed_exec {S : System δ} {id identity : Text} (hreserved : Reserved S)
    (h : (∃ session error, Waiting S id identity ⟨session, .fail error⟩) ∨ Gone S id)
    (later : List Action) :
    (∃ session error, Waiting (W.exec S later) id identity ⟨session, .fail error⟩) ∨
      Gone (W.exec S later) id := by
  induction later generalizing S with
  | nil => exact h
  | cons a later ih =>
    refine ih (hreserved.step a) ?_
    rcases h with ⟨session, error, h⟩ | h
    · by_cases ha : a.moves id = false
      · obtain ⟨e, he, hid, -, hf⟩ := h.entry
        exact .inl ⟨session, error, h.frame (frame_step hreserved h.known (.inl ⟨e, he, hid, hf⟩) ha)⟩
      · cases a with
        | poll id' =>
          obtain rfl : id' = id := by simpa [Action.moves] using ha
          exact .inl ⟨session, error, h.poll (.inl rfl)⟩
        | returned id' =>
          obtain rfl : id' = id := by simpa [Action.moves] using ha
          exact .inr (h.returned rfl)
        | _ => exact absurd rfl ha
    · right
      by_cases ha : a.moves id = false
      · exact h.frame (frame_step hreserved h.known (.inr h.entry) ha)
      · cases a with
        | poll id' =>
          obtain rfl : id' = id := by simpa [Action.moves] using ha
          show Gone (W.poll S id') id'
          unfold World.poll
          simp only [h.finalizer]
          exact h
        | returned id' =>
          obtain rfl : id' = id := by simpa [Action.moves] using ha
          show Gone (World.finalizeReturned S id') id'
          unfold World.finalizeReturned
          simp only [h.finalizer]
          exact h
        | _ => exact absurd rfl ha

theorem freed_of_ended {S : System δ} {id identity : Text} (hreserved : Reserved S)
    (h : (∃ session error, Waiting S id identity ⟨session, .fail error⟩) ∨ Gone S id) :
    Freed W S id := by
  rcases h with ⟨session, error, h⟩ | h
  · refine ⟨h.silent, .inl ⟨session, error, h.finalizer, fun e he hid e' he' hsame => ?_⟩⟩
    have hgone : Gone (World.finalizeReturned S id) id := h.returned rfl
    have hmem : e' ∈ S.registry := by
      change e' ∈ (World.finalizeReturned S id).registry at he'
      unfold World.finalizeReturned at he'
      simp only [h.finalizer] at he'
      exact (List.mem_filter.mp he').1
    have heq := List.inj_on_of_nodup_map hreserved.identities hmem he hsame
    rw [heq] at he'
    exact hgone.entry e he' hid
  · exact ⟨h.silent, .inr ⟨h.finalizer, h.entry⟩⟩

def Action.pollsOf (id : Text) : Action → Bool
  | .poll id' => decide (id' = id)
  | _ => false

theorem Waiting.ends {S : System δ} {id identity : Text} {r : Running δ}
    (hreserved : Reserved S) (h : Waiting S id identity r) (hread : ¬ r.state.awaitsRead = true)
    (hfinished : ¬ r.state.isFinished = true) {later : List Action}
    (hpolls : 1 ≤ later.countP (Action.pollsOf id)) :
    (∃ session error, Waiting (W.exec S later) id identity ⟨session, .fail error⟩) ∨
      Gone (W.exec S later) id := by
  induction later generalizing S with
  | nil => cases hpolls
  | cons a later ih =>
    by_cases ha : a.moves id = false
    · have hnot : ¬ a.pollsOf id = true := by
        cases a <;> simp_all [Action.moves, Action.pollsOf]
      rw [List.countP_cons_of_neg hnot] at hpolls
      obtain ⟨e, he, hid, -, hf⟩ := h.entry
      exact ih (hreserved.step a)
        (h.frame (frame_step hreserved h.known (.inl ⟨e, he, hid, hf⟩) ha)) hpolls
    · cases a with
      | poll id' =>
        obtain rfl : id' = id := by simpa [Action.moves] using ha
        refine freed_exec (hreserved.step _) (.inl ⟨r.session, .cancelled, ?_⟩) later
        have hcheck : (W.finalization r.session).poll true r.state = .fail .cancelled :=
          Finalization.poll_cancelled_of_check hread hfinished
        have hwaits := h.poll (W := W) (.inr (by rw [hcheck]; rfl))
        rwa [hcheck] at hwaits
      | returned id' =>
        obtain rfl : id' = id := by simpa [Action.moves] using ha
        have hsame : W.step S (.returned id') = S := h.returned_unfinished hfinished
        have hnot : ¬ (Action.returned id').pollsOf id' = true := by simp [Action.pollsOf]
        rw [List.countP_cons_of_neg hnot] at hpolls
        show (∃ _ _, Waiting (W.exec (W.step S _) later) _ _ _) ∨
          Gone (W.exec (W.step S _) later) _
        rw [hsame]
        exact ih hreserved h hpolls
      | _ => exact absurd rfl ha

theorem waiting_of_close {S : System δ} {id : Text} {r : Running δ} (hreserved : Reserved S)
    (hknown : (S.sessions id).isSome) (hr : S.finalizers id = some r)
    (hsilent : ∀ p ∈ S.published, p.1 ≠ id) :
    ∃ identity, Waiting (W.step S (.close id)) id identity r := by
  have hsome : (S.finalizers id).isSome := by rw [hr]; rfl
  obtain ⟨e, he, hid, hf⟩ := hreserved.running id hsome
  have hframe := frame_close id S id
  obtain ⟨e', he', hid', hsame, hf'⟩ := hframe.entry e he hid hf
  refine ⟨e.destinationIdentity, hframe.finalizer.trans hr, ?_, ⟨e', he', hid', hsame, hf'⟩,
    hframe.known hknown, hframe.silent hsilent⟩
  show (World.close S id).cancelled id = true
  unfold World.close
  rw [hreserved.valid id hsome]
  show (S.cancelled id || (decide (id = id) && _)) = true
  have hany : S.registry.any (·.id == id) = true :=
    List.any_eq_true.mpr ⟨e, he, beq_iff_eq.mpr hid⟩
  rw [hany]
  simp

/-! ## What was published -/

def Accounted (S : System δ) : Prop :=
  ∀ p ∈ S.published, (S.sessions p.1).isSome ∧
    ((∃ r, S.finalizers p.1 = some r ∧ r.state.isFinished = true) ∨
      S.finalizers p.1 = none ∧ ∀ e ∈ S.registry, e.id ≠ p.1)

theorem over_step {S : System δ} (hreserved : Reserved S) {id : Text}
    (hknown : (S.sessions id).isSome)
    (h : (∃ r, S.finalizers id = some r ∧ r.state.isFinished = true) ∨
      S.finalizers id = none ∧ ∀ e ∈ S.registry, e.id ≠ id) (a : Action) :
    ((W.step S a).sessions id).isSome ∧
      ((∃ r, (W.step S a).finalizers id = some r ∧ r.state.isFinished = true) ∨
        (W.step S a).finalizers id = none ∧ ∀ e ∈ (W.step S a).registry, e.id ≠ id) := by
  by_cases ha : a.moves id = false
  · have hentry : (∃ e ∈ S.registry, e.id = id ∧ e.finalizing = true) ∨
        ∀ e ∈ S.registry, e.id ≠ id := by
      rcases h with ⟨r, hr, -⟩ | ⟨-, hgone⟩
      · exact .inl (hreserved.running id (by rw [hr]; rfl))
      · exact .inr hgone
    have hframe := frame_step (W := W) hreserved hknown hentry ha
    refine ⟨hframe.known hknown, ?_⟩
    rcases h with ⟨r, hr, hfinished⟩ | ⟨hnone, hgone⟩
    · exact .inl ⟨r, hframe.finalizer.trans hr, hfinished⟩
    · exact .inr ⟨hframe.finalizer.trans hnone, hframe.gone hgone⟩
  · cases a with
    | poll id' =>
      obtain rfl : id' = id := by simpa [Action.moves] using ha
      show ((W.poll S id').sessions id').isSome ∧ _
      unfold World.step World.poll
      rcases h with ⟨r, hr, hfinished⟩ | ⟨hnone, hgone⟩
      · simp only [hr]
        refine ⟨hknown, .inl ⟨_, System.setFinalizer_self _ _ _, ?_⟩⟩
        show ((W.finalization r.session).poll _ r.state).isFinished = true
        rw [Finalization.poll_finished _ hfinished]
        exact hfinished
      · simp only [hnone]
        exact ⟨hknown, .inr ⟨trivial, hgone⟩⟩
    | returned id' =>
      obtain rfl : id' = id := by simpa [Action.moves] using ha
      unfold World.step World.finalizeReturned
      rcases h with ⟨r, hr, hfinished⟩ | ⟨hnone, hgone⟩
      · simp only [hr, hfinished, if_true]
        refine ⟨by rw [System.setSession_self]; rfl, .inr ⟨System.setFinalizer_self _ _ _,
          fun e he => of_decide_eq_true (List.mem_filter.mp he).2⟩⟩
      · simp only [hnone]
        exact ⟨hknown, .inr ⟨trivial, hgone⟩⟩
    | _ => exact absurd rfl ha

theorem published_find (S : System δ) (id : Text) (now : Nat) :
    (S.findSession id now).2.published = S.published := by
  unfold System.findSession
  split
  · rfl
  · dsimp only
    split_ifs <;> rfl

theorem published_begin (S : System δ) (id : Text) (now : Nat) :
    (S.beginFinalizeSession id now).2.published = S.published := by
  unfold System.beginFinalizeSession
  split
  · rfl
  · dsimp only
    split
    · rfl
    · split_ifs <;> rfl

theorem published_step (S : System δ) {a : Action} (ha : ∀ id, a ≠ .poll id) :
    (W.step S a).published = S.published := by
  cases a with
  | create session now =>
    show (World.create S session now).published = _
    unfold World.create
    split_ifs
    · rfl
    · unfold System.insertExportSession
      dsimp only
      split_ifs <;> rfl
  | append id r now =>
    have hfound := published_find S id now
    show (W.append S id r now).published = _
    unfold World.append
    cases hfind : S.findSession id now with
    | mk result S' =>
      rw [hfind] at hfound
      cases result with
      | error e => exact hfound
      | ok u =>
        dsimp only
        split_ifs <;> exact hfound
  | finalize id now =>
    have hbegun := published_begin S id now
    show (W.beginFinalize S id now).published = _
    unfold World.beginFinalize
    cases hbegin : S.beginFinalizeSession id now with
    | mk result S' =>
      rw [hbegin] at hbegun
      cases result with
      | error e => exact hbegun
      | ok u =>
        dsimp only
        split <;> exact hbegun
  | poll id => exact absurd rfl (ha id)
  | returned id =>
    show (World.finalizeReturned S id).published = _
    unfold World.finalizeReturned
    split
    · rfl
    · split_ifs <;> rfl
  | close id =>
    show (World.close S id).published = _
    unfold World.close
    split <;> rfl
  | expire id now => rfl

theorem Accounted.step {S : System δ} (hreserved : Reserved S) (h : Accounted S) (a : Action) :
    Accounted (W.step S a) := by
  intro p hp
  by_cases hold : p ∈ S.published
  · exact over_step hreserved (h p hold).1 (h p hold).2 a
  by_cases ha : ∀ id, a ≠ .poll id
  · rw [published_step S ha] at hp
    exact absurd hp hold
  · push Not at ha
    obtain ⟨id, rfl⟩ := ha
    change p ∈ (W.poll S id).published at hp
    show ((W.poll S id).sessions p.1).isSome ∧ ((∃ r, (W.poll S id).finalizers p.1 = _ ∧ _) ∨
      (W.poll S id).finalizers p.1 = _ ∧ ∀ e ∈ (W.poll S id).registry, _)
    unfold World.poll at hp ⊢
    cases hr : S.finalizers id with
    | none =>
      simp only [hr] at hp
      exact absurd hp hold
    | some r =>
      simp only [hr] at hp ⊢
      rcases List.mem_append.mp hp with hp | hp
      · exact absurd hp hold
      · split_ifs at hp
        · cases hp
        · rw [Option.mem_toList, Option.map_eq_some_iff] at hp
          obtain ⟨bytes, hbytes, rfl⟩ := hp
          have hsome : (S.finalizers id).isSome := by rw [hr]; rfl
          obtain ⟨e, he, hid, -⟩ := hreserved.running id hsome
          have hknown := hreserved.known e he
          rw [hid] at hknown
          refine ⟨hknown, .inl ⟨_, System.setFinalizer_self _ _ _, ?_⟩⟩
          -- only a finalizer that is over has published
          cases hstate : (W.finalization r.session).poll (S.cancelled id) r.state with
          | finished result published => rfl
          | _ => rw [hstate] at hbytes; cases hbytes

theorem accounted_of_reachable {S : System δ} (h : W.Reachable S) : Accounted S := by
  obtain ⟨actions, rfl⟩ := h
  have hrun : ∀ (actions : List Action) (S : System δ), Reserved S → Accounted S →
      Accounted (W.exec S actions) := by
    intro actions
    induction actions with
    | nil => exact fun _ _ h => h
    | cons a actions ih => exact fun S hreserved h => ih _ (hreserved.step a) (h.step hreserved a)
  exact hrun actions {} reserved_init fun _ hp => by cases hp

/-! ## Cancelling an export -/

/-- Once the session is closed, finitely many steps of its finalizer free it, in any
order with the other steps. -/
def CancelEnds (W : World δ) (S : System δ) (id : Text) : Prop :=
  ∃ bound, ∀ later : List Action, bound ≤ later.countP (Action.pollsOf id) →
    Freed W (W.exec (W.step S (.close id)) later) id

theorem cancelEnds_iff {S : System δ} {id : Text} {r : Running δ} (hreach : W.Reachable S)
    (hr : S.finalizers id = some r) (hfinished : ¬ r.state.isFinished = true) :
    (CancelEnds W S id ↔ ¬ r.state.awaitsRead = true) ∧
      (r.state.awaitsRead = true → ∃ identity, ∀ (later : List Action)
        (session : EventLogExportSession) (now : Nat), session.destinationIdentity = identity →
          ∃ error, ((W.exec (W.step S (.close id)) later).insertExportSession session now).1 =
            .error error) := by
  have hreserved := reserved_of_reachable hreach
  have hclosed := hreserved.step (W := W) (.close id)
  have hsome : (S.finalizers id).isSome := by rw [hr]; rfl
  obtain ⟨e, he, hid, -⟩ := hreserved.running id hsome
  have hknown : (S.sessions id).isSome := by
    rw [← hid]
    exact hreserved.known e he
  have hsilent : ∀ p ∈ S.published, p.1 ≠ id := by
    rintro p hp rfl
    rcases (accounted_of_reachable hreach p hp).2 with ⟨r', hr', hover⟩ | ⟨hnone, -⟩
    · rw [hr] at hr'
      cases hr'
      exact hfinished hover
    · rw [hr] at hnone
      cases hnone
  obtain ⟨identity, hwaits⟩ := waiting_of_close (W := W) hreserved hknown hr hsilent
  refine ⟨⟨?_, fun hread => ⟨1, fun later hlater => ?_⟩⟩, fun hread => ⟨identity, ?_⟩⟩
  · rintro ⟨bound, hends⟩ hread
    -- the finalizer reads on as often as is asked
    have hpolls : Action.pollsOf id (.poll id) = true := decide_eq_true rfl
    have hfreed := hends (List.replicate bound (.poll id)) (by
      rw [List.countP_replicate, if_pos hpolls])
    have hstuck := hwaits.stuck (W := W) hclosed hread (List.replicate bound (.poll id))
    rcases hfreed.2 with ⟨session, error, hended, -⟩ | ⟨hnone, -⟩
    · rw [hstuck.finalizer] at hended
      cases hended
      cases hread
    · rw [hstuck.finalizer] at hnone
      cases hnone
  · exact freed_of_ended (hclosed.exec later) (hwaits.ends hclosed hread hfinished hlater)
  · intro later session now hidentity
    obtain ⟨e, he, -, hsame, hf⟩ := (hwaits.stuck (W := W) hclosed hread later).entry
    obtain ⟨e', he', -, hsame', -⟩ := (frame_prune e.id _ now).entry e he rfl hf
    unfold System.insertExportSession
    dsimp only
    split_ifs with hfull htaken
    · exact ⟨_, rfl⟩
    · exact ⟨_, rfl⟩
    · refine absurd (List.any_eq_true.mpr ⟨e', he', ?_⟩) htaken
      rw [beq_iff_eq, hsame', hsame, hidentity]

/-- A destination has one registered session at any time.  Closing the session of a
finalizer at work ends it exactly when the finalizer's next look at the flag is not
one before a read.  When it is, its destination stays refused for ever. -/
theorem cancel_ends_iff (W : World δ) :
    (∀ S, W.Reachable S → (S.registry.map (·.destinationIdentity)).Nodup) ∧
    ∀ S id r, W.Reachable S → S.finalizers id = some r → ¬ r.state.isFinished = true →
      (CancelEnds W S id ↔ ¬ r.state.awaitsRead = true) ∧
      (r.state.awaitsRead = true → ∃ identity, ∀ (later : List Action)
        (session : EventLogExportSession) (now : Nat), session.destinationIdentity = identity →
          ∃ error, ((W.exec (W.step S (.close id)) later).insertExportSession session now).1 =
            .error error) :=
  ⟨fun _ h => (reserved_of_reachable h).identities, fun _ _ _ => cancelEnds_iff⟩

namespace OneRecord

def world : World Nat :=
  ⟨finalization.rendering, decoder, decode, fun _ => finalization.files⟩

/-- The session has its one record, and its finalizer has passed the first check. -/
def decodingState : System Nat :=
  world.exec {} ([.create session 0] ++ requests.map (.append ['s'] · 0) ++
    [.finalize ['s'] 0, .poll ['s']])

theorem decodingState_awaitsRead :
    ∃ r, decodingState.finalizers ['s'] = some r ∧ r.state.awaitsRead = true := by
  have hread : (decodingState.finalizers ['s']).any (·.state.awaitsRead) = true := by
    decide +kernel
  cases hr : decodingState.finalizers ['s'] with
  | none => rw [hr] at hread; cases hread
  | some r =>
    rw [hr] at hread
    exact ⟨r, rfl, hread⟩

end OneRecord

open OneRecord in
theorem cancel_ends_iff_one_record : ∃ r, decodingState.finalizers ['s'] = some r ∧
    (CancelEnds world decodingState ['s'] ↔ ¬ r.state.awaitsRead = true) := by
  obtain ⟨r, hr, hread⟩ := decodingState_awaitsRead
  exact ⟨r, hr, ((cancel_ends_iff world).2 decodingState ['s'] r ⟨_, rfl⟩ hr
    (Finalization.not_finished_of_awaitsRead hread)).1⟩

open OneRecord in
/-- Closed while its first decoding reads, the session is never freed. -/
theorem cancel_never_ends : ¬ CancelEnds world decodingState ['s'] := by
  obtain ⟨r, hr, hread⟩ := decodingState_awaitsRead
  exact fun h => (cancelEnds_iff ⟨_, rfl⟩ hr
    (Finalization.not_finished_of_awaitsRead hread)).1.mp h hread

end Export
end CmTrace
