import Taas.Delimiters
import Taas.IdempotencyKeys

/-!
When the key of a handler and an event is that of no other pair. Names and ids without the
separator do not suffice: a separator that overlaps itself can begin in one of them.
-/
namespace Taas.Idempotency

open Delimiters Transition

variable {n : ℕ}

/-- The separator does not occur in the string. -/
def Avoids (config : IdempotencyConfig) (s : String) : Prop :=
  ¬ config.keySeparator.toList <:+: s.toList

def GuardCall.Avoids (config : IdempotencyConfig) (call : GuardCall) : Prop :=
  Idempotency.Avoids config call.handlerName ∧ Idempotency.Avoids config call.eventId

/-- The guards are entered for names and ids without the separator. -/
def SeparatorFree (config : IdempotencyConfig) : Condition (Guards n) (Act n) := fun _ _ a =>
  ∀ now began w call, a = .enter now began w call → call.Avoids config

/-- Equal keys are keys of one handler and event, and a guard is a duplicate only of a run for its
own handler and event. -/
structure Unambiguous (config : IdempotencyConfig) : Prop where
  keys : ∀ handlerName eventId handlerName' eventId',
    Avoids config handlerName → Avoids config eventId →
    Avoids config handlerName' → Avoids config eventId' →
    buildKey config eventId handlerName = buildKey config eventId' handlerName' →
    handlerName = handlerName' ∧ eventId = eventId'
  duplicates : ∀ columns n as (s : Guards n),
    Trace (guards n config columns) (SeparatorFree config) as s →
    ∀ call : GuardCall, call.Avoids config → entryPhase config call s.table ≠ .body →
      ∃ run, Entry.committed run (.marked true) ∈ s.log ∧
        run.handlerName = call.handlerName ∧ run.eventId = call.eventId

variable {config : IdempotencyConfig} {columns : List String} {s s' : Guards n} {a : Act n}
variable {as : List (Act n)}

theorem toList_buildKey (config : IdempotencyConfig) (eventId handlerName : String) :
    (buildKey config eventId handlerName).toList =
      handlerName.toList ++ config.keySeparator.toList ++ eventId.toList := by
  simp [buildKey]

/-- What has been entered avoids the separator. -/
structure Entered (config : IdempotencyConfig) (s : Guards n) : Prop where
  workers : ∀ w, (s.worker w).phase ≠ .idle → (s.worker w).call.Avoids config
  log : ∀ call phase, Entry.committed call phase ∈ s.log → call.Avoids config

theorem Entered.setWorker (h : Entered config s) {w : Fin n} {x : Worker}
    (hx : x.phase ≠ .idle → x.call.Avoids config) : Entered config (s.setWorker w x) where
  workers v hv := by
    by_cases hvw : v = w
    · subst hvw
      rw [setWorker_self] at hv ⊢
      exact hx hv
    · rw [setWorker_of_ne hvw] at hv ⊢
      exact h.workers v hv
  log := h.log

theorem entered_step (h : Entered config s) (hok : SeparatorFree config as s a)
    (hstep : next config columns s a = some s') : Entered config s' := by
  rcases next_cases hstep with ⟨now, began, w, call, rfl, _, rfl⟩ | ⟨w, rfl, hbody, _, rfl⟩ |
      ⟨w, rfl, hbody, rfl⟩ | ⟨w, t, rfl, hw, _, rfl⟩ | ⟨w, rfl, hidle, _, _, rfl⟩ | ⟨w, rfl, rfl⟩ |
      ⟨now, ttlDays, batchSize, keys, rfl, rfl⟩
  · have hcall := hok now began w call rfl
    have hset := h.setWorker (w := w)
      (x := { phase := entryPhase config call s.table, call := call, began := began })
      fun _ => hcall
    exact ⟨hset.workers, hset.log⟩
  · exact h.setWorker fun _ => h.workers w (by rw [hbody]; decide)
  · exact h.setWorker fun _ => h.workers w (by rw [hbody]; decide)
  · have hset := h.setWorker (w := w) (x := {}) fun hidle => absurd rfl hidle
    refine ⟨hset.workers, fun call phase hmem => ?_⟩
    rcases List.mem_cons.mp hmem with heq | hmem
    · cases heq
      exact h.workers w (by rw [hw]; decide)
    · exact h.log call phase hmem
  · have hset := h.setWorker (w := w) (x := {}) fun hidle => absurd rfl hidle
    refine ⟨hset.workers, fun call phase hmem => ?_⟩
    rcases List.mem_cons.mp hmem with heq | hmem
    · cases heq
      exact h.workers w hidle
    · exact h.log call phase hmem
  · exact h.setWorker fun hidle => absurd rfl hidle
  · refine ⟨h.workers, fun call phase hmem => ?_⟩
    rcases List.mem_cons.mp hmem with heq | hmem
    · cases heq
    · exact h.log call phase hmem

theorem entered_of_trace (h : Trace (guards n config columns) (SeparatorFree config) as s) :
    Entered config s := by
  refine Trace.induct (M := guards n config columns) (I := fun _ s => Entered config s) ?_
    (fun _ _ _ _ _ hs hok hstep => entered_step hs hok hstep) as s h
  intro s hs
  have hinit : s = { clock := s.clock, table := Sql.Table.empty } := hs
  rw [hinit]
  exact ⟨fun w hw => absurd rfl hw, fun call phase hmem => by cases hmem⟩

/-- Without a border in the separator, equal keys have equal parts. -/
theorem parts_of_key {handlerName eventId handlerName' eventId' : String}
    (hsep : Unbordered config.keySeparator.toList) (hh : Avoids config handlerName)
    (hh' : Avoids config handlerName')
    (hkey : buildKey config eventId handlerName = buildKey config eventId' handlerName') :
    handlerName = handlerName' ∧ eventId = eventId' := by
  have hlist := congrArg String.toList hkey
  rw [toList_buildKey, toList_buildKey] at hlist
  obtain ⟨hname, hid⟩ := join_inj hsep hh hh' hlist
  exact ⟨String.toList_injective hname, String.toList_injective hid⟩

theorem ambiguous_of_border {t : List Char} (hborder : Border t config.keySeparator.toList) :
    ∃ handlerName eventId, handlerName ≠ "" ∧ Avoids config handlerName ∧ Avoids config eventId ∧
      Avoids config "" ∧ buildKey config "" handlerName = buildKey config eventId "" := by
  obtain ⟨u, v, hne, hu, hv, hnil, hjoin⟩ := hborder.joins
  refine ⟨String.ofList u, String.ofList v, ?_, ?_, ?_, hnil, ?_⟩
  · intro hempty
    apply hne
    simpa using congrArg String.toList hempty
  · rwa [Avoids, String.toList_ofList]
  · rwa [Avoids, String.toList_ofList]
  · apply String.toList_injective
    simp only [toList_buildKey, String.toList_ofList]
    simpa using hjoin

/-- The keys are unambiguous exactly when the separator has no border. -/
theorem unambiguous_iff (config : IdempotencyConfig) :
    Unambiguous config ↔ Unbordered config.keySeparator.toList := by
  constructor
  · intro h t hborder
    obtain ⟨handlerName, eventId, hne, hname, hid, hempty, hkey⟩ := ambiguous_of_border hborder
    exact hne (h.keys handlerName "" "" eventId hname hempty hempty hid hkey).1
  · intro hsep
    refine ⟨fun _ _ _ _ hh _ hh' _ => parts_of_key hsep hh hh', ?_⟩
    intro columns n as s htrace call hcall hphase
    have hprocessed : isProcessed (call.key config) s.table = true := by
      unfold entryPhase at hphase
      split at hphase
      · assumption
      · exact absurd rfl hphase
    obtain ⟨run, hrun⟩ := exists_won (inv_of_trace htrace) hprocessed
    obtain ⟨hmem, hkey⟩ := mem_since hrun
    have havoids := (entered_of_trace htrace).log run _ hmem
    obtain ⟨hname, hid⟩ := parts_of_key hsep havoids.1 hcall.1 hkey
    exact ⟨run, hmem, hname, hid⟩

/-- With two colons, a handler whose name ends in one has the key of another handler for another
event. -/
theorem colons_ambiguous :
    (¬ ∀ config : IdempotencyConfig, config.keySeparator ≠ "" → Unambiguous config) ∧
    buildKey { keySeparator := "::" } "42" "Orders:" =
      buildKey { keySeparator := "::" } ":42" "Orders" ∧
    ∀ s ∈ ["42", "Orders:", ":42", "Orders"], Avoids { keySeparator := "::" } s := by
  have hkeys : buildKey { keySeparator := "::" } "42" "Orders:" =
      buildKey { keySeparator := "::" } ":42" "Orders" := by decide
  have havoids : ∀ s ∈ ["42", "Orders:", ":42", "Orders"],
      Avoids { keySeparator := "::" } s := by
    unfold Avoids
    decide
  refine ⟨fun h => ?_, hkeys, havoids⟩
  have hparts := (h { keySeparator := "::" } (by decide)).keys "Orders:" "42" "Orders" ":42"
    (havoids _ (by simp)) (havoids _ (by simp)) (havoids _ (by simp)) (havoids _ (by simp)) hkeys
  exact absurd hparts.1 (by decide)

end Taas.Idempotency
