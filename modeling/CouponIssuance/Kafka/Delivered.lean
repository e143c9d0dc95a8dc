import CouponIssuance.Kafka.Consumer
import Mathlib.Data.List.Pairwise

/-!
This module contains what the batch loop guarantees: whatever happens in between, no record is
skipped, and none is held up by the one before it.
-/

namespace Kafka

open Concurrency

def IsLog (log : List (Record α)) : Prop :=
  log.Pairwise fun a b => a.offset < b.offset

/--
A call of `deliver` has called the handler for a record that can be parsed, once at least, and again
only after a failure.
-/
structure Delivery.Regular (C : Consumer α π) (d : Delivery α) : Prop where
  skipped : C.parse d.record.value = none → d.calls = 0
  called : C.parse d.record.value ≠ none → 1 ≤ d.calls
  bounded : d.calls ≤ C.maxDeliveryAttempts
  stopped : ∀ ok ∈ d.outcomes.take (d.calls - 1), ok = false
  finished : d.returned = true
    → d.outcomes.length = d.calls
      ∧ (C.parse d.record.value ≠ none
          → d.outcomes.getLast? = some true ∨ d.calls = C.maxDeliveryAttempts)

def State.Delivered (s : State α) (r : Record α) : Prop :=
  ∃ d ∈ s.deliveries, d.record = r ∧ d.returned = true

structure Delivery.Failing (C : Consumer α π) (d : Delivery α) (attempt failures : Nat) : Prop where
  parses : C.parse d.record.value ≠ none
  calls : d.calls = attempt
  positive : 1 ≤ attempt
  bounded : attempt ≤ C.maxDeliveryAttempts
  length : d.outcomes.length = failures
  failed : ∀ ok ∈ d.outcomes, ok = false
  returned : d.returned = false

def Pc.Inv (C : Consumer α π) (log : List (Record α)) (position : Nat) : Pc α → Prop
  | .idle => True
  | .loop messages _ | .commitOffsetsIfNecessary messages _ | .heartbeat messages _ =>
    messages <+: pending log position
  | .handler d n messages _ =>
    d.record :: messages <+: pending log position ∧ d.Failing C n (n - 1)
  | .pause d n messages _ =>
    d.record :: messages <+: pending log position ∧ d.Failing C n n ∧ n < C.maxDeliveryAttempts

structure State.Inv (C : Consumer α π) (log : List (Record α)) (s : State α) : Prop where
  delivered : ∀ r ∈ log, r.offset < s.position → s.Delivered r
  committed_le : s.committed ≤ s.position
  inOrder : (s.history.map (·.record.offset)).eraseDups <+: log.map (·.offset)
  regular : ∀ d ∈ s.deliveries, d.Regular C
  pc : s.pc.Inv C log s.position

section Log

variable {log : List (Record α)} {position : Nat} {m : Record α} {messages : List (Record α)}

theorem mem_pending {r : Record α} : r ∈ pending log position ↔ r ∈ log ∧ position ≤ r.offset := by
  simp [pending]

theorem pending_succ {rest : List (Record α)} (hlog : IsLog log)
    (h : pending log position = m :: rest)
    : pending log (m.offset + 1) = rest := by
  have hm : position ≤ m.offset := (mem_pending.mp (h ▸ List.mem_cons_self)).2
  have hsorted : (m :: rest).Pairwise fun a b => a.offset < b.offset :=
    h ▸ hlog.sublist List.filter_sublist
  have hfilter : pending log (m.offset + 1) = pending (pending log position) (m.offset + 1) := by
    unfold pending
    rw [List.filter_filter]
    apply List.filter_congr
    intro r _
    rw [← Bool.decide_and, decide_eq_decide]
    omega
  rw [hfilter, h]
  unfold pending
  rw [List.filter_cons_of_neg (by simp)]
  apply List.filter_eq_self.mpr
  intro r hr
  have := (List.pairwise_cons.mp hsorted).1 r hr
  simp
  omega

theorem eq_of_pending {rest : List (Record α)} (hlog : IsLog log)
    (h : pending log position = m :: rest) {r : Record α} (hr : r ∈ log)
    (hlt : r.offset < m.offset + 1)
    : r.offset < position ∨ r = m := by
  by_cases hposition : r.offset < position
  . exact Or.inl hposition
  . right
    have hmem : r ∈ m :: rest := h ▸ mem_pending.mpr ⟨hr, by omega⟩
    rcases List.mem_cons.mp hmem with rfl | hrest
    . rfl
    . have hsorted : (m :: rest).Pairwise fun a b => a.offset < b.offset :=
        h ▸ hlog.sublist List.filter_sublist
      have := (List.pairwise_cons.mp hsorted).1 r hrest
      omega

theorem eraseDups_append_prefix {offsets seen : List Nat} {x : Nat} (hsorted : offsets.Pairwise (· < ·))
    (hseen : seen.eraseDups <+: offsets) (hx : x ∈ offsets)
    (hbelow : ∀ y ∈ offsets, y < x → y ∈ seen)
    : (seen ++ [x]).eraseDups <+: offsets := by
  obtain ⟨rest, hrest⟩ := hseen
  rw [List.eraseDups_append]
  by_cases hmem : x ∈ seen
  . refine ⟨rest, ?_⟩
    simpa [List.removeAll, hmem] using hrest
  . have hnew : ([x].removeAll seen).eraseDups = [x] := by
      simp [List.removeAll, hmem, List.eraseDups_cons]
    rw [hnew]
    rw [← hrest, List.pairwise_append] at hsorted
    have hxrest : x ∈ rest := by
      rw [← hrest, List.mem_append, List.mem_eraseDups] at hx
      exact hx.resolve_left hmem
    cases rest with
    | nil => contradiction
    | cons y rest =>
      rcases List.mem_cons.mp hxrest with rfl | hxrest
      . exact ⟨rest, by simpa using hrest⟩
      . have hyx : y < x := (List.pairwise_cons.mp hsorted.2.1).1 x hxrest
        have hy : y ∈ seen := hbelow y (by simp [← hrest]) hyx
        have := hsorted.2.2 y (List.mem_eraseDups.mpr hy) y List.mem_cons_self
        omega

end Log

section Step

variable {C : Consumer α π} {log : List (Record α)} {s t : State α} {d : Delivery α}
variable {m : Record α} {messages : List (Record α)} {processed : Nat}

theorem State.Inv.delivered_of_history (h : s.Inv C log) {r : Record α} (hr : r ∈ log)
    (hlt : r.offset < s.position)
    : r.offset ∈ s.history.map (·.record.offset) := by
  obtain ⟨d, hd, rfl, _⟩ := h.delivered r hr hlt
  exact List.mem_map_of_mem (List.mem_append_left _ hd)

theorem State.Inv.inOrder_append (hlog : IsLog log) (h : s.Inv C log)
    (hm : m :: messages <+: pending log s.position)
    : (s.history.map (·.record.offset) ++ [m.offset]).eraseDups <+: log.map (·.offset) := by
  obtain ⟨rest, hrest⟩ := hm
  have hpending : pending log s.position = m :: (messages ++ rest) := hrest.symm
  have hmem : m ∈ log := (mem_pending.mp (hpending ▸ List.mem_cons_self)).1
  apply eraseDups_append_prefix
  . exact List.pairwise_map.mpr hlog
  . exact h.inOrder
  . exact List.mem_map_of_mem hmem
  . intro y hy hlt
    obtain ⟨r, hr, rfl⟩ := List.mem_map.mp hy
    rcases eq_of_pending hlog hpending hr (by omega) with hbelow | rfl
    . exact h.delivered_of_history hr hbelow
    . omega

theorem State.Inv.resolve (hlog : IsLog log) (h : s.Inv C log)
    (hinOrder : (s.deliveries.map (·.record.offset) ++ [d.record.offset]).eraseDups
      <+: log.map (·.offset))
    (hregular : { d with returned := true }.Regular C)
    (hm : d.record :: messages <+: pending log s.position)
    : (s.resolve d messages processed).Inv C log := by
  obtain ⟨rest, hrest⟩ := hm
  have hpending : pending log s.position = d.record :: (messages ++ rest) := hrest.symm
  have hposition : s.position ≤ d.record.offset :=
    (mem_pending.mp (hpending ▸ List.mem_cons_self)).2
  constructor
  . intro r hr hlt
    rcases eq_of_pending hlog hpending hr hlt with hbelow | rfl
    . obtain ⟨d', hd', heq⟩ := h.delivered r hr hbelow
      exact ⟨d', List.mem_append_left _ hd', heq⟩
    . exact ⟨_, List.mem_append_right _ List.mem_cons_self, rfl, rfl⟩
  . have := h.committed_le
    simp only [State.resolve]
    omega
  . simpa [State.resolve, State.history, Pc.current] using hinOrder
  . intro d' hd'
    rcases List.mem_append.mp hd' with hd' | hd'
    . exact h.regular d' hd'
    . rw [List.mem_singleton.mp hd']
      exact hregular
  . simp only [State.resolve, Pc.Inv, pending_succ hlog hpending]
    exact List.prefix_append _ _

theorem State.Inv.goto (h : s.Inv C log) {pc : Pc α} (hcurrent : s.pc.current = [])
    (hcurrent' : pc.current = []) (hpc : pc.Inv C log s.position)
    : { s with pc := pc }.Inv C log := by
  refine ⟨h.delivered, h.committed_le, ?_, h.regular, hpc⟩
  have := h.inOrder
  simp only [State.history, hcurrent, hcurrent'] at this ⊢
  exact this

theorem State.Inv.commit (h : s.Inv C log) (executed : Bool)
    : { s with committed := if executed then s.position else s.committed }.Inv C log := by
  refine ⟨h.delivered, ?_, h.inOrder, h.regular, h.pc⟩
  have := h.committed_le
  dsimp only
  split <;> omega

theorem Delivery.Failing.regular {n : Nat} {failures : Nat} (h : d.Failing C n failures)
    : d.Regular C where
  skipped hnone := absurd hnone h.parses
  called _ := h.calls ▸ h.positive
  bounded := h.calls ▸ h.bounded
  stopped ok hok := h.failed ok (List.mem_of_mem_take hok)
  finished hreturned := by
    rw [h.returned] at hreturned
    contradiction

theorem Delivery.Failing.finish {n : Nat} (h : d.Failing C n (n - 1)) {ok : Bool}
    (hover : ok = true ∨ n = C.maxDeliveryAttempts)
    : ({ d with outcomes := d.outcomes ++ [ok], returned := true } : Delivery α).Regular C where
  skipped hnone := absurd hnone h.parses
  called _ := h.calls ▸ h.positive
  bounded := h.calls ▸ h.bounded
  stopped ok' hok' := by
    have hlength : d.calls - 1 = d.outcomes.length := by
      rw [h.calls, h.length]
    simp only [hlength, List.take_left] at hok'
    exact h.failed ok' hok'
  finished _ := by
    have := h.positive
    refine ⟨?_, fun _ => ?_⟩
    . simp only [List.length_append, List.length_cons, List.length_nil, h.length, h.calls]
      omega
    . rw [List.getLast?_concat]
      exact hover.imp (congrArg some) (h.calls.trans ·)

theorem Delivery.Failing.fail {n : Nat} (h : d.Failing C n (n - 1))
    : ({ d with outcomes := d.outcomes ++ [false] } : Delivery α).Failing C n n where
  parses := h.parses
  calls := h.calls
  positive := h.positive
  bounded := h.bounded
  length := by
    have := h.positive
    simp only [List.length_append, List.length_cons, List.length_nil, h.length]
    omega
  failed ok hok := by
    rcases List.mem_append.mp hok with hok | hok
    . exact h.failed ok hok
    . exact List.mem_singleton.mp hok
  returned := h.returned

theorem State.Inv.deliver (hlog : IsLog log) (hmax : 1 ≤ C.maxDeliveryAttempts) (h : s.Inv C log)
    (hpc : s.pc = .loop (m :: messages) processed)
    : (C.deliver s m messages processed).Inv C log := by
  have hm : m :: messages <+: pending log s.position := by
    have := h.pc
    rw [hpc] at this
    exact this
  have hinOrder := h.inOrder_append hlog hm
  simp only [State.history, hpc, Pc.current, List.append_nil] at hinOrder
  unfold Consumer.deliver
  split
  . next hparse =>
    refine h.resolve hlog hinOrder ?_ hm
    exact ⟨fun _ => rfl, fun hsome => absurd hparse hsome, Nat.zero_le _, by simp,
      fun _ => ⟨rfl, fun hsome => absurd hparse hsome⟩⟩
  . next hparse =>
    unfold Consumer.attempt
    rw [if_pos hmax]
    refine ⟨h.delivered, h.committed_le, ?_, h.regular, hm, ?_⟩
    . simpa [State.history, Pc.current] using hinOrder
    . exact ⟨by simp [hparse], rfl, Nat.le_refl _, hmax, rfl, by simp, rfl⟩

theorem State.Inv.handled (hlog : IsLog log) (h : s.Inv C log) {n : Nat} {ok : Bool}
    (hpc : s.pc = .handler d n messages processed)
    (hstep : C.step log s (.handled ok) = some t)
    : t.Inv C log := by
  have hpcInv := h.pc
  rw [hpc] at hpcInv
  obtain ⟨hm, hfailing⟩ := hpcInv
  have hinOrder := h.inOrder
  simp only [State.history, hpc, Pc.current, List.map_append, List.map_cons, List.map_nil]
    at hinOrder
  simp only [Consumer.step, hpc] at hstep
  split at hstep
  . next hok =>
    cases hstep
    exact h.resolve hlog hinOrder (hfailing.finish (Or.inl hok)) hm
  . next hok =>
    rw [Bool.not_eq_true] at hok
    subst hok
    split at hstep
    . next hlast =>
      cases hstep
      exact h.resolve hlog hinOrder (hfailing.finish (Or.inr hlast)) hm
    . next hmore =>
      cases hstep
      have := hfailing.bounded
      refine ⟨h.delivered, h.committed_le, ?_, h.regular, hm, hfailing.fail, by omega⟩
      simpa [State.history, Pc.current] using hinOrder

theorem State.Inv.elapsed (h : s.Inv C log) {n : Nat} (hpc : s.pc = .pause d n messages processed)
    (hstep : C.step log s .elapsed = some t)
    : t.pc = .handler { d with calls := d.calls + 1 } (n + 1) messages processed
        ∧ t.Inv C log := by
  have hpcInv := h.pc
  rw [hpc] at hpcInv
  obtain ⟨hm, hfailing, hlt⟩ := hpcInv
  have hinOrder := h.inOrder
  simp only [State.history, hpc, Pc.current] at hinOrder
  simp only [Consumer.step, hpc, Consumer.attempt, if_pos (Nat.succ_le_of_lt hlt)] at hstep
  cases hstep
  refine ⟨rfl, h.delivered, h.committed_le, ?_, h.regular, hm, ?_⟩
  . simpa [State.history, Pc.current] using hinOrder
  . exact { hfailing with
      calls := congrArg (· + 1) hfailing.calls
      positive := Nat.succ_le_succ (Nat.zero_le _)
      bounded := hlt
    }

theorem State.Inv.restart (h : s.Inv C log)
    : { s with position := s.committed, deliveries := s.history, pc := .idle }.Inv C log := by
  have := h.committed_le
  refine ⟨?_, Nat.le_refl _, ?_, ?_, trivial⟩
  . intro r hr hlt
    dsimp only at hlt
    obtain ⟨d, hd, heq⟩ := h.delivered r hr (by omega)
    exact ⟨d, List.mem_append_left _ hd, heq⟩
  . have hinOrder := h.inOrder
    simp only [State.history, Pc.current, List.append_nil] at hinOrder ⊢
    exact hinOrder
  . intro d hd
    rcases List.mem_append.mp hd with hd | hd
    . exact h.regular d hd
    . have hpc := h.pc
      cases hcase : s.pc with
      | handler d' n messages processed =>
        rw [hcase] at hd hpc
        rw [List.mem_singleton.mp hd]
        exact hpc.2.regular
      | pause d' n messages processed =>
        rw [hcase] at hd hpc
        rw [List.mem_singleton.mp hd]
        exact hpc.2.1.regular
      | _ =>
        rw [hcase] at hd
        contradiction

theorem State.Inv.step (hlog : IsLog log) (hmax : 1 ≤ C.maxDeliveryAttempts) (h : s.Inv C log)
    {a : Act} (hstep : C.step log s a = some t)
    : t.Inv C log := by
  cases a with
  | fetch limit =>
    simp only [Consumer.step] at hstep
    split at hstep
    . next hpc =>
      cases hstep
      exact h.goto (by rw [hpc]; rfl) rfl (List.take_prefix _ _)
    . contradiction
  | check isRunning isStale =>
    simp only [Consumer.step] at hstep
    split at hstep
    . next hpc =>
      cases hstep
      exact h.goto (by rw [hpc]; rfl) rfl trivial
    . next hpc =>
      split at hstep
      . cases hstep
        exact h.goto (by rw [hpc]; rfl) rfl trivial
      . split at hstep
        . -- the batch has had its share of records
          cases hstep
          exact h.goto (by rw [hpc]; rfl) rfl trivial
        . cases hstep
          exact h.deliver hlog hmax hpc
    . contradiction
  | handled ok =>
    cases hpc : s.pc with
    | handler d n messages processed => exact h.handled hlog hpc hstep
    | _ =>
      simp only [Consumer.step, hpc] at hstep
      contradiction
  | elapsed =>
    cases hpc : s.pc with
    | pause d n messages processed => exact (h.elapsed hpc hstep).2
    | _ =>
      simp only [Consumer.step, hpc] at hstep
      contradiction
  | commit executed threw =>
    simp only [Consumer.step] at hstep
    split at hstep
    . next messages processed hpc =>
      cases hstep
      have hpcInv := h.pc
      rw [hpc] at hpcInv
      cases threw
      . exact (h.commit executed).goto (by rw [hpc]; rfl) rfl hpcInv
      . exact (h.commit executed).goto (by rw [hpc]; rfl) rfl trivial
    . contradiction
  | beat threw =>
    simp only [Consumer.step] at hstep
    split at hstep
    . next messages processed hpc =>
      cases hstep
      have hpcInv := h.pc
      rw [hpc] at hpcInv
      cases threw
      . exact h.goto (by rw [hpc]; rfl) rfl hpcInv
      . exact h.goto (by rw [hpc]; rfl) rfl trivial
    . contradiction
  | autoCommit =>
    cases hstep
    exact h.commit true
  | restart =>
    cases hstep
    exact h.restart

theorem init_inv : (init : State α).Inv C log where
  delivered r _ hlt := absurd hlt (Nat.not_lt_zero _)
  committed_le := Nat.le_refl _
  inOrder := List.nil_prefix
  regular d hd := by contradiction
  pc := trivial

theorem run_inv {ok : State α → Act → Prop} (hlog : IsLog log) (hmax : 1 ≤ C.maxDeliveryAttempts)
    (hrun : (C.machine log).Run ok s t) (h : s.Inv C log)
    : t.Inv C log :=
  hrun.invariant h fun _ _ _ hI _ hstep => hI.step hlog hmax hstep

end Step

section Progress

def State.upcoming (log : List (Record α)) (s : State α) : List (Record α) :=
  match s.pc.current with
  | d :: _ => pending log (d.record.offset + 1)
  | [] => pending log s.position

/--
The client goes on, and nothing throws. The handler ends its attempts as `answers` says.
-/
def Steady (answers : Nat → Bool) (limit : Nat) (s : State α) : Act → Prop
  | .fetch n => n = limit
  | .check isRunning isStale => isRunning = true ∧ isStale = false
  | .handled ok => ∃ d n messages processed, s.pc = .handler d n messages processed ∧ ok = answers n
  | .elapsed => True
  | .commit _ threw | .beat threw => threw = false
  | .autoCommit | .restart => False

def Reaches (C : Consumer α π) (log : List (Record α)) (answers : Nat → Bool) (limit : Nat)
    (s : State α) (r : Record α) : Prop :=
  ∃ t, (C.machine log).Run (Steady answers limit) s t
    ∧ t.history.map (·.record) = s.history.map (·.record) ++ [r]

variable {C : Consumer α π} {log : List (Record α)} {answers : Nat → Bool} {limit : Nat}
variable {s t : State α} {d : Delivery α} {r : Record α} {messages rest : List (Record α)}
variable {processed : Nat}

theorem Reaches.of_step {a : Act} (hstep : C.step log s a = some t) (hok : Steady answers limit s a)
    (hhistory : t.history.map (·.record) = s.history.map (·.record))
    (h : Reaches C log answers limit t r)
    : Reaches C log answers limit s r := by
  obtain ⟨u, hrun, hu⟩ := h
  exact ⟨u, (Machine.Run.single hok hstep).trans hrun, hu.trans (by rw [hhistory])⟩

theorem history_deliver (C : Consumer α π) (hmax : 1 ≤ C.maxDeliveryAttempts)
    (hpc : s.pc.current = [])
    : (C.deliver s r messages processed).history.map (·.record)
        = s.history.map (·.record) ++ [r] := by
  have hcurrent : s.history = s.deliveries := by
    rw [State.history, hpc, List.append_nil]
  rw [hcurrent]
  unfold Consumer.deliver
  split
  . simp [State.resolve, State.history, Pc.current]
  . simp [Consumer.attempt, hmax, State.history, Pc.current]

theorem reaches_of_loop (hmax : 1 ≤ C.maxDeliveryAttempts)
    (hpc : s.pc = .loop (r :: messages) processed) (hprocessed : processed < C.maxRecordsPerBatch)
    : Reaches C log answers limit s r := by
  have hstep : C.step log s (.check true false) = some (C.deliver s r messages processed) := by
    simp [Consumer.step, hpc, hprocessed]
  refine ⟨_, Machine.Run.single (a := .check true false) ⟨rfl, rfl⟩ hstep, ?_⟩
  exact history_deliver C hmax (by rw [hpc]; rfl)

theorem reaches_of_idle (hmax : 1 ≤ C.maxDeliveryAttempts) (hrecords : 1 ≤ C.maxRecordsPerBatch)
    (hlimit : 1 ≤ limit) (hpc : s.pc = .idle) (hpending : pending log s.position = r :: rest)
    : Reaches C log answers limit s r := by
  obtain ⟨n, rfl⟩ := Nat.exists_eq_succ_of_ne_zero (Nat.one_le_iff_ne_zero.mp hlimit)
  have hstep : C.step log s (.fetch (n + 1))
      = some { s with pc := .loop (r :: rest.take n) 0 } := by
    simp [Consumer.step, hpc, hpending]
  apply Reaches.of_step hstep rfl
  . simp [State.history, hpc, Pc.current]
  . exact reaches_of_loop hmax rfl hrecords

theorem reaches_of_pending (hmax : 1 ≤ C.maxDeliveryAttempts)
    (hrecords : 1 ≤ C.maxRecordsPerBatch) (hlimit : 1 ≤ limit)
    (hpc : s.pc = .loop messages processed) (hm : messages <+: pending log s.position)
    (hpending : pending log s.position = r :: rest)
    : Reaches C log answers limit s r := by
  have hend : C.step log s (.check true false) = some { s with pc := .idle }
      → Reaches C log answers limit s r := by
    intro hstep
    apply Reaches.of_step hstep ⟨rfl, rfl⟩
    . simp [State.history, hpc, Pc.current]
    . exact reaches_of_idle hmax hrecords hlimit rfl hpending
  cases messages with
  | nil => exact hend (by simp [Consumer.step, hpc])
  | cons m messages =>
    obtain ⟨more, hmore⟩ := hm
    rw [hpending, List.cons_append, List.cons.injEq] at hmore
    rw [hmore.1] at hpc
    by_cases hprocessed : processed < C.maxRecordsPerBatch
    . exact reaches_of_loop hmax hpc hprocessed
    . exact hend (by simp [Consumer.step, hpc, Nat.le_of_not_lt hprocessed])

theorem reaches_of_heartbeat (hmax : 1 ≤ C.maxDeliveryAttempts)
    (hrecords : 1 ≤ C.maxRecordsPerBatch) (hlimit : 1 ≤ limit)
    (hpc : s.pc = .heartbeat messages processed) (hm : messages <+: pending log s.position)
    (hpending : pending log s.position = r :: rest)
    : Reaches C log answers limit s r := by
  have hstep : C.step log s (.beat false)
      = some { s with pc := .loop messages (processed + 1) } := by
    simp [Consumer.step, hpc]
  apply Reaches.of_step hstep rfl
  . simp [State.history, hpc, Pc.current]
  . exact reaches_of_pending hmax hrecords hlimit rfl hm hpending

theorem reaches_of_commit (hmax : 1 ≤ C.maxDeliveryAttempts)
    (hrecords : 1 ≤ C.maxRecordsPerBatch) (hlimit : 1 ≤ limit)
    (hpc : s.pc = .commitOffsetsIfNecessary messages processed)
    (hm : messages <+: pending log s.position) (hpending : pending log s.position = r :: rest)
    : Reaches C log answers limit s r := by
  have hstep : C.step log s (.commit true false)
      = some { s with committed := s.position, pc := .heartbeat messages processed } := by
    simp [Consumer.step, hpc]
  apply Reaches.of_step hstep rfl
  . simp [State.history, hpc, Pc.current]
  . exact reaches_of_heartbeat hmax hrecords hlimit rfl hm hpending

theorem reaches_of_resolve (hlog : IsLog log) (hmax : 1 ≤ C.maxDeliveryAttempts)
    (hrecords : 1 ≤ C.maxRecordsPerBatch) (hlimit : 1 ≤ limit) {n : Nat} (h : s.Inv C log)
    (hpc : s.pc = .handler d n messages processed)
    (hover : answers n = true ∨ n = C.maxDeliveryAttempts)
    (hpending : pending log (d.record.offset + 1) = r :: rest)
    : Reaches C log answers limit s r := by
  let d' : Delivery α := { d with outcomes := d.outcomes ++ [answers n] }
  have hstep : C.step log s (.handled (answers n)) = some (s.resolve d' messages processed) := by
    simp only [Consumer.step, hpc]
    split
    . rfl
    . next hanswer =>
      rw [if_pos (hover.resolve_left hanswer)]
  have hpcInv := (h.handled hlog hpc hstep).pc
  apply Reaches.of_step hstep ⟨d, n, messages, processed, hpc, rfl⟩
  . simp [State.resolve, State.history, hpc, Pc.current, d']
  . exact reaches_of_commit hmax hrecords hlimit rfl hpcInv hpending

theorem reaches_of_handler (hlog : IsLog log) (hmax : 1 ≤ C.maxDeliveryAttempts)
    (hrecords : 1 ≤ C.maxRecordsPerBatch) (hlimit : 1 ≤ limit) {n : Nat} (h : s.Inv C log)
    (hpc : s.pc = .handler d n messages processed)
    (hpending : pending log (d.record.offset + 1) = r :: rest)
    : Reaches C log answers limit s r := by
  have hbounded : n ≤ C.maxDeliveryAttempts := by
    have hpcInv := h.pc
    rw [hpc] at hpcInv
    exact hpcInv.2.bounded
  -- induction on the number of attempts that are left
  induction hleft : C.maxDeliveryAttempts - n generalizing s d n with
  | zero =>
    exact reaches_of_resolve hlog hmax hrecords hlimit h hpc (Or.inr (by omega)) hpending
  | succ left ih =>
    by_cases hanswer : answers n = true
    . exact reaches_of_resolve hlog hmax hrecords hlimit h hpc (Or.inl hanswer) hpending
    . rw [Bool.not_eq_true] at hanswer
      let d' : Delivery α := { d with outcomes := d.outcomes ++ [false] }
      let u : State α := { s with pc := .pause d' n messages processed }
      have hstep : C.step log s (.handled false) = some u := by
        have hne : n ≠ C.maxDeliveryAttempts := by omega
        simp [Consumer.step, hpc, hne, u, d']
      have hu := h.handled hlog hpc hstep
      have hnext : n + 1 ≤ C.maxDeliveryAttempts := by omega
      have hstep' : C.step log u .elapsed = some (C.attempt u d' (n + 1) messages processed) := rfl
      obtain ⟨hpc', hinv⟩ := hu.elapsed rfl hstep'
      apply Reaches.of_step hstep ⟨d, n, messages, processed, hpc, hanswer.symm⟩
      . simp [State.history, hpc, Pc.current, u, d']
      . apply Reaches.of_step hstep' trivial
        . simp [State.history, Consumer.attempt, hnext, Pc.current, u]
        . exact ih hinv hpc' hpending hnext (by omega)

theorem reaches_upcoming (hlog : IsLog log) (hmax : 1 ≤ C.maxDeliveryAttempts)
    (hrecords : 1 ≤ C.maxRecordsPerBatch) (hlimit : 1 ≤ limit) (h : s.Inv C log)
    (hupcoming : s.upcoming log = r :: rest)
    : Reaches C log answers limit s r := by
  have hpcInv := h.pc
  cases hpc : s.pc with
  | idle =>
    simp only [State.upcoming, hpc, Pc.current] at hupcoming
    exact reaches_of_idle hmax hrecords hlimit hpc hupcoming
  | loop messages processed =>
    rw [hpc] at hpcInv
    simp only [State.upcoming, hpc, Pc.current] at hupcoming
    exact reaches_of_pending hmax hrecords hlimit hpc hpcInv hupcoming
  | handler d n messages processed =>
    simp only [State.upcoming, hpc, Pc.current] at hupcoming
    exact reaches_of_handler hlog hmax hrecords hlimit h hpc hupcoming
  | pause d n messages processed =>
    rw [hpc] at hpcInv
    simp only [State.upcoming, hpc, Pc.current] at hupcoming
    have hnext : n + 1 ≤ C.maxDeliveryAttempts := hpcInv.2.2
    have hstep : C.step log s .elapsed = some (C.attempt s d (n + 1) messages processed) := by
      simp only [Consumer.step, hpc]
    obtain ⟨hpc', hinv⟩ := h.elapsed hpc hstep
    apply Reaches.of_step hstep trivial
    . simp [State.history, hpc, Consumer.attempt, hnext, Pc.current]
    . exact reaches_of_handler hlog hmax hrecords hlimit hinv hpc' hupcoming
  | commitOffsetsIfNecessary messages processed =>
    rw [hpc] at hpcInv
    simp only [State.upcoming, hpc, Pc.current] at hupcoming
    exact reaches_of_commit hmax hrecords hlimit hpc hpcInv hupcoming
  | heartbeat messages processed =>
    rw [hpc] at hpcInv
    simp only [State.upcoming, hpc, Pc.current] at hupcoming
    exact reaches_of_heartbeat hmax hrecords hlimit hpc hpcInv hupcoming

end Progress

/--
What a consumer guarantees in a state: everything below the committed offset has been delivered, the
first deliveries follow the log without a gap, every delivery is regular, and the next record gets
its turn whatever the handler answers.
-/
structure Reliable (C : Consumer α π) (log : List (Record α)) (s : State α) : Prop where
  delivered : ∀ r ∈ log, r.offset < s.committed → s.Delivered r
  inOrder : (s.history.map (·.record.offset)).eraseDups <+: log.map (·.offset)
  regular : ∀ d ∈ s.history, d.Regular C
  unblocked : ∀ answers limit r rest, 1 ≤ limit → s.upcoming log = r :: rest
    → Reaches C log answers limit s r

theorem State.Inv.reliable {C : Consumer α π} {log : List (Record α)} {s : State α}
    (hlog : IsLog log) (hmax : 1 ≤ C.maxDeliveryAttempts) (hrecords : 1 ≤ C.maxRecordsPerBatch)
    (h : s.Inv C log)
    : Reliable C log s where
  delivered r hr hlt := h.delivered r hr (Nat.lt_of_lt_of_le hlt h.committed_le)
  inOrder := h.inOrder
  regular := h.restart.regular
  unblocked _ _ _ _ hlimit hupcoming := reaches_upcoming hlog hmax hrecords hlimit h hupcoming

/--
Both consumers are reliable in every state of every run.
-/
theorem records_never_skipped (toText : Buffer → String) (log : List (Record (Option Buffer)))
    (maxRecordsPerBatch maxDeliveryAttempts : Nat) (hlog : IsLog log)
    (hrecords : 1 ≤ maxRecordsPerBatch) (hattempts : 1 ≤ maxDeliveryAttempts)
    : let request := CouponIssueRequestConsumer.consumer toText maxRecordsPerBatch
        maxDeliveryAttempts
      let result := CouponIssueResultConsumer.consumer toText maxRecordsPerBatch
        maxDeliveryAttempts
      (∀ s, (request.machine log).Run (fun _ _ => True) init s → Reliable request log s)
        ∧ ∀ s, (result.machine log).Run (fun _ _ => True) init s → Reliable result log s := by
  refine ⟨?_, ?_⟩
  . intro s hrun
    exact (run_inv hlog hattempts hrun init_inv).reliable hlog hattempts hrecords
  . intro s hrun
    exact (run_inv hlog hattempts hrun init_inv).reliable hlog hattempts hrecords

def toAscii (bytes : Buffer) : String :=
  String.ofList (bytes.map fun byte => Char.ofNat byte.toNat)

def threeRecords : List (Record (Option Buffer)) :=
  [
    ⟨0, none⟩,
    ⟨1, some [123]⟩,
    ⟨5, some ((Js.Json.stringify
      (CouponIssueRequestPayload.fields ⟨"a", .ofInt 1, .ofInt 10, .ofInt 20, "t"⟩)).toList.map
        fun c => UInt8.ofNat c.toNat)⟩
  ]

/--
A commit and a heartbeat throw, the client restarts, and the handler fails twice.
-/
theorem records_never_skipped_failing
    : ∃ s, ((CouponIssueRequestConsumer.consumer toAscii 1 2).machine threeRecords).Run
            (fun _ _ => True) init s
        ∧ s.committed = 6
        ∧ s.history.map (fun d => (d.record.offset, d.calls)) = [(0, 0), (0, 0), (1, 0), (5, 2)]
        ∧ Reliable (CouponIssueRequestConsumer.consumer toAscii 1 2) threeRecords s := by
  have hlog : IsLog threeRecords := by
    unfold IsLog
    decide
  obtain ⟨s, hrun, hs⟩ := Machine.exists_run_of_exec
    ((CouponIssueRequestConsumer.consumer toAscii 1 2).machine threeRecords)
    (fun _ _ => true) (fun _ _ => True) (fun _ _ _ => trivial)
    [.fetch 3, .check true false, .commit false true, .restart, .fetch 3, .check true false,
      .commit true false, .beat false, .check true false, .fetch 3, .check true false,
      .commit true false, .beat true, .fetch 3, .check true false, .handled false, .elapsed,
      .handled false, .commit true false]
    init
    (fun s => s.committed == 6
      && s.history.map (fun d => (d.record.offset, d.calls)) == [(0, 0), (0, 0), (1, 0), (5, 2)])
    (by decide +kernel)
  simp only [Bool.and_eq_true, beq_iff_eq] at hs
  exact ⟨s, hrun, hs.1, hs.2, (records_never_skipped toAscii threeRecords 1 2 hlog (by decide)
    (by decide)).1 s hrun⟩

end Kafka
