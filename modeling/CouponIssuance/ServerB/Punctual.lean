import CouponIssuance.ServerB.Lemmas.Deadline

/-!
This module contains the promise that every accepted application is concluded within
`cutoff * maxPublishAttempts`: the last visit, which gives up, comes behind that time.
-/

namespace ServerB

open Concurrency Js

section Run

variable {config : Config} {delay clock : Nat} {s : State}

/--
As long as server-c knows a result while a visit is left, no application is late.
-/
theorem concluded_in_time (hroom : config.cutoff + 2 * delay ≤ config.window)
    (hrun : (calls config).machine.Run (punctual config delay) (init clock) s)
    : InTime config s := by
  intro a ha haccepted howns hpending
  obtain ⟨-, h⟩ := onTime hroom hrun
  have hwritten := (Accept.isAccepted_spec haccepted).1
  obtain ⟨score, -, hdue⟩ := h.due a ha hwritten howns hpending
  have hbegun := hdue.begun
  have htime := hdue.room
  rcases h.recent with hrecent | ⟨w, hw, hrecent⟩
  . omega
  . have hstarted := hdue.started w hw
    omega

end Run

def cycle (k : Nat) (visit : List Act) : List Act :=
  .start (newSweep ((1000 * k : Int) - 10000)) :: .step (k + 1) .ok :: visit
    ++ [.env (.tick 1000)]

def emptyCycles (first count : Nat) : List Act :=
  (List.range' first count).flatMap fun k => cycle k []

def foundNull (i : Nat) : List Act :=
  [.step i .ok, .step i (.answer none)] ++ List.replicate 5 (.step i .ok)

def foundSuccess (i : Nat) : List Act :=
  [.step i .ok, .step i (.answer (some ⟨"AAAA-BBBB", "SUCCESS"⟩))]
    ++ List.replicate 4 (.step i .ok)

/-- Accepted one millisecond behind a cycle, and republished after 11 seconds -/
def visitedOnce : List Act :=
  [.start (newSweep (-10000)), .step 0 .ok, .env (.tick 1), .start (newAccept (application "a" 1))]
    ++ finish 1 ++ [.env (.tick 999)] ++ emptyCycles 1 10 ++ cycle 11 (foundNull 12)
    ++ emptyCycles 12 9

def isPunctual (config : Config) (delay : Nat) (s : State) (a : Act) : Bool :=
  scheduled config delay s a && prompt config delay s a && undisturbed s a

theorem punctual_of_isPunctual {config : Config} {delay : Nat} (s : State) (a : Act)
    (h : isPunctual config delay s a = true)
    : punctual config delay s a := by
  simpa [isPunctual, punctual, and_assoc] using h

theorem concluded_in_time_found
    : ∃ s, (calls defaults).machine.Run (punctual defaults 1000) (init 0) s
        ∧ s.shared.clock = 22000
        ∧ s.shared.redis.get (Pair.hashKey (application "a" 1).pair) .status
          = some IssuePendingStatus.success.text
        ∧ InTime defaults s := by
  obtain ⟨s, hrun, hs⟩ := Machine.exists_run_of_exec (calls defaults).machine
    (isPunctual defaults 1000) (punctual defaults 1000) punctual_of_isPunctual
    (visitedOnce ++ cycle 21 (foundSuccess 22)) (init 0)
    (fun s => s.shared.clock == 22000
      && s.shared.redis.get (Pair.hashKey (application "a" 1).pair) .status
        == some IssuePendingStatus.success.text)
    (by decide +kernel)
  rw [Bool.and_eq_true, beq_iff_eq, beq_iff_eq] at hs
  exact ⟨s, hrun, hs.1, hs.2, concluded_in_time (by decide) hrun⟩

def isLate (config : Config) (s : State) : Bool :=
  s.calls.any fun c =>
    match c with
    | .accept a =>
      a.isAccepted && a.generation == some (s.shared.redis.evictions a.pair.hashKey)
        && s.shared.redis.get a.pair.hashKey .status == some IssuePendingStatus.pending.text
        && decide (a.save.createdAt + config.window < s.shared.clock)
    | _ => false

theorem not_inTime_of_isLate {config : Config} {s : State} (h : isLate config s = true)
    : ¬InTime config s := by
  intro hin
  obtain ⟨c, hc, hlate⟩ := List.any_eq_true.mp h
  cases c with
  | accept a =>
    simp only [Bool.and_eq_true, beq_iff_eq, decide_eq_true_eq] at hlate
    obtain ⟨⟨⟨haccepted, howns⟩, hpending⟩, hlate⟩ := hlate
    have := hin a hc haccepted howns hpending
    omega
  | sweep w => contradiction
  | deliver d => contradiction

/--
All lookups answer `null`: the third visit, which gives up, comes with the cycle at 31 seconds.
-/
theorem concluded_late
    : ¬∀ (config : Config) (delay clock : Nat) (s : State),
        (calls config).machine.Run (fun s a => scheduled config delay s a = true) (init clock) s
          → InTime config s := by
  intro h
  obtain ⟨s, hrun, hs⟩ := Machine.exists_run_of_exec (calls defaults).machine
    (scheduled defaults 1000) (fun s a => scheduled defaults 1000 s a = true) (fun _ _ h => h)
    (visitedOnce ++ cycle 21 (foundNull 22) ++ emptyCycles 22 9) (init 0) (isLate defaults)
    (by decide +kernel)
  exact not_inTime_of_isLate hs (h defaults 1000 0 s hrun)

end ServerB
