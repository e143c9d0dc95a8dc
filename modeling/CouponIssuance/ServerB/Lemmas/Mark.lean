import CouponIssuance.ServerB.Lemmas.Local

/-!
This module contains `markResult` as a whole: the commands that are left in each of its awaits, and
what Redis holds when they run without any other command in between.
-/

namespace ServerB

open Concurrency Redis.Server

namespace Mark

def closing (m : Mark) : List Command :=
  [{ m with pc := .expire }.command, { m with pc := .zrem }.command]

def commands (m : Mark) : List Command :=
  match m.pc with
  | .hsetStatus =>
    match m.code with
    | some code => m.command :: { m with pc := .hsetCode code }.command :: m.closing
    | none => m.command :: m.closing
  | .hsetCode _ => m.command :: m.closing
  | .expire => m.closing
  | .zrem => [m.command]

def run (redis : Redis) (m : Mark) : Redis :=
  m.commands.foldl execute redis

variable {m m' : Mark} {redis : Redis}

theorem commands_next (h : m.next = some m') : m.commands = m.command :: m'.commands := by
  obtain ⟨userId, couponTypeId, status, code, pc⟩ := m
  cases pc with
  | hsetStatus => cases code <;> cases h <;> rfl
  | hsetCode code => cases h; rfl
  | expire => cases h; rfl
  | zrem => contradiction

theorem commands_last (h : m.next = none) : m.commands = [m.command] := by
  obtain ⟨userId, couponTypeId, status, code, pc⟩ := m
  cases pc with
  | hsetStatus => cases code <;> contradiction
  | hsetCode code => contradiction
  | expire => contradiction
  | zrem => rfl

theorem code_of_next (h : m.next = some m') {code : String}
    (hcode : m'.code = some code ∨ m'.pc = .hsetCode code)
    : m.code = some code := by
  obtain ⟨userId, couponTypeId, status, code', pc⟩ := m
  cases pc with
  | hsetStatus =>
    cases code' with
    | none => cases h; simp at hcode
    | some code' => cases h; simpa using hcode
  | hsetCode code' => cases h; simpa using hcode
  | expire => cases h; simpa using hcode
  | zrem => contradiction

theorem exec_command (m : Mark) (redis : Redis)
    : ∃ reply, redis.exec m.command = some (redis.execute m.command, reply) := by
  unfold command execute
  cases m.pc <;> exact ⟨_, rfl⟩

theorem run_spec (redis : Redis) (hpc : m.pc = .hsetStatus)
    : (m.run redis).get m.pair.hashKey .status = some m.status.text
        ∧ (m.run redis).get m.pair.hashKey .code
            = m.code.or (redis.get m.pair.hashKey .code)
        ∧ (m.run redis).zset = redis.zset.remove m.pair.member := by
  change (m.run redis).get m.hashKey .status = _ ∧ (m.run redis).get m.hashKey .code
    = m.code.or (redis.get m.hashKey .code) ∧ _
  let marked := redis.set m.hashKey .status m.status.text
  unfold run commands
  rw [hpc]
  cases hcode : m.code with
  | none =>
    simp only [closing, List.foldl_cons, List.foldl_nil, command, hpc, execute, exec, setAll]
    refine ⟨?_, ?_, rfl⟩
    . change (marked.setTtl m.hashKey).get m.hashKey .status = _
      simp [marked]
    . change (marked.setTtl m.hashKey).get m.hashKey .code = _
      simp [marked]
  | some code =>
    simp only [closing, List.foldl_cons, List.foldl_nil, command, hpc, execute, exec, setAll]
    refine ⟨?_, ?_, rfl⟩
    . change ((marked.set m.hashKey .code code).setTtl m.hashKey).get m.hashKey .status = _
      simp [marked]
    . change ((marked.set m.hashKey .code code).setTtl m.hashKey).get m.hashKey .code = _
      simp

end Mark

section Completion

variable {c : Call} {m : Mark}

theorem Call.awaits_of_mark (config : Config) (h : c.mark? = some m)
    : c.awaits config = .redis m.command := by
  unfold mark? at h
  split at h
  . split at h
    . next hpc => cases h; simp [awaits, hpc]
    . contradiction
  . split at h
    . next hpc => cases h; simp [awaits, hpc]
    . contradiction
  . contradiction

theorem SweepPc.mark_visit (s : Sweep) (stale : List PendingIssue)
    : (Call.sweep (s.goto (.visit stale))).mark? = none := by
  unfold Call.mark? Sweep.goto
  rcases visit_cases stale with h | ⟨pending, rest, _, h⟩ <;> rw [h]

theorem SweepPc.mark_scan (s : Sweep) (members : List String) (result : List PendingIssue)
    : (Call.sweep (s.goto (.scan members result))).mark? = none := by
  rcases scan_cases members result with h | ⟨_, _, _, _, _, h⟩
  . rw [h]
    exact mark_visit s result
  . rw [h]
    rfl

theorem Call.mark_resume (h : c.mark? = some m) (evictions : String → Nat) (reply : Reply)
    : (c.resume evictions reply).mark? = m.next := by
  unfold mark? at h
  split at h
  . next s =>
    split at h
    . next mark gaveUp stale hpc =>
      cases h
      unfold Call.resume Sweep.resume
      simp only [hpc]
      split
      . next hnext => rw [hnext]; rfl
      . next hnext => rw [hnext]; exact SweepPc.mark_visit s stale
    . contradiction
  . next d =>
    split at h
    . next payload attempt mark hpc =>
      cases h
      unfold Call.resume Deliver.resume
      simp only [hpc]
      split
      . next hnext => rw [hnext]; rfl
      . next hnext => rw [hnext]; rfl
    . contradiction
  . contradiction

theorem Call.step_mark (config : Config) (σ : Shared) (h : c.mark? = some m)
    : ∃ σ' c', c.step config σ .ok = some (σ', c')
        ∧ σ'.redis = σ.redis.execute m.command
        ∧ c'.mark? = m.next := by
  obtain ⟨reply, hexec⟩ := m.exec_command σ.redis
  let c' := c.resume σ.redis.evictions reply
  refine ⟨(proceed { σ with redis := σ.redis.execute m.command } c').1, c', ?_, rfl,
    mark_resume h σ.redis.evictions reply⟩
  simp only [step, awaits_of_mark config h, hexec]
  rfl

theorem Mark.completes (config : Config) {s : State} {i : Nat} (hi : s.calls[i]? = some c)
    (hm : c.mark? = some m)
    : ∃ t c', (calls config).machine.Run (fun _ a => a = .step i .ok) s t
        ∧ t.shared.redis = m.run s.shared.redis
        ∧ t.calls[i]? = some c' ∧ c'.mark? = none := by
  unfold run
  induction hcommands : m.commands generalizing s c m with
  | nil =>
    cases hnext : m.next with
    | none => rw [commands_last hnext] at hcommands; contradiction
    | some _ => rw [commands_next hnext] at hcommands; contradiction
  | cons command commands ih =>
    obtain ⟨σ', c', hstep, hredis, hm'⟩ := Call.step_mark config s.shared hm
    have hi' : (s.calls.set i c')[i]? = some c' :=
      List.getElem?_set_self (List.getElem?_eq_some_iff.mp hi).1
    have hmachine : (calls config).machine.step s (.step i .ok) = some ⟨σ', s.calls.set i c'⟩ := by
      simp [Calls.machine, Calls.next, hi, calls, hstep]
    have hrun : (calls config).machine.Run (fun _ a => a = .step i .ok) s ⟨σ', s.calls.set i c'⟩ :=
      Machine.Run.single rfl hmachine
    cases hnext : m.next with
    | none =>
      rw [commands_last hnext, List.cons.injEq] at hcommands
      obtain ⟨rfl, rfl⟩ := hcommands
      exact ⟨_, c', hrun, hredis, hi', hm'.trans hnext⟩
    | some m' =>
      rw [commands_next hnext, List.cons.injEq] at hcommands
      obtain ⟨rfl, htail⟩ := hcommands
      obtain ⟨t, c'', hrun', hredis', hi'', hm''⟩ :=
        ih (s := ⟨σ', s.calls.set i c'⟩) hi' (hm'.trans hnext) htail
      refine ⟨t, c'', hrun.trans hrun', ?_, hi'', hm''⟩
      rw [hredis', hredis]
      rfl

end Completion

namespace Deliver

def afterMark (payload : CouponIssueResultPayload) (n : Nat) (mark : Mark) : DeliverPc :=
  match mark.next with
  | some mark => .markResult payload n mark
  | none => .returned

inductive Moves (config : Config) (σ σ' : Shared) (d : Deliver) : Input → DeliverPc → Prop where
  | marked (payload : CouponIssueResultPayload) (n : Nat) (mark : Mark) (reply : Reply)
      (hpc : d.pc = .markResult payload n mark)
      (hexec : σ.redis.exec mark.command = some (σ'.redis, reply))
      : Moves config σ σ' d .ok (afterMark payload n mark)
  /-- The attempt fails, and the message is delivered again. -/
  | again (executed : Bool) (payload : CouponIssueResultPayload) (n : Nat) (mark : Mark)
      (hpc : d.pc = .markResult payload n mark)
      : Moves config σ σ' d (.fail executed) (attempt config payload (n + 1))
  | crashed : Moves config σ σ' d .crash .crashed

section Step

variable {config : Config} {σ σ' : Shared} {d : Deliver} {c' : Call} {x : Input}

theorem attempt_cases (config : Config) (payload : CouponIssueResultPayload) (n : Nat)
    : attempt config payload n = .markResult payload n (mark payload)
        ∨ attempt config payload n = .returned := by
  unfold attempt
  split
  . exact Or.inl rfl
  . exact Or.inr rfl

theorem exists_of_awaits {command : Command}
    (h : (Call.deliver d).awaits config = .redis command)
    : ∃ payload n m, d.pc = .markResult payload n m ∧ command = m.command := by
  simp only [Call.awaits] at h
  split at h
  . next payload n m hpc => exact ⟨payload, n, m, hpc, (Await.redis.inj h).symm⟩
  . contradiction

theorem moves_of_step (h : (Call.deliver d).step config σ x = some (σ', c'))
    : ∃ pc, c' = .deliver { d with pc := pc } ∧ d.Moves config σ σ' x pc := by
  have hawaits : ∀ await, (Call.deliver d).awaits config = await
      → await = .nothing ∨ ∃ command, await = .redis command := by
    rintro _ rfl
    simp only [Call.awaits]
    split
    . exact Or.inr ⟨_, rfl⟩
    . exact Or.inl rfl
  have hreject : ∀ {payload n m}, d.pc = .markResult payload n m
      → (Call.deliver d).reject config
        = .deliver { d with pc := attempt config payload (n + 1) } := by
    intro payload n m hpc
    simp [Call.reject, reject, hpc]
  cases Call.step_spec h with
  | replied command reply hredis hexec =>
    obtain ⟨payload, n, m, hpc, rfl⟩ := exists_of_awaits hredis
    refine ⟨afterMark payload n m, ?_, .marked payload n m reply hpc hexec⟩
    simp only [Call.resume, resume, hpc, afterMark]
    cases m.next <;> rfl
  | lost command reply hredis hexec =>
    obtain ⟨payload, n, m, hpc, rfl⟩ := exists_of_awaits hredis
    exact ⟨_, hreject hpc, .again true payload n m hpc⟩
  | failed x command hredis hsame hx =>
    obtain ⟨payload, n, m, hpc, rfl⟩ := exists_of_awaits hredis
    obtain ⟨reply, hexec⟩ := m.exec_command σ.redis
    rcases hx with rfl | ⟨hnone, _⟩
    . exact ⟨_, hreject hpc, .again false payload n m hpc⟩
    . rw [hexec] at hnone
      contradiction
  | published x payload hpublish hsame =>
    rcases hawaits _ hpublish with hnothing | ⟨_, hredis⟩ <;> contradiction
  | answered userId couponTypeId result hlookup hsame =>
    rcases hawaits _ hlookup with hnothing | ⟨_, hredis⟩ <;> contradiction
  | unanswered executed userId couponTypeId hlookup hsame =>
    rcases hawaits _ hlookup with hnothing | ⟨_, hredis⟩ <;> contradiction
  | crashed hne hsame => exact ⟨.crashed, rfl, .crashed⟩

end Step

section Start

variable {config : Config} {value : String}

theorem parse_stringify (p : CouponIssueResultPayload) (huser : p.userId.isInteger = true)
    (hevent : p.eventId.isInteger = true) (htype : p.couponTypeId.isInteger = true)
    (hcode : p.status = .success → p.couponCode ≠ none)
    : parse (Js.Json.stringify p.fields) = some p := by
  obtain ⟨json, hparse, hassert, hofJs⟩ := p.parse_stringify huser hevent htype hcode
  unfold parse
  rw [hparse]
  dsimp only
  rw [hassert]
  exact hofJs

theorem start_of_parse {p : CouponIssueResultPayload} (hparse : parse value = some p)
    (hconfig : 1 ≤ config.maxDeliveryAttempts)
    : start config value = .markResult p 1 (mark p) := by
  unfold start
  rw [hparse]
  exact if_pos hconfig

theorem exec_start {allowed : State → Act → Bool} {pc : DeliverPc} (hpc : start config value = pc)
    (s : State) (as : List Act)
    : (calls config).machine.exec allowed s (.start (.deliver ⟨value, pc⟩) :: as)
        = if allowed s (.start (.deliver ⟨value, pc⟩)) then
            (calls config).machine.exec allowed ⟨s.shared, s.calls ++ [.deliver ⟨value, pc⟩]⟩ as
          else
            none := by
  simp only [Machine.exec, Calls.machine, Calls.next, calls, Call.start, hpc, beq_self_eq_true,
    if_true, Option.bind_some]

end Start

end Deliver

end ServerB
