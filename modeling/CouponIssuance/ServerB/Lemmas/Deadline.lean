import CouponIssuance.ServerB.Lemmas.Filled

/-!
This module contains the invariant behind the deadline of an application: the score of its member
says when a cycle finds it, and a cycle that has found it has it in hand until it is concluded or
listed again.
-/

namespace ServerB

open Concurrency Redis.Server Js

section InHand

variable {config : Config} {σ σ' : Shared} {w : Sweep} {pc : SweepPc} {x : Input} {p : Pair}

def SweepPc.current? : SweepPc → Option Pair
  | lookup pending _ => some pending.pair
  | markResult mark _ _ => some mark.pair
  | recordRepublish _ republish _ => some republish.pair
  | _ => none

def SweepPc.InHand (p : Pair) (pc : SweepPc) : Prop :=
  p ∈ pc.ahead ∨ pc.current? = some p

theorem SweepPc.inHand_visit {stale : List PendingIssue} (h : p ∈ stale.map (·.pair))
    : (visit stale).InHand p := by
  cases stale with
  | nil => contradiction
  | cons pending stale =>
    rcases List.mem_cons.mp h with rfl | h
    . exact .inr rfl
    . exact .inl h

theorem SweepPc.inHand_scan {members : List String} {result : List PendingIssue}
    (h : p ∈ result.map (·.pair) ++ members.filterMap parseMember)
    : (scan members result).InHand p := by
  induction members with
  | nil =>
    rw [List.filterMap_nil, List.append_nil] at h
    exact inHand_visit h
  | cons member members ih =>
    unfold scan
    split
    . next userId couponTypeId hparse =>
      rw [List.filterMap_cons_some hparse] at h
      exact .inl h
    . next hparse =>
      rw [List.filterMap_cons_none hparse] at h
      exact ih h

theorem SweepPc.isRunning_of_inHand (h : pc.InHand p) : pc.isRunning = true := by
  cases pc with
  | finished => rcases h with h | h <;> contradiction
  | crashed => rcases h with h | h <;> contradiction
  | _ => rfl

/-- A mark of a pair that stays `PENDING` has not begun. -/
theorem Mark.not_pending {m : Mark} {reply : Reply} (hstatus : m.status ≠ .pending)
    (hremoves : m.removes m.pair = false)
    (hexec : σ.redis.exec m.command = some (σ'.redis, reply))
    : σ'.redis.get m.pair.hashKey .status ≠ some IssuePendingStatus.pending.text := by
  have hpc : m.pc = .hsetStatus := by simpa [removes] using hremoves
  rw [Mark.command, hpc] at hexec
  have hget : σ'.redis.get m.pair.hashKey .status = some m.status.text := by
    rw [exec_hset hexec]
    exact get_setAll_of_mem _ (by simp) (by simp)
  rw [hget]
  intro heq
  exact hstatus (IssuePendingStatus.text_injective (Option.some.inj heq))

/--
A readable `PENDING` pair that a sweep has in hand stays there, until the sweep lists it again.
-/
theorem Sweep.Moves.inHand (hmoves : w.Moves config σ σ' x pc)
    (hcompletes : (Call.sweep w).completes config σ x = true) (hlocal : w.pc.Local)
    (hreadable : ∃ attempts, Readable σ.redis p attempts) (hremoves : w.pc.removes p = false)
    (hpending : σ'.redis.get p.hashKey .status = some IssuePendingStatus.pending.text)
    (h : w.pc.InHand p)
    : pc.InHand p
        ∨ ∃ pending r stale, w.pc = .recordRepublish pending r stale ∧ r.pc = .zadd
          ∧ r.pair = p := by
  obtain ⟨attempts, hreadable⟩ := hreadable
  unfold SweepPc.InHand at h
  cases hmoves with
  | listed hpc hredis =>
    rw [hpc] at h
    rcases h with h | h <;> contradiction
  | orphan userId couponTypeId member members result hpc hredis hnone =>
    rw [hpc] at h
    rcases h with h | h
    . rcases List.mem_append.mp h with h | h
      . exact .inl (.inl (List.mem_append_left _ h))
      rcases List.mem_cons.mp h with rfl | h
      . -- a readable pair has a hash, so that its member is no orphan
        exact absurd hnone hreadable.hashes
      . exact .inl (.inl (List.mem_append_right _ h))
    . contradiction
  | skipped userId couponTypeId member members result hash hpc hredis hhash hread =>
    rw [hpc] at h
    rcases h with h | h
    . left
      rcases List.mem_append.mp h with h | h
      . exact SweepPc.inHand_scan (List.mem_append_left _ h)
      rcases List.mem_cons.mp h with rfl | h
      . obtain ⟨_, hsome, -⟩ := readEntry_of_readable hhash hreadable
        exact absurd (hread.symm.trans hsome) (by simp)
      . exact SweepPc.inHand_scan (List.mem_append_right _ h)
    . contradiction
  | read userId couponTypeId member members result hash pending hpc hredis hhash hread =>
    rw [hpc] at h
    rcases h with h | h
    . left
      refine SweepPc.inHand_scan ?_
      rw [List.map_append, List.append_assoc, List.map_singleton, pair_of_readEntry hread]
      exact h
    . contradiction
  | removed member members result hpc hredis =>
    rw [hpc] at h
    rcases h with h | h
    . exact .inl (SweepPc.inHand_scan h)
    . contradiction
  | synced pending stale result hpc hredis =>
    rw [hpc] at h
    exact .inl h
  | republishes pending stale hpc hredis hlt =>
    rw [hpc] at h
    exact .inl h
  | givesUp pending stale hpc hredis hlt =>
    rw [hpc] at h
    exact .inl h
  | marked mark gaveUp stale reply hpc hexec =>
    rw [hpc] at h hlocal hremoves
    rcases h with h | h
    . left
      unfold afterMark
      split
      . exact .inl h
      . exact SweepPc.inHand_visit h
    . -- the first command of a mark writes the status, and the others come behind it
      obtain rfl := Option.some.inj h
      exact absurd hpending (Mark.not_pending hlocal hremoves hexec)
  | bumped pending republish stale reply hpc hexec =>
    rw [hpc] at h
    unfold afterRepublish
    cases hnext : republish.next with
    | some r =>
      rcases h with h | h
      . exact .inl (.inl h)
      . exact .inl (.inr (by rw [← h]; exact congrArg some (Republish.next_spec hnext).1))
    | none =>
      rcases h with h | h
      . left
        dsimp only
        split
        . exact SweepPc.inHand_visit h
        . exact .inl h
      . refine .inr ⟨pending, republish, stale, hpc, ?_, Option.some.inj h⟩
        unfold Republish.next at hnext
        split at hnext <;> first | contradiction | assumption
  | published x payload stale hpc hredis =>
    rw [hpc] at h
    rcases h with h | h
    . exact .inl (SweepPc.inHand_visit h)
    . contradiction
  | abandoned executed hpc hredis =>
    cases hw : w.pc <;> simp [hw, SweepPc.isSearching, Call.completes, Call.awaits] at hpc hcompletes
  | given x stale hpc hx hanswer hredis =>
    cases x with
    | ok =>
      obtain ⟨command, hawaits, hnone⟩ := hx rfl
      simp [Call.completes, hawaits, hnone] at hcompletes
    | answer result => exact absurd rfl (hanswer result)
    | fail executed =>
      cases hw : w.pc <;> simp [hw, SweepPc.rest?, Call.completes, Call.awaits] at hpc hcompletes
    | crash =>
      cases hw : w.pc <;> simp [hw, SweepPc.rest?, Call.completes, Call.awaits] at hpc hcompletes
  | crashed hredis hpc =>
    cases hw : w.pc <;> simp [hw, SweepPc.isRunning, Call.completes, Call.awaits] at hpc hcompletes

theorem Sweep.Moves.listed_of_completes (hmoves : w.Moves config σ σ' x pc)
    (hcompletes : (Call.sweep w).completes config σ x = true) (hpc : w.pc = .zrangebyscore)
    : pc = .scan (σ.redis.zset.range w.cutoffMs config.batchSize) [] := by
  cases hmoves with
  | listed _ _ => rfl
  | abandoned executed _ _ => simp [Call.completes, Call.awaits, hpc] at hcompletes
  | given x stale hrest _ _ _ =>
    rw [hpc] at hrest
    contradiction
  | crashed _ _ => simp [Call.completes, Call.awaits, hpc] at hcompletes
  | orphan _ _ _ _ _ h _ _ => cases hpc.symm.trans h
  | skipped _ _ _ _ _ _ h _ _ _ => cases hpc.symm.trans h
  | read _ _ _ _ _ _ _ h _ _ _ => cases hpc.symm.trans h
  | removed _ _ _ h _ => cases hpc.symm.trans h
  | synced _ _ _ h _ => cases hpc.symm.trans h
  | republishes _ _ h _ _ => cases hpc.symm.trans h
  | givesUp _ _ h _ _ => cases hpc.symm.trans h
  | marked _ _ _ _ h _ => cases hpc.symm.trans h
  | bumped _ _ _ _ h _ => cases hpc.symm.trans h
  | published _ _ _ h _ => cases hpc.symm.trans h

theorem Sweep.score_of_zadd {c' : Call} {pending : PendingIssue} {r : Republish}
    {stale : List PendingIssue}
    (hsteps : (Call.sweep w).Steps config σ σ' x c')
    (hcompletes : (Call.sweep w).completes config σ x = true)
    (hw : w.pc = .recordRepublish pending r stale) (hpc : r.pc = .zadd)
    : σ'.redis.zset.score r.pair.member = some (r.publishedAt : Int) := by
  rcases hsteps.of_completes hcompletes with ⟨command, reply, hawaits, hexec, -⟩
    | ⟨_, _, _, hawaits, -⟩ | ⟨_, hawaits, -⟩
  . simp only [Call.awaits, hw, Await.redis.injEq, Republish.command, hpc] at hawaits
    rw [← hawaits] at hexec
    rw [exec_zadd hexec]
    exact (Redis.ZSet.score_add ..).trans (if_pos rfl)
  . simp [Call.awaits, hw] at hawaits
  . simp [Call.awaits, hw] at hawaits

end InHand

/-- A cycle finds the member with this score in time, or has found it. -/
structure Due (config : Config) (delay since : Nat) (calls : List Call) (p : Pair) (limit score : Int)
    : Prop where
  begun : since ≤ score
  room : score + (config.cutoff + 2 * delay) ≤ limit
  started : ∀ w, .sweep w ∈ calls → w.startedAt config ≤ score + config.cutoff + delay
  found : (∀ w, .sweep w ∈ calls → w.pc ≠ .zrangebyscore
      → w.startedAt config ≤ score + config.cutoff)
    ∨ ∃ w, .sweep w ∈ calls ∧ w.pc.InHand p

section Due

variable {config : Config} {delay since : Nat} {s : State} {σ' : Shared} {c c' : Call} {w : Sweep}
variable {pc : SweepPc} {x : Input} {p : Pair} {limit score : Int} {i : Nat} {calls : List Call}

theorem Due.of_same {calls' : List Call} (h : Due config delay since calls p limit score)
    (hsame : ∀ w, .sweep w ∈ calls' ↔ .sweep w ∈ calls)
    : Due config delay since calls' p limit score where
  begun := h.begun
  room := h.room
  started v hv := h.started v ((hsame v).mp hv)
  found := by
    rcases h.found with hfound | ⟨v, hv, hhand⟩
    . exact .inl fun v hv => hfound v ((hsame v).mp hv)
    . exact .inr ⟨v, (hsame v).mpr hv, hhand⟩

theorem sweep_mem_set_iff {v : Sweep} (hi : s.calls[i]? = some c) (hc : c.isSweep = false)
    (hc' : c'.isSweep = false)
    : .sweep v ∈ s.calls.set i c' ↔ .sweep v ∈ s.calls := by
  constructor
  . intro h
    rcases Calls.mem_set_cases h with rfl | ⟨j, -, hj⟩
    . contradiction
    . exact List.mem_of_getElem? hj
  . intro h
    obtain ⟨j, hj⟩ := List.mem_iff_getElem?.mp h
    by_cases hji : j = i
    . subst hji
      cases hi.symm.trans hj
      contradiction
    . rw [← List.getElem?_set_ne (Ne.symm hji)] at hj
      exact List.mem_of_getElem? hj

theorem sweep_mem_set {v : Sweep} (h : .sweep v ∈ s.calls.set i (.sweep (w.goto pc)))
    : v = w.goto pc ∨ .sweep v ∈ s.calls := by
  rcases Calls.mem_set_cases h with heq | ⟨j, -, hj⟩
  . cases heq
    exact .inl rfl
  . exact .inr (List.mem_of_getElem? hj)

theorem Call.startedAt_of_start (hstart : (Call.sweep w).start config s.shared s.calls = true)
    : w.startedAt config = s.shared.clock := by
  have hcutoff := (Call.sweep_of_start hstart).2
  unfold Sweep.startedAt
  omega

theorem Due.start (h : Due config delay since s.calls p limit score)
    (hrecent : s.shared.clock ≤ since + delay
      ∨ ∃ v, .sweep v ∈ s.calls ∧ (s.shared.clock : Int) ≤ v.startedAt config + delay)
    (hstart : (Call.sweep w).start config s.shared s.calls = true)
    : Due config delay since (s.calls ++ [.sweep w]) p limit score := by
  have hpc := (Call.sweep_of_start hstart).1
  have hidle : ∀ v, .sweep v ∈ s.calls → v.pc.isRunning = false := fun v hv =>
    Call.not_isSweeping_of_start hstart (by simp [Call.isSweeping, hpc, SweepPc.isRunning]) hv
  have hclock := Call.startedAt_of_start hstart
  -- no cycle runs, so that none has the pair in hand and all have passed their listing
  have hfound : ∀ v, .sweep v ∈ s.calls → v.startedAt config ≤ score + config.cutoff := by
    intro v hv
    have hrunning := hidle v hv
    rcases h.found with hfound | ⟨u, hu, hhand⟩
    . refine hfound v hv fun heq => ?_
      rw [heq] at hrunning
      contradiction
    . have := SweepPc.isRunning_of_inHand hhand
      rw [hidle u hu] at this
      contradiction
  refine ⟨h.begun, h.room, ?_, .inl ?_⟩
  . intro v hv
    rcases List.mem_append.mp hv with hv | hv
    . exact h.started v hv
    . cases List.mem_singleton.mp hv
      rw [hclock]
      have hbegun := h.begun
      rcases hrecent with hrecent | ⟨u, hu, hrecent⟩
      . omega
      . have := hfound u hu
        omega
  . intro v hv hne
    rcases List.mem_append.mp hv with hv | hv
    . exact hfound v hv
    . cases List.mem_singleton.mp hv
      exact absurd hpc hne

theorem Due.step (h : Due config delay since s.calls p limit score) (hsolo : Solo s)
    (hi : s.calls[i]? = some (.sweep w)) (hmoves : w.Moves config s.shared σ' x pc)
    (hcompletes : (Call.sweep w).completes config s.shared x = true)
    (hrunning : w.pc.isRunning = true) (hdecimal : isDecimalPair p = true)
    (hscore : s.shared.redis.zset.score p.member = some score)
    (hbatch : (Call.sweep w).fitsBatch config s.shared = true)
    (hhand : w.pc.InHand p → pc.InHand p)
    : Due config delay since (s.calls.set i (.sweep (w.goto pc))) p limit score := by
  have hw := List.mem_of_getElem? hi
  have hmem : .sweep (w.goto pc) ∈ s.calls.set i (.sweep (w.goto pc)) :=
    List.mem_set (List.getElem?_eq_some_iff.mp hi).1 _
  refine ⟨h.begun, h.room, ?_, ?_⟩
  . intro v hv
    rcases sweep_mem_set hv with rfl | hv
    . exact h.started w hw
    . exact h.started v hv
  rcases h.found with hfound | ⟨v, hv, hinHand⟩
  . have hkeep : w.startedAt config ≤ score + config.cutoff
        → ∀ v, .sweep v ∈ s.calls.set i (.sweep (w.goto pc)) → v.pc ≠ .zrangebyscore
          → v.startedAt config ≤ score + config.cutoff := by
      intro hle v hv hne
      rcases sweep_mem_set hv with rfl | hv
      . exact hle
      . exact hfound v hv hne
    by_cases hpc : w.pc = .zrangebyscore
    . have hlisted := hmoves.listed_of_completes hcompletes hpc
      by_cases hstale : score ≤ w.cutoffMs
      . -- the batch has room for every stale member
        right
        refine ⟨_, hmem, ?_⟩
        rw [hlisted]
        refine SweepPc.inHand_scan ?_
        rw [List.map_nil, List.nil_append, List.mem_filterMap]
        refine ⟨p.member, ?_, (Pair.parseMember_member p).trans (if_pos hdecimal)⟩
        simp only [Call.fitsBatch, hpc, decide_eq_true_eq] at hbatch
        have hbegun := h.begun
        exact Redis.ZSet.mem_range_of_le _ hbatch hscore (by omega) hstale
      . refine .inl (hkeep ?_)
        unfold Sweep.startedAt
        omega
    . exact .inl (hkeep (hfound w hw hpc))
  . -- cycles do not overlap: the one with the pair in hand is the one that moves
    right
    obtain ⟨j, hj⟩ := List.mem_iff_getElem?.mp hv
    by_cases hji : j = i
    . subst hji
      cases hi.symm.trans hj
      exact ⟨_, hmem, hhand hinHand⟩
    . have hother := hsolo i j _ _ (Ne.symm hji) hi hj hrunning
      rw [Call.isSweeping, SweepPc.isRunning_of_inHand hinHand] at hother
      contradiction

theorem Due.of_le (hbegun : since ≤ score) (hroom : score + (config.cutoff + 2 * delay) ≤ limit)
    (hstarted : ∀ v, .sweep v ∈ calls → v.startedAt config ≤ score + config.cutoff)
    : Due config delay since calls p limit score where
  begun := hbegun
  room := hroom
  started v hv := by
    have := hstarted v hv
    omega
  found := .inl fun v hv _ => hstarted v hv

end Due

section Punctual

variable {config : Config} {delay : Nat} {startedAt : Int} {σ σ' : Shared} {w : Sweep} {pc : SweepPc}
variable {x : Input}

/-- What is listed again is not listed for an earlier time than its cycle, and with time left. -/
def SweepPc.Punctual (config : Config) (delay : Nat) (startedAt : Int) : SweepPc → Prop
  | recordRepublish pending republish _ =>
    startedAt ≤ republish.publishedAt
      ∧ ∃ createdAt, pending.createdAt = some createdAt
        ∧ republish.publishedAt + (config.cutoff + 2 * delay : Int) ≤ createdAt + config.window
  | _ => True

theorem SweepPc.punctual_visit (stale : List PendingIssue)
    : (visit stale).Punctual config delay startedAt := by
  rcases visit_cases stale with h | ⟨pending, rest, _, h⟩ <;> rw [h] <;> trivial

theorem SweepPc.punctual_scan (members : List String) (result : List PendingIssue)
    : (scan members result).Punctual config delay startedAt := by
  rcases scan_cases members result with h | ⟨_, _, _, _, _, h⟩
  . rw [h]
    exact punctual_visit result
  . rw [h]
    trivial

theorem Republish.publishedAt_next {r r' : Republish} (h : r.next = some r')
    : r'.publishedAt = r.publishedAt := by
  unfold next at h
  split at h
  . cases h; rfl
  . cases h; rfl
  . cases h; rfl
  . contradiction

theorem Sweep.Moves.punctual (hmoves : w.Moves config σ σ' x pc) (hpast : startedAt ≤ σ.clock)
    (hleaves : (Call.sweep w).leavesTime config delay σ.clock x = true)
    (h : w.pc.Punctual config delay startedAt)
    : pc.Punctual config delay startedAt := by
  cases hmoves with
  | republishes pending stale hpc hredis hlt =>
    simp only [Call.leavesTime, hpc, hlt, Bool.not_true, Bool.false_or] at hleaves
    obtain ⟨createdAt, hcreatedAt, hroom⟩ := (Option.any_eq_true _ _).mp hleaves
    exact ⟨hpast, createdAt, hcreatedAt, of_decide_eq_true hroom⟩
  | marked mark gaveUp stale reply hpc hexec =>
    unfold afterMark
    split
    . trivial
    . exact SweepPc.punctual_visit stale
  | bumped pending republish stale reply hpc hexec =>
    rw [hpc] at h
    unfold afterRepublish
    split
    . next hnext =>
      simp only [SweepPc.Punctual, Republish.publishedAt_next hnext]
      exact h
    . split
      . exact SweepPc.punctual_visit stale
      . trivial
  | _ => first | trivial | exact SweepPc.punctual_scan _ _ | exact SweepPc.punctual_visit _

end Punctual

/--
The clock, the cycles and the members of accepted applications.
-/
structure OnTime (config : Config) (delay since : Nat) (s : State) : Prop where
  begun : since ≤ s.shared.clock
  past : ∀ w, .sweep w ∈ s.calls → (since : Int) ≤ w.startedAt config
    ∧ w.startedAt config ≤ (s.shared.clock : Int)
  recent : s.shared.clock ≤ since + delay
    ∨ ∃ w, .sweep w ∈ s.calls ∧ (s.shared.clock : Int) ≤ w.startedAt config + delay
  latest : ∀ w v, .sweep w ∈ s.calls → w.pc.isRunning = true → .sweep v ∈ s.calls
    → v.startedAt config ≤ w.startedAt config
  created : ∀ a, .accept a ∈ s.calls → since ≤ a.save.createdAt
  saving : ∀ a q, .accept a ∈ s.calls → a.pc = .save q
    → s.shared.clock ≤ a.save.createdAt + config.cutoff
  punctual : ∀ w, .sweep w ∈ s.calls → w.pc.Punctual config delay (w.startedAt config)
  due : ∀ a, .accept a ∈ s.calls → writtenBy a.pc = true → a.Owns s.shared.redis
    → s.shared.redis.get a.pair.hashKey .status = some IssuePendingStatus.pending.text
    → ∃ score, s.shared.redis.zset.score a.pair.member = some score
      ∧ Due config delay since s.calls a.pair (a.save.createdAt + config.window) score

section OnTime

variable {config : Config} {delay since : Nat} {s : State} {σ' : Shared} {c c' : Call} {x : Input}
variable {i : Nat}

/-- A sweep behind a step is as old as the sweep before it. -/
theorem sweep_set_cases {v : Sweep} (hi : s.calls[i]? = some c)
    (hstep : c.step config s.shared x = some (σ', c')) (hv : .sweep v ∈ s.calls.set i c')
    : .sweep v ∈ s.calls
        ∨ ∃ w, c = .sweep w ∧ .sweep w ∈ s.calls ∧ v = w.goto v.pc
          ∧ w.pc.isRunning = true ∧ w.Moves config s.shared σ' x v.pc := by
  rcases Calls.mem_set_cases hv with rfl | ⟨j, -, hj⟩
  . right
    cases c with
    | accept a => cases Call.step_spec hstep
    | deliver d => cases Call.step_spec hstep
    | sweep w =>
      obtain ⟨pc, heq, hmoves⟩ := Sweep.moves_of_step hstep
      cases heq
      have hrunning := SweepPc.isRunning_of_awaits (Call.awaits_of_steps (Call.step_spec hstep))
      exact ⟨w, rfl, List.mem_of_getElem? hi, rfl, hrunning, hmoves⟩
  . exact .inl (List.mem_of_getElem? hj)

theorem exists_sweep_set {w : Sweep} (hi : s.calls[i]? = some c)
    (hstep : c.step config s.shared x = some (σ', c')) (hw : .sweep w ∈ s.calls)
    : ∃ v, .sweep v ∈ s.calls.set i c' ∧ v.startedAt config = w.startedAt config := by
  obtain ⟨j, hj⟩ := List.mem_iff_getElem?.mp hw
  by_cases hji : j = i
  . subst hji
    cases hi.symm.trans hj
    obtain ⟨pc, rfl, -⟩ := Sweep.moves_of_step hstep
    exact ⟨_, List.mem_set (List.getElem?_eq_some_iff.mp hj).1 _, rfl⟩
  . rw [← List.getElem?_set_ne (Ne.symm hji)] at hj
    exact ⟨w, List.mem_of_getElem? hj, rfl⟩

theorem OnTime.frame (h : OnTime config delay since s) (hi : s.calls[i]? = some c)
    (hstep : c.step config s.shared x = some (σ', c'))
    (hcompletes : c.completes config s.shared x = true)
    (hleaves : c.leavesTime config delay s.shared.clock x = true)
    (hdue : ∀ a, .accept a ∈ s.calls.set i c' → writtenBy a.pc = true → a.Owns σ'.redis
      → σ'.redis.get a.pair.hashKey .status = some IssuePendingStatus.pending.text
      → ∃ score, σ'.redis.zset.score a.pair.member = some score
        ∧ Due config delay since (s.calls.set i c') a.pair (a.save.createdAt + config.window) score)
    : OnTime config delay since ⟨σ', s.calls.set i c'⟩ := by
  have hclock := (Call.step_frame hstep).2
  have hsave : ∀ b, .accept b ∈ s.calls.set i c' → ∃ a, .accept a ∈ s.calls ∧ b.save = a.save
      ∧ ((∃ q, b.pc = .save q) → ∃ q, a.pc = .save q) := by
    intro b hb
    rcases Calls.mem_set_cases hb with rfl | ⟨j, -, hj⟩
    . obtain ⟨a, rfl, hmoves⟩ := Call.moves_of_accept hstep hcompletes
      refine ⟨a, List.mem_of_getElem? hi, hmoves.frame.1, ?_⟩
      rintro ⟨q, hq⟩
      cases hmoves with
      | claims hpc _ _ => exact ⟨_, hpc⟩
      | fills _ hpc _ => exact ⟨_, hpc⟩
      | expires hpc _ => exact ⟨_, hpc⟩
      | _ => cases hq
    . exact ⟨b, List.mem_of_getElem? hj, rfl, id⟩
  constructor
  . rw [hclock]
    exact h.begun
  . intro w hw
    rw [hclock]
    rcases sweep_set_cases hi hstep hw with hw | ⟨v, -, hv, heq, -⟩
    . exact h.past w hw
    . rw [heq]
      exact h.past v hv
  . rw [hclock]
    rcases h.recent with hrecent | ⟨w, hw, hrecent⟩
    . exact .inl hrecent
    . obtain ⟨v, hv, heq⟩ := exists_sweep_set hi hstep hw
      exact .inr ⟨v, hv, by rw [heq]; exact hrecent⟩
  . intro w v hw hrunning hv
    have hstarted : ∀ u, .sweep u ∈ s.calls → u.pc.isRunning = true
        → v.startedAt config ≤ u.startedAt config := by
      intro u hu hrun
      rcases sweep_set_cases hi hstep hv with hv | ⟨v', -, hv', heq, -⟩
      . exact h.latest u v hu hrun hv
      . rw [heq]
        exact h.latest u v' hu hrun hv'
    rcases sweep_set_cases hi hstep hw with hw | ⟨w', -, hw', heq, hrunning', -⟩
    . exact hstarted w hw hrunning
    . rw [heq]
      exact hstarted w' hw' hrunning'
  . intro b hb
    obtain ⟨a, ha, heq, -⟩ := hsave b hb
    rw [heq]
    exact h.created a ha
  . intro b q hb hq
    obtain ⟨a, ha, heq, hsaving⟩ := hsave b hb
    obtain ⟨q', hq'⟩ := hsaving ⟨q, hq⟩
    rw [hclock, heq]
    exact h.saving a q' ha hq'
  . intro w hw
    rcases sweep_set_cases hi hstep hw with hw | ⟨v, rfl, hv, heq, -, hmoves⟩
    . exact h.punctual w hw
    . rw [heq]
      exact hmoves.punctual (h.past v hv).2 hleaves (h.punctual v hv)
  . exact hdue

/-- The `PENDING` pair of a written application was `PENDING` before, and no call removes it. -/
theorem AcceptOutline.pending_before {b : Accept} {j : Nat} (houtline : AcceptOutline writtenBy s)
    (hi : s.calls[i]? = some c) (hj : s.calls[j]? = some (.accept b)) (hji : j ≠ i)
    (hwritten : writtenBy b.pc = true) (howns : b.Owns s.shared.redis)
    (hsteps : c.Steps config s.shared σ' x c')
    (hpending : σ'.redis.get b.pair.hashKey .status = some IssuePendingStatus.pending.text)
    : s.shared.redis.get b.pair.hashKey .status = some IssuePendingStatus.pending.text
        ∧ c.removes b.pair = false := by
  have hbefore : s.shared.redis.get b.pair.hashKey .status
      = some IssuePendingStatus.pending.text := by
    rcases hsteps.pending (houtline.calls i c hi) hpending with hbefore | ⟨a, rfl, -, hp, howns'⟩
    . exact hbefore
    . exact absurd howns (houtline.unique hi hj (Ne.symm hji) hp howns')
  exact ⟨hbefore, (houtline.apart i j _ _ (Ne.symm hji) hi hj).2.keeps b rfl hwritten howns hbefore⟩

theorem OnTime.due_own {a a' : Accept} (h : OnTime config delay since s)
    (hroom : config.cutoff + 2 * delay ≤ config.window) (houtline : AcceptOutline writtenBy s)
    (hi : s.calls[i]? = some (.accept a)) (hmoves : a.Moves s.shared.redis σ'.redis a')
    (hwritten : writtenBy a'.pc = true) (howns : a'.Owns s.shared.redis)
    (hpending : σ'.redis.get a'.pair.hashKey .status = some IssuePendingStatus.pending.text)
    : ∃ score, σ'.redis.zset.score a'.pair.member = some score
        ∧ Due config delay since (s.calls.set i (.accept a')) a'.pair
          (a'.save.createdAt + config.window) score := by
  have ha := List.mem_of_getElem? hi
  have hold : ∀ w, .sweep w ∈ s.calls.set i (.accept a') ↔ .sweep w ∈ s.calls :=
    fun w => sweep_mem_set_iff hi rfl rfl
  cases hmoves with
  | refused hpc hredis =>
    have hnone := ((houtline.calls i _ hi).2 a rfl).unclaimed hpc
    rw [Accept.Owns, hnone] at howns
    contradiction
  | claims hpc hnone hredis => contradiction
  | fills reply hpc hexec => contradiction
  | expires hpc hredis => contradiction
  | lists hpc hredis =>
    refine ⟨a.save.createdAt, ?_, .of_le ?_ ?_ ?_⟩
    . rw [hredis]
      exact (Redis.ZSet.score_add ..).trans (if_pos rfl)
    . exact Int.ofNat_le.mpr (h.created a ha)
    . dsimp only
      omega
    . intro v hv
      have hpast := (h.past v ((hold v).mp hv)).2
      have hsaving := h.saving a _ ha hpc
      omega
  | published hpc hredis =>
    rw [hredis] at hpending ⊢
    obtain ⟨score, hscore, hdue⟩ := h.due a ha (by rw [hpc]; rfl) howns hpending
    exact ⟨score, hscore, hdue.of_same hold⟩

/-- A sweep that lists a pair again does so with time left for its application. -/
theorem OnTime.relisted {b : Accept} {w : Sweep} {pending : PendingIssue} {r : Republish}
    {stale : List PendingIssue} (h : OnTime config delay since s) (hentered : Entered s)
    (hi : s.calls[i]? = some (.sweep w)) (hb : .accept b ∈ s.calls) (hwritten : writtenBy b.pc = true)
    (howns : b.Owns s.shared.redis) (hrunning : w.pc.isRunning = true)
    (hw : w.pc = .recordRepublish pending r stale) (hp : r.pair = b.pair) (pc : SweepPc)
    : Due config delay since (s.calls.set i (.sweep (w.goto pc))) b.pair
        (b.save.createdAt + config.window) r.publishedAt := by
  have hmem := List.mem_of_getElem? hi
  have hpunctual := h.punctual w hmem
  have hmade := hentered.held w hmem pending (by rw [hw]; exact List.mem_cons_self)
  have hpaired := hentered.paired w hmem
  rw [hw] at hpunctual hpaired
  obtain ⟨hstarted, createdAt, hcreatedAt, hroom⟩ := hpunctual
  obtain ⟨-, text, htext, hdate⟩ := hmade
  have hleft := (hentered.filled b hb (.inr (.inr hwritten)) howns).1.createdAt
  rw [← hpaired, hp] at htext
  -- the entry has been read from the hash that the application has filled
  cases htext.symm.trans hleft
  rw [Save.createdAtText, JsNumber.ofString_toString, hcreatedAt] at hdate
  obtain rfl := Date.eq_of_ofNumber hdate.symm
  refine .of_le ?_ hroom ?_
  . exact (h.past w hmem).1.trans hstarted
  . intro v hv
    have hle : v.startedAt config ≤ w.startedAt config := by
      rcases sweep_mem_set hv with rfl | hv
      . exact Int.le_refl _
      . exact h.latest w v hmem hrunning hv
    omega

theorem OnTime.due_other {b : Accept} {j : Nat} (h : OnTime config delay since s) (hsolo : Solo s)
    (houtline : AcceptOutline writtenBy s) (hentered : Entered s) (hi : s.calls[i]? = some c)
    (hj : s.calls[j]? = some (.accept b)) (hji : j ≠ i)
    (hstep : c.step config s.shared x = some (σ', c'))
    (hcompletes : c.completes config s.shared x = true)
    (hbatch : c.fitsBatch config s.shared = true)
    (hwritten : writtenBy b.pc = true) (howns : b.Owns s.shared.redis)
    (hpending : σ'.redis.get b.pair.hashKey .status = some IssuePendingStatus.pending.text)
    : ∃ score, σ'.redis.zset.score b.pair.member = some score
        ∧ Due config delay since (s.calls.set i c') b.pair (b.save.createdAt + config.window)
          score := by
  have hb := List.mem_of_getElem? hj
  have hsteps := Call.step_spec hstep
  obtain ⟨hbefore, hremoves⟩ := houtline.pending_before hi hj hji hwritten howns hsteps hpending
  obtain ⟨score, hscore, hdue⟩ := h.due b hb hwritten howns hbefore
  -- only a sweep that lists the pair again writes another score
  have hlisted : σ'.redis.zset.score b.pair.member = some score
      ∨ ∃ w pending r stale, c = .sweep w ∧ w.pc = .recordRepublish pending r stale
        ∧ r.pc = .zadd ∧ r.pair = b.pair := by
    rcases hsteps.redis with hredis | ⟨command, reply, hruns, hexec⟩
    . rw [hredis]
      exact .inl hscore
    rcases hruns.score_cases hexec hremoves with hsame | ⟨a, rfl, hpc, hp, -⟩
      | ⟨w, pending, r, stale, hc, hw, hpc, hp, -⟩
    . exact .inl (hsame.trans hscore)
    . -- two applications do not own one hash
      have howns' := hentered.owns a _ (List.mem_of_getElem? hi) hpc (by decide)
      exact absurd howns (houtline.unique hi hj (Ne.symm hji) hp howns')
    . exact .inr ⟨w, pending, r, stale, hc, hw, hpc, hp⟩
  cases hsweep : c.isSweep with
  | false =>
    have hsweep' : c'.isSweep = false := by
      cases c with
      | sweep w => contradiction
      | accept a => cases hsteps <;> rfl
      | deliver d => cases hsteps <;> rfl
    rcases hlisted with hlisted | ⟨w, _, _, _, rfl, -⟩
    . exact ⟨score, hlisted, hdue.of_same fun v => sweep_mem_set_iff hi hsweep hsweep'⟩
    . contradiction
  | true =>
    cases c with
    | accept a => contradiction
    | deliver d => contradiction
    | sweep w =>
      have hrunning := SweepPc.isRunning_of_awaits (Call.awaits_of_steps hsteps)
      obtain ⟨pc, rfl, hmoves⟩ := Sweep.moves_of_step hstep
      by_cases hrelists : ∃ pending r stale, w.pc = .recordRepublish pending r stale ∧ r.pc = .zadd
          ∧ r.pair = b.pair
      . obtain ⟨pending, r, stale, hw, hpc, hp⟩ := hrelists
        refine ⟨r.publishedAt, ?_, h.relisted hentered hi hb hwritten howns hrunning hw hp pc⟩
        rw [← hp]
        exact Sweep.score_of_zadd hsteps hcompletes hw hpc
      . have hlisted := hlisted.resolve_right fun ⟨_, pending, r, stale, heq, hw⟩ =>
          hrelists ⟨pending, r, stale, Call.sweep.inj heq ▸ hw⟩
        refine ⟨score, hlisted, hdue.step hsolo hi hmoves hcompletes hrunning
          (hentered.decimal b hb) hscore hbatch fun hhand => ?_⟩
        have hlocal := (houtline.calls i _ hi).1
        have hreadable := (hentered.filled b hb (.inr (.inr hwritten)) howns).2
        exact (hmoves.inHand hcompletes hlocal hreadable hremoves hpending hhand).resolve_right
          hrelists

theorem Call.createdAt_of_start {a : Accept}
    (h : (Call.accept a).start config s.shared s.calls = true)
    : a.save.createdAt = s.shared.clock := by
  unfold Call.start at h
  split at h
  . next heq =>
    cases heq
    rw [Bool.and_eq_true, beq_iff_eq] at h
    exact h.1
  . next heq => cases heq
  . next heq => cases heq
  . contradiction

theorem OnTime.start (h : OnTime config delay since s)
    (hstart : c.start config s.shared s.calls = true)
    : OnTime config delay since ⟨s.shared, s.calls ++ [c]⟩ where
  begun := h.begun
  past w hw := by
    rcases List.mem_append.mp hw with hw | hw
    . exact h.past w hw
    . rw [← List.mem_singleton.mp hw] at hstart
      rw [Call.startedAt_of_start hstart]
      exact ⟨Int.ofNat_le.mpr h.begun, Int.le_refl _⟩
  recent := h.recent.imp_right fun ⟨w, hw, hrecent⟩ => ⟨w, List.mem_append_left _ hw, hrecent⟩
  latest w v hw hrunning hv := by
    rcases List.mem_append.mp hw with hw | hw
    . rcases List.mem_append.mp hv with hv | hv
      . exact h.latest w v hw hrunning hv
      . rw [← List.mem_singleton.mp hv] at hstart
        have hsweeping : (Call.sweep v).isSweeping = true := by
          rw [Call.isSweeping, (Call.sweep_of_start hstart).1]
          rfl
        have := Call.not_isSweeping_of_start hstart hsweeping hw
        rw [Call.isSweeping, hrunning] at this
        contradiction
    . have hstarted : v.startedAt config ≤ s.shared.clock := by
        rcases List.mem_append.mp hv with hv | hv
        . exact (h.past v hv).2
        . rw [← List.mem_singleton.mp hv] at hstart
          exact Int.le_of_eq (Call.startedAt_of_start hstart)
      rw [← List.mem_singleton.mp hw] at hstart
      rw [Call.startedAt_of_start hstart]
      exact hstarted
  created a ha := by
    rcases List.mem_append.mp ha with ha | ha
    . exact h.created a ha
    . rw [← List.mem_singleton.mp ha] at hstart
      rw [Call.createdAt_of_start hstart]
      exact h.begun
  saving a q ha hpc := by
    rcases List.mem_append.mp ha with ha | ha
    . exact h.saving a q ha hpc
    . rw [← List.mem_singleton.mp ha] at hstart
      rw [Call.createdAt_of_start hstart]
      exact Nat.le_add_right _ _
  punctual w hw := by
    rcases List.mem_append.mp hw with hw | hw
    . exact h.punctual w hw
    . rw [← List.mem_singleton.mp hw] at hstart
      rw [(Call.sweep_of_start hstart).1]
      trivial
  due a ha hwritten howns hpending := by
    rcases List.mem_append.mp ha with ha | ha
    . obtain ⟨score, hscore, hdue⟩ := h.due a ha hwritten howns hpending
      refine ⟨score, hscore, ?_⟩
      cases c with
      | sweep w => exact hdue.start h.recent hstart
      | _ => exact hdue.of_same fun w => by simp
    . rw [← List.mem_singleton.mp ha] at hstart
      rw [(Call.generation_start hstart).2] at hwritten
      contradiction

theorem OnTime.tick {ms : Nat} (h : OnTime config delay since s)
    (hscheduled : scheduled config delay s (.env (.tick ms)) = true)
    (hprompt : prompt config delay s (.env (.tick ms)) = true)
    : OnTime config delay since ⟨{ s.shared with clock := s.shared.clock + ms }, s.calls⟩ where
  begun := Nat.le_add_right_of_le h.begun
  past w hw := by
    have hpast := h.past w hw
    dsimp only
    omega
  recent := by
    right
    obtain ⟨t, ht, hle⟩ := List.any_eq_true.mp hscheduled
    obtain ⟨c, hc, hstarted⟩ := List.mem_filterMap.mp ht
    cases c with
    | sweep w =>
      cases hstarted
      exact ⟨w, hc, by simpa using hle⟩
    | _ => contradiction
  latest := h.latest
  created := h.created
  saving a q ha hpc := by
    have hsaves := List.all_eq_true.mp hprompt _ ha
    simpa [Call.savesWithin, hpc] using hsaves
  punctual := h.punctual
  due := h.due

theorem OnTime.evict {redis : Redis} {key : String} (h : OnTime config delay since s)
    (hevict : s.shared.redis.evict key = some redis)
    : OnTime config delay since ⟨{ s.shared with redis := redis }, s.calls⟩ where
  begun := h.begun
  past := h.past
  recent := h.recent
  latest := h.latest
  created := h.created
  saving := h.saving
  punctual := h.punctual
  due a ha hwritten howns hpending := by
    obtain ⟨-, hget, -, hzset, hevictions⟩ := evict_spec _ hevict
    unfold Accept.Owns at howns
    dsimp only at howns hpending ⊢
    by_cases hkey : a.pair.hashKey = key
    . rw [hget, if_pos hkey] at hpending
      contradiction
    . rw [hget, if_neg hkey] at hpending
      rw [hevictions, if_neg hkey] at howns
      rw [hzset]
      exact h.due a ha hwritten howns hpending

theorem OnTime.step (h : OnTime config delay since s)
    (hroom : config.cutoff + 2 * delay ≤ config.window) (hsolo : Solo s)
    (houtline : AcceptOutline writtenBy s) (hentered : Entered s) (hi : s.calls[i]? = some c)
    (hstep : c.step config s.shared x = some (σ', c'))
    (hcompletes : c.completes config s.shared x = true)
    (hbatch : c.fitsBatch config s.shared = true)
    (hleaves : c.leavesTime config delay s.shared.clock x = true)
    : OnTime config delay since ⟨σ', s.calls.set i c'⟩ := by
  refine h.frame hi hstep hcompletes hleaves ?_
  intro b hb hwritten howns hpending
  have howns := (Call.step_spec hstep).owns.mp howns
  rcases Calls.mem_set_cases hb with rfl | ⟨j, hji, hj⟩
  . obtain ⟨a, rfl, hmoves⟩ := Call.moves_of_accept hstep hcompletes
    exact h.due_own hroom houtline hi hmoves hwritten howns hpending
  . exact h.due_other hsolo houtline hentered hi hj hji hstep hcompletes hbatch hwritten howns
      hpending

/-- Which runs keep the deadline -/
def punctual (config : Config) (delay : Nat) (s : State) (a : Act) : Prop :=
  scheduled config delay s a = true ∧ prompt config delay s a = true ∧ undisturbed s a = true

theorem onTime {clock : Nat} (hroom : config.cutoff + 2 * delay ≤ config.window)
    (hrun : (calls config).machine.Run (punctual config delay) (init clock) s)
    : Entered s ∧ OnTime config delay clock s := by
  refine hrun.invariant_of (K := fun s => AcceptOutline writtenBy s ∧ Solo s)
    (I := fun s => Entered s ∧ OnTime config delay clock s) ?_ ?_ ?_
  . intro u hu
    refine ⟨acceptOutline (covers_undisturbed fun _ _ h => h.2.2) hu, ?_⟩
    exact (solo_of_not_isSweeping (s := init clock) (by simp [init])).run hu
  . have hnone : ∀ c, c ∉ (init clock).calls := fun _ => List.not_mem_nil
    constructor
    . exact ⟨fun _ _ => rfl, fun _ ha => absurd ha (hnone _), fun _ _ ha => absurd ha (hnone _),
        fun _ ha => absurd ha (hnone _), fun _ ha => absurd ha (hnone _),
        fun _ hw => absurd hw (hnone _), fun _ hw => absurd hw (hnone _)⟩
    . exact ⟨Nat.le_refl _, fun _ hw => absurd hw (hnone _), .inl (Nat.le_add_right _ _),
        fun _ _ hw => absurd hw (hnone _), fun _ ha => absurd ha (hnone _),
        fun _ _ ha => absurd ha (hnone _), fun _ hw => absurd hw (hnone _),
        fun _ ha => absurd ha (hnone _)⟩
  . rintro u a v ⟨houtline, hsolo⟩ - ⟨hentered, h⟩ ⟨hscheduled, hprompt, -⟩ hnext
    cases a with
    | start c =>
      obtain ⟨hstart, rfl⟩ := Calls.next_start hnext
      exact ⟨hentered.start hstart hprompt, h.start hstart⟩
    | step i x =>
      obtain ⟨c, σ', c', hi, -, hstep, rfl⟩ := Calls.next_step hnext
      simp only [scheduled, prompt, hi, Option.all_some, Bool.and_eq_true] at hscheduled hprompt
      exact ⟨hentered.step houtline hi hstep hscheduled.1,
        h.step hroom hsolo houtline hentered hi hstep hscheduled.1 hscheduled.2 hprompt⟩
    | env e =>
      obtain ⟨shared, henv, rfl⟩ := Calls.next_env (C := calls config) hnext
      cases e with
      | tick ms =>
        obtain rfl := env_tick henv
        exact ⟨⟨hentered.fresh, hentered.decimal, hentered.owns, hentered.filling,
          hentered.filled, hentered.held, hentered.paired⟩, h.tick hscheduled hprompt⟩
      | expire userId couponTypeId =>
        obtain ⟨redis, hevict, rfl⟩ := env_expire henv
        refine ⟨hentered.evict (q := (userId, couponTypeId)) houtline hevict ?_, h.evict hevict⟩
        simpa [prompt] using hprompt

end OnTime

end ServerB
