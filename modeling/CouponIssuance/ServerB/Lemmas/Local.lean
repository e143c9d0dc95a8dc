import CouponIssuance.ServerB.Lemmas.Steps

/-!
This module contains what the flows of server-b keep about their own variables, and when a flow
begins to remove the member of a pair.
-/

namespace ServerB

open Concurrency Redis.Server

section Marks

variable {config : Config} {σ σ' : Shared} {c c' : Call} {x : Input}

theorem IssuePendingStatus.text_injective {a b : IssuePendingStatus} (h : a.text = b.text) : a = b := by
  cases a <;> cases b <;> first | rfl | exact absurd h (by decide)

theorem Sweep.mapStatus_ne_pending (status : String) : mapStatus status ≠ .pending := by
  unfold mapStatus
  split
  . simp
  . split
    . simp
    . split <;> simp

theorem Deliver.mapStatus_ne_pending (status : CouponIssueResultStatus)
    : mapStatus status ≠ .pending := by
  cases status <;> simp [mapStatus]

def SweepPc.Local : SweepPc → Prop
  | .markResult mark _ _ => mark.status ≠ .pending
  | .hgetall userId couponTypeId member _ _ => parseMember member = some (userId, couponTypeId)
  | _ => True

def DeliverPc.Local : DeliverPc → Prop
  | .markResult _ _ mark => mark.status ≠ .pending
  | _ => True

def Call.Local : Call → Prop
  | .accept _ => True
  | .sweep s => s.pc.Local
  | .deliver d => d.pc.Local

theorem Mark.next_spec {m m' : Mark} (h : m.next = some m')
    : m'.pair = m.pair ∧ m'.status = m.status ∧ m'.pc ≠ .hsetStatus := by
  unfold next at h
  split at h
  . split at h
    . cases h; exact ⟨rfl, rfl, by simp⟩
    . cases h; exact ⟨rfl, rfl, by simp⟩
  . cases h; exact ⟨rfl, rfl, by simp⟩
  . cases h; exact ⟨rfl, rfl, by simp⟩
  . contradiction

theorem SweepPc.visit_cases (stale : List PendingIssue)
    : visit stale = .finished ∨ ∃ pending rest, stale = pending :: rest
        ∧ visit stale = .lookup pending rest := by
  cases stale with
  | nil => exact Or.inl rfl
  | cons pending rest => exact Or.inr ⟨pending, rest, rfl, rfl⟩

theorem SweepPc.scan_cases (members : List String) (result : List PendingIssue)
    : scan members result = visit result
        ∨ ∃ userId couponTypeId member rest,
            parseMember member = some (userId, couponTypeId)
              ∧ scan members result = .hgetall userId couponTypeId member rest result := by
  induction members with
  | nil => exact Or.inl rfl
  | cons member members ih =>
    unfold scan
    split
    . next userId couponTypeId hparse => exact Or.inr ⟨_, _, _, _, hparse, rfl⟩
    . exact ih

theorem SweepPc.local_visit (stale : List PendingIssue) : (visit stale).Local := by
  rcases visit_cases stale with h | ⟨pending, rest, _, h⟩ <;> rw [h] <;> trivial

theorem SweepPc.local_scan (members : List String) (result : List PendingIssue)
    : (scan members result).Local := by
  rcases scan_cases members result with h | ⟨_, _, _, _, hparse, h⟩
  . rw [h]
    exact local_visit result
  . rw [h]
    exact hparse

theorem Sweep.local_resume {s : Sweep} (h : s.pc.Local) (reply : Reply)
    : (s.resume reply).pc.Local := by
  unfold resume
  split
  . split
    . exact SweepPc.local_scan _ _
    . exact h
  . split
    . trivial
    . split <;> exact SweepPc.local_scan _ _
    . exact h
  . exact SweepPc.local_scan _ _
  . next mark gaveUp stale hpc =>
    rw [hpc] at h
    split
    . next m hm =>
      change m.status ≠ .pending
      rw [(Mark.next_spec hm).2.1]
      exact h
    . exact SweepPc.local_visit _
  . split
    . trivial
    . split
      . exact SweepPc.local_visit _
      . trivial
  . exact h

theorem Sweep.local_answered {s : Sweep} (h : s.pc.Local) (now : Nat)
    (result : Option UserCouponLookupResult)
    : (s.answered config now result).pc.Local := by
  unfold answered
  split
  . split
    . exact Sweep.mapStatus_ne_pending _
    . split
      . trivial
      . change IssuePendingStatus.failed ≠ .pending
        decide
  . exact h

theorem Sweep.local_reject {s : Sweep} (h : s.pc.Local) : s.reject.pc.Local := by
  unfold reject
  split
  . trivial
  . trivial
  . trivial
  . exact SweepPc.local_visit _
  . exact SweepPc.local_visit _
  . exact SweepPc.local_visit _
  . exact SweepPc.local_visit _
  . exact h

theorem Deliver.local_attempt (payload : CouponIssueResultPayload) (n : Nat)
    : (attempt config payload n).Local := by
  unfold attempt
  split
  . exact Deliver.mapStatus_ne_pending _
  . trivial

theorem Deliver.local_start (value : String) : (start config value).Local := by
  unfold start
  split
  . trivial
  . exact local_attempt _ _

theorem Deliver.local_resume {d : Deliver} (h : d.pc.Local) : d.resume.pc.Local := by
  unfold resume
  split
  . next payload n mark hpc =>
    rw [hpc] at h
    split
    . next m hm =>
      change m.status ≠ .pending
      rw [(Mark.next_spec hm).2.1]
      exact h
    . trivial
  . exact h

theorem Call.Local.reject (h : c.Local) : (c.reject config).Local := by
  cases c with
  | accept a => trivial
  | sweep s => exact Sweep.local_reject h
  | deliver d =>
    change (d.reject config).pc.Local
    unfold Deliver.reject
    split
    . exact Deliver.local_attempt _ _
    . exact h

theorem Call.Local.steps (h : c.Local) (hsteps : c.Steps config σ σ' x c') : c'.Local := by
  cases hsteps with
  | replied command reply _ _ =>
    cases c with
    | accept a => trivial
    | sweep s => exact Sweep.local_resume h reply
    | deliver d => exact Deliver.local_resume h
  | lost command reply _ _ => exact h.reject
  | failed x command _ _ _ => exact h.reject
  | published x payload _ _ =>
    cases c with
    | accept a => trivial
    | sweep s => exact Sweep.local_reject h
    | deliver d => exact h
  | answered userId couponTypeId result _ _ =>
    cases c with
    | accept a => trivial
    | sweep s => exact Sweep.local_answered h _ _
    | deliver d => exact h
  | unanswered executed userId couponTypeId _ _ => exact h.reject
  | crashed _ _ => cases c <;> trivial

theorem Call.sweep_of_start {calls : List Call} {w : Sweep}
    (h : (Call.sweep w).start config σ calls = true)
    : w.pc = .zrangebyscore ∧ w.cutoffMs = σ.clock - config.cutoff := by
  unfold Call.start at h
  split at h
  . contradiction
  . next heq =>
    cases heq
    rw [Bool.and_eq_true, beq_iff_eq] at h
    exact ⟨rfl, h.1⟩
  . contradiction
  . contradiction

theorem Call.local_start {calls : List Call} (h : c.start config σ calls = true) : c.Local := by
  unfold Call.start at h
  split at h
  . trivial
  . trivial
  . next value pc =>
    rw [beq_iff_eq] at h
    rw [h]
    exact Deliver.local_start value
  . contradiction

end Marks

section Removal

variable {config : Config} {σ σ' : Shared} {c c' : Call} {x : Input} {p : Pair}

theorem SweepPc.removes_visit (stale : List PendingIssue) : (visit stale).removes p = false := by
  rcases visit_cases stale with h | ⟨pending, rest, _, h⟩ <;> rw [h] <;> rfl

theorem SweepPc.removes_scan (members : List String) (result : List PendingIssue)
    : (scan members result).removes p = false := by
  rcases scan_cases members result with h | ⟨_, _, _, _, _, h⟩
  . rw [h]
    exact removes_visit result
  . rw [h]
    rfl

theorem Mark.removes_markResult (userId couponTypeId : JsNumber) (status : IssuePendingStatus)
    (code : Option String)
    : (ServerB.markResult userId couponTypeId status code).removes p = false := by
  simp [removes, ServerB.markResult]

theorem Deliver.removes_attempt (payload : CouponIssueResultPayload) (n : Nat)
    : (attempt config payload n).removes p = false := by
  unfold attempt
  split
  . exact Mark.removes_markResult ..
  . rfl

theorem Deliver.removes_start (value : String) : (start config value).removes p = false := by
  unfold start
  split
  . rfl
  . exact removes_attempt _ _

theorem Call.removes_start {calls : List Call} (h : c.start config σ calls = true)
    : c.removes p = false := by
  unfold Call.start at h
  split at h
  . rfl
  . rfl
  . next value pc =>
    rw [beq_iff_eq] at h
    rw [h]
    exact Deliver.removes_start value
  . contradiction

theorem Sweep.removes_reject {s : Sweep} (h : s.pc.removes p = false)
    : s.reject.pc.removes p = false := by
  unfold reject
  split
  . rfl
  . rfl
  . rfl
  . exact SweepPc.removes_visit _
  . exact SweepPc.removes_visit _
  . exact SweepPc.removes_visit _
  . exact SweepPc.removes_visit _
  . exact h

theorem Call.removes_reject (h : c.removes p = false) : (c.reject config).removes p = false := by
  cases c with
  | accept a => rfl
  | sweep s => exact Sweep.removes_reject h
  | deliver d =>
    change (d.reject config).pc.removes p = false
    unfold Deliver.reject
    split
    . exact Deliver.removes_attempt _ _
    . exact h

theorem Sweep.removes_answered {s : Sweep} (config : Config) (h : s.pc.removes p = false) (now : Nat)
    (result : Option UserCouponLookupResult)
    : (s.answered config now result).pc.removes p = false := by
  unfold answered
  split
  . split
    . exact Mark.removes_markResult ..
    . split
      . rfl
      . exact Mark.removes_markResult ..
  . exact h

theorem Mark.removes_next {m m' : Mark} {reply : Reply} (hnext : m.next = some m')
    (hstatus : m.status ≠ .pending)
    (hexec : σ.redis.exec m.command = some (σ'.redis, reply)) (hnot : m.removes p = false)
    (hremoves : m'.removes p = true)
    : σ'.redis.get p.hashKey .status ≠ some IssuePendingStatus.pending.text := by
  obtain ⟨hpair, _, _⟩ := next_spec hnext
  simp only [removes, hpair, Bool.and_eq_true, beq_iff_eq, Bool.and_eq_false_iff,
    beq_eq_false_iff_ne, bne_eq_false_iff_eq] at hnot hremoves
  have hpc : m.pc = .hsetStatus := hnot.resolve_left (fun h => h hremoves.1)
  simp only [command, hpc] at hexec
  have hget : σ'.redis.get m.hashKey .status = some m.status.text := by
    rw [exec_hset hexec]
    exact get_setAll_of_mem _ (by simp) (by simp)
  rw [← hremoves.1, show m.pair.hashKey = m.hashKey from rfl, hget]
  intro h
  exact hstatus (IssuePendingStatus.text_injective (Option.some.inj h))

theorem Sweep.removes_resume {s : Sweep} {command : Command} {reply : Reply} (hlocal : s.pc.Local)
    (hawaits : (Call.sweep s).awaits config = .redis command)
    (hexec : σ.redis.exec command = some (σ'.redis, reply)) (hnot : s.pc.removes p = false)
    (hremoves : (s.resume reply).pc.removes p = true)
    : σ'.redis.get p.hashKey .status ≠ some IssuePendingStatus.pending.text := by
  unfold resume at hremoves
  split at hremoves
  . split at hremoves
    . rw [Sweep.goto, SweepPc.removes_scan] at hremoves
      contradiction
    . exact absurd (hnot.symm.trans hremoves) (by decide)
  . next userId couponTypeId member members result hpc =>
    split at hremoves
    . -- the hash of the orphan does not exist
      simp only [Call.awaits, hpc, Await.redis.injEq] at hawaits
      rw [← hawaits] at hexec
      obtain ⟨hredis, hreply⟩ := exec_hgetall hexec
      rw [hpc] at hlocal
      simp only [Sweep.goto, SweepPc.removes, beq_iff_eq] at hremoves
      rw [hremoves] at hlocal
      have hp := Pair.eq_of_parseMember hlocal
      rw [Redis.Reply.entries.injEq, eq_comm, Option.map_eq_none_iff] at hreply
      rw [hredis, hp, Redis.Server.get, Pair.hashKey, hreply]
      simp
    . split at hremoves
      . rw [Sweep.goto, SweepPc.removes_scan] at hremoves
        contradiction
      . rw [Sweep.goto, SweepPc.removes_scan] at hremoves
        contradiction
    . exact absurd (hnot.symm.trans hremoves) (by decide)
  . rw [Sweep.goto, SweepPc.removes_scan] at hremoves
    contradiction
  . next mark gaveUp stale hpc =>
    simp only [Call.awaits, hpc, Await.redis.injEq] at hawaits
    rw [← hawaits] at hexec
    rw [hpc] at hlocal hnot
    split at hremoves
    . next hnext => exact Mark.removes_next hnext hlocal hexec hnot hremoves
    . rw [Sweep.goto, SweepPc.removes_visit] at hremoves
      contradiction
  . split at hremoves
    . contradiction
    . split at hremoves
      . rw [Sweep.goto, SweepPc.removes_visit] at hremoves
        contradiction
      . contradiction
  . exact absurd (hnot.symm.trans hremoves) (by decide)

theorem Deliver.removes_resume {d : Deliver} {command : Command} {reply : Reply}
    (hlocal : d.pc.Local) (hawaits : (Call.deliver d).awaits config = .redis command)
    (hexec : σ.redis.exec command = some (σ'.redis, reply)) (hnot : d.pc.removes p = false)
    (hremoves : d.resume.pc.removes p = true)
    : σ'.redis.get p.hashKey .status ≠ some IssuePendingStatus.pending.text := by
  unfold resume at hremoves
  split at hremoves
  . next payload attempt mark hpc =>
    simp only [Call.awaits, hpc, Await.redis.injEq] at hawaits
    rw [← hawaits] at hexec
    rw [hpc] at hlocal hnot
    split at hremoves
    . next hnext => exact Mark.removes_next hnext hlocal hexec hnot hremoves
    . contradiction
  . exact absurd (hnot.symm.trans hremoves) (by decide)

theorem Call.removes_steps (hlocal : c.Local) (hsteps : c.Steps config σ σ' x c')
    (hnot : c.removes p = false) (hremoves : c'.removes p = true)
    : σ'.redis.get p.hashKey .status ≠ some IssuePendingStatus.pending.text := by
  cases hsteps with
  | replied command reply hawaits hexec =>
    cases c with
    | accept a => contradiction
    | sweep s => exact Sweep.removes_resume hlocal hawaits hexec hnot hremoves
    | deliver d => exact Deliver.removes_resume hlocal hawaits hexec hnot hremoves
  | lost command reply _ _ =>
    rw [removes_reject hnot] at hremoves
    contradiction
  | failed x command _ _ _ =>
    rw [removes_reject hnot] at hremoves
    contradiction
  | published x payload _ _ =>
    cases c with
    | accept a => contradiction
    | sweep s =>
      rw [show (published (sweep s)).removes p = false from Sweep.removes_reject hnot] at hremoves
      contradiction
    | deliver d => exact absurd (hnot.symm.trans hremoves) (by decide)
  | answered userId couponTypeId result _ _ =>
    cases c with
    | accept a => contradiction
    | sweep s =>
      have := Sweep.removes_answered config hnot σ.clock result
      exact absurd (this.symm.trans hremoves) (by decide)
    | deliver d => exact absurd (hnot.symm.trans hremoves) (by decide)
  | unanswered executed userId couponTypeId _ _ =>
    rw [removes_reject hnot] at hremoves
    contradiction
  | crashed _ _ => cases c <;> contradiction

end Removal

end ServerB
